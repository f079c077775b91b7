import ImageBuild.Text.Base64
import ImageBuild.Text.Pieces
import ImageBuild.Text.Quoted
import ImageBuild.Text.Utf8
/-!
# PEM texts

A text with sections in Base64 between lines that begin and end them and tell what they hold.  What stands
between the sections does not count, and sections of unknown labels need not be Base64.
-/

namespace ImageBuild.Text.Pem

/-- Why a byte string is no PEM text. -/
inductive Fault where
  /-- The last section has no end. -/
  | unended (label : List UInt8)
  /-- A line that should begin a section does not end in five dashes. -/
  | badStart (line : List UInt8)
  /-- A byte that is no symbol. -/
  | symbol (b : UInt8)
  /-- Padding with symbols behind it. -/
  | earlyPadding
  /-- The last symbols and their padding encode no bytes. -/
  | badEnd
deriving Repr, DecidableEq

def Fault.message : Fault → String
  | .unended label => "section end " ++ quoted (Utf8.toStringLossy label) ++ " missing"
  | .badStart line => "illegal section start: " ++ quoted (Utf8.toStringLossy line)
  | .symbol b => "InvalidCharacter(" ++ Nat.repr b.toNat ++ ")"
  | .earlyPadding => "PrematurePadding"
  | .badEnd => "InvalidTrailingPadding"

def dash : UInt8 := 45

def isBreak (b : UInt8) : Bool := b = 10 || b = 13

/-- Whether a byte does not count in Base64: a blank, a tab or any kind of line break. -/
def isSpace (b : UInt8) : Bool := b = 32 || (9 ≤ b && b ≤ 13)

/-- The lines of a text, each with the character that ends it. -/
def lines : List UInt8 → List (List UInt8)
  | [] => []
  | b :: rest =>
    if isBreak b then [b] :: lines rest
    else
      match lines rest with
      | [] => [[b]]
      | line :: more => (b :: line) :: more

def startMark : List UInt8 := Utf8.ofString "-----BEGIN "

def endMark : List UInt8 := Utf8.ofString "-----END "

def closeMark : List UInt8 := Utf8.ofString "-----"

/-- The label in a line that begins a section, between the mark and five dashes with or without blanks
around them. -/
def label? (line : List UInt8) : Option (List UInt8) :=
  let tail := (line.reverse.takeWhile fun b => b = dash || isBreak b || b = 32).reverse
  let tail := tail.dropWhile (· ≠ dash)
  if tail.count dash = 5 then
    some ((line.take (line.length - tail.length)).drop startMark.length)
  else none

/-- Whether a line ends a section of this label. -/
def isEnd (label line : List UInt8) : Bool :=
  (endMark ++ label ++ closeMark).isPrefixOf line

/-- The labels of the sections whose content counts. -/
def labels : List (List UInt8) :=
  ["RSA PRIVATE KEY", "PRIVATE KEY", "EC PRIVATE KEY", "CERTIFICATE", "PUBLIC KEY", "X509 CRL",
    "CERTIFICATE REQUEST", "ECHCONFIG"].map Utf8.ofString

/-- Whether padding ends a block of symbols well; the padding of the last block may be left out. -/
def isEndBlock (block : List Bool) : Bool :=
  let padding := block.count true
  block.length - padding ≠ 1 && !(block.dropWhile (!·)).contains false &&
    (block.isEmpty || block.length = 4 && padding ≤ 2 || block.length ≤ 3 && padding = 0)

/-- What is wrong with Base64 in which space does not count.  Eight symbols are decoded at
a time; `block` says which of those since the last eight are padding, the latest first. -/
def faultInContent (block : List Bool) : List UInt8 → Option Fault
  | [] =>
    let (first, last) := if 4 < block.length then block.reverse.splitAt 4 else ([], block.reverse)
    if first.contains true then some .earlyPadding
    else if isEndBlock last then none
    else some .badEnd
  | b :: rest =>
    if isSpace b then faultInContent block rest
    else
      let isPad := b = Base64.pad
      if !isPad && (Base64.value? b).isNone then some (.symbol b)
      else if block.length < 8 then faultInContent (isPad :: block) rest
      else if block.contains true then some .earlyPadding
      else faultInContent [isPad] rest

/-- What is wrong with lines, where `label` is that of the section they are in, and `content` holds its
lines so far, the latest first. -/
def faultInLines (label : Option (List UInt8)) (content : List (List UInt8)) :
    List (List UInt8) → Option Fault
  | [] => label.map .unended
  | line :: rest =>
    if startMark.isPrefixOf line then
      match label? line with
      | some next => faultInLines (some next) content rest
      | none => some (.badStart line)
    else
      match label with
      | none => faultInLines none content rest
      | some label =>
        if !isEnd label line then faultInLines (some label) (line :: content) rest
        else if !labels.contains label then faultInLines none [] rest
        else
          match faultInContent [] content.reverse.flatten with
          | some f => some f
          | none => faultInLines none [] rest

/-- The first thing that is wrong with a PEM text. -/
def fault? (bytes : List UInt8) : Option Fault :=
  faultInLines none [] (lines bytes)

end ImageBuild.Text.Pem
