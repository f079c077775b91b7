import ImageBuild.Text.Pieces
import ImageBuild.Text.Utf8
/-!
# Targets of requests

A request names what it is about by a path and a query.  Here both are made from a text that holds names
as users write them: steps that lead nowhere are taken out, and characters that may not stand in a path
are written as their bytes.
-/

namespace ImageBuild.Engine

structure Target where
  path : String
  /-- The names and values of the query. -/
  params : List (String × String)
deriving Repr, DecidableEq

namespace Target

/-- Whether a character does not count at either end of a target. -/
def isEdge (c : Char) : Bool := c.toNat ≤ 0x20

/-- Whether a character does not count anywhere in a target. -/
def isBreak (c : Char) : Bool := c = '\t' || c = '\n' || c = '\r'

/-- The characters of a text that count. -/
def significant (cs : List Char) : List Char :=
  (Text.dropTailWhile isEdge (cs.dropWhile isEdge)).filter fun c => !isBreak c

/-- Whether a character may stand in a path as it is. -/
def isPlain (c : Char) : Bool :=
  0x21 ≤ c.toNat && c.toNat ≤ 0x7E && !("\"#<>?`\x7b\x7d".toList.contains c)

/-- A byte as two digits behind a percent sign. -/
def escapeByte (b : UInt8) : List Char :=
  let digit (n : Nat) : Char := Char.ofNat (if n < 10 then 48 + n else 55 + n)
  ['%', digit (b.toNat / 16), digit (b.toNat % 16)]

def escapeChar (c : Char) : List Char :=
  if isPlain c then [c] else (Text.Utf8.encode [c]).flatMap escapeByte

/-- A step of a path, with the dots that are written as bytes read. -/
def dotsOf : List Char → List Char
  | '%' :: '2' :: c :: rest =>
    if c = 'e' ∨ c = 'E' then '.' :: dotsOf rest else '%' :: '2' :: dotsOf (c :: rest)
  | c :: rest => c :: dotsOf rest
  | [] => []

def isHere (step : List Char) : Bool := dotsOf step = ['.']

def isUp (step : List Char) : Bool := dotsOf step = ['.', '.']

/-- Whether a step begins like the name of a drive: a letter with a colon or a bar, and no more than
that before a backslash. -/
def isDrive : List Char → Bool
  | c :: d :: rest => c.isAlpha && (d = ':' || d = '|') && (rest.isEmpty || rest.head? = some '\\')
  | _ => false

/-- Takes back the latest step, which comes first, unless it is a drive. -/
def takeBack : List (List Char) → List (List Char)
  | [] => []
  | step :: before => if isDrive step then step :: before else before

/-- Takes the steps of a path after those taken so far, the latest first.  A path that ends in dots ends
in a slash. -/
def walk (taken : List (List Char)) : List (List Char) → List (List Char)
  | [] => taken
  | [last] =>
    if isUp last then [] :: takeBack taken
    else if isHere last then [] :: taken
    else last :: taken
  | step :: rest =>
    walk (if isUp step then takeBack taken else if isHere step then taken else step :: taken) rest

/-- The path that a text with slashes stands for, its first slash left out. -/
def pathOf (cs : List Char) : String :=
  let steps := (walk [] (cs.splitOn '/')).reverse
  String.ofList (steps.flatMap fun step => '/' :: step.flatMap escapeChar)

def hexDigit? (c : Char) : Option Nat :=
  if '0' ≤ c ∧ c ≤ '9' then some (c.toNat - 48)
  else if 'a' ≤ c ∧ c ≤ 'f' then some (c.toNat - 87)
  else if 'A' ≤ c ∧ c ≤ 'F' then some (c.toNat - 55)
  else none

/-- The bytes of a text in a query. -/
def queryBytes : List Char → List UInt8
  | [] => []
  | '+' :: rest => 32 :: queryBytes rest
  | '%' :: a :: b :: rest =>
    match hexDigit? a, hexDigit? b with
    | some m, some n => UInt8.ofNat (m * 16 + n) :: queryBytes rest
    | _, _ => 37 :: queryBytes (a :: b :: rest)
  | c :: rest => Text.Utf8.encode [c] ++ queryBytes rest

/-- A name and a value of a query. -/
def paramOf (cs : List Char) : String × String :=
  let read (cs : List Char) : String := Text.Utf8.toStringLossy (queryBytes cs)
  match Text.splitOnce '=' cs with
  | some (name, value) => (read name, read value)
  | none => (read cs, "")

def paramsOf (cs : List Char) : List (String × String) :=
  ((cs.splitOn '&').filter fun piece => !piece.isEmpty).map paramOf

/-- The target that a text beginning with a slash stands for.  What follows a `#` is no part of it. -/
def ofText (s : String) : Target :=
  let cs := (significant s.toList).takeWhile (· ≠ '#')
  match Text.splitOnce '?' cs with
  | some (path, query) => ⟨pathOf (path.drop 1), paramsOf query⟩
  | none => ⟨pathOf (cs.drop 1), []⟩

end Target
end ImageBuild.Engine
