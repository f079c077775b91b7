/-!
# UTF-8

Bytes and the characters they encode.  Reading goes byte sequence by byte sequence: `scan` looks at
the front of the input and says how long the sequence there is and what it encodes, or how many bytes
of it are wrong.  `decode` stops at the first wrong sequence, `decodeLossy` puts the replacement
character in its place.
-/

namespace ImageBuild.Text.Utf8

/-- What stands at the front of a byte string. -/
inductive Scan where
  /-- A character, encoded in `width + 1` bytes. -/
  | char (c : Char) (width : Nat)
  /-- A sequence that breaks off after `width + 1` bytes because the next byte does not continue it. -/
  | wrong (width : Nat)
  /-- A sequence that the end of the input cuts off. -/
  | cut
deriving Repr, DecidableEq

def isContinuation (b : UInt8) : Bool := 0x80 ≤ b && b ≤ 0xBF

/-- The second bytes that may follow a leading byte of a sequence of three or four bytes; they leave
out the overlong forms, the surrogates and what lies beyond the last code point. -/
def secondBytes (lead : UInt8) : UInt8 × UInt8 :=
  if lead = 0xE0 then (0xA0, 0xBF)
  else if lead = 0xED then (0x80, 0x9F)
  else if lead = 0xF0 then (0x90, 0xBF)
  else if lead = 0xF4 then (0x80, 0x8F)
  else (0x80, 0xBF)

def isSecond (lead b : UInt8) : Bool :=
  (secondBytes lead).1 ≤ b && b ≤ (secondBytes lead).2

/-- The character with the bits of a leading byte and its continuation bytes. -/
def assemble (lead : Nat) (continuations : List UInt8) : Char :=
  Char.ofNat (continuations.foldl (fun acc b => acc * 64 + b.toNat % 64) lead)

/-- Looks at the sequence that begins with `lead`. -/
def scan (lead : UInt8) (rest : List UInt8) : Scan :=
  if lead < 0x80 then .char (Char.ofNat lead.toNat) 0
  else if 0xC2 ≤ lead ∧ lead ≤ 0xDF then
    match rest with
    | [] => .cut
    | b :: _ => if isContinuation b then .char (assemble (lead.toNat % 32) [b]) 1 else .wrong 0
  else if 0xE0 ≤ lead ∧ lead ≤ 0xEF then
    match rest with
    | [] => .cut
    | b :: rest =>
      if isSecond lead b then
        match rest with
        | [] => .cut
        | c :: _ =>
          if isContinuation c then .char (assemble (lead.toNat % 16) [b, c]) 2 else .wrong 1
      else .wrong 0
  else if 0xF0 ≤ lead ∧ lead ≤ 0xF4 then
    match rest with
    | [] => .cut
    | b :: rest =>
      if isSecond lead b then
        match rest with
        | [] => .cut
        | c :: rest =>
          if isContinuation c then
            match rest with
            | [] => .cut
            | d :: _ =>
              if isContinuation d then .char (assemble (lead.toNat % 8) [b, c, d]) 3
              else .wrong 2
          else .wrong 1
      else .wrong 0
  else .wrong 0

/-- Why a byte string is no text. -/
inductive Fault where
  /-- `length` bytes from `index` on are no character. -/
  | invalid (length index : Nat)
  /-- The character that begins at `index` is cut off by the end. -/
  | incomplete (index : Nat)
deriving Repr, DecidableEq

def Fault.message : Fault → String
  | .invalid length index =>
    "invalid utf-8 sequence of " ++ Nat.repr length ++ " bytes from index " ++ Nat.repr index
  | .incomplete index => "incomplete utf-8 byte sequence from index " ++ Nat.repr index

/-- Reads `bytes`, whose first byte has the given index in the whole input. -/
def decodeFrom (index : Nat) (bytes : List UInt8) : Except Fault (List Char) :=
  match bytes with
  | [] => .ok []
  | lead :: rest =>
    match scan lead rest with
    | .char c width => (decodeFrom (index + width + 1) (rest.drop width)).map (c :: ·)
    | .wrong width => .error (.invalid (width + 1) index)
    | .cut => .error (.incomplete index)
termination_by bytes.length
decreasing_by all_goals (simp only [List.length_cons, List.length_drop]; omega)

def decode (bytes : List UInt8) : Except Fault (List Char) :=
  decodeFrom 0 bytes

/-- The character that stands for bytes that encode none. -/
def replacement : Char := Char.ofNat 0xFFFD

/-- Reads every byte string: each wrong sequence becomes one replacement character. -/
def decodeLossy (bytes : List UInt8) : List Char :=
  match bytes with
  | [] => []
  | lead :: rest =>
    match scan lead rest with
    | .char c width => c :: decodeLossy (rest.drop width)
    | .wrong width => replacement :: decodeLossy (rest.drop width)
    | .cut => [replacement]
termination_by bytes.length
decreasing_by all_goals (simp only [List.length_cons, List.length_drop]; omega)

def encode (cs : List Char) : List UInt8 :=
  cs.flatMap String.utf8EncodeChar

/-- The bytes of a text. -/
def ofString (s : String) : List UInt8 :=
  encode s.toList

def toString? (bytes : List UInt8) : Except Fault String :=
  (decode bytes).map String.ofList

def toStringLossy (bytes : List UInt8) : String :=
  String.ofList (decodeLossy bytes)

end ImageBuild.Text.Utf8
