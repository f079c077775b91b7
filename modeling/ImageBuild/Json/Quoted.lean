import ImageBuild.Json.Scan
import ImageBuild.Text.Utf8
/-!
# Strings in JSON

A string is read up to its closing quote.  Its escapes have to name characters, so a character beyond
the first plane takes two escapes that belong together; `skipString` asks for the form of an escape
only.
-/

namespace ImageBuild.Json

def hexValue? (c : Char) : Option Nat :=
  if '0' ≤ c ∧ c ≤ '9' then some (c.toNat - 48)
  else if 'a' ≤ c ∧ c ≤ 'f' then some (c.toNat - 87)
  else if 'A' ≤ c ∧ c ≤ 'F' then some (c.toNat - 55)
  else none

/-- The number that four hexadecimal digits stand for. -/
def hexUnit? : List Char → Option Nat
  | [a, b, c, d] => do
    return (((← hexValue? a) * 16 + (← hexValue? b)) * 16 + (← hexValue? c)) * 16 + (← hexValue? d)
  | _ => none

/-- The fault of a text that goes on with `cs` where four digits had to stand, and so four bytes. -/
def hexFaultAt (cs : List Char) : Fault :=
  if (Text.Utf8.encode (cs.take 4)).length < 4 then .unfinished else .malformed

/-- Reads four hexadecimal digits. -/
def hexUnit (cs : List Char) : Parsed Nat :=
  match hexUnit? (cs.take 4) with
  | some u => .ok (u, cs.drop 4)
  | none => .error (hexFaultAt cs)

/-- The character that the escape letter `c` stands for. -/
def simpleEscape? (c : Char) : Option Char :=
  if c = '"' ∨ c = '\\' ∨ c = '/' then some c
  else if c = 'b' then some (Char.ofNat 8)
  else if c = 'f' then some (Char.ofNat 12)
  else if c = 'n' then some '\n'
  else if c = 'r' then some '\r'
  else if c = 't' then some '\t'
  else none

def isHighSurrogate (u : Nat) : Bool := 0xD800 ≤ u && u < 0xDC00

def isLowSurrogate (u : Nat) : Bool := 0xDC00 ≤ u && u < 0xE000

/-- Reads the escape that has to follow the first half of a surrogate pair. -/
def secondHalf (high : Nat) (cs : List Char) : Except Fault (Char × List Char) :=
  match cs with
  | '\\' :: 'u' :: rest => do
    let (low, rest) ← hexUnit rest
    if isLowSurrogate low then
      return (Char.ofNat (0x10000 + (high - 0xD800) * 1024 + (low - 0xDC00)), rest)
    throw .malformed
  | ['\\'] => .error .unfinished
  | cs => .error (faultAt cs)

/-- Reads the escape after `\u`, which may be two escapes for one character. -/
def unicodeEscape (cs : List Char) : Except Fault (Char × List Char) := do
  let (u, rest) ← hexUnit cs
  if isLowSurrogate u then throw .malformed
  if isHighSurrogate u then secondHalf u rest else return (Char.ofNat u, rest)

/-- Reads the escape after a backslash. -/
def escape (cs : List Char) : Parsed Char :=
  match cs with
  | [] => .error .unfinished
  | 'u' :: rest => unicodeEscape rest
  | e :: rest =>
    match simpleEscape? e with
    | some c => .ok (c, rest)
    | none => .error .malformed

/-- Whether a character may not stand in a string. -/
def isControl (c : Char) : Bool := c.toNat < 0x20

/-- Reads a string up to its closing quote, after the characters `read`, the latest first. -/
def stringFrom (fuel : Nat) (cs : List Char) (read : List Char) :
    Except Fault (List Char × List Char) :=
  match fuel, cs with
  | _, [] => .error .unfinished
  | 0, _ => .error .unfinished
  | fuel + 1, c :: rest =>
    if c = '"' then .ok (read.reverse, rest)
    else if c = '\\' then do
      let (c, rest) ← escape rest
      stringFrom fuel rest (c :: read)
    else if isControl c then .error .malformed
    else stringFrom fuel rest (c :: read)

/-- Reads a string, the opening quote of which is already read; each character takes at least one of
`fuel`. -/
def string (fuel : Nat) (cs : List Char) : Parsed String :=
  (stringFrom fuel cs []).map fun (read, rest) => (String.ofList read, rest)

/-- Skips a string, the opening quote of which is already read. -/
def skipString : List Char → Except Fault (List Char)
  | [] => .error .unfinished
  | '"' :: rest => .ok rest
  | ['\\'] => .error .unfinished
  | '\\' :: 'u' :: a :: b :: c :: d :: rest =>
    if (hexUnit? [a, b, c, d]).isSome then skipString rest else .error .malformed
  | '\\' :: 'u' :: rest => .error (hexFaultAt rest)
  | '\\' :: e :: rest => if (simpleEscape? e).isSome then skipString rest else .error .malformed
  | c :: rest => if isControl c then .error .malformed else skipString rest

end ImageBuild.Json
