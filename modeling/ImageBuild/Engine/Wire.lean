import ImageBuild.Text.Decimal
import ImageBuild.Text.Utf8
/-!
# Binary records

A binary record is a sequence of fields, each with a number and a value.  A value is a number, a string of
bytes or a group of fields; what stands in a string of bytes, a text or another record, is known from the
number of the field.  Fields whose number is not known are skipped.
-/

namespace ImageBuild.Engine

/-- The value of a field. -/
inductive Wire where
  | number (n : Nat)
  | bytes (bs : List UInt8)
  | text (s : String)
  | record (fields : List (Nat × Wire))
deriving Repr

namespace Wire

/-- A field: its number, which is never zero, and its value. -/
abbrev Field := Nat × Wire

/-- What stands in a field, where the forms of records have names in `φ`. -/
inductive Kind (φ : Type) where
  | number
  | bytes
  | text
  | record (form : φ)
  /-- An entry of a table.  It is read as a record, however it is announced. -/
  | entry (form : φ)
deriving Repr, DecidableEq

/-- What stands in the known fields of records of each form. -/
abbrev Forms (φ : Type) := φ → Nat → Option (Kind φ)

/-- The bytes of a number: seven bits in each, the lowest first, and a mark on all but the last. -/
def encodeNumber (n : Nat) : List UInt8 :=
  if n < 128 then [UInt8.ofNat n] else UInt8.ofNat (n % 128 + 128) :: encodeNumber (n / 128)
termination_by n
decreasing_by omega

/-- The most bytes that a number takes. -/
def numberLimit : Nat := 10

/-- Reads a number of at most `places` bytes, and answers it with what comes after it. -/
def decodeNumber : Nat → List UInt8 → Option (Nat × List UInt8)
  | 0, _ => none
  | _, [] => none
  | places + 1, b :: rest =>
    if b < 128 then
      if places = 0 ∧ 1 < b then none else some (b.toNat, rest)
    else
      (decodeNumber places rest).map fun (n, rest) => (b.toNat - 128 + 128 * n, rest)

/-- Reads so many bytes. -/
def takeBytes (n : Nat) (bs : List UInt8) : Option (List UInt8 × List UInt8) :=
  let front := bs.take n
  if front.length < n then none else some (front, bs.drop n)

/-- Reads a string of bytes, which follows the number of its bytes. -/
def decodeBytes (bs : List UInt8) : Option (List UInt8 × List UInt8) :=
  (decodeNumber numberLimit bs).bind fun (n, rest) => takeBytes n rest

/-- The way in which a value is written. -/
inductive Way where
  | number
  /-- Eight bytes. -/
  | long
  | bytes
  | groupStart
  | groupEnd
  /-- Four bytes. -/
  | short
deriving Repr, DecidableEq

def Way.ofNat? : Nat → Option Way
  | 0 => some number
  | 1 => some long
  | 2 => some bytes
  | 3 => some groupStart
  | 4 => some groupEnd
  | 5 => some short
  | _ => none

/-- Reads the number of a field and the way in which its value is written. -/
def decodeKey (bs : List UInt8) : Option ((Nat × Way) × List UInt8) := do
  let (key, rest) ← decodeNumber numberLimit bs
  if Text.words32 ≤ key ∨ key / 8 = 0 then none
  return ((key / 8, ← Way.ofNat? (key % 8)), rest)

/-- Skips the fields of a group up to the end of the group with this number. -/
def skipGroup (skipField : Nat → Way → List UInt8 → Option (List UInt8)) (number : Nat) :
    Nat → List UInt8 → Option (List UInt8)
  | 0, _ => none
  | fuel + 1, bs => do
    let ((n, way), rest) ← decodeKey bs
    if way = .groupEnd then
      if n = number then some rest else none
    else skipGroup skipField number fuel (← skipField n way rest)

/-- Skips the value of a field with this number.  Groups nest to less than `depth`. -/
def skip (depth number : Nat) (way : Way) (bs : List UInt8) : Option (List UInt8) :=
  match depth, way with
  | 0, _ => none
  | _ + 1, .number => (decodeNumber numberLimit bs).map Prod.snd
  | _ + 1, .long => (takeBytes 8 bs).map Prod.snd
  | _ + 1, .bytes => (decodeBytes bs).map Prod.snd
  | depth + 1, .groupStart => skipGroup (skip depth) number bs.length bs
  | _ + 1, .groupEnd => none
  | _ + 1, .short => (takeBytes 4 bs).map Prod.snd

section

variable {φ : Type}

/-- Reads a record behind the number of its bytes. -/
def decodeRecord (inner : φ → List UInt8 → Option (List Field)) (form : φ) (bs : List UInt8) :
    Option (Wire × List UInt8) := do
  let (front, rest) ← decodeBytes bs
  return (record (← inner form front), rest)

/-- Reads the value of a known field. -/
def decodeValue (inner : φ → List UInt8 → Option (List Field)) (kind : Kind φ) (way : Way)
    (bs : List UInt8) : Option (Wire × List UInt8) :=
  match kind, way with
  | .number, .number => (decodeNumber numberLimit bs).map fun (n, rest) => (number n, rest)
  | .bytes, .bytes => (decodeBytes bs).map fun (front, rest) => (bytes front, rest)
  | .text, .bytes => do
    let (front, rest) ← decodeBytes bs
    return (text (← (Text.Utf8.toString? front).toOption), rest)
  | .record form, .bytes => decodeRecord inner form bs
  | .entry form, _ => decodeRecord inner form bs
  | _, _ => none

/-- Reads the fields of a record of some form; each takes at least one byte of `fuel`. -/
def decodeFields (forms : Forms φ) (depth : Nat) (inner : φ → List UInt8 → Option (List Field))
    (form : φ) : Nat → List UInt8 → Option (List Field)
  | _, [] => some []
  | 0, _ => none
  | fuel + 1, bs => do
    let ((n, way), rest) ← decodeKey bs
    match forms form n with
    | some kind =>
      let (v, rest) ← decodeValue inner kind way rest
      return (n, v) :: (← decodeFields forms depth inner form fuel rest)
    | none => decodeFields forms depth inner form fuel (← skip depth n way rest)

/-- Reads the known fields of a record, in which records and groups nest to `depth`. -/
def decodeTo (forms : Forms φ) : Nat → φ → List UInt8 → Option (List Field)
  | 0, form, bs => decodeFields forms 0 (fun _ _ => none) form bs.length bs
  | depth + 1, form, bs =>
    decodeFields forms (depth + 1) (decodeTo forms depth) form bs.length bs

/-- Records and groups nest to this depth. -/
def depthLimit : Nat := 100

/-- Reads the known fields of a record. -/
def decode? (forms : Forms φ) (form : φ) (bs : List UInt8) : Option (List Field) :=
  decodeTo forms depthLimit form bs

end

/-- The bytes of a field that is written as a string of bytes. -/
def encodeBytes (n : Nat) (bs : List UInt8) : List UInt8 :=
  encodeNumber (8 * n + 2) ++ encodeNumber bs.length ++ bs

/-- The bytes of a record. -/
def encode : List Field → List UInt8
  | [] => []
  | (n, number k) :: rest => encodeNumber (8 * n) ++ encodeNumber k ++ encode rest
  | (n, bytes bs) :: rest => encodeBytes n bs ++ encode rest
  | (n, text s) :: rest => encodeBytes n (Text.Utf8.ofString s) ++ encode rest
  | (n, record fields) :: rest => encodeBytes n (encode fields) ++ encode rest

/-- The values of the fields with a number. -/
def valuesOf (n : Nat) (fields : List Field) : List Wire :=
  (fields.filter fun f => f.1 == n).map Prod.snd

def number? : Wire → Option Nat
  | number n => some n
  | _ => none

def bytes? : Wire → Option (List UInt8)
  | bytes bs => some bs
  | _ => none

def text? : Wire → Option String
  | text s => some s
  | _ => none

def record? : Wire → Option (List Field)
  | record fields => some fields
  | _ => none

/-- The last of the values with a number. -/
def last {α : Type} (read : Wire → Option α) (default : α) (n : Nat) (fields : List Field) : α :=
  ((valuesOf n fields).filterMap read).getLastD default

/-- All records with a number. -/
def records (n : Nat) (fields : List Field) : List (List Field) :=
  (valuesOf n fields).filterMap record?

/-- Whether a field with a number is told. -/
def tells (n : Nat) (fields : List Field) : Bool :=
  fields.any fun f => f.1 == n

/-- A number of 64 bits with a sign. -/
def toInt (n : Nat) : Int :=
  Int.bmod n Text.words64

end Wire
end ImageBuild.Engine
