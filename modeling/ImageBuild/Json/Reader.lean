import ImageBuild.Json.Numeral
import ImageBuild.Json.Quoted
/-!
# Readers of JSON

A reader knows the shape of the value it reads, and reads it from the text in one go.  So a text has the
fault that is met first: a value of another shape at its front goes before a wrong character further
on.  A value of another shape is itself read first, unless it is a container.
-/

namespace ImageBuild.Json

/-- What a reader may use up. -/
structure Budget where
  /-- Containers may nest to one less than this. -/
  depth : Nat
  /-- No fewer than the characters that are left. -/
  size : Nat
deriving Repr, DecidableEq

/-- What is left of the budget inside a container. -/
def Budget.inside (b : Budget) : Except Fault Budget :=
  if b.depth ≤ 1 then .error .malformed else .ok { b with depth := b.depth - 1 }

abbrev Reader (α : Type) := Budget → List Char → Except Fault (α × List Char)

/-- Reads a value that is no container and has no blanks in front. -/
def scalarAt (size : Nat) (cs : List Char) : Parsed Json :=
  let number (negative : Bool) (cs : List Char) : Parsed Json :=
    (Numeral.readNumber negative cs).map fun (n, rest) => (Json.number n, rest)
  match cs with
  | [] => .error .unfinished
  | '"' :: rest => (string size rest).map fun (s, rest) => (text s, rest)
  | 'n' :: rest => literal "ull".toList null rest
  | 't' :: rest => literal "rue".toList (bool true) rest
  | 'f' :: rest => literal "alse".toList (bool false) rest
  | '-' :: rest => number true rest
  | c :: rest => if c.isDigit then number false (c :: rest) else .error .malformed

/-- Reads a field of an object: a key, a colon and a value. -/
def fieldAt (size : Nat) (value : List Char → Parsed Json) (cs : List Char) :
    Except Fault ((String × Json) × List Char) :=
  match cs with
  | '"' :: rest => do
    let (key, rest) ← string size rest
    let (v, rest) ← value (← colon rest)
    return ((key, v), rest)
  | cs => .error (faultAt cs)

/-- Reads any value that nests containers to less than `depth`. -/
def valueAt (size : Nat) : Nat → List Char → Parsed Json
  | 0, _ => .error .malformed
  | depth + 1, cs =>
    match skipSpace cs with
    | '[' :: rest =>
      if depth = 0 then .error .malformed
      else
        (container ']' (fun items cs => (valueAt size depth cs).map fun (v, rest) =>
          (v :: items, rest)) size [] rest).map fun (items, rest) => (array items.reverse, rest)
    | '\x7b' :: rest =>
      if depth = 0 then .error .malformed
      else
        (container '\x7d' (fun fields cs => (fieldAt size (valueAt size depth) cs).map
          fun (f, rest) => (f :: fields, rest)) size [] rest).map fun (fields, rest) =>
            (object fields.reverse, rest)
    | cs => scalarAt size cs

/-- The pairs of keys and values, where the last of the fields with one key counts. -/
def lastOfEach {α : Type} : List (String × α) → List (String × α)
  | [] => []
  | (k, v) :: rest =>
    if rest.any (fun p => p.1 == k) then lastOfEach rest else (k, v) :: lastOfEach rest

namespace Reader

variable {α β : Type}

protected def map (f : α → β) (r : Reader α) : Reader β := fun b cs =>
  (r b cs).map fun (a, rest) => (f a, rest)

/-- Reads a value of which `f` makes something, if it makes something of it. -/
def choose (r : Reader α) (f : α → Option β) : Reader β := fun b cs => do
  let (a, rest) ← r b cs
  match f a with
  | some c => return (c, rest)
  | none => throw .mismatch

/-- Reads any value. -/
def any : Reader Json := fun b cs => valueAt b.size b.depth cs

/-- Reads a value that is no container. -/
def scalar : Reader Json := fun b cs =>
  match skipSpace cs with
  | '[' :: _ => .error .mismatch
  | '\x7b' :: _ => .error .mismatch
  | cs => scalarAt b.size cs

/-- Reads what is of another shape than it should be. -/
def refuse : Reader α :=
  scalar.choose fun _ => none

def text : Reader String :=
  scalar.choose text?

def bool : Reader Bool :=
  scalar.choose bool?

/-- A whole number below `bound`. -/
def natBelow (bound : Nat) : Reader Nat :=
  scalar.choose fun
    | .number (.natural n) => if n < bound then some n else none
    | _ => none

/-- A whole number that fits into 64 bits with a sign. -/
def int : Reader Int :=
  scalar.choose fun
    | .number (.natural n) => if n < Text.words64 / 2 then some (Int.ofNat n) else none
    | .number (.negative n) => some (-Int.ofNat n)
    | _ => none

/-- A value that may be `null`. -/
def nullable (r : Reader α) : Reader (Option α) := fun b cs =>
  match skipSpace cs with
  | 'n' :: rest => literal "ull".toList none rest
  | cs => r.map some b cs

def list (r : Reader α) : Reader (List α) := fun b cs =>
  match skipSpace cs with
  | '[' :: rest => do
    let inside ← b.inside
    let item (items : List α) (cs : List Char) : Parsed (List α) :=
      (r inside cs).map fun (a, rest) => (a :: items, rest)
    let (items, rest) ← container ']' item b.size [] rest
    return (items.reverse, rest)
  | cs => refuse b cs

/-- A table from keys to values. -/
def table (r : Reader α) : Reader (List (String × α)) := fun b cs =>
  match skipSpace cs with
  | '\x7b' :: rest => do
    let inside ← b.inside
    let entry (entries : List (String × α)) (cs : List Char) :
        Except Fault (List (String × α) × List Char) := do
      let '"' :: rest := cs | throw (faultAt cs)
      let (key, rest) ← string b.size rest
      let (a, rest) ← r inside (← colon rest)
      return ((key, a) :: entries, rest)
    let (entries, rest) ← container '\x7d' entry b.size [] rest
    return (lastOfEach entries.reverse, rest)
  | cs => refuse b cs

/-- A text that is one of some words. -/
def among (r : Reader String) (words : List String) : Reader String :=
  r.choose fun s => if words.contains s then some s else none

/-- One of some words.  The word may also be the only key of an object, with `null` as its value. -/
def word (words : List String) : Reader String :=
  let plain : Reader String := text.among words
  fun b cs =>
    match skipSpace cs with
    | '"' :: rest => plain b ('"' :: rest)
    | '\x7b' :: rest => do
      let inside ← b.inside
      let (s, rest) ← plain inside rest
      let (_, rest) ← scalar.choose (fun v => if v.isNull then some () else none) inside
        (← colon rest)
      match skipSpace rest with
      | '\x7d' :: rest => return (s, rest)
      | rest => throw (faultAt rest)
    | cs => .error (faultAt cs)

/-- Containers may nest to one less than this. -/
def depthLimit : Nat := 128

/-- Reads a text that holds one value and nothing after it. -/
def readChars (r : Reader α) (cs : List Char) : Except Fault α := do
  let (a, rest) ← r ⟨depthLimit, cs.length⟩ cs
  if (skipSpace rest).isEmpty then return a
  throw .malformed

def readText (r : Reader α) (s : String) : Except Fault α :=
  r.readChars s.toList

/-- A character in place of one of which the end leaves `n` bytes; it is as long. -/
def cutOff (n : Nat) : Char :=
  if n = 1 then Char.ofNat 0x7F else if n = 2 then Char.ofNat 0x80 else Text.Utf8.replacement

/-- Reads bytes; bytes that are no text are no JSON.  What is left of a character that the end cuts off
counts as one, so that a text which breaks off within it is unfinished like any other. -/
def readBytes (r : Reader α) (bytes : List UInt8) : Except Fault α :=
  match Text.Utf8.decode bytes with
  | .ok cs => r.readChars cs
  | .error (.incomplete index) =>
    r.readChars (Text.Utf8.decodeLossy (bytes.take index) ++ [cutOff (bytes.length - index)])
  | .error _ => .error .malformed

end Reader
end ImageBuild.Json
