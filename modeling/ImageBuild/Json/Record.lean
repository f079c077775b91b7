import ImageBuild.Json.Reader
import ImageBuild.Json.Skip
/-!
# Records in JSON

A record is written as an object, or as the array of its fields in order.  Its reader knows what each
field does to the record; the fields of an object may come in any order, none of them twice, and fields
with other keys are skipped.
-/

namespace ImageBuild.Json

/-- Whether a field may be left out. -/
inductive Presence where
  | required
  /-- An object may leave the field out, an array may not. -/
  | optional
  /-- Object and array may leave the field out. -/
  | defaulted
deriving Repr, DecidableEq

/-- A field of records that are values of `σ`. -/
structure Field (σ : Type) where
  name : String
  presence : Presence
  /-- Reads what the field makes of a record. -/
  reader : Reader (σ → σ)

namespace Field

variable {α σ : Type}

/-- A field that has to be there. -/
def required (name : String) (r : Reader α) (set : α → σ → σ) : Field σ :=
  ⟨name, .required, r.map set⟩

/-- A field that may be `null`, and may be left out of an object. -/
def optional (name : String) (r : Reader α) (set : Option α → σ → σ) : Field σ :=
  ⟨name, .optional, r.nullable.map set⟩

/-- A field that may be left out. -/
def defaulted (name : String) (r : Reader α) (set : α → σ → σ) : Field σ :=
  ⟨name, .defaulted, r.map set⟩

/-- An optional field that has to be of some shape, whatever its value. -/
def unused (r : Reader α) (name : String) : Field σ :=
  optional name r fun _ s => s

/-- A field of some shape that has to be there, whatever its value. -/
def present (r : Reader α) (name : String) : Field σ :=
  required name r fun _ s => s

end Field

namespace Record

variable {σ : Type}

/-- A record that is being read, with the keys met so far. -/
abbrev Partial (σ : Type) := σ × List String

/-- Reads a field of an object. -/
def entry (fields : List (Field σ)) (b : Budget) (s : Partial σ) (cs : List Char) :
    Except Fault (Partial σ × List Char) :=
  match cs with
  | '"' :: rest => do
    let (key, rest) ← string b.size rest
    match fields.find? fun f => f.name == key with
    | none =>
      let rest ← skipValue b.size (← colon rest)
      return (s, rest)
    | some f =>
      if s.2.contains key then throw .mismatch
      let (update, rest) ← f.reader b (← colon rest)
      return ((update s.1, key :: s.2), rest)
  | cs => .error (faultAt cs)

/-- Whether an object with these keys has all fields that have to be there. -/
def isComplete (fields : List (Field σ)) (keys : List String) : Bool :=
  fields.all fun f => f.presence ≠ .required || keys.contains f.name

/-- Reads the fields of an array, from the first or a later item on. -/
def items (b : Budget) (isFirst : Bool) :
    List (Field σ) → σ → List Char → Except Fault (σ × List Char)
  | [], s, cs =>
    match skipSpace cs with
    | ']' :: rest => .ok (s, rest)
    | cs => .error (faultAt cs)
  | f :: fields, s, cs =>
    match skipSpace cs with
    | [] => .error .unfinished
    | ']' :: rest =>
      if f.presence = .defaulted then items b isFirst fields s (']' :: rest) else .error .mismatch
    | c :: rest => do
      let rest ←
        if isFirst then pure (c :: rest)
        else if c ≠ ',' then throw .malformed
        else if (skipSpace rest).head? = some ']' then throw .malformed
        else pure rest
      let (update, rest) ← f.reader b rest
      items b false fields (update s) rest

end Record

/-- Reads a record that starts from `blank`. -/
def Reader.record {σ : Type} (fields : List (Field σ)) (blank : σ) : Reader σ := fun b cs =>
  match skipSpace cs with
  | '[' :: rest => do Record.items (← b.inside) true fields blank rest
  | '\x7b' :: rest => do
    let inside ← b.inside
    let ((s, keys), rest) ← container '\x7d' (Record.entry fields inside) b.size (blank, []) rest
    if Record.isComplete fields keys then return (s, rest)
    throw .mismatch
  | cs => refuse b cs

/-- Reads a record whose value does not matter. -/
def Reader.form (fields : List (Field Unit)) : Reader Unit :=
  Reader.record fields ()

/-- Reads an object without any field. -/
def Reader.bare : Reader Unit := fun b cs =>
  match skipSpace cs with
  | '\x7b' :: rest => do
    let inside ← b.inside
    let entry (_ : Unit) (cs : List Char) : Except Fault (Unit × List Char) := do
      let '"' :: rest := cs | throw (faultAt cs)
      let _ ← string inside.size rest
      throw .mismatch
    container '\x7d' entry b.size () rest
  | cs => refuse b cs

end ImageBuild.Json
