import ImageBuild.Engine.Http
import ImageBuild.Engine.Inbox
/-!
# Streams of values

A stream is a body with one JSON value on each line.  A line on which a value is not complete, or that
holds `null`, is joined with the next one, after more of the body has been received; once the body is
over such a line is joined with the next one and is an error.  The stream ends with its first error.
-/

namespace ImageBuild.Engine

def lineFeed : UInt8 := 10

/-- The error of a body that ends inside a value. -/
def leftover : EngineError :=
  .io (.reported "bytes remaining on stream")

/-- Reads one line: no value at all if it is not complete. -/
def readLine {α : Type} (reader : Json.Reader α) (line : List UInt8) :
    Except EngineError (Option α) :=
  match reader.nullable.readBytes line with
  | .ok a => .ok a
  | .error .unfinished => .ok none
  | .error .malformed => .error .notJson
  | .error .mismatch => .error .wrongShape

namespace Inbox

variable {α : Type}

/-- Takes the value of the first line, or of what there is of it. -/
def take (reader : Json.Reader α) (box : Inbox) : Except EngineError (Option α × Inbox) :=
  match Text.splitOnce lineFeed box.held with
  | some (line, rest) =>
    (readLine reader line).map fun
      | some a => (some a, box.use (line.length + 1))
      | none => (none, box.join line rest)
  | none =>
    if box.held.isEmpty then .ok (none, box)
    else
      (readLine reader box.held).map fun
        | some a => (some a, box.clear)
        | none => (none, box)

/-- A value takes up bytes. -/
theorem length_of_take_some {reader : Json.Reader α} {box after : Inbox} {a : α}
    (h : box.take reader = .ok (some a, after)) : after.held.length < box.held.length := by
  unfold take at h
  split at h
  · rename_i line rest hs
    have hlen := Text.length_of_splitOnce hs
    cases hr : readLine reader line with
    | error e => rw [hr] at h; cases h
    | ok r =>
      rw [hr] at h
      cases r with
      | none => cases h
      | some b =>
        cases h
        simp only [use, List.length_drop]
        omega
  · split at h
    · cases h
    · rename_i hne
      cases hr : readLine reader box.held with
      | error e => rw [hr] at h; cases h
      | ok r =>
        rw [hr] at h
        cases r with
        | none => cases h
        | some b =>
          cases h
          simp only [clear, List.length_nil]
          exact List.length_pos_iff.2 fun h => hne (by rw [h]; rfl)

/-- No bytes are made up. -/
theorem length_of_take_none {reader : Json.Reader α} {box after : Inbox}
    (h : box.take reader = .ok (none, after)) : after.held.length ≤ box.held.length := by
  unfold take at h
  split at h
  · rename_i line rest hs
    have hlen := Text.length_of_splitOnce hs
    cases hr : readLine reader line with
    | error e => rw [hr] at h; cases h
    | ok r =>
      rw [hr] at h
      cases r with
      | some b => cases h
      | none =>
        cases h
        unfold join
        split
        · simp only
          omega
        · split <;> simp only [List.length_append] <;> omega
  · split at h
    · cases h
      exact Nat.le_refl _
    · cases hr : readLine reader box.held with
      | error e => rw [hr] at h; cases h
      | ok r =>
        rw [hr] at h
        cases r with
        | some b => cases h
        | none =>
          cases h
          exact Nat.le_refl _

/-- The values in what is held when the body is over. -/
def lastValues (reader : Json.Reader α) (box : Inbox) : List (Except EngineError α) :=
  match _h : box.take reader with
  | .error e => [.error e]
  | .ok (some a, after) => .ok a :: lastValues reader after
  | .ok (none, after) => if after.held.isEmpty then [] else [.error leftover]
termination_by box.held.length
decreasing_by exact length_of_take_some _h

/-- What there is still to be received of a part, and the parts after it. -/
def partsLeft (room : Nat) (part : List UInt8) (parts : List (List UInt8)) : List (List UInt8) :=
  if part.length ≤ room then parts else part.drop room :: parts

/-- What is received is received once, and a part that is received is a part less. -/
theorem receive_lt (box : Inbox) (part : List UInt8) (parts : List (List UInt8))
    (h : 0 < box.room) :
    2 * (box.receive part).held.length + 3 * (partsLeft box.room part parts).flatten.length +
        (partsLeft box.room part parts).length <
      2 * box.held.length + 3 * (part :: parts).flatten.length + (part :: parts).length := by
  unfold receive partsLeft
  split <;>
    simp only [List.length_append, List.length_take, List.flatten_cons, List.length_cons,
      List.length_drop] <;> omega

/-- The values in what is held and in the parts that are still to be received; `isWhole` says whether
the body is over after them. -/
def values (reader : Json.Reader α) (isWhole : Bool) (box : Inbox) (parts : List (List UInt8)) :
    List (Except EngineError α) :=
  match _h : box.take reader with
  | .error e => [.error e]
  | .ok (some a, after) => .ok a :: values reader isWhole after parts
  | .ok (none, after) =>
    match parts with
    | [] => if isWhole then lastValues reader after else [.error cutShort]
    | part :: parts =>
      let ready := after.makeRoom
      values reader isWhole (ready.receive part) (partsLeft ready.room part parts)
termination_by 2 * box.held.length + 3 * parts.flatten.length + parts.length
decreasing_by
  · have := length_of_take_some _h
    omega
  · have hle := length_of_take_none _h
    have hlt := receive_lt after.makeRoom part parts after.room_makeRoom_pos
    rw [held_makeRoom] at hlt
    omega

end Inbox

/-- The values of a body. -/
def readStream {α : Type} (reader : Json.Reader α) (body : Body) : List (Except EngineError α) :=
  Inbox.empty.values reader body.isWhole body.parts

end ImageBuild.Engine
