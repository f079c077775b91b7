/-!
# Inboxes

An inbox holds bytes that have been received and not been used yet.  It has room for 8 KiB at first.
Used bytes leave their place empty, in front of those that are held; when there is no room left behind
them, the held bytes move into that place if it is large enough, and otherwise the inbox grows.
-/

namespace ImageBuild.Engine

structure Inbox where
  held : List UInt8
  /-- The place in front of the held bytes. -/
  front : Nat
  /-- All of the place, in front, for the held bytes and behind them. -/
  size : Nat
  /-- How many bytes can be received before room has to be made. -/
  room : Nat
deriving Repr, DecidableEq

namespace Inbox

/-- The size of a new inbox. -/
def initialSize : Nat := 8192

def empty : Inbox := ⟨[], 0, initialSize, initialSize⟩

/-- Makes room if there is none: by a place behind the held bytes that is left unused, or in front, or by
growing. -/
def makeRoom (box : Inbox) : Inbox :=
  if 0 < box.room then box
  else if box.front + box.held.length < box.size then { box with room := 1 }
  else if box.held.length ≤ box.front ∧ box.held.length < box.size then
    { box with front := 0, room := box.size - box.held.length }
  else
    { box with
      size := 2 * box.size
      room := max 1 (2 * box.size - (box.front + box.held.length)) }

theorem room_makeRoom_pos (box : Inbox) : 0 < box.makeRoom.room := by
  unfold makeRoom
  split
  · assumption
  · split
    · exact Nat.one_pos
    · split
      · rename_i h
        exact Nat.sub_pos_of_lt h.2
      · exact Nat.lt_of_lt_of_le Nat.one_pos (Nat.le_max_left _ _)

@[simp] theorem held_makeRoom (box : Inbox) : box.makeRoom.held = box.held := by
  unfold makeRoom
  split
  · rfl
  · split
    · rfl
    · split <;> rfl

/-- Receives as many bytes as there is room for. -/
def receive (box : Inbox) (bytes : List UInt8) : Inbox :=
  let part := bytes.take box.room
  { box with held := box.held ++ part, room := box.room - part.length }

/-- Uses the first `n` of the held bytes. -/
def use (box : Inbox) (n : Nat) : Inbox :=
  { box with held := box.held.drop n, front := box.front + n }

/-- Uses all of the held bytes; their place is free at once. -/
def clear (box : Inbox) : Inbox :=
  { box with held := [], room := box.room + box.held.length }

/-- Holds `line` and `rest`, between which one byte was held that is taken out.  Unless `rest` is short,
they move to a new place. -/
def join (box : Inbox) (line rest : List UInt8) : Inbox :=
  if line.isEmpty then { box with held := rest, front := box.front + 1 }
  else if rest.length ≤ 1 then { box with held := line ++ rest, room := 1 - rest.length }
  else
    let size := max initialSize (line.length + rest.length)
    ⟨line ++ rest, 0, size, size - (line.length + rest.length)⟩

end Inbox
end ImageBuild.Engine
