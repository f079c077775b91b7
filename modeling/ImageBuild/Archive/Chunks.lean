import ImageBuild.Archive.Walk
/-!
# Sending an archive in chunks

What is written to a stream is held back until there is enough of it for a chunk.  An archive that
breaks off is followed by its fault, and what was held back then is lost.
-/

namespace ImageBuild.Archive

/-- The size from which on a chunk is sent. -/
def chunkSize : Nat := 65536

/-- Chunks of writes: those that were sent, and the writes that are still held back. -/
structure Chunks (α : Type) where
  sent : List (List α) := []
  held : List α := []

namespace Chunks

variable {α : Type}

/-- Sends what is held back, if it is anything. -/
def flush (size : α → Nat) (c : Chunks α) : Chunks α :=
  if sizeBy size c.held = 0 then c else ⟨c.sent ++ [c.held], []⟩

/-- Writes one thing, and sends a chunk if there is enough for one. -/
def write (size : α → Nat) (limit : Nat) (c : Chunks α) (x : α) : Chunks α :=
  let c : Chunks α := ⟨c.sent, c.held ++ [x]⟩
  if limit ≤ sizeBy size c.held then c.flush size else c

/-- The chunks after some writes. -/
def ofWrites (size : α → Nat) (limit : Nat) (writes : List α) : Chunks α :=
  writes.foldl (write size limit) {}

end Chunks

/-- The chunks of some writes that come to their reader; what is held back at a fault is lost. -/
def chunksOf {α : Type} (size : α → Nat) (writes : List α) (fault : Option IoError) : List (List α) :=
  let written := Chunks.ofWrites size chunkSize writes
  match fault with
  | none => (written.flush size).sent
  | some _ => written.sent

/-- All that is written of an archive.  The trailer is written even after a fault. -/
def pieces (a : Archive) : List Piece :=
  a.entries.flatMap Entry.pieces ++ [.trailer]

/-- What is written of an archive behind an encoder: the size of each write, in order. -/
abbrev Encoder := Archive → List Nat

/-- The encoder that passes on what it is given. -/
def plain : Encoder := fun a => a.pieces.map Piece.size

end ImageBuild.Archive
