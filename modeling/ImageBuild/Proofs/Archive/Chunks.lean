import ImageBuild.Context
import Mathlib.Logic.Function.Iterate
import Mathlib.Tactic.SplitIfs
/-!
# What is sent in chunks

A chunk is sent as soon as there is enough for one, and what is left at the end of an archive is sent then.  So the
chunks together are as long as the archive, and hold what was written, in this order; a chunk that is not the last was
sent because there was enough for it.
-/

namespace ImageBuild.Archive

section

variable {α : Type} (size : α → Nat)

theorem sizeBy_append (xs ys : List α) : sizeBy size (xs ++ ys) = sizeBy size xs + sizeBy size ys := by
  induction xs with
  | nil => exact (Nat.zero_add _).symm
  | cons x xs ih => rw [List.cons_append, sizeBy, ih, sizeBy, Nat.add_assoc]

theorem sizeBy_map (xs : List α) : sizeBy id (xs.map size) = sizeBy size xs := by
  induction xs with
  | nil => rfl
  | cons x xs ih => rw [List.map_cons, sizeBy, ih, sizeBy, id]

namespace Chunks

/-- The size of everything that was written, sent or held back. -/
def written (c : Chunks α) : Nat := sizeBy (sizeBy size) c.sent + sizeBy size c.held

theorem written_flush (c : Chunks α) : (c.flush size).written size = c.written size := by
  rw [flush]
  split
  · rfl
  · simp [written, sizeBy_append, sizeBy]

theorem held_flush (c : Chunks α) : sizeBy size (c.flush size).held = 0 := by
  rw [flush]
  split
  · assumption
  · rfl

theorem written_write (limit : Nat) (c : Chunks α) (x : α) :
    (c.write size limit x).written size = c.written size + size x := by
  have hheld : (⟨c.sent, c.held ++ [x]⟩ : Chunks α).written size = c.written size + size x := by
    simp [written, sizeBy_append, sizeBy, Nat.add_assoc]
  rw [write]
  simp only
  split
  · rw [written_flush, hheld]
  · exact hheld

theorem written_foldl (limit : Nat) (c : Chunks α) (writes : List α) :
    (writes.foldl (write size limit) c).written size = c.written size + sizeBy size writes := by
  induction writes generalizing c with
  | nil => rfl
  | cons x writes ih => rw [List.foldl_cons, ih, written_write, sizeBy, Nat.add_assoc]

end Chunks

end

namespace Chunks

section

variable {α : Type} {size : α → Nat} {limit : Nat} {c : Chunks α} {writes : List α}

theorem flush_of_eq_zero (h : sizeBy size c.held = 0) : c.flush size = c := if_pos h

theorem flush_of_ne_zero (h : sizeBy size c.held ≠ 0) : c.flush size = ⟨c.sent ++ [c.held], []⟩ := if_neg h

/-- Flushing again sends nothing more. -/
theorem iterate_flush (c : Chunks α) (n : Nat) : (flush size)^[n + 1] c = c.flush size := by
  rw [Function.iterate_succ_apply]
  exact Function.iterate_fixed (flush_of_eq_zero (held_flush size c)) n

/-- What was sent and what is held back are the writes, in their order, and only what is too little for a chunk is
held back. -/
structure Follows (size : α → Nat) (limit : Nat) (c : Chunks α) (writes : List α) : Prop where
  parts : c.sent.flatten ++ c.held = writes
  enough : ∀ chunk ∈ c.sent, limit ≤ sizeBy size chunk
  short : sizeBy size c.held < limit

theorem Follows.write (h : c.Follows size limit writes) (hlimit : 0 < limit) (x : α) :
    (c.write size limit x).Follows size limit (writes ++ [x]) := by
  rw [Chunks.write]
  simp only
  split_ifs with hfull
  · rw [flush_of_ne_zero (Nat.pos_iff_ne_zero.1 (Nat.lt_of_lt_of_le hlimit hfull))]
    refine ⟨?_, fun chunk hchunk => ?_, hlimit⟩
    · rw [← h.parts]
      simp
    · rcases List.mem_append.1 hchunk with hchunk | hchunk
      · exact h.enough chunk hchunk
      · rwa [List.mem_singleton.1 hchunk]
  · refine ⟨?_, h.enough, Nat.lt_of_not_le hfull⟩
    rw [← h.parts, List.append_assoc]

theorem Follows.foldl (h : c.Follows size limit writes) (hlimit : 0 < limit) (more : List α) :
    (more.foldl (Chunks.write size limit) c).Follows size limit (writes ++ more) := by
  induction more generalizing c writes with
  | nil => rwa [List.append_nil]
  | cons x more ih =>
      have hrest := ih (h.write hlimit x)
      rwa [List.append_assoc] at hrest

theorem follows_ofWrites (hlimit : 0 < limit) (writes : List α) :
    (ofWrites size limit writes).Follows size limit writes := by
  have hnone : Follows size limit {} [] := ⟨rfl, by simp, hlimit⟩
  exact hnone.foldl hlimit writes

/-! ## Chunks of sizes -/

def sizes (size : α → Nat) (c : Chunks α) : Chunks Nat := ⟨c.sent.map (List.map size), c.held.map size⟩

theorem sizes_flush (size : α → Nat) (c : Chunks α) : (c.flush size).sizes size = (c.sizes size).flush id := by
  rw [flush, flush, sizes, sizes, sizeBy_map]
  split_ifs <;> simp

theorem sizes_write (size : α → Nat) (limit : Nat) (c : Chunks α) (x : α) :
    (c.write size limit x).sizes size = (c.sizes size).write id limit (size x) := by
  have hheld : sizeBy id (c.held.map size ++ [size x]) = sizeBy size (c.held ++ [x]) := by
    rw [← sizeBy_map size, List.map_append, List.map_singleton]
  rw [write, write]
  simp only [sizes, hheld]
  split_ifs
  · rw [← sizes, sizes_flush, sizes, List.map_append, List.map_singleton]
  · rw [List.map_append, List.map_singleton]

/-- Where the chunks are cut depends only on the sizes of the writes. -/
theorem sizes_ofWrites (size : α → Nat) (limit : Nat) (writes : List α) :
    (ofWrites size limit writes).sizes size = ofWrites id limit (writes.map size) := by
  rw [ofWrites, ofWrites, List.foldl_map]
  exact (List.foldl_hom (sizes size) fun c x => (sizes_write size limit c x).symm).symm

end

end Chunks

/-! ## The chunks that are read -/

theorem map_chunksOf {α : Type} (size : α → Nat) (writes : List α) (fault : Option IoError) :
    (chunksOf size writes fault).map (List.map size) = chunksOf id (writes.map size) fault := by
  have hwritten := Chunks.sizes_ofWrites size chunkSize writes
  cases fault with
  | none =>
      have hflushed := Chunks.sizes_flush size (Chunks.ofWrites size chunkSize writes)
      rw [hwritten] at hflushed
      exact congrArg Chunks.sent hflushed
  | some e => exact congrArg Chunks.sent hwritten

theorem map_sizeBy_chunksOf {α : Type} (size : α → Nat) (writes : List α) (fault : Option IoError) :
    (chunksOf size writes fault).map (sizeBy size) = (chunksOf id (writes.map size) fault).map (sizeBy id) := by
  rw [← map_chunksOf, List.map_map]
  exact List.map_congr_left fun chunk _ => (sizeBy_map size chunk).symm

/-- Nothing is lost of what no fault follows. -/
theorem sizeBy_chunksOf {α : Type} (size : α → Nat) (writes : List α) :
    sizeBy (sizeBy size) (chunksOf size writes none) = sizeBy size writes := by
  have hwritten := Chunks.written_foldl size chunkSize {} writes
  rw [← Chunks.ofWrites, ← Chunks.written_flush, Chunks.written, Chunks.held_flush] at hwritten
  exact hwritten.trans (Nat.zero_add _)

end ImageBuild.Archive
