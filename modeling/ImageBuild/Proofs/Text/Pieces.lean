import ImageBuild.Text.Pieces

/-!
# Pieces around a separator

Texts that are put together from pieces with a separator between them: how two
rows of pieces join, and which characters a joined text can hold.
-/

namespace ImageBuild.Text

variable {α : Type}

theorem intercalate_append (x : α) {front back : List (List α)}
    (hfront : front ≠ []) (hback : back ≠ []) :
    [x].intercalate (front ++ back) = [x].intercalate front ++ x :: [x].intercalate back := by
  induction front with
  | nil => exact absurd rfl hfront
  | cons piece front ih =>
      cases front with
      | nil =>
          rw [List.singleton_append, List.intercalate_cons_of_ne_nil hback,
            List.intercalate_singleton]
          simp
      | cons next front =>
          have hrest := ih (List.cons_ne_nil next front)
          rw [List.cons_append, List.cons_append, List.intercalate_cons_cons,
            ← List.cons_append, hrest, List.intercalate_cons_cons]
          simp

/-- The last piece has no separator behind it, and every other piece has one. -/
theorem intercalate_append_singleton (x : α) (front : List (List α)) (last : List α) :
    [x].intercalate (front ++ [last]) = front.flatMap (· ++ [x]) ++ last := by
  induction front with
  | nil => simp
  | cons piece front ih =>
      have hne : front ++ [last] ≠ [] := by simp
      rw [List.cons_append, List.intercalate_cons_of_ne_nil hne, ih]
      simp

theorem splitOn_flatMap_append [BEq α] [LawfulBEq α] (x : α) (front : List (List α))
    (last : List α) :
    (front.flatMap (· ++ [x]) ++ last).splitOn x =
      front.flatMap (List.splitOn x) ++ last.splitOn x := by
  induction front with
  | nil => rfl
  | cons piece front ih =>
      have hcons : (piece :: front).flatMap (· ++ [x]) ++ last =
          piece ++ x :: (front.flatMap (· ++ [x]) ++ last) := by simp
      rw [hcons, List.splitOn_append_cons_self, ih, List.flatMap_cons, List.append_assoc]

theorem notMem_of_mem_splitOn [BEq α] [LawfulBEq α] {x : α} {xs piece : List α}
    (h : piece ∈ xs.splitOn x) : x ∉ piece := by
  induction xs generalizing piece with
  | nil => simp_all
  | cons y xs ih =>
      rw [List.splitOn_cons_eq_if_modifyHead] at h
      by_cases hy : y = x
      · rcases List.mem_cons.1 (by simpa [hy] using h) with rfl | htail
        · exact List.not_mem_nil
        · exact ih htail
      · obtain ⟨first, rest, hsplit⟩ := List.exists_cons_of_ne_nil (List.splitOn_ne_nil x xs)
        rw [hsplit] at h
        rcases List.mem_cons.1 (by simpa [hy] using h) with rfl | htail
        · have hfirst : x ∉ first := ih (by simp [hsplit])
          simpa [Ne.symm hy] using hfirst
        · exact ih (by simp [hsplit, htail])

theorem mem_of_mem_splitOn [BEq α] [LawfulBEq α] {x c : α} {xs piece : List α}
    (h : piece ∈ xs.splitOn x) (hc : c ∈ piece) : c ∈ xs := by
  induction xs generalizing piece with
  | nil => simp_all
  | cons y xs ih =>
      obtain ⟨first, rest, hsplit⟩ := List.exists_cons_of_ne_nil (List.splitOn_ne_nil x xs)
      rw [List.splitOn_cons_eq_if_modifyHead] at h
      split at h
      · rcases List.mem_cons.1 h with rfl | h
        · simp at hc
        · exact List.mem_cons_of_mem y (ih h hc)
      · rw [hsplit] at h ih
        rcases List.mem_cons.1 h with rfl | h
        · rcases List.mem_cons.1 hc with rfl | hc
          · exact List.mem_cons_self
          · exact List.mem_cons_of_mem y (ih List.mem_cons_self hc)
        · exact List.mem_cons_of_mem y (ih (List.mem_cons_of_mem first h) hc)

theorem flatMap_splitOn_of_notMem [BEq α] [LawfulBEq α] {x : α} {pieces : List (List α)}
    (h : ∀ piece ∈ pieces, x ∉ piece) : pieces.flatMap (List.splitOn x) = pieces := by
  induction pieces with
  | nil => rfl
  | cons piece pieces ih =>
      have htail := ih fun other hother => h other (List.mem_cons_of_mem piece hother)
      rw [List.flatMap_cons, htail, List.splitOn_eq_singleton (h piece List.mem_cons_self)]
      rfl

/-! ## Around one separator -/

section

variable [BEq α] [LawfulBEq α] {x : α} {xs front back : List α}

theorem bne_of_notMem (h : x ∉ xs) (y : α) (hy : y ∈ xs) : (y != x) = true := by
  rw [bne_iff_ne]
  rintro rfl
  exact h hy

theorem splitOnce_append (h : x ∉ front) (back : List α) :
    splitOnce x (front ++ x :: back) = some (front, back) := by
  have hfront := bne_of_notMem h
  rw [splitOnce, List.takeWhile_append_of_pos hfront, List.dropWhile_append_of_pos hfront]
  simp

theorem splitOnce_eq_none_iff : splitOnce x xs = none ↔ x ∉ xs := by
  constructor
  · intro h hx
    obtain ⟨front, back, rfl, hfront⟩ := List.eq_append_cons_of_mem hx
    rw [splitOnce_append hfront] at h
    cases h
  · intro h
    rw [splitOnce, ← List.append_nil xs, List.dropWhile_append_of_pos (bne_of_notMem h)]
    rfl

theorem splitOnce_eq_some_iff :
    splitOnce x xs = some (front, back) ↔ xs = front ++ x :: back ∧ x ∉ front := by
  constructor
  · intro h
    have hx : x ∈ xs := by
      refine Classical.byContradiction fun hx => ?_
      rw [splitOnce_eq_none_iff.2 hx] at h
      cases h
    obtain ⟨front', back', rfl, hfront⟩ := List.eq_append_cons_of_mem hx
    rw [splitOnce_append hfront] at h
    cases h
    exact ⟨rfl, hfront⟩
  · rintro ⟨rfl, hfront⟩
    exact splitOnce_append hfront back

end

end ImageBuild.Text
