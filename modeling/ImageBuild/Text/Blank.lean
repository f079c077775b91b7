/-!
# Blank characters

The white space of Unicode, and lists of characters stripped of it at either end.  Trimming works on
lists, so that its laws are the laws of `List.dropWhile`; the `String` forms only convert.
-/

namespace ImageBuild.Text

/-- The characters with the Unicode property `White_Space`. -/
def isBlank (c : Char) : Bool :=
  let n := c.toNat
  (9 ≤ n && n ≤ 13) || n = 0x20 || n = 0x85 || n = 0xA0 || n = 0x1680 ||
    (0x2000 ≤ n && n ≤ 0x200A) || n = 0x2028 || n = 0x2029 || n = 0x202F ||
    n = 0x205F || n = 0x3000

/-- Drops the longest tail of which every member satisfies `p`. -/
def dropTailWhile {α : Type} (p : α → Bool) (xs : List α) : List α :=
  (xs.reverse.dropWhile p).reverse

def trimChars (cs : List Char) : List Char :=
  dropTailWhile isBlank (cs.dropWhile isBlank)

def trim (s : String) : String :=
  String.ofList (trimChars s.toList)

/-- Whether a text holds nothing but blanks. -/
def isBlankText (s : String) : Bool :=
  s.toList.all isBlank

theorem dropTailWhile_append_of_neg {α : Type} (p : α → Bool) (xs : List α) {x : α}
    (h : p x = false) : dropTailWhile p (xs ++ [x]) = xs ++ [x] := by
  simp [dropTailWhile, h]

theorem dropTailWhile_append_of_pos {α : Type} (p : α → Bool) (xs : List α) {x : α}
    (h : p x = true) : dropTailWhile p (xs ++ [x]) = dropTailWhile p xs := by
  simp [dropTailWhile, h]

/-- What is left is a head of the list. -/
theorem dropTailWhile_isPrefix {α : Type} (p : α → Bool) (xs : List α) :
    dropTailWhile p xs <+: xs := by
  have h := List.dropWhile_suffix p (l := xs.reverse)
  simpa [dropTailWhile] using List.reverse_prefix.2 h

/-- What is dropped satisfies `p`. -/
theorem exists_dropTailWhile_append {α : Type} (p : α → Bool) (xs : List α) :
    ∃ tail, dropTailWhile p xs ++ tail = xs ∧ ∀ y ∈ tail, p y := by
  refine ⟨(xs.reverse.takeWhile p).reverse, ?_, fun y hy => ?_⟩
  · rw [dropTailWhile, ← List.reverse_append, List.takeWhile_append_dropWhile, List.reverse_reverse]
  · exact List.all_eq_true.1 List.all_takeWhile y (List.mem_reverse.1 hy)

/-- What is left ends in no member that satisfies `p`. -/
theorem dropTailWhile_eq_nil_or_append {α : Type} (p : α → Bool) (xs : List α) :
    dropTailWhile p xs = [] ∨ ∃ front x, dropTailWhile p xs = front ++ [x] ∧ p x = false := by
  cases h : xs.reverse.dropWhile p with
  | nil => exact .inl (by simp [dropTailWhile, h])
  | cons x rest =>
    have hx : p x = false := by
      have hhead := List.head_dropWhile_not p (l := xs.reverse) (by simp [h])
      simpa [h] using hhead
    exact .inr ⟨rest.reverse, x, by simp [dropTailWhile, h], hx⟩

end ImageBuild.Text
