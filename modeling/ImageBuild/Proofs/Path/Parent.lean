import ImageBuild.Path
import ImageBuild.Proofs.Text.Pieces
import Mathlib.Tactic.SplitIfs
/-!
# The directory and the name of a file

A path that ends in a name is taken apart into a directory and that name, and put together again.
What is lost on the way are pieces that are no steps, right in front of the name; no component of the
path is among them.
-/

namespace ImageBuild.Path

def IsNamePiece (piece : List Char) : Prop := stepOf? piece = some (.name piece)

/-- The pieces in front of a name that the text of its directory keeps. -/
def keptPieces : List (List Char) → List (List Char)
  | [] => []
  | first :: rest => first :: Text.dropTailWhile (fun piece => !countsAsStep false piece) rest

variable {p : Path} {front : List (List Char)} {name piece : List Char}

theorem isNamePiece_iff : IsNamePiece piece ↔ piece ≠ [] ∧ piece ≠ ['.'] ∧ piece ≠ ['.', '.'] := by
  rw [IsNamePiece, stepOf?]
  split_ifs with hidle hup
  · constructor
    · intro h
      cases h
    · rintro ⟨hnil, hdot, -⟩
      exact absurd hidle (not_or.2 ⟨hnil, hdot⟩)
  · simp [hup]
  · simpa [hup] using hidle

theorem countsAsStep_of_isNamePiece (h : IsNamePiece piece) (isFirst : Bool) :
    countsAsStep isFirst piece := by
  rw [IsNamePiece] at h
  simp [countsAsStep, h]

theorem countsAsStep_false_iff : countsAsStep false piece = false ↔ piece = [] ∨ piece = ['.'] := by
  rw [countsAsStep, stepOf?]
  split_ifs <;> simp_all

theorem exists_keptPieces_append (front : List (List Char)) :
    ∃ idle, keptPieces front ++ idle = front ∧ ∀ piece ∈ idle, piece = [] ∨ piece = ['.'] := by
  cases front with
  | nil => exact ⟨[], rfl, by simp⟩
  | cons first rest =>
      obtain ⟨tail, htail, hall⟩ :=
        Text.exists_dropTailWhile_append (fun piece => !countsAsStep false piece) rest
      refine ⟨tail, by rw [keptPieces, List.cons_append, htail], fun piece hpiece => ?_⟩
      exact countsAsStep_false_iff.1 (by simpa using hall piece hpiece)

/-- The kept pieces end in one that has characters, unless they are no more than the root. -/
theorem keptPieces_eq_append (hne : front ≠ []) (hroot : keptPieces front ≠ [[]]) :
    ∃ kept last, keptPieces front = kept ++ [last] ∧ last ≠ [] := by
  obtain ⟨first, rest, rfl⟩ := List.exists_cons_of_ne_nil hne
  rcases Text.dropTailWhile_eq_nil_or_append (fun piece => !countsAsStep false piece) rest with
    hnil | ⟨kept, last, heq, hlast⟩
  · refine ⟨[], first, by rw [keptPieces, hnil]; rfl, ?_⟩
    rintro rfl
    exact hroot (by rw [keptPieces, hnil])
  · refine ⟨first :: kept, last, by rw [keptPieces, heq]; rfl, ?_⟩
    rintro rfl
    exact absurd hlast (by decide)

theorem countsAsStep_true (h : piece ≠ []) : countsAsStep true piece := by
  by_cases hdot : piece = ['.']
  · simp [countsAsStep, hdot]
  · rw [countsAsStep, stepOf?]
    split_ifs <;> simp_all

theorem dropIdleTail_eq (h : front.head? ≠ some []) : dropIdleTail front = keptPieces front := by
  cases front with
  | nil => rfl
  | cons first rest =>
      have hfirst : countsAsStep true first := countsAsStep_true fun hnil => h (by simp [hnil])
      rw [dropIdleTail, keptPieces]
      split <;> simp_all

theorem keptPieces_append (hname : IsNamePiece name) (front : List (List Char)) :
    keptPieces (front ++ [name]) = front ++ [name] := by
  cases front with
  | nil => rfl
  | cons first rest =>
      have hcounts := countsAsStep_of_isNamePiece hname false
      rw [List.cons_append, keptPieces, Text.dropTailWhile_append_of_neg _ rest (by simp [hcounts])]

theorem slashed_root (pieces : List (List Char)) :
    "/" ++ String.ofList (['/'].intercalate pieces) =
      if [] :: pieces = [[]] then "/" else String.ofList (['/'].intercalate ([] :: pieces)) := by
  cases pieces with
  | nil => rfl
  | cons piece pieces =>
      rw [if_neg (by simp), List.intercalate_cons_cons, List.nil_append, String.ofList_append]

/-- The text of the directory of a name: the kept pieces with slashes between them, where the root
is a slash. -/
theorem parent?_eq (hpieces : p.text.toList.splitOn '/' = front ++ [name])
    (hname : IsNamePiece name) :
    p.parent? = some ⟨if keptPieces front = [[]] then "/"
      else String.ofList (['/'].intercalate (keptPieces front))⟩ := by
  have hkept := keptPieces_append hname front
  rw [parent?, hpieces]
  cases front with
  | nil =>
      have hself : dropIdleTail [name] = [name] := by
        rw [dropIdleTail_eq (by simpa using (isNamePiece_iff.1 hname).1)]
        exact hkept
      simp only [List.nil_append, hself]
      rfl
  | cons first rest =>
      cases first with
      | nil =>
          rw [List.cons_append, keptPieces, List.cons.injEq] at hkept
          obtain ⟨next, more, hcons⟩ := List.exists_cons_of_ne_nil
            (List.append_ne_nil_of_right_ne_nil rest (List.cons_ne_nil name []))
          simp only [List.cons_append, hcons] at hkept ⊢
          rw [hkept.2]
          simp only [← hcons, List.dropLast_concat, keptPieces]
          rw [slashed_root]
          congr
      | cons c cs =>
          have hself : dropIdleTail ((c :: cs) :: rest ++ [name]) = (c :: cs) :: rest ++ [name] := by
            rw [dropIdleTail_eq (by simp), hkept]
          have hfront : dropIdleTail ((c :: cs) :: rest) = keptPieces ((c :: cs) :: rest) :=
            dropIdleTail_eq (by simp)
          have hlast : ((c :: cs) :: rest ++ [name]).dropLast = (c :: cs) :: rest :=
            List.dropLast_concat
          rw [List.cons_append]
          simp only
          rw [← List.cons_append, hself, List.cons_append]
          simp only
          rw [← List.cons_append, hlast, hfront]
          simp [keptPieces]

def frontSteps : List (List Char) → List Component
  | [] => []
  | first :: rest =>
      (if first = [] then [.root] else if first = ['.'] then [.here] else (stepOf? first).toList) ++
        rest.filterMap stepOf?

theorem components_eq (hpieces : p.text.toList.splitOn '/' = front ++ [name])
    (hname : IsNamePiece name) : p.components = frontSteps front ++ [.name name] := by
  obtain ⟨hnil, hdot, -⟩ := isNamePiece_iff.1 hname
  rw [IsNamePiece] at hname
  rw [components, componentsOfChars, hpieces]
  cases front with
  | nil => simp [frontSteps, hnil, hdot, hname]
  | cons first rest =>
      by_cases hroot : first = []
      · simp [frontSteps, hroot, hname]
      · by_cases hhere : first = ['.'] <;> simp [frontSteps, hroot, hhere, hname]

theorem frontSteps_keptPieces (front : List (List Char)) :
    frontSteps (keptPieces front) = frontSteps front := by
  cases front with
  | nil => rfl
  | cons first rest =>
      obtain ⟨idle, happend, hidle⟩ := exists_keptPieces_append (first :: rest)
      rw [keptPieces, List.cons_append, List.cons.injEq] at happend
      have hnone : idle.filterMap stepOf? = [] := by
        refine List.filterMap_eq_nil_iff.2 fun piece hpiece => ?_
        rw [stepOf?, if_pos (hidle piece hpiece)]
      have hrest : rest.filterMap stepOf? =
          (Text.dropTailWhile (fun piece => !countsAsStep false piece) rest).filterMap stepOf? := by
        calc rest.filterMap stepOf?
            = (Text.dropTailWhile (fun piece => !countsAsStep false piece) rest ++ idle).filterMap
                stepOf? := by rw [happend.2]
          _ = _ := by rw [List.filterMap_append, hnone, List.append_nil]
      rw [keptPieces, frontSteps, frontSteps, hrest]

theorem fileName?_eq (hpieces : p.text.toList.splitOn '/' = front ++ [name])
    (hname : IsNamePiece name) : p.fileName? = some (String.ofList name) := by
  rw [fileName?, components_eq hpieces hname]
  simp

theorem toList_join_parent (hpieces : p.text.toList.splitOn '/' = front ++ [name])
    (hname : IsNamePiece name) (dir : Path) (other : String) :
    ((p.parent?.getD dir).join ⟨p.fileName?.getD other⟩).text.toList =
      (keptPieces front).flatMap (· ++ ['/']) ++ name := by
  have hslash : ∀ piece ∈ front ++ [name], '/' ∉ piece := by
    intro piece hpiece
    exact Text.notMem_of_mem_splitOn (hpieces ▸ hpiece)
  have hrelative : isAbsolute ⟨String.ofList name⟩ = false := by
    have hhead := hslash name (by simp)
    cases name with
    | nil => rfl
    | cons c cs =>
        have hne : c ≠ '/' := (List.ne_of_not_mem_cons hhead).symm
        simp [isAbsolute, hne]
  rw [parent?_eq hpieces hname, fileName?_eq hpieces hname, Option.getD_some, Option.getD_some,
    join, hrelative]
  by_cases hroot : keptPieces front = [[]]
  · simp [hroot]
  · rw [if_neg hroot]
    by_cases hfront : front = []
    · simp [hfront, keptPieces]
    · obtain ⟨kept, last, hkept, hlast⟩ := keptPieces_eq_append hfront hroot
      obtain ⟨idle, happend, -⟩ := exists_keptPieces_append front
      have hmem : last ∈ front ++ [name] := by
        rw [← happend, hkept]
        simp
      have hend : last.getLast? ≠ some '/' := fun h =>
        hslash last hmem (List.mem_of_getLast? h)
      rw [hkept, Text.intercalate_append_singleton]
      simp [hlast, hend, List.getLast?_append]

theorem splitOn_join_parent (hpieces : p.text.toList.splitOn '/' = front ++ [name])
    (hname : IsNamePiece name) (dir : Path) (other : String) :
    ((p.parent?.getD dir).join ⟨p.fileName?.getD other⟩).text.toList.splitOn '/' =
      keptPieces front ++ [name] := by
  obtain ⟨idle, happend, -⟩ := exists_keptPieces_append front
  have hslash : ∀ piece ∈ front ++ [name], '/' ∉ piece := by
    intro piece hpiece
    exact Text.notMem_of_mem_splitOn (hpieces ▸ hpiece)
  rw [toList_join_parent hpieces hname, Text.splitOn_flatMap_append,
    List.splitOn_eq_singleton (hslash name (by simp)), Text.flatMap_splitOn_of_notMem]
  intro piece hpiece
  refine hslash piece ?_
  rw [← happend]
  simp [hpiece]

/-- The directory of a file joined with the name of the file lies where the file lies. -/
theorem relativeTo?_join_parent (hpieces : p.text.toList.splitOn '/' = front ++ [name])
    (hname : IsNamePiece name) (dir root : Path) (other : String) :
    ((p.parent?.getD dir).join ⟨p.fileName?.getD other⟩).relativeTo? root = p.relativeTo? root := by
  have hcomponents : ((p.parent?.getD dir).join ⟨p.fileName?.getD other⟩).components =
      p.components := by
    rw [components_eq (splitOn_join_parent hpieces hname dir other) hname,
      components_eq hpieces hname, frontSteps_keptPieces]
  simp only [relativeTo?, stepsBelow?, lexical, hcomponents]

end ImageBuild.Path
