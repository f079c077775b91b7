import ImageBuild.Proofs.Path.Inside
import Mathlib.Logic.Relation
/-!
# Absolute paths and their spellings

From the root a path leads down by names.  If no step of it leads up from the root itself, these names are all that
resolving leaves, and a file lies in a tree just if the names of the tree come first among its own.  So neither path
needs to be spelled in any special way: a `.`, a further slash, or a name that is taken back at once change nothing,
and the name of the tree counts as a whole.
-/

namespace ImageBuild.Path

/-- The names on the way down. -/
def descent (p : Path) : List (List Char) := p.place.names.reverse

theorem absolute_foldl {steps : List Component} (h : .root ∉ steps) (l : Place) :
    (steps.foldl Place.walk l).absolute = l.absolute := by
  induction steps generalizing l with
  | nil => rfl
  | cons c rest ih =>
      rw [List.mem_cons, not_or] at h
      rw [List.foldl_cons, ih h.2]
      cases c with
      | root => exact absurd rfl h.1
      | here => rfl
      | name s => rfl
      | up =>
          rw [Place.walk]
          split <;> rfl

theorem absolute_place {p : Path} (h : p.isAbsolute = true) : p.place.absolute = true := by
  obtain ⟨cs, hcs⟩ : ∃ cs, p.text.toList = '/' :: cs := by
    rw [isAbsolute, beq_iff_eq] at h
    exact List.head?_eq_some_iff.1 h
  have hcomponents : p.components = .root :: (cs.splitOn '/').filterMap stepOf? := by
    rw [components, componentsOfChars, hcs, List.splitOn_cons_eq_if_modifyHead]
    simp [List.splitOn_ne_nil]
  rw [place, hcomponents, List.foldl_cons, absolute_foldl (root_notMem_filterMap _)]
  rfl

variable {p q root top : Path} {r : String}

theorem comparable_of_absolute (hp : p.isAbsolute = true) (hroot : root.isAbsolute = true)
    (hclimbs : p.place.climbs = 0) (hclimbs' : root.place.climbs = 0) : Comparable p root :=
  ⟨⟨(absolute_place hroot).trans (absolute_place hp).symm, .inl (absolute_place hroot)⟩,
    by rw [hclimbs, hclimbs']⟩

theorem relativeTo?_eq_some_iff_descent (h : Comparable p root) :
    p.relativeTo? root = some r ↔ ∃ names, names ≠ [] ∧ p.descent = root.descent ++ names ∧
      r = String.ofList (['/'].intercalate names) := by
  have hdescent (names : List (List Char)) :
      p.place.names = names.reverse ++ root.place.names ↔ p.descent = root.descent ++ names := by
    rw [descent, descent, List.reverse_eq_iff, List.reverse_append, List.reverse_reverse]
  simp only [relativeTo?_eq_some_of_comparable h, hdescent]

/-! ## Other spellings of a path -/

/-- Text that leads nowhere, put in behind a slash. -/
inductive Idle : List Char → Prop where
  | here : Idle ['.', '/']
  | slash : Idle ['/']
  | detour {name : List Char} : IsNamePiece name → '/' ∉ name → Idle (name ++ ['/', '.', '.', '/'])

inductive Padded : Path → Path → Prop where
  | within {idle : List Char} (front back : List Char) : Idle idle →
      Padded ⟨String.ofList (front ++ '/' :: back)⟩ ⟨String.ofList (front ++ '/' :: (idle ++ back))⟩
  | behind {front : List Char} : front ≠ [] → Padded ⟨String.ofList front⟩ ⟨String.ofList (front ++ ['/'])⟩

/-- One path comes from the other by putting idle text in or taking it out. -/
def Respelled : Path → Path → Prop := Relation.EqvGen Padded

theorem Idle.foldl_walk {idle : List Char} (h : Idle idle) (back : List Char) (taken : List Component) :
    (((idle ++ back).splitOn '/').filterMap stepOf?).foldl walk taken =
      ((back.splitOn '/').filterMap stepOf?).foldl walk taken := by
  obtain ⟨front, rfl, hfront⟩ : ∃ front, idle = front ++ ['/'] ∧
      ((front.splitOn '/').filterMap stepOf?).foldl walk taken = taken := by
    cases h with
    | here => exact ⟨['.'], rfl, rfl⟩
    | slash => exact ⟨[], rfl, rfl⟩
    | @detour name hname hslash =>
        refine ⟨name ++ '/' :: ['.', '.'], by simp, ?_⟩
        rw [List.splitOn_append_cons_self, List.splitOn_eq_singleton hslash, List.singleton_append,
          List.filterMap_cons_some hname]
        rfl
  rw [List.append_assoc, List.singleton_append, List.splitOn_append_cons_self, List.filterMap_append,
    List.foldl_append, hfront]

theorem Padded.lexical_eq (h : Padded p q) : p.lexical = q.lexical := by
  rw [lexical, lexical, components, components]
  cases h with
  | within front back hidle =>
      rw [String.toList_ofList, String.toList_ofList, componentsOfChars_append front back,
        componentsOfChars_append front (_ ++ back), List.foldl_append, List.foldl_append, hidle.foldl_walk]
  | behind hne => rw [String.toList_ofList, String.toList_ofList, componentsOfChars_slash hne]

theorem Respelled.lexical_eq (h : Respelled p q) : p.lexical = q.lexical := by
  induction h with
  | rel p q hpadded => exact hpadded.lexical_eq
  | refl p => rfl
  | symm p q _ ih => exact ih.symm
  | trans p q r _ _ ihp ihq => exact ihp.trans ihq

theorem relativeTo?_respelled (hp : Respelled p q) (hroot : Respelled root top) :
    q.relativeTo? top = p.relativeTo? root := by
  simp only [relativeTo?, stepsBelow?, hp.lexical_eq, hroot.lexical_eq]

/-- A file is found in a tree just if the names that lead to it are those that lead to the tree and more, and then it
is found under those.  The spelling of the two paths does not matter, and a name that only begins like that of the
tree leads elsewhere. -/
theorem relativeTo?_of_absolute (hp : p.isAbsolute = true) (hroot : root.isAbsolute = true)
    (hclimbs : p.place.climbs = 0) (hclimbs' : root.place.climbs = 0) :
    (∀ r, p.relativeTo? root = some r ↔ ∃ names, names ≠ [] ∧ p.descent = root.descent ++ names ∧
        r = String.ofList (['/'].intercalate names)) ∧
      (∀ q top, Respelled p q → Respelled root top → q.relativeTo? top = p.relativeTo? root) ∧
      ∀ dir name more below, more ≠ [] → root.descent = dir ++ [name] →
        p.descent = dir ++ (name ++ more) :: below → p.relativeTo? root = none := by
  have hcomparable := comparable_of_absolute hp hroot hclimbs hclimbs'
  refine ⟨fun r => relativeTo?_eq_some_iff_descent hcomparable, fun q top => relativeTo?_respelled,
    fun dir name more below hmore hdir hbeside => ?_⟩
  rw [Option.eq_none_iff_forall_ne_some]
  rintro r hr
  obtain ⟨names, -, heq, -⟩ := (relativeTo?_eq_some_iff_descent hcomparable).1 hr
  rw [hdir, hbeside, List.append_assoc, List.append_cancel_left_eq, List.singleton_append,
    List.cons.injEq] at heq
  exact hmore (List.append_right_eq_self.1 heq.1)

def detourFile : Path := ⟨"/srv//app/tmp/../docker/Dockerfile"⟩

def detourTree : Path := ⟨"/srv/./app"⟩

theorem relativeTo?_of_absolute_detour :
    detourFile.isAbsolute = true ∧ detourTree.isAbsolute = true ∧ detourFile.place.climbs = 0 ∧
      detourTree.place.climbs = 0 ∧ detourFile.relativeTo? detourTree = some "docker/Dockerfile" ∧
      ∀ q top, Respelled detourFile q → Respelled detourTree top →
        q.relativeTo? top = detourFile.relativeTo? detourTree := by
  have hfile : detourFile.isAbsolute = true := by decide
  have htree : detourTree.isAbsolute = true := by decide
  have hclimbs : detourFile.place.climbs = 0 := by decide
  have hclimbs' : detourTree.place.climbs = 0 := by decide
  obtain ⟨hfound, hrespelled, -⟩ := relativeTo?_of_absolute hfile htree hclimbs hclimbs'
  exact ⟨hfile, htree, hclimbs, hclimbs',
    (hfound "docker/Dockerfile").2 ⟨["docker".toList, "Dockerfile".toList], by decide, by decide, by decide⟩,
    hrespelled⟩

example : relativeTo? ⟨"/application/Dockerfile"⟩ ⟨"/app"⟩ = none := by decide

end ImageBuild.Path
