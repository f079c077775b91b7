import ImageBuild.Proofs.Path.Parent
/-!
# Where paths lead by name alone

A path leads from the root or from here so many steps up, and then down by names.  Resolving it on a stack of
steps loses count of the steps up: a `..` that finds another one before it takes that one back.  So of the
steps up no more is left than whether they are odd in number, and two paths can be compared by what is left
just if that is all there is to compare.
-/

namespace ImageBuild.Path

/-- Where a path leads. -/
structure Place where
  absolute : Bool
  /-- The steps up that had no name to take back. -/
  climbs : Nat
  /-- The names of the way down, the last one first. -/
  names : List (List Char)
deriving Repr, DecidableEq

namespace Place

def walk (l : Place) : Component → Place
  | .root => { l with absolute := true }
  | .here => l
  | .up =>
    match l.names with
    | [] => { l with climbs := l.climbs + 1 }
    | _ :: above => { l with names := above }
  | .name s => { l with names := s :: l.names }

/-- The way up and down leads to the same place; from the root no step leads up. -/
def SameBase (l m : Place) : Prop :=
  l.absolute = m.absolute ∧ (l.absolute = true ∨ l.climbs = m.climbs)

def Same (l m : Place) : Prop := SameBase l m ∧ l.names = m.names

/-- The place `m` is reached from `l` by more names, and by at least one. -/
def Below (m l : Place) : Prop :=
  SameBase l m ∧ ∃ more, more ≠ [] ∧ m.names = more ++ l.names

/-- What resolving leaves of a path, the latest step first. -/
def stack (l : Place) : List Component :=
  l.names.map .name ++ (List.replicate (l.climbs % 2) .up ++ if l.absolute then [.root] else [])

theorem walk_stack (l : Place) {c : Component} (hc : c ≠ .root) :
    Path.walk l.stack c = (l.walk c).stack := by
  obtain ⟨absolute, climbs, names⟩ := l
  cases c with
  | root => exact absurd rfl hc
  | here => rfl
  | name s => rfl
  | up =>
      cases names with
      | cons s above => rfl
      | nil =>
          have hparity : (climbs + 1) % 2 = 1 - climbs % 2 := by omega
          obtain heven | hodd : climbs % 2 = 0 ∨ climbs % 2 = 1 := by omega
          · cases absolute <;> simp [stack, walk, Path.walk, hparity, heven]
          · cases absolute <;> simp [stack, walk, Path.walk, hparity, hodd]

theorem foldl_walk_stack {steps : List Component} (h : .root ∉ steps) (l : Place) :
    steps.foldl Path.walk l.stack = (steps.foldl walk l).stack := by
  induction steps generalizing l with
  | nil => rfl
  | cons c rest ih =>
      rw [List.mem_cons, not_or] at h
      rw [List.foldl_cons, List.foldl_cons, walk_stack l (Ne.symm h.1), ih h.2]

theorem foldl_walk_names (names : List (List Char)) (l : Place) :
    (names.map Component.name).foldl walk l = { l with names := names.reverse ++ l.names } := by
  induction names generalizing l with
  | nil => rfl
  | cons s rest ih => rw [List.map_cons, List.foldl_cons, ih, walk]; simp

end Place

/-- The place that a path leads to by name alone. -/
def place (p : Path) : Place := p.components.foldl Place.walk ⟨false, 0, []⟩

theorem stepOf?_ne_root {piece : List Char} {c : Component} (h : stepOf? piece = some c) :
    c ≠ .root := by
  rw [stepOf?] at h
  split_ifs at h <;> cases h <;> simp

theorem root_notMem_filterMap (pieces : List (List Char)) : .root ∉ pieces.filterMap stepOf? := by
  intro hmem
  obtain ⟨piece, -, hpiece⟩ := List.mem_filterMap.1 hmem
  exact stepOf?_ne_root hpiece rfl

theorem components_cases (p : Path) :
    ∃ rest, .root ∉ rest ∧ (p.components = .root :: rest ∨ p.components = rest) := by
  rw [components, componentsOfChars]
  split
  · exact ⟨[], List.not_mem_nil, .inr rfl⟩
  · rename_i first rest _
    dsimp only
    split_ifs
    · exact ⟨_, root_notMem_filterMap rest, .inl rfl⟩
    · refine ⟨.here :: rest.filterMap stepOf?, ?_, .inr rfl⟩
      rw [List.mem_cons, not_or]
      exact ⟨by simp, root_notMem_filterMap rest⟩
    · refine ⟨(stepOf? first).toList ++ rest.filterMap stepOf?, ?_, .inr rfl⟩
      rw [List.mem_append, not_or]
      refine ⟨fun hmem => ?_, root_notMem_filterMap rest⟩
      exact stepOf?_ne_root (Option.mem_toList.1 hmem) rfl

/-- Of a path that is resolved by name alone there is left the root, a step up if there was an odd number of
them, and the names. -/
theorem lexical_eq (p : Path) :
    p.lexical = (if p.place.absolute then [.root] else []) ++
      List.replicate (p.place.climbs % 2) .up ++ p.place.names.reverse.map .name := by
  have hstack : p.components.foldl walk [] = p.place.stack := by
    rw [place]
    obtain ⟨rest, hrest, heq | heq⟩ := p.components_cases
    · rw [heq, List.foldl_cons, List.foldl_cons]
      exact Place.foldl_walk_stack hrest ⟨true, 0, []⟩
    · rw [heq]
      exact Place.foldl_walk_stack hrest ⟨false, 0, []⟩
  rw [lexical, hstack, Place.stack]
  cases p.place.absolute <;> simp

/-! ## The names on the way -/

/-- The text is made of names, with a slash between two of them. -/
def IsOrdinary (r : String) : Prop := ∀ piece ∈ r.toList.splitOn '/', IsNamePiece piece

instance (piece : List Char) : Decidable (IsNamePiece piece) :=
  inferInstanceAs (Decidable (stepOf? piece = some (.name piece)))

instance (r : String) : Decidable (IsOrdinary r) :=
  inferInstanceAs (Decidable (∀ piece ∈ r.toList.splitOn '/', IsNamePiece piece))

def Component.isName : Component → Bool
  | .name _ => true
  | _ => false

theorem eq_of_stepOf? {piece s : List Char} (h : stepOf? piece = some (.name s)) : piece = s := by
  rw [stepOf?] at h
  split_ifs at h <;> cases h
  rfl

theorem name_of_mem_components {p : Path} {s : List Char} (h : .name s ∈ p.components) :
    IsNamePiece s ∧ '/' ∉ s := by
  have hpiece : ∀ piece ∈ p.text.toList.splitOn '/', stepOf? piece = some (.name s) →
      IsNamePiece s ∧ '/' ∉ s := by
    intro piece hmem hstep
    obtain rfl := eq_of_stepOf? hstep
    exact ⟨hstep, Text.notMem_of_mem_splitOn hmem⟩
  rw [components, componentsOfChars] at h
  cases hsplit : p.text.toList.splitOn '/' with
  | nil => simp [hsplit] at h
  | cons first rest =>
      rw [hsplit] at h hpiece
      dsimp only at h
      rw [List.mem_append] at h
      rcases h with hfront | hrest
      · split_ifs at hfront
        · simp at hfront
        · simp at hfront
        · exact hpiece first List.mem_cons_self (Option.mem_toList.1 hfront)
      · obtain ⟨piece, hmem, hstep⟩ := List.mem_filterMap.1 hrest
        exact hpiece piece (List.mem_cons_of_mem first hmem) hstep

theorem Place.mem_names_foldl {steps : List Component} {l : Place} {s : List Char}
    (h : s ∈ (steps.foldl walk l).names) : s ∈ l.names ∨ .name s ∈ steps := by
  induction steps generalizing l with
  | nil => exact .inl h
  | cons c rest ih =>
      rcases ih h with hwalk | hrest
      · cases c with
        | root => exact .inl hwalk
        | here => exact .inl hwalk
        | up =>
            cases hnames : l.names with
            | nil => simp [walk, hnames] at hwalk
            | cons t above =>
                simp only [walk, hnames] at hwalk
                exact .inl (List.mem_cons_of_mem t hwalk)
        | name t =>
            rcases List.mem_cons.1 hwalk with rfl | hold
            · exact .inr List.mem_cons_self
            · exact .inl hold
      · exact .inr (List.mem_cons_of_mem c hrest)

theorem name_of_mem_place {p : Path} {s : List Char} (h : s ∈ p.place.names) :
    IsNamePiece s ∧ '/' ∉ s := by
  rcases Place.mem_names_foldl h with hnil | hmem
  · cases hnil
  · exact name_of_mem_components hmem

theorem isOrdinary_iff {steps : List Component} (hne : steps ≠ [])
    (hnames : ∀ s, .name s ∈ steps → IsNamePiece s ∧ '/' ∉ s) :
    IsOrdinary (String.ofList (['/'].intercalate (steps.map Component.chars))) ↔
      ∀ c ∈ steps, c.isName = true := by
  have hsplit : (['/'].intercalate (steps.map Component.chars)).splitOn '/' =
      steps.flatMap fun c => c.chars.splitOn '/' := by
    obtain rfl | ⟨front, last, rfl⟩ := List.eq_nil_or_concat steps
    · exact absurd rfl hne
    · rw [List.concat_eq_append, List.map_append, List.map_singleton,
        Text.intercalate_append_singleton, Text.splitOn_flatMap_append, List.flatMap_append,
        List.flatMap_map, List.flatMap_singleton]
  rw [IsOrdinary, String.toList_ofList, hsplit]
  constructor
  · intro h c hc
    have hpiece : ∀ piece ∈ c.chars.splitOn '/', IsNamePiece piece :=
      fun piece hmem => h piece (List.mem_flatMap.2 ⟨c, hc, hmem⟩)
    cases c with
    | root => exact absurd (hpiece [] (by decide)) (by decide)
    | here => exact absurd (hpiece ['.'] (by decide)) (by decide)
    | up => exact absurd (hpiece ['.', '.'] (by decide)) (by decide)
    | name s => rfl
  · intro h piece hmem
    obtain ⟨c, hc, hpiece⟩ := List.mem_flatMap.1 hmem
    cases c with
    | name s =>
        obtain ⟨hname, hslash⟩ := hnames s hc
        rw [Component.chars, List.splitOn_eq_singleton hslash, List.mem_singleton] at hpiece
        exact hpiece ▸ hname
    | root => cases h _ hc
    | here => cases h _ hc
    | up => cases h _ hc

/-! ## A path joined with names -/

theorem filterMap_stepOf? {names : List (List Char)} (h : ∀ piece ∈ names, IsNamePiece piece) :
    names.filterMap stepOf? = names.map .name := by
  induction names with
  | nil => rfl
  | cons piece rest ih =>
      rw [List.filterMap_cons_some (h piece List.mem_cons_self), List.map_cons,
        ih fun other hother => h other (List.mem_cons_of_mem piece hother)]

theorem componentsOfChars_append (front back : List Char) :
    componentsOfChars (front ++ '/' :: back) =
      componentsOfChars (front ++ ['/']) ++ (back.splitOn '/').filterMap stepOf? := by
  obtain ⟨first, rest, hsplit⟩ := List.exists_cons_of_ne_nil (List.splitOn_ne_nil '/' front)
  obtain ⟨next, more, hback⟩ := List.exists_cons_of_ne_nil (List.splitOn_ne_nil '/' back)
  rw [componentsOfChars, componentsOfChars, List.splitOn_append_cons_self,
    List.splitOn_append_cons_self, hsplit, hback]
  simp [stepOf?]

theorem componentsOfChars_slash {cs : List Char} (h : cs ≠ []) :
    componentsOfChars (cs ++ ['/']) = componentsOfChars cs := by
  obtain ⟨first, rest, hsplit⟩ := List.exists_cons_of_ne_nil (List.splitOn_ne_nil '/' cs)
  have hrest : first = [] → rest ≠ [] := by
    rintro rfl rfl
    have htext : ['/'].intercalate (cs.splitOn '/') = cs := List.intercalate_splitOn '/'
    rw [hsplit] at htext
    exact h htext.symm
  rw [componentsOfChars, componentsOfChars, List.splitOn_append_cons_self, hsplit]
  by_cases hfirst : first = []
  · simp [hfirst, hrest hfirst, stepOf?]
  · simp [hfirst, stepOf?]

theorem components_join {r : String} (hr : IsOrdinary r) (p : Path) :
    (p.join ⟨r⟩).components = p.components ++ (r.toList.splitOn '/').map .name := by
  have hrelative : isAbsolute ⟨r⟩ = false := by
    rw [isAbsolute]
    cases hchars : r.toList with
    | nil => rfl
    | cons c cs =>
        refine beq_eq_false_iff_ne.2 fun hslash => ?_
        obtain rfl : c = '/' := by simpa using hslash
        rw [IsOrdinary, hchars] at hr
        exact absurd (hr [] (by simp [List.splitOn_cons_eq_if_modifyHead])) (by decide)
  rw [← filterMap_stepOf? hr, join, hrelative, components, components]
  simp only [Bool.false_eq_true, if_false]
  split_ifs with hopen
  · rcases hopen with hempty | hlast
    · -- The first piece of a text of names is a name, and so no root and no `.`.
      obtain ⟨first, rest, hsplit⟩ := List.exists_cons_of_ne_nil (List.splitOn_ne_nil '/' r.toList)
      have hnil : p.text.toList = [] := by simpa using hempty
      have hfirst : stepOf? first = some (.name first) := hr first (by simp [hsplit])
      obtain ⟨hne, hdot, -⟩ := isNamePiece_iff.1 hfirst
      have hidle : stepOf? [] = none := rfl
      rw [String.toList_append, hnil, List.nil_append, componentsOfChars, componentsOfChars, hsplit]
      simp [hne, hdot, hfirst, hidle]
    · obtain ⟨front, hfront⟩ : ∃ front, p.text.toList = front ++ ['/'] :=
        List.getLast?_eq_some_iff.1 hlast
      rw [String.toList_append, hfront, List.append_assoc, List.singleton_append,
        componentsOfChars_append]
  · have hne : p.text.toList ≠ [] := fun h => hopen (.inl (by simpa using h))
    have htext : (p.text ++ "/" ++ r).toList = p.text.toList ++ '/' :: r.toList := by simp
    rw [htext, componentsOfChars_append, componentsOfChars_slash hne]

theorem place_join {r : String} (hr : IsOrdinary r) (p : Path) :
    (p.join ⟨r⟩).place =
      { p.place with names := (r.toList.splitOn '/').reverse ++ p.place.names } := by
  rw [place, components_join hr, List.foldl_append, Place.foldl_walk_names]
  rfl

end ImageBuild.Path
