import ImageBuild.Proofs.Path.Place
/-!
# Which files lie inside a tree

A file is taken to lie inside a tree if what is left of its path begins with what is left of the path of the
tree.  That is right for two paths with the same way up.  For others what is left of the file's path after
that of the tree is not made of names, or leads somewhere else: below `.` there is then a `../Dockerfile`.
-/

namespace ImageBuild

namespace Path

theorem afterHead?_eq_some {α : Type} [BEq α] [LawfulBEq α] {head xs rest : List α} :
    Text.afterHead? head xs = some rest ↔ xs = head ++ rest := by
  rw [Text.afterHead?]
  constructor
  · intro h
    split_ifs at h with hprefix
    obtain ⟨tail, rfl⟩ := List.isPrefixOf_iff_prefix.1 hprefix
    rw [List.drop_left] at h
    cases h
    rfl
  · rintro rfl
    rw [if_pos (List.isPrefixOf_iff_prefix.2 (List.prefix_append head rest)), List.drop_left]

variable {p root : Path} {r : String} {rest : List Component}

theorem relativeTo?_eq_some :
    p.relativeTo? root = some r ↔ ∃ rest, rest ≠ [] ∧ p.lexical = root.lexical ++ rest ∧
      r = String.ofList (['/'].intercalate (rest.map Component.chars)) := by
  rw [relativeTo?, Option.map_eq_some_iff]
  constructor
  · rintro ⟨rest, hbelow, rfl⟩
    rw [stepsBelow?] at hbelow
    split at hbelow
    · rename_i c cs hafter
      cases hbelow
      exact ⟨c :: cs, by simp, afterHead?_eq_some.1 hafter, rfl⟩
    · cases hbelow
  · rintro ⟨rest, hne, hlexical, rfl⟩
    refine ⟨rest, ?_, rfl⟩
    rw [stepsBelow?, afterHead?_eq_some.2 hlexical]
    cases rest with
    | nil => exact absurd rfl hne
    | cons c cs => rfl

/-- What is left of a path in front of the names. -/
def Place.base (l : Place) : List Component :=
  (if l.absolute then [.root] else []) ++ List.replicate (l.climbs % 2) .up

theorem lexical_eq_base (p : Path) : p.lexical = p.place.base ++ p.place.names.reverse.map .name :=
  p.lexical_eq

theorem Place.base_eq_iff {l m : Place} :
    l.base = m.base ↔ l.absolute = m.absolute ∧ l.climbs % 2 = m.climbs % 2 := by
  have hparity : ∀ n : Nat, n % 2 = 0 ∨ n % 2 = 1 := by omega
  rw [base, base]
  rcases hparity l.climbs with hl | hl <;> rcases hparity m.climbs with hm | hm <;>
    cases l.absolute <;> cases m.absolute <;> simp [hl, hm]

/-- The ways up are the same, and the same is left of them. -/
def Comparable (p root : Path) : Prop :=
  root.place.SameBase p.place ∧ root.place.climbs % 2 = p.place.climbs % 2

theorem Comparable.base_eq (h : Comparable p root) : root.place.base = p.place.base :=
  Place.base_eq_iff.2 ⟨h.1.1, h.2⟩

theorem filter_names (names : List (List Char)) :
    (names.map Component.name).filter (fun c => !c.isName) = [] := by
  rw [List.filter_eq_nil_iff]
  intro c hc
  obtain ⟨s, -, rfl⟩ := List.mem_map.1 hc
  exact Bool.false_ne_true

theorem Place.filter_base (l : Place) : l.base.filter (fun c => !c.isName) = l.base := by
  rw [List.filter_eq_self]
  intro c hc
  rw [base, List.mem_append] at hc
  rcases hc with hroot | hup
  · cases hl : l.absolute <;> simp [hl] at hroot
    rw [hroot]
    rfl
  · rw [List.eq_of_mem_replicate hup]
    rfl

theorem exists_names {rest : List Component} (h : ∀ c ∈ rest, c.isName = true) :
    ∃ names : List (List Char), rest = names.map .name := by
  induction rest with
  | nil => exact ⟨[], rfl⟩
  | cons c rest ih =>
      obtain ⟨names, rfl⟩ := ih fun d hd => h d (List.mem_cons_of_mem c hd)
      cases c with
      | name s => exact ⟨s :: names, rfl⟩
      | root => cases h .root List.mem_cons_self
      | here => cases h .here List.mem_cons_self
      | up => cases h .up List.mem_cons_self

/-- What is left of a path after that of a root is made of names just if the same is left of the ways up. -/
theorem names_iff_base_eq (h : p.lexical = root.lexical ++ rest) :
    (∀ c ∈ rest, c.isName = true) ↔ root.place.base = p.place.base := by
  rw [lexical_eq_base, lexical_eq_base, List.append_assoc] at h
  constructor
  · intro hnames
    obtain ⟨names, rfl⟩ := exists_names hnames
    have hfilter := congrArg (List.filter fun c => !c.isName) h
    simpa only [List.filter_append, Place.filter_base, filter_names, List.append_nil] using hfilter.symm
  · intro hbase c hc
    rw [hbase, List.append_cancel_left_eq] at h
    have hmem : c ∈ p.place.names.reverse.map Component.name := h ▸ List.mem_append_right _ hc
    obtain ⟨s, -, rfl⟩ := List.mem_map.1 hmem
    rfl

/-- The rest of a path after that of a root, if it is made of names. -/
theorem names_eq_of_base_eq {names : List (List Char)} (hbase : root.place.base = p.place.base) :
    p.lexical = root.lexical ++ names.map .name ↔
      p.place.names = names.reverse ++ root.place.names := by
  rw [lexical_eq_base, lexical_eq_base, hbase, List.append_assoc, List.append_cancel_left_eq,
    ← List.map_append, List.map_inj_right fun _ _ => Component.name.inj, List.reverse_eq_iff,
    List.reverse_append, List.reverse_reverse]

theorem name_of_mem_lexical {s : List Char} (h : .name s ∈ p.lexical) : IsNamePiece s ∧ '/' ∉ s := by
  rw [lexical_eq_base, List.mem_append] at h
  rcases h with hbase | hnames
  · rw [← Place.filter_base] at hbase
    cases (List.mem_filter.1 hbase).2
  · obtain ⟨s', hs', hname⟩ := List.mem_map.1 hnames
    cases hname
    exact name_of_mem_place (List.mem_reverse.1 hs')

theorem map_chars_names (names : List (List Char)) :
    (names.map Component.name).map Component.chars = names := by
  rw [List.map_map]
  exact List.map_id names

theorem splitOn_names {names : List (List Char)} (hne : names ≠ []) (h : ∀ s ∈ names, '/' ∉ s) :
    (String.ofList (['/'].intercalate ((names.map Component.name).map Component.chars))).toList.splitOn
      '/' = names := by
  rw [map_chars_names, String.toList_ofList, List.splitOn_intercalate '/' h hne]

/-- The path that is found for a file is made of names and leads to the file just if the two paths can be
compared. -/
theorem faithful_iff (h : p.relativeTo? root = some r) :
    (IsOrdinary r ∧ (root.join ⟨r⟩).place.Same p.place) ↔ Comparable p root := by
  obtain ⟨rest, hne, hlexical, rfl⟩ := relativeTo?_eq_some.1 h
  have hmem : ∀ s, .name s ∈ rest → IsNamePiece s ∧ '/' ∉ s := fun s hs =>
    name_of_mem_lexical (hlexical ▸ List.mem_append_right _ hs)
  have hordinary := (isOrdinary_iff hne hmem).trans (names_iff_base_eq hlexical)
  constructor
  · rintro ⟨hr, hsame⟩
    rw [place_join hr] at hsame
    exact ⟨hsame.1, (Place.base_eq_iff.1 (hordinary.1 hr)).2⟩
  · intro hcomparable
    have hr := hordinary.2 hcomparable.base_eq
    obtain ⟨names, rfl⟩ := exists_names ((names_iff_base_eq hlexical).2 hcomparable.base_eq)
    have hnames : names ≠ [] := by simpa using hne
    have hsplit := splitOn_names hnames fun s hs => (hmem s (List.mem_map_of_mem hs)).2
    rw [place_join hr, hsplit]
    exact ⟨hr, hcomparable.1, ((names_eq_of_base_eq hcomparable.base_eq).1 hlexical).symm⟩

/-- The path that is found for a file is made of the names that lead to it from the root. -/
theorem relativeTo?_eq_some_of_comparable (h : Comparable p root) :
    p.relativeTo? root = some r ↔ ∃ names, names ≠ [] ∧
      p.place.names = names.reverse ++ root.place.names ∧ r = String.ofList (['/'].intercalate names) := by
  rw [relativeTo?_eq_some]
  constructor
  · rintro ⟨rest, hne, hlexical, rfl⟩
    obtain ⟨names, rfl⟩ := exists_names ((names_iff_base_eq hlexical).2 h.base_eq)
    exact ⟨names, by simpa using hne, (names_eq_of_base_eq h.base_eq).1 hlexical, by rw [map_chars_names]⟩
  · rintro ⟨names, hne, hnames, rfl⟩
    exact ⟨names.map .name, by simpa using hne, (names_eq_of_base_eq h.base_eq).2 hnames,
      by rw [map_chars_names]⟩

theorem exists_relativeTo?_iff (h : Comparable p root) :
    (∃ r, p.relativeTo? root = some r) ↔ p.place.Below root.place := by
  constructor
  · rintro ⟨r, hr⟩
    obtain ⟨names, hne, hnames, -⟩ := (relativeTo?_eq_some_of_comparable h).1 hr
    exact ⟨h.1, names.reverse, by simpa using hne, hnames⟩
  · rintro ⟨-, more, hne, hnames⟩
    exact ⟨_, (relativeTo?_eq_some_of_comparable h).2
      ⟨more.reverse, by simpa using hne, by rw [List.reverse_reverse, hnames], rfl⟩⟩

theorem relativeTo?_eq_none_iff (h : Comparable p root) :
    p.relativeTo? root = none ↔ ¬p.place.Below root.place := by
  rw [← exists_relativeTo?_iff h, not_exists, Option.eq_none_iff_forall_ne_some]

end Path
end ImageBuild
