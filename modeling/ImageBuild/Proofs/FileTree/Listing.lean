import ImageBuild.FileTree.Lookup

/-!
# Listings of a tree

What a directory tree holds is a map from locations to files, directories,
links and sockets.  A listing names every location below the root once, with
what stands there, in the lexicographic order of the locations: a directory
comes before what lies in it, and neighbours come in the order of their names.
There is exactly one such listing of a tree whose directories give each name
once, and the order in which they list their entries has no part in it.
-/

namespace ImageBuild.FileTree

/-- The names that a directory can give to an entry. -/
def IsName (name : FileName) : Prop :=
  name ≠ [] ∧ name ≠ [FileSystem.dot] ∧ FileSystem.slash ∉ name

instance : DecidablePred IsName := fun name =>
  inferInstanceAs (Decidable (name ≠ [] ∧ name ≠ [FileSystem.dot] ∧ FileSystem.slash ∉ name))

/-- The trees that a file system can hold: the entries of a directory have
names, and no two of them the same one. -/
inductive IsProper : FileTree → Prop
  | file (content : ByteArray) : IsProper (.file content)
  | link (target : List UInt8) : IsProper (.link target)
  | socket : IsProper .socket
  | dir (entries : List (FileName × FileTree)) (hnames : ∀ e ∈ entries, IsName e.1)
      (hnodup : (entries.map Prod.fst).Nodup) (hbelow : ∀ e ∈ entries, IsProper e.2) :
      IsProper (.dir entries)

/-- A file, link or socket as it is, and a directory without what lies in it. -/
def bare : FileTree → FileTree
  | dir _ => dir []
  | t => t

/-- Two trees that hold the same at every location, in whatever order their
directories list it. -/
def Alike (s t : FileTree) : Prop :=
  ∀ location, (s.at? location).map bare = (t.at? location).map bare

/-- Every location below the root of a tree, with what stands there, in
lexicographic order. -/
structure IsListing (t : FileTree) (found : List (List FileName × FileTree)) : Prop where
  mem_iff : ∀ location node,
    (location, node) ∈ found ↔ location ≠ [] ∧ t.at? location = some node
  sorted : found.Pairwise fun a b => a.1 < b.1

/-! ## The order of names -/

theorem nameLE_iff (a b : FileName) : nameLE a b = true ↔ a ≤ b := by
  induction a generalizing b with
  | nil => simp [nameLE]
  | cons x a ih =>
      cases b with
      | nil => simp [nameLE]
      | cons y b =>
          rw [nameLE, List.cons_le_cons_iff]
          by_cases hxy : x = y
          · simp [hxy, ih]
          · simp [hxy]

theorem pairwise_sortedEntries (entries : List (FileName × FileTree)) :
    (sortedEntries entries).Pairwise fun a b => a.1 ≤ b.1 := by
  have hsorted := @List.pairwise_mergeSort _ (fun a b : FileName × FileTree => nameLE a.1 b.1)
    (fun a b c hab hbc => by
      simp only [nameLE_iff] at hab hbc ⊢
      exact List.le_trans hab hbc)
    (fun a b => by simpa only [Bool.or_eq_true, nameLE_iff] using List.le_total a.1 b.1) entries
  exact hsorted.imp fun h => (nameLE_iff _ _).1 h

theorem pairwise_lt_sortedEntries {entries : List (FileName × FileTree)}
    (hnodup : (entries.map Prod.fst).Nodup) :
    (sortedEntries entries).Pairwise fun a b => a.1 < b.1 := by
  have hperm : (sortedEntries entries).Perm entries := List.mergeSort_perm entries _
  have hne : (sortedEntries entries).Pairwise fun a b => a.1 ≠ b.1 :=
    List.pairwise_map.1 ((hperm.map Prod.fst).nodup_iff.2 hnodup)
  refine ((pairwise_sortedEntries entries).and hne).imp ?_
  rintro a b ⟨hle, hab⟩
  exact Std.lt_of_le_of_ne hle hab

/-! ## The listing of a tree -/

def lower (name : FileName) (e : List FileName × FileTree) : List FileName × FileTree :=
  (name :: e.1, e.2)

mutual

/-- The locations below the root of a tree, in the order of a walk. -/
def located : FileTree → List (List FileName × FileTree)
  | .dir entries =>
    ((locatedEntries entries).mergeSort fun a b => nameLE a.1 b.1).flatMap Prod.snd
  | _ => []

def locatedEntries :
    List (FileName × FileTree) → List (FileName × List (List FileName × FileTree))
  | [] => []
  | (name, node) :: rest =>
    (name, ([name], node) :: (located node).map (lower name)) :: locatedEntries rest

end

def locatedIn (e : FileName × FileTree) : List (List FileName × FileTree) :=
  ([e.1], e.2) :: (located e.2).map (lower e.1)

theorem locatedEntries_eq_map (entries : List (FileName × FileTree)) :
    locatedEntries entries = entries.map fun e => (e.1, locatedIn e) := by
  induction entries with
  | nil => rfl
  | cons e rest ih => rw [locatedEntries, ih]; rfl

theorem located_dir (entries : List (FileName × FileTree)) :
    located (.dir entries) = (sortedEntries entries).flatMap locatedIn := by
  have hsort := List.map_mergeSort (l := entries) (f := fun e => (e.1, locatedIn e))
    (r := fun a b => nameLE a.1 b.1) (s := fun a b => nameLE a.1 b.1) (fun _ _ _ _ => rfl)
  rw [located, locatedEntries_eq_map, ← hsort, List.flatMap_map]
  rfl

/-- Induction over trees: what holds of a directory may be shown from what
holds of all its entries. -/
theorem inductionOn {P : FileTree → Prop} (t : FileTree) (hleaf : ∀ t, t.isDir = false → P t)
    (hdir : ∀ entries, (∀ e ∈ entries, P e.2) → P (.dir entries)) : P t := by
  match t with
  | .file _ | .link _ | .socket => exact hleaf _ rfl
  | .dir entries =>
      refine hdir entries fun e he => ?_
      exact inductionOn e.2 hleaf hdir
termination_by sizeOf t
decreasing_by
  have hlt := List.sizeOf_lt_of_mem he
  cases e
  simp at hlt ⊢
  omega

theorem mem_locatedIn {e : FileName × FileTree} {location : List FileName} {node : FileTree} :
    (location, node) ∈ locatedIn e ↔
      (location = [e.1] ∧ node = e.2) ∨
        ∃ rest, location = e.1 :: rest ∧ (rest, node) ∈ located e.2 := by
  simp only [locatedIn, List.mem_cons, Prod.mk.injEq, List.mem_map]
  refine or_congr_right ⟨?_, ?_⟩
  · rintro ⟨⟨rest, n⟩, hmem, heq⟩
    obtain ⟨rfl, rfl⟩ := Prod.mk.inj heq
    exact ⟨rest, rfl, hmem⟩
  · rintro ⟨rest, rfl, hmem⟩
    exact ⟨(rest, node), hmem, rfl⟩

theorem exists_of_mem_locatedIn {e : FileName × FileTree} {a : List FileName × FileTree}
    (h : a ∈ locatedIn e) : ∃ rest, a.1 = e.1 :: rest := by
  rcases mem_locatedIn.1 h with ⟨heq, -⟩ | ⟨rest, heq, -⟩
  · exact ⟨[], heq⟩
  · exact ⟨rest, heq⟩

/-- In a directory that gives each name once, looking a name up finds its
entry. -/
theorem entryOf?_eq_some_iff {entries : List (FileName × FileTree)}
    (hnodup : (entries.map Prod.fst).Nodup) {name : FileName} {node : FileTree} :
    entryOf? name entries = some node ↔ (name, node) ∈ entries := by
  induction entries with
  | nil => simp [entryOf?]
  | cons e rest ih =>
      obtain ⟨hfresh, hrest⟩ := List.nodup_cons.1 hnodup
      by_cases hname : e.1 = name
      · subst hname
        have hnot : (e.1, node) ∉ rest := fun h => hfresh (List.mem_map.2 ⟨_, h, rfl⟩)
        simp [entryOf?, hnot, Prod.ext_iff, eq_comm]
      · have hlookup : entryOf? name (e :: rest) = entryOf? name rest := by
          simp [entryOf?, hname]
        rw [hlookup, ih hrest, List.mem_cons]
        refine ⟨.inr, fun h => h.resolve_left ?_⟩
        rintro rfl
        exact hname rfl

theorem located_of_not_dir {t : FileTree} (h : t.isDir = false) : located t = [] := by
  cases t with
  | dir => cases h
  | _ => rw [located]; simp

theorem at?_cons_of_not_dir {t : FileTree} (h : t.isDir = false) (name : FileName)
    (rest : List FileName) : t.at? (name :: rest) = none := by
  cases t with
  | dir => cases h
  | _ => rfl

theorem mem_located {t : FileTree} (ht : t.IsProper) (location : List FileName) (node : FileTree) :
    (location, node) ∈ located t ↔ location ≠ [] ∧ t.at? location = some node := by
  induction t using inductionOn generalizing location node with
  | hleaf t hleaf =>
      rw [located_of_not_dir hleaf]
      cases location with
      | nil => simp
      | cons name rest => simp [at?_cons_of_not_dir hleaf]
  | hdir entries ih =>
      obtain _ | _ | _ | ⟨_, hnames, hnodup, hproper⟩ := ht
      have hmem : (location, node) ∈ located (.dir entries) ↔
          ∃ e ∈ entries, (location, node) ∈ locatedIn e := by
        simp [located_dir, sortedEntries]
      rw [hmem]
      cases location with
      | nil => simp [mem_locatedIn]
      | cons name rest =>
          constructor
          · rintro ⟨e, he, hin⟩
            refine ⟨List.cons_ne_nil name rest, ?_⟩
            have hentry := (entryOf?_eq_some_iff hnodup).2 he
            rcases mem_locatedIn.1 hin with ⟨heq, rfl⟩ | ⟨rest', heq, hrest⟩
            · obtain ⟨rfl, rfl⟩ := List.cons.inj heq
              simp [at?, child?, hentry]
            · obtain ⟨rfl, rfl⟩ := List.cons.inj heq
              have hat := ((ih e he (hproper e he) rest node).1 hrest).2
              simp [at?, child?, hentry, hat]
          · rintro ⟨-, hat⟩
            obtain ⟨t, hentry, hrest⟩ := Option.bind_eq_some_iff.1 hat
            have he := (entryOf?_eq_some_iff hnodup).1 hentry
            refine ⟨(name, t), he, mem_locatedIn.2 ?_⟩
            cases rest with
            | nil => exact .inl ⟨rfl, (Option.some.inj hrest).symm⟩
            | cons next rest =>
                exact .inr ⟨next :: rest, rfl, (ih _ he (hproper _ he) _ _).2
                  ⟨List.cons_ne_nil next rest, hrest⟩⟩

theorem pairwise_located {t : FileTree} (ht : t.IsProper) :
    (located t).Pairwise fun a b => a.1 < b.1 := by
  induction t using inductionOn with
  | hleaf t hleaf => simp [located_of_not_dir hleaf]
  | hdir entries ih =>
      obtain _ | _ | _ | ⟨_, hnames, hnodup, hproper⟩ := ht
      rw [located_dir, List.pairwise_flatMap]
      constructor
      · intro e he
        have hmem : e ∈ entries := by simpa [sortedEntries] using he
        rw [locatedIn, List.pairwise_cons]
        constructor
        · rintro a ha
          obtain ⟨b, hb, rfl⟩ := List.mem_map.1 ha
          have hne := ((mem_located (hproper e hmem) b.1 b.2).1 hb).1
          obtain ⟨name, rest, hcons⟩ := List.exists_cons_of_ne_nil hne
          rw [lower, hcons]
          exact List.cons_lt_cons_iff.2 (.inr ⟨rfl, List.nil_lt_cons name rest⟩)
        · refine List.pairwise_map.2 ((ih e hmem (hproper e hmem)).imp fun hlt => ?_)
          exact List.cons_lt_cons_iff.2 (.inr ⟨rfl, hlt⟩)
      · refine (pairwise_lt_sortedEntries hnodup).imp ?_
        intro e f hlt a ha b hb
        obtain ⟨ra, hra⟩ := exists_of_mem_locatedIn ha
        obtain ⟨rb, hrb⟩ := exists_of_mem_locatedIn hb
        rw [hra, hrb]
        exact List.cons_lt_cons_iff.2 (.inl hlt)

theorem isListing_located {t : FileTree} (ht : t.IsProper) : t.IsListing (located t) :=
  ⟨mem_located ht, pairwise_located ht⟩

/-! ## Uniqueness -/

theorem eq_of_pairwise_lt {α : Type} {xs ys : List (List FileName × α)}
    (hxs : xs.Pairwise fun a b => a.1 < b.1) (hys : ys.Pairwise fun a b => a.1 < b.1)
    (hmem : ∀ e, e ∈ xs ↔ e ∈ ys) : xs = ys := by
  have hnodup : ∀ {zs : List (List FileName × α)}, (zs.Pairwise fun a b => a.1 < b.1) →
      zs.Nodup := by
    intro zs h
    refine h.imp ?_
    rintro a b hlt rfl
    exact List.lt_irrefl _ hlt
  refine List.Perm.eq_of_pairwise ?_ hxs hys
    ((List.perm_ext_iff_of_nodup (hnodup hxs) (hnodup hys)).2 hmem)
  intro a b _ _ hab hba
  exact absurd hba (List.lt_asymm hab)

/-- A tree has one listing. -/
theorem IsListing.unique {t : FileTree} {xs ys : List (List FileName × FileTree)}
    (hxs : t.IsListing xs) (hys : t.IsListing ys) : xs = ys :=
  eq_of_pairwise_lt hxs.sorted hys.sorted fun e => by
    rw [hxs.mem_iff e.1 e.2, hys.mem_iff e.1 e.2]

/-- Trees that hold the same have the same listing, up to what lies in the
directories. -/
theorem Alike.map_located {s t : FileTree} (hs : s.IsProper) (ht : t.IsProper)
    (h : s.Alike t) :
    (located s).map (Prod.map id bare) = (located t).map (Prod.map id bare) := by
  have hmem : ∀ {u : FileTree}, u.IsProper → ∀ e : List FileName × FileTree,
      e ∈ (located u).map (Prod.map id bare) ↔
        e.1 ≠ [] ∧ (u.at? e.1).map bare = some e.2 := by
    intro u hu e
    rw [List.mem_map]
    constructor
    · rintro ⟨⟨location, node⟩, hin, rfl⟩
      obtain ⟨hne, hat⟩ := (mem_located hu location node).1 hin
      exact ⟨hne, by simp [hat]⟩
    · rintro ⟨hne, hat⟩
      obtain ⟨node, hnode, hbare⟩ := Option.map_eq_some_iff.1 hat
      exact ⟨(e.1, node), (mem_located hu _ _).2 ⟨hne, hnode⟩, Prod.ext rfl hbare⟩
  refine eq_of_pairwise_lt (List.pairwise_map.2 (pairwise_located hs))
    (List.pairwise_map.2 (pairwise_located ht)) fun e => ?_
  rw [hmem hs, hmem ht, h e.1]

end ImageBuild.FileTree
