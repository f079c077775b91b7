import ImageBuild.Archive.Walk
import ImageBuild.Proofs.FileTree.Naming
import Mathlib.Data.List.Basic

/-!
# Packing without a look at ignored directories

A walk that enters every directory comes across the listing of the tree.  The
walk of an archive leaves out directories, but only some below which nothing is
wanted, so that its wanted findings are those of the listing.  Hence an archive
is a function of what the tree holds and of what the rules say of each path.
-/

namespace ImageBuild.Archive

open FileTree (IsName IsProper pathOf located locatedIn lower sortedEntries)

/-- What a walk comes across in one entry of a directory. -/
def visit (enter : String → Bool) (dir : String) (e : FileName × FileTree) : List Found :=
  ⟨nameBelow dir e.1, e.2⟩ ::
    if enter (nameBelow dir e.1) then walk enter (nameBelow dir e.1) e.2 else []

theorem walkEntries_eq_map (enter : String → Bool) (dir : String)
    (entries : List (FileName × FileTree)) :
    walkEntries enter dir entries = entries.map fun e => (e.1, visit enter dir e) := by
  induction entries with
  | nil => rfl
  | cons e rest ih => rw [walkEntries, ih]; rfl

theorem walk_dir (enter : String → Bool) (dir : String) (entries : List (FileName × FileTree)) :
    walk enter dir (.dir entries) = (sortedEntries entries).flatMap (visit enter dir) := by
  have hsort := List.map_mergeSort (l := entries) (f := fun e => (e.1, visit enter dir e))
    (r := fun a b => FileTree.nameLE a.1 b.1) (s := fun a b => FileTree.nameLE a.1 b.1)
    (fun _ _ _ _ => rfl)
  rw [walk, walkEntries_eq_map, inOrder, ← hsort, List.flatMap_map]
  rfl

theorem walk_of_not_dir (enter : String → Bool) (dir : String) {t : FileTree}
    (h : t.isDir = false) : walk enter dir t = [] := by
  cases t with
  | dir => cases h
  | _ => rw [walk]; simp

theorem nameBelow_pathOf {location : List FileName} (hnames : ∀ name ∈ location, IsName name)
    (name : FileName) : nameBelow (pathOf location) name = pathOf (location ++ [name]) := by
  rw [nameBelow]
  split
  · rename_i hempty
    obtain rfl := (FileTree.pathOf_eq_empty_iff hnames).1 hempty
    rfl
  · rename_i hempty
    have hne : location ≠ [] := fun h => hempty ((FileTree.pathOf_eq_empty_iff hnames).2 h)
    refine String.toList_inj.1 ?_
    rw [FileTree.toList_pathOf_append hne (List.cons_ne_nil name [])]
    simp [pathOf, Text.joinWith, Text.Utf8.toStringLossy]

def foundBelow (location : List FileName) (e : List FileName × FileTree) : Found :=
  ⟨pathOf (location ++ e.1), e.2⟩

theorem isName_append_singleton {location : List FileName} {name : FileName}
    (hnames : ∀ name ∈ location, IsName name) (hname : IsName name) :
    ∀ other ∈ location ++ [name], IsName other := by
  intro other hother
  rcases List.mem_append.1 hother with hother | hother
  · exact hnames other hother
  · exact List.mem_singleton.1 hother ▸ hname

theorem walk_all {t : FileTree} (ht : t.IsProper) {location : List FileName}
    (hnames : ∀ name ∈ location, IsName name) :
    walk (fun _ => true) (pathOf location) t = (located t).map (foundBelow location) := by
  induction t using FileTree.inductionOn generalizing location with
  | hleaf t hleaf => rw [walk_of_not_dir _ _ hleaf, FileTree.located_of_not_dir hleaf]; rfl
  | hdir entries ih =>
      obtain _ | _ | _ | ⟨_, hentries, hnodup, hproper⟩ := ht
      rw [walk_dir, FileTree.located_dir, List.map_flatMap]
      refine List.flatMap_congr fun e he => ?_
      have hmem : e ∈ entries := by simpa [sortedEntries] using he
      have hrest := ih e hmem (hproper e hmem) (isName_append_singleton hnames (hentries e hmem))
      simp only [visit, nameBelow_pathOf hnames, if_true, hrest, locatedIn, List.map_cons,
        List.map_map]
      refine List.cons_eq_cons.2 ⟨rfl, List.map_congr_left fun f _ => ?_⟩
      simp [foundBelow, lower]

theorem filter_walk_all_eq_nil {keep : String → Bool} {t : FileTree} (ht : t.IsProper)
    {location : List FileName} (hnames : ∀ name ∈ location, IsName name)
    (hnone : ∀ rest, rest ≠ [] → (∀ name ∈ location ++ rest, IsName name) →
      keep (pathOf (location ++ rest)) = false) :
    (walk (fun _ => true) (pathOf location) t).filter (fun f => keep f.name) = [] := by
  rw [walk_all ht hnames, List.filter_eq_nil_iff]
  intro f hf
  obtain ⟨⟨rest, node⟩, hin, rfl⟩ := List.mem_map.1 hf
  obtain ⟨hne, hat⟩ := (FileTree.mem_located ht rest node).1 hin
  have hall : ∀ name ∈ location ++ rest, IsName name := by
    intro name hname
    rcases List.mem_append.1 hname with hname | hname
    · exact hnames name hname
    · exact ht.isName_of_at? hat name hname
  simp [foundBelow, hnone rest hne hall]

/-- Staying out of directories below which nothing is kept does not change what
is kept. -/
theorem filter_walk {enter keep : String → Bool}
    (hprune : ∀ location rest, location ≠ [] → rest ≠ [] →
      (∀ name ∈ location ++ rest, IsName name) → enter (pathOf location) = false →
        keep (pathOf (location ++ rest)) = false)
    {t : FileTree} (ht : t.IsProper) {location : List FileName}
    (hnames : ∀ name ∈ location, IsName name) :
    (walk enter (pathOf location) t).filter (fun f => keep f.name) =
      (walk (fun _ => true) (pathOf location) t).filter fun f => keep f.name := by
  induction t using FileTree.inductionOn generalizing location with
  | hleaf t hleaf => rw [walk_of_not_dir _ _ hleaf, walk_of_not_dir _ _ hleaf]
  | hdir entries ih =>
      obtain _ | _ | _ | ⟨_, hentries, hnodup, hproper⟩ := ht
      rw [walk_dir, walk_dir, List.filter_flatMap, List.filter_flatMap]
      refine List.flatMap_congr fun e he => ?_
      have hmem : e ∈ entries := by simpa [sortedEntries] using he
      have hlower := isName_append_singleton hnames (hentries e hmem)
      simp only [visit, nameBelow_pathOf hnames, List.filter_cons, if_true]
      cases henter : enter (pathOf (location ++ [e.1])) with
      | true => rw [if_pos rfl, ih e hmem (hproper e hmem) hlower]
      | false =>
          have hnone := filter_walk_all_eq_nil (hproper e hmem) hlower fun rest hne hall =>
            hprune (location ++ [e.1]) rest (by simp) hne hall henter
          simp [hnone]

theorem isWanted_below {rules : Ignore.Rules} {additions : Additions}
    (location rest : List FileName) (hne : location ≠ []) (hrest : rest ≠ [])
    (hnames : ∀ name ∈ location ++ rest, IsName name)
    (henter : isEntered rules additions (pathOf location) = false) :
    isWanted rules additions (pathOf (location ++ rest)) = false := by
  obtain ⟨⟨hadded, hignored⟩, hreach⟩ :
      (pathOf location ∉ additions.names ∧ rules.isIgnored (pathOf location) = true) ∧
        rules.mayReincludeUnder (pathOf location) = false := by
    simpa [isEntered] using henter
  have hbelow := FileTree.isBelow_pathOf hne hrest hnames
  simp [isWanted, Ignore.isIgnored_of_isBelow hignored hreach hbelow]

def Found.bare (f : Found) : Found :=
  ⟨f.name, f.node.bare⟩

theorem Found.entry_bare (root : Path) (f : Found) : f.bare.entry root = f.entry root := by
  obtain ⟨name, node⟩ := f
  cases node <;> rfl

theorem ofFound_map_bare (root : Path) (found : List Found) :
    ofFound root (found.map Found.bare) = ofFound root found := by
  induction found with
  | nil => rfl
  | cons f rest ih => rw [List.map_cons, ofFound, ofFound, Found.entry_bare, ih]

/-- The findings of a listing that go into an archive. -/
def wanted (rules : Ignore.Rules) (additions : Additions)
    (found : List (List FileName × FileTree)) : List Found :=
  (found.map fun e => ⟨pathOf e.1, e.2⟩).filter fun f =>
    !additions.names.contains f.name && !rules.isIgnored f.name

theorem filter_walk_wanted {t : FileTree} (ht : t.IsProper) (rules : Ignore.Rules) (additions : Additions) :
    ((walk (isEntered rules additions) "" t).filter fun f => isWanted rules additions f.name) =
      wanted rules additions (located t) := by
  have hnone : ∀ name ∈ ([] : List FileName), IsName name := by simp
  have hprune := @isWanted_below rules additions
  have hfilter := filter_walk hprune ht hnone
  rw [walk_all ht hnone] at hfilter
  exact hfilter

theorem ofTree_eq (t : FileTree) (ht : t.IsProper) (root : Path) (rules : Ignore.Rules)
    (additions : Additions) :
    ofTree t root rules additions =
      (ofFound root (wanted rules additions (located t))).append additions.entries := by
  rw [ofTree, filter_walk_wanted ht]

theorem pairwise_mergeSort_additions (additions : Additions) :
    (additions.mergeSort fun a b => !(b.1 < a.1)).Pairwise fun a b => a.1 ≤ b.1 := by
  have hsorted := @List.pairwise_mergeSort _ (fun a b : String × ByteArray => !(b.1 < a.1))
    (fun a b c hab hbc => by
      simp only [Bool.not_eq_true', decide_eq_false_iff_not, String.not_lt] at hab hbc ⊢
      exact String.le_trans hab hbc)
    (fun a b => by
      simpa only [Bool.or_eq_true, Bool.not_eq_true', decide_eq_false_iff_not, String.not_lt]
        using String.le_total a.1 b.1) additions
  exact hsorted.imp fun h => by
    simpa only [Bool.not_eq_true', decide_eq_false_iff_not, String.not_lt] using h

/-- The order in which directories list their entries has no part in an
archive. -/
theorem ofTree_congr {s t : FileTree} (hs : s.IsProper) (ht : t.IsProper) (h : s.Alike t)
    (root : Path) (rules : Ignore.Rules) (additions : Additions) :
    ofTree s root rules additions = ofTree t root rules additions := by
  have hbare : ∀ found, (wanted rules additions found).map Found.bare =
      wanted rules additions (found.map (Prod.map id FileTree.bare)) := by
    intro found
    simp only [wanted, List.map_map, List.filter_map]
    rfl
  rw [ofTree_eq s hs, ofTree_eq t ht, ← ofFound_map_bare root (wanted rules additions (located s)),
    ← ofFound_map_bare root (wanted rules additions (located t)), hbare, hbare,
    h.map_located hs ht]

/-- A pruned walk packs the listing of a tree: every location in depth-first
order whose path is neither ignored nor the name of an addition, up to the first
that cannot be packed, and then the additions in the order of their names. -/
theorem ofTree_packs_listing (t : FileTree) (ht : t.IsProper) (root : Path)
    (rules : Ignore.Rules) (additions : Additions) :
    (∃ (found : List (List FileName × FileTree)) (added : Additions),
      t.IsListing found ∧ added.Perm additions ∧ (added.Pairwise fun a b => a.1 ≤ b.1) ∧
        ofTree t root rules additions =
          (ofFound root ((found.map fun e => ⟨pathOf e.1, e.2⟩).filter fun f =>
            !additions.names.contains f.name && !rules.isIgnored f.name)).append
              (added.map fun a => ⟨a.1, .file a.2⟩)) ∧
      (∀ dir rest, dir ≠ [] → rest ≠ [] → (∀ name ∈ dir ++ rest, IsName name) →
        rules.isIgnored (pathOf dir) = true → rules.mayReincludeUnder (pathOf dir) = false →
          rules.isIgnored (pathOf (dir ++ rest)) = true) ∧
      ∀ other : FileTree, other.IsProper → t.Alike other →
        ofTree other root rules additions = ofTree t root rules additions := by
  refine ⟨⟨located t, additions.mergeSort fun a b => !(b.1 < a.1), ?_, ?_, ?_, ?_⟩, ?_, ?_⟩
  · exact FileTree.isListing_located ht
  · exact List.mergeSort_perm additions _
  · exact pairwise_mergeSort_additions additions
  · exact ofTree_eq t ht root rules additions
  · intro dir rest hdir hrest hnames hignored hreach
    exact Ignore.isIgnored_of_isBelow hignored hreach (FileTree.isBelow_pathOf hdir hrest hnames)
  · intro other hother halike
    exact (ofTree_congr ht hother halike root rules additions).symm

/-- A directory that is ignored but for one file, and a socket behind it. -/
theorem ofTree_packs_listing_reincluded :
    IsProper (.dir [([111], .dir [([98], .file ⟨#[1]⟩), ([97], .file ⟨#[]⟩)]), ([112], .socket)]) ∧
      ∃ (found : List (List FileName × FileTree)) (added : Additions),
        FileTree.IsListing
          (.dir [([111], .dir [([98], .file ⟨#[1]⟩), ([97], .file ⟨#[]⟩)]), ([112], .socket)])
          found ∧
        added.Perm [("Dockerfile", ⟨#[2]⟩)] ∧ (added.Pairwise fun a b => a.1 ≤ b.1) ∧
          ofTree
            (.dir [([111], .dir [([98], .file ⟨#[1]⟩), ([97], .file ⟨#[]⟩)]), ([112], .socket)])
            ⟨"src"⟩ ((Ignore.Rules.parse "o\n!o/a").toOption.getD []) [("Dockerfile", ⟨#[2]⟩)] =
            (ofFound ⟨"src"⟩ ((found.map fun e => ⟨pathOf e.1, e.2⟩).filter fun f =>
              !(["Dockerfile"].contains f.name) &&
                !((Ignore.Rules.parse "o\n!o/a").toOption.getD []).isIgnored f.name)).append
                (added.map fun a => ⟨a.1, .file a.2⟩) := by
  have hinner : IsProper (.dir [([98], .file ⟨#[1]⟩), ([97], .file ⟨#[]⟩)]) :=
    .dir _ (by decide) (by decide) (by simpa using ⟨.file _, .file _⟩)
  have hproper : IsProper
      (.dir [([111], .dir [([98], .file ⟨#[1]⟩), ([97], .file ⟨#[]⟩)]), ([112], .socket)]) :=
    .dir _ (by decide) (by decide) (by simpa using ⟨hinner, .socket⟩)
  exact ⟨hproper, (ofTree_packs_listing _ hproper ⟨"src"⟩
    ((Ignore.Rules.parse "o\n!o/a").toOption.getD []) [("Dockerfile", ⟨#[2]⟩)]).1⟩

end ImageBuild.Archive
