import ImageBuild.Proofs.Context.Dockerfile
/-!
# Archives that can be unpacked

An archive describes a tree if no name stands for two entries, and if nothing lies below a file or a link.  What is
packed from a tree can fail to do so in two ways.  Names that are no texts may read alike, and then two locations have
one path.  And a Dockerfile that is added takes the place of what the tree has under its name, but not of what lies
below that.
-/

namespace ImageBuild

namespace FileTree

def isSocket : FileTree → Bool
  | socket => true
  | _ => false

theorem isSocket_iff {t : FileTree} : t.isSocket = true ↔ t = socket := by
  cases t <;> simp [isSocket]

/-! ## Locations with one path -/

variable {location other : List FileName}

theorem splitOn_pathOf (hne : location ≠ []) (hnames : ∀ name ∈ location, IsName name) :
    (pathOf location).toList.splitOn '/' = stepsOf location := by
  rw [toList_pathOf]
  refine List.splitOn_intercalate '/' ?_ (by simpa [stepsOf] using hne)
  intro step hstep
  obtain ⟨name, hname, rfl⟩ := List.mem_map.1 hstep
  exact (hnames name hname).slash_notMem_text

/-- What has a path below that of a location lies below a location with the same path. -/
theorem exists_append_of_pathOf_below {rest : String} (hne : location ≠ []) (hother : other ≠ [])
    (hnames : ∀ name ∈ location, IsName name) (hothers : ∀ name ∈ other, IsName name)
    (h : pathOf other = pathOf location ++ "/" ++ rest) :
    ∃ front back, other = front ++ back ∧ front ≠ [] ∧ back ≠ [] ∧ pathOf front = pathOf location ∧
      stepsOf front = stepsOf location := by
  have hsteps := splitOn_pathOf hother hothers
  have hlist : (pathOf other).toList = (pathOf location).toList ++ '/' :: rest.toList := by
    rw [h]
    simp
  rw [hlist, List.splitOn_append_cons_self, splitOn_pathOf hne hnames] at hsteps
  obtain ⟨front, back, rfl, hfront, hback⟩ := List.map_eq_append_iff.1 hsteps.symm
  have hpath : pathOf front = pathOf location := by
    rw [← String.toList_inj, toList_pathOf, toList_pathOf, stepsOf, hfront]
  refine ⟨front, back, rfl, ?_, ?_, hpath, hfront⟩
  · rintro rfl
    exact hne (List.map_eq_nil_iff.1 hfront.symm)
  · rintro rfl
    exact List.splitOn_ne_nil '/' rest.toList hback.symm

/-- The names of a location are texts. -/
def IsText (location : List FileName) : Prop := ∀ name ∈ location, ∃ s, name = Text.Utf8.ofString s

theorem IsText.map_encode (h : IsText location) :
    (stepsOf location).map Text.Utf8.encode = location := by
  rw [stepsOf, List.map_map]
  refine (List.map_congr_left fun name hname => ?_).trans (List.map_id location)
  obtain ⟨s, rfl⟩ := h name hname
  exact congrArg Text.Utf8.encode (Text.Utf8.decodeLossy_encode s.toList)

theorem IsText.eq_of_stepsOf (h : IsText location) (hother : IsText other)
    (hsteps : stepsOf location = stepsOf other) : location = other := by
  rw [← h.map_encode, hsteps, hother.map_encode]

theorem exists_at?_of_append {t node : FileTree} {front back : List FileName}
    (h : t.at? (front ++ back) = some node) (hback : back ≠ []) :
    ∃ entries, t.at? front = some (.dir entries) := by
  rw [FileSystem.at?_append] at h
  obtain ⟨inner, hinner, hrest⟩ := Option.bind_eq_some_iff.1 h
  obtain ⟨name, more, rfl⟩ := List.exists_cons_of_ne_nil hback
  cases inner with
  | dir entries => exact ⟨entries, hinner⟩
  | _ => cases hrest

end FileTree

namespace Archive

open FileTree (pathOf located IsName IsProper)

/-! ## What is packed -/

/-- An archive that describes a tree: each name stands for one entry, and nothing lies below an entry that is no
directory. -/
structure Unpacks (a : Archive) : Prop where
  nodup : (a.entries.map Entry.name).Nodup
  below : ∀ e ∈ a.entries, e.content ≠ .dir → ∀ f ∈ a.entries, ∀ rest, f.name ≠ e.name ++ "/" ++ rest

/-- A location of a tree that comes into the archive: its path is wanted, and no socket stands there or at a location
before it that is wanted too. -/
structure IsPacked (tree : FileTree) (rules : Ignore.Rules) (additions : Additions)
    (location : List FileName) : Prop where
  ne_nil : location ≠ []
  found : ∃ node, tree.at? location = some node
  wanted : isWanted rules additions (pathOf location) = true
  noSocket : ∀ other ≤ location, tree.at? other = some .socket →
    isWanted rules additions (pathOf other) = false

variable {root : Path} {rules : Ignore.Rules} {additions : Additions} {tree : FileTree}
  {location other : List FileName}

theorem mem_takeWhile_iff {α : Type} {r : α → α → Prop} (hasymm : ∀ x y, r x y → ¬r y x) {l : List α}
    (hl : l.Pairwise r) {p : α → Bool} {x : α} :
    x ∈ l.takeWhile p ↔ x ∈ l ∧ p x = true ∧ ∀ y ∈ l, r y x → p y = true := by
  induction l with
  | nil => simp
  | cons a l ih =>
      obtain ⟨ha, hl⟩ := List.pairwise_cons.1 hl
      rw [List.takeWhile_cons]
      split_ifs with hp
      · rw [List.mem_cons, ih hl, List.mem_cons]
        constructor
        · rintro (rfl | ⟨hx, hpx, hbefore⟩)
          · refine ⟨.inl rfl, hp, fun y hy hyx => ?_⟩
            rcases List.mem_cons.1 hy with rfl | hy
            · exact hp
            · exact absurd hyx (hasymm _ _ (ha y hy))
          · refine ⟨.inr hx, hpx, fun y hy hyx => ?_⟩
            rcases List.mem_cons.1 hy with rfl | hy
            · exact hp
            · exact hbefore y hy hyx
        · rintro ⟨rfl | hx, hpx, hbefore⟩
          · exact .inl rfl
          · exact .inr ⟨hx, hpx, fun y hy => hbefore y (List.mem_cons_of_mem a hy)⟩
      · simp only [List.not_mem_nil, List.mem_cons, false_iff]
        rintro ⟨rfl | hx, hpx, hbefore⟩
        · exact hp hpx
        · exact hp (hbefore a (.inl rfl) (ha x hx))

/-- What of the listing of a tree comes into an archive. -/
def packed (rules : Ignore.Rules) (additions : Additions) (tree : FileTree) :
    List (List FileName × FileTree) :=
  ((located tree).filter fun e => isWanted rules additions (pathOf e.1)).takeWhile fun e => !e.2.isSocket

theorem mem_packed_iff (ht : tree.IsProper) {node : FileTree} :
    (location, node) ∈ packed rules additions tree ↔
      IsPacked tree rules additions location ∧ tree.at? location = some node := by
  have hsorted := (FileTree.pairwise_located ht).filter fun e => isWanted rules additions (pathOf e.1)
  rw [packed, mem_takeWhile_iff (fun _ _ hxy => List.lt_asymm hxy) hsorted]
  simp only [List.mem_filter, FileTree.mem_located ht, Bool.not_eq_true']
  constructor
  · rintro ⟨⟨⟨hne, hat⟩, hwanted⟩, hnode, hbefore⟩
    refine ⟨⟨hne, ⟨node, hat⟩, hwanted, fun other hle hsocket => ?_⟩, hat⟩
    by_cases heq : other = location
    · rw [heq, hat] at hsocket
      rw [Option.some.inj hsocket] at hnode
      cases hnode
    have hother : other ≠ [] := by
      rintro rfl
      obtain ⟨name, rest, rfl⟩ := List.exists_cons_of_ne_nil hne
      rw [FileTree.at?, Option.some.injEq] at hsocket
      rw [hsocket, FileTree.at?_cons_of_not_dir rfl] at hat
      cases hat
    refine Bool.eq_false_iff.2 fun hw => ?_
    have hfree := hbefore (other, .socket) ⟨⟨hother, hsocket⟩, hw⟩ (Std.lt_of_le_of_ne hle heq)
    cases hfree
  · rintro ⟨hpacked, hat⟩
    refine ⟨⟨⟨hpacked.ne_nil, hat⟩, hpacked.wanted⟩, ?_, ?_⟩
    · refine Bool.eq_false_iff.2 fun hsocket => ?_
      rw [FileTree.isSocket_iff.1 hsocket] at hat
      have hfalse := hpacked.noSocket location (List.le_refl location) hat
      rw [hpacked.wanted] at hfalse
      cases hfalse
    · rintro ⟨other, n⟩ ⟨⟨hne, hother⟩, hwanted⟩ hlt
      refine Bool.eq_false_iff.2 fun hsocket => ?_
      rw [FileTree.isSocket_iff.1 hsocket] at hother
      have hfalse := hpacked.noSocket other (List.le_of_lt hlt) hother
      rw [hwanted] at hfalse
      cases hfalse

theorem nodup_packed (ht : tree.IsProper) : (packed rules additions tree).Nodup := by
  have hsorted := (FileTree.pairwise_located ht).filter fun e => isWanted rules additions (pathOf e.1)
  refine (hsorted.sublist (List.takeWhile_sublist _)).imp ?_
  rintro e f hlt rfl
  exact List.lt_irrefl _ hlt

/-- The entries of an archive stand for what was found in front of the first socket. -/
theorem forall₂_entry_ofFound (root : Path) (found : List Found) :
    List.Forall₂ (fun e f => f.entry root = .ok e) (ofFound root found).entries
      (found.takeWhile fun f => !f.node.isSocket) := by
  induction found with
  | nil => exact .nil
  | cons f rest ih =>
      obtain ⟨name, node⟩ := f
      cases node with
      | socket => exact .nil
      | _ => exact .cons rfl ih

theorem exists_of_mem_forall₂ {α β : Type} {r : α → β → Prop} {xs : List α} {ys : List β}
    (h : List.Forall₂ r xs ys) {x : α} (hx : x ∈ xs) : ∃ y ∈ ys, r x y := by
  induction h with
  | nil => cases hx
  | cons hr _ ih =>
      rcases List.mem_cons.1 hx with rfl | hx
      · exact ⟨_, List.mem_cons_self, hr⟩
      · obtain ⟨y, hy, hxy⟩ := ih hx
        exact ⟨y, List.mem_cons_of_mem _ hy, hxy⟩

theorem takeWhile_wanted_located (rules : Ignore.Rules) (additions : Additions) (tree : FileTree) :
    (wanted rules additions (located tree)).takeWhile (fun f => !f.node.isSocket) =
      (packed rules additions tree).map fun e => ⟨pathOf e.1, e.2⟩ := by
  rw [wanted, List.filter_map, List.takeWhile_map]
  rfl

/-- The entries of an archive that come from the tree. -/
def ofListing (root : Path) (rules : Ignore.Rules) (additions : Additions) (tree : FileTree) : Archive :=
  ofFound root (wanted rules additions (located tree))

theorem names_ofListing :
    (ofListing root rules additions tree).entries.map Entry.name =
      (packed rules additions tree).map fun e => pathOf e.1 := by
  have hentries := forall₂_entry_ofFound root (wanted rules additions (located tree))
  rw [takeWhile_wanted_located, List.forall₂_map_right_iff] at hentries
  rw [← List.forall₂_eq_eq_eq, List.forall₂_map_left_iff, List.forall₂_map_right_iff]
  exact hentries.imp fun e f h => Found.name_of_entry h

theorem exists_packed_of_mem {e : Entry} (he : e ∈ (ofListing root rules additions tree).entries) :
    ∃ location node, (location, node) ∈ packed rules additions tree ∧ e.name = pathOf location ∧
      (e.content ≠ .dir → node.isDir = false) := by
  have hentries := forall₂_entry_ofFound root (wanted rules additions (located tree))
  rw [takeWhile_wanted_located, List.forall₂_map_right_iff] at hentries
  obtain ⟨⟨location, node⟩, hmem, hentry⟩ := exists_of_mem_forall₂ hentries he
  refine ⟨location, node, hmem, Found.name_of_entry hentry, fun hcontent => ?_⟩
  cases node with
  | dir => cases hentry; exact absurd rfl hcontent
  | _ => rfl

theorem exists_mem_of_isPacked (root : Path) (ht : tree.IsProper) (h : IsPacked tree rules additions location) :
    ∃ e ∈ (ofListing root rules additions tree).entries, e.name = pathOf location := by
  obtain ⟨node, hat⟩ := h.found
  have hname : pathOf location ∈ (ofListing root rules additions tree).entries.map Entry.name := by
    rw [names_ofListing]
    exact List.mem_map.2 ⟨(location, node), (mem_packed_iff ht).2 ⟨h, hat⟩, rfl⟩
  exact List.mem_map.1 hname

/-! ## When it can be unpacked -/

theorem IsPacked.isName (ht : tree.IsProper) (h : IsPacked tree rules additions location) :
    ∀ name ∈ location, IsName name := by
  obtain ⟨node, hat⟩ := h.found
  exact ht.isName_of_at? hat

/-- A directory on the way to what is packed is packed if its path is wanted. -/
theorem IsPacked.of_append {front back : List FileName}
    (h : IsPacked tree rules additions (front ++ back)) (hfront : front ≠ []) (hback : back ≠ [])
    (hwanted : isWanted rules additions (pathOf front) = true) :
    IsPacked tree rules additions front ∧ ∃ entries, tree.at? front = some (.dir entries) := by
  obtain ⟨node, hat⟩ := h.found
  obtain ⟨entries, hdir⟩ := FileTree.exists_at?_of_append hat hback
  have hbefore : ∀ other ≤ front, tree.at? other = some .socket →
      isWanted rules additions (pathOf other) = false :=
    fun other hle => h.noSocket other (List.le_trans hle List.le_append_left)
  exact ⟨⟨hfront, ⟨_, hdir⟩, hwanted, hbefore⟩, entries, hdir⟩

/-- Different locations that are packed have different paths. -/
def Distinct (rules : Ignore.Rules) (additions : Additions) (tree : FileTree) : Prop :=
  ∀ a b, IsPacked tree rules additions a → IsPacked tree rules additions b → pathOf a = pathOf b → a = b

/-- For what comes from the tree it is enough that the paths differ: what lies below a file or a link by its name lies
below a directory of the same name as well. -/
theorem ofListing_unpacks_iff (root : Path) (ht : tree.IsProper) :
    (ofListing root rules additions tree).Unpacks ↔ Distinct rules additions tree := by
  have hnodup : ((ofListing root rules additions tree).entries.map Entry.name).Nodup ↔
      Distinct rules additions tree := by
    rw [names_ofListing, List.nodup_map_iff_inj_on (nodup_packed ht)]
    constructor
    · intro hinj a b ha hb hpath
      obtain ⟨na, hna⟩ := ha.found
      obtain ⟨nb, hnb⟩ := hb.found
      have heq := hinj (a, na) ((mem_packed_iff ht).2 ⟨ha, hna⟩) (b, nb) ((mem_packed_iff ht).2 ⟨hb, hnb⟩) hpath
      exact (Prod.mk.inj heq).1
    · rintro hdistinct ⟨a, na⟩ ha ⟨b, nb⟩ hb hpath
      obtain ⟨ha, hna⟩ := (mem_packed_iff ht).1 ha
      obtain ⟨hb, hnb⟩ := (mem_packed_iff ht).1 hb
      obtain rfl := hdistinct a b ha hb hpath
      exact Prod.ext rfl (Option.some.inj (hna.symm.trans hnb))
  refine ⟨fun h => hnodup.1 h.nodup, fun hdistinct => ⟨hnodup.2 hdistinct, ?_⟩⟩
  intro e he hcontent f hf rest hbelow
  obtain ⟨a, na, ha, hename, hleaf⟩ := exists_packed_of_mem he
  obtain ⟨b, nb, hb, hfname, -⟩ := exists_packed_of_mem hf
  obtain ⟨ha, hna⟩ := (mem_packed_iff ht).1 ha
  obtain ⟨hb, -⟩ := (mem_packed_iff ht).1 hb
  rw [hfname, hename] at hbelow
  obtain ⟨front, back, rfl, hfront, hback, hpath, -⟩ := FileTree.exists_append_of_pathOf_below ha.ne_nil
    hb.ne_nil (ha.isName ht) (hb.isName ht) hbelow
  obtain ⟨hpacked, entries, hdir⟩ := hb.of_append hfront hback (hpath ▸ ha.wanted)
  obtain rfl := hdistinct front a hpacked ha hpath
  rw [hna, Option.some.injEq] at hdir
  rw [hdir] at hleaf
  exact absurd (hleaf hcontent) nofun

theorem append_unpacks_iff {a : Archive} {name : String} {content : ByteArray} (hfault : a.fault = none)
    (hslash : '/' ∉ name.toList) (hfresh : name ∉ a.entries.map Entry.name) :
    (a.append [⟨name, .file content⟩]).Unpacks ↔
      a.Unpacks ∧ ∀ f ∈ a.entries, ∀ rest, f.name ≠ name ++ "/" ++ rest := by
  have hentries := entries_append hfault [⟨name, .file content⟩]
  constructor
  · rintro ⟨hnodup, hbelow⟩
    rw [hentries] at hnodup hbelow
    have hleft : ∀ e ∈ a.entries, e ∈ a.entries ++ [⟨name, .file content⟩] := fun e he =>
      List.mem_append_left _ he
    have hlast : (⟨name, .file content⟩ : Entry) ∈ a.entries ++ [⟨name, .file content⟩] := by simp
    refine ⟨⟨?_, fun e he hcontent f hf => hbelow e (hleft e he) hcontent f (hleft f hf)⟩, fun f hf =>
      hbelow _ hlast nofun f (hleft f hf)⟩
    rw [List.map_append] at hnodup
    exact hnodup.of_append_left
  · rintro ⟨⟨hnodup, hbelow⟩, hunder⟩
    have hflat (e : Entry) (rest : String) : name ≠ e.name ++ "/" ++ rest := by
      rintro rfl
      simp at hslash
    refine ⟨?_, ?_⟩
    · rw [hentries, List.map_append]
      refine hnodup.append (List.nodup_singleton name) ?_
      simpa using hfresh
    · rw [hentries]
      intro e he hcontent f hf rest
      rcases List.mem_append.1 hf with hf | hf
      · rcases List.mem_append.1 he with he | he
        · exact hbelow e he hcontent f hf rest
        · obtain rfl := List.mem_singleton.1 he
          exact hunder f hf rest
      · obtain rfl := List.mem_singleton.1 hf
        exact hflat e rest

/-- Nothing that is packed has a path below the name of an addition. -/
def Clear (rules : Ignore.Rules) (additions : Additions) (tree : FileTree) : Prop :=
  ∀ name ∈ additions.names, ∀ location, IsPacked tree rules additions location →
    ∀ rest, pathOf location ≠ name ++ "/" ++ rest

theorem append_nil (a : Archive) : a.append [] = a := by
  rw [append]
  split_ifs <;> simp

theorem unpacks_iff_of_addition (root : Path) (rules : Ignore.Rules) {name : String} (content : ByteArray)
    (ht : tree.IsProper) (hslash : '/' ∉ name.toList) :
    (ofTree tree root rules [(name, content)]).Unpacks ↔
      Distinct rules [(name, content)] tree ∧
        ((ofTree tree root rules [(name, content)]).fault = none → Clear rules [(name, content)] tree) := by
  have heq : ofTree tree root rules [(name, content)] =
      (ofListing root rules [(name, content)] tree).append [⟨name, .file content⟩] := by
    rw [ofTree_eq tree ht, ofListing]
    simp [Additions.entries]
  have hfresh : name ∉ (ofListing root rules [(name, content)] tree).entries.map Entry.name := by
    rw [names_ofListing]
    rintro hname
    obtain ⟨⟨location, node⟩, hmem, rfl⟩ := List.mem_map.1 hname
    have hwanted := ((mem_packed_iff ht).1 hmem).1.wanted
    simp [isWanted, Additions.names] at hwanted
  have hclear : (∀ f ∈ (ofListing root rules [(name, content)] tree).entries, ∀ rest,
      f.name ≠ name ++ "/" ++ rest) ↔ Clear rules [(name, content)] tree := by
    constructor
    · rintro hunder other hother location hpacked rest
      obtain ⟨f, hf, hfname⟩ := exists_mem_of_isPacked root ht hpacked
      obtain rfl : other = name := by simpa [Additions.names] using hother
      exact hfname ▸ hunder f hf rest
    · rintro hclear f hf rest
      obtain ⟨location, node, hmem, hfname, -⟩ := exists_packed_of_mem hf
      rw [hfname]
      exact hclear name (by simp [Additions.names]) location ((mem_packed_iff ht).1 hmem).1 rest
  rw [heq, fault_append, ← ofListing_unpacks_iff root ht]
  cases hfault : (ofListing root rules [(name, content)] tree).fault with
  | none => rw [append_unpacks_iff hfault hslash hfresh, hclear]; simp
  | some f =>
      rw [append, if_pos (by simp [hfault])]
      simp

theorem additions_eq {fs : FileSystem} {dockerfile : Path} {relative : Option String}
    (h : Context.additions fs dockerfile relative = .ok additions) :
    (∃ r, relative = some r ∧ additions = []) ∨
      ∃ content, relative = none ∧ additions = [(Dockerfile.defaultName, content)] := by
  cases relative with
  | some r => exact .inl ⟨r, rfl, (Except.ok.inj h).symm⟩
  | none =>
      rw [Context.additions] at h
      cases hread : fs.read dockerfile with
      | error e => simp [hread] at h
      | ok content =>
          simp only [hread] at h
          exact .inr ⟨content, rfl, (Except.ok.inj h).symm⟩

/-! ## Trees whose names are texts -/

theorem distinct_of_isText (ht : tree.IsProper)
    (htext : ∀ location node, tree.at? location = some node → FileTree.IsText location) :
    Distinct rules additions tree := by
  intro a b ha hb hpath
  obtain ⟨na, hna⟩ := ha.found
  obtain ⟨nb, hnb⟩ := hb.found
  refine (htext a na hna).eq_of_stepsOf (htext b nb hnb) ?_
  rw [← FileTree.splitOn_pathOf ha.ne_nil (ha.isName ht), hpath,
    FileTree.splitOn_pathOf hb.ne_nil (hb.isName ht)]

/-- The file name under which a Dockerfile is added. -/
def addedName : FileName := Text.Utf8.ofString Dockerfile.defaultName

theorem pathOf_addedName : pathOf [addedName] = Dockerfile.defaultName := by
  refine String.toList_inj.1 ?_
  rw [FileTree.toList_pathOf, FileTree.stepsOf, List.map_singleton, List.intercalate_singleton]
  exact Text.Utf8.decodeLossy_encode _

theorem clear_iff_of_isText {content : ByteArray} (ht : tree.IsProper)
    (htext : ∀ location node, tree.at? location = some node → FileTree.IsText location) :
    Clear rules [(Dockerfile.defaultName, content)] tree ↔
      ∀ rest, rest ≠ [] → ¬IsPacked tree rules [(Dockerfile.defaultName, content)] (addedName :: rest) := by
  have hname : ∀ name ∈ [addedName], IsName name := by decide
  have hadded : FileTree.IsText [addedName] := fun name hmem => ⟨_, List.mem_singleton.1 hmem⟩
  constructor
  · intro hclear rest hrest hpacked
    refine hclear Dockerfile.defaultName List.mem_cons_self _ hpacked (pathOf rest) ?_
    refine String.toList_inj.1 ?_
    have happend := FileTree.toList_pathOf_append (List.cons_ne_nil addedName []) hrest
    rw [pathOf_addedName] at happend
    simpa using happend
  · rintro hnone name hmem location hpacked rest hbelow
    obtain rfl : name = Dockerfile.defaultName := by simpa [Additions.names] using hmem
    rw [← pathOf_addedName] at hbelow
    obtain ⟨front, back, rfl, -, hback, -, hsteps⟩ := FileTree.exists_append_of_pathOf_below
      (List.cons_ne_nil addedName []) hpacked.ne_nil hname (hpacked.isName ht) hbelow
    obtain ⟨node, hat⟩ := hpacked.found
    have hfront : FileTree.IsText front := fun name hname =>
      htext _ node hat name (List.mem_append_left back hname)
    obtain rfl := hfront.eq_of_stepsOf hadded hsteps
    exact hnone back hback hpacked

/-- What is packed of a tree can be unpacked just if different locations have different paths, and if, with a
Dockerfile from outside, nothing comes from below the tree's own entry of that name.  Where all names are texts the
former is no condition. -/
theorem ofTree_unpacks_iff {fs : FileSystem} {dockerfile : Path} {relative : Option String}
    (hadded : Context.additions fs dockerfile relative = .ok additions) (ht : tree.IsProper) :
    ((ofTree tree root rules additions).Unpacks ↔
      Distinct rules additions tree ∧
        ((ofTree tree root rules additions).fault = none → Clear rules additions tree)) ∧
    ((∀ location node, tree.at? location = some node → FileTree.IsText location) →
      ((ofTree tree root rules additions).Unpacks ↔
        (relative = none → (ofTree tree root rules additions).fault = none →
          ∀ rest, rest ≠ [] → ¬IsPacked tree rules additions (addedName :: rest)))) := by
  rcases additions_eq hadded with ⟨r, rfl, rfl⟩ | ⟨content, rfl, rfl⟩
  · have hiff : (ofTree tree root rules []).Unpacks ↔ Distinct rules [] tree := by
      have heq : ofTree tree root rules [] = ofListing root rules [] tree := by
        have hnone : Additions.entries [] = [] := by simp [Additions.entries]
        rw [ofTree_eq tree ht, hnone, append_nil, ofListing]
      rw [heq, ofListing_unpacks_iff root ht]
    have hclear : Clear rules [] tree := by simp [Clear, Additions.names]
    exact ⟨by simp [hiff, hclear], fun htext => by simp [hiff, distinct_of_isText ht htext]⟩
  · have hslash : '/' ∉ Dockerfile.defaultName.toList := by decide
    have hiff := unpacks_iff_of_addition root rules content ht hslash
    refine ⟨hiff, fun htext => ?_⟩
    rw [hiff, clear_iff_of_isText ht htext]
    simp [distinct_of_isText ht htext]

/-! ## A tree with a directory of that name -/

/-- A directory `Dockerfile` with a file `x`. -/
def nestTree : FileTree :=
  .dir [([68, 111, 99, 107, 101, 114, 102, 105, 108, 101], .dir [([120], .file ⟨#[49]⟩)])]

/-- The tree above at `/app`, and a file `Outer` next to it. -/
def nestSystem : FileSystem where
  root := .dir [([97, 112, 112], nestTree), ([79, 117, 116, 101, 114], .file ⟨#[70]⟩)]

def nestSpec : BuildSpec where
  workDir := ⟨"/app"⟩
  tag := "img:1"

theorem isProper_nestTree : nestTree.IsProper :=
  .dir _ (by decide) (by decide) (by
    simpa using IsProper.dir _ (by decide) (by decide) (by simpa using .file _))

theorem nestSystem_find_app : nestSystem.find ⟨"/app"⟩ = .ok nestTree :=
  FileSystem.find_of_at? [[97, 112, 112]] (by decide) (by decide) (by decide) (by decide) nofun rfl

theorem nestSystem_find_ignore : nestSystem.find ⟨"/app/.dockerignore"⟩ = .error (.os .notFound) := by
  rw [FileSystem.find_of_pieces [[], [97, 112, 112],
      [46, 100, 111, 99, 107, 101, 114, 105, 103, 110, 111, 114, 101]]
    (by decide) (by decide) (by decide)]
  simp [FileSystem.resolveFrom, nestSystem, nestTree, FileTree.at?, FileTree.child?,
    FileTree.entryOf?, FileSystem.dot, FileSystem.nameLimit, Except.mapError, Except.bind]

theorem nestSystem_additions :
    Context.additions nestSystem ⟨"/Outer"⟩ none = .ok [("Dockerfile", ⟨#[70]⟩)] := by
  have hfind : nestSystem.find ⟨"/Outer"⟩ = .ok (.file ⟨#[70]⟩) :=
    FileSystem.find_of_at? [[79, 117, 116, 101, 114]] (by decide) (by decide) (by decide) (by decide)
      nofun rfl
  rw [Context.additions, FileSystem.read, hfind]
  rfl

theorem nestSystem_load (dockerfile : Option String) :
    Ignore.Rules.load nestSystem ⟨"/app"⟩ none dockerfile = .ok [] := by
  have hlocation : Ignore.location ⟨"/app"⟩ none = ⟨"/app/.dockerignore"⟩ := by decide
  have htext : nestSystem.readText ⟨"/app/.dockerignore"⟩ = .error (.os .notFound) := by
    rw [FileSystem.readText, FileSystem.read, nestSystem_find_ignore]
    rfl
  exact Ignore.Rules.load_of_notFound dockerfile rfl (hlocation ▸ htext)

/-- The Dockerfile from outside stands for a file, and what the tree has in its directory of that name stands below
it. -/
theorem package_nests_dockerfile :
    ∃ c, Context.package nestSystem ⟨"/Outer"⟩ nestSpec false = .ok c ∧ c.archive.fault = none ∧
      c.archive.entries = [⟨"Dockerfile/x", .file ⟨#[49]⟩⟩, ⟨"Dockerfile", .file ⟨#[70]⟩⟩] ∧
      ¬c.archive.Unpacks := by
  have houtside : (⟨"/Outer"⟩ : Path).relativeTo? ⟨"/app"⟩ = none := by decide
  have hpack : pack nestSystem ⟨"/app"⟩ [] [("Dockerfile", ⟨#[70]⟩)] =
      ⟨[⟨"Dockerfile/x", .file ⟨#[49]⟩⟩, ⟨"Dockerfile", .file ⟨#[70]⟩⟩], none⟩ := by
    rw [pack, nestSystem_find_app]
    cbv
  have hadditions : Context.additions nestSystem ⟨"/Outer"⟩ ((⟨"/Outer"⟩ : Path).relativeTo? nestSpec.workDir) =
      .ok [("Dockerfile", ⟨#[70]⟩)] := by
    rw [nestSpec, houtside, nestSystem_additions]
  refine ⟨_, Context.package_eq_ok_iff.2 ⟨_, [], hadditions, nestSystem_load _, rfl⟩, ?_⟩
  dsimp only [nestSpec]
  rw [hpack]
  refine ⟨rfl, rfl, fun h => ?_⟩
  exact h.below ⟨"Dockerfile", .file ⟨#[70]⟩⟩ (by simp) (by simp) ⟨"Dockerfile/x", .file ⟨#[49]⟩⟩
    List.mem_cons_self "x" (by decide)

theorem located_nestTree :
    located nestTree = [([addedName], .dir [([120], .file ⟨#[49]⟩)]), ([addedName, [120]], .file ⟨#[49]⟩)] := by
  cbv

theorem eq_of_at?_nestTree {node : FileTree} (hne : location ≠ []) (h : nestTree.at? location = some node) :
    location = [addedName] ∨ location = [addedName, [120]] := by
  have hmem := (FileTree.mem_located isProper_nestTree location node).2 ⟨hne, h⟩
  simp only [located_nestTree, List.mem_cons, Prod.mk.injEq, List.not_mem_nil, or_false] at hmem
  exact hmem.imp And.left And.left

theorem isText_of_nestTree (location : List FileName) (node : FileTree)
    (h : nestTree.at? location = some node) : FileTree.IsText location := by
  have hnames : ∀ name ∈ [addedName, [120]], ∃ s, name = Text.Utf8.ofString s := by
    simpa using ⟨⟨_, rfl⟩, ⟨"x", by decide⟩⟩
  by_cases hne : location = []
  · rw [hne]
    exact fun name hname => absurd hname List.not_mem_nil
  · rcases eq_of_at?_nestTree hne h with rfl | rfl
    · exact fun name hname => hnames name (List.mem_append_left [[120]] hname)
    · exact hnames

/-- The same tree can be unpacked if an ignore rule leaves out what lies in the directory. -/
theorem ofTree_unpacks_iff_ignored :
    Context.additions nestSystem ⟨"/Outer"⟩ none = .ok [("Dockerfile", ⟨#[70]⟩)] ∧ nestTree.IsProper ∧
      (ofTree nestTree ⟨"/app"⟩ ((Ignore.Rules.parse "Dockerfile/x").toOption.getD [])
        [("Dockerfile", ⟨#[70]⟩)]).Unpacks := by
  refine ⟨nestSystem_additions, isProper_nestTree, ((ofTree_unpacks_iff nestSystem_additions
    isProper_nestTree).2 isText_of_nestTree).2 fun _ _ rest hrest hpacked => ?_⟩
  obtain ⟨node, hat⟩ := hpacked.found
  have hwanted := hpacked.wanted
  rcases eq_of_at?_nestTree hpacked.ne_nil hat with heq | heq
  · exact hrest (List.cons.inj heq).2
  · have hignored : isWanted ((Ignore.Rules.parse "Dockerfile/x").toOption.getD [])
        [("Dockerfile", ⟨#[70]⟩)] (pathOf [addedName, [120]]) = false := by cbv
    rw [heq, hignored] at hwanted
    cases hwanted

end Archive
end ImageBuild
