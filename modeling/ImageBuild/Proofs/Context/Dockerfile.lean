import ImageBuild.Classic
import ImageBuild.Proofs.Archive.Pruning
import ImageBuild.Proofs.Context.Package
import ImageBuild.Proofs.Ignore.Keeping
import ImageBuild.Proofs.Solve.Context
import ImageBuild.Proofs.Text.Encode
/-!
# The Dockerfile in the archive

An archive that is packed to its end holds the Dockerfile under the name that the daemon is told.  One that
lies in the tree is found there by the walk and wanted by the rules; one that is added to the tree takes the
place of whatever the tree has under its name.
-/

namespace ImageBuild

namespace FileTree

/-- The location of a path below the root of a tree. -/
def locationOf (path : String) : List FileName := (path.toList.splitOn '/').map Text.Utf8.encode

theorem pathOf_locationOf (path : String) : pathOf (locationOf path) = path := by
  refine String.toList_inj.1 ?_
  have hsteps : stepsOf (locationOf path) = path.toList.splitOn '/' := by
    rw [stepsOf, locationOf, List.map_map]
    exact (List.map_congr_left fun piece _ => Text.Utf8.decodeLossy_encode piece).trans (List.map_id _)
  rw [toList_pathOf, hsteps, List.intercalate_splitOn]

theorem locationOf_ne_nil (path : String) : locationOf path ≠ [] := by
  simp [locationOf, List.splitOn_ne_nil]

end FileTree

namespace Archive

variable {root : Path} {rules : Ignore.Rules} {additions : Additions} {tree : FileTree}

theorem map_entry_ofFound {found : List Found} (h : (ofFound root found).fault = none) :
    found.map (Found.entry root) = (ofFound root found).entries.map .ok := by
  induction found with
  | nil => rfl
  | cons f rest ih =>
      rw [ofFound] at h ⊢
      cases hentry : f.entry root with
      | error fault => simp [hentry] at h
      | ok e =>
          simp only [hentry] at h ⊢
          rw [List.map_cons, List.map_cons, hentry, ih h]

theorem fault_of_map_entry {found : List Found} {packed : List Entry}
    (h : found.map (Found.entry root) = packed.map .ok) : (ofFound root found).fault = none := by
  induction found generalizing packed with
  | nil => rfl
  | cons f rest ih =>
      cases packed with
      | nil => cases h
      | cons e packed =>
          obtain ⟨hentry, hrest⟩ := List.cons.inj h
          rw [ofFound, hentry]
          exact ih hrest

theorem mem_ofFound_iff {found : List Found} {e : Entry} (h : (ofFound root found).fault = none) :
    e ∈ (ofFound root found).entries ↔ ∃ f ∈ found, f.entry root = .ok e := by
  rw [← List.mem_map, map_entry_ofFound h]
  simp

theorem Found.name_of_entry {f : Found} {e : Entry} (h : f.entry root = .ok e) : e.name = f.name := by
  obtain ⟨name, node⟩ := f
  cases node <;> cases h <;> rfl

theorem fault_append (a : Archive) (entries : List Entry) : (a.append entries).fault = a.fault := by
  rw [append]
  split_ifs <;> rfl

theorem entries_append {a : Archive} (h : a.fault = none) (entries : List Entry) :
    (a.append entries).entries = a.entries ++ entries := by
  rw [append, if_neg (by simp [h])]

theorem mem_ofTree {location : List FileName} {content : ByteArray} (ht : tree.IsProper)
    (hfault : (ofTree tree root rules additions).fault = none) (hne : location ≠ [])
    (hfile : tree.at? location = some (.file content))
    (hwanted : isWanted rules additions (FileTree.pathOf location) = true) :
    ⟨FileTree.pathOf location, .file content⟩ ∈ (ofTree tree root rules additions).entries := by
  rw [ofTree_eq tree ht, fault_append] at hfault
  rw [ofTree_eq tree ht, entries_append hfault]
  refine List.mem_append_left _ ?_
  have hfound : (⟨FileTree.pathOf location, .file content⟩ : Found) ∈
      wanted rules additions (FileTree.located tree) := by
    refine List.mem_filter.2 ⟨List.mem_map.2 ⟨(location, .file content), ?_, rfl⟩, hwanted⟩
    exact (FileTree.mem_located ht location (.file content)).2 ⟨hne, hfile⟩
  exact (mem_ofFound_iff hfault).2 ⟨_, hfound, rfl⟩

/-- An addition is the only entry of its name, whatever is in the tree. -/
theorem filter_ofTree {name : String} {content : ByteArray}
    (hfault : (ofTree tree root rules [(name, content)]).fault = none) :
    (ofTree tree root rules [(name, content)]).entries.filter (fun e => e.name == name) =
      [⟨name, .file content⟩] := by
  rw [ofTree, fault_append] at hfault
  have hnone : (ofFound root ((walk (isEntered rules [(name, content)]) "" tree).filter fun f =>
      isWanted rules [(name, content)] f.name)).entries.filter (fun e => e.name == name) = [] := by
    rw [List.filter_eq_nil_iff]
    intro e he
    obtain ⟨f, hf, hentry⟩ := (mem_ofFound_iff hfault).1 he
    -- What the walk finds under the name of an addition is not wanted, whatever the rules say.
    have hwanted := (List.mem_filter.1 hf).2
    rw [isWanted, Bool.and_eq_true] at hwanted
    rw [Found.name_of_entry hentry]
    simpa [Additions.names] using hwanted.1
  rw [ofTree, entries_append hfault, List.filter_append, hnone]
  simp [Additions.entries]

theorem pack_eq_ofTree {fs : FileSystem} (hfault : (pack fs root rules additions).fault = none) :
    ∃ tree, fs.find root = .ok tree ∧
      pack fs root rules additions = ofTree tree root rules additions := by
  rw [pack] at hfault ⊢
  cases hfind : fs.find root with
  | error e => simp [hfind] at hfault
  | ok tree => exact ⟨tree, rfl, rfl⟩

end Archive

namespace Context

variable {fs : FileSystem} {dockerfile : Path} {spec : BuildSpec} {remote : Bool} {c : Context}

/-- Every build from the context, classic or as a solve, is told this name for the Dockerfile. -/
def IsHandedAs (c : Context) (name : String) : Prop :=
  (∀ settings spec credentials,
    (Engine.BuildQuery.ofClassic (Classic.request settings spec c credentials)).dockerfile = name) ∧
  ∀ r, (Engine.BuildQuery.ofSolve r c).dockerfile = name

theorem isHandedAs_of_package (h : package fs dockerfile spec remote = .ok c) :
    c.IsHandedAs ((dockerfile.relativeTo? spec.workDir).getD Dockerfile.defaultName) := by
  rw [← relativeDockerfile_of_package h]
  exact ⟨fun _ _ _ => rfl, fun _ => rfl⟩

theorem mem_of_relative {r : String} {tree : FileTree} {content : ByteArray}
    (h : package fs dockerfile spec remote = .ok c) (hfault : c.archive.fault = none)
    (hr : dockerfile.relativeTo? spec.workDir = some r) (hplain : Ignore.IsPlain r)
    (hfind : fs.find spec.workDir = .ok tree) (ht : tree.IsProper)
    (hfile : tree.at? (FileTree.locationOf r) = some (.file content)) :
    ⟨r, .file content⟩ ∈ c.archive.entries := by
  obtain ⟨added, rules, hadded, hload, rfl⟩ := package_eq_ok_iff.1 h
  rw [hr] at hadded hload
  -- Nothing is added for a Dockerfile in the tree, so it is up to the rules.
  cases hadded
  have hpack : Archive.pack fs spec.workDir rules [] =
      Archive.ofTree tree spec.workDir rules [] := by rw [Archive.pack, hfind]
  simp only [hpack] at hfault ⊢
  have hwanted : Archive.isWanted rules [] (FileTree.pathOf (FileTree.locationOf r)) = true := by
    rw [FileTree.pathOf_locationOf, Archive.isWanted, hplain.isIgnored_load hload]
    rfl
  have hmem := Archive.mem_ofTree ht hfault (FileTree.locationOf_ne_nil r) hfile hwanted
  rwa [FileTree.pathOf_locationOf] at hmem

theorem filter_of_not_relative (h : package fs dockerfile spec remote = .ok c)
    (hfault : c.archive.fault = none) (hr : dockerfile.relativeTo? spec.workDir = none) :
    ∃ content, fs.read dockerfile = .ok content ∧
      c.archive.entries.filter (fun e => e.name == Dockerfile.defaultName) =
        [⟨Dockerfile.defaultName, .file content⟩] := by
  obtain ⟨added, rules, hadded, -, rfl⟩ := package_eq_ok_iff.1 h
  rw [hr, additions] at hadded
  cases hread : fs.read dockerfile with
  | error e => simp [hread] at hadded
  | ok content =>
      simp only [hread] at hadded
      cases hadded
      obtain ⟨tree, -, hpack⟩ := Archive.pack_eq_ofTree hfault
      simp only [hpack] at hfault ⊢
      exact ⟨content, rfl, Archive.filter_ofTree hfault⟩

/-- The archive of a build has the Dockerfile under the name that the daemon is told, whatever the ignore
file excludes and whatever the tree holds. -/
theorem package_holds_dockerfile (h : package fs dockerfile spec remote = .ok c)
    (hfault : c.archive.fault = none) :
    (∀ r tree content, dockerfile.relativeTo? spec.workDir = some r → Ignore.IsPlain r →
      fs.find spec.workDir = .ok tree → tree.IsProper →
      tree.at? (FileTree.locationOf r) = some (.file content) →
        c.IsHandedAs r ∧ ⟨r, .file content⟩ ∈ c.archive.entries) ∧
    (dockerfile.relativeTo? spec.workDir = none →
      c.IsHandedAs "Dockerfile" ∧ ∃ content, fs.read dockerfile = .ok content ∧
        c.archive.entries.filter (fun e => e.name == "Dockerfile") =
          [⟨"Dockerfile", .file content⟩]) := by
  have hname := isHandedAs_of_package h
  constructor
  · intro r tree content hr hplain hfind ht hfile
    rw [hr] at hname
    exact ⟨hname, mem_of_relative h hfault hr hplain hfind ht hfile⟩
  · intro hr
    rw [hr] at hname
    exact ⟨hname, filter_of_not_relative h hfault hr⟩

/-! ## A tree that ignores all it holds -/

/-- An ignore file with the rule `*`, the entry `Dockerfile`, and the entry `docker/Dockerfile`. -/
def bareTree : FileTree :=
  .dir [([46, 100, 111, 99, 107, 101, 114, 105, 103, 110, 111, 114, 101], .file ⟨#[42]⟩),
    ([68, 111, 99, 107, 101, 114, 102, 105, 108, 101], .file ⟨#[84]⟩),
    ([100, 111, 99, 107, 101, 114],
      .dir [([68, 111, 99, 107, 101, 114, 102, 105, 108, 101], .file ⟨#[68]⟩)])]

/-- The tree above at `/app`, with a Dockerfile next to it. -/
def bareSystem : FileSystem where
  root := .dir [([97, 112, 112], bareTree),
    ([68, 111, 99, 107, 101, 114, 102, 105, 108, 101], .file ⟨#[88]⟩)]

def bareSpec : BuildSpec where
  workDir := ⟨"/app"⟩
  tag := "img:1"

theorem isProper_bareTree : bareTree.IsProper :=
  .dir _ (by decide) (by decide) (by
    simpa using ⟨.file _, .file _, .dir _ (by decide) (by decide) (by simpa using .file _)⟩)

theorem isPlain_nested : Ignore.IsPlain "docker/Dockerfile" := by decide

theorem bareSystem_find_app : bareSystem.find ⟨"/app"⟩ = .ok bareTree :=
  FileSystem.find_of_at? [[97, 112, 112]] (by decide) (by decide) (by decide) (by decide) nofun rfl

theorem bareSystem_find_ignore :
    bareSystem.find ⟨"/app/.dockerignore"⟩ = .ok (.file ⟨#[42]⟩) :=
  FileSystem.find_of_at?
    [[97, 112, 112], [46, 100, 111, 99, 107, 101, 114, 105, 103, 110, 111, 114, 101]]
    (by decide) (by decide) (by decide) (by decide) nofun rfl

theorem bareSystem_read_outside : bareSystem.read ⟨"/Dockerfile"⟩ = .ok ⟨#[88]⟩ := by
  have hfind : bareSystem.find ⟨"/Dockerfile"⟩ = .ok (.file ⟨#[88]⟩) :=
    FileSystem.find_of_at? [[68, 111, 99, 107, 101, 114, 102, 105, 108, 101]] (by decide)
      (by decide) (by decide) (by decide) nofun rfl
  rw [FileSystem.read, hfind]
  rfl

theorem bareSystem_package (p : Path) (added : Archive.Additions)
    (hadded : additions bareSystem p (p.relativeTo? ⟨"/app"⟩) = .ok added)
    (hfault : (Ignore.Rules.ofContent "*" (p.relativeTo? ⟨"/app"⟩)).toOption.map
      (fun rules => (Archive.ofTree bareTree ⟨"/app"⟩ rules added).fault.isNone) = some true) :
    ∃ c, package bareSystem p bareSpec false = .ok c ∧ c.archive.fault = none := by
  have hlocation : Ignore.location ⟨"/app"⟩ none = ⟨"/app/.dockerignore"⟩ := by decide
  have htext : bareSystem.readText ⟨"/app/.dockerignore"⟩ = .ok "*" :=
    FileSystem.readText_of_find bareSystem_find_ignore (by decide)
  have hload := Ignore.Rules.load_of_text (p.relativeTo? ⟨"/app"⟩) (hlocation ▸ htext)
  cases hrules : Ignore.Rules.ofContent "*" (p.relativeTo? ⟨"/app"⟩) with
  | error e => simp [hrules, Except.toOption] at hfault
  | ok rules =>
      rw [hrules] at hload hfault
      refine ⟨_, package_eq_ok_iff.2 ⟨added, rules, hadded, hload, rfl⟩, ?_⟩
      have hpack : Archive.pack bareSystem ⟨"/app"⟩ rules added =
          Archive.ofTree bareTree ⟨"/app"⟩ rules added := by
        rw [Archive.pack, bareSystem_find_app]
      simpa [Except.toOption, bareSpec, hpack] using hfault

/-- A Dockerfile in a directory that is ignored, and one next to a tree that has another of its name. -/
theorem package_holds_dockerfile_bareSystem :
    (∃ c, package bareSystem ⟨"/app/docker/Dockerfile"⟩ bareSpec false = .ok c ∧
      c.archive.fault = none ∧ c.IsHandedAs "docker/Dockerfile" ∧
      ⟨"docker/Dockerfile", .file ⟨#[68]⟩⟩ ∈ c.archive.entries) ∧
    ∃ c, package bareSystem ⟨"/Dockerfile"⟩ bareSpec false = .ok c ∧ c.archive.fault = none ∧
      c.IsHandedAs "Dockerfile" ∧ ∃ content, bareSystem.read ⟨"/Dockerfile"⟩ = .ok content ∧
        c.archive.entries.filter (fun e => e.name == "Dockerfile") =
          [⟨"Dockerfile", .file content⟩] := by
  have hinside : (⟨"/app/docker/Dockerfile"⟩ : Path).relativeTo? ⟨"/app"⟩ =
      some "docker/Dockerfile" := by decide
  have houtside : (⟨"/Dockerfile"⟩ : Path).relativeTo? ⟨"/app"⟩ = none := by decide
  constructor
  · obtain ⟨c, h, hfault⟩ := bareSystem_package ⟨"/app/docker/Dockerfile"⟩ []
      (by rw [hinside]; rfl) (by rw [hinside]; cbv)
    exact ⟨c, h, hfault, (package_holds_dockerfile h hfault).1 _ bareTree _ hinside isPlain_nested
      bareSystem_find_app isProper_bareTree (by cbv)⟩
  · obtain ⟨c, h, hfault⟩ := bareSystem_package ⟨"/Dockerfile"⟩ [("Dockerfile", ⟨#[88]⟩)]
      (by rw [houtside, additions, bareSystem_read_outside]; rfl) (by rw [houtside]; cbv)
    exact ⟨c, h, hfault, (package_holds_dockerfile h hfault).2 houtside⟩

end Context
end ImageBuild
