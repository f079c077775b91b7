import ImageBuild.Engine.Client
import ImageBuild.Proofs.FileTree.Resolution
import ImageBuild.Proofs.Ignore.Keeping
import Mathlib
/-!
# The context of a solve

A solve request names directories and a file name, from which an engine packs the context anew.  All
that packing reads of a spec makes this trip but for one thing: the request has no place for the
ignore file that the spec names, so a solve goes by the ignore file of the tree.  It sends what a
classic build of the same spec sends just if the two ignore files come to the same.
-/

namespace ImageBuild

namespace Context

/-- What a daemon is sent of a context, and under which name it finds the Dockerfile there. -/
def sent (c : Context) : Archive × String × Bool := (c.archive, c.dockerfileName, c.compressed)

/-- What is packed of a tree if its rules are read from the given ignore file, or why they cannot be
read. -/
def packedBy (fs : FileSystem) (dockerfile : Path) (workDir : Path) (ignoreFile : Option Path) :
    Except String Archive :=
  let relative := dockerfile.relativeTo? workDir
  match additions fs dockerfile relative, Ignore.Rules.load fs workDir ignoreFile relative with
  | .ok additions, .ok rules => .ok (Archive.pack fs workDir rules additions)
  | _, .error e => .error e.message
  | .error e, _ => .error e.message

variable {fs : FileSystem} {dockerfile : Path} {spec : BuildSpec} {remote : Bool}

theorem read_ok_of_isFile (h : fs.isFile dockerfile) : ∃ content, fs.read dockerfile = .ok content := by
  rw [FileSystem.isFile] at h
  cases hfind : fs.find dockerfile with
  | error e => simp [hfind] at h
  | ok t =>
      obtain content | _ | _ | _ := t <;> simp [hfind, FileTree.isFile] at h
      exact ⟨content, by rw [FileSystem.read, hfind]; rfl⟩

theorem additions_ok_of_isFile (h : fs.isFile dockerfile) (relative : Option String) :
    ∃ adds, additions fs dockerfile relative = .ok adds := by
  cases relative with
  | some path => exact ⟨[], rfl⟩
  | none =>
      obtain ⟨content, hread⟩ := read_ok_of_isFile h
      exact ⟨[(Dockerfile.defaultName, content)], by rw [additions, hread]⟩

theorem additions_eq_of_find {p : Path} (hfind : fs.find p = fs.find dockerfile)
    (h : fs.isFile dockerfile) (relative : Option String) :
    additions fs p relative = additions fs dockerfile relative := by
  cases relative with
  | some path => rfl
  | none =>
      obtain ⟨content, hread⟩ := read_ok_of_isFile h
      have hsame : fs.read p = .ok content := by rw [← hread, FileSystem.read, FileSystem.read, hfind]
      rw [additions, additions, hread, hsame]

theorem map_sent_package (h : fs.isFile dockerfile) :
    (package fs dockerfile spec remote).map sent =
      match packedBy fs dockerfile spec.workDir spec.ignoreFile with
      | .ok archive =>
          .ok (archive, (dockerfile.relativeTo? spec.workDir).getD Dockerfile.defaultName, remote)
      | .error message => .error (.contextArchive ("error reading .dockerignore: " ++ message)) := by
  obtain ⟨adds, hadds⟩ := additions_ok_of_isFile h (dockerfile.relativeTo? spec.workDir)
  rw [package, packedBy]
  simp only [hadds, bind, Except.bind]
  cases Ignore.Rules.load fs spec.workDir spec.ignoreFile (dockerfile.relativeTo? spec.workDir) with
  | error e => rfl
  | ok rules => rfl

end Context

namespace Engine

variable {fs : FileSystem} {dockerfile : Path} {spec : BuildSpec}

theorem lookup_filename (args : List (String × String)) (platform : String) :
    lookup "filename" (Solve.request spec dockerfile args platform).frontendAttrs =
      some (dockerfile.fileName?.getD "Dockerfile") := by
  simp [Solve.request, lookup]

theorem lookup_context (args : List (String × String)) (platform : String) :
    lookup "context" (Solve.request spec dockerfile args platform).localDirs =
      some spec.workDir.text := by
  simp [Solve.request, lookup]

theorem lookup_dockerfile (args : List (String × String)) (platform : String) :
    lookup "dockerfile" (Solve.request spec dockerfile args platform).localDirs =
      some (Solve.dockerfileDir spec.workDir dockerfile).text := by
  simp [Solve.request, lookup]

/-- The context of a solve is the one of a classic build of the spec without its ignore file. -/
theorem solveContext_request (hsecrets : spec.secrets = []) (hfile : fs.isFile dockerfile)
    (remote : Bool) (args : List (String × String)) (platform : String)
    (credentials : Registry.CredentialTable) :
    solveContext fs remote { Solve.request spec dockerfile args platform with credentials } =
      Context.package fs dockerfile { spec with ignoreFile := none } remote := by
  obtain ⟨front, name, hpieces, hname⟩ := FileSystem.exists_isNamePiece_of_isFile hfile
  have hrelative := Path.relativeTo?_join_parent hpieces hname spec.workDir spec.workDir "Dockerfile"
  have hfind := FileSystem.find_join_parent hfile spec.workDir "Dockerfile"
  have hsecrets' : (Solve.request spec dockerfile args platform).secrets.isEmpty := by
    simp [Solve.request, hsecrets]
  rw [solveContext]
  simp only [hsecrets', lookup_filename, lookup_context, lookup_dockerfile, Option.getD_some]
  rw [Context.package, Context.package]
  simp only [Solve.dockerfileDir, Bool.not_true, Bool.false_eq_true, if_false]
  rw [hrelative, Context.additions_eq_of_find hfind hfile]

/-! ## A tree with an ignore file of another name -/

/-- The entries `Dockerfile`, `key` and `rules`, of which the last ignores the second. -/
def keyTree : FileTree :=
  .dir [([68, 111, 99, 107, 101, 114, 102, 105, 108, 101], .file ⟨#[70]⟩),
    ([107, 101, 121], .file ⟨#[49]⟩), ([114, 117, 108, 101, 115], .file ⟨#[107, 101, 121]⟩)]

def keySystem : FileSystem where
  root := .dir [([97, 112, 112], keyTree)]

def keySpec : BuildSpec where
  workDir := ⟨"/app"⟩
  tag := "img:1"
  ignoreFile := some ⟨"rules"⟩

theorem keySystem_find_dockerfile : keySystem.find ⟨"/app/Dockerfile"⟩ = .ok (.file ⟨#[70]⟩) :=
  FileSystem.find_of_at? [[97, 112, 112], [68, 111, 99, 107, 101, 114, 102, 105, 108, 101]]
    (by decide) (by decide) (by decide) (by decide) nofun rfl

theorem keySystem_find_rules : keySystem.find ⟨"/app/rules"⟩ = .ok (.file ⟨#[107, 101, 121]⟩) :=
  FileSystem.find_of_at? [[97, 112, 112], [114, 117, 108, 101, 115]]
    (by decide) (by decide) (by decide) (by decide) nofun rfl

theorem keySystem_find_default : keySystem.find ⟨"/app/.dockerignore"⟩ = .error (.os .notFound) := by
  rw [FileSystem.find_of_pieces [[], [97, 112, 112],
      [46, 100, 111, 99, 107, 101, 114, 105, 103, 110, 111, 114, 101]]
    (by decide) (by decide) (by decide)]
  simp [FileSystem.resolveFrom, keySystem, keyTree, FileTree.at?, FileTree.child?,
    FileTree.entryOf?, FileSystem.dot, FileSystem.nameLimit, Except.mapError, Except.bind]

theorem keySystem_find_app : keySystem.find ⟨"/app"⟩ = .ok keyTree :=
  FileSystem.find_of_at? [[97, 112, 112]] (by decide) (by decide) (by decide) (by decide) nofun rfl

theorem packedBy_rules :
    (Context.packedBy keySystem ⟨"/app/Dockerfile"⟩ ⟨"/app"⟩ (some ⟨"rules"⟩)).toOption.map
        (fun a => a.entries.map Archive.Entry.name) = some ["Dockerfile", "rules"] := by
  have hrelative : (⟨"/app/Dockerfile"⟩ : Path).relativeTo? ⟨"/app"⟩ = some "Dockerfile" := by
    decide
  have hlocation : Ignore.location ⟨"/app"⟩ (some ⟨"rules"⟩) = ⟨"/app/rules"⟩ := by decide
  have htext : keySystem.readText ⟨"/app/rules"⟩ = .ok "key" :=
    FileSystem.readText_of_find keySystem_find_rules (by decide)
  have hnames : (Ignore.Rules.ofContent "key" (some "Dockerfile")).toOption.map
      (fun rules => (Archive.ofTree keyTree ⟨"/app"⟩ rules []).entries.map Archive.Entry.name) =
        some ["Dockerfile", "rules"] := by cbv
  have hload := Ignore.Rules.load_of_text (some "Dockerfile") (hlocation ▸ htext)
  rw [Context.packedBy]
  simp only [hrelative, Context.additions, hload, Archive.pack, keySystem_find_app]
  generalize Ignore.Rules.ofContent "key" (some "Dockerfile") = rules at hnames ⊢
  cases rules with
  | error e => cases hnames
  | ok rules => exact hnames

theorem keySystem_load_default (dockerfile : Option String) :
    Ignore.Rules.load keySystem ⟨"/app"⟩ none dockerfile = .ok [] := by
  have hlocation : Ignore.location ⟨"/app"⟩ none = ⟨"/app/.dockerignore"⟩ := by decide
  have htext : keySystem.readText ⟨"/app/.dockerignore"⟩ = .error (.os .notFound) := by
    rw [FileSystem.readText, FileSystem.read, keySystem_find_default]
    rfl
  exact Ignore.Rules.load_of_notFound dockerfile rfl (hlocation ▸ htext)

theorem packedBy_default :
    (Context.packedBy keySystem ⟨"/app/Dockerfile"⟩ ⟨"/app"⟩ none).toOption.map
        (fun a => a.entries.map Archive.Entry.name) = some ["Dockerfile", "key", "rules"] := by
  have hrelative : (⟨"/app/Dockerfile"⟩ : Path).relativeTo? ⟨"/app"⟩ = some "Dockerfile" := by
    decide
  have hnames : (Archive.ofTree keyTree ⟨"/app"⟩ [] []).entries.map Archive.Entry.name =
      ["Dockerfile", "key", "rules"] := by cbv
  rw [Context.packedBy]
  simp only [hrelative, Context.additions, keySystem_load_default, Archive.pack, keySystem_find_app]
  exact congrArg some hnames

/-- What a solve sends of the tree above has no fault. -/
theorem keySystem_package : ∃ sent,
    Context.package keySystem ⟨"/app/Dockerfile"⟩ { keySpec with ignoreFile := none } false =
      .ok sent ∧ sent.archive.fault = none := by
  have hrelative : (⟨"/app/Dockerfile"⟩ : Path).relativeTo? keySpec.workDir = some "Dockerfile" := by
    decide
  have hfault : (Archive.ofTree keyTree ⟨"/app"⟩ [] []).fault = none := by cbv
  have hload : Ignore.Rules.load keySystem keySpec.workDir none (some "Dockerfile") = .ok [] :=
    keySystem_load_default (some "Dockerfile")
  have hpack : Archive.pack keySystem keySpec.workDir [] [] =
      Archive.ofTree keyTree ⟨"/app"⟩ [] [] := by
    rw [keySpec, Archive.pack, keySystem_find_app]
  rw [Context.package, hrelative, hload]
  exact ⟨_, rfl, hpack ▸ hfault⟩

theorem keySystem_isFile : keySystem.isFile ⟨"/app/Dockerfile"⟩ := by
  rw [FileSystem.isFile, keySystem_find_dockerfile]
  rfl

/-! ## What a solve sends -/

/-- A solve goes by the ignore file of the tree.  So it sends what a classic build of the spec sends
just if the ignore file of the spec comes to the same. -/
theorem solve_sends_same_iff (hsecrets : spec.secrets = []) (hfile : fs.isFile dockerfile)
    (remote : Bool) (args : List (String × String)) (platform : String)
    (credentials : Registry.CredentialTable) :
    solveContext fs remote { Solve.request spec dockerfile args platform with credentials } =
        Context.package fs dockerfile { spec with ignoreFile := none } remote ∧
      ((solveContext fs remote
            { Solve.request spec dockerfile args platform with credentials }).map Context.sent =
          (Context.package fs dockerfile spec remote).map Context.sent ↔
        Context.packedBy fs dockerfile spec.workDir none =
          Context.packedBy fs dockerfile spec.workDir spec.ignoreFile) := by
  have hsolve := solveContext_request hsecrets hfile remote args platform credentials
  refine ⟨hsolve, ?_⟩
  rw [hsolve, Context.map_sent_package hfile, Context.map_sent_package hfile]
  constructor
  · intro h
    cases htree : Context.packedBy fs dockerfile spec.workDir none <;>
      cases hspec : Context.packedBy fs dockerfile spec.workDir spec.ignoreFile <;>
      simp_all
  · intro h
    rw [h]

/-- The tree above, for the spec that names its ignore file. -/
theorem solve_sends_same_iff_keySystem :
    keySpec.secrets = [] ∧ keySystem.isFile ⟨"/app/Dockerfile"⟩ ∧
      solveContext keySystem false
          { Solve.request keySpec ⟨"/app/Dockerfile"⟩ [] "linux/amd64" with credentials := [] } =
        Context.package keySystem ⟨"/app/Dockerfile"⟩ { keySpec with ignoreFile := none } false ∧
      ((solveContext keySystem false
            { Solve.request keySpec ⟨"/app/Dockerfile"⟩ [] "linux/amd64" with
              credentials := [] }).map Context.sent =
          (Context.package keySystem ⟨"/app/Dockerfile"⟩ keySpec false).map Context.sent ↔
        Context.packedBy keySystem ⟨"/app/Dockerfile"⟩ ⟨"/app"⟩ none =
          Context.packedBy keySystem ⟨"/app/Dockerfile"⟩ ⟨"/app"⟩ (some ⟨"rules"⟩)) :=
  ⟨rfl, keySystem_isFile, solve_sends_same_iff rfl keySystem_isFile false [] "linux/amd64" []⟩

/-- A solve sends the key that a classic build of the same spec keeps back. -/
theorem solve_sends_key :
    keySpec.secrets = [] ∧ keySystem.isFile ⟨"/app/Dockerfile"⟩ ∧
      (solveContext keySystem false
          { Solve.request keySpec ⟨"/app/Dockerfile"⟩ [] "linux/amd64" with
            credentials := [] }).map Context.sent ≠
        (Context.package keySystem ⟨"/app/Dockerfile"⟩ keySpec false).map Context.sent := by
  refine ⟨rfl, keySystem_isFile, ?_⟩
  rw [solveContext_request rfl keySystem_isFile, Context.map_sent_package keySystem_isFile,
    Context.map_sent_package keySystem_isFile]
  have htree := packedBy_default
  have hspec := packedBy_rules
  simp only [keySpec]
  cases hdefault : Context.packedBy keySystem ⟨"/app/Dockerfile"⟩ ⟨"/app"⟩ none with
  | error message => simp [hdefault, Except.toOption] at htree
  | ok packed =>
      cases hrules : Context.packedBy keySystem ⟨"/app/Dockerfile"⟩ ⟨"/app"⟩ (some ⟨"rules"⟩) with
      | error message => simp
      | ok other =>
          intro hsame
          have hequal : packed = other := by simpa using hsame
          rw [hdefault, hequal] at htree
          rw [hrules, htree] at hspec
          exact absurd hspec (by decide)

end Engine
end ImageBuild
