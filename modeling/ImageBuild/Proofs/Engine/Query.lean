import ImageBuild.Classic
import ImageBuild.Proofs.Context.Package
import ImageBuild.Proofs.Solve.Context
/-!
# The query of a build, both ways

A solve request keeps options, labels and build arguments in one table, told apart by marks in front of
the names.  No mark begins with another and no option begins with a mark, so an engine that takes the table
apart finds every entry where it was put, whatever the names are that a spec uses, and asks for the same
build as the classic request.
-/

namespace ImageBuild

namespace Text

theorem afterHead_append (head s : String) : afterHead head (head ++ s) = some s := by
  have hprefix : head.toList <+: head.toList ++ s.toList := List.prefix_append _ _
  simp [afterHead, afterHead?, hprefix]

theorem afterHead_eq_none {head s : String} (h : ¬head.toList <+: s.toList) : afterHead head s = none := by
  simp [afterHead, afterHead?, h]

theorem not_prefix_append {head other : String} (hhead : ¬head.toList <+: other.toList)
    (hother : ¬other.toList <+: head.toList) (s : String) : ¬head.toList <+: (other ++ s).toList := by
  intro h
  rw [String.toList_append] at h
  exact (List.prefix_or_prefix_of_prefix h (List.prefix_append _ _)).elim hhead hother

end Text

theorem Context.exists_package {fs : FileSystem} {dockerfile : Path} {spec : BuildSpec} {remote : Bool}
    {archive : Archive} (hfile : fs.isFile dockerfile)
    (h : packedBy fs dockerfile spec.workDir spec.ignoreFile = .ok archive) :
    ∃ c, package fs dockerfile spec remote = .ok c := by
  have hmap : (package fs dockerfile spec remote).map sent = _ := map_sent_package hfile
  rw [h] at hmap
  cases hpackage : package fs dockerfile spec remote with
  | error e => simp [hpackage, Except.map] at hmap
  | ok c => exact ⟨c, rfl⟩

namespace Engine

variable {mark name : String} {entries : List (String × String)}

theorem lookup_append (name : String) (front back : List (String × String)) :
    lookup name (front ++ back) = (lookup name front).or (lookup name back) := by
  rw [lookup, List.find?_append, lookup, lookup]
  cases front.find? fun e => e.1 == name <;> rfl

theorem lookup_eq_none (h : name ∉ entries.map Prod.fst) : lookup name entries = none := by
  rw [lookup, Option.map_eq_none_iff, List.find?_eq_none]
  intro e he
  simpa using fun heq : e.1 = name => h (heq ▸ List.mem_map_of_mem he)

theorem unmarked_append (mark : String) (front back : List (String × String)) :
    unmarked mark (front ++ back) = unmarked mark front ++ unmarked mark back :=
  List.filterMap_append

theorem unmarked_marked (mark : String) (entries : List (String × String)) :
    unmarked mark (Solve.marked mark entries) = entries := by
  rw [unmarked, Solve.marked, List.filterMap_map]
  refine (List.filterMap_congr fun e _ => ?_).trans List.filterMap_some
  simp [Text.afterHead_append]

theorem unmarked_eq_nil (h : ∀ key ∈ entries.map Prod.fst, ¬mark.toList <+: key.toList) :
    unmarked mark entries = [] := by
  refine List.filterMap_eq_nil_iff.2 fun e he => ?_
  simp [Text.afterHead_eq_none (h e.1 (List.mem_map_of_mem he))]

end Engine

namespace Solve

variable {mark key : String} {entries : List (String × String)} {spec : BuildSpec} {dockerfile : Path}
  {args : List (String × String)} {platform : String}

theorem mem_keys_marked :
    key ∈ (marked mark entries).map Prod.fst ↔ ∃ name ∈ entries.map Prod.fst, mark ++ name = key := by
  simp [marked]

theorem nodup_keys_marked (h : (entries.map Prod.fst).Nodup) :
    ((marked mark entries).map Prod.fst).Nodup := by
  have hkeys : (marked mark entries).map Prod.fst = (entries.map Prod.fst).map (mark ++ ·) := by
    simp [marked]
  rw [hkeys]
  exact h.map fun _ _ => (String.append_right_inj mark).1

/-- The attributes of a request whose names are not the spec's own. -/
def options (spec : BuildSpec) (dockerfile : Path) (platform : String) : List (String × String) :=
  [("filename", dockerfile.fileName?.getD "Dockerfile"), ("platform", platform)] ++
  (spec.target.map fun target => ("target", target)).toList ++
  (if spec.noCache then [("no-cache", "")] else [])

theorem frontendAttrs_request :
    (request spec dockerfile args platform).frontendAttrs =
      options spec dockerfile platform ++ marked labelMark spec.labels ++ marked argMark args := rfl

theorem mem_keys_options (h : key ∈ (options spec dockerfile platform).map Prod.fst) :
    key ∈ ["filename", "platform", "target", "no-cache"] := by
  cases htarget : spec.target <;> cases hcache : spec.noCache <;>
    simp [options, htarget, hcache] at h ⊢ <;> tauto

theorem nodup_keys_options : ((options spec dockerfile platform).map Prod.fst).Nodup := by
  cases htarget : spec.target <;> cases hcache : spec.noCache <;> simp [options, htarget, hcache]

/-! ## Marks -/

theorem not_marked_option {mark : String} (hmark : mark ∈ [labelMark, argMark])
    (h : key ∈ (options spec dockerfile platform).map Prod.fst) : ¬mark.toList <+: key.toList := by
  have hkey := mem_keys_options h
  simp only [List.mem_cons, List.not_mem_nil, or_false] at hmark hkey
  rcases hmark with rfl | rfl <;> rcases hkey with rfl | rfl | rfl | rfl <;> decide

theorem not_label_of_arg (h : key ∈ (marked argMark entries).map Prod.fst) :
    ¬labelMark.toList <+: key.toList := by
  obtain ⟨name, -, rfl⟩ := mem_keys_marked.1 h
  exact Text.not_prefix_append (by decide) (by decide) name

theorem not_arg_of_label (h : key ∈ (marked labelMark entries).map Prod.fst) :
    ¬argMark.toList <+: key.toList := by
  obtain ⟨name, -, rfl⟩ := mem_keys_marked.1 h
  exact Text.not_prefix_append (by decide) (by decide) name

theorem notMem_keys_marked (h : ¬mark.toList <+: key.toList) :
    key ∉ (marked mark entries).map Prod.fst := by
  intro hmem
  obtain ⟨name, -, rfl⟩ := mem_keys_marked.1 hmem
  exact h (by simp)

/-- No two attributes of a request have one name, if no two labels and no two arguments have. -/
theorem nodup_keys_request (hlabels : (spec.labels.map Prod.fst).Nodup)
    (hargs : (args.map Prod.fst).Nodup) :
    ((request spec dockerfile args platform).frontendAttrs.map Prod.fst).Nodup := by
  rw [frontendAttrs_request, List.map_append, List.map_append]
  refine (nodup_keys_options.append (nodup_keys_marked hlabels) fun key hoption hlabel => ?_).append
    (nodup_keys_marked hargs) fun key hfront harg => ?_
  · exact notMem_keys_marked (not_marked_option (by simp) hoption) hlabel
  · rcases List.mem_append.1 hfront with hoption | hlabel
    · exact notMem_keys_marked (not_marked_option (by simp) hoption) harg
    · exact notMem_keys_marked (not_arg_of_label hlabel) harg

end Solve

namespace Engine

variable {fs : FileSystem} {dockerfile : Path} {spec : BuildSpec} {remote : Bool}
  {args : List (String × String)} {platform : String}

/-! ## What an engine finds in a solve request -/

theorem unmarked_labels :
    unmarked Solve.labelMark (Solve.request spec dockerfile args platform).frontendAttrs =
      spec.labels := by
  rw [Solve.frontendAttrs_request, unmarked_append, unmarked_append, unmarked_marked,
    unmarked_eq_nil fun _ => Solve.not_marked_option (by simp),
    unmarked_eq_nil fun _ => Solve.not_label_of_arg]
  simp

theorem unmarked_args :
    unmarked Solve.argMark (Solve.request spec dockerfile args platform).frontendAttrs = args := by
  rw [Solve.frontendAttrs_request, unmarked_append, unmarked_append, unmarked_marked,
    unmarked_eq_nil fun _ => Solve.not_marked_option (by simp),
    unmarked_eq_nil fun _ => Solve.not_arg_of_label]
  simp

/-- An option is looked up among the options alone: it has no mark. -/
theorem lookup_option {name : String} (hlabel : ¬Solve.labelMark.toList <+: name.toList)
    (harg : ¬Solve.argMark.toList <+: name.toList) :
    lookup name (Solve.request spec dockerfile args platform).frontendAttrs =
      lookup name (Solve.options spec dockerfile platform) := by
  rw [Solve.frontendAttrs_request, lookup_append, lookup_append,
    lookup_eq_none (Solve.notMem_keys_marked hlabel), lookup_eq_none (Solve.notMem_keys_marked harg),
    Option.or_none, Option.or_none]

theorem lookup_platform :
    lookup "platform" (Solve.request spec dockerfile args platform).frontendAttrs = some platform := by
  rw [lookup_option (by decide) (by decide)]
  simp [Solve.options, lookup]

theorem lookup_target :
    lookup "target" (Solve.request spec dockerfile args platform).frontendAttrs = spec.target := by
  rw [lookup_option (by decide) (by decide)]
  cases htarget : spec.target <;> cases hcache : spec.noCache <;>
    simp [Solve.options, lookup, htarget, hcache]

theorem lookup_noCache :
    (lookup "no-cache" (Solve.request spec dockerfile args platform).frontendAttrs).isSome =
      spec.noCache := by
  rw [lookup_option (by decide) (by decide)]
  cases htarget : spec.target <;> cases hcache : spec.noCache <;>
    simp [Solve.options, lookup, htarget, hcache]

theorem exportTag_request (credentials : Registry.CredentialTable) :
    exportTag { Solve.request spec dockerfile args platform with credentials } = spec.tag := by
  simp [exportTag, Solve.request, lookup]

theorem secrets_of_solveContext {r : SolveRequest} {sent : Context}
    (h : solveContext fs remote r = .ok sent) : r.secrets = [] := by
  by_contra hsecrets
  simp [solveContext, hsecrets, bind, Except.bind, throw, throwThe, MonadExceptOf.throw] at h

/-- The Dockerfile has one name in the contexts of both, whichever ignore file they go by. -/
theorem dockerfileName_eq {credentials : Registry.CredentialTable} {sent packed : Context}
    (hfile : fs.isFile dockerfile)
    (hsolve : solveContext fs remote
      { Solve.request spec dockerfile args platform with credentials } = .ok sent)
    (hpackage : Context.package fs dockerfile spec remote = .ok packed) :
    sent.dockerfileName = packed.dockerfileName := by
  have hsecrets : spec.secrets = [] := secrets_of_solveContext hsolve
  rw [solveContext_request hsecrets hfile] at hsolve
  rw [Context.dockerfileName, Context.dockerfileName, Context.relativeDockerfile_of_package hsolve,
    Context.relativeDockerfile_of_package hpackage]

/-! ## The queries -/

/-- The parameters that tell what is to be built, and not how an engine goes about it. -/
def buildParams : List String :=
  ["dockerfile", "t", "buildargs", "labels", "target", "nocache", "platform"]

/-- The part of a query that tells what is to be built. -/
def BuildQuery.asked (q : BuildQuery) : List (String × Param) :=
  q.params.filter fun p => buildParams.contains p.1

theorem BuildQuery.asked_eq (q : BuildQuery) :
    q.asked = [("dockerfile", .text q.dockerfile), ("t", .text q.tag),
      ("buildargs", .table q.buildArgs), ("labels", .table q.labels), ("target", .text q.target),
      ("nocache", .flag q.noCache), ("platform", .text q.platform)] := by
  cases hsession : q.session <;> simp [asked, params, buildParams, hsession]

/-- An engine that takes the attributes of a solve apart asks for the build that the classic request of the
same spec asks for, whatever the labels and arguments are named; for each attribute has a name of its own. -/
theorem solve_asks_as_classic (settings : Settings)
    {credentials solveCredentials : Registry.CredentialTable} {sent packed : Context}
    (hfile : fs.isFile dockerfile)
    (hsolve : solveContext fs remote
      { Solve.request spec dockerfile spec.buildArgs settings.platform with
        credentials := solveCredentials } = .ok sent)
    (hpackage : Context.package fs dockerfile spec remote = .ok packed) :
    (BuildQuery.ofSolve
        { Solve.request spec dockerfile spec.buildArgs settings.platform with
          credentials := solveCredentials } sent).asked =
      (BuildQuery.ofClassic (Classic.request settings spec packed credentials)).asked ∧
    ((spec.labels.map Prod.fst).Nodup → (spec.buildArgs.map Prod.fst).Nodup →
      ((Solve.request spec dockerfile spec.buildArgs settings.platform).frontendAttrs.map
        Prod.fst).Nodup) := by
  refine ⟨?_, Solve.nodup_keys_request⟩
  have hname := dockerfileName_eq hfile hsolve hpackage
  rw [BuildQuery.asked_eq, BuildQuery.asked_eq]
  simp only [BuildQuery.ofSolve, BuildQuery.ofClassic, Classic.request, unmarked_labels, unmarked_args,
    lookup_target, lookup_noCache, lookup_platform, exportTag_request, hname, Option.getD_some]

/-- A spec whose labels and arguments are named like marks and options, on the tree with a file of rules. -/
def oddSpec : BuildSpec :=
  { keySpec with
    labels := [("label:tier", "1"), ("target", "2"), ("build-arg:tier", "3")]
    buildArgs := [("no-cache", "4"), ("label:tier", "5"), ("", "6")]
    target := some "build-arg:" }

theorem keySystem_package_oddSpec : ∃ packed,
    Context.package keySystem ⟨"/app/Dockerfile"⟩ oddSpec false = .ok packed := by
  have hnames := packedBy_rules
  cases hrules : Context.packedBy keySystem ⟨"/app/Dockerfile"⟩ ⟨"/app"⟩ (some ⟨"rules"⟩) with
  | error e => simp [hrules, Except.toOption] at hnames
  | ok archive => exact Context.exists_package keySystem_isFile hrules

theorem solve_asks_as_classic_oddSpec : ∃ sent packed,
    keySystem.isFile ⟨"/app/Dockerfile"⟩ ∧
    solveContext keySystem false
      { Solve.request oddSpec ⟨"/app/Dockerfile"⟩ oddSpec.buildArgs "linux/amd64" with
        credentials := [] } = .ok sent ∧
    Context.package keySystem ⟨"/app/Dockerfile"⟩ oddSpec false = .ok packed ∧
    (BuildQuery.ofSolve
        { Solve.request oddSpec ⟨"/app/Dockerfile"⟩ oddSpec.buildArgs "linux/amd64" with
          credentials := [] } sent).asked =
      (BuildQuery.ofClassic (Classic.request {} oddSpec packed [])).asked ∧
    ((Solve.request oddSpec ⟨"/app/Dockerfile"⟩ oddSpec.buildArgs "linux/amd64").frontendAttrs.map
      Prod.fst).Nodup := by
  obtain ⟨sent, hsent, -⟩ := keySystem_package
  obtain ⟨packed, hpackage⟩ := keySystem_package_oddSpec
  have hsolve : solveContext keySystem false
      { Solve.request oddSpec ⟨"/app/Dockerfile"⟩ oddSpec.buildArgs "linux/amd64" with
        credentials := [] } = .ok sent :=
    (solveContext_request rfl keySystem_isFile false oddSpec.buildArgs "linux/amd64" []).trans hsent
  obtain ⟨hasked, hkeys⟩ := solve_asks_as_classic {} keySystem_isFile hsolve hpackage
  exact ⟨sent, packed, keySystem_isFile, hsolve, hpackage, hasked, hkeys (by decide) (by decide)⟩

end Engine
end ImageBuild
