import ImageBuild.Context
import ImageBuild.Proofs.Path.Inside
/-!
# What is packed with a Dockerfile

A Dockerfile inside the tree is packed with the tree, and one outside is added to it.  Which of the two it is
goes by name alone, and not always right.
-/

namespace ImageBuild

variable {fs : FileSystem} {dockerfile : Path} {spec : BuildSpec} {remote : Bool} {c : Context}

theorem Context.package_eq_ok_iff :
    package fs dockerfile spec remote = .ok c ↔ ∃ added rules,
      additions fs dockerfile (dockerfile.relativeTo? spec.workDir) = .ok added ∧
      Ignore.Rules.load fs spec.workDir spec.ignoreFile (dockerfile.relativeTo? spec.workDir) =
        .ok rules ∧
      c = ⟨rules.texts, dockerfile.relativeTo? spec.workDir, remote,
        Archive.pack fs spec.workDir rules added⟩ := by
  rw [package]
  simp only [bind, Except.bind]
  cases additions fs dockerfile (dockerfile.relativeTo? spec.workDir) with
  | error e => simp
  | ok added =>
      cases Ignore.Rules.load fs spec.workDir spec.ignoreFile
          (dockerfile.relativeTo? spec.workDir) with
      | error e => simp [Except.mapError]
      | ok rules => simp [Except.mapError, pure, Except.pure, eq_comm]

theorem Context.relativeDockerfile_of_package (h : package fs dockerfile spec remote = .ok c) :
    c.relativeDockerfile = dockerfile.relativeTo? spec.workDir := by
  obtain ⟨added, rules, -, -, rfl⟩ := package_eq_ok_iff.1 h
  rfl

/-- What is found for a Dockerfile is right just if its path and that of the tree have the same way up, and as
much is left of it; then a Dockerfile outside the tree is added to what is packed. -/
theorem Path.relativeTo?_faithful_iff (p root : Path) :
    (∀ r, p.relativeTo? root = some r →
      ((IsOrdinary r ∧ (root.join ⟨r⟩).place.Same p.place) ↔ Comparable p root)) ∧
    (Comparable p root →
      (p.relativeTo? root = none ↔ ¬p.place.Below root.place) ∧
      ∀ fs spec remote c, spec.workDir = root → ¬p.place.Below root.place →
        Context.package fs p spec remote = .ok c → c.isInjected = true) := by
  refine ⟨fun r h => faithful_iff h, fun h => ⟨relativeTo?_eq_none_iff h, ?_⟩⟩
  rintro fs spec remote c rfl hbelow hpackage
  rw [Context.isInjected, Context.relativeDockerfile_of_package hpackage,
    (relativeTo?_eq_none_iff h).2 hbelow]
  rfl

/-- A file next to the directory that a build works in is found in it. -/
theorem Path.relativeTo?_climbs :
    (⟨"../Dockerfile"⟩ : Path).relativeTo? ⟨"."⟩ = some "../Dockerfile" ∧
      ¬IsOrdinary "../Dockerfile" ∧ ¬(⟨"../Dockerfile"⟩ : Path).place.Below (⟨"."⟩ : Path).place := by
  refine ⟨by decide, by decide, fun h => ?_⟩
  obtain ⟨⟨-, habsolute | hclimbs⟩, -⟩ := h
  · revert habsolute
    decide
  · revert hclimbs
    decide

end ImageBuild
