import ImageBuild.Proofs.FileTree.Resolution
import ImageBuild.Proofs.Ignore.Keeping
import Mathlib
/-!
# Rules that are loaded for a Dockerfile

The ignore file is always kept.  The Dockerfile is kept if no rule ignores it, and else by a rule that has its path
for a pattern.  The path is put there as it is, so this rule covers the path only where no character of it means
anything in a pattern, or the path happens to be among what its pattern admits.
-/

namespace ImageBuild.Ignore

open ImageBuild.Path (IsOrdinary)

theorem isPlain_defaultName : IsPlain defaultName := by decide

theorem Rules.exists_keep_defaultName (rules : Rules) :
    ∃ started, rules.keep defaultName = .ok started ∧ started.isIgnored defaultName = false :=
  (Rules.exists_keep_iff isPlain_defaultName.ordinary).2 (.inr isPlain_defaultName.namesItself)

theorem Rules.ofContent_of_parse {content : String} {parsed started : Rules} (dockerfile : Option String)
    (hparse : Rules.parse content = .ok parsed) (hkeep : parsed.keep defaultName = .ok started) :
    Rules.ofContent content dockerfile =
      match dockerfile with
      | some path => started.keep path
      | none => .ok started := by
  rw [Rules.ofContent]
  simp only [hparse, bind, Except.bind, hkeep]
  rfl

variable {fs : FileSystem} {workDir : Path} {ignoreFile : Option Path} {content r : String} {parsed : Rules}

/-- With an ignore file whose patterns can be read, the rules keep the ignore file.  There are rules that keep the
Dockerfile too just if those of the tree alone do not ignore it, or the rule that is added for it covers it; without
brackets, backslashes and blanks at the ends it does just if two stars in a row are always a whole step. -/
theorem load_keeps_iff (htext : fs.readText (location workDir ignoreFile) = .ok content)
    (hparse : Rules.parse content = .ok parsed) (hr : IsOrdinary r) :
    ∃ started, Rules.load fs workDir ignoreFile none = .ok started ∧
      started.isIgnored defaultName = false ∧
      (∀ rules, Rules.load fs workDir ignoreFile (some r) = .ok rules →
        rules.isIgnored defaultName = false) ∧
      ((∃ rules, Rules.load fs workDir ignoreFile (some r) = .ok rules ∧ rules.isIgnored r = false) ↔
        started.isIgnored r = false ∨ NamesItself r) ∧
      ('[' ∉ r.toList → '\\' ∉ r.toList →
        (∀ c, r.toList.head? = some c → Text.isBlank c = false) →
        (∀ c, r.toList.getLast? = some c → Text.isBlank c = false) →
        (NamesItself r ↔ ∀ step ∈ r.toList.splitOn '/', Glob.IsWholeDepth step)) := by
  obtain ⟨started, hkeep, hdefault⟩ := parsed.exists_keep_defaultName
  have hnone : Rules.load fs workDir ignoreFile none = .ok started := by
    rw [Rules.load_of_text none htext, Rules.ofContent_of_parse none hparse hkeep]
    rfl
  have hsome : Rules.load fs workDir ignoreFile (some r) =
      (started.keep r).mapError fun f => .invalidConfig f.message := by
    rw [Rules.load_of_text (some r) htext, Rules.ofContent_of_parse (some r) hparse hkeep]
  have hok : ∀ rules, Rules.load fs workDir ignoreFile (some r) = .ok rules ↔ started.keep r = .ok rules := by
    intro rules
    rw [hsome]
    cases started.keep r <;> simp [Except.mapError]
  refine ⟨started, hnone, hdefault, fun rules hrules => ?_, ?_, fun hopen hslash hhead hlast => ?_⟩
  · exact Rules.isIgnored_of_keep ((hok rules).1 hrules) hdefault
  · simp only [hok]
    exact Rules.exists_keep_iff hr
  · exact namesItself_iff hr hslash hopen hhead hlast

/-! ## A Dockerfile with brackets in its name -/

/-- A tree whose ignore file ignores all that is in it. -/
def starSystem : FileSystem where
  root := .dir [([46, 100, 111, 99, 107, 101, 114, 105, 103, 110, 111, 114, 101], .file ⟨#[42]⟩)]

theorem starSystem_readText : starSystem.readText (location ⟨"/"⟩ none) = .ok "*" := by
  have hlocation : location ⟨"/"⟩ none = ⟨"/.dockerignore"⟩ := by decide
  have hfind : starSystem.find ⟨"/.dockerignore"⟩ = .ok (.file ⟨#[42]⟩) :=
    FileSystem.find_of_at? [[46, 100, 111, 99, 107, 101, 114, 105, 103, 110, 111, 114, 101]]
      (by decide) (by decide) (by decide) (by decide) nofun rfl
  rw [hlocation]
  exact FileSystem.readText_of_find hfind (by decide)

theorem starSystem_parse : ∃ parsed, Rules.parse "*" = .ok parsed := by
  have hok : (Rules.parse "*").toOption.isSome = true := by cbv
  cases hparse : Rules.parse "*" with
  | error fault => simp [hparse, Except.toOption] at hok
  | ok parsed => exact ⟨parsed, rfl⟩

theorem load_keeps_iff_brackets :
    ∃ parsed started, starSystem.readText (location ⟨"/"⟩ none) = .ok "*" ∧
      Rules.parse "*" = .ok parsed ∧ IsOrdinary "Dockerfile[1]" ∧
      Rules.load starSystem ⟨"/"⟩ none none = .ok started ∧ started.isIgnored defaultName = false ∧
      ((∃ rules, Rules.load starSystem ⟨"/"⟩ none (some "Dockerfile[1]") = .ok rules ∧
          rules.isIgnored "Dockerfile[1]" = false) ↔
        started.isIgnored "Dockerfile[1]" = false ∨ NamesItself "Dockerfile[1]") := by
  obtain ⟨parsed, hparse⟩ := starSystem_parse
  have hname : IsOrdinary "Dockerfile[1]" := by decide
  obtain ⟨started, hstarted, hdefault, -, hkept, -⟩ := load_keeps_iff starSystem_readText hparse hname
  exact ⟨parsed, started, starSystem_readText, hparse, hname, hstarted, hdefault, hkept⟩

/-- The name is taken for a pattern that admits `Dockerfile1` alone. -/
theorem load_ignores_brackets :
    IsOrdinary "Dockerfile[1]" ∧
      ∃ rules, Rules.load starSystem ⟨"/"⟩ none (some "Dockerfile[1]") = .ok rules ∧
        rules.isIgnored defaultName = false ∧ rules.isIgnored "Dockerfile[1]" = true := by
  refine ⟨by decide, ?_⟩
  have hverdicts : (Rules.ofContent "*" (some "Dockerfile[1]")).toOption.map
      (fun rules => (rules.isIgnored defaultName, rules.isIgnored "Dockerfile[1]")) =
        some (false, true) := by cbv
  rw [Rules.load_of_text _ starSystem_readText]
  cases hrules : Rules.ofContent "*" (some "Dockerfile[1]") with
  | error fault => simp [hrules, Except.toOption] at hverdicts
  | ok rules =>
      rw [hrules] at hverdicts
      obtain ⟨hdefault, hbrackets⟩ := Prod.ext_iff.1 (Option.some.inj hverdicts)
      exact ⟨rules, rfl, hdefault, hbrackets⟩

end ImageBuild.Ignore
