import ImageBuild.Ignore.Load
import ImageBuild.Proofs.FileTree.Naming
import ImageBuild.Proofs.Glob.OwnText
import ImageBuild.Proofs.Path.Place
/-!
# Rules that keep a path

The rule that is added for a path stands last and says that the path is wanted, so nothing before it counts.
For this the text of the path has to come through unchanged: through the trimming of the line, through the
normal form and through the reading of the pattern.
-/

namespace ImageBuild

theorem Text.trimChars_eq_self {cs : List Char} (hhead : ∀ c, cs.head? = some c → isBlank c = false)
    (hlast : ∀ c, cs.getLast? = some c → isBlank c = false) : trimChars cs = cs := by
  have hdrop : cs.dropWhile isBlank = cs := by
    cases cs with
    | nil => rfl
    | cons c rest => exact List.dropWhile_cons_of_neg (by simp [hhead c rfl])
  rw [trimChars, hdrop]
  rcases List.eq_nil_or_concat cs with rfl | ⟨front, c, rfl⟩
  · rfl
  · rw [List.concat_eq_append] at hlast ⊢
    exact dropTailWhile_append_of_neg isBlank front (hlast c List.getLast?_concat)

namespace Ignore

open ImageBuild.Path (IsOrdinary IsNamePiece isNamePiece_iff)

theorem foldl_pushStep {names : List (List Char)} (h : ∀ s ∈ names, IsNamePiece s)
    (taken : List (List Char)) : names.foldl pushStep taken = names.reverse ++ taken := by
  induction names generalizing taken with
  | nil => rfl
  | cons s rest ih =>
      obtain ⟨hnil, hdot, hup⟩ := isNamePiece_iff.1 (h s List.mem_cons_self)
      have hpush : pushStep taken s = s :: taken := by simp [pushStep, hnil, hdot, hup]
      rw [List.foldl_cons, hpush, ih fun t ht => h t (List.mem_cons_of_mem s ht)]
      simp

theorem mem_selfAndParents (path : List Char) : path ∈ selfAndParents path := by
  have hne := List.length_pos_iff.2 (List.splitOn_ne_nil '/' path)
  refine List.mem_map.2 ⟨(path.splitOn '/').length - 1, List.mem_range.2 (by omega), ?_⟩
  rw [Nat.sub_add_cancel hne, List.take_length, List.intercalate_splitOn]

theorem clean_eq_self {path : String} (h : IsOrdinary path) (hslash : '\\' ∉ path.toList) :
    clean path.toList = path.toList := by
  have hslashed : (path.toList.map fun c => if c = '\\' then '/' else c) = path.toList := by
    rw [List.map_congr_left fun c hc => if_neg fun heq : c = '\\' => hslash (heq ▸ hc), List.map_id']
  rw [clean, cleanSteps, hslashed, foldl_pushStep h, List.append_nil, List.reverse_reverse, joinSteps,
    if_neg (List.splitOn_ne_nil '/' path.toList), List.intercalate_splitOn]

theorem trimPath_eq_self {path : String} (h : IsOrdinary path) : trimPath path.toList = path.toList := by
  have htrim := trimPath_intercalate (List.splitOn_ne_nil '/' path.toList)
    (fun step hstep => Text.notMem_of_mem_splitOn hstep)
    (fun step hstep => (isNamePiece_iff.1 (h step hstep)).1)
    (fun step hstep => (isNamePiece_iff.1 (h step hstep)).2.1)
  rwa [List.intercalate_splitOn] at htrim

/-! ## The rule that is added for a path -/

/-- The rule that is added for a path covers the path. -/
def NamesItself (path : String) : Prop :=
  ∃ rule, Rule.ofLine ('!' :: path.toList) = .ok rule ∧ rule.covers path.toList = true

theorem namesItself_iff {path : String} (h : IsOrdinary path) (hslash : '\\' ∉ path.toList)
    (hopen : '[' ∉ path.toList) (hhead : ∀ c, path.toList.head? = some c → Text.isBlank c = false)
    (hlast : ∀ c, path.toList.getLast? = some c → Text.isBlank c = false) :
    NamesItself path ↔ ∀ step ∈ path.toList.splitOn '/', Glob.IsWholeDepth step := by
  have hbody : splitNegation ('!' :: path.toList) = (true, path.toList) := by
    rw [splitNegation, Text.trimChars_eq_self hhead hlast]
  rw [NamesItself, Rule.ofLine, hbody, ← Glob.exists_parse_ok_iff hopen]
  simp only [clean_eq_self h hslash]
  cases hparse : Glob.parse path.toList with
  | error fault => simp
  | ok pattern =>
      have hsource := Glob.source_of_parse hparse
      have hadmits := Glob.Pattern.admits_source (p := pattern) (hsource ▸ hopen)
      refine iff_of_true ⟨⟨pattern, true⟩, rfl, ?_⟩ ⟨pattern, rfl⟩
      exact List.any_eq_true.2 ⟨path.toList, mem_selfAndParents _, hsource ▸ hadmits⟩

theorem negated_of_ofLine {rule : Rule} {body : List Char} (h : Rule.ofLine ('!' :: body) = .ok rule) :
    rule.negated = true := by
  rw [Rule.ofLine, splitNegation] at h
  cases hparse : Glob.parse (clean (Text.trimChars body)) with
  | error fault => simp [hparse] at h
  | ok pattern =>
      simp only [hparse, Except.ok.injEq] at h
      rw [← h]

namespace Rules

variable {rules kept : Rules} {path : String}

theorem isIgnored_concat {rule : Rule} (h : rule.negated = true) (path : String) :
    isIgnored (rules ++ [rule]) path =
      (rules.isIgnored path && !rule.covers (trimPath path.toList)) := by
  rw [isIgnored, isIgnored, verdict, List.foldl_append, verdict]
  cases hcovers : rule.covers (trimPath path.toList) <;> simp [h, hcovers]

theorem keep_eq (rules : Rules) (path : String) :
    rules.keep path =
      if rules.isIgnored path then (Rule.ofLine ('!' :: path.toList)).map fun rule => rules ++ [rule]
      else .ok rules := by
  rw [keep]
  cases Rule.ofLine ('!' :: path.toList) <;> rfl

/-- The rule that is added for a path takes nothing else away. -/
theorem isIgnored_of_keep (hkeep : rules.keep path = .ok kept) {other : String}
    (h : rules.isIgnored other = false) : kept.isIgnored other = false := by
  rw [keep_eq] at hkeep
  split_ifs at hkeep
  · cases hrule : Rule.ofLine ('!' :: path.toList) with
    | error fault => simp [hrule, Except.map] at hkeep
    | ok rule =>
        rw [hrule] at hkeep
        cases hkeep
        rw [isIgnored_concat (negated_of_ofLine hrule), h, Bool.false_and]
  · cases hkeep
    exact h

/-- A path is kept just if it was not ignored or the rule that is added for it covers it. -/
theorem exists_keep_iff (h : IsOrdinary path) :
    (∃ kept, rules.keep path = .ok kept ∧ kept.isIgnored path = false) ↔
      rules.isIgnored path = false ∨ NamesItself path := by
  rw [keep_eq]
  cases hignored : rules.isIgnored path with
  | false => simp [hignored]
  | true =>
      rw [if_pos rfl, NamesItself]
      cases hrule : Rule.ofLine ('!' :: path.toList) with
      | error fault => simp [Except.map]
      | ok rule =>
          simp [Except.map, isIgnored_concat (negated_of_ofLine hrule), hignored, trimPath_eq_self h]

end Rules

variable {fs : FileSystem} {workDir : Path} {ignoreFile : Option Path}

theorem Rules.load_of_text {content : String} (dockerfile : Option String)
    (h : fs.readText (location workDir ignoreFile) = .ok content) :
    Rules.load fs workDir ignoreFile dockerfile =
      (Rules.ofContent content dockerfile).mapError fun f => .invalidConfig f.message := by
  delta Rules.load
  rw [h]

theorem Rules.load_of_notFound {e : IoError} (dockerfile : Option String) (he : e.isNotFound)
    (h : fs.readText (location workDir ignoreFile) = .error e) :
    Rules.load fs workDir ignoreFile dockerfile = .ok [] := by
  delta Rules.load
  rw [h]
  exact if_pos he

/-- For a Dockerfile in the tree a rule is added last. -/
theorem Rules.exists_keep {content path : String} {rules : Rules}
    (h : ofContent content (some path) = .ok rules) : ∃ started, keep started path = .ok rules := by
  rw [ofContent] at h
  simp only [bind, Except.bind] at h
  cases hparse : parse content with
  | error fault => simp [hparse] at h
  | ok parsed =>
      simp only [hparse] at h
      cases hstarted : parsed.keep defaultName with
      | error fault => simp [hstarted] at h
      | ok started => exact ⟨started, by simpa only [hstarted] using h⟩

theorem Rules.eq_nil_or_ofContent {dockerfile : Option String} {rules : Rules}
    (h : load fs workDir ignoreFile dockerfile = .ok rules) :
    rules = [] ∨ ∃ content, ofContent content dockerfile = .ok rules := by
  -- The equation of `Rules.load` takes long to derive.
  delta load at h
  cases htext : fs.readText (location workDir ignoreFile) with
  | error e =>
      simp only [htext] at h
      split_ifs at h
      cases h
      exact .inl rfl
  | ok content =>
      simp only [htext] at h
      cases hcontent : ofContent content dockerfile with
      | error fault => simp [hcontent, Except.mapError] at h
      | ok found =>
          rw [hcontent] at h
          cases h
          exact .inr ⟨content, hcontent⟩

/-- A path that an ignore file can name as it is. -/
structure IsPlain (path : String) : Prop where
  ordinary : IsOrdinary path
  /-- Nothing in it is read as anything but itself. -/
  literal : ∀ c ∈ path.toList, Glob.isWildcard c = false ∧ c ≠ '\\'
  head : ∀ c, path.toList.head? = some c → Text.isBlank c = false
  last : ∀ c, path.toList.getLast? = some c → Text.isBlank c = false

theorem isPlain_iff {path : String} :
    IsPlain path ↔ IsOrdinary path ∧
      (path.toList.all fun c => !Glob.isWildcard c && c != '\\') = true ∧
      (path.toList.head?.all fun c => !Text.isBlank c) = true ∧
      (path.toList.getLast?.all fun c => !Text.isBlank c) = true := by
  simp only [List.all_eq_true, Option.all_eq_true, Bool.and_eq_true, Bool.not_eq_true', bne_iff_ne]
  constructor
  · rintro ⟨hordinary, hliteral, hhead, hlast⟩
    exact ⟨hordinary, hliteral, hhead, hlast⟩
  · rintro ⟨hordinary, hliteral, hhead, hlast⟩
    exact ⟨hordinary, hliteral, hhead, hlast⟩

instance (path : String) : Decidable (IsPlain path) :=
  decidable_of_iff _ isPlain_iff.symm

namespace IsPlain

variable {path : String} (h : IsPlain path)
include h

theorem namesItself : NamesItself path := by
  have hnot : ∀ c, Glob.isWildcard c = true → c ∉ path.toList :=
    fun c hc hmem => absurd hc (Bool.eq_false_iff.1 (h.literal c hmem).1)
  refine (namesItself_iff h.ordinary (fun hmem => (h.literal _ hmem).2 rfl) (hnot '[' rfl) h.head h.last).2 ?_
  intro step hstep hstars
  exact absurd (Text.mem_of_mem_splitOn hstep (hstars.subset List.mem_cons_self)) (hnot '*' rfl)

theorem isIgnored_keep {rules kept : Rules} (hkeep : rules.keep path = .ok kept) :
    kept.isIgnored path = false := by
  obtain ⟨found, hfound, hwanted⟩ := (Rules.exists_keep_iff h.ordinary).2 (.inr h.namesItself)
  cases hkeep.symm.trans hfound
  exact hwanted

/-- Whatever is in an ignore file, the rules of a tree want its Dockerfile. -/
theorem isIgnored_load {fs : FileSystem} {workDir : Path} {ignoreFile : Option Path} {rules : Rules}
    (hload : Rules.load fs workDir ignoreFile (some path) = .ok rules) :
    rules.isIgnored path = false := by
  obtain rfl | ⟨content, hrules⟩ := Rules.eq_nil_or_ofContent hload
  · simp [Rules.isIgnored, verdict]
  · obtain ⟨started, hkeep⟩ := Rules.exists_keep hrules
    exact h.isIgnored_keep hkeep

end IsPlain
end Ignore
end ImageBuild
