import ImageBuild.Ignore.Rules
import ImageBuild.Proofs.Glob.LiteralHead
import ImageBuild.Proofs.Text.Pieces

/-!
# What can be wanted below an ignored directory

A rule that covers a path but not the directory above it has a pattern that
admits something below the directory, so its literal head and the directory's
path agree as far as both go.  `mayReincludeUnder` asks the negated rules for
just this.  Where it says no, the negated rules cover the path exactly if they
cover the directory, while the plain rules can only cover more, and so the last
word on the path is the same as on the directory.
-/

namespace ImageBuild.Ignore

/-- A path below `dir` lies in everything that `dir` lies in, and in what is
below `dir`. -/
theorem selfAndParents_below (dir rest : List Char) :
    selfAndParents (dir ++ '/' :: rest) =
      selfAndParents dir ++ (selfAndParents rest).map fun q => dir ++ '/' :: q := by
  have hdir := List.splitOn_ne_nil '/' dir
  have hrest := List.splitOn_ne_nil '/' rest
  have hjoin : ['/'].intercalate (dir.splitOn '/') = dir := List.intercalate_splitOn '/'
  simp only [selfAndParents, List.splitOn_append_cons_self, List.length_append,
    List.range_add, List.map_append, List.map_map]
  congr 1
  · refine List.map_congr_left fun n hn => ?_
    have hlen : n + 1 ≤ (dir.splitOn '/').length := List.mem_range.1 hn
    rw [List.take_append_of_le_length hlen]
  · refine List.map_congr_left fun n _ => ?_
    have htake : (dir.splitOn '/' ++ rest.splitOn '/').take ((dir.splitOn '/').length + n + 1) =
        dir.splitOn '/' ++ (rest.splitOn '/').take (n + 1) := by
      rw [Nat.add_assoc, List.take_length_add_append]
    have hne : (rest.splitOn '/').take (n + 1) ≠ [] := by
      simp [List.take_eq_nil_iff]
    simp only [Function.comp_apply, htake, Text.intercalate_append '/' hdir hne, hjoin]

theorem covers_below (r : Rule) (dir rest : List Char) :
    r.covers (dir ++ '/' :: rest) =
      (r.covers dir || (selfAndParents rest).any fun q => r.pattern.admits (dir ++ '/' :: q)) := by
  rw [Rule.covers, selfAndParents_below, List.any_append, List.any_map]
  rfl

theorem mayReach_of_admits {r : Rule} {dir q : List Char}
    (h : r.pattern.admits (dir ++ '/' :: q) = true) : r.mayReach (dir ++ ['/']) = true := by
  have hdir : dir ++ ['/'] <+: dir ++ '/' :: q := ⟨q, by simp⟩
  rw [Rule.mayReach]
  cases hwild : r.pattern.hasWildcard with
  | true =>
      have hhead := r.pattern.literalHead_isPrefix h
      rcases List.prefix_or_prefix_of_prefix hdir hhead with hle | hge
      · simp [List.isPrefixOf_iff_prefix.2 hle]
      · simp [List.isPrefixOf_iff_prefix.2 hge]
  | false =>
      rw [r.pattern.eq_source_of_admits h hwild] at hdir
      simpa using hdir

theorem covers_below_of_not_mayReach {r : Rule} {dir : List Char}
    (h : r.mayReach (dir ++ ['/']) = false) (rest : List Char) :
    r.covers (dir ++ '/' :: rest) = r.covers dir := by
  have hnone : ∀ q, r.pattern.admits (dir ++ '/' :: q) = false := by
    intro q
    cases hq : r.pattern.admits (dir ++ '/' :: q) with
    | false => rfl
    | true => exact absurd (mayReach_of_admits hq) (by simp [h])
  simp [covers_below, hnone]

theorem covers_below_of_covers {r : Rule} {dir : List Char} (h : r.covers dir = true)
    (rest : List Char) : r.covers (dir ++ '/' :: rest) = true := by
  simp [covers_below, h]

theorem verdict_cons (path : List Char) (before : Bool) (r : Rule) (rules : Rules) :
    verdict path before (r :: rules) =
      verdict path (if r.covers path then !r.negated else before) rules := rfl

/-- A directory that is ignored for good takes with it what lies below it,
whatever was said of the two before. -/
theorem verdict_below {rules : Rules} {dir : List Char}
    (hreach : ∀ r ∈ rules, r.negated = true → r.mayReach (dir ++ ['/']) = false)
    (rest : List Char) {before below : Bool} (hle : before = true → below = true)
    (h : verdict dir before rules = true) :
    verdict (dir ++ '/' :: rest) below rules = true := by
  induction rules generalizing before below with
  | nil => exact hle h
  | cons r rules ih =>
      rw [verdict_cons] at h ⊢
      refine ih (fun s hs => hreach s (List.mem_cons_of_mem r hs)) ?_ h
      cases hneg : r.negated with
      | true =>
          rw [covers_below_of_not_mayReach (hreach r List.mem_cons_self hneg) rest]
          cases r.covers dir with
          | true => simp
          | false => simpa using hle
      | false =>
          cases hcov : r.covers dir with
          | true => simp [covers_below_of_covers hcov rest]
          | false =>
              cases r.covers (dir ++ '/' :: rest) with
              | true => simp
              | false => simpa using hle

/-- A path lies below a directory, as the rules see the two. -/
def IsBelow (path dir : String) : Prop :=
  ∃ rest, trimPath path.toList = trimPath dir.toList ++ '/' :: rest

/-- Where nothing can be wanted below an ignored directory, all there is
ignored. -/
theorem isIgnored_of_isBelow {rules : Rules} {dir path : String}
    (hdir : rules.isIgnored dir = true) (hreach : rules.mayReincludeUnder dir = false)
    (hbelow : IsBelow path dir) : rules.isIgnored path = true := by
  obtain ⟨rest, hpath⟩ := hbelow
  have hverdict : verdict (trimPath dir.toList) false rules = true := by
    simp only [Rules.isIgnored, Bool.and_eq_true] at hdir
    exact hdir.2
  have hnegated : ∀ r ∈ rules, r.negated = true →
      r.mayReach (trimPath dir.toList ++ ['/']) = false := by
    intro r hr hneg
    have hall := List.any_eq_false.1 hreach r hr
    simpa [hneg] using hall
  simp only [Rules.isIgnored, hpath, Bool.and_eq_true]
  refine ⟨?_, verdict_below hnegated rest id hverdict⟩
  cases trimPath dir.toList <;> rfl

end ImageBuild.Ignore
