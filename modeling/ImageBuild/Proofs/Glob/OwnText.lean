import ImageBuild.Proofs.Glob.LiteralHead
import ImageBuild.Proofs.Text.Pieces
/-!
# A pattern and its own text

A token admits the characters that it is read from, unless these are a bracket expression.  So a pattern without
brackets admits its own text.  Reading such a pattern goes wrong just at two stars that are not a whole step.
-/

namespace ImageBuild.Glob

variable {next : List Char → Bool} {cs : List Char}

theorem afterSequence_of_next (h : next cs = true) : afterSequence next cs = true := by
  cases cs <;> simp [afterSequence, h]

theorem afterSteps_append (front : List Char) (h : afterSteps next cs = true) :
    afterSteps next (front ++ cs) = true := by
  induction front with
  | nil => exact h
  | cons c front ih => simp [afterSteps, ih]

/-- Tokens take a text, read after the token `last`: if this is a `**`, they may begin at any later step. -/
def Takes (last : Option Token) (ts : List Token) (cs : List Char) : Prop :=
  matchTokens ts cs = true ∨ last = some .anyDepth ∧ afterSteps (matchTokens ts) cs = true

theorem Takes.afterSteps {ts : List Token} {last : Option Token} (h : Takes last ts cs) (front : List Char) :
    afterSteps (matchTokens ts) (front ++ '/' :: cs) = true := by
  apply afterSteps_append
  rcases h with hnow | ⟨-, hlater⟩
  · simp [Glob.afterSteps, hnow]
  · exact afterSteps_append ['/'] hlater

theorem Takes.matchTokens {t : Token} {ts : List Token} (h : Takes (some t) ts cs) (ht : t ≠ .anyDepth) :
    matchTokens ts cs = true :=
  h.resolve_right fun hdepth => ht (Option.some.inj hdepth.1)

/-- A `**` takes what some later step begins with, also where it is left out after another. -/
theorem exists_takes_pushDepth {ts : List Token} (read : List Token)
    (h : afterSteps (matchTokens ts) cs = true) :
    ∃ more, (pushDepth read).reverse ++ ts = read.reverse ++ more ∧ Takes read.head? more cs := by
  rw [pushDepth]
  split
  · rename_i hrepeated
    exact ⟨ts, rfl, .inr ⟨hrepeated.2, h⟩⟩
  · exact ⟨.anyDepth :: ts, by simp, .inl (by simp [matchTokens, h])⟩

theorem parseFrom_takes {fuel position : Nat} {before : Option Char} {read ts : List Token}
    (h : parseFrom fuel position before read cs = .ok ts) (hfuel : cs.length ≤ fuel) (hopen : '[' ∉ cs) :
    ∃ more, ts = read.reverse ++ more ∧ Takes read.head? more cs := by
  fun_induction parseFrom fuel position before read cs with
  | case1 => exact ⟨[], by simpa using (Except.ok.inj h).symm, .inl (by simp [matchTokens])⟩
  | case2 _ _ read cs hcs =>
      exact absurd (List.length_eq_zero_iff.1 (Nat.le_zero.1 hfuel)) hcs
  | case3 _ _ read _ rest ih =>
      obtain ⟨more, rfl, htakes⟩ := ih h (by simpa using hfuel) (by simp_all)
      have hrest := htakes.matchTokens (by decide)
      exact ⟨.anyChar :: more, by simp, .inl (by simp [matchTokens, Token.admits, hrest])⟩
  | case5 _ _ read =>
      have hend : afterSteps (matchTokens []) ['*', '*'] = true := by simp [afterSteps, matchTokens]
      obtain ⟨more, hmore, htakes⟩ := exists_takes_pushDepth read hend
      exact ⟨more, by rw [← hmore, ← Except.ok.inj h, List.append_nil], htakes⟩
  | case6 _ _ read _ _ rest _ ih =>
      obtain ⟨more, rfl, htakes⟩ := ih h (by simp at hfuel; omega) (by simp_all)
      exact exists_takes_pushDepth read (htakes.afterSteps ['*', '*'])
  | case9 _ _ read _ rest _ _ ih =>
      obtain ⟨more, rfl, htakes⟩ := ih h (by simpa using hfuel) (by simp_all)
      have hrest := afterSequence_of_next (htakes.matchTokens (by decide))
      exact ⟨.anySequence :: more, by simp, .inl (by simp [matchTokens, afterSequence, hrest])⟩
  | case12 _ _ read _ c rest _ _ _ _ _ ih =>
      obtain ⟨more, rfl, htakes⟩ := ih h (by simpa using hfuel) (by simp_all)
      have hrest := htakes.matchTokens (by simp)
      exact ⟨.char c :: more, by simp, .inl (by simp [matchTokens, Token.admits, hrest])⟩
  | _ => simp_all

theorem source_of_parse {source : List Char} {p : Pattern} (h : parse source = .ok p) :
    p.source = source := by
  rw [parse] at h
  split at h
  · cases h
    rfl
  · cases h

/-- A pattern without brackets admits its own text. -/
theorem Pattern.admits_source {p : Pattern} (h : '[' ∉ p.source) : p.admits p.source = true := by
  obtain ⟨more, hmore, htakes⟩ := parseFrom_takes p.read (Nat.le_refl _) h
  rw [p.admits_eq, hmore]
  exact htakes.resolve_right fun hdepth => absurd hdepth.1 (by simp)

/-! ## Which texts are patterns -/

/-- Two stars in a row are all there is of a step. -/
def IsWholeDepth (step : List Char) : Prop :=
  ['*', '*'] <:+: step → step = ['*', '*']

theorem not_isWholeDepth {step front back : List Char} (hstep : front ++ '*' :: '*' :: back <+: step)
    (h : front ≠ [] ∨ back ≠ []) : ¬ IsWholeDepth step := by
  intro hwhole
  have hstars : ['*', '*'] <:+: step := by
    refine List.IsInfix.trans ⟨front, back, by simp⟩ hstep.isInfix
  have hlength := hstep.length_le
  rw [hwhole hstars] at hlength
  simp only [List.length_append, List.length_cons, List.length_nil] at hlength
  rcases h with hfront | hback
  · have := List.length_pos_iff.2 hfront
    omega
  · have := List.length_pos_iff.2 hback
    omega

theorem splitOn_append_of_notMem {front first : List Char} {rest : List (List Char)} (hfront : '/' ∉ front)
    (h : cs.splitOn '/' = first :: rest) : (front ++ cs).splitOn '/' = (front ++ first) :: rest := by
  induction front with
  | nil => exact h
  | cons c front ih =>
      rw [List.mem_cons, not_or] at hfront
      rw [List.cons_append, List.splitOn_cons_eq_if_modifyHead, ih hfront.2]
      simp [Ne.symm hfront.1]

theorem exists_isPrefix_step {front : List Char} (hfront : '/' ∉ front) (cs : List Char) :
    ∃ step ∈ (front ++ cs).splitOn '/', front <+: step := by
  obtain ⟨first, rest, hsplit⟩ := List.exists_cons_of_ne_nil (List.splitOn_ne_nil '/' cs)
  rw [splitOn_append_of_notMem hfront hsplit]
  exact ⟨front ++ first, List.mem_cons_self, List.prefix_append front first⟩

/-- Two stars that are not a whole step of a text. -/
theorem not_forall_isWholeDepth {front back : List Char} (rest : List Char) (hslash : '/' ∉ front ++ back)
    (h : front ++ back ≠ []) :
    ¬ ∀ step ∈ (front ++ '*' :: '*' :: (back ++ rest)).splitOn '/', IsWholeDepth step := by
  intro hall
  have hstars : '/' ∉ front ++ '*' :: '*' :: back := by simpa using hslash
  obtain ⟨step, hstep, hfront⟩ := exists_isPrefix_step hstars rest
  refine not_isWholeDepth hfront ?_ (hall step (by simpa using hstep))
  rcases front with _ | ⟨c, front⟩
  · exact .inr h
  · exact .inl (List.cons_ne_nil c front)

/-- A text goes on with `cs` after `front`, which belongs to one step and has no two stars in a row, not even with
the next character. -/
structure Amid (front cs : List Char) : Prop where
  slash : '/' ∉ front
  stars : ¬ ['*', '*'] <:+: front ++ cs.take 1

namespace Amid

variable {front rest : List Char} {c : Char}

theorem nil (cs : List Char) : Amid [] cs := by
  refine ⟨List.not_mem_nil, fun h => ?_⟩
  have hlength : 2 ≤ 1 := Nat.le_trans h.length_le (List.length_take_le 1 cs)
  exact absurd hlength (by decide)

theorem concat (h : Amid front (c :: rest)) (hc : c ≠ '/') (hnext : c = '*' → rest.head? ≠ some '*') :
    Amid (front ++ [c]) rest := by
  refine ⟨by simpa [h.slash] using hc.symm, fun hstars => ?_⟩
  cases rest with
  | nil => exact h.stars (by simpa using hstars)
  | cons d rest =>
      rcases List.infix_concat_iff.1 hstars with ⟨before, hbefore⟩ | hin
      · have hsplit : (before ++ ['*']) ++ ['*'] = (front ++ [c]) ++ [d] := by simpa using hbefore
        obtain ⟨hfront, hlast⟩ := List.append_inj' hsplit rfl
        have hc : '*' = c := List.singleton_inj.1 (List.append_inj' hfront rfl).2
        exact hnext hc.symm (congrArg some (List.singleton_inj.1 hlast).symm)
      · exact h.stars hin

theorem isWholeDepth (h : Amid front cs) : IsWholeDepth front :=
  fun hstars => absurd (hstars.trans (List.infix_append' [] front (cs.take 1))) h.stars

theorem splitOn_slash (h : Amid front cs) (rest : List Char) :
    (front ++ '/' :: rest).splitOn '/' = front :: rest.splitOn '/' := by
  rw [List.splitOn_append_cons_self, List.splitOn_eq_singleton h.slash, List.singleton_append]

end Amid

theorem exists_parseFrom_ok_iff {fuel position : Nat} {before : Option Char} {read : List Token}
    {front : List Char} (hstart : front = [] ↔ position = 0 ∨ before = some '/') (hamid : Amid front cs)
    (hfuel : cs.length ≤ fuel) (hopen : '[' ∉ cs) :
    (∃ ts, parseFrom fuel position before read cs = .ok ts) ↔
      ∀ step ∈ (front ++ cs).splitOn '/', IsWholeDepth step := by
  fun_induction parseFrom fuel position before read cs generalizing front with
  | case1 =>
      rw [List.append_nil, List.splitOn_eq_singleton hamid.slash]
      exact iff_of_true ⟨_, rfl⟩ (List.forall_mem_singleton.2 hamid.isWholeDepth)
  | case2 _ _ _ cs hcs =>
      exact absurd (List.length_eq_zero_iff.1 (Nat.le_zero.1 hfuel)) hcs
  | case3 _ _ _ _ rest ih =>
      have hmore := ih (by simp) (hamid.concat (by decide) (by simp)) (by simpa using hfuel) (by simp_all)
      rwa [List.append_assoc] at hmore
  | case4 _ _ _ _ rest =>
      have hslash : '/' ∉ front ++ ['*'] := by simpa using hamid.slash
      exact iff_of_false (by simp) (not_forall_isWholeDepth rest hslash (by simp))
  | case5 _ _ _ _ hbegin =>
      rw [hstart.2 hbegin]
      exact iff_of_true ⟨_, rfl⟩ (List.forall_mem_singleton.2 fun _ => rfl)
  | case6 _ _ _ _ hbegin rest _ ih =>
      have hmore := ih (by simp) (.nil rest) (by simp at hfuel; omega) (by simp_all)
      have hsplit : ('*' :: '*' :: '/' :: rest).splitOn '/' = ['*', '*'] :: rest.splitOn '/' :=
        List.splitOn_append_cons_self ['*', '*'] rest
      rw [hstart.2 hbegin, List.nil_append, hsplit, List.forall_mem_cons]
      exact hmore.trans (and_iff_right fun _ => rfl).symm
  | case7 _ _ _ _ rest _ _ hnil hslash =>
      obtain ⟨c, rest, rfl⟩ := List.exists_cons_of_ne_nil hnil
      have hc : '/' ∉ front ++ [c] := by
        simpa [hamid.slash] using fun h : '/' = c => hslash rest (h ▸ rfl)
      exact iff_of_false (by simp) (not_forall_isWholeDepth rest hc (by simp))
  | case8 _ _ _ _ rest _ hbegin =>
      have hfront : front ++ [] ≠ [] := by simpa using mt hstart.1 hbegin
      exact iff_of_false (by simp) (not_forall_isWholeDepth rest (by simpa using hamid.slash) hfront)
  | case9 _ _ _ _ rest _ hdouble ih =>
      have hnext : rest.head? ≠ some '*' := fun h => by
        obtain ⟨more, hmore⟩ := List.head?_eq_some_iff.1 h
        exact hdouble more hmore
      have hmore := ih (by simp) (hamid.concat (by decide) fun _ => hnext) (by simpa using hfuel) (by simp_all)
      rwa [List.append_assoc] at hmore
  | case10 => simp at hopen
  | case11 => simp at hopen
  | case12 _ _ _ _ c rest _ _ _ hstar _ ih =>
      have hfuel' : rest.length ≤ _ := Nat.le_of_succ_le_succ hfuel
      by_cases hc : c = '/'
      · subst hc
        have hmore := ih (by simp) (.nil rest) hfuel' (by simp_all)
        rw [hamid.splitOn_slash, List.forall_mem_cons]
        exact hmore.trans (and_iff_right hamid.isWholeDepth).symm
      · have hmore := ih (by simp [hc]) (hamid.concat hc fun h => (hstar h).elim) hfuel' (by simp_all)
        rwa [List.append_assoc] at hmore

/-- A text without brackets is a pattern just if two stars in a row are always a whole step. -/
theorem exists_parse_ok_iff {source : List Char} (hopen : '[' ∉ source) :
    (∃ p, parse source = .ok p) ↔ ∀ step ∈ source.splitOn '/', IsWholeDepth step := by
  have hread : (∃ ts, tokensOf source = .ok ts) ↔ ∀ step ∈ source.splitOn '/', IsWholeDepth step :=
    exists_parseFrom_ok_iff (iff_of_true rfl (.inl rfl)) (.nil source) (Nat.le_refl _) hopen
  rw [← hread]
  constructor
  · rintro ⟨p, hp⟩
    exact ⟨p.tokens, source_of_parse hp ▸ p.read⟩
  · rintro ⟨ts, hts⟩
    rw [parse]
    split
    · exact ⟨_, rfl⟩
    · rename_i hfault
      cases hts.symm.trans hfault

end ImageBuild.Glob
