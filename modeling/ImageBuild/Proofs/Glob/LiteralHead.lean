import ImageBuild.Glob.Matching

/-!
# Literal heads

The characters in front of a pattern's first wildcard stand at the front of
every path that the pattern admits, and a pattern without wildcards admits its
own text alone.  Both are facts about reading: a character that is no wildcard
is read as the token that admits just this character.
-/

namespace ImageBuild.Glob

theorem literalHead_cons_of_wildcard {c : Char} (hc : isWildcard c = true) (cs : List Char) :
    literalHead (c :: cs) = [] := by
  simp [literalHead, hc]

theorem literalHead_cons_of_literal {c : Char} (hc : isWildcard c = false) (cs : List Char) :
    literalHead (c :: cs) = c :: literalHead cs := by
  simp [literalHead, hc]

/-- Tokens respect a text: what they match begins with its literal head, and is
the text itself if it has no wildcard. -/
def Respects (source : List Char) (ts : List Token) : Prop :=
  ∀ path, matchTokens ts path = true →
    literalHead source <+: path ∧ (source.any isWildcard = false → path = source)

theorem respects_nil : Respects [] [] := by
  intro path h
  have hpath : path = [] := by simpa [matchTokens] using h
  exact ⟨List.nil_prefix, fun _ => hpath⟩

theorem respects_of_wildcard {c : Char} (hc : isWildcard c = true) (cs : List Char)
    (ts : List Token) : Respects (c :: cs) ts := by
  intro path _
  rw [literalHead_cons_of_wildcard hc]
  refine ⟨List.nil_prefix, fun hnone => ?_⟩
  simp [hc] at hnone

theorem respects_cons_char {c : Char} (hc : isWildcard c = false) {cs : List Char}
    {ts : List Token} (h : Respects cs ts) : Respects (c :: cs) (.char c :: ts) := by
  intro path hpath
  cases path with
  | nil => simp [matchTokens] at hpath
  | cons d path =>
      obtain ⟨rfl, hrest⟩ : d = c ∧ matchTokens ts path = true := by
        simpa [matchTokens, Token.admits] using hpath
      obtain ⟨hhead, hwhole⟩ := h path hrest
      rw [literalHead_cons_of_literal hc]
      refine ⟨List.cons_prefix_cons.2 ⟨rfl, hhead⟩, fun hnone => ?_⟩
      rw [hwhole (by simpa [hc] using hnone)]

theorem pushDepth_eq_append (read : List Token) :
    ∃ more, (pushDepth read).reverse = read.reverse ++ more := by
  rw [pushDepth]
  split
  · exact ⟨[], by simp⟩
  · exact ⟨[.anyDepth], by simp⟩

theorem parseFrom_eq_append {fuel position : Nat} {before : Option Char} {read ts : List Token}
    {cs : List Char} (h : parseFrom fuel position before read cs = .ok ts) :
    ∃ more, ts = read.reverse ++ more := by
  fun_induction parseFrom fuel position before read cs with
  | case1 => exact ⟨[], by simpa using (Except.ok.inj h).symm⟩
  | case2 => exact ⟨[], by simpa using (Except.ok.inj h).symm⟩
  | case3 _ _ read _ _ ih =>
      obtain ⟨more, rfl⟩ := ih h
      exact ⟨.anyChar :: more, by simp⟩
  | case5 _ _ read =>
      obtain ⟨more, hmore⟩ := pushDepth_eq_append read
      exact ⟨more, by rw [← Except.ok.inj h, hmore]⟩
  | case6 _ _ read _ _ _ _ ih =>
      obtain ⟨more, rfl⟩ := ih h
      obtain ⟨depth, hdepth⟩ := pushDepth_eq_append read
      exact ⟨depth ++ more, by rw [hdepth, List.append_assoc]⟩
  | case9 _ _ read _ _ _ _ ih =>
      obtain ⟨more, rfl⟩ := ih h
      exact ⟨.anySequence :: more, by simp⟩
  | case10 _ _ read _ _ token _ _ ih =>
      obtain ⟨more, rfl⟩ := ih h
      exact ⟨token :: more, by simp⟩
  | case12 _ _ read _ c _ _ _ _ _ _ ih =>
      obtain ⟨more, rfl⟩ := ih h
      exact ⟨.char c :: more, by simp⟩
  | _ => cases h

theorem parseFrom_literal {c : Char} (hc : isWildcard c = false) (fuel position : Nat)
    (before : Option Char) (read : List Token) (cs : List Char) :
    parseFrom (fuel + 1) position before read (c :: cs) =
      parseFrom fuel (position + 1) (some c) (.char c :: read) cs := by
  obtain ⟨⟨hstar, hmark⟩, hopen⟩ : (c ≠ '*' ∧ c ≠ '?') ∧ c ≠ '[' := by
    simpa [isWildcard] using hc
  rw [parseFrom] <;> simp_all

/-- The tokens that reading adds respect the text that is left. -/
theorem parseFrom_respects {fuel position : Nat} {before : Option Char} {read ts : List Token}
    {cs : List Char} (h : parseFrom fuel position before read cs = .ok ts)
    (hfuel : cs.length ≤ fuel) :
    ∃ more, ts = read.reverse ++ more ∧ Respects cs more := by
  induction cs generalizing fuel position before read with
  | nil =>
      have hts : ts = read.reverse := by simpa [parseFrom] using h.symm
      exact ⟨[], by simpa using hts, respects_nil⟩
  | cons c cs ih =>
      cases hc : isWildcard c with
      | true =>
          obtain ⟨more, hmore⟩ := parseFrom_eq_append h
          exact ⟨more, hmore, respects_of_wildcard hc cs more⟩
      | false =>
          obtain ⟨fuel, rfl⟩ : ∃ n, fuel = n + 1 :=
            Nat.exists_eq_succ_of_ne_zero (by simp at hfuel; omega)
          rw [parseFrom_literal hc] at h
          obtain ⟨more, hmore, hrespects⟩ := ih h (by simpa using hfuel)
          exact ⟨.char c :: more, by simpa using hmore, respects_cons_char hc hrespects⟩

namespace Pattern

theorem respects (p : Pattern) : Respects p.source p.tokens := by
  obtain ⟨more, hmore, hrespects⟩ := parseFrom_respects p.read (Nat.le_refl _)
  rwa [hmore, List.reverse_nil, List.nil_append]

/-- What a pattern admits begins with the characters in front of its first
wildcard. -/
theorem literalHead_isPrefix {p : Pattern} {path : List Char} (h : p.admits path = true) :
    p.literalHead <+: path :=
  (p.respects path (p.admits_eq path ▸ h)).1

theorem eq_source_of_admits {p : Pattern} {path : List Char} (h : p.admits path = true)
    (hnone : p.hasWildcard = false) : path = p.source :=
  (p.respects path (p.admits_eq path ▸ h)).2 hnone

end Pattern

end ImageBuild.Glob
