import ImageBuild.Proofs.Ignore.Keeping
import Mathlib.Data.List.Forall2
import Mathlib.Logic.Relation
/-!
# Spellings of a pattern

The steps of a pattern are taken one by one, and at any time they lead up first and then down by names: a `..` takes
back a name, and stays where there is none.  So what is left is a normal form, which nothing is to be taken out of.
And as taking a step forgets only what leads nowhere, two patterns have the same normal form just if one is a spelling
of the other.
-/

namespace ImageBuild.Ignore

open ImageBuild.Path (IsNamePiece isNamePiece_iff)

/-- A step of a pattern that has a name. -/
structure IsStepName (s : List Char) : Prop where
  name : IsNamePiece s
  slash : '/' ∉ s
  backslash : '\\' ∉ s

/-- A dot, or steps with a slash between each two, the first of which lead up and all others down. -/
inductive IsNormal : List Char → Prop
  | here : IsNormal ['.']
  | steps {climbs : Nat} {names : List (List Char)} (hne : 0 < climbs + names.length)
      (hnames : ∀ s ∈ names, IsStepName s) :
      IsNormal (['/'].intercalate (List.replicate climbs ['.', '.'] ++ names))

variable {taken pieces steps : List (List Char)} {piece front idle cs ds : List Char}

/-! ## Taking a step -/

theorem pushStep_idle (h : piece = [] ∨ piece = ['.']) (taken : List (List Char)) :
    pushStep taken piece = taken := by
  simp [pushStep, h]

theorem pushStep_name (h : IsNamePiece piece) (taken : List (List Char)) :
    pushStep taken piece = piece :: taken :=
  @foldl_pushStep [piece] (by simpa using h) taken

theorem pushStep_up_name (h : piece ≠ ['.', '.']) (taken : List (List Char)) :
    pushStep (piece :: taken) ['.', '.'] = taken := by
  simp [pushStep, h]

theorem pushStep_up_climbs (climbs : Nat) :
    pushStep (List.replicate climbs ['.', '.']) ['.', '.'] = List.replicate (climbs + 1) ['.', '.'] := by
  cases climbs <;> simp [pushStep, List.replicate_succ]

theorem foldl_pushStep_climbs (climbs : Nat) :
    (List.replicate climbs ['.', '.']).foldl pushStep [] = List.replicate climbs ['.', '.'] := by
  induction climbs with
  | zero => rfl
  | succ climbs ih =>
      rw [List.replicate_succ', List.foldl_append, ih, List.foldl_cons, List.foldl_nil, pushStep_up_climbs,
        List.replicate_succ']

theorem piece_cases (piece : List Char) :
    (piece = [] ∨ piece = ['.']) ∨ piece = ['.', '.'] ∨ IsNamePiece piece := by
  rw [isNamePiece_iff]
  by_cases hidle : piece = [] ∨ piece = ['.']
  · exact .inl hidle
  · rw [not_or] at hidle
    by_cases hup : piece = ['.', '.']
    · exact .inr (.inl hup)
    · exact .inr (.inr ⟨hidle.1, hidle.2, hup⟩)

/-- Steps that were taken, the latest first. -/
def Stacked (taken : List (List Char)) : Prop :=
  ∃ names climbs, taken = names ++ List.replicate climbs ['.', '.'] ∧ ∀ s ∈ names, IsStepName s

theorem stacked_nil : Stacked [] := ⟨[], 0, rfl, by simp⟩

theorem IsStepName.ne_up (h : IsStepName piece) : piece ≠ ['.', '.'] := (isNamePiece_iff.1 h.name).2.2

theorem Stacked.pushStep (h : Stacked taken) (hslash : '/' ∉ piece) (hbackslash : '\\' ∉ piece) :
    Stacked (pushStep taken piece) := by
  rcases piece_cases piece with hidle | rfl | hname
  · rwa [pushStep_idle hidle]
  · obtain ⟨names, climbs, rfl, hnames⟩ := h
    cases names with
    | nil => exact ⟨[], climbs + 1, pushStep_up_climbs climbs, by simp⟩
    | cons latest names =>
        have hlatest := (hnames latest List.mem_cons_self).ne_up
        exact ⟨names, climbs, pushStep_up_name hlatest _, fun s hs => hnames s (List.mem_cons_of_mem latest hs)⟩
  · obtain ⟨names, climbs, rfl, hnames⟩ := h
    refine ⟨piece :: names, climbs, pushStep_name hname _, fun s hs => ?_⟩
    rcases List.mem_cons.1 hs with rfl | hs
    · exact ⟨hname, hslash, hbackslash⟩
    · exact hnames s hs

theorem Stacked.foldl (h : Stacked taken) (hpieces : ∀ s ∈ pieces, '/' ∉ s ∧ '\\' ∉ s) :
    Stacked (pieces.foldl Ignore.pushStep taken) := by
  induction pieces generalizing taken with
  | nil => exact h
  | cons piece rest ih =>
      obtain ⟨hslash, hbackslash⟩ := hpieces piece List.mem_cons_self
      exact ih (h.pushStep hslash hbackslash) fun s hs => hpieces s (List.mem_cons_of_mem piece hs)

/-! ## Taking the steps of a pattern -/

/-- A pattern with slashes of one kind. -/
def slashed (cs : List Char) : List Char := cs.map fun c => if c = '\\' then '/' else c

/-- The steps that are taken after those of a pattern, in addition to earlier ones. -/
def stepsAfter (taken : List (List Char)) (cs : List Char) : List (List Char) :=
  ((slashed cs).splitOn '/').foldl pushStep taken

theorem clean_eq (cs : List Char) : clean cs = joinSteps (stepsAfter [] cs).reverse := rfl

theorem slashed_append (cs ds : List Char) : slashed (cs ++ ds) = slashed cs ++ slashed ds := List.map_append

theorem slashed_eq_self (h : '\\' ∉ cs) : slashed cs = cs := by
  rw [slashed, List.map_congr_left fun c hc => if_neg fun heq : c = '\\' => h (heq ▸ hc), List.map_id']

theorem backslash_notMem_slashed (cs : List Char) : '\\' ∉ slashed cs := by
  intro hmem
  obtain ⟨c, -, hc⟩ := List.mem_map.1 hmem
  split_ifs at hc with hslash
  · cases hc
  · exact hslash hc

theorem notMem_pieces (cs : List Char) : ∀ s ∈ (slashed cs).splitOn '/', '/' ∉ s ∧ '\\' ∉ s := by
  intro s hs
  refine ⟨Text.notMem_of_mem_splitOn hs, fun hmem => ?_⟩
  exact backslash_notMem_slashed cs (Text.mem_of_mem_splitOn hs hmem)

theorem stacked_stepsAfter (cs : List Char) : Stacked (stepsAfter [] cs) :=
  stacked_nil.foldl (notMem_pieces cs)

/-! ## Normal forms -/

theorem isNormal_clean (cs : List Char) : IsNormal (clean cs) := by
  obtain ⟨names, climbs, htaken, hnames⟩ := stacked_stepsAfter cs
  rw [clean_eq, htaken, List.reverse_append, List.reverse_replicate, joinSteps]
  split_ifs with hnil
  · exact .here
  · refine .steps ?_ fun s hs => hnames s (List.mem_reverse.1 hs)
    have hpos := List.length_pos_iff.2 hnil
    rwa [List.length_append, List.length_replicate] at hpos

theorem notMem_intercalate {x c : Char} (hc : c ≠ x) (h : ∀ s ∈ steps, c ∉ s) : c ∉ [x].intercalate steps := by
  rcases List.eq_nil_or_concat steps with rfl | ⟨front, last, rfl⟩
  · simp
  · rw [List.concat_eq_append] at h ⊢
    rw [Text.intercalate_append_singleton]
    simp only [List.mem_append, List.mem_flatMap, List.mem_singleton]
    rintro (⟨s, hs, hmem | rfl⟩ | hmem)
    · exact h s (List.mem_append_left _ hs) hmem
    · exact hc rfl
    · exact h last (by simp) hmem

theorem IsNormal.clean_eq_self (h : IsNormal cs) : clean cs = cs := by
  cases h with
  | here => rfl
  | @steps climbs names hne hnames =>
      have hchars : ∀ s ∈ List.replicate climbs ['.', '.'] ++ names, '/' ∉ s ∧ '\\' ∉ s := by
        intro s hs
        rcases List.mem_append.1 hs with hs | hs
        · rw [List.eq_of_mem_replicate hs]
          decide
        · exact ⟨(hnames s hs).slash, (hnames s hs).backslash⟩
      have hnil : List.replicate climbs ['.', '.'] ++ names ≠ [] := by
        rw [← List.length_pos_iff, List.length_append, List.length_replicate]
        exact hne
      have hbackslash := notMem_intercalate (x := '/') (by decide) fun s hs => (hchars s hs).2
      rw [clean_eq, stepsAfter, slashed_eq_self hbackslash,
        List.splitOn_intercalate '/' (fun s hs => (hchars s hs).1) hnil, List.foldl_append,
        foldl_pushStep_climbs, foldl_pushStep fun s hs => (hnames s hs).name, List.reverse_append,
        List.reverse_reverse, List.reverse_replicate, joinSteps, if_neg hnil]

theorem clean_eq_self_iff : clean cs = cs ↔ IsNormal cs :=
  ⟨fun h => h ▸ isNormal_clean cs, IsNormal.clean_eq_self⟩

/-! ## Spellings -/

/-- A step begins behind this text. -/
def AtStep (front : List Char) : Prop := ∀ c, front.getLast? = some c → c = '/' ∨ c = '\\'

/-- Text that leads nowhere, put in where a step begins. -/
inductive Idle : List Char → Prop
  | here : Idle ['.', '/']
  | slash : Idle ['/']
  | detour {name : List Char} (h : IsStepName name) : Idle (name ++ ['/', '.', '.', '/'])

inductive Rewritten : List Char → List Char → Prop
  | slash (front back : List Char) : Rewritten (front ++ '/' :: back) (front ++ '\\' :: back)
  | within {front idle : List Char} (hfront : AtStep front) (hidle : Idle idle) (back : List Char) :
      Rewritten (front ++ back) (front ++ (idle ++ back))
  | behind (front : List Char) : Rewritten front (front ++ ['/'])

/-- One pattern comes from the other by changing slashes for backslashes, and by putting text in that leads nowhere,
or by taking this back. -/
def Respelled : List Char → List Char → Prop := Relation.EqvGen Rewritten

theorem slashed_cons_slash (cs : List Char) : slashed ('/' :: cs) = '/' :: slashed cs := rfl

theorem slashed_cons_backslash (cs : List Char) : slashed ('\\' :: cs) = '/' :: slashed cs := rfl

theorem stepsAfter_behind (front : List Char) (taken : List (List Char)) :
    stepsAfter taken (front ++ ['/']) = stepsAfter taken front := by
  rw [stepsAfter, slashed_append, slashed_cons_slash, List.splitOn_append_cons_self, List.foldl_append]
  exact pushStep_idle (.inl rfl) _

theorem stepsAfter_append (hfront : AtStep front) (back : List Char) (taken : List (List Char)) :
    stepsAfter taken (front ++ back) = stepsAfter (stepsAfter taken front) back := by
  rcases List.eq_nil_or_concat front with rfl | ⟨before, c, rfl⟩
  · exact congrArg (stepsAfter · back) (pushStep_idle (.inl rfl) taken).symm
  · rw [List.concat_eq_append] at hfront ⊢
    have hc : slashed [c] = ['/'] := by
      rcases hfront c (by simp) with rfl | rfl <;> rfl
    have hbefore : stepsAfter taken (before ++ [c]) = stepsAfter taken before := by
      rw [← stepsAfter_behind before, stepsAfter, stepsAfter, slashed_append, slashed_append, hc]
      rfl
    rw [hbefore, stepsAfter, slashed_append, slashed_append, hc, List.append_assoc, List.singleton_append,
      List.splitOn_append_cons_self, List.foldl_append]
    rfl

theorem Idle.atStep (h : Idle idle) : AtStep idle := by
  cases h <;> simp [AtStep]

theorem Idle.stepsAfter_eq (h : Idle idle) (taken : List (List Char)) : stepsAfter taken idle = taken := by
  cases h with
  | here => rfl
  | slash => rfl
  | @detour name h =>
      have hpieces : (slashed (name ++ ['/', '.', '.', '/'])).splitOn '/' = [name, ['.', '.'], []] := by
        rw [slashed_append, slashed_eq_self h.backslash, slashed_cons_slash, List.splitOn_append_cons_self,
          List.splitOn_eq_singleton h.slash]
        rfl
      rw [stepsAfter, hpieces, List.foldl_cons, pushStep_name h.name, List.foldl_cons, pushStep_up_name h.ne_up]
      exact pushStep_idle (.inl rfl) taken

theorem Rewritten.stepsAfter_eq (h : Rewritten cs ds) (taken : List (List Char)) :
    stepsAfter taken cs = stepsAfter taken ds := by
  cases h with
  | slash front back =>
      rw [stepsAfter, stepsAfter, slashed_append, slashed_append, slashed_cons_slash, slashed_cons_backslash]
  | within hfront hidle back =>
      rw [stepsAfter_append hfront, stepsAfter_append hfront, stepsAfter_append hidle.atStep, hidle.stepsAfter_eq]
  | behind front => exact (stepsAfter_behind cs taken).symm

theorem Respelled.clean_eq (h : Respelled cs ds) : clean cs = clean ds := by
  induction h with
  | rel cs ds h => rw [Ignore.clean_eq, Ignore.clean_eq, h.stepsAfter_eq]
  | refl cs => rfl
  | symm cs ds _ ih => exact ih.symm
  | trans cs ds es _ _ ihc ihd => exact ihc.trans ihd

/-! ## A pattern is a spelling of its normal form -/

theorem respelled_slashed (front cs : List Char) : Respelled (front ++ cs) (front ++ slashed cs) := by
  induction cs generalizing front with
  | nil => exact .refl _
  | cons c cs ih =>
      by_cases hc : c = '\\'
      · subst hc
        have hrest := ih (front ++ ['/'])
        rw [List.append_assoc, List.append_assoc, List.singleton_append] at hrest
        exact .trans _ _ _ (.symm _ _ (.rel _ _ (.slash front cs))) hrest
      · have hrest := ih (front ++ [c])
        rw [slashed, List.map_cons, if_neg hc]
        rwa [List.append_assoc, List.append_assoc, List.singleton_append] at hrest

/-- Steps with a slash behind each. -/
def closed (steps : List (List Char)) : List Char := steps.flatMap (· ++ ['/'])

theorem closed_append (steps rest : List (List Char)) : closed (steps ++ rest) = closed steps ++ closed rest :=
  List.flatMap_append

theorem closed_cons (s : List Char) (steps : List (List Char)) : closed (s :: steps) = s ++ '/' :: closed steps := by
  rw [closed, List.flatMap_cons, List.append_assoc]
  rfl

theorem closed_reverse_cons (s : List Char) (steps : List (List Char)) :
    closed (s :: steps).reverse = closed steps.reverse ++ (s ++ ['/']) := by
  rw [List.reverse_cons, closed_append, closed_cons]
  rfl

theorem atStep_closed (steps : List (List Char)) : AtStep (closed steps) := by
  rcases List.eq_nil_or_concat steps with rfl | ⟨front, last, rfl⟩
  · simp [AtStep, closed]
  · simp [AtStep, closed]

theorem respelled_closed (hne : steps ≠ []) : Respelled (['/'].intercalate steps) (closed steps) := by
  obtain ⟨front, last, rfl⟩ := List.eq_nil_or_concat steps |>.resolve_left hne
  rw [List.concat_eq_append, Text.intercalate_append_singleton, closed_append, closed_cons, ← List.append_assoc]
  exact .rel _ _ (.behind _)

/-- What is left of a pattern after a step is a spelling of what it was before. -/
theorem Stacked.respelled_pushStep (h : Stacked taken) (hslash : '/' ∉ piece) (hbackslash : '\\' ∉ piece)
    (rest : List Char) :
    Respelled (closed taken.reverse ++ (piece ++ '/' :: rest))
      (closed (Ignore.pushStep taken piece).reverse ++ rest) := by
  -- A step that is put on the others is there before and after.
  have hput : closed (piece :: taken).reverse ++ rest = closed taken.reverse ++ (piece ++ '/' :: rest) := by
    rw [closed_reverse_cons, List.append_assoc, List.append_assoc, List.singleton_append]
  rcases piece_cases piece with hidle | rfl | hname
  · rw [pushStep_idle hidle]
    have hclosed : Idle (piece ++ ['/']) := by
      rcases hidle with rfl | rfl
      · exact .slash
      · exact .here
    have hwithin := Rewritten.within (atStep_closed taken.reverse) hclosed rest
    rw [List.append_assoc, List.singleton_append] at hwithin
    exact .symm _ _ (.rel _ _ hwithin)
  · obtain ⟨names, climbs, rfl, hnames⟩ := h
    cases names with
    | nil =>
        rw [List.nil_append] at hput ⊢
        rw [pushStep_up_climbs, List.replicate_succ, hput]
        exact .refl _
    | cons latest names =>
        have hlatest := hnames latest List.mem_cons_self
        rw [List.cons_append, pushStep_up_name hlatest.ne_up, closed_reverse_cons]
        have hwithin := Rewritten.within
          (atStep_closed (names ++ List.replicate climbs ['.', '.']).reverse) (.detour hlatest) rest
        simp only [List.append_assoc, List.cons_append, List.nil_append] at hwithin ⊢
        exact .symm _ _ (.rel _ _ hwithin)
  · rw [pushStep_name hname, hput]
    exact .refl _

theorem Stacked.respelled_foldl (h : Stacked taken) (hpieces : ∀ s ∈ pieces, '/' ∉ s ∧ '\\' ∉ s) :
    Respelled (closed taken.reverse ++ closed pieces) (closed (pieces.foldl Ignore.pushStep taken).reverse) := by
  induction pieces generalizing taken with
  | nil =>
      rw [closed, closed, List.flatMap_nil, List.append_nil]
      exact .refl _
  | cons piece rest ih =>
      obtain ⟨hslash, hbackslash⟩ := hpieces piece List.mem_cons_self
      have hrest := ih (h.pushStep hslash hbackslash) fun s hs => hpieces s (List.mem_cons_of_mem piece hs)
      rw [closed_cons]
      exact .trans _ _ _ (h.respelled_pushStep hslash hbackslash (closed rest)) hrest

theorem respelled_joinSteps (steps : List (List Char)) : Respelled (closed steps) (joinSteps steps) := by
  rw [joinSteps]
  split_ifs with hnil
  · subst hnil
    have hhere : Respelled [] ['.', '/'] := .rel _ _ (@Rewritten.within [] _ (by simp [AtStep]) .here [])
    exact .trans _ _ _ hhere (.symm _ _ (.rel _ _ (.behind ['.'])))
  · exact .symm _ _ (respelled_closed hnil)

theorem respelled_clean (cs : List Char) : Respelled cs (clean cs) := by
  have hclosed := respelled_closed (List.splitOn_ne_nil '/' (slashed cs))
  rw [List.intercalate_splitOn] at hclosed
  have hsteps := stacked_nil.respelled_foldl (notMem_pieces cs)
  have htext : Respelled cs (closed (stepsAfter [] cs).reverse) :=
    .trans _ _ _ (respelled_slashed [] cs) (.trans _ _ _ hclosed hsteps)
  exact .trans _ _ _ htext (respelled_joinSteps _)

theorem clean_eq_clean_iff : clean cs = clean ds ↔ Respelled cs ds := by
  refine ⟨fun h => ?_, Respelled.clean_eq⟩
  have hds := respelled_clean ds
  rw [← h] at hds
  exact .trans _ _ _ (respelled_clean cs) (.symm _ _ hds)

/-! ## Lines -/

variable {line line' : List Char} {content content' : String}

theorem ofLine_of_ok {pattern : Glob.Pattern} (h : Glob.parse (clean (splitNegation line).2) = .ok pattern) :
    Rule.ofLine line = .ok ⟨pattern, (splitNegation line).1⟩ := by
  rw [Rule.ofLine]
  simp only [h]

theorem ofLine_of_error {fault : Glob.Fault} (h : Glob.parse (clean (splitNegation line).2) = .error fault) :
    Rule.ofLine line = .error ⟨line, fault⟩ := by
  rw [Rule.ofLine]
  simp only [h]

theorem ofLine_respelled (h : Respelled (splitNegation line).2 (splitNegation line').2) :
    (∃ pattern, Rule.ofLine line = .ok ⟨pattern, (splitNegation line).1⟩ ∧
        Rule.ofLine line' = .ok ⟨pattern, (splitNegation line').1⟩) ∨
      ∃ fault, Rule.ofLine line = .error ⟨line, fault⟩ ∧ Rule.ofLine line' = .error ⟨line', fault⟩ := by
  have hclean := h.clean_eq
  cases hparse : Glob.parse (clean (splitNegation line).2) with
  | ok pattern => exact .inl ⟨pattern, ofLine_of_ok hparse, ofLine_of_ok (hclean ▸ hparse)⟩
  | error fault => exact .inr ⟨fault, ofLine_of_error hparse, ofLine_of_error (hclean ▸ hparse)⟩

/-- Two lines that differ in how their patterns are spelled. -/
structure Alike (line line' : List Char) : Prop where
  negation : (splitNegation line).1 = (splitNegation line').1
  body : Respelled (splitNegation line).2 (splitNegation line').2

theorem mapM_ofLine_alike {lines lines' : List (List Char)} (h : List.Forall₂ Alike lines lines') :
    (lines.mapM Rule.ofLine).mapError Fault.fault = (lines'.mapM Rule.ofLine).mapError Fault.fault := by
  induction h with
  | nil => rfl
  | @cons line line' lines lines' hline _ ih =>
      obtain ⟨pattern, hrule, hrule'⟩ | ⟨fault, hrule, hrule'⟩ := ofLine_respelled hline.body
      · rw [List.mapM_cons, List.mapM_cons, hrule, hrule', hline.negation]
        cases hrest : lines.mapM Rule.ofLine <;> cases hrest' : lines'.mapM Rule.ofLine <;>
          simp_all [bind, Except.bind, pure, Except.pure, Except.mapError]
      · rw [List.mapM_cons, List.mapM_cons, hrule, hrule']
        rfl

/-- The lines of an ignore file that are rules. -/
def ruleLines (content : String) : List (List Char) :=
  (((Text.linesOfChars content.toList).filter fun line => line.head? ≠ some '#').map Text.trimChars).filter
    fun line => !line.isEmpty

theorem parse_alike (h : List.Forall₂ Alike (ruleLines content) (ruleLines content')) :
    (Rules.parse content).mapError Fault.fault = (Rules.parse content').mapError Fault.fault :=
  mapM_ofLine_alike h

/-- What is left of a pattern is a normal form, of which nothing more is taken, and it is all that the spelling of the
pattern decides.  So lines that differ in the spelling of their patterns are the same rules, or are at fault alike,
and two files of such lines decide about every path alike. -/
theorem clean_normalForm :
    (∀ cs, IsNormal (clean cs) ∧ clean (clean cs) = clean cs ∧ (clean cs = cs ↔ IsNormal cs)) ∧
      (∀ cs ds, clean cs = clean ds ↔ Respelled cs ds) ∧
      (∀ line line', Respelled (splitNegation line).2 (splitNegation line').2 →
        (∃ pattern, Rule.ofLine line = .ok ⟨pattern, (splitNegation line).1⟩ ∧
            Rule.ofLine line' = .ok ⟨pattern, (splitNegation line').1⟩) ∨
          ∃ fault, Rule.ofLine line = .error ⟨line, fault⟩ ∧ Rule.ofLine line' = .error ⟨line', fault⟩) ∧
      ∀ content content', List.Forall₂ Alike (ruleLines content) (ruleLines content') →
        (Rules.parse content).mapError Fault.fault = (Rules.parse content').mapError Fault.fault ∧
          ∀ rules rules', Rules.parse content = .ok rules → Rules.parse content' = .ok rules' →
            ∀ path, rules.isIgnored path = rules'.isIgnored path := by
  refine ⟨fun cs => ⟨isNormal_clean cs, (isNormal_clean cs).clean_eq_self, clean_eq_self_iff⟩,
    fun cs ds => clean_eq_clean_iff, fun line line' => ofLine_respelled, fun content content' h => ?_⟩
  have hparse := parse_alike h
  refine ⟨hparse, fun rules rules' hrules hrules' path => ?_⟩
  rw [hrules, hrules'] at hparse
  cases hparse
  rfl

theorem clean_normalForm_detour :
    List.Forall₂ Alike (ruleLines "tmp\n!./src//gen/\n") (ruleLines "/tmp\r\n\n!  src\\lib/../gen") ∧
      ∃ rules, Rules.parse "tmp\n!./src//gen/\n" = .ok rules ∧
        (Rules.parse "/tmp\r\n\n!  src\\lib/../gen").mapError Fault.fault = .ok rules := by
  obtain ⟨-, hspelling, -, hfiles⟩ := clean_normalForm
  have hlines : List.Forall₂ Alike (ruleLines "tmp\n!./src//gen/\n") (ruleLines "/tmp\r\n\n!  src\\lib/../gen") := by
    have hrows : ruleLines "tmp\n!./src//gen/\n" = ["tmp".toList, "!./src//gen/".toList] := by decide
    have hrows' : ruleLines "/tmp\r\n\n!  src\\lib/../gen" = ["/tmp".toList, "!  src\\lib/../gen".toList] := by decide
    rw [hrows, hrows']
    exact .cons ⟨by decide, (hspelling _ _).1 (by decide)⟩ (.cons ⟨by decide, (hspelling _ _).1 (by decide)⟩ .nil)
  refine ⟨hlines, ?_⟩
  have halike := (hfiles _ _ hlines).1
  have hok : (Rules.parse "tmp\n!./src//gen/\n").toOption.isSome = true := by cbv
  cases hparse : Rules.parse "tmp\n!./src//gen/\n" with
  | error fault => simp [hparse, Except.toOption] at hok
  | ok rules =>
      rw [hparse] at halike
      exact ⟨rules, rfl, halike.symm⟩

end ImageBuild.Ignore
