import ImageBuild.Solve.Exchange
import Mathlib.Tactic.SplitIfs
/-!
# What a session comes to

Whatever order the turns come in, no news are lost on their way to the reader and none come twice, and
what the session comes to depends on whether the daemon's part was stopped and on nothing else.  A turn of
either party keeps this.  A turn that does something leaves less to do, and in every round of turns some
party can do something, so that a session ends after as many rounds as there is something to do.
-/

namespace ImageBuild.Solve

variable {talk : Talk} {x : Exchange}

theorem Talk.firstFault_append (before front back : List Event) :
    talk.firstFault before (front ++ back) =
      (talk.firstFault before front <|> talk.firstFault (before ++ front) back) := by
  induction front generalizing before with
  | nil => simp [firstFault]
  | cons e front ih =>
      rw [List.cons_append, firstFault, firstFault, ih, List.append_assoc, List.singleton_append]
      cases talk.fault before e <;> rfl

/-! ## What a session may come to -/

/-- Events go to the screen one after the other, and this is the first fault that one of them meets. -/
inductive Talk.Meets (talk : Talk) (events : List Event) : Option IoError → Prop
  | nothing (hshown : ∀ before e after, events = before ++ e :: after → talk.fault before e = none) :
      talk.Meets events none
  | fault {before after : List Event} {e : Event} {fault : IoError} (hevents : events = before ++ e :: after)
      (hfault : talk.fault before e = some fault)
      (hshown : ∀ front e' back, before = front ++ e' :: back → talk.fault front e' = none) :
      talk.Meets events (some fault)

/-- The end of the daemon's part and the first fault of the screen lead to this. -/
inductive LeadTo : Except BuildError SolveResponse → Option IoError → Except BuildError String → Prop
  | failed (e : BuildError) (fault : Option IoError) : LeadTo (.error e) fault (.error e)
  | unseen (response : SolveResponse) (fault : IoError) : LeadTo (.ok response) (some fault) (.error (.io fault))
  | built {response : SolveResponse} {image : String} (h : response.lookup "containerimage.digest" = some image) :
      LeadTo (.ok response) none (.ok image)
  | missing {response : SolveResponse} (h : response.lookup "containerimage.digest" = none) :
      LeadTo (.ok response) none (.error .missingImageId)

theorem Talk.eq_none_of_firstFault {before front back : List Event} {e : Event}
    (h : talk.firstFault before (front ++ e :: back) = none) : talk.fault (before ++ front) e = none := by
  rw [firstFault_append, firstFault, Option.orElse_eq_orElse, Option.orElse_eq_or, Option.or_eq_none_iff,
    Option.orElse_eq_or, Option.or_eq_none_iff] at h
  exact h.2.1

theorem Talk.exists_of_firstFault {before events : List Event} {fault : IoError}
    (h : talk.firstFault before events = some fault) :
    ∃ front e back, events = front ++ e :: back ∧ talk.fault (before ++ front) e = some fault ∧
      talk.firstFault before front = none := by
  induction events generalizing before with
  | nil => cases h
  | cons e events ih =>
      rw [firstFault] at h
      cases hfault : talk.fault before e with
      | some first =>
          rw [hfault] at h
          cases h
          exact ⟨[], e, events, rfl, by rwa [List.append_nil], rfl⟩
      | none =>
          rw [hfault] at h
          obtain ⟨front, e', back, rfl, hmeets, hshown⟩ := ih h
          refine ⟨e :: front, e', back, rfl, by rwa [List.append_assoc] at hmeets, ?_⟩
          rw [firstFault, hfault]
          exact hshown

theorem Talk.meets_firstFault (talk : Talk) (events : List Event) : talk.Meets events (talk.firstFault [] events) := by
  cases h : talk.firstFault [] events with
  | none =>
      refine .nothing fun before e after hevents => ?_
      rw [hevents] at h
      exact eq_none_of_firstFault h
  | some fault =>
      obtain ⟨before, e, after, hevents, hfault, hshown⟩ := exists_of_firstFault h
      refine .fault hevents hfault fun front e' back hbefore => ?_
      rw [hbefore] at hshown
      exact eq_none_of_firstFault hshown

theorem lookup_digestKey (response : SolveResponse) :
    (response.find? fun e => e.1 == digestKey).map Prod.snd = response.lookup "containerimage.digest" := by
  induction response with
  | nil => rfl
  | cons e response ih =>
      rw [List.find?_cons, List.lookup_cons, Bool.beq_comm, ← digestKey]
      cases digestKey == e.1
      · exact ih
      · rfl

theorem conclude_leadTo (ending : Except BuildError SolveResponse) (fault : Option IoError) :
    LeadTo ending fault (conclude ending fault) := by
  cases ending with
  | error e => exact .failed e fault
  | ok response =>
      cases fault with
      | some fault => exact .unseen response fault
      | none =>
          have hlookup := lookup_digestKey response
          simp only [conclude, bind, Except.bind]
          cases hfind : response.find? fun e => e.1 == digestKey with
          | none => exact .missing (by rw [← hlookup, hfind]; rfl)
          | some e => exact .built (by rw [← hlookup, hfind]; rfl)

namespace Exchange

/-! ## What every turn keeps -/

/-- All news are accounted for, and what was shown and met is what the news taken so far lead to. -/
structure Sound (talk : Talk) (x : Exchange) : Prop where
  news : talk.news = x.sent ++ x.unsent
  sent : x.sent = x.taken ++ x.held.toList
  shown : ∀ rest, Display.takeAll {} (x.taken ++ rest) = x.shown ++ x.display.takeAll rest
  fault : x.fault = talk.firstFault [] x.shown
  stopped : x.stopped → x.cancelled ∧ x.ended = some (.error .cancelled)
  finished : ∀ ending, x.ended = some ending → ¬x.stopped →
    x.unsent = [] ∧ talk.ending = some ending
  closed : x.isOver → x.ended.isSome ∧ x.held = none

theorem Sound.start (talk : Talk) : Sound talk { unsent := talk.news } where
  news := rfl
  sent := rfl
  shown := fun _ => rfl
  fault := rfl
  stopped := nofun
  finished := nofun
  closed := nofun

theorem Sound.cancel (h : Sound talk x) : Sound talk { x with cancelled := true } where
  news := h.news
  sent := h.sent
  shown := h.shown
  fault := h.fault
  stopped := fun hstopped => ⟨rfl, (h.stopped hstopped).2⟩
  finished := h.finished
  closed := h.closed

theorem Sound.send (h : Sound talk x) : Sound talk (x.send talk) := by
  rw [Exchange.send]
  split
  · exact h
  · rename_i hopen
    have hover : ¬x.isOver := fun hover => hopen (h.closed hover).1
    have hstopped : ¬x.stopped := fun hstopped => hopen (by rw [(h.stopped hstopped).2]; rfl)
    split
    · rename_i hcancelled
      exact { h with
        stopped := fun _ => ⟨hcancelled, rfl⟩
        finished := fun _ _ hnot => absurd rfl hnot
        closed := fun hx => absurd hx hover }
    · split
      · rename_i hunsent
        exact { h with
          stopped := fun hx => absurd hx hstopped
          finished := fun ending hending _ => ⟨hunsent, hending⟩
          closed := fun hx => absurd hx hover }
      · rename_i s rest hunsent hheld
        have hsent := h.sent
        exact { h with
          news := by rw [h.news, hunsent, List.append_assoc]; rfl
          sent := by simp [hsent, hheld]
          finished := fun ending hending _ => absurd (by rw [hending]; rfl) hopen
          closed := fun hx => absurd hx hover }
      · exact h

theorem Sound.read (h : Sound talk x) : Sound talk (x.read talk) := by
  rw [Exchange.read]
  split
  · rename_i hheld
    exact { h with closed := fun hended => ⟨hended, hheld⟩ }
  · rename_i s hheld
    have hover : ¬x.isOver := fun hover => by
      have := (h.closed hover).2
      rw [hheld] at this
      cases this
    exact { h with
      sent := by simp [h.sent, hheld]
      shown := fun rest => by
        rw [List.append_assoc, h.shown, List.singleton_append, Display.takeAll, List.append_assoc]
      fault := by rw [Talk.firstFault_append, ← h.fault, List.nil_append]
      closed := fun hx => absurd hx hover }

theorem Sound.act (h : Sound talk x) (p : Party) : Sound talk (x.act talk p) := by
  cases p with
  | caller => exact h.cancel
  | daemon => exact h.send
  | reader => exact h.read

theorem Sound.run (h : Sound talk x) (turns : List Party) :
    Sound talk (turns.foldl (Exchange.act talk) x) := by
  induction turns generalizing x with
  | nil => exact h
  | cons p turns ih => exact ih (h.act p)

theorem sound_play (talk : Talk) (turns : List Party) : Sound talk (talk.play turns) :=
  (Sound.start talk).run turns

namespace Sound

variable (h : Sound talk x) (hover : x.isOver)
include h hover

/-- Once the session is over, the reader has taken all that was sent. -/
theorem taken_eq_sent : x.taken = x.sent := by
  rw [h.sent, (h.closed hover).2, Option.toList_none, List.append_nil]

theorem shown_eq : x.shown = Display.takeAll {} x.sent := by
  have hshown := h.shown []
  rw [List.append_nil, Display.takeAll, List.append_nil] at hshown
  rw [← hshown, h.taken_eq_sent hover]

/-- A session that is over and was not stopped has sent everything. -/
theorem sent_eq_news (hstopped : ¬x.stopped) : x.sent = talk.news := by
  obtain ⟨ending, hending⟩ := Option.isSome_iff_exists.1 (h.closed hover).1
  rw [h.news, (h.finished ending hending hstopped).1, List.append_nil]

theorem result?_eq : x.result? = if x.stopped then some (.error .cancelled) else talk.outcome? := by
  obtain ⟨ending, hending⟩ := Option.isSome_iff_exists.1 (h.closed hover).1
  rw [result?, if_pos hover]
  split
  · rename_i hstopped
    rw [(h.stopped hstopped).2]
    rfl
  · rename_i hstopped
    obtain ⟨-, htalk⟩ := h.finished ending hending hstopped
    rw [hending, Talk.outcome?, htalk, h.fault, h.shown_eq hover, h.sent_eq_news hover hstopped]

end Sound

/-- What is true of a session at every moment, and of what it comes to. -/
structure Delivers (talk : Talk) (x : Exchange) : Prop where
  sent : x.sent ++ x.unsent = talk.news
  /-- Nothing is lost, nothing is taken twice, and the order is kept. -/
  taken : x.taken ++ x.held.toList = x.sent
  shown : x.shown = Display.takeAll {} x.taken
  /-- A session comes to something only when all that was sent has been taken. -/
  drained : x.result?.isSome → x.ended.isSome ∧ x.held = none ∧ x.taken = x.sent
  /-- In which order the turns came makes no difference. -/
  result : ∀ result, x.result? = some result →
    x.stopped ∧ x.cancelled ∧ result = .error .cancelled ∨
      ¬x.stopped ∧ x.sent = talk.news ∧ talk.outcome? = some result

theorem isOver_of_result?_isSome (h : x.result?.isSome) : x.isOver := by
  rw [result?] at h
  split at h
  · assumption
  · cases h

theorem Sound.result?_isSome (h : Sound talk x) (hover : x.isOver) : x.result?.isSome := by
  rw [result?, if_pos hover, Option.isSome_map]
  exact (h.closed hover).1

theorem Sound.delivers (h : Sound talk x) : Delivers talk x where
  sent := h.news.symm
  taken := h.sent.symm
  shown := by simpa [Display.takeAll] using (h.shown []).symm
  drained := fun hresult => by
    have hover := isOver_of_result?_isSome hresult
    exact ⟨(h.closed hover).1, (h.closed hover).2, h.taken_eq_sent hover⟩
  result := fun result hresult => by
    have hover := isOver_of_result?_isSome (by rw [hresult]; rfl)
    have heq := h.result?_eq hover
    rw [hresult] at heq
    by_cases hstopped : x.stopped
    · rw [if_pos hstopped] at heq
      exact .inl ⟨hstopped, (h.stopped hstopped).1, Option.some.inj heq⟩
    · rw [if_neg hstopped] at heq
      exact .inr ⟨hstopped, h.sent_eq_news hover hstopped, heq.symm⟩

/-! ## How a session comes to its end -/

theorem send_next {s : SolveStatus} {rest : List SolveStatus} (hended : x.ended = none)
    (hcancelled : x.cancelled = false) (hheld : x.held = none) (hunsent : x.unsent = s :: rest) :
    x.send talk = { x with unsent := rest, sent := x.sent ++ [s], held := some s } := by
  rw [send, hended, hcancelled]
  simp only [Option.isSome_none, Bool.false_eq_true, if_false, hunsent, hheld]

/-- How much there is to do: to send and to take what is unsent, to take what is in the channel, and for
each party to come to its end. -/
def toDo (x : Exchange) : Nat :=
  2 * x.unsent.length + x.held.toList.length + (if x.ended.isSome then 0 else 1) +
    (if x.isOver then 0 else 1)

theorem toDo_start (talk : Talk) :
    ({ unsent := talk.news } : Exchange).toDo = 2 * talk.news.length + 2 := rfl

theorem toDo_send_lt_or_eq (x : Exchange) : (x.send talk).toDo < x.toDo ∨ x.send talk = x := by
  rw [send]
  split
  · exact .inr rfl
  · rename_i hended
    split
    · exact .inl (by simp [toDo, hended])
    · split
      · rename_i hunsent
        cases talk.ending with
        | none =>
            have hnone : x.ended = none := by simpa using hended
            exact .inr (by rw [← hnone])
        | some ending => exact .inl (by simp [toDo, hended])
      · rename_i s rest hunsent hheld
        refine .inl ?_
        simp only [toDo, hunsent, hheld, List.length_cons, Option.toList_some, Option.toList_none,
          List.length_nil]
        omega
      · exact .inr rfl

theorem toDo_read_lt_or_eq (hsound : Sound talk x) :
    (x.read talk).toDo < x.toDo ∨ x.read talk = x := by
  rw [read]
  split
  · rename_i hheld
    by_cases hover : x.isOver
    · exact .inr (by rw [(hsound.closed hover).1, ← hover])
    · by_cases hended : x.ended.isSome
      · exact .inl (by simp [toDo, hended, hover])
      · have hsame : x.ended.isSome = x.isOver := by simp [hended, hover]
        exact .inr (by rw [hsame])
  · rename_i s hheld
    exact .inl (by simp [toDo, hheld])

/-- A turn does something, or it changes nothing but that the caller gives up. -/
theorem toDo_act_lt_or_eq (hsound : Sound talk x) (p : Party) :
    (x.act talk p).toDo < x.toDo ∨ x.act talk p = x ∨ x.act talk p = { x with cancelled := true } := by
  cases p with
  | caller => exact .inr (.inr rfl)
  | daemon => exact (toDo_send_lt_or_eq x).imp_right .inl
  | reader => exact (toDo_read_lt_or_eq hsound).imp_right .inl

/-- The daemon's part goes on while it is not over, the channel has room and the daemon does not hang; and
it is stopped in any case once the caller has given up. -/
theorem toDo_send_lt (hended : x.ended = none) (hheld : x.held = none)
    (hends : talk.ending.isSome ∨ x.cancelled) : (x.send talk).toDo < x.toDo := by
  refine (toDo_send_lt_or_eq x).resolve_right fun hsame => ?_
  have hsend : (x.send talk).ended = none ∧ (x.send talk).unsent = x.unsent := by
    rw [hsame]
    exact ⟨hended, rfl⟩
  by_cases hcancelled : x.cancelled
  · simp [send, hended, hcancelled] at hsend
  · have hending := hends.resolve_right hcancelled
    cases hunsent : x.unsent with
    | nil => simp [send, hended, hcancelled, hunsent] at hsend; simp [hsend] at hending
    | cons s rest => simp [send, hended, hcancelled, hunsent, hheld] at hsend

theorem toDo_read_lt (hsound : Sound talk x) (hover : ¬x.isOver)
    (hfull : x.held.isSome ∨ x.ended.isSome) : (x.read talk).toDo < x.toDo := by
  refine (toDo_read_lt_or_eq hsound).resolve_right fun hsame => ?_
  have hread : (x.read talk).held = x.held ∧ (x.read talk).isOver = x.isOver := by
    rw [hsame]
    exact ⟨rfl, rfl⟩
  cases hheld : x.held with
  | none =>
      have hended : x.ended.isSome := hfull.resolve_left (by simp [hheld])
      simp [read, hheld, hended, hover] at hread
  | some s => simp [read, hheld] at hread

theorem toDo_act_lt_of_cancelled {p : Party} (h : (x.act talk p).toDo < x.toDo) :
    (({ x with cancelled := true } : Exchange).act talk p).toDo < x.toDo := by
  cases p with
  | caller => exact absurd h (Nat.lt_irrefl _)
  | daemon =>
      by_cases hended : x.ended.isSome
      · rw [act, send, if_pos hended] at h
        exact absurd h (Nat.lt_irrefl _)
      · simp [act, send, hended, toDo]
  | reader =>
      have hsame : (({ x with cancelled := true } : Exchange).read talk).toDo = (x.read talk).toDo := by
        cases hheld : x.held <;> simp only [read, hheld] <;> rfl
      exact hsame ▸ h

theorem toDo_run_le (hsound : Sound talk x) (turns : List Party) :
    (turns.foldl (act talk) x).toDo ≤ x.toDo := by
  induction turns generalizing x with
  | nil => exact Nat.le_refl _
  | cons p turns ih =>
      have hact : (x.act talk p).toDo ≤ x.toDo := by
        rcases toDo_act_lt_or_eq hsound p with hlt | heq | heq
        · exact Nat.le_of_lt hlt
        · exact Nat.le_of_eq (congrArg toDo heq)
        · rw [heq]
          exact Nat.le_refl x.toDo
      exact Nat.le_trans (ih (hsound.act p)) hact

/-- Whoever can do something does so when the turn comes, or something else was done before. -/
theorem toDo_run_lt (hsound : Sound talk x) {p : Party} {turns : List Party} (hp : p ∈ turns)
    (h : (x.act talk p).toDo < x.toDo) : (turns.foldl (act talk) x).toDo < x.toDo := by
  induction turns generalizing x with
  | nil => cases hp
  | cons q turns ih =>
      have hrest := toDo_run_le (hsound.act q) turns
      -- The first turn did something, or left the session as it was, or the caller gave up in it.
      rcases toDo_act_lt_or_eq hsound q with hlt | heq | heq
      · exact Nat.lt_of_le_of_lt hrest hlt
      · rcases List.mem_cons.1 hp with rfl | hp
        · rw [heq] at h
          exact absurd h (Nat.lt_irrefl _)
        · rw [List.foldl_cons, heq]
          exact ih hsound hp h
      · rcases List.mem_cons.1 hp with rfl | hp
        · exact Nat.lt_of_le_of_lt hrest h
        · rw [List.foldl_cons, heq]
          exact ih hsound.cancel hp (toDo_act_lt_of_cancelled h)

theorem isOver_run (hsound : Sound talk x) (hover : x.isOver) (turns : List Party) :
    (turns.foldl (act talk) x).isOver := by
  induction turns generalizing x with
  | nil => exact hover
  | cons p turns ih =>
      obtain ⟨hended, hheld⟩ := hsound.closed hover
      refine ih (hsound.act p) ?_
      cases p with
      | caller => exact hover
      | daemon => rwa [act, send, if_pos hended]
      | reader => rwa [act, read, hheld]

theorem cancelled_run (hcancelled : x.cancelled) (turns : List Party) :
    (turns.foldl (act talk) x).cancelled := by
  induction turns generalizing x with
  | nil => exact hcancelled
  | cons p turns ih =>
      refine ih ?_
      cases p with
      | caller => rfl
      | daemon =>
          by_cases hended : x.ended.isSome
          · rwa [act, send, if_pos hended]
          · rwa [act, send, if_neg hended, if_pos hcancelled]
      | reader => cases hheld : x.held <;> simpa [act, read, hheld] using hcancelled

/-- Once the caller has given up, the daemon's part sends no more, and is stopped. -/
theorem stopped_run (hsound : Sound talk x) (hcancelled : x.cancelled)
    (hstops : x.ended = none ∨ x.stopped) (turns : List Party) :
    (turns.foldl (act talk) x).sent = x.sent ∧
      ((turns.foldl (act talk) x).ended = none ∨ (turns.foldl (act talk) x).stopped) := by
  induction turns generalizing x with
  | nil => exact ⟨rfl, hstops⟩
  | cons p turns ih =>
      have hact : (x.act talk p).sent = x.sent ∧
          ((x.act talk p).ended = none ∨ (x.act talk p).stopped) := by
        cases p with
        | caller => exact ⟨rfl, hstops⟩
        | reader => cases hheld : x.held <;> simpa [act, read, hheld] using hstops
        | daemon =>
            rcases hstops with hended | hstopped
            · simp [act, send, hended, hcancelled]
            · have hended : x.ended.isSome := by rw [(hsound.stopped hstopped).2]; rfl
              rw [act, send, if_pos hended]
              exact ⟨rfl, .inr hstopped⟩
      obtain ⟨hsent, hlater⟩ := ih (hsound.act p) (cancelled_run hcancelled [p]) hact.2
      exact ⟨hsent.trans hact.1, hlater⟩

/-- A session is over after as many rounds as there is something to do, if each party has a turn in each
of them and the daemon does not hang for ever. -/
theorem isOver_of_rounds {rounds : List (List Party)} (hsound : Sound talk x)
    (hends : talk.ending.isSome ∨ x.cancelled)
    (hrounds : ∀ round ∈ rounds, .daemon ∈ round ∧ .reader ∈ round)
    (hmany : x.toDo ≤ rounds.length) : (rounds.flatten.foldl (act talk) x).isOver := by
  induction rounds generalizing x with
  | nil =>
      have hnone : x.toDo = 0 := Nat.le_zero.1 hmany
      cases hover : x.isOver with
      | true => exact hover
      | false => simp [toDo, hover] at hnone
  | cons round rounds ih =>
      rw [List.flatten_cons, List.foldl_append]
      by_cases hover : x.isOver
      · exact isOver_run (hsound.run round) (isOver_run hsound hover round) _
      · obtain ⟨hdaemon, hreader⟩ := hrounds round List.mem_cons_self
        -- The reader acts on what is in the channel and on its end; otherwise the daemon can act.
        have hless : (round.foldl (act talk) x).toDo < x.toDo := by
          by_cases hfull : x.held.isSome ∨ x.ended.isSome
          · exact toDo_run_lt hsound hreader (toDo_read_lt hsound hover hfull)
          · simp only [not_or, Option.not_isSome_iff_eq_none] at hfull
            exact toDo_run_lt hsound hdaemon (toDo_send_lt hfull.2 hfull.1 hends)
        rw [List.length_cons] at hmany
        exact ih (hsound.run round) (hends.imp_right fun hc => cancelled_run hc round)
          (fun other hother => hrounds other (List.mem_cons_of_mem _ hother)) (by omega)

end Exchange
end ImageBuild.Solve
