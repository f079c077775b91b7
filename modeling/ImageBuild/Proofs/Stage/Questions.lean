import ImageBuild.Proofs.Stage.Quiet
/-!
# Questions with a time limit

A question takes one step.  What comes of it, when it is given some time, is settled by the reply and the
caller alone: either the caller leaves before there is a reply and before the time is over, or the
reply is in time, also at the last moment, and is what comes of it, or it is too late.
-/

namespace ImageBuild

variable {σ α : Type}

/-- What is said of a question that took too long. -/
def Act.tooLate (timeout : Nat) : BuildError :=
  .buildFailed ("timed out after " ++ Nat.repr timeout ++ "ms")

/-- What comes of a reply for which there is some time. -/
def Reply.inTime (timeout : Nat) (r : Reply α) : Except BuildError α :=
  if r.pace.span?.any (· ≤ timeout) then r.result else .error (Act.tooLate timeout)

/-- The caller gives up before something has arrived and before the time for it is over. -/
def Stage.Leaves (s : Stage σ) (timeout : Nat) (p : Pace) : Prop :=
  s.cancelled = true ∨ (p.cancels = true ∧ p.span? = none) ∨
    ∃ c, s.cancelAt = some c ∧ c ≤ s.now + timeout ∧ ∀ k, p.span? = some k → c ≤ s.now + k

namespace Act

variable {s : Stage σ} {w : Watch} {limit timeout : Nat}

/-! ## Waiting with a time limit -/

/-- How a wait until some moment ends for which there is a limit. -/
inductive Timed (s : Stage σ) (limit moment : Nat) : Except Halt Unit → Stage σ → Prop where
  | left (t : Stage σ)
      (h : s.cancelled = true ∨ ∃ c, s.cancelAt = some c ∧ c ≤ limit ∧ c ≤ moment) :
      Timed s limit moment (.error (.failed .cancelled)) t
  | late (t : Stage σ) (h : limit < moment) : Timed s limit moment (.error .overdue) t
  | reached (t : Stage σ) (h : moment ≤ limit) (hnow : t.now = moment)
      (hcancelled : t.cancelled = s.cancelled) (hcancelAt : t.cancelAt = s.cancelAt) :
      Timed s limit moment (.ok ()) t

theorem cause_of_cancelMoment? {t stop : Nat}
    (h : (if w.caller then s.cancelMoment? (some stop) else none) = some t) (hnow : s.now ≤ stop) :
    s.cancelled = true ∨ ∃ c, s.cancelAt = some c ∧ c ≤ stop := by
  rw [Option.ite_none_right_eq_some] at h
  obtain ⟨hcause, hbefore⟩ := cancelMoment?_eq_some h.2
  have hin := hbefore stop rfl
  rcases hcause with ⟨hcancelled, -⟩ | ⟨c, hc, rfl⟩
  · exact .inl hcancelled
  · exact .inr ⟨c, hc, by omega⟩

theorem waitUntil_timed {moment : Nat} (hw : w.deadline = some limit) (hmoment : s.now ≤ moment)
    (hlimit : s.now ≤ limit) :
    Leads (waitUntil w (some moment)) s (Timed s limit moment) := by
  rw [waitUntil, leads_bind, leads_get]
  simp only [hw, earlier?]
  cases hinterrupt : (if w.caller then s.cancelMoment? (some (min moment limit)) else none) with
  | some t =>
      rcases cause_of_cancelMoment? hinterrupt (by omega) with hcancelled | ⟨c, hc, hle⟩
      · exact .left _ (.inl hcancelled)
      · exact .left _ (.inr ⟨c, hc, by omega, by omega⟩)
  | none =>
      simp only [leads_bind, leads_set, Option.all_some, decide_eq_true_eq]
      by_cases hlt : min moment limit < moment
      · rw [if_pos hlt]
        exact .late _ (by omega)
      · rw [if_neg hlt]
        refine .reached _ (by omega) ?_ rfl rfl
        change max s.now (min moment limit) = moment
        omega

/-- What never comes is too late. -/
theorem waitUntil_never_timed (hw : w.deadline = some limit) (hlimit : s.now ≤ limit) :
    Leads (waitUntil w none) s fun r _ =>
      (r = .error (.failed .cancelled) ∧ (s.cancelled = true ∨
        ∃ c, s.cancelAt = some c ∧ c ≤ limit)) ∨ r = .error .overdue := by
  rw [waitUntil, leads_bind, leads_get]
  simp only [hw, earlier?]
  cases hinterrupt : (if w.caller then s.cancelMoment? (some limit) else none) with
  | some t => exact .inl ⟨rfl, cause_of_cancelMoment? hinterrupt hlimit⟩
  | none =>
      simp only [leads_bind, leads_set]
      exact .inr rfl

theorem wait_timed {delay : Nat} (hw : w.deadline = some limit) (hlimit : s.now ≤ limit)
    (hwaits : s.waits < Stage.turn) :
    Leads (wait w delay) s (Timed s limit (s.now + delay)) := by
  have hturn : Leads (takeTurns w) s fun r t => r = .ok () ∧ t = s := by
    rw [takeTurns, leads_bind, leads_get]
    simp only
    rw [if_neg (Nat.not_le.2 hwaits)]
    exact ⟨rfl, rfl⟩
  rw [wait, leads_bind]
  refine hturn.mono fun r t ht => ?_
  obtain ⟨rfl, rfl⟩ := ht
  simp only
  rw [leads_bind, leads_get]
  exact waitUntil_timed hw (Nat.le_add_right t.now delay) hlimit

/-- What the other side does to the caller matters only if nothing arrives after it. -/
theorem rest_timed {p : Pace} (hw : w.deadline = some limit) (hlimit : s.now ≤ limit) :
    Leads ((if p.cancels then cancel else pure ()) >>= fun _ =>
        if p.hangs then waitUntil w none else pure () : Act σ Unit) s fun r _ =>
      (p.hangs = true ∧ ((r = .error (.failed .cancelled) ∧ (s.cancelled = true ∨ p.cancels = true ∨
        ∃ c, s.cancelAt = some c ∧ c ≤ limit)) ∨ r = .error .overdue)) ∨
      (p.hangs = false ∧ r = .ok ()) := by
  have hcancel : Leads (if p.cancels then cancel else pure () : Act σ Unit) s fun r t =>
      r = .ok () ∧ t.now = s.now ∧ t.cancelAt = s.cancelAt ∧
        (t.cancelled = true → s.cancelled = true ∨ p.cancels = true) := by
    cases p.cancels with
    | false => exact ⟨rfl, rfl, rfl, .inl⟩
    | true => exact ⟨rfl, rfl, rfl, fun _ => .inr rfl⟩
  rw [leads_bind]
  refine hcancel.mono fun r t ht => ?_
  obtain ⟨rfl, hnow, hcancelAt, hcause⟩ := ht
  simp only
  cases p.hangs with
  | false => exact .inr ⟨rfl, rfl⟩
  | true =>
      refine (waitUntil_never_timed hw (hnow ▸ hlimit)).mono fun r u hu => ?_
      rcases hu with ⟨rfl, hgone | hlater⟩ | rfl
      · exact .inl ⟨rfl, .inl ⟨rfl, (hcause hgone).imp_right .inl⟩⟩
      · exact .inl ⟨rfl, .inl ⟨rfl, .inr (.inr (hcancelAt ▸ hlater))⟩⟩
      · exact .inl ⟨rfl, .inr rfl⟩

theorem follow_timed {p : Pace} (hw : w.deadline = some (s.now + timeout))
    (hwaits : s.waits < Stage.turn) :
    Leads (follow w p) s fun r _ =>
      (r = .error (.failed .cancelled) ∧ s.Leaves timeout p) ∨
        r = if p.span?.any (· ≤ timeout) then .ok () else .error .overdue := by
  have hdelay : Leads (p.delay.elim (pure ()) (wait w)) s
      (Timed s (s.now + timeout) (s.now + p.delay.getD 0)) := by
    cases p.delay with
    | none => exact .reached s (Nat.le_add_right s.now timeout) rfl rfl rfl
    | some delay => exact wait_timed hw (Nat.le_add_right s.now timeout) hwaits
  rw [follow_eq, leads_bind]
  refine hdelay.mono fun r t ht => ?_
  cases ht with
  | left _ hleft =>
    rcases hleft with hcancelled | ⟨c, hc, hlimit, hmoment⟩
    · exact .inl ⟨rfl, .inl hcancelled⟩
    · refine .inl ⟨rfl, .inr (.inr ⟨c, hc, hlimit, fun k hk => ?_⟩)⟩
      rwa [← (Pace.span?_eq_some.1 hk).2]
  | late _ hlate =>
    refine .inr ?_
    cases hs : p.span? with
    | none => rfl
    | some k =>
        obtain ⟨-, rfl⟩ := Pace.span?_eq_some.1 hs
        rw [if_neg (by simpa using Nat.lt_of_add_lt_add_left hlate)]
  | reached _ hin hnow hcancelled hcancelAt =>
    simp only
    refine (rest_timed hw (by omega)).mono fun r u hu => ?_
    rw [hcancelled, hcancelAt] at hu
    rcases hu with ⟨hhangs, ⟨rfl, hcause⟩ | rfl⟩ | ⟨hhangs, rfl⟩
    · have hnever : p.span? = none := by rw [Pace.span?, if_pos hhangs]
      refine .inl ⟨rfl, ?_⟩
      rcases hcause with hgone | hp | ⟨c, hc, hle⟩
      · exact .inl hgone
      · exact .inr (.inl ⟨hp, hnever⟩)
      · exact .inr (.inr ⟨c, hc, hle, fun k hk => by cases hnever.symm.trans hk⟩)
    · rw [Pace.span?, if_pos hhangs]
      exact .inr rfl
    · rw [Pace.span?_eq_some.2 ⟨hhangs, rfl⟩, Option.any_some,
        if_pos (decide_eq_true (Nat.le_of_add_le_add_left hin))]
      exact .inr rfl

/-- Whoever is let through has not given up, and begins a new turn if the last one is over. -/
theorem checkCaller_lets (s : Stage σ) :
    Leads checkCaller s fun r t => Still s t ∧
      ((r = .error (.failed .cancelled) ∧
          (s.cancelled = true ∨ ∃ c, s.cancelAt = some c ∧ c ≤ s.now)) ∨
        (r = .ok () ∧ t.now = s.now ∧ t.cancelled = false ∧ t.cancelAt = s.cancelAt ∧
          t.waits < Stage.turn)) := by
  have hturn : Leads (takeTurns .forCaller) s fun r t => r = .ok () → t.waits < Stage.turn := by
    rw [takeTurns, leads_bind, leads_get]
    simp only
    split_ifs with hwaits
    · rw [giveWay, leads_bind, leads_get]
      simp only [leads_bind, leads_set]
      rw [if_neg (by simp [Watch.forCaller])]
      split_ifs
      · intro h
        cases h
      · exact fun _ => Nat.zero_lt_succ 127
    · exact fun _ => Nat.not_le.1 hwaits
  have hwaits : Leads checkCaller s fun r t => r = .ok () → t.waits < Stage.turn := by
    rw [checkCaller, leads_bind]
    refine hturn.mono fun r t ht => ?_
    cases r with
    | error halt =>
        intro h
        cases h
    | ok x =>
        rw [leads_bind, leads_get]
        simp only
        split_ifs
        · intro h
          cases h
        · exact fun _ => ht rfl
  refine ((checkCaller_waited s).and hwaits).mono fun r t ht => ?_
  obtain ⟨⟨hwaited, hokay⟩, hwaits⟩ := ht
  refine ⟨hwaited.elapsed.still, ?_⟩
  rcases hwaited.ending with ⟨_, k, ⟨x, rfl, -⟩, rfl, hk, hnow, -⟩ | ⟨rfl, hgave, hin⟩ | ⟨-, hnone, -⟩
  · cases hk
    exact .inr ⟨rfl, hnow, (hokay rfl).1, hwaited.elapsed.cancelAt, hwaits rfl⟩
  · have hnow : t.now ≤ s.now := hin 0 rfl
    refine .inl ⟨rfl, ?_⟩
    rcases hgave with hcancelled | ⟨c, hc, hle⟩
    · rcases hwaited.reason hcancelled with hs | ⟨c, hc, hle⟩ | hnever
      · exact .inl hs
      · exact .inr ⟨c, hc, Nat.le_trans hle hnow⟩
      · exact hnever.elim
    · exact .inr ⟨c, hwaited.elapsed.cancelAt.symm.trans hc, Nat.le_trans hle hnow⟩
  · cases hnone

/-! ## Questions -/

/-- The stage after a question, whatever came of it. -/
structure Asked (c : Call) (f : σ → Reply α × σ) (s t : Stage σ) : Prop where
  daemon : t.daemon = (f s.daemon).2
  steps : ∃ m, t.steps = s.steps ++ [.called m c]

theorem ask_timed {c : Call} {f : σ → Reply α × σ} (hw : w.deadline = some (s.now + timeout))
    (hwaits : s.waits < Stage.turn) :
    Leads (ask w c f) s fun r t => Asked c f s t ∧
      ((r = .error (.failed .cancelled) ∧ s.Leaves timeout (f s.daemon).1.pace) ∨
        r = if (f s.daemon).1.pace.span?.any (· ≤ timeout) then
            (f s.daemon).1.result.mapError .failed else .error .overdue) := by
  have hcalled : Stage.steps { s with
      daemon := (f s.daemon).2, journal := .called s.now c :: s.journal } =
        s.steps ++ [.called s.now c] := by
    rw [Stage.steps_of_journal_eq_cons (s := s) rfl]
    rfl
  rw [ask, leads_bind, leads_call]
  simp only [receive, leads_bind]
  have hfollow := follow_timed (s := { s with
    daemon := (f s.daemon).2, journal := .called s.now c :: s.journal })
    (p := (f s.daemon).1.pace) hw hwaits
  refine (Leads.and (quiet_follow w _ _) hfollow).mono fun r t ht => ?_
  obtain ⟨hstill, hend⟩ := ht
  have hasked : Asked c f s t := ⟨hstill.daemon, s.now, hstill.steps.trans hcalled⟩
  rcases hend with ⟨rfl, hleft⟩ | rfl
  · exact ⟨hasked, .inl ⟨rfl, hleft⟩⟩
  · by_cases hin : (f s.daemon).1.pace.span?.any (· ≤ timeout) = true
    · simp only [if_pos hin]
      rw [leads_ofExcept]
      exact ⟨hasked, .inr rfl⟩
    · rw [if_neg hin]
      exact ⟨hasked, .inr (if_neg hin).symm⟩

/-- A question that is given some time comes to what its reply comes to in that time, unless the caller
leaves. -/
theorem within_ask_leads (timeout : Nat) (c : Call) (f : σ → Reply α × σ) (s : Stage σ) :
    Leads (within timeout fun w => ask w c f) s fun r t =>
      ((Still s t ∨ Asked c f s t) ∧ r = .error (.failed .cancelled) ∧
        s.Leaves timeout (f s.daemon).1.pace) ∨
      (Asked c f s t ∧ r = ((f s.daemon).1.inTime timeout).mapError .failed) := by
  rw [within, leads_bind]
  refine (checkCaller_lets s).mono fun r t ht => ?_
  obtain ⟨hstill, ⟨rfl, hleft⟩ | ⟨rfl, hnow, hcancelled, hcancelAt, hwaits⟩⟩ := ht
  · refine .inl ⟨.inl hstill, rfl, ?_⟩
    rcases hleft with hcancelled | ⟨c, hc, hle⟩
    · exact .inl hcancelled
    · exact .inr (.inr ⟨c, hc, Nat.le_add_right_of_le hle, fun k _ => Nat.le_add_right_of_le hle⟩)
  · simp only
    rw [leads_bind, leads_get]
    simp only
    rw [leads_tryCatch]
    refine (ask_timed rfl hwaits).mono fun r u hu => ?_
    obtain ⟨hasked, hend⟩ := hu
    obtain ⟨m, hm⟩ := hasked.steps
    rw [hstill.daemon] at hend
    have hasked' : Asked c f s u :=
      ⟨hstill.daemon ▸ hasked.daemon, m, hstill.steps ▸ hm⟩
    rcases hend with ⟨rfl, hleft⟩ | rfl
    · refine .inl ⟨.inr hasked', rfl, ?_⟩
      rw [Stage.Leaves, hnow, hcancelAt, hcancelled] at hleft
      rcases hleft with hcancelled | hleft
      · cases hcancelled
      · exact .inr hleft
    · by_cases hin : (f s.daemon).1.pace.span?.any (· ≤ timeout) = true
      · rw [if_pos hin, Reply.inTime, if_pos hin]
        cases (f s.daemon).1.result <;> exact .inr ⟨hasked', rfl⟩
      · rw [if_neg hin, Reply.inTime, if_neg hin]
        exact .inr ⟨hasked', rfl⟩

end Act
end ImageBuild
