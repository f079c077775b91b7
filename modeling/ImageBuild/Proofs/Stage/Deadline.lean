import ImageBuild.Proofs.Stage.Quiet
/-!
# Waits that the caller does not end

Where the caller is not asked any more, a wait ends when what is waited for arrives or when its deadline is
reached, if it has one; with a deadline it ends for certain.  Both may be at one moment; then the deadline
goes first only for somebody who has had a whole turn.
-/

namespace ImageBuild

variable {σ α : Type}

namespace Watch

/-- Nothing but the deadline ends the wait early. -/
structure EndsAt (w : Watch) (limit : Nat) : Prop where
  caller : w.caller = false
  deadline : w.deadline = some limit

end Watch

namespace Act

/-- How a wait ends for a result that comes after a while or never. -/
inductive Limited (s : Stage σ) (limit : Nat) (span : Option Nat) (result : Except BuildError α) :
    Except Halt α → Stage σ → Prop where
  | arrived (t : Stage σ) (k : Nat) (hspan : span = some k) (hnow : t.now = s.now + k)
      (hin : t.now ≤ limit) : Limited s limit span result (result.mapError .failed) t
  | cut (t : Stage σ) (hnow : t.now = limit)
      (hlate : ∀ k, span = some k → limit ≤ s.now + k ∧ (s.waits < Stage.turn → limit < s.now + k)) :
      Limited s limit span result (.error .overdue) t

variable {s : Stage σ} {w : Watch} {limit : Nat}

theorem steps_of_call (s : Stage σ) (c : Call) (x : σ) :
    Stage.steps { s with daemon := x, journal := .called s.now c :: s.journal } =
      s.steps ++ [.called s.now c] := by
  rw [Stage.steps_of_journal_eq_cons (s := s) rfl]
  rfl

theorem giveWay_limited (hw : w.EndsAt limit) (hlimit : s.now ≤ limit) :
    Leads (giveWay w) s fun r t => t.now = s.now ∧
      (r = .ok () ∨ r = .error .overdue ∧ s.now = limit) := by
  rw [giveWay, leads_bind, leads_get]
  simp only [leads_bind, leads_set, hw.caller, hw.deadline, Option.any_some, decide_eq_true_eq,
    Bool.false_and, Bool.false_eq_true, if_false]
  split_ifs with hreached
  · exact ⟨rfl, .inr ⟨rfl, Nat.le_antisymm hlimit hreached⟩⟩
  · exact ⟨rfl, .inl rfl⟩

theorem takeTurns_limited (hw : w.EndsAt limit) (hlimit : s.now ≤ limit) :
    Leads (takeTurns w) s fun r t => t.now = s.now ∧
      (r = .ok () ∨ r = .error .overdue ∧ s.now = limit ∧ Stage.turn ≤ s.waits) := by
  rw [takeTurns, leads_bind, leads_get]
  simp only
  split_ifs with hturn
  · refine (giveWay_limited hw hlimit).mono fun r t ht => ⟨ht.1, ht.2.imp_right ?_⟩
    exact fun h => ⟨h.1, h.2, hturn⟩
  · exact ⟨rfl, .inl rfl⟩

theorem waitUntil_limited {moment : Nat} (hw : w.EndsAt limit) (hmoment : s.now ≤ moment)
    (hlimit : s.now ≤ limit) :
    Leads (waitUntil w (some moment)) s fun r t =>
      (r = .ok () ∧ t.now = moment ∧ moment ≤ limit) ∨
        (r = .error .overdue ∧ t.now = limit ∧ limit < moment) := by
  rw [waitUntil, leads_bind, leads_get]
  simp only [hw.caller, hw.deadline, earlier?, leads_bind, leads_set, Option.all_some,
    decide_eq_true_eq, Bool.false_eq_true, if_false]
  by_cases hlate : min moment limit < moment
  · rw [if_pos hlate]
    refine .inr ⟨rfl, ?_, by omega⟩
    change max s.now (min moment limit) = limit
    omega
  · rw [if_neg hlate]
    refine .inl ⟨rfl, ?_, by omega⟩
    change max s.now (min moment limit) = moment
    omega

theorem waitUntil_never_limited (hw : w.EndsAt limit) (hlimit : s.now ≤ limit) :
    Leads (waitUntil w none) s fun r t => r = .error .overdue ∧ t.now = limit := by
  rw [waitUntil, leads_bind, leads_get]
  simp only [hw.caller, hw.deadline, earlier?, leads_bind, leads_set, Option.all_none,
    Bool.false_eq_true, if_true, if_false]
  exact ⟨rfl, Nat.max_eq_right hlimit⟩

theorem wait_limited (hw : w.EndsAt limit) (hlimit : s.now ≤ limit) (delay : Nat) :
    Leads (wait w delay) s (Limited s limit (some delay) (.ok ())) := by
  rw [wait, leads_bind]
  refine (takeTurns_limited hw hlimit).mono fun r t ht => ?_
  obtain ⟨hnow, rfl | ⟨rfl, hreached, hturn⟩⟩ := ht
  · simp only
    rw [leads_bind, leads_get]
    refine (waitUntil_limited hw (Nat.le_add_right t.now delay) (hnow ▸ hlimit)).mono fun r u hu => ?_
    rcases hu with ⟨rfl, hu, hin⟩ | ⟨rfl, hu, hlate⟩
    · exact .arrived u delay rfl (hnow ▸ hu) (hu ▸ hin)
    · refine .cut u hu fun k hk => ?_
      cases hk
      omega
  · refine .cut t (hnow.trans hreached) fun k hk => ?_
    omega

theorem follow_limited (hw : w.EndsAt limit) (hlimit : s.now ≤ limit) (p : Pace) :
    Leads (follow w p) s (Limited s limit p.span? (.ok ())) := by
  have hdelay : Leads (p.delay.elim (pure ()) (wait w)) s
      (Limited s limit (some (p.delay.getD 0)) (.ok ())) := by
    cases p.delay with
    | none => exact .arrived s 0 rfl rfl hlimit
    | some delay => exact wait_limited hw hlimit delay
  have hcancel : ∀ t : Stage σ, Leads (if p.cancels then cancel else pure () : Act σ Unit) t
      fun r u => r = .ok () ∧ u.now = t.now := by
    intro t
    cases p.cancels <;> exact ⟨rfl, rfl⟩
  rw [follow_eq, leads_bind]
  refine hdelay.mono fun r t ht => ?_
  cases ht with
  | cut _ hnow hlate =>
    refine .cut t hnow fun k hk => ?_
    obtain ⟨-, rfl⟩ := Pace.span?_eq_some.1 hk
    exact hlate _ rfl
  | arrived _ k hspan hnow hin =>
    change Leads ((if p.cancels then cancel else pure ()) >>= fun _ =>
      if p.hangs then waitUntil w none else pure ()) t _
    rw [leads_bind]
    refine (hcancel t).mono fun r u hu => ?_
    obtain ⟨rfl, hu⟩ := hu
    simp only
    cases hhangs : p.hangs with
    | false =>
        refine .arrived u k ?_ (hu.trans hnow) (hu ▸ hin)
        rw [← hspan, Pace.span?_eq_some]
        exact ⟨hhangs, rfl⟩
    | true =>
        refine (waitUntil_never_limited hw (hu ▸ hin)).mono fun r v hv => ?_
        obtain ⟨rfl, hv⟩ := hv
        refine .cut v hv fun k hk => ?_
        cases (Pace.span?_eq_none.2 hhangs).symm.trans hk

theorem ask_limited {c : Call} {f : σ → Reply α × σ} (hw : w.EndsAt limit) (hlimit : s.now ≤ limit) :
    Leads (ask w c f) s fun r t =>
      t.steps = s.steps ++ [.called s.now c] ∧ t.daemon = (f s.daemon).2 ∧
        Limited s limit (f s.daemon).1.pace.span? (f s.daemon).1.result r t := by
  have hcalled := steps_of_call s c (f s.daemon).2
  rw [ask, leads_bind, leads_call]
  simp only [receive, leads_bind]
  refine (Leads.and (quiet_follow w _ _) (follow_limited (s := { s with
    daemon := (f s.daemon).2, journal := .called s.now c :: s.journal }) hw hlimit _)).mono
      fun r t ht => ?_
  obtain ⟨hstill, hlimited⟩ := ht
  cases hlimited with
  | arrived _ k hspan hnow hin =>
    change Leads (ofExcept (f s.daemon).1.result) t _
    rw [leads_ofExcept]
    exact ⟨hstill.steps.trans hcalled, hstill.daemon, .arrived t k hspan hnow hin⟩
  | cut _ hnow hlate => exact ⟨hstill.steps.trans hcalled, hstill.daemon, .cut t hnow hlate⟩

/-! ## Waits that nothing ends early -/

theorem takeTurns_none (s : Stage σ) :
    Leads (takeTurns .none) s fun r t =>
      r = .ok () ∧ t.now = s.now ∧ t.waits < Stage.turn ∧ Still s t := by
  refine ((quiet_takeTurns .none s).and (?_ : Leads (takeTurns .none) s fun r t =>
    r = .ok () ∧ t.now = s.now ∧ t.waits < Stage.turn)).mono fun r t ht => ?_
  · rw [takeTurns, leads_bind, leads_get]
    simp only
    split_ifs with hturn
    · exact ⟨rfl, rfl, Nat.zero_lt_succ 127⟩
    · exact ⟨rfl, rfl, Nat.not_le.1 hturn⟩
  · exact ⟨ht.2.1, ht.2.2.1, ht.2.2.2, ht.1⟩

theorem wait_none (s : Stage σ) (delay : Nat) :
    Leads (wait .none delay) s fun r _ => r = .ok () := by
  rw [wait, leads_bind]
  refine (takeTurns_none s).mono fun r t ht => ?_
  obtain ⟨rfl, -⟩ := ht
  simp only
  rw [leads_bind, leads_get]
  simp only
  rw [waitUntil, leads_bind, leads_get]
  simp only [Watch.none, earlier?, leads_bind, leads_set, Option.all_some, Nat.lt_irrefl, decide_false,
    Bool.false_eq_true, if_false]
  rfl

theorem follow_none (s : Stage σ) (p : Pace) :
    Leads (follow .none p) s fun r _ => r = if p.hangs then .error .forever else .ok () := by
  have hdelay : Leads (p.delay.elim (pure ()) (wait .none)) s fun r _ => r = .ok () := by
    cases p.delay with
    | none => rfl
    | some delay => exact wait_none s delay
  have hrest : ∀ t : Stage σ, Leads ((if p.cancels then cancel else pure ()) >>= fun _ =>
      if p.hangs then waitUntil .none none else pure () : Act σ Unit) t
        fun r _ => r = if p.hangs then .error .forever else .ok () := by
    intro t
    cases p.cancels <;> cases p.hangs <;> rfl
  rw [follow_eq, leads_bind]
  refine hdelay.mono fun r t ht => ?_
  subst ht
  exact hrest t

theorem ask_none (s : Stage σ) (c : Call) (f : σ → Reply α × σ) :
    Leads (ask .none c f) s fun r t =>
      t.steps = s.steps ++ [.called s.now c] ∧ t.daemon = (f s.daemon).2 ∧
        r = if (f s.daemon).1.pace.hangs then .error .forever
          else (f s.daemon).1.result.mapError .failed := by
  have hcalled := steps_of_call s c (f s.daemon).2
  rw [ask, leads_bind, leads_call]
  simp only [receive, leads_bind]
  refine (Leads.and (quiet_follow .none _ _) (follow_none _ _)).mono fun r t ht => ?_
  obtain ⟨hstill, rfl⟩ := ht
  cases (f s.daemon).1.pace.hangs with
  | true => exact ⟨hstill.steps.trans hcalled, hstill.daemon, rfl⟩
  | false =>
      change Leads (ofExcept (f s.daemon).1.result) t _
      rw [leads_ofExcept]
      exact ⟨hstill.steps.trans hcalled, hstill.daemon, rfl⟩

end Act
end ImageBuild
