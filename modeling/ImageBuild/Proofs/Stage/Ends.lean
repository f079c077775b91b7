import ImageBuild.Proofs.Stage.Waiting
/-!
# How actions end

An action that comes to an end either has a value or fails with an error.  `Ends` says which values and which
errors there may be, whatever stage the action is played on.  Waiting adds one error to those of the parts
of an action, that of a caller who gives up.
-/

namespace ImageBuild.Act

variable {σ α β : Type}

/-- What there is to say of a result, with one part for values and one for errors. -/
def Outcome (good : α → Prop) (bad : BuildError → Prop) : Except BuildError α → Prop
  | .ok a => good a
  | .error e => bad e

/-- An action that comes to an end has such a value or such an error. -/
def Ends (act : Act σ α) (good : α → Prop) (bad : BuildError → Prop) : Prop :=
  ∀ s, Leads act s fun r _ => ∀ result : Except BuildError α, r = result.mapError .failed →
    Outcome good bad result

variable {act : Act σ α} {f : α → Act σ β} {good : α → Prop} {after : β → Prop}
variable {bad : BuildError → Prop}

theorem Ends.mono {good' : α → Prop} {bad' : BuildError → Prop} (h : Ends act good bad)
    (hgood : ∀ a, good a → good' a) (hbad : ∀ e, bad e → bad' e) : Ends act good' bad' := by
  refine fun s => (h s).mono fun r t ht result hr => ?_
  cases result with
  | ok a => exact hgood a (ht (.ok a) hr)
  | error e => exact hbad e (ht (.error e) hr)

theorem ends_pure {a : α} (h : good a) : Ends (pure a : Act σ α) good bad := by
  rintro s (e | b) hr
  · cases hr
  · cases hr
    exact h

theorem ends_fail {e : BuildError} (h : bad e) : Ends (fail e : Act σ α) good bad := by
  rintro s (e' | b) hr
  · cases hr
    exact h
  · cases hr

theorem ends_overdue : Ends (throw .overdue : Act σ α) good bad := by
  rintro s (_ | _) ⟨⟩

theorem ends_forever : Ends (throw .forever : Act σ α) good bad := by
  rintro s (_ | _) ⟨⟩

theorem ends_get : Ends (get : Act σ (Stage σ)) (fun _ => True) bad := by
  rintro s (_ | _) ⟨⟩
  trivial

theorem ends_set (t : Stage σ) : Ends (set t : Act σ PUnit) (fun _ => True) bad := by
  rintro s (_ | _) ⟨⟩
  trivial

theorem ends_ofExcept {result : Except BuildError α} (h : Outcome good bad result) :
    Ends (ofExcept result : Act σ α) good bad := by
  cases result with
  | ok a => exact ends_pure h
  | error e => exact ends_fail h

theorem Ends.bind (hact : Ends act good bad) (hf : ∀ a, good a → Ends (f a) after bad) :
    Ends (act >>= f) after bad := by
  intro s
  rw [leads_bind]
  refine (hact s).mono fun r t ht => ?_
  rcases r with (e | _ | _) | a
  · rintro (e' | b) hr
    · cases hr
      exact ht (.error e) rfl
    · cases hr
  · rintro (_ | _) ⟨⟩
  · rintro (_ | _) ⟨⟩
  · exact hf a (ht (.ok a) rfl) t

theorem Ends.ite {other : Act σ α} (c : Prop) [Decidable c] (hact : Ends act good bad)
    (hother : Ends other good bad) : Ends (if c then act else other) good bad := by
  split
  · exact hact
  · exact hother

/-- An attempt has both the values and the errors of an action for its values. -/
theorem Ends.attempt {bad' : BuildError → Prop} (h : Ends act good bad) :
    Ends (attempt act) (Outcome good bad) bad' := by
  intro s
  rw [leads_attempt]
  refine (h s).mono fun r t ht => ?_
  rcases r with (e | _ | _) | a
  · rintro (_ | _) ⟨⟩
    exact ht (.error e) rfl
  · rintro (_ | _) ⟨⟩
  · rintro (_ | _) ⟨⟩
  · rintro (_ | _) ⟨⟩
    exact ht (.ok a) rfl

/-! ## Waiting -/

section

variable (hbad : bad .cancelled)
include hbad

theorem ends_giveWay (w : Watch) : Ends (giveWay w : Act σ Unit) (fun _ => True) bad := by
  refine ends_get.bind fun s _ => (ends_set _).bind fun _ _ => ?_
  have hcaller : ∀ c : Bool, Ends (if c then fail .cancelled else pure () : Act σ Unit)
      (fun _ => True) bad := fun c => .ite _ (ends_fail hbad) (ends_pure trivial)
  exact .ite _ (ends_overdue.bind fun _ (_ : True) => hcaller _) (hcaller _)

theorem ends_takeTurns (w : Watch) : Ends (takeTurns w : Act σ Unit) (fun _ => True) bad :=
  ends_get.bind fun _ _ => .ite _ (ends_giveWay hbad w) (ends_pure trivial)

theorem ends_checkCaller : Ends (checkCaller : Act σ Unit) (fun _ => True) bad :=
  (ends_takeTurns hbad .forCaller).bind fun _ _ => ends_get.bind fun _ _ =>
    .ite _ (ends_fail hbad) (ends_pure trivial)

theorem ends_waitUntil (w : Watch) (moment : Option Nat) :
    Ends (waitUntil w moment : Act σ Unit) (fun _ => True) bad := by
  refine ends_get.bind fun s _ => ?_
  simp only
  split
  · exact (ends_set _).bind fun _ _ => ends_fail hbad
  · exact ends_forever
  · exact (ends_set _).bind fun _ _ => .ite _ ends_overdue (ends_pure trivial)

theorem ends_wait (w : Watch) (delay : Nat) : Ends (wait w delay : Act σ Unit) (fun _ => True) bad :=
  (ends_takeTurns hbad w).bind fun _ _ => ends_get.bind fun _ _ => ends_waitUntil hbad w _

theorem ends_follow (w : Watch) (p : Pace) : Ends (follow w p : Act σ Unit) (fun _ => True) bad := by
  have hdelay : Ends (p.delay.elim (pure ()) (wait w) : Act σ Unit) (fun _ => True) bad := by
    cases p.delay with
    | none => exact ends_pure trivial
    | some delay => exact ends_wait hbad w delay
  have hcancel : Ends (cancel : Act σ Unit) (fun _ => True) bad := by
    rintro s (_ | _) ⟨⟩
    trivial
  rw [follow_eq]
  refine hdelay.bind fun _ _ => (Ends.ite _ hcancel (ends_pure trivial)).bind fun _ _ => ?_
  exact .ite _ (ends_waitUntil hbad w none) (ends_pure trivial)

theorem ends_receive (w : Watch) {r : Reply α} (h : Outcome good bad r.result) :
    Ends (receive w r : Act σ α) good bad :=
  (ends_follow hbad w r.pace).bind fun _ _ => ends_ofExcept h

end

/-! ## Showing -/

theorem ends_exchange (n : Nat) : Ends (exchange n : Act σ Unit) (fun _ => True) bad := by
  rintro s (_ | _) ⟨⟩
  trivial

theorem ends_note (e : Entry) : Ends (note e : Act σ Unit) (fun _ => True) bad := by
  rintro s (_ | _) ⟨⟩
  trivial

theorem ends_display (e : Event) : Ends (display e : Act σ (Option IoError)) (fun _ => True) bad := by
  refine (ends_note (.shown e)).bind fun _ _ => ends_get.bind fun s _ => ?_
  cases s.screen.render e
  · exact ends_pure trivial
  · exact ends_pure trivial

theorem ends_announce (e : Event) : Ends (announce e : Act σ Unit) (fun _ => True) bad :=
  (ends_display e).bind fun _ _ => ends_pure trivial

theorem ends_announceAll (events : List Event) :
    Ends (events.forM announce : Act σ Unit) (fun _ => True) bad := by
  induction events with
  | nil => exact ends_pure trivial
  | cons e rest ih => exact (ends_announce e).bind fun _ _ => ih

end ImageBuild.Act
