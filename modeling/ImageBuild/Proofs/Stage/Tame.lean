import ImageBuild.Proofs.Stage.Frame
/-!
# Properties of waiting and showing

A driver waits, shows what it hears, and calls the daemon.  A property that waits and events have, and that
whatever is put together of such actions has in turn, is one of all that a driver does beside its calls.
A wait without a deadline of its own may fail or last for ever, but it is never overdue.
-/

namespace ImageBuild

/-- The stage with another screen. -/
def Stage.on {σ : Type} (s : Stage σ) (screen : Screen) : Stage σ := { s with screen }

namespace Act

variable {σ α : Type} {w : Watch}

/-- A property of what a driver does beside its calls.  The driver never looks at the screen: it only finds out
whether an event could be shown. -/
structure Woven (Q : ∀ {α : Type}, Act σ α → Prop) : Prop where
  pure : ∀ {α : Type} (a : α), Q (pure a)
  fail : ∀ {α : Type} (e : BuildError), Q (fail e : Act σ α)
  bind : ∀ {α β : Type} {act : Act σ α} {f : α → Act σ β}, Q act → (∀ a, Q (f a)) → Q (act >>= f)
  attempt : ∀ {α : Type} {act : Act σ α}, Q act → Q (attempt act)
  look : ∀ {α : Type} {f : Stage σ → Act σ α}, (∀ s, Q (f s)) → (∀ s screen, f (s.on screen) = f s) →
    Q (get >>= f)
  exchange : ∀ n, Q (exchange n)
  giveWay : ∀ {w : Watch}, w.deadline = none → Q (giveWay w)
  checkCaller : Q checkCaller
  follow : ∀ {w : Watch}, w.deadline = none → ∀ p, Q (follow w p)
  display : ∀ e, Q (display e)

namespace Woven

variable {Q : ∀ {α : Type}, Act σ α → Prop} (h : Woven Q)
include h

theorem ofExcept (r : Except BuildError α) : Q (ofExcept r : Act σ α) := by
  cases r with
  | ok a => exact h.pure a
  | error e => exact h.fail e

theorem receive (hw : w.deadline = none) (r : Reply α) : Q (receive w r : Act σ α) :=
  h.bind (h.follow hw r.pace) fun _ => h.ofExcept r.result

theorem announce (e : Event) : Q (announce e : Act σ Unit) :=
  h.bind (h.display e) fun _ => h.pure ()

theorem announceAll (events : List Event) : Q (events.forM Act.announce : Act σ Unit) := by
  induction events with
  | nil => exact h.pure _
  | cons e rest ih => exact h.bind (h.announce e) fun _ => ih

end Woven

/-- A wait that nothing but the caller ends early. -/
def Idle (act : Act σ α) : Prop := ∀ s, Leads act s fun r t => Rests s t ∧ r ≠ .error .overdue

structure Tame (Q : ∀ {α : Type}, Act σ α → Prop) : Prop where
  idle : ∀ {α : Type} {act : Act σ α}, Idle act → Q act
  shown : ∀ e, Q (note (.shown e))
  bind : ∀ {α β : Type} {act : Act σ α} {f : α → Act σ β}, Q act → (∀ a, Q (f a)) → Q (act >>= f)
  attempt : ∀ {α : Type} {act : Act σ α}, Q act → Q (attempt act)

theorem idle_giveWay (hw : w.deadline = none) : Idle (giveWay w : Act σ Unit) := by
  intro s
  refine Leads.and (patient_rests.giveWay w s) ?_
  rw [giveWay, leads_bind, leads_get]
  simp only [leads_bind, leads_set, hw, Option.any_none, Bool.false_eq_true, if_false]
  split_ifs <;> rintro ⟨⟩

theorem idle_waitUntil (hw : w.deadline = none) (moment : Option Nat) :
    Idle (waitUntil w moment : Act σ Unit) := by
  intro s
  refine Leads.and (patient_rests.waitUntil w moment s) ?_
  rw [waitUntil, leads_bind, leads_get]
  simp only [hw]
  split
  · rintro ⟨⟩
  · rintro ⟨⟩
  · rename_i t _ hlimit
    -- Without a deadline it is the moment itself that limits the wait.
    obtain rfl : moment = some t := by cases moment <;> exact hlimit
    simp only [leads_bind, leads_set, Option.all_some, Nat.lt_irrefl, decide_false,
      Bool.false_eq_true, if_false]
    rintro ⟨⟩

namespace Tame

variable {Q : ∀ {α : Type}, Act σ α → Prop} (h : Tame Q)
include h

theorem pure (a : α) : Q (pure a : Act σ α) := h.idle fun s => ⟨.refl s, nofun⟩

theorem fail (e : BuildError) : Q (fail e : Act σ α) := h.idle fun s => ⟨.refl s, nofun⟩

theorem forever : Q (throw .forever : Act σ α) := h.idle fun s => ⟨.refl s, nofun⟩

theorem get : Q (get : Act σ (Stage σ)) := h.idle fun s => ⟨.refl s, nofun⟩

theorem exchange (n : Nat) : Q (exchange n : Act σ Unit) := h.idle fun _ => ⟨⟨rfl, rfl, rfl⟩, nofun⟩

theorem giveWay (hw : w.deadline = none) : Q (giveWay w : Act σ Unit) := h.idle (idle_giveWay hw)

theorem takeTurns (hw : w.deadline = none) : Q (takeTurns w : Act σ Unit) :=
  h.bind h.get fun _ => of_ite _ (h.giveWay hw) (h.pure ())

theorem checkCaller : Q (checkCaller : Act σ Unit) :=
  h.bind (h.takeTurns rfl) fun _ => h.bind h.get fun _ => of_ite _ (h.fail .cancelled) (h.pure ())

theorem wait (hw : w.deadline = none) (delay : Nat) : Q (wait w delay : Act σ Unit) :=
  h.bind (h.takeTurns hw) fun _ => h.bind h.get fun _ => h.idle (idle_waitUntil hw _)

theorem follow (hw : w.deadline = none) (p : Pace) : Q (follow w p : Act σ Unit) := by
  have hdelay : Q (p.delay.elim (Pure.pure ()) (Act.wait w) : Act σ Unit) := by
    cases p.delay with
    | none => exact h.pure ()
    | some delay => exact h.wait hw delay
  have hcancel : Q (cancel : Act σ Unit) := h.idle fun _ => ⟨⟨rfl, rfl, rfl⟩, nofun⟩
  rw [follow_eq]
  refine h.bind hdelay fun _ => h.bind (of_ite _ hcancel (h.pure ())) fun _ => ?_
  exact of_ite _ (h.idle (idle_waitUntil hw none)) (h.pure ())

theorem display (e : Event) : Q (display e : Act σ (Option IoError)) := by
  refine h.bind (h.shown e) fun _ => h.bind h.get fun s => ?_
  cases s.screen.render e
  · exact h.pure _
  · exact h.pure _

theorem woven : Woven Q where
  pure := h.pure
  fail := h.fail
  bind := h.bind
  attempt := h.attempt
  look hf _ := h.bind h.get hf
  exchange := h.exchange
  giveWay := h.giveWay
  checkCaller := h.checkCaller
  follow := h.follow
  display := h.display

theorem ofExcept (r : Except BuildError α) : Q (ofExcept r : Act σ α) := h.woven.ofExcept r

theorem receive (hw : w.deadline = none) (r : Reply α) : Q (receive w r : Act σ α) := h.woven.receive hw r

theorem announce (e : Event) : Q (announce e : Act σ Unit) := h.woven.announce e

end Tame
end Act
end ImageBuild
