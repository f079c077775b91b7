import ImageBuild.Proofs.Stage.Waiting
import Mathlib.Order.Defs.Unbundled
/-!
# What actions leave alone

Whatever an action comes to, the stage after it is related to the one before.  A relation in which a stage
may rest, and which goes from step to step, is carried through every way of putting actions together.
Waiting is framed most tightly: it moves the clock on and may find out that the caller gave up, and the
journal, the screen and the daemon rest.
-/

namespace ImageBuild

variable {σ α β : Type}

namespace Act

/-- The stage after the action is related to the one before. -/
def Frames (R : Stage σ → Stage σ → Prop) (act : Act σ α) : Prop :=
  ∀ s, Leads act s fun _ t => R s t

variable {R : Stage σ → Stage σ → Prop} [IsPreorder (Stage σ) R] {act : Act σ α} {f : α → Act σ β}

theorem Frames.bind (hact : Frames R act) (hf : ∀ a, Frames R (f a)) : Frames R (act >>= f) := by
  intro s
  rw [leads_bind]
  refine (hact s).mono fun r t ht => ?_
  cases r with
  | error h => exact ht
  | ok a => exact (hf a t).mono fun _ u hu => IsTrans.trans s t u ht hu

omit [IsPreorder (Stage σ) R] in
theorem Frames.attempt (h : Frames R act) : Frames R (attempt act) := by
  intro s
  rw [leads_attempt]
  refine (h s).mono fun r t ht => ?_
  rcases r with (_ | _ | _) | _ <;> exact ht

theorem frames_pure (a : α) : Frames R (pure a) := fun s => Std.Refl.refl s

theorem frames_throw (h : Halt) : Frames R (throw h : Act σ α) := fun s => Std.Refl.refl s

theorem frames_fail (e : BuildError) : Frames R (fail e : Act σ α) := frames_throw (.failed e)

theorem frames_get : Frames R (get : Act σ (Stage σ)) := fun s => Std.Refl.refl s

theorem frames_ofExcept (r : Except BuildError α) : Frames R (ofExcept r) := by
  intro s
  rw [leads_ofExcept]
  exact Std.Refl.refl s

end Act

/-- Of all that can be seen of a stage, only the clock and the caller may have moved. -/
structure Rests (s t : Stage σ) : Prop where
  journal : t.journal = s.journal
  screen : t.screen = s.screen
  daemon : t.daemon = s.daemon

instance : IsPreorder (Stage σ) Rests where
  refl _ := ⟨rfl, rfl, rfl⟩
  trans _ _ _ h h' :=
    ⟨h'.journal.trans h.journal, h'.screen.trans h.screen, h'.daemon.trans h.daemon⟩

theorem Rests.refl (s : Stage σ) : Rests s s := ⟨rfl, rfl, rfl⟩

theorem Rests.trans {s t u : Stage σ} (h : Rests s t) (h' : Rests t u) : Rests s u :=
  IsTrans.trans s t u h h'

def Entry.event? : Entry → Option Event
  | shown e => some e
  | _ => none

def Stage.events (s : Stage σ) : List Event := s.entries.filterMap Entry.event?

theorem Stage.events_of_journal_eq_cons {s t : Stage σ} {e : Entry}
    (h : t.journal = e :: s.journal) : t.events = s.events ++ e.event?.toList := by
  rw [events, entries, h, List.reverse_cons, List.filterMap_append, events, entries]
  cases hevent : e.event? <;> simp [hevent]

theorem Rests.events {s t : Stage σ} (h : Rests s t) : t.events = s.events := by
  rw [Stage.events, Stage.entries, h.journal]
  rfl

namespace Act

/-! ## Ways of waiting -/

/-- A relation of a stage to all that waiting makes of it: the clock goes on, and a caller who has given up
is not asked again. -/
structure Patient (R : Stage σ → Stage σ → Prop) : Prop where
  passes : ∀ (s : Stage σ) {now : Nat} {cancelled : Bool} (waits : Nat), s.now ≤ now →
    (s.cancelled = true → cancelled = true) → R s { s with now, cancelled, waits }

theorem patient_rests : Patient (Rests (σ := σ)) := ⟨fun _ _ _ _ _ _ => ⟨rfl, rfl, rfl⟩⟩

/-- Nobody takes back that they gave up. -/
theorem patient_gaveUp : Patient fun s t : Stage σ => s.GaveUp → t.GaveUp where
  passes s now cancelled waits hnow hcancelled := by
    rintro (hs | ⟨c, hc, hle⟩)
    · exact .inl (hcancelled hs)
    · exact .inr ⟨c, hc, Nat.le_trans hle hnow⟩

namespace Patient

variable {R : Stage σ → Stage σ → Prop} [IsPreorder (Stage σ) R] (h : Patient R)
include h

omit [IsPreorder (Stage σ) R] in
theorem exchange (n : Nat) : Frames R (exchange n : Act σ Unit) :=
  fun s => h.passes s _ (Nat.le_refl s.now) id

/-- Waiting goes on from the stage that it has come to. -/
theorem set_bind {s : Stage σ} {now : Nat} {cancelled : Bool} (waits : Nat) {f : PUnit → Act σ β}
    (hnow : s.now ≤ now) (hcancelled : s.cancelled = true → cancelled = true) (hf : Frames R (f ⟨⟩)) :
    Leads (set { s with now, cancelled, waits } >>= f) s fun _ t => R s t := by
  rw [leads_bind, leads_set]
  exact (hf _).mono fun _ t ht => IsTrans.trans s _ t (h.passes s waits hnow hcancelled) ht

theorem giveWay (w : Watch) : Frames R (giveWay w : Act σ Unit) := by
  intro s
  have hcaller : Frames R (fail .cancelled : Act σ Unit) := frames_fail .cancelled
  have hoverdue : Frames R (throw .overdue : Act σ Unit) := frames_throw .overdue
  have hlast := fun c : Bool => of_ite (c = true) hcaller (frames_pure ())
  have hrest := fun b c : Bool => of_ite (b = true) (hoverdue.bind fun _ => hlast c) (hlast c)
  rw [Act.giveWay, leads_bind, leads_get]
  exact h.set_bind 0 (Nat.le_refl s.now) (fun hs => by rw [hs, Bool.true_or]) (hrest _ _)

theorem takeTurns (w : Watch) : Frames R (takeTurns w : Act σ Unit) :=
  frames_get.bind fun _ => of_ite _ (h.giveWay w) (frames_pure ())

theorem waitUntil (w : Watch) (moment : Option Nat) :
    Frames R (waitUntil w moment : Act σ Unit) := by
  intro s
  rw [Act.waitUntil, leads_bind, leads_get]
  simp only
  split
  · rename_i now hinterruption
    have hnow : s.now ≤ now := by
      split_ifs at hinterruption
      rcases (cancelMoment?_eq_some hinterruption).1 with ⟨-, rfl⟩ | ⟨c, -, rfl⟩
      · exact Nat.le_refl s.now
      · exact Nat.le_max_left s.now c
    exact h.set_bind 0 hnow id (frames_fail .cancelled)
  · exact Std.Refl.refl s
  · have hoverdue : Frames R (throw .overdue : Act σ Unit) := frames_throw .overdue
    exact h.set_bind _ (Nat.le_max_left s.now _) id (of_ite _ hoverdue (frames_pure ()))

theorem wait (w : Watch) (delay : Nat) : Frames R (Act.wait w delay : Act σ Unit) :=
  (h.takeTurns w).bind fun _ => frames_get.bind fun _ => h.waitUntil w _

theorem follow (w : Watch) (p : Pace) : Frames R (follow w p : Act σ Unit) := by
  have hdelay : Frames R (p.delay.elim (pure ()) (Act.wait w) : Act σ Unit) := by
    cases p.delay with
    | none => exact frames_pure ()
    | some delay => exact h.wait w delay
  have hcancel : Frames R (cancel : Act σ Unit) := fun s => h.passes s _ (Nat.le_refl s.now) fun _ => rfl
  rw [follow_eq]
  refine hdelay.bind fun _ => (of_ite _ hcancel (frames_pure ())).bind fun _ => ?_
  exact of_ite _ (h.waitUntil w none) (frames_pure ())

theorem checkCaller : Frames R (checkCaller : Act σ Unit) :=
  (h.takeTurns .forCaller).bind fun _ => frames_get.bind fun _ =>
    of_ite _ (frames_fail .cancelled) (frames_pure ())

theorem receive (w : Watch) (r : Reply α) : Frames R (receive w r : Act σ α) :=
  (h.follow w r.pace).bind fun _ => frames_ofExcept r.result

end Patient
end Act
end ImageBuild
