import ImageBuild.Proofs.Stage.Leads
/-!
# Actions that nothing disturbs

Much of what a build comes to is settled by what the daemon replies, as long as nobody gives up and the
screen works.  On a stage that is calm in this sense an action settles on a result if it comes to that
result whatever else the stage holds; and the stage stays calm.
-/

namespace ImageBuild

variable {σ α β : Type}

/-- Nobody gives up, and the screen works. -/
structure Stage.Calm (s : Stage σ) : Prop where
  cancelled : s.cancelled = false
  cancelAt : s.cancelAt = none
  fault : s.screen.fault = none

theorem Stage.Calm.isCancelled {s : Stage σ} (h : s.Calm) : s.isCancelled = false := by
  rw [Stage.isCancelled, h.cancelled, h.cancelAt]
  rfl

namespace Act

def Settles (act : Act σ α) (result : Except BuildError α) : Prop :=
  ∀ s : Stage σ, s.Calm → Leads act s fun r t => r = result.mapError .failed ∧ t.Calm

variable {act : Act σ α} {f : α → Act σ β} {result : Except BuildError β}

theorem Settles.bind {a : α} (h : Settles act (.ok a)) (hf : Settles (f a) result) :
    Settles (act >>= f) result := by
  intro s hs
  rw [leads_bind]
  refine (h s hs).mono fun r t ht => ?_
  obtain ⟨rfl, hcalm⟩ := ht
  exact hf t hcalm

theorem Settles.get_bind {f : Stage σ → Act σ β} (h : ∀ s, Settles (f s) result) :
    Settles (get >>= f) result := by
  intro s hs
  rw [leads_bind, leads_get]
  exact h s s hs

theorem Settles.ite {other : Act σ β} {act : Act σ β} (c : Prop) [Decidable c]
    (h : Settles act result) (hother : Settles other result) :
    Settles (if c then act else other) result := by
  split
  · exact h
  · exact hother

theorem settles_pure (a : α) : Settles (pure a : Act σ α) (.ok a) := fun _ hs => ⟨rfl, hs⟩

theorem settles_ofExcept (result : Except BuildError α) :
    Settles (ofExcept result : Act σ α) result := by
  intro s hs
  rw [leads_ofExcept]
  exact ⟨rfl, hs⟩

theorem Settles.attempt {result : Except BuildError α} (h : Settles act result) :
    Settles (attempt act) (.ok result) := by
  intro s hs
  rw [leads_attempt]
  refine (h s hs).mono fun r t ht => ?_
  obtain ⟨rfl, hcalm⟩ := ht
  cases result <;> exact ⟨rfl, hcalm⟩

theorem settles_call {entry : α → Call} {f : σ → α × σ} {a : α} (h : ∀ x, (f x).1 = a) :
    Settles (call entry f) (.ok a) := by
  intro s hs
  rw [leads_call, h]
  exact ⟨rfl, hs.cancelled, hs.cancelAt, hs.fault⟩

theorem settles_exchange (n : Nat) : Settles (exchange n : Act σ Unit) (.ok ()) :=
  fun _ hs => ⟨rfl, hs.cancelled, hs.cancelAt, hs.fault⟩

theorem settles_giveWay {w : Watch} (hw : w.deadline = none) :
    Settles (giveWay w : Act σ Unit) (.ok ()) := by
  intro s hs
  rw [giveWay, leads_bind, leads_get]
  simp only [leads_bind, leads_set, hw, hs.cancelled, hs.cancelAt, Option.any_none, Bool.or_self,
    Bool.and_false, Bool.false_eq_true, if_false]
  rw [leads_pure]
  exact ⟨rfl, rfl, rfl, hs.fault⟩

theorem settles_checkCaller : Settles (checkCaller : Act σ Unit) (.ok ()) := by
  have hturns : Settles (takeTurns .forCaller : Act σ Unit) (.ok ()) :=
    .get_bind fun _ => .ite _ (settles_giveWay rfl) (settles_pure ())
  refine hturns.bind fun s hs => ?_
  rw [leads_bind, leads_get]
  simp only [hs.isCancelled, Bool.false_eq_true, if_false]
  exact ⟨rfl, hs⟩

/-- A reply that takes no time. -/
theorem settles_receive (w : Watch) (result : Except BuildError α) :
    Settles (receive w { result } : Act σ α) result :=
  (settles_pure ()).bind (settles_ofExcept result)

theorem settles_display (e : Event) : Settles (display e : Act σ (Option IoError)) (.ok none) := by
  intro s hs
  rw [leads_display, Screen.faultOf?_eq_none hs.fault]
  exact ⟨rfl, hs.cancelled, hs.cancelAt, hs.fault⟩

theorem settles_announceAll (events : List Event) :
    Settles (events.forM announce : Act σ Unit) (.ok ()) := by
  induction events with
  | nil => exact settles_pure ()
  | cons e rest ih => exact ((settles_display e).bind (settles_pure ())).bind ih

end Act
end ImageBuild
