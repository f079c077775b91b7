import ImageBuild.Proofs.Stage.Tame
/-!
# Actions that take no step

Much of what a build does is noticed by nobody but the clock and the screen: it waits, it shows events
and it marks phases.  Such an action leaves the daemon and the steps as they are.
-/

namespace ImageBuild

variable {σ α β : Type}

structure Still (s t : Stage σ) : Prop where
  daemon : t.daemon = s.daemon
  steps : t.steps = s.steps

namespace Still

variable {s t u : Stage σ}

theorem refl (s : Stage σ) : Still s s := ⟨rfl, rfl⟩

theorem trans (h : Still s t) (h' : Still t u) : Still s u :=
  ⟨h'.daemon.trans h.daemon, h'.steps.trans h.steps⟩

instance : IsPreorder (Stage σ) Still where
  refl := refl
  trans _ _ _ := trans

end Still

theorem Rests.still {s t : Stage σ} (h : Rests s t) : Still s t :=
  ⟨h.daemon, by rw [Stage.steps, Stage.entries, h.journal]; rfl⟩

theorem Elapsed.still {s t : Stage σ} (h : Elapsed s t) : Still s t := ⟨h.daemon, h.steps⟩

namespace Act

variable {act : Act σ α} {f : α → Act σ β} {s : Stage σ}

def Quiet (act : Act σ α) : Prop := ∀ s, Leads act s fun _ t => Still s t

/-- What comes after a quiet action takes place as if on the stage before it. -/
theorem leads_quiet_bind {post : Except Halt β → Stage σ → Prop} (hact : Quiet act)
    (hf : ∀ a t, Still s t → Leads (f a) t post)
    (herror : ∀ h t, Still s t → post (.error h) t) : Leads (act >>= f) s post := by
  rw [leads_bind]
  refine (hact s).mono fun r t ht => ?_
  cases r with
  | error h => exact herror h t ht
  | ok a => exact hf a t ht

theorem Quiet.bind (hact : Quiet act) (hf : ∀ a, Quiet (f a)) : Quiet (act >>= f) :=
  Frames.bind hact hf

theorem Quiet.attempt (h : Quiet act) : Quiet (attempt act) := Frames.attempt h

theorem quiet_of_rests (h : Frames Rests act) : Quiet act :=
  fun s => (h s).mono fun _ _ ht => ht.still

theorem quiet_pure (a : α) : Quiet (pure a : Act σ α) := frames_pure a

theorem quiet_throw (h : Halt) : Quiet (throw h : Act σ α) := frames_throw h

theorem quiet_get : Quiet (get : Act σ (Stage σ)) := frames_get

theorem quiet_ofExcept (r : Except BuildError α) : Quiet (ofExcept r : Act σ α) := frames_ofExcept r

theorem quiet_note {e : Entry} (h : e.isStep = false) : Quiet (note e : Act σ Unit) := by
  intro s
  rw [leads_note]
  refine ⟨rfl, ?_⟩
  rw [Stage.steps_of_journal_eq_cons rfl, List.filter_cons_of_neg (by simp [h])]
  exact List.append_nil _

theorem quiet_start (p : Phase) : Quiet (start p : Act σ Nat) :=
  quiet_get.bind fun _ => (quiet_note rfl).bind fun _ => quiet_pure _

theorem quiet_finish (ticket : Nat) : Quiet (finish ticket : Act σ Unit) := quiet_note rfl

theorem leads_closing {post : Except Halt α → Stage σ → Prop} {ticket : Nat}
    (hstill : ∀ r t u, Still t u → post r t → post r u) (h : Leads act s post) :
    Leads (closing ticket act) s post := by
  rw [closing, leads_bind, leads_attempt]
  refine h.mono fun r t ht => ?_
  have hfinish : ∀ result : Except BuildError α, post (result.mapError .failed) t →
      Leads (finish ticket >>= fun _ => ofExcept result) t post := by
    intro result hresult
    rw [leads_bind, finish, leads_note]
    simp only
    rw [leads_ofExcept]
    exact hstill _ t _ (quiet_finish ticket t) hresult
  rcases r with (e | _ | _) | a
  · exact hfinish (.error e) ht
  · exact ht
  · exact ht
  · exact hfinish (.ok a) ht

theorem tame_quiet : Tame (fun {α} (act : Act σ α) => Quiet act) where
  idle h := quiet_of_rests fun s => (h s).mono fun _ _ ht => ht.1
  shown _ := quiet_note rfl
  bind := Quiet.bind
  attempt := Quiet.attempt

theorem quiet_announce (e : Event) : Quiet (announce e : Act σ Unit) := tame_quiet.announce e

/-! ## Waiting -/

theorem quiet_takeTurns (w : Watch) : Quiet (takeTurns w : Act σ Unit) :=
  quiet_of_rests (patient_rests.takeTurns w)

theorem quiet_wait (w : Watch) (delay : Nat) : Quiet (wait w delay : Act σ Unit) :=
  quiet_of_rests (patient_rests.wait w delay)

theorem quiet_follow (w : Watch) (p : Pace) : Quiet (follow w p : Act σ Unit) :=
  quiet_of_rests (patient_rests.follow w p)

theorem quiet_checkCaller : Quiet (checkCaller : Act σ Unit) := quiet_of_rests patient_rests.checkCaller

theorem quiet_receive (w : Watch) (r : Reply α) : Quiet (receive w r : Act σ α) :=
  quiet_of_rests (patient_rests.receive w r)

end Act
end ImageBuild
