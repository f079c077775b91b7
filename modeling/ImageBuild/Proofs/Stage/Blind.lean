import ImageBuild.Proofs.Stage.Landmarks
/-!
# Actions that do not see the screen

An action learns of the screen only whether an event could be shown.  So on two stages that are the same but for
their screens, and whose screens fail alike, it comes to the same result and leaves stages behind that again are
the same but for their screens.
-/

namespace ImageBuild

variable {σ α β : Type}

namespace Act

/-- The action does the same before every screen that fails as the screen of the stage does. -/
def Blind (act : Act σ α) : Prop :=
  ∀ s screen, screen.faultOf? = s.screen.faultOf? → Leads act s fun r t =>
    t.screen = s.screen ∧ play act (s.on screen) = (r, t.on screen)

variable {act : Act σ α} {f : α → Act σ β}

theorem blind_pure (a : α) : Blind (pure a : Act σ α) := fun _ _ _ => ⟨rfl, rfl⟩

theorem blind_throw (h : Halt) : Blind (throw h : Act σ α) := fun _ _ _ => ⟨rfl, rfl⟩

theorem blind_fail (e : BuildError) : Blind (fail e : Act σ α) := blind_throw (.failed e)

theorem blind_note (e : Entry) : Blind (note e : Act σ Unit) := fun _ _ _ => ⟨rfl, rfl⟩

theorem blind_call (entry : α → Call) (g : σ → α × σ) : Blind (call entry g : Act σ α) :=
  fun _ _ _ => ⟨rfl, rfl⟩

theorem Blind.bind (hact : Blind act) (hf : ∀ a, Blind (f a)) : Blind (act >>= f) := by
  intro s screen hscreen
  rw [leads_bind]
  refine (hact s screen hscreen).mono fun r t ht => ?_
  obtain ⟨hsame, hplay⟩ := ht
  rw [play_bind, hplay]
  cases r with
  | error h => exact ⟨hsame, rfl⟩
  | ok a =>
      refine (hf a t screen (hscreen.trans (by rw [hsame]))).mono fun r' u hu => ?_
      exact ⟨hu.1.trans hsame, hu.2⟩

theorem Blind.tryCatch {handler : Halt → Act σ α} (hact : Blind act) (hh : ∀ h, Blind (handler h)) :
    Blind (tryCatch act handler) := by
  intro s screen hscreen
  rw [leads_tryCatch]
  refine (hact s screen hscreen).mono fun r t ht => ?_
  obtain ⟨hsame, hplay⟩ := ht
  rw [play_tryCatch, hplay]
  cases r with
  | ok a => exact ⟨hsame, rfl⟩
  | error h =>
      refine (hh h t screen (hscreen.trans (by rw [hsame]))).mono fun r' u hu => ?_
      exact ⟨hu.1.trans hsame, hu.2⟩

theorem Blind.attempt (h : Blind act) : Blind (attempt act) := by
  rw [Act.attempt, ← bind_pure_comp]
  refine (h.bind fun a => blind_pure _).tryCatch fun halt => ?_
  cases halt with
  | failed e => exact blind_pure _
  | overdue => exact blind_throw .overdue
  | forever => exact blind_throw .forever

/-- What is read off the stage is not its screen. -/
theorem blind_look {f : Stage σ → Act σ α} (hf : ∀ s, Blind (f s))
    (hsame : ∀ s screen, f (s.on screen) = f s) : Blind (get >>= f) := by
  intro s screen hscreen
  have hplay : play (get >>= f) (s.on screen) = play (f s) (s.on screen) := by
    rw [← hsame s screen]
    rfl
  rw [leads_bind, leads_get, hplay]
  exact hf s s screen hscreen

/-- The stage is left as it was found but for its clock and its caller. -/
theorem blind_pass {g : Stage σ → Stage σ} {f : Stage σ → Act σ α} (hf : ∀ s, Blind (f s))
    (hscreen : ∀ s, (g s).screen = s.screen) (hon : ∀ s screen, g (s.on screen) = (g s).on screen)
    (hsame : ∀ s screen, f (s.on screen) = f s) :
    Blind (get >>= fun s => set (g s) >>= fun _ => f s) := by
  intro s screen hs
  have hplay : play (get >>= fun s => set (g s) >>= fun _ => f s) (s.on screen) =
      play (f s) ((g s).on screen) := by
    rw [← hon, ← hsame s screen]
    rfl
  have hafter : Leads (f s) (g s) fun r t =>
      t.screen = (g s).screen ∧ play (f s) ((g s).on screen) = (r, t.on screen) :=
    hf s (g s) screen (by rw [hs, hscreen])
  rw [hplay]
  exact ⟨hafter.1.trans (hscreen s), hafter.2⟩

theorem blind_giveWay (w : Watch) : Blind (giveWay w : Act σ Unit) := by
  have hlast : ∀ c : Bool, Blind (if c = true then fail .cancelled else pure () : Act σ Unit) :=
    fun c => of_ite (c = true) (blind_fail .cancelled) (blind_pure ())
  have hrest : ∀ b c : Bool, Blind (do
      if b then throw .overdue
      if c then fail .cancelled : Act σ Unit) := fun b c =>
    of_ite (b = true) ((blind_throw .overdue).bind fun _ => hlast c) (hlast c)
  exact blind_pass (fun s => hrest _ _) (fun _ => rfl) (fun _ _ => rfl) fun _ _ => rfl

theorem blind_waitUntil (w : Watch) (moment : Option Nat) : Blind (waitUntil w moment : Act σ Unit) := by
  intro s screen _
  have hmoment : (s.on screen).cancelMoment? = s.cancelMoment? := rfl
  rw [waitUntil, leads_bind, leads_get, play_bind]
  -- The other stage is got too, and what is read off it is the same.
  change Leads _ s fun r t => t.screen = s.screen ∧ play _ (s.on screen) = (r, t.on screen)
  simp only [hmoment]
  generalize (if w.caller = true then s.cancelMoment? (earlier? moment w.deadline) else none) = interruption
  generalize earlier? moment w.deadline = limit
  cases interruption with
  | some t => exact ⟨rfl, rfl⟩
  | none =>
      cases limit with
      | none => exact ⟨rfl, rfl⟩
      | some t =>
          simp only
          cases moment.all (t < ·) <;> exact ⟨rfl, rfl⟩

theorem blind_takeTurns (w : Watch) : Blind (takeTurns w : Act σ Unit) :=
  blind_look (fun _ => of_ite _ (blind_giveWay w) (blind_pure ())) fun _ _ => rfl

theorem blind_checkCaller : Blind (checkCaller : Act σ Unit) :=
  (blind_takeTurns .forCaller).bind fun _ =>
    blind_look (fun _ => of_ite _ (blind_fail .cancelled) (blind_pure ())) fun _ _ => rfl

theorem blind_wait (w : Watch) (delay : Nat) : Blind (wait w delay : Act σ Unit) :=
  (blind_takeTurns w).bind fun _ => blind_look (fun _ => blind_waitUntil w _) fun _ _ => rfl

theorem blind_follow (w : Watch) (p : Pace) : Blind (follow w p : Act σ Unit) := by
  have hdelay : Blind (p.delay.elim (pure ()) (wait w) : Act σ Unit) := by
    cases p.delay with
    | none => exact blind_pure ()
    | some delay => exact blind_wait w delay
  have hcancel : Blind (cancel : Act σ Unit) := fun _ _ _ => ⟨rfl, rfl⟩
  rw [follow_eq]
  refine hdelay.bind fun _ => (of_ite _ hcancel (blind_pure ())).bind fun _ => ?_
  exact of_ite _ (blind_waitUntil w none) (blind_pure ())

theorem blind_display (e : Event) : Blind (display e : Act σ (Option IoError)) := by
  intro s screen hscreen
  rw [leads_display]
  constructor
  · rfl
  have hother : Leads (display e) (s.on screen) fun r t => (r, t) =
      (.ok (s.screen.faultOf? e), { s with journal := .shown e :: s.journal }.on screen) := by
    rw [leads_display, ← hscreen]
    rfl
  exact hother

theorem woven_blind : Woven (fun {α} (act : Act σ α) => Blind act) where
  pure := blind_pure
  fail := blind_fail
  bind := Blind.bind
  attempt := Blind.attempt
  look := blind_look
  exchange _ := fun _ _ _ => ⟨rfl, rfl⟩
  giveWay _ := blind_giveWay _
  checkCaller := blind_checkCaller
  follow _ p := blind_follow _ p
  display := blind_display

/-! ## Phases and calls -/

theorem blind_ask (w : Watch) (c : Call) (g : σ → Reply α × σ) : Blind (ask w c g : Act σ α) :=
  (blind_call _ g).bind fun r => (blind_follow w r.pace).bind fun _ => woven_blind.ofExcept r.result

theorem Blind.inPhase (p : Phase) (h : Blind act) : Blind (inPhase p act) := by
  refine h.tryCatch fun halt => ?_
  cases halt with
  | failed e => exact blind_fail _
  | overdue => exact blind_throw .overdue
  | forever => exact blind_throw .forever

theorem Blind.reporting (report : Except BuildError α → Report) (h : Blind act) :
    Blind (reporting report act) :=
  h.attempt.bind fun _ => (blind_note _).bind fun _ => woven_blind.ofExcept _

theorem blind_within (timeout : Nat) (c : Call) (g : σ → Reply α × σ) :
    Blind (within timeout fun w => ask w c g : Act σ α) := by
  refine blind_checkCaller.bind fun _ => blind_look (fun s => ?_) fun _ _ => rfl
  refine (blind_ask _ c g).tryCatch fun halt => ?_
  cases halt with
  | failed e => exact blind_throw (.failed e)
  | overdue => exact blind_fail _
  | forever => exact blind_throw .forever

theorem asking_blind : Asking (fun {α} (act : Act σ α) => Blind act) where
  toWoven := woven_blind
  forever := blind_throw .forever
  wait _ := blind_wait _
  call := blind_call
  within := blind_within
  inPhase := Blind.inPhase
  note := fun {e} _ => blind_note e

theorem Blind.closing (ticket : Nat) (h : Blind act) : Blind (closing ticket act) :=
  h.attempt.bind fun _ => (blind_note _).bind fun _ => woven_blind.ofExcept _

theorem blind_start (p : Phase) : Blind (start p : Act σ Nat) :=
  blind_look (fun _ => (blind_note _).bind fun _ => blind_pure _) fun _ _ => rfl

theorem Blind.during (p : Phase) (h : Blind act) : Blind (during p act) :=
  (blind_start p).bind fun ticket => h.closing ticket

end Act
end ImageBuild
