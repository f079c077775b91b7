import ImageBuild.Stage
/-!
# What actions lead to

An action takes a stage to a result and a later stage.  `Leads` states a property of the two, and
each way of putting actions together has a rule for it, so that what an action leads to is shown from
what its parts lead to.
-/

namespace ImageBuild

/-- What a screen answers to an event that it cannot show. -/
def Screen.faultOf? (screen : Screen) (e : Event) : Option IoError :=
  match screen.render e with
  | .ok _ => none
  | .error fault => some fault

theorem Screen.faultOf?_eq_none {screen : Screen} (h : screen.fault = none) (e : Event) :
    screen.faultOf? e = none := by
  rw [faultOf?, render, write, h]
  cases screen.shows e <;> rfl

namespace Act

variable {σ α β : Type}

/-- The result of an action on a stage, and the stage after it. -/
def play (act : Act σ α) (s : Stage σ) : Except Halt α × Stage σ := (ExceptT.run act).run s

/-- The action ends in a result and a stage for which `post` holds. -/
def Leads (act : Act σ α) (s : Stage σ) (post : Except Halt α → Stage σ → Prop) : Prop :=
  post (play act s).1 (play act s).2

variable {act : Act σ α} {s : Stage σ} {post : Except Halt α → Stage σ → Prop}

theorem Leads.mono {weaker : Except Halt α → Stage σ → Prop} (h : Leads act s post)
    (himp : ∀ r t, post r t → weaker r t) : Leads act s weaker :=
  himp _ _ h

theorem Leads.and {other : Except Halt α → Stage σ → Prop} (h : Leads act s post)
    (hother : Leads act s other) : Leads act s fun r t => post r t ∧ other r t :=
  ⟨h, hother⟩

theorem of_ite {Q : Act σ α → Prop} {act other : Act σ α} (c : Prop) [Decidable c] (hact : Q act)
    (hother : Q other) : Q (if c then act else other) := by
  split
  · exact hact
  · exact hother

theorem leads_pure {a : α} : Leads (pure a) s post ↔ post (.ok a) s := Iff.rfl

theorem leads_throw {h : Halt} : Leads (throw h) s post ↔ post (.error h) s := Iff.rfl

theorem leads_fail {e : BuildError} : Leads (fail e) s post ↔ post (.error (.failed e)) s := Iff.rfl

theorem leads_get {after : Except Halt (Stage σ) → Stage σ → Prop} :
    Leads (get : Act σ (Stage σ)) s after ↔ after (.ok s) s := Iff.rfl

theorem leads_set {t : Stage σ} {after : Except Halt PUnit → Stage σ → Prop} :
    Leads (set t : Act σ PUnit) s after ↔ after (.ok ⟨⟩) t := Iff.rfl

theorem play_bind (act : Act σ α) (f : α → Act σ β) (s : Stage σ) :
    play (act >>= f) s =
      match play act s with
      | (.ok a, t) => play (f a) t
      | (.error h, t) => (.error h, t) := by
  change ExceptT.bindCont f (play act s).1 (play act s).2 = _
  obtain ⟨_ | a, t⟩ := play act s <;> rfl

theorem leads_bind {f : α → Act σ β} {after : Except Halt β → Stage σ → Prop} :
    Leads (act >>= f) s after ↔ Leads act s fun r t =>
      match r with
      | .ok a => Leads (f a) t after
      | .error h => after (.error h) t := by
  rw [Leads, Leads, play_bind]
  obtain ⟨_ | a, t⟩ := play act s <;> rfl

theorem play_tryCatch (act : Act σ α) (handler : Halt → Act σ α) (s : Stage σ) :
    play (tryCatch act handler) s =
      match play act s with
      | (.ok a, t) => (.ok a, t)
      | (.error h, t) => play (handler h) t := by
  have hrun : play (tryCatch act handler) s = (ExceptT.run (ExceptT.tryCatch act handler)).run s :=
    rfl
  cases hact : play act s with
  | mk r t =>
      have hpair : StateT.run act s = (r, t) := hact
      rw [hrun, ExceptT.tryCatch, ExceptT.run_mk, StateT.run_bind, hpair]
      cases r <;> rfl

theorem leads_tryCatch {handler : Halt → Act σ α} :
    Leads (tryCatch act handler) s post ↔ Leads act s fun r t =>
      match r with
      | .ok a => post (.ok a) t
      | .error h => Leads (handler h) t post := by
  rw [Leads, Leads, play_tryCatch]
  obtain ⟨_ | a, t⟩ := play act s <;> rfl

theorem leads_map {f : α → β} {after : Except Halt β → Stage σ → Prop} :
    Leads (f <$> act) s after ↔ Leads act s fun r t => after (r.map f) t := by
  rw [← bind_pure_comp, leads_bind]
  rw [Leads, Leads]
  obtain ⟨_ | a, t⟩ := play act s <;> rfl

theorem leads_attempt {after : Except Halt (Except BuildError α) → Stage σ → Prop} :
    Leads (attempt act) s after ↔ Leads act s fun r t =>
      match r with
      | .ok a => after (.ok (.ok a)) t
      | .error (.failed e) => after (.ok (.error e)) t
      | .error h => after (.error h) t := by
  rw [attempt, leads_tryCatch, leads_map, Leads, Leads]
  obtain ⟨(e | _ | _) | a, t⟩ := play act s <;> rfl

theorem leads_ofExcept {r : Except BuildError α} :
    Leads (ofExcept r) s post ↔ post (r.mapError .failed) s := by
  cases r <;> rfl

theorem leads_inPhase {p : Phase} :
    Leads (inPhase p act) s post ↔ Leads act s fun r t =>
      match r with
      | .error (.failed e) => post (.error (.failed (e.inPhase p))) t
      | r => post r t := by
  rw [inPhase, leads_tryCatch, Leads, Leads]
  obtain ⟨(e | _ | _) | a, t⟩ := play act s <;> rfl

theorem leads_note {entry : Entry} {after : Except Halt Unit → Stage σ → Prop} :
    Leads (note entry) s after ↔ after (.ok ()) { s with journal := entry :: s.journal } := Iff.rfl

theorem leads_reporting {report : Except BuildError α → Report} :
    Leads (reporting report act) s post ↔ Leads act s fun r t =>
      match r with
      | .ok a => post (.ok a) { t with journal := .reported (report (.ok a)) :: t.journal }
      | .error (.failed e) =>
        post (.error (.failed e)) { t with journal := .reported (report (.error e)) :: t.journal }
      | .error h => post (.error h) t := by
  rw [reporting, leads_bind, leads_attempt, Leads, Leads]
  obtain ⟨(e | _ | _) | a, t⟩ := play act s <;> rfl

theorem leads_start {p : Phase} {after : Except Halt Nat → Stage σ → Prop} :
    Leads (start p) s after ↔
      after (.ok s.recorder.starts) { s with journal := .marked (.start p) :: s.journal } := Iff.rfl

theorem leads_display {e : Event} {after : Except Halt (Option IoError) → Stage σ → Prop} :
    Leads (display e) s after ↔
      after (.ok (s.screen.faultOf? e)) { s with journal := .shown e :: s.journal } := by
  rw [display, leads_bind, leads_note]
  simp only [leads_bind, leads_get, Screen.faultOf?]
  cases s.screen.render e <;> exact Iff.rfl

/-- Nobody hears whether an event that is announced could be shown. -/
theorem leads_announce {e : Event} {after : Except Halt Unit → Stage σ → Prop} :
    Leads (announce e) s after ↔ after (.ok ()) { s with journal := .shown e :: s.journal } := by
  rw [announce, leads_bind, leads_display]
  exact Iff.rfl

theorem leads_call {entry : α → Call} {f : σ → α × σ} :
    Leads (call entry f) s post ↔ post (.ok (f s.daemon).1)
      { s with
        daemon := (f s.daemon).2
        journal := .called s.now (entry (f s.daemon).1) :: s.journal } := Iff.rfl

end Act
end ImageBuild
