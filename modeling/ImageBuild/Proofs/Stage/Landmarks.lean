import ImageBuild.Proofs.Recorder.Nesting
import ImageBuild.Proofs.Stage.Tame
/-!
# The landmarks of a build

A build goes from landmark to landmark: the marks of its phases, what its probe found, and what came of its
driver.  Between them it does what it likes, as long as it is not overdue.  `Traces` states which landmarks
an action that comes to an end has left behind, and how its result fits them.
-/

namespace ImageBuild

namespace Entry

def isLandmark : Entry → Bool
  | marked _ => true
  | reported (.probe _) => true
  | reported (.driver _) => true
  | _ => false

def marks (word : List Entry) : List Mark := word.filterMap mark?

@[simp] theorem marks_nil : marks [] = [] := rfl

@[simp] theorem marks_cons_marked (m : Mark) (word : List Entry) :
    marks (marked m :: word) = m :: marks word := rfl

@[simp] theorem marks_cons_reported (r : Report) (word : List Entry) :
    marks (reported r :: word) = marks word := rfl

@[simp] theorem marks_append (front back : List Entry) :
    marks (front ++ back) = marks front ++ marks back := List.filterMap_append

/-- The landmarks of a phase that has the ticket `n`. -/
def phase (p : Phase) (n : Nat) (inner : List Entry) : List Entry :=
  marked (.start p) :: inner ++ [marked (.finish n)]

theorem marks_phase (p : Phase) (n : Nat) (inner : List Entry) :
    marks (phase p n inner) = .start p :: marks inner ++ [.finish n] := by
  rw [phase, List.cons_append, marks_cons_marked, marks_append]
  rfl

end Entry

namespace Stage

variable {σ : Type} {s t : Stage σ}

def landmarks (s : Stage σ) : List Entry := s.entries.filter Entry.isLandmark

def marks (s : Stage σ) : List Mark := s.entries.filterMap Entry.mark?

theorem marks_eq (s : Stage σ) : s.marks = Entry.marks s.landmarks := by
  rw [landmarks, Entry.marks, List.filterMap_filter, marks]
  congr 1
  funext e
  cases e with
  | reported r => cases r <;> rfl
  | _ => rfl

theorem landmarks_of_journal_eq_cons {e : Entry} (h : t.journal = e :: s.journal) :
    t.landmarks = s.landmarks ++ [e].filter Entry.isLandmark := by
  simp only [landmarks, entries, h, List.reverse_cons, List.filter_append]

theorem starts_eq (s : Stage σ) : s.recorder.starts = Mark.starts (Entry.marks s.landmarks) := by
  rw [← marks_eq, ← Recorder.starts_ofMarks]
  rfl

theorem starts_of_landmarks {word : List Entry} (h : t.landmarks = s.landmarks ++ word) :
    t.recorder.starts = s.recorder.starts + Mark.starts (Entry.marks word) := by
  rw [starts_eq, starts_eq, h, Entry.marks_append, Mark.starts_append]

end Stage

variable {σ α β : Type}

def SameLandmarks (s t : Stage σ) : Prop := t.landmarks = s.landmarks

instance : IsPreorder (Stage σ) SameLandmarks where
  refl _ := rfl
  trans _ _ _ h h' := h'.trans h

theorem Rests.sameLandmarks {s t : Stage σ} (h : Rests s t) : SameLandmarks s t := by
  rw [SameLandmarks, Stage.landmarks, Stage.entries, h.journal]
  rfl

namespace Act

variable {act : Act σ α} {f : α → Act σ β}

/-! ## What leaves no landmark -/

/-- The action leaves no landmark, and is not overdue. -/
def Bare (act : Act σ α) : Prop := ∀ s, Leads act s fun r t => SameLandmarks s t ∧ r ≠ .error .overdue

theorem Bare.frames (h : Bare act) : Frames SameLandmarks act := fun s => (h s).mono fun _ _ ht => ht.1

theorem bare_note {e : Entry} (h : e.isLandmark = false) : Bare (note e : Act σ Unit) := by
  intro s
  rw [leads_note]
  refine ⟨?_, nofun⟩
  rw [SameLandmarks, Stage.landmarks_of_journal_eq_cons (s := s) rfl, List.filter_cons_of_neg (by simp [h])]
  exact List.append_nil _

theorem bare_call (entry : α → Call) (g : σ → α × σ) : Bare (call entry g : Act σ α) := by
  intro s
  rw [leads_call]
  refine ⟨?_, nofun⟩
  rw [SameLandmarks, Stage.landmarks_of_journal_eq_cons (s := s) rfl]
  exact List.append_nil _

theorem Bare.bind (hact : Bare act) (hf : ∀ a, Bare (f a)) : Bare (act >>= f) := by
  intro s
  rw [leads_bind]
  refine (hact s).mono fun r t ht => ?_
  cases r with
  | error h => exact ⟨ht.1, fun h => ht.2 (by cases h; rfl)⟩
  | ok a => exact (hf a t).mono fun _ _ hu => ⟨hu.1.trans ht.1, hu.2⟩

theorem Bare.attempt (h : Bare act) : Bare (attempt act) := by
  intro s
  rw [leads_attempt]
  refine (h s).mono fun r t ht => ?_
  rcases r with (e | _ | _) | a
  · exact ⟨ht.1, nofun⟩
  · exact absurd rfl ht.2
  · exact ⟨ht.1, nofun⟩
  · exact ⟨ht.1, nofun⟩

theorem tame_bare : Tame (fun {α} (act : Act σ α) => Bare act) where
  idle h := fun s => (h s).mono fun _ _ ht => ⟨ht.1.sameLandmarks, ht.2⟩
  shown _ := bare_note rfl
  bind := Bare.bind
  attempt := Bare.attempt

theorem Bare.inPhase (p : Phase) (h : Bare act) : Bare (inPhase p act) := by
  intro s
  rw [leads_inPhase]
  refine (h s).mono fun r t ht => ?_
  rcases r with (e | _ | _) | a
  · exact ⟨ht.1, nofun⟩
  · exact absurd rfl ht.2
  · exact ⟨ht.1, nofun⟩
  · exact ⟨ht.1, nofun⟩

/-- An action with a deadline is not overdue to whoever sees to it. -/
theorem bare_tryCatch {handler : Halt → Act σ α} (h : Frames SameLandmarks act)
    (hoverdue : Bare (handler .overdue)) (hrest : ∀ halt ≠ .overdue, handler halt = throw halt) :
    Bare (tryCatch act handler) := by
  intro s
  rw [leads_tryCatch]
  refine (h s).mono fun r t ht => ?_
  have hthrow : ∀ halt ≠ .overdue, Leads (handler halt) t fun r u =>
      SameLandmarks s u ∧ r ≠ .error .overdue := by
    intro halt hne
    rw [hrest halt hne, leads_throw]
    exact ⟨ht, fun h => hne (by cases h; rfl)⟩
  rcases r with (e | _ | _) | a
  · exact hthrow (.failed e) nofun
  · exact (hoverdue t).mono fun _ _ hu => ⟨hu.1.trans ht, hu.2⟩
  · exact hthrow .forever nofun
  · exact ⟨ht, nofun⟩

theorem ask_sameLandmarks (w : Watch) (c : Call) (g : σ → Reply α × σ) :
    Frames SameLandmarks (ask w c g : Act σ α) :=
  (bare_call _ g).frames.bind fun r s => (patient_rests.receive w r s).mono fun _ _ ht => ht.sameLandmarks

theorem bare_within (timeout : Nat) (c : Call) (g : σ → Reply α × σ) :
    Bare (within timeout fun w => ask w c g : Act σ α) := by
  refine tame_bare.checkCaller.bind fun _ => tame_bare.get.bind fun s => ?_
  refine bare_tryCatch (ask_sameLandmarks _ c g) (tame_bare.fail _) fun halt hne => ?_
  cases halt with
  | overdue => exact absurd rfl hne
  | failed e => rfl
  | forever => rfl

/-- A property of what a build does between its landmarks, calls included. -/
structure Asking (Q : ∀ {α : Type}, Act σ α → Prop) : Prop extends Woven Q where
  forever : ∀ {α : Type}, Q (throw .forever : Act σ α)
  wait : ∀ {w : Watch}, w.deadline = none → ∀ delay, Q (wait w delay)
  call : ∀ {α : Type} (entry : α → Call) (g : σ → α × σ), Q (call entry g)
  within : ∀ {α : Type} (timeout : Nat) (c : Call) (g : σ → Reply α × σ),
    Q (within timeout fun w => ask w c g)
  inPhase : ∀ {α : Type} {act : Act σ α} (p : Phase), Q act → Q (inPhase p act)
  note : ∀ {e : Entry}, e.isLandmark = false → Q (note e)

namespace Asking

variable {Q : ∀ {α : Type}, Act σ α → Prop} (h : Asking Q)
include h

theorem ask {w : Watch} (hw : w.deadline = none) (c : Call) (g : σ → Reply α × σ) :
    Q (ask w c g : Act σ α) :=
  h.bind (h.call _ g) fun r => h.receive hw r

theorem reporting {report : Except BuildError α → Report} (hact : Q act)
    (hreport : ∀ result, (Entry.reported (report result)).isLandmark = false) :
    Q (reporting report act) :=
  h.bind (h.attempt hact) fun result => h.bind (h.note (hreport result)) fun _ => h.ofExcept result

end Asking

theorem asking_bare : Asking (fun {α} (act : Act σ α) => Bare act) where
  toWoven := tame_bare.woven
  forever := tame_bare.forever
  wait hw delay := tame_bare.wait hw delay
  call := bare_call
  within := bare_within
  inPhase := Bare.inPhase
  note := bare_note

/-! ## What leaves landmarks -/

/-- What comes out of an action is not that it is overdue, and if it is a result then one that fits the
landmarks since a stage. -/
def Traced (post : Except BuildError α → List Entry → Prop) (s : Stage σ) (r : Except Halt α)
    (t : Stage σ) : Prop :=
  r ≠ .error .overdue ∧
    ∀ result, r = result.mapError .failed → ∃ word, t.landmarks = s.landmarks ++ word ∧ post result word

/-- What an action that begins when `n` phases have started leaves behind. -/
def Traces (act : Act σ α) (n : Nat) (post : Except BuildError α → List Entry → Prop) : Prop :=
  ∀ s, s.recorder.starts = n → Leads act s (Traced post s)

namespace Traced

variable {post : Except BuildError α → List Entry → Prop} {s t : Stage σ} {word : List Entry}

theorem of_result {r : Except BuildError α} (hword : t.landmarks = s.landmarks ++ word)
    (h : post r word) : Traced post s (r.mapError .failed) t := by
  refine ⟨by cases r <;> exact nofun, fun result hresult => ⟨word, hword, ?_⟩⟩
  have heq : r = result := by cases r <;> cases result <;> cases hresult <;> rfl
  exact heq ▸ h

theorem of_forever : Traced post s (.error .forever) t :=
  ⟨nofun, fun result hr => by cases result <;> cases hr⟩

/-- The cases of an outcome, of which that of being overdue is none. -/
theorem cases {r : Except Halt α} (h : Traced post s r t) :
    (∃ result word, r = result.mapError .failed ∧ t.landmarks = s.landmarks ++ word ∧
      post result word) ∨ r = .error .forever := by
  rcases r with (e | _ | _) | a
  · obtain ⟨word, hword, hpost⟩ := h.2 (.error e) rfl
    exact .inl ⟨.error e, word, rfl, hword, hpost⟩
  · exact absurd rfl h.1
  · exact .inr rfl
  · obtain ⟨word, hword, hpost⟩ := h.2 (.ok a) rfl
    exact .inl ⟨.ok a, word, rfl, hword, hpost⟩

end Traced

namespace Traces

variable {n : Nat} {post weaker : Except BuildError α → List Entry → Prop}
variable {after : Except BuildError β → List Entry → Prop}

theorem mono (h : Traces act n post) (himp : ∀ r word, post r word → weaker r word) :
    Traces act n weaker := by
  intro s hs
  refine (h s hs).mono fun r t ht => ?_
  obtain ⟨result, word, rfl, hword, hpost⟩ | rfl := ht.cases
  · exact .of_result hword (himp result word hpost)
  · exact .of_forever

theorem of_bare (h : Bare act) : Traces act n fun _ word => word = [] := by
  intro s _
  refine (h s).mono fun r t ht => ⟨ht.2, fun _ _ => ?_⟩
  exact ⟨[], ht.1.trans (List.append_nil _).symm, rfl⟩

theorem of_ofExcept {r : Except BuildError α} (h : post r []) :
    Traces (ofExcept r : Act σ α) n post := by
  intro s _
  rw [leads_ofExcept]
  exact .of_result (List.append_nil _).symm h

theorem of_pure {a : α} (h : post (.ok a) []) : Traces (pure a : Act σ α) n post :=
  of_ofExcept (r := .ok a) h

theorem of_fail {e : BuildError} (h : post (.error e) []) : Traces (fail e : Act σ α) n post :=
  of_ofExcept (r := .error e) h

theorem bind (hact : Traces act n post)
    (hok : ∀ a word, post (.ok a) word →
      Traces (f a) (n + Mark.starts (Entry.marks word)) fun r more => after r (word ++ more))
    (herror : ∀ e word, post (.error e) word → after (.error e) word) :
    Traces (act >>= f) n after := by
  intro s hs
  rw [leads_bind]
  refine (hact s hs).mono fun r t ht => ?_
  obtain ⟨result, word, rfl, hword, hpost⟩ | rfl := ht.cases
  · cases result with
    | error e => exact .of_result (r := .error e) hword (herror e word hpost)
    | ok a =>
        have hstarts : t.recorder.starts = n + Mark.starts (Entry.marks word) := by
          rw [Stage.starts_of_landmarks hword, hs]
        refine (hok a word hpost t hstarts).mono fun r u hu => ?_
        obtain ⟨result, more, rfl, hmore, hafter⟩ | rfl := hu.cases
        · exact .of_result (by rw [hmore, hword, List.append_assoc]) hafter
        · exact .of_forever
  · exact .of_forever

theorem bare_bind (hact : Bare act) (hok : ∀ a, Traces (f a) n after)
    (herror : ∀ e, after (.error e) []) : Traces (act >>= f) n after := by
  refine (of_bare hact).bind ?_ ?_
  · rintro a _ rfl
    exact hok a
  · rintro e _ rfl
    exact herror e

/-- What comes after a landmark. -/
theorem of_entry {e : Entry} {s : Stage σ} (he : e.isLandmark = true) (hs : s.recorder.starts = n)
    (h : Traces act (n + Mark.starts (Entry.marks [e])) fun r word => post r (e :: word)) :
    Leads act { s with journal := e :: s.journal } (Traced post s) := by
  have hentry : Stage.landmarks { s with journal := e :: s.journal } = s.landmarks ++ [e] := by
    rw [Stage.landmarks_of_journal_eq_cons (s := s) rfl, List.filter_cons_of_pos he, List.filter_nil]
  refine (h _ (by rw [Stage.starts_of_landmarks hentry, hs])).mono fun r t ht => ?_
  obtain ⟨result, word, rfl, hword, hpost⟩ | rfl := ht.cases
  · exact .of_result (by rw [hword, hentry, List.append_assoc, List.singleton_append]) hpost
  · exact .of_forever

theorem note_bind {e : Entry} {f : Unit → Act σ β} (he : e.isLandmark = true)
    (h : Traces (f ()) (n + Mark.starts (Entry.marks [e])) fun r word => after r (e :: word)) :
    Traces (note e >>= f) n after := by
  intro s hs
  rw [leads_bind, leads_note]
  exact of_entry he hs h

/-- A phase has the ticket that was next when it started. -/
theorem start_bind {p : Phase} {f : Nat → Act σ β}
    (h : Traces (f n) (n + 1) fun r word => after r (.marked (.start p) :: word)) :
    Traces (start p >>= f) n after := by
  intro s hs
  rw [leads_bind, leads_start, hs]
  exact of_entry rfl hs h

theorem attempt (h : Traces act n post) :
    Traces (attempt act) n fun r word => ∃ result, r = .ok result ∧ post result word := by
  intro s hs
  rw [leads_attempt]
  refine (h s hs).mono fun r t ht => ?_
  obtain ⟨result, word, rfl, hword, hpost⟩ | rfl := ht.cases
  · cases result <;> exact .of_result (r := .ok _) hword ⟨_, rfl, hpost⟩
  · exact .of_forever

theorem attempt_bind {f : Except BuildError α → Act σ β} (h : Traces act n post)
    (hf : ∀ result word, post result word →
      Traces (f result) (n + Mark.starts (Entry.marks word)) fun r more => after r (word ++ more)) :
    Traces (Act.attempt act >>= f) n after := by
  refine h.attempt.bind ?_ ?_
  · rintro result word ⟨_, hresult, hpost⟩
    cases hresult
    exact hf result word hpost
  · rintro e word ⟨result, hresult, -⟩
    cases hresult

theorem inPhase (p : Phase) (h : Traces act n post) :
    Traces (inPhase p act) n fun r word =>
      ∃ result, post result word ∧ r = result.mapError (·.inPhase p) := by
  intro s hs
  rw [leads_inPhase]
  refine (h s hs).mono fun r t ht => ?_
  obtain ⟨result, word, rfl, hword, hpost⟩ | rfl := ht.cases
  · cases result with
    | ok a => exact .of_result (r := .ok a) hword ⟨_, hpost, rfl⟩
    | error e => exact .of_result (r := .error (e.inPhase p)) hword ⟨_, hpost, rfl⟩
  · exact .of_forever

theorem reporting {report : Except BuildError α → Report} (h : Bare act)
    (hreport : ∀ result, (Entry.reported (report result)).isLandmark = true) :
    Traces (reporting report act) n fun r word => word = [.reported (report r)] := by
  refine (of_bare h).attempt_bind ?_
  rintro result _ rfl
  exact note_bind (hreport result) (of_ofExcept rfl)

theorem closing (ticket : Nat) (h : Traces act n post) :
    Traces (closing ticket act) n fun r word =>
      ∃ inner, post r inner ∧ word = inner ++ [.marked (.finish ticket)] :=
  h.attempt_bind fun _ inner hpost => note_bind rfl (of_ofExcept ⟨inner, hpost, rfl⟩)

theorem during (p : Phase) (h : Traces act (n + 1) post) :
    Traces (during p act) n fun r word => ∃ inner, post r inner ∧ word = Entry.phase p n inner := by
  refine start_bind ((h.closing n).mono fun r word hword => ?_)
  obtain ⟨inner, hpost, rfl⟩ := hword
  exact ⟨inner, hpost, rfl⟩

end Traces
end Act
end ImageBuild
