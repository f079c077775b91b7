import ImageBuild.Proofs.Pipeline.Drivers
import ImageBuild.Proofs.Pipeline.Order
import ImageBuild.Proofs.Stage.Deadline
import ImageBuild.Proofs.Stage.Ends
/-!
# Errors that name no phase

The name of a phase is put on an error where the phase ends, and an error that has one already keeps it.
So it matters that the errors below that name none, if those of the daemon do not.  A daemon is looked at
along the word of a run: only what it has replied there counts.
-/

namespace ImageBuild

open Act

variable {σ α β : Type}

/-- The error names no phase. -/
def BuildError.IsRoot (e : BuildError) : Prop := e.phase? = none

namespace BuildError.IsRoot

variable {e : BuildError}

theorem cancelled : BuildError.cancelled.IsRoot := rfl

theorem inPhase_eq (h : e.IsRoot) (p : Phase) : e.inPhase p = .phase p e := by
  cases e with
  | phase => cases h
  | _ => rfl

theorem root_eq (h : e.IsRoot) : e.root = e := by
  cases e with
  | phase => cases h
  | _ => rfl

end BuildError.IsRoot

/-- If this is an error, it names no phase. -/
def Rooted (r : Except BuildError α) : Prop := Outcome (fun _ => True) BuildError.IsRoot r

def Beat.Rooted (b : Beat α) : Prop := ∀ e, b.content = some (.error e) → e.IsRoot

/-- No error of a reply names a phase, neither its own nor one in its stream. -/
def Reply.Streams (r : Reply (List (Beat α))) : Prop :=
  Outcome (fun beats => ∀ b ∈ beats, b.Rooted) BuildError.IsRoot r.result

def Report.Rooted : Report → Prop
  | ping r => ImageBuild.Rooted r
  | probe r => ImageBuild.Rooted r
  | info r => ImageBuild.Rooted r
  | driver r => ImageBuild.Rooted r
  | push r => ImageBuild.Rooted r

def Entry.Rooted : Entry → Prop
  | reported r => r.Rooted
  | _ => True

namespace Daemon

/-- The reply to a call names no phase. -/
def RepliesRooted (d : Daemon σ) (x : σ) : Call → Prop
  | .ping => ImageBuild.Rooted (d.ping x).1.result
  | .builderKind => ImageBuild.Rooted (d.builderKind x).1.result
  | .info => ImageBuild.Rooted (d.info x).1.result
  | .build request _ => (d.build request x).1.reply.Streams
  | .solve request => ImageBuild.Rooted (d.solve request x).1.reply.result
  | .push tag credentials => (d.push tag credentials x).1.Streams
  | .inspect reference => ImageBuild.Rooted (d.inspect reference x).1.result
  | .tags reference => ImageBuild.Rooted (d.tags reference x).1.result
  | .remove tag => ImageBuild.Rooted (d.remove tag x).1.result

/-- No reply to the calls of a word names a phase. -/
def Rooted (d : Daemon σ) (x : σ) (word : List Entry) : Prop :=
  ∀ front m c back, word = front ++ .called m c :: back → d.RepliesRooted (d.after x front) c

theorem after_append (d : Daemon σ) (x : σ) (front back : List Entry) :
    d.after x (front ++ back) = d.after (d.after x front) back :=
  List.foldl_append

theorem Rooted.of_append {d : Daemon σ} {x : σ} {front back : List Entry} (h : d.Rooted x (front ++ back)) :
    d.Rooted x front ∧ d.Rooted (d.after x front) back := by
  constructor
  · rintro before m c rest rfl
    exact h before m c (rest ++ back) (by simp)
  · rintro before m c rest rfl
    rw [← after_append]
    exact h (front ++ before) m c rest (by simp)

/-- What an action comes to, and what it reports, if the replies on its way name no phase. -/
def Keeps (d : Daemon σ) (P : Prop) (act : Act σ α) (good : α → Prop) (bad : BuildError → Prop) : Prop :=
  ∀ s, Leads act s fun r t => ∃ word, t.steps = s.steps ++ word ∧ t.daemon = d.after s.daemon word ∧
    (P → d.Rooted s.daemon word → (∀ y ∈ word, y.Rooted) ∧
      ∀ result : Except BuildError α, r = result.mapError .failed → Outcome good bad result)

namespace Keeps

variable {d : Daemon σ} {P : Prop} {act : Act σ α} {f : α → Act σ β} {good good' : α → Prop}
variable {after : β → Prop} {bad bad' : BuildError → Prop}

theorem of_quiet (hquiet : Quiet act) (h : P → Ends act good bad) : d.Keeps P act good bad := by
  intro s
  have hends : Leads act s fun r _ => P → ∀ result : Except BuildError α,
      r = result.mapError .failed → Outcome good bad result := fun hP => h hP s
  refine (Leads.and (hquiet s) hends).mono fun r t ht => ?_
  refine ⟨[], by simpa using ht.1.steps, ht.1.daemon, fun hP _ => ⟨?_, ht.2 hP⟩⟩
  exact fun y hy => (List.not_mem_nil hy).elim

theorem throw {halt : Halt} (h : P → ∀ e, halt = .failed e → bad e) :
    d.Keeps P (throw halt : Act σ α) good bad := by
  refine of_quiet (quiet_throw halt) fun hP => ?_
  cases halt with
  | failed e => exact ends_fail (h hP e rfl)
  | overdue => exact ends_overdue
  | forever => exact ends_forever

/-- One action after a value, another after a halt. -/
def either (onValue : α → Act σ β) (onHalt : Halt → Act σ β) : Except Halt α → Act σ β
  | .ok a => onValue a
  | .error halt => onHalt halt

/-- An action with something after it, whatever it has come to. -/
theorem followed {act' : Act σ β} (next : Except Halt α → Act σ β) (h : d.Keeps P act good bad)
    (hplay : ∀ s post, Leads act s (fun r t => Leads (next r) t post) → Leads act' s post)
    (hnext : ∀ r, d.Keeps (P ∧ ∀ result : Except BuildError α, r = result.mapError .failed →
      Outcome good bad result) (next r) after bad') :
    d.Keeps P act' after bad' := by
  intro s
  refine hplay s _ ((h s).mono fun r t ht => ?_)
  obtain ⟨word, hsteps, hdaemon, hkeeps⟩ := ht
  refine (hnext r t).mono fun r' u hu => ?_
  obtain ⟨word', hsteps', hdaemon', hkeeps'⟩ := hu
  refine ⟨word ++ word', by rw [hsteps', hsteps, List.append_assoc],
    by rw [hdaemon', hdaemon, after_append], fun hP hrooted => ?_⟩
  obtain ⟨hfront, hback⟩ := hrooted.of_append
  obtain ⟨hword, hend⟩ := hkeeps hP hfront
  obtain ⟨hword', hend'⟩ := hkeeps' ⟨hP, hend⟩ (hdaemon ▸ hback)
  exact ⟨fun y hy => (List.mem_append.1 hy).elim (hword y) (hword' y), hend'⟩

theorem bind (hact : d.Keeps P act good bad) (hf : ∀ a, d.Keeps (P ∧ good a) (f a) after bad) :
    d.Keeps P (act >>= f) after bad := by
  refine hact.followed (either f MonadExcept.throw) (fun s post h => ?_) fun r => ?_
  · rw [leads_bind]
    refine h.mono fun r t ht => ?_
    cases r <;> exact ht
  · cases r with
    | ok a => exact fun s => (hf a s).mono fun _ _ ⟨word, hsteps, hdaemon, hkeeps⟩ =>
        ⟨word, hsteps, hdaemon, fun hP => hkeeps ⟨hP.1, hP.2 (.ok a) rfl⟩⟩
    | error h => exact throw fun hP e he => hP.2 (.error e) (by rw [he]; rfl)

theorem tryCatch {handler : Halt → Act σ α} (h : d.Keeps P act good bad)
    (hhandler : ∀ halt, d.Keeps (∀ e, halt = .failed e → bad e) (handler halt) good bad') :
    d.Keeps P (tryCatch act handler) good bad' := by
  refine h.followed (either pure handler) (fun s post h => ?_) fun r => ?_
  · rw [leads_tryCatch]
    refine h.mono fun r t ht => ?_
    cases r <;> exact ht
  · cases r with
    | ok a => exact of_quiet (quiet_pure a) fun hP => ends_pure (hP.2 (.ok a) rfl)
    | error halt =>
        refine fun s => (hhandler halt s).mono fun _ _ ⟨word, hsteps, hdaemon, hkeeps⟩ =>
          ⟨word, hsteps, hdaemon, fun hP => hkeeps fun e he => hP.2 (.error e) (by rw [he]; rfl)⟩

theorem mono {Q : Prop} (h : d.Keeps P act good bad) (hP : Q → P) (hgood : ∀ a, good a → good' a)
    (hbad : ∀ e, bad e → bad' e) : d.Keeps Q act good' bad' := by
  refine fun s => (h s).mono fun r t ⟨word, hsteps, hdaemon, hkeeps⟩ =>
    ⟨word, hsteps, hdaemon, fun hQ hrooted => ⟨(hkeeps (hP hQ) hrooted).1, fun result hr => ?_⟩⟩
  have houtcome := (hkeeps (hP hQ) hrooted).2 result hr
  cases result with
  | ok a => exact hgood a houtcome
  | error e => exact hbad e houtcome

theorem attempt (h : d.Keeps P act good bad) : d.Keeps P (attempt act) (Outcome good bad) bad' := by
  have hmap : d.Keeps P (Except.ok <$> act : Act σ (Except BuildError α)) (Outcome good bad) bad := by
    rw [← bind_pure_comp]
    exact h.bind fun a => of_quiet (quiet_pure _) fun ha => ends_pure ha.2
  refine hmap.tryCatch fun halt => ?_
  cases halt with
  | failed e => exact of_quiet (quiet_pure _) fun he => ends_pure (he e rfl)
  | overdue => exact throw fun _ e he => by cases he
  | forever => exact throw fun _ e he => by cases he

theorem inPhase {p : Phase} (h : d.Keeps P act good bad) :
    d.Keeps P (inPhase p act) good fun _ => True := by
  refine h.tryCatch fun halt => ?_
  cases halt with
  | failed e => exact throw fun _ _ _ => trivial
  | overdue => exact throw fun _ e he => by cases he
  | forever => exact throw fun _ e he => by cases he

theorem ofExcept {result : Except BuildError α} (h : P → Outcome good bad result) :
    d.Keeps P (ofExcept result) good bad :=
  of_quiet (quiet_ofExcept result) fun hP => ends_ofExcept (h hP)

theorem quiet_bind (hact : Quiet act) (hends : Ends act (fun _ => True) bad)
    (hf : ∀ a, d.Keeps P (f a) after bad) : d.Keeps P (act >>= f) after bad :=
  (of_quiet hact fun _ => hends).bind fun a => (hf a).mono And.left (fun _ h => h) fun _ h => h

theorem closing (ticket : Nat) (h : d.Keeps P act good bad) : d.Keeps P (closing ticket act) good bad :=
  h.attempt.bind fun _ => quiet_bind (quiet_finish ticket) (ends_note _) fun _ => ofExcept And.right

theorem during (p : Phase) (h : d.Keeps P act good bad) : d.Keeps P (during p act) good bad :=
  quiet_bind (quiet_start p) (ends_get.bind fun _ _ => (ends_note _).bind fun _ _ => ends_pure trivial)
    fun ticket => h.closing ticket

theorem note {r : Report} (h : P → r.Rooted) :
    d.Keeps P (note (.reported r)) (fun _ => True) bad := by
  intro s
  rw [leads_note]
  refine ⟨[.reported r], ?_, rfl, fun hP _ => ⟨?_, ?_⟩⟩
  · rw [Stage.steps_of_journal_eq_cons (s := s) rfl]
    rfl
  · exact fun y hy => List.mem_singleton.1 hy ▸ h hP
  · rintro (_ | _) ⟨⟩
    trivial

theorem reporting {report : Except BuildError α → Report} (h : d.Keeps P act good bad)
    (hreport : ∀ result, Outcome good bad result → (report result).Rooted) :
    d.Keeps P (reporting report act) good bad :=
  h.attempt.bind fun result => (note fun hP => hreport result hP.2).bind fun _ => ofExcept fun hP => hP.1.2

/-! ## Calls -/

theorem call {entry : α → Call} {g : σ → α × σ} (hstep : ∀ x, d.step x (entry (g x).1) = (g x).2)
    (hreply : ∀ x, d.RepliesRooted x (entry (g x).1) → good (g x).1) :
    d.Keeps P (call entry g) good bad := by
  intro s
  rw [leads_call]
  refine ⟨[.called s.now (entry (g s.daemon).1)], steps_of_call s _ _, (hstep s.daemon).symm,
    fun _ hrooted => ⟨fun y hy => ?_, ?_⟩⟩
  · obtain rfl := List.mem_singleton.1 hy
    trivial
  · rintro (_ | _) ⟨⟩
    exact hreply s.daemon (hrooted [] s.now _ [] rfl)

theorem ask {w : Watch} {c : Call} {g : σ → Reply α × σ} (hbad : bad .cancelled)
    (hstep : ∀ x, d.step x c = (g x).2)
    (hreply : ∀ x, d.RepliesRooted x c → Outcome good bad (g x).1.result) :
    d.Keeps P (ask w c g) good bad :=
  (call hstep hreply).bind fun r => of_quiet (quiet_receive w r) fun hr => ends_receive hbad w hr.2

theorem within {timeout : Nat} {act : Watch → Act σ α}
    (h : ∀ w, d.Keeps P (act w) good BuildError.IsRoot) :
    d.Keeps P (within timeout act) good BuildError.IsRoot := by
  refine quiet_bind quiet_checkCaller (ends_checkCaller rfl) fun _ => quiet_bind quiet_get ends_get
    fun s => (h _).tryCatch fun halt => ?_
  cases halt with
  | failed e => exact throw fun he => he
  | overdue => exact throw fun _ e he => by cases he; rfl
  | forever => exact throw fun _ e he => by cases he

end Keeps

/-- No report of an action names a phase unless a reply on its way did. -/
def Frank (d : Daemon σ) (act : Act σ α) : Prop := d.Keeps True act (fun _ => True) fun _ => True

theorem Keeps.frank {d : Daemon σ} {act : Act σ α} {good : α → Prop} {bad : BuildError → Prop}
    (h : d.Keeps True act good bad) : d.Frank act :=
  h.mono id (fun _ _ => trivial) fun _ _ => trivial

namespace Frank

variable {d : Daemon σ} {act : Act σ α} {f : α → Act σ β}

theorem of_quiet (h : Quiet act) : d.Frank act := by
  refine Keeps.of_quiet h fun _ s => ?_
  rintro (_ | _) _ <;> trivial

theorem bind (hact : d.Frank act) (hf : ∀ a, d.Frank (f a)) : d.Frank (act >>= f) :=
  Keeps.bind hact fun a => (hf a).mono (fun _ => trivial) (fun _ h => h) fun _ h => h

theorem attempt (h : d.Frank act) : d.Frank (attempt act) :=
  Keeps.mono (Keeps.attempt h) id (fun _ _ => trivial) fun _ h => h

theorem tryCatch {handler : Halt → Act σ α} (h : d.Frank act) (hhandler : ∀ halt, Quiet (handler halt)) :
    d.Frank (tryCatch act handler) :=
  Keeps.tryCatch h fun halt => (of_quiet (hhandler halt)).mono (fun _ => trivial) (fun _ h => h) fun _ h => h

theorem inPhase {p : Phase} (h : d.Frank act) : d.Frank (inPhase p act) := Keeps.inPhase h

theorem closing {ticket : Nat} (h : d.Frank act) : d.Frank (closing ticket act) := Keeps.closing ticket h

theorem during {p : Phase} (h : d.Frank act) : d.Frank (during p act) := Keeps.during p h

theorem reporting (report : Except BuildError α → Report)
    (h : d.Keeps True act (fun _ => True) BuildError.IsRoot)
    (hreport : ∀ result, ImageBuild.Rooted result → (report result).Rooted) :
    d.Frank (reporting report act) :=
  (Keeps.reporting h hreport).frank

theorem ask {w : Watch} {c : Call} {g : σ → Reply α × σ} (hstep : ∀ x, d.step x c = (g x).2) :
    d.Frank (ask w c g) := by
  refine Keeps.ask trivial hstep fun x _ => ?_
  cases (g x).1.result <;> trivial

end Frank
end Daemon
end ImageBuild
