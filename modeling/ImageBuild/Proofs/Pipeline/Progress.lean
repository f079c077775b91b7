import ImageBuild.Proofs.Pipeline.Order
/-!
# The progress of a build

A build has come so far if the steps since its beginning make up a lawful word in which nothing comes
later.  What a part of a build takes it to is shown from what the actions in it take it to, so that each
step is looked at once: that it is its turn, and that it is warranted.
-/

namespace ImageBuild

open Act

variable {σ α β : Type}

/-- The action calls the daemon once, unless it is broken off before. -/
def Daemon.CallsOnce (d : Daemon σ) (P : Call → Prop) (act : Act σ α) : Prop :=
  ∀ s, Leads act s fun r t => (Still s t ∧ ∃ h, r = .error h) ∨
    ∃ m c, P c ∧ t.steps = s.steps ++ [.called m c] ∧ t.daemon = d.step s.daemon c

namespace Daemon.CallsOnce

variable {d : Daemon σ} {P : Call → Prop} {act : Act σ α} {f : α → Act σ β}

theorem of_call {entry : α → Call} {g : σ → α × σ} (hP : ∀ a, P (entry a))
    (hstep : ∀ x, d.step x (entry (g x).1) = (g x).2) : d.CallsOnce P (call entry g) := by
  intro s
  rw [leads_call]
  refine .inr ⟨s.now, entry (g s.daemon).1, hP _, ?_, (hstep s.daemon).symm⟩
  rw [Stage.steps_of_journal_eq_cons (s := s) rfl]
  rfl

theorem quiet_bind (hact : Quiet act) (hf : ∀ a, d.CallsOnce P (f a)) :
    d.CallsOnce P (act >>= f) := by
  intro s
  refine leads_quiet_bind hact (fun a t ht => ?_) fun h t ht => .inl ⟨ht, h, rfl⟩
  refine (hf a t).mono fun r u hu => ?_
  rcases hu with ⟨hstill, hhalt⟩ | ⟨m, c, hc, hsteps, hdaemon⟩
  · exact .inl ⟨ht.trans hstill, hhalt⟩
  · exact .inr ⟨m, c, hc, ht.steps ▸ hsteps, ht.daemon ▸ hdaemon⟩

theorem bind_quiet (hact : d.CallsOnce P act) (hf : ∀ a, Quiet (f a)) :
    d.CallsOnce P (act >>= f) := by
  intro s
  rw [leads_bind]
  refine (hact s).mono fun r t ht => ?_
  rcases ht with ⟨hstill, h, rfl⟩ | ⟨m, c, hc, hsteps, hdaemon⟩
  · exact .inl ⟨hstill, h, rfl⟩
  · cases r with
    | error h => exact .inr ⟨m, c, hc, hsteps, hdaemon⟩
    | ok a =>
        refine (hf a t).mono fun r u hu => ?_
        exact .inr ⟨m, c, hc, hu.steps.trans hsteps, hu.daemon.trans hdaemon⟩

theorem of_ask {w : Watch} {c : Call} {g : σ → Reply α × σ} (hP : P c)
    (hstep : ∀ x, d.step x c = (g x).2) : d.CallsOnce P (ask w c g) :=
  (of_call (fun _ => hP) hstep).bind_quiet fun r => quiet_receive w r

end Daemon.CallsOnce

namespace Job

/-- The steps that were taken since a stage `s₀` make up a lawful word that has come to rank `k`. -/
structure Progress (j : Job σ) (s₀ : Stage σ) (word : List Entry) (k : Nat) (t : Stage σ) : Prop where
  steps : t.steps = s₀.steps ++ word
  daemon : t.daemon = j.daemon.after s₀.daemon word
  lawful : j.Lawful s₀ word
  rank_le : ∀ y ∈ word, y.rank ≤ k

namespace Progress

variable {j : Job σ} {s₀ : Stage σ} {word : List Entry} {k : Nat} {s t : Stage σ}

theorem start (j : Job σ) (s : Stage σ) : j.Progress s [] 0 s where
  steps := (List.append_nil s.steps).symm
  daemon := rfl
  lawful := .nil j s
  rank_le := fun y hy => by simp at hy

theorem still (h : j.Progress s₀ word k s) (ht : Still s t) : j.Progress s₀ word k t where
  steps := ht.steps.trans h.steps
  daemon := ht.daemon.trans h.daemon
  lawful := h.lawful
  rank_le := h.rank_le

theorem mono {n : Nat} (h : j.Progress s₀ word k s) (hk : k ≤ n) :
    j.Progress s₀ word n s where
  steps := h.steps
  daemon := h.daemon
  lawful := h.lawful
  rank_le := fun y hy => Nat.le_trans (h.rank_le y hy) hk

/-- A step whose turn it is and that has its warrant. -/
theorem concat {y : Entry} (h : j.Progress s₀ word k s)
    (hk : k < y.rank ∨ k = y.rank ∧ y.repeats = true) (hwarrant : j.Warrant s₀ word y)
    (hsteps : t.steps = s.steps ++ [y]) (hdaemon : t.daemon = j.daemon.heed s.daemon y) :
    j.Progress s₀ (word ++ [y]) y.rank t where
  steps := by rw [hsteps, h.steps, List.append_assoc]
  daemon := by rw [hdaemon, h.daemon, Daemon.after_concat]
  lawful := by
    refine h.lawful.concat (fun a ha => ?_) hwarrant
    have hrank := h.rank_le a ha
    rcases hk with hlt | ⟨heq, hrepeats⟩
    · exact .inl (Nat.lt_of_le_of_lt hrank hlt)
    · rcases Nat.lt_or_eq_of_le hrank with hlt | ha'
      · exact .inl (heq ▸ hlt)
      · exact .inr ⟨ha'.trans heq, hrepeats⟩
  rank_le := by
    intro z hz
    rcases List.mem_append.1 hz with hz | hz
    · have hrank := h.rank_le z hz
      rcases hk with hlt | ⟨heq, -⟩
      · omega
      · omega
    · obtain rfl := List.mem_singleton.1 hz
      exact Nat.le_refl _

theorem report (h : j.Progress s₀ word k s) (r : Report) (hk : k < (Entry.reported r).rank)
    (hwarrant : j.Warrant s₀ word (.reported r)) :
    j.Progress s₀ (word ++ [.reported r]) (Entry.reported r).rank
      { s with journal := .reported r :: s.journal } := by
  refine h.concat (.inl hk) hwarrant ?_ rfl
  rw [Stage.steps_of_journal_eq_cons (s := s) rfl]
  rfl

end Progress

variable (j : Job σ) (s₀ : Stage σ)

/-- An action that takes a build on from a word to longer ones that have come to rank `n`, and to
results for which `facts` hold. -/
def Takes (word : List Entry) (k : Nat) (act : Act σ α) (n : Nat)
    (facts : α → List Entry → Prop) : Prop :=
  ∀ s, j.Progress s₀ word k s → Leads act s fun r t =>
    ∃ word', word ⊆ word' ∧ j.Progress s₀ word' n t ∧ ∀ a, r = .ok a → facts a word'

variable {j s₀}

namespace Takes

variable {word : List Entry} {k m n : Nat} {act : Act σ α} {f : α → Act σ β}
variable {facts : α → List Entry → Prop} {facts' : β → List Entry → Prop}

theorem mono {weaker : α → List Entry → Prop} (h : j.Takes s₀ word k act m facts) (hn : m ≤ n)
    (himp : ∀ a word', word ⊆ word' → facts a word' → weaker a word') :
    j.Takes s₀ word k act n weaker := by
  intro s hs
  refine (h s hs).mono fun r t ht => ?_
  obtain ⟨word', hsub, hprogress, hfacts⟩ := ht
  exact ⟨word', hsub, hprogress.mono hn, fun a ha => himp a word' hsub (hfacts a ha)⟩

/-- What takes no step keeps a build where it is. -/
theorem of_still (h : ∀ s, Leads act s fun r t => Still s t ∧ ∀ a, r = .ok a → facts a word) :
    j.Takes s₀ word k act k facts := by
  intro s hs
  refine (h s).mono fun r t ht => ?_
  exact ⟨word, List.Subset.refl word, hs.still ht.1, ht.2⟩

theorem of_quiet (h : Quiet act) (hfacts : ∀ a, facts a word) :
    j.Takes s₀ word k act k facts :=
  of_still fun s => (h s).mono fun _ _ ht => ⟨ht, fun a _ => hfacts a⟩

theorem of_ofExcept {r : Except BuildError α} (h : ∀ a, r = .ok a → facts a word) :
    j.Takes s₀ word k (ofExcept r) k facts := by
  refine of_still fun s => ?_
  rw [leads_ofExcept]
  refine ⟨.refl s, fun a ha => ?_⟩
  cases r with
  | error e => cases ha
  | ok b => cases ha; exact h _ rfl

theorem of_throw (h : Halt) : j.Takes s₀ word k (throw h : Act σ α) k facts :=
  of_still fun s => ⟨.refl s, fun a ha => by cases ha⟩

theorem of_pure {a : α} (h : facts a word) : j.Takes s₀ word k (pure a) k facts :=
  of_still fun s => ⟨.refl s, fun b hb => by cases hb; exact h⟩

theorem bind (hact : j.Takes s₀ word k act m facts) (hn : m ≤ n)
    (hf : ∀ a word', word ⊆ word' → facts a word' → j.Takes s₀ word' m (f a) n facts') :
    j.Takes s₀ word k (act >>= f) n facts' := by
  intro s hs
  rw [leads_bind]
  refine (hact s hs).mono fun r t ht => ?_
  obtain ⟨word', hsub, hprogress, hfacts⟩ := ht
  cases r with
  | error h => exact ⟨word', hsub, hprogress.mono hn, fun b hb => by cases hb⟩
  | ok a =>
      refine (hf a word' hsub (hfacts a rfl) t hprogress).mono fun r u hu => ?_
      obtain ⟨word'', hsub', hprogress', hfacts'⟩ := hu
      exact ⟨word'', fun y hy => hsub' (hsub hy), hprogress', hfacts'⟩

theorem quiet_bind (hact : Quiet act) (hn : k ≤ n)
    (hf : ∀ a, j.Takes s₀ word k (f a) n facts') :
    j.Takes s₀ word k (act >>= f) n facts' := by
  intro s hs
  refine leads_quiet_bind hact (fun a t ht => hf a t (hs.still ht)) fun h t ht => ?_
  exact ⟨word, List.Subset.refl word, (hs.still ht).mono hn, fun b hb => by cases hb⟩

theorem attempt (h : j.Takes s₀ word k act n facts) :
    j.Takes s₀ word k (attempt act) n fun r word' => ∀ a, r = .ok a → facts a word' := by
  intro s hs
  rw [leads_attempt]
  refine (h s hs).mono fun r t ht => ?_
  obtain ⟨word', hsub, hprogress, hfacts⟩ := ht
  rcases r with (e | _ | _) | a
  · exact ⟨word', hsub, hprogress, fun r hr b hb => by cases hr; cases hb⟩
  · exact ⟨word', hsub, hprogress, fun r hr => by cases hr⟩
  · exact ⟨word', hsub, hprogress, fun r hr => by cases hr⟩
  · exact ⟨word', hsub, hprogress, fun r hr b hb => by cases hr; cases hb; exact hfacts a rfl⟩

theorem inPhase (p : Phase) (h : j.Takes s₀ word k act n facts) :
    j.Takes s₀ word k (inPhase p act) n facts := by
  intro s hs
  rw [leads_inPhase]
  refine (h s hs).mono fun r t ht => ?_
  obtain ⟨word', hsub, hprogress, hfacts⟩ := ht
  rcases r with (e | _ | _) | a
  · exact ⟨word', hsub, hprogress, fun b hb => by cases hb⟩
  · exact ⟨word', hsub, hprogress, fun b hb => by cases hb⟩
  · exact ⟨word', hsub, hprogress, fun b hb => by cases hb⟩
  · exact ⟨word', hsub, hprogress, hfacts⟩

theorem closing (ticket : Nat) (h : j.Takes s₀ word k act n facts) :
    j.Takes s₀ word k (closing ticket act) n facts := by
  refine h.attempt.bind (Nat.le_refl n) fun r word' _ hr => ?_
  exact quiet_bind (quiet_finish ticket) (Nat.le_refl n) fun _ => of_ofExcept hr

theorem during (p : Phase) (hn : k ≤ n) (h : j.Takes s₀ word k act n facts) :
    j.Takes s₀ word k (during p act) n facts :=
  quiet_bind (quiet_start p) hn fun ticket => h.closing ticket

/-- An action that comes to an end is reported, and one that does not leaves no report. -/
theorem reporting_leads {report : Except BuildError α → Report} {s : Stage σ}
    (h : j.Takes s₀ word k act n facts)
    (hrank : ∀ result, (Entry.reported (report result)).rank = n + 1)
    (hok : ∀ a word', word ⊆ word' → facts a word' →
      j.Warrant s₀ word' (.reported (report (.ok a))))
    (herror : ∀ e word', j.Warrant s₀ word' (.reported (report (.error e))))
    (hs : j.Progress s₀ word k s) :
    Leads (Act.reporting report act) s fun r t => ∃ word', word ⊆ word' ∧
      ((∃ result, r = result.mapError .failed ∧
          j.Progress s₀ (word' ++ [.reported (report result)]) (n + 1) t) ∨
        (∃ halt, r = .error halt ∧ ∀ e, halt ≠ .failed e) ∧ j.Progress s₀ word' n t) := by
  rw [leads_reporting]
  refine (h s hs).mono fun r t ht => ?_
  obtain ⟨word', hsub, hprogress, hfacts⟩ := ht
  have hnext : ∀ result, j.Warrant s₀ word' (.reported (report result)) →
      j.Progress s₀ (word' ++ [.reported (report result)]) (n + 1)
        { t with journal := .reported (report result) :: t.journal } := by
    intro result hwarrant
    have hprogress' := hprogress.report (report result) (by rw [hrank]; omega) hwarrant
    rwa [hrank] at hprogress'
  rcases r with (e | _ | _) | a
  · exact ⟨word', hsub, .inl ⟨.error e, rfl, hnext (.error e) (herror e word')⟩⟩
  · exact ⟨word', hsub, .inr ⟨⟨_, rfl, nofun⟩, hprogress⟩⟩
  · exact ⟨word', hsub, .inr ⟨⟨_, rfl, nofun⟩, hprogress⟩⟩
  · exact ⟨word', hsub, .inl ⟨.ok a, rfl, hnext (.ok a) (hok a word' hsub (hfacts a rfl))⟩⟩

theorem reporting {report : Except BuildError α → Report} (h : j.Takes s₀ word k act n facts)
    (hrank : ∀ result, (Entry.reported (report result)).rank = n + 1)
    (hok : ∀ a word', word ⊆ word' → facts a word' →
      j.Warrant s₀ word' (.reported (report (.ok a))))
    (herror : ∀ e word', j.Warrant s₀ word' (.reported (report (.error e)))) :
    j.Takes s₀ word k (reporting report act) (n + 1) fun a word' =>
      .reported (report (.ok a)) ∈ word' := by
  intro s hs
  refine (reporting_leads h hrank hok herror hs).mono fun r t ht => ?_
  obtain ⟨word', hsub, ⟨result, rfl, hprogress⟩ | ⟨⟨halt, rfl, -⟩, hprogress⟩⟩ := ht
  · refine ⟨_, List.subset_append_of_subset_left _ hsub, hprogress, fun a ha => ?_⟩
    cases result with
    | error e => cases ha
    | ok b => cases ha; simp
  · exact ⟨word', hsub, hprogress.mono (Nat.le_succ n), fun a ha => by cases ha⟩

/-- Whatever breaks an action off, no step follows. -/
theorem tryCatch {handler : Halt → Act σ α} (h : j.Takes s₀ word k act n facts)
    (hquiet : ∀ halt, Quiet (handler halt)) :
    j.Takes s₀ word k (tryCatch act handler) n fun _ _ => True := by
  intro s hs
  rw [leads_tryCatch]
  refine (h s hs).mono fun r t ht => ?_
  obtain ⟨word', hsub, hprogress, -⟩ := ht
  cases r with
  | ok a => exact ⟨word', hsub, hprogress, fun _ _ => trivial⟩
  | error halt =>
      refine (hquiet halt t).mono fun r u hu => ?_
      exact ⟨word', hsub, hprogress.still hu, fun _ _ => trivial⟩

/-- An action that calls once, with a call whose turn it is and that is warranted. -/
theorem of_callsOnce {P : Call → Prop} (h : j.daemon.CallsOnce P act) (hn : k ≤ n)
    (hcall : ∀ m c, P c → (Entry.called m c).rank = n ∧
      (k < n ∨ k = n ∧ (Entry.called m c).repeats = true) ∧ j.Warrant s₀ word (.called m c)) :
    j.Takes s₀ word k act n fun _ word' => ∃ m c, P c ∧ .called m c ∈ word' := by
  intro s hs
  refine (h s).mono fun r t ht => ?_
  rcases ht with ⟨hstill, halt, rfl⟩ | ⟨m, c, hc, hsteps, hdaemon⟩
  · exact ⟨word, List.Subset.refl word, (hs.still hstill).mono hn, fun a ha => by cases ha⟩
  · obtain ⟨hrank, hturn, hwarrant⟩ := hcall m c hc
    rw [← hrank] at hturn ⊢
    exact ⟨word ++ [.called m c], List.subset_append_left word _,
      hs.concat hturn hwarrant hsteps hdaemon, fun _ _ => ⟨m, c, hc, by simp⟩⟩

end Takes
end Job
end ImageBuild
