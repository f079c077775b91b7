import ImageBuild.Proofs.Pipeline.Progress
/-!
# How a build begins

A build begins with a sign of life, the question for the builder and the search for a Dockerfile.  What
was reported by then tells whether it goes on, is skipped or fails.
-/

namespace ImageBuild.Job

open Act

variable {σ α : Type} {j : Job σ} {s₀ : Stage σ} {word : List Entry} {k : Nat} {s : Stage σ}

/-! ## Questions with a time limit -/

theorem within_progress {timeout : Nat} {c : Call} {f : σ → Reply α × σ}
    (hs : j.Progress s₀ word k s) (hstep : ∀ x, j.daemon.step x c = (f x).2)
    (hcall : ∀ m, (Entry.called m c).rank = k + 1 ∧ j.Warrant s₀ word (.called m c)) :
    Leads (within timeout fun w => ask w c f) s fun r t =>
      (r = .error (.failed .cancelled) ∧
        s.Leaves timeout (f (j.daemon.after s₀.daemon word)).1.pace ∧
        ∃ word', word ⊆ word' ∧ j.Progress s₀ word' (k + 1) t) ∨
      ∃ m, j.Progress s₀ (word ++ [.called m c]) (k + 1) t ∧
        r = ((f (j.daemon.after s₀.daemon word)).1.inTime timeout).mapError .failed := by
  have hasked : ∀ {t}, Asked c f s t → ∃ m, j.Progress s₀ (word ++ [.called m c]) (k + 1) t := by
    intro t ht
    obtain ⟨m, hm⟩ := ht.steps
    obtain ⟨hrank, hwarrant⟩ := hcall m
    have hdaemon : t.daemon = j.daemon.heed s.daemon (.called m c) :=
      ht.daemon.trans (hstep s.daemon).symm
    have hprogress := hs.concat (.inl (hrank ▸ Nat.lt_succ_self k)) hwarrant hm hdaemon
    rw [hrank] at hprogress
    exact ⟨m, hprogress⟩
  rw [← hs.daemon]
  refine (within_ask_leads timeout c f s).mono fun r t ht => ?_
  rcases ht with ⟨hstill | ht, hr, hleft⟩ | ⟨ht, hr⟩
  · exact .inl ⟨hr, hleft, word, List.Subset.refl word, (hs.still hstill).mono (Nat.le_succ k)⟩
  · obtain ⟨m, hprogress⟩ := hasked ht
    exact .inl ⟨hr, hleft, _, List.subset_append_left word _, hprogress⟩
  · obtain ⟨m, hprogress⟩ := hasked ht
    exact .inr ⟨m, hprogress, hr⟩

/-- A question whose outcome is reported. -/
theorem question_leads {timeout : Nat} {c : Call} {f : σ → Reply α × σ}
    {report : Except BuildError α → Report} (hs : j.Progress s₀ word k s)
    (hstep : ∀ x, j.daemon.step x c = (f x).2)
    (hcall : ∀ m, (Entry.called m c).rank = k + 1 ∧ j.Warrant s₀ word (.called m c))
    (hreport : ∀ result, (Entry.reported (report result)).rank = k + 2)
    (hleft : s.Leaves timeout (f (j.daemon.after s₀.daemon word)).1.pace →
      ∀ word', j.Warrant s₀ word' (.reported (report (.error .cancelled))))
    (hanswer : ∀ m, j.Warrant s₀ (word ++ [.called m c])
      (.reported (report ((f (j.daemon.after s₀.daemon word)).1.inTime timeout)))) :
    Leads (attempt (reporting report (within timeout fun w => ask w c f))) s fun r t =>
      ∃ result word', r = .ok result ∧ word ⊆ word' ∧ j.Progress s₀ word' (k + 2) t ∧
        .reported (report result) ∈ word' := by
  rw [leads_attempt, leads_reporting]
  refine (within_progress hs hstep hcall).mono fun r t ht => ?_
  have hreported : ∀ {word' result}, word ⊆ word' → j.Progress s₀ word' (k + 1) t →
      j.Warrant s₀ word' (.reported (report result)) →
      ∃ result' word', (.ok result : Except Halt _) = .ok result' ∧ word ⊆ word' ∧
        j.Progress s₀ word' (k + 2)
          { t with journal := .reported (report result) :: t.journal } ∧
        .reported (report result') ∈ word' := by
    intro word' result hsub hprogress hwarrant
    have hnext := hprogress.report (report result) (by rw [hreport]; omega) hwarrant
    rw [hreport] at hnext
    exact ⟨result, _, rfl, List.subset_append_of_subset_left _ hsub, hnext, by simp⟩
  rcases ht with ⟨rfl, hleaves, word', hsub, hprogress⟩ | ⟨m, hprogress, rfl⟩
  · exact hreported hsub hprogress (hleft hleaves word')
  · have hwarrant := hanswer m
    have hsub := List.subset_append_left word [Entry.called m c]
    cases hresult : (f (j.daemon.after s₀.daemon word)).1.inTime timeout with
    | ok a => exact hreported hsub hprogress (hresult ▸ hwarrant)
    | error e => exact hreported hsub hprogress (hresult ▸ hwarrant)

/-! ## The probe -/

theorem ping_leads (hs : j.Progress s₀ [] 0 s)
    (hleaves : ∀ timeout p, s.Leaves timeout p → s₀.Leaves timeout p) :
    Leads (attempt (reporting .ping (within j.settings.probeTimeout fun w =>
        ask w .ping j.daemon.ping))) s fun r t =>
      ∃ result word, r = .ok result ∧ j.Progress s₀ word 2 t ∧
        .reported (.ping result) ∈ word := by
  have hleft : s.Leaves j.settings.probeTimeout (j.daemon.ping s₀.daemon).1.pace →
      ∀ word', j.Warrant s₀ word' (.reported (.ping (.error .cancelled))) := by
    intro h word'
    exact Or.inr ⟨rfl, hleaves _ _ h⟩
  have hanswer : ∀ m, j.Warrant s₀ ([] ++ [.called m .ping])
      (.reported (.ping ((j.daemon.ping s₀.daemon).1.inTime j.settings.probeTimeout))) := by
    intro m
    exact Or.inl ⟨⟨m, rfl⟩, rfl⟩
  refine (question_leads hs (fun _ => rfl) (fun m => ⟨rfl, by exact trivial⟩) (fun _ => rfl)
    hleft hanswer).mono fun r t ht => ?_
  obtain ⟨result, word, rfl, -, hprogress, hreported⟩ := ht
  exact ⟨result, word, rfl, hprogress, hreported⟩

theorem detect_leads (hs : j.Progress s₀ word 2 s) (hping : .reported (.ping (.ok ())) ∈ word) :
    Leads (Probe.detect j.settings.infoTimeout (fun w => ask w .builderKind j.daemon.builderKind) >>=
        fun kind => ofExcept (Probe.sessionSupported j.settings kind) >>= fun session =>
          pure (⟨true, session, j.daemon.isRemote⟩ : Capability)) s fun r t =>
      ∃ result word', r = result.mapError .failed ∧ j.Progress s₀ word' 3 t ∧
        j.Warrant s₀ word' (.reported (.probe result)) := by
  have hfailed : ∀ {e word' t}, word ⊆ word' → j.Progress s₀ word' 3 t →
      ∃ result word', (.error (.failed e) : Except Halt Capability) = result.mapError .failed ∧
        j.Progress s₀ word' 3 t ∧ j.Warrant s₀ word' (.reported (.probe result)) :=
    fun hsub hprogress => ⟨.error _, _, rfl, hprogress, .inl (hsub hping)⟩
  rw [leads_bind, Probe.detect, leads_bind, leads_attempt]
  refine (within_progress hs (fun _ => rfl) fun m => ⟨rfl, by exact hping⟩).mono fun r t ht => ?_
  rcases ht with ⟨rfl, -, word', hsub, hprogress⟩ | ⟨m, hprogress, rfl⟩
  · exact hfailed hsub hprogress
  · have hsub := List.subset_append_left word [Entry.called m .builderKind]
    cases hanswer : (j.daemon.builderKind (j.daemon.after s₀.daemon word)).1.inTime
        j.settings.infoTimeout with
    | error e =>
        simp only [Except.mapError]
        split
        · cases ‹_›
        · exact hfailed hsub hprogress
        · exact hfailed hsub hprogress
    | ok kind =>
        simp only [Except.mapError]
        rw [leads_pure]
        simp only
        rw [leads_bind, leads_ofExcept]
        cases hsession : Probe.sessionSupported j.settings kind with
        | error e => exact hfailed hsub hprogress
        | ok session =>
            refine ⟨.ok ⟨true, session, j.daemon.isRemote⟩, _, rfl, hprogress, ?_⟩
            rw [Warrant, if_pos rfl]
            exact ⟨hsub hping, rfl, kind, ⟨word, m, rfl, hanswer⟩, hsession⟩

theorem probe_leads (hs : j.Progress s₀ [] 0 s)
    (hleaves : ∀ timeout p, s.Leaves timeout p → s₀.Leaves timeout p) :
    Leads (Probe.run j.daemon j.settings) s fun r t =>
      ∃ result word, r = result.mapError .failed ∧ j.Progress s₀ word 3 t ∧
        j.Warrant s₀ word (.reported (.probe result)) := by
  rw [Probe.run, leads_bind]
  refine (ping_leads hs hleaves).mono fun r t ht => ?_
  obtain ⟨result, word, rfl, hprogress, hreported⟩ := ht
  simp only
  split
  · exact ⟨.error .cancelled, word, rfl, hprogress.mono (Nat.le_succ 2), .inr hreported⟩
  · rename_i e hne
    refine ⟨.ok (Probe.unavailable j.daemon.isRemote), word, rfl, hprogress.mono (Nat.le_succ 2), ?_⟩
    exact ⟨e, hne, hreported⟩
  · exact detect_leads hprogress hreported

/-! ## The beginning of a build -/

/-- What a build can start with, given what the daemon can do. -/
def choice (j : Job σ) (c : Capability) : Except BuildError Start :=
  if !c.available then .ok (.skip .daemonUnavailable)
  else
    match Dockerfile.locate j.fs j.spec.workDir j.spec.dockerfile with
    | .error e => .error e
    | .ok none => .ok (.skip .noDockerfile)
    | .ok (some dockerfile) => .ok (.ready c dockerfile)

theorem bind_choice_eq_ok_iff {probed : Except BuildError Capability} {start : Start} :
    probed.bind j.choice = .ok start ↔ ∃ c, probed = .ok c ∧
      ((c.available = false ∧ start = .skip .daemonUnavailable) ∨
        (c.available = true ∧ ∃ found,
          Dockerfile.locate j.fs j.spec.workDir j.spec.dockerfile = .ok found ∧
            start = found.elim (.skip .noDockerfile) (.ready c))) := by
  constructor
  · intro h
    cases probed with
    | error e => cases h
    | ok c =>
        refine ⟨c, rfl, ?_⟩
        change j.choice c = .ok start at h
        rw [choice] at h
        cases havailable : c.available with
        | false =>
            rw [if_pos (by simp [havailable])] at h
            exact .inl ⟨rfl, (Except.ok.inj h).symm⟩
        | true =>
            rw [if_neg (by simp [havailable])] at h
            cases hlocate : Dockerfile.locate j.fs j.spec.workDir j.spec.dockerfile with
            | error e =>
                rw [hlocate] at h
                cases h
            | ok found =>
                rw [hlocate] at h
                refine .inr ⟨rfl, found, rfl, ?_⟩
                cases found <;> exact (Except.ok.inj h).symm
  · rintro ⟨c, rfl, ⟨havailable, rfl⟩ | ⟨havailable, found, hlocate, rfl⟩⟩
    · change j.choice c = _
      rw [choice, if_pos (by simp [havailable])]
    · change j.choice c = _
      rw [choice, if_neg (by simp [havailable]), hlocate]
      cases found <;> rfl

theorem initialise_eq (j : Job σ) :
    j.initialise =
      reporting .probe (Probe.run j.daemon j.settings) >>= fun c => ofExcept (j.choice c) := by
  refine bind_congr fun c => ?_
  rw [choice]
  cases c.available with
  | false => rfl
  | true =>
      cases Dockerfile.locate j.fs j.spec.workDir j.spec.dockerfile with
      | error e => rfl
      | ok found => cases found <;> rfl

/-- The beginning of a build comes to what follows from its probe. -/
theorem initialise_leads (hs : j.Progress s₀ [] 0 s)
    (hleaves : ∀ timeout p, s.Leaves timeout p → s₀.Leaves timeout p) :
    Leads j.initialise s fun r t =>
      ∃ probed word, r = (probed.bind j.choice).mapError .failed ∧ j.Progress s₀ word 4 t ∧
        .reported (.probe probed) ∈ word := by
  rw [initialise_eq, leads_bind, leads_reporting]
  refine (probe_leads hs hleaves).mono fun r t ht => ?_
  obtain ⟨probed, word, rfl, hprogress, hwarrant⟩ := ht
  have hnext := hprogress.report (.probe probed) (Nat.lt_succ_self 3) hwarrant
  have hmem : Entry.reported (.probe probed) ∈ word ++ [.reported (.probe probed)] := by simp
  cases probed with
  | error e => exact ⟨.error e, _, rfl, hnext, hmem⟩
  | ok c =>
      change Leads (ofExcept (j.choice c)) _ _
      rw [leads_ofExcept]
      exact ⟨.ok c, _, rfl, hnext, hmem⟩

theorem opening_leads (hs : j.Progress s₀ [] 0 s)
    (hleaves : ∀ timeout p, s.Leaves timeout p → s₀.Leaves timeout p) :
    Leads (during .builderInit (inPhase .builderInit j.initialise)) s fun r t =>
      ∃ probed word,
        r = (probed.bind j.choice).mapError (fun e => .failed (e.inPhase .builderInit)) ∧
          j.Progress s₀ word 4 t ∧ .reported (.probe probed) ∈ word := by
  rw [during, leads_bind, leads_start]
  refine leads_closing (fun r t u htu ht => ?_) ?_
  · obtain ⟨probed, word, hr, hprogress, hmem⟩ := ht
    exact ⟨probed, word, hr, hprogress.still htu, hmem⟩
  · rw [leads_inPhase]
    refine (initialise_leads (hs.still (quiet_start .builderInit s)) hleaves).mono fun r u hu => ?_
    obtain ⟨probed, word, rfl, hprogress, hmem⟩ := hu
    cases hchoice : probed.bind j.choice with
    | error e => exact ⟨probed, word, by rw [hchoice]; rfl, hprogress, hmem⟩
    | ok found => exact ⟨probed, word, by rw [hchoice]; rfl, hprogress, hmem⟩

end ImageBuild.Job
