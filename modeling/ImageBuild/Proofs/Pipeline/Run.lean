import ImageBuild.Proofs.Pipeline.Course
/-!
# The word of a build

Every run of a build takes the steps of a lawful word, whatever the daemon does and whenever the caller
gives up; and the reports in that word tell whether it was skipped.
-/

namespace ImageBuild.Job

open Act

variable {σ : Type} {j : Job σ} {s₀ : Stage σ} {word : List Entry} {s : Stage σ}

/-- The daemon gave no sign of life, and not because the caller gave up. -/
def Unreachable (word : List Entry) : Prop :=
  ∃ e, e ≠ .cancelled ∧ .reported (.ping (.error e)) ∈ word

/-- The daemon is there, and there is no Dockerfile. -/
def NothingToBuild (j : Job σ) (word : List Entry) : Prop :=
  (∃ c, c.available = true ∧ .reported (.probe (.ok c)) ∈ word) ∧
    Dockerfile.locate j.fs j.spec.workDir j.spec.dockerfile = .ok none

/-- A probe finds nobody there exactly if there was no sign of life. -/
theorem unreachable_iff {probed : Except BuildError Capability} (h : j.Lawful s₀ word)
    (hprobed : .reported (.probe probed) ∈ word) :
    Unreachable word ↔ probed.bind j.choice = .ok (.skip .daemonUnavailable) := by
  obtain ⟨front, hfront, hwarrant⟩ := h.exists_front hprobed
  have hunique : ∀ {result result'}, .reported (.ping result) ∈ word →
      .reported (.ping result') ∈ word → result = result' := by
    intro result result' hmem hmem'
    simpa using h.eq_of_rank_eq hmem hmem' rfl (by simp [Entry.rank]) (by simp [Entry.rank])
  rw [bind_choice_eq_ok_iff]
  constructor
  · rintro ⟨e, hne, hping⟩
    cases probed with
    | error e' =>
        rcases hwarrant with halive | hcancelled
        · cases hunique hping (hfront halive)
        · cases hunique hping (hfront hcancelled)
          exact absurd rfl hne
    | ok c =>
        cases havailable : c.available with
        | false => exact ⟨c, rfl, .inl ⟨havailable, rfl⟩⟩
        | true =>
            rw [Warrant, if_pos havailable] at hwarrant
            cases hunique hping (hfront hwarrant.1)
  · rintro ⟨c, rfl, ⟨havailable, -⟩ | ⟨-, found, -, hstart⟩⟩
    · rw [Warrant, if_neg (by simp [havailable])] at hwarrant
      obtain ⟨e, hne, hping⟩ := hwarrant
      exact ⟨e, hne, hfront hping⟩
    · cases found <;> cases hstart

/-- If the caller stays, the reply to the ping alone tells. -/
theorem unreachable_iff_of_stays {probed : Except BuildError Capability} (h : j.Lawful s word)
    (hprobed : .reported (.probe probed) ∈ word)
    (hstays : ¬s.Leaves j.settings.probeTimeout (j.daemon.ping s.daemon).1.pace) :
    Unreachable word ↔ ∃ e, e ≠ .cancelled ∧
      (j.daemon.ping s.daemon).1.inTime j.settings.probeTimeout = .error e := by
  have hreply : ∀ {result}, .reported (.ping result) ∈ word →
      (j.daemon.ping s.daemon).1.inTime j.settings.probeTimeout = result := by
    intro result hmem
    obtain ⟨_, -, ⟨-, hresult⟩ | ⟨-, hleaves⟩⟩ := h.exists_front hmem
    · exact hresult
    · exact absurd hleaves hstays
  constructor
  · rintro ⟨e, hne, hmem⟩
    exact ⟨e, hne, hreply hmem⟩
  · rintro ⟨e, hne, hresult⟩
    -- Whatever was found by the probe, it was found by way of a ping.
    obtain ⟨front, hfront, hwarrant⟩ := h.exists_front hprobed
    have hpinged : ∀ {result}, .reported (.ping result) ∈ front → result = .error e :=
      fun hmem => (hreply (hfront hmem)).symm.trans hresult
    cases probed with
    | error e' =>
        rcases hwarrant with halive | hcancelled
        · cases hpinged halive
        · cases hpinged hcancelled
          exact absurd rfl hne
    | ok c =>
        rw [Warrant] at hwarrant
        split_ifs at hwarrant
        · cases hpinged hwarrant.1
        · obtain ⟨e', hne', hmem⟩ := hwarrant
          exact ⟨e', hne', hfront hmem⟩

theorem nothingToBuild_iff {probed : Except BuildError Capability} (h : j.Lawful s₀ word)
    (hprobed : .reported (.probe probed) ∈ word) :
    j.NothingToBuild word ↔ probed.bind j.choice = .ok (.skip .noDockerfile) := by
  rw [bind_choice_eq_ok_iff]
  constructor
  · rintro ⟨⟨c, havailable, hmem⟩, hlocate⟩
    have heq : probed = .ok c := by
      simpa using h.eq_of_rank_eq hprobed hmem rfl (by simp [Entry.rank]) (by simp [Entry.rank])
    exact ⟨c, heq, .inr ⟨havailable, none, hlocate, rfl⟩⟩
  · rintro ⟨c, rfl, ⟨-, hstart⟩ | ⟨havailable, found, hlocate, hstart⟩⟩
    · cases hstart
    · cases found with
      | none => exact ⟨⟨c, havailable, hprobed⟩, hlocate⟩
      | some dockerfile => cases hstart

/-- The result of a build fits what its probe has found, and what it has done. -/
structure Fits (j : Job σ) (probed : Except BuildError Capability) (word : List Entry)
    (r : Except Halt BuildOutcome) : Prop where
  skipped : ∀ reason, r = .ok (.skipped reason) ↔ probed.bind j.choice = .ok (.skip reason)
  built : ∀ image warning, r = .ok (.built image warning) → Inspected word

theorem Ending.fits {probed : Except BuildError Capability} {front cleaning : List Entry} {stop : Nat}
    {r : Except Halt BuildOutcome} (h : j.Ending s₀ front (probed.bind j.choice) cleaning stop r) :
    j.Fits probed (front ++ cleaning) r := by
  generalize hstart : probed.bind j.choice = start at h
  cases h with
  | unfit e => exact ⟨fun reason => by rw [hstart]; exact ⟨nofun, nofun⟩, nofun⟩
  | skipped reason => exact ⟨fun other => by rw [hstart]; simp, nofun⟩
  | failed => exact ⟨fun reason => by rw [hstart]; exact ⟨nofun, nofun⟩, nofun⟩
  | stopped => exact ⟨fun reason => by rw [hstart]; exact ⟨nofun, nofun⟩, nofun⟩
  | built warning _ hfinds =>
    refine ⟨fun reason => by rw [hstart]; exact ⟨nofun, nofun⟩, fun _ _ _ => ?_⟩
    obtain ⟨details, hlook, -⟩ := hfinds
    exact (hlook.append cleaning).inspected

theorem run_leads (j : Job σ) (s : Stage σ) :
    Leads j.run s fun r t => ∃ probed word, j.Progress s word 13 t ∧
      .reported (.probe probed) ∈ word ∧ j.Fits probed word r := by
  refine (run_ending j s).mono fun r t ht => ?_
  obtain ⟨probed, front, cleaning, hprobed, -, hprogress, hending⟩ := ht
  exact ⟨probed, front ++ cleaning, hprogress, List.mem_append_left cleaning hprobed, hending.fits⟩

/-- Every run takes the steps of a lawful word, with a probe among them, and is skipped exactly if the
daemon gives no sign of life or there is nothing to build. -/
theorem run_lawful (j : Job σ) (s : Stage σ) :
    Leads j.run s fun r t => ∃ word, t.steps = s.steps ++ word ∧
      t.daemon = j.daemon.after s.daemon word ∧ j.Lawful s word ∧
      (∃ probed, .reported (.probe probed) ∈ word) ∧
      (r = .ok (.skipped .daemonUnavailable) ↔ Unreachable word) ∧
      (r = .ok (.skipped .noDockerfile) ↔ j.NothingToBuild word) ∧
      ∀ image warning, r = .ok (.built image warning) → Inspected word := by
  refine (run_leads j s).mono fun r t ht => ?_
  obtain ⟨probed, word, hprogress, hprobed, hfits⟩ := ht
  refine ⟨word, hprogress.steps, hprogress.daemon, hprogress.lawful, ⟨probed, hprobed⟩, ?_, ?_,
    hfits.built⟩
  · rw [hfits.skipped, unreachable_iff hprogress.lawful hprobed]
  · rw [hfits.skipped, nothingToBuild_iff hprogress.lawful hprobed]

/-- Without a caller who leaves, a build is skipped for want of a daemon exactly if the ping fails or is not
answered in time. -/
theorem run_skipped_iff (j : Job σ) (s : Stage σ)
    (hstays : ¬s.Leaves j.settings.probeTimeout (j.daemon.ping s.daemon).1.pace) :
    Leads j.run s fun r _ => r = .ok (.skipped .daemonUnavailable) ↔
      ∃ e, e ≠ .cancelled ∧
        (j.daemon.ping s.daemon).1.inTime j.settings.probeTimeout = .error e := by
  refine (run_leads j s).mono fun r t ht => ?_
  obtain ⟨probed, word, hprogress, hprobed, hfits⟩ := ht
  rw [hfits.skipped, ← unreachable_iff hprogress.lawful hprobed]
  exact unreachable_iff_of_stays hprogress.lawful hprobed hstays

end ImageBuild.Job
