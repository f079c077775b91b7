import ImageBuild.Proofs.Pipeline.Course
/-!
# When tags are taken off

Taking tags off destroys what others may rely on.  Whether a run does so follows from where the daemon is,
whether the image is published and how the run has come out; and what it takes off are the tags that the
daemon lists, each once, unless the time is up before.
-/

namespace ImageBuild

open Act

variable {σ : Type}

/-- The call lists tags or takes one off. -/
def Call.isAboutTags : Call → Bool
  | tags _ => true
  | remove _ => true
  | _ => false

theorem Call.isAboutTags_eq_false {m : Nat} {c : Call} (h : (Entry.called m c).rank ≤ 11) :
    c.isAboutTags = false := by
  cases c with
  | tags _ | remove _ => simp [Entry.rank] at h
  | _ => rfl

namespace Job

variable {j : Job σ} {s₀ : Stage σ} {front word cleaning : List Entry} {stop : Nat} {due : Bool}

theorem Lawful.remote_of_probe {c : Capability} (h : j.Lawful s₀ word)
    (hprobe : .reported (.probe (.ok c)) ∈ word) (havailable : c.available = true) :
    c.remote = j.daemon.isRemote := by
  obtain ⟨before, -, hwarrant⟩ := h.exists_front hprobe
  rw [Warrant, if_pos havailable] at hwarrant
  exact hwarrant.2.1

/-- What is done to clean up: the tags of the image are asked for once, and those that are told in time are
taken off, each once and in their order, for as long as there is time. -/
def TakesOff (j : Job σ) (x : σ) (cleaning : List Entry) (stop : Nat) : Prop :=
  ∃ start removals, cleaning = .called start (.tags j.spec.tag) :: removals ∧
    stop ≤ start + j.settings.infoTimeout ∧
    (∀ e, (j.daemon.tags j.spec.tag x).1.inTime j.settings.infoTimeout = .error e → removals = []) ∧
    ∀ tags, (j.daemon.tags j.spec.tag x).1.inTime j.settings.infoTimeout = .ok tags →
      removals.map Entry.request? = (tags.take removals.length).map (fun tag => some (.remove tag)) ∧
        (removals.length < tags.length → stop = start + j.settings.infoTimeout)

theorem Cleans.ne_nil_iff (h : j.Cleans s₀ front due cleaning stop) : cleaning ≠ [] ↔ due = true := by
  cases due with
  | false => exact ⟨fun hne => absurd h hne, nofun⟩
  | true =>
      obtain ⟨start, removals, rfl, -⟩ := h
      simp

theorem Cleans.takesOff (h : j.Cleans s₀ front due cleaning stop) (hne : cleaning ≠ []) :
    j.TakesOff (j.daemon.after s₀.daemon front) cleaning stop := by
  obtain rfl := h.ne_nil_iff.1 hne
  obtain ⟨start, removals, rfl, hcleaned⟩ := h
  exact ⟨start, removals, rfl, hcleaned.le_limit, fun _ => hcleaned.eq_nil, fun _ => hcleaned.removes⟩

theorem cleansUp_iff {c : Capability} (hremote : c.remote = j.daemon.isRemote) (succeeded : Bool) :
    j.cleansUp c succeeded = true ↔
      j.daemon.isRemote = false ∧ (succeeded = false ∨ j.spec.publish = true) := by
  rw [cleansUp, hremote]
  cases j.daemon.isRemote <;> cases succeeded <;> simp

/-- A run takes tags off only if it has found what to build, with a daemon that is not far away; then it does
so exactly if it fails or the image is published. -/
theorem run_untags_iff (j : Job σ) (s : Stage σ) :
    Leads j.run s fun r t => ∃ probed front cleaning,
      t.steps = s.steps ++ (front ++ cleaning) ∧ .reported (.probe probed) ∈ front ∧
      (∀ m c, .called m c ∈ front → c.isAboutTags = false) ∧
      (∀ e, probed.bind j.choice = .error e →
        r = .error (.failed (e.inPhase .builderInit)) ∧ cleaning = []) ∧
      (∀ reason, probed.bind j.choice = .ok (.skip reason) →
        r = .ok (.skipped reason) ∧ cleaning = []) ∧
      (∀ c dockerfile, probed.bind j.choice = .ok (.ready c dockerfile) →
        (cleaning ≠ [] ↔ j.daemon.isRemote = false ∧
          ((∃ e, r = .error (.failed e)) ∨
            j.spec.publish = true ∧ ∃ image warning, r = .ok (.built image warning)))) ∧
      (cleaning ≠ [] → j.TakesOff (j.daemon.after s.daemon front) cleaning t.now) := by
  refine (run_ending j s).mono fun r t ht => ?_
  obtain ⟨probed, front, cleaning, hprobed, hrank, hprogress, hending⟩ := ht
  refine ⟨probed, front, cleaning, hprogress.steps, hprobed,
    fun m c hc => Call.isAboutTags_eq_false (hrank _ hc), ?_⟩
  have hremote : ∀ {c dockerfile}, probed.bind j.choice = .ok (.ready c dockerfile) →
      c.remote = j.daemon.isRemote := by
    intro c dockerfile hready
    obtain ⟨c', rfl, ⟨-, hskip⟩ | ⟨havailable, found, -, hstart⟩⟩ := bind_choice_eq_ok_iff.1 hready
    · cases hskip
    · cases found <;> cases hstart
      exact hprogress.lawful.remote_of_probe (List.mem_append_left cleaning hprobed) havailable
  generalize hstart : probed.bind j.choice = start at hending hremote ⊢
  cases hending with
  | unfit e => exact ⟨fun _ h => by cases h; exact ⟨rfl, rfl⟩, nofun, nofun, fun h => absurd rfl h⟩
  | skipped reason => exact ⟨nofun, fun _ h => by cases h; exact ⟨rfl, rfl⟩, nofun, fun h => absurd rfl h⟩
  | failed _ hcleans =>
    refine ⟨nofun, nofun, fun c dockerfile h => ?_, hcleans.takesOff⟩
    cases h
    rw [hcleans.ne_nil_iff, cleansUp_iff (hremote rfl)]
    simp
  | built _ _ _ hcleans =>
    refine ⟨nofun, nofun, fun c dockerfile h => ?_, hcleans.takesOff⟩
    cases h
    rw [hcleans.ne_nil_iff, cleansUp_iff (hremote rfl)]
    simp
  | stopped _ _ hhalt =>
    refine ⟨nofun, nofun, fun c dockerfile h => ?_, fun h => absurd rfl h⟩
    simp [hhalt]

end Job
end ImageBuild
