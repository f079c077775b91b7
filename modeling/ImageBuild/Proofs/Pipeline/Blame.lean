import ImageBuild.Proofs.Pipeline.Course
import ImageBuild.Proofs.Pipeline.Roots
/-!
# Who is to blame for a failed build

The steps of a build settle its result: it is the error of the first step that fails, under the name of the
phase of this step, or the image that the daemon tells of if all steps lead on.  What is done afterwards to
clean up has no part in it.
-/

namespace ImageBuild

open Act

variable {σ α β : Type}

namespace Job

variable {j : Job σ} {s₀ : Stage σ} {word front cleaning : List Entry} {stop : Nat}
variable {r : Except Halt BuildOutcome}

/-! ## The verdict on the steps -/

/-- How a run ends on which there is a verdict. -/
def Settled (j : Job σ) (s₀ : Stage σ) (word : List Entry) (r : Except Halt BuildOutcome) :
    Verdict → Prop
  | .through => ∃ details warning, j.Inspection s₀ word (.ok details) ∧
      r = .ok (.built ⟨details.id, j.spec.tag, details.size⟩ warning)
  | .failed step cause => r = .error (.failed (step.told cause))
  | .stopped => (∃ reason, r = .ok (.skipped reason)) ∨ ∃ halt, r = .error halt ∧ ∀ e, halt ≠ .failed e

theorem Ending.settled_ready {c : Capability} {dockerfile : Path}
    (h : j.Ending s₀ front (.ok (.ready c dockerfile)) cleaning stop r) :
    ∃ v, Along (j.Came s₀ (front ++ cleaning)) j.pipeline v ∧ j.Settled s₀ (front ++ cleaning) r v := by
  have hlater : ∀ {v}, Along (j.Came s₀ front) j.pipeline v → v ≠ .stopped →
      Along (j.Came s₀ (front ++ cleaning)) j.pipeline v :=
    fun halong hv => halong.mono (fun _ _ _ hcame => hcame.append cleaning) hv
  cases h with
  | failed hfails _ => exact ⟨_, hlater hfails nofun, rfl⟩
  | built warning hthrough hfinds _ =>
    obtain ⟨details, hlook, himage⟩ := hfinds
    exact ⟨_, hlater hthrough nofun, details, warning, hlook.append cleaning, by rw [himage]⟩
  | stopped _ hstopped hhalt =>
    rw [List.append_nil]
    exact ⟨_, hstopped, .inr ⟨_, rfl, hhalt⟩⟩

theorem Ending.settled {probed : Except BuildError Capability}
    (hlawful : j.Lawful s₀ (front ++ cleaning)) (hprobed : .reported (.probe probed) ∈ front)
    (h : j.Ending s₀ front (probed.bind j.choice) cleaning stop r) :
    ∃ v, Along (j.Came s₀ (front ++ cleaning)) j.steps v ∧ j.Settled s₀ (front ++ cleaning) r v := by
  have hprobe : j.Came s₀ (front ++ cleaning) .probe (probed.map Capability.available) :=
    ⟨probed, List.mem_append_left cleaning hprobed, rfl⟩
  cases probed with
  | error e =>
      cases h
      exact ⟨.failed .probe e, .failed _ hprobe, rfl⟩
  | ok c =>
      change j.Ending s₀ front (j.choice c) cleaning stop r at h
      have hlocate : j.Came s₀ (front ++ cleaning) .locate
          ((Dockerfile.locate j.fs j.spec.workDir j.spec.dockerfile).map Option.isSome) := rfl
      rw [choice] at h
      cases havailable : c.available with
      | false =>
          rw [if_pos (by simp [havailable])] at h
          cases h
          refine ⟨.stopped, .stopped _ fun result hcame => ?_, .inl ⟨_, rfl⟩⟩
          rw [hcame.unique hlawful hprobe, Except.map, havailable]
      | true =>
          rw [if_neg (by simp [havailable])] at h
          rw [Except.map, havailable] at hprobe
          cases hfound : Dockerfile.locate j.fs j.spec.workDir j.spec.dockerfile with
          | error e =>
              simp only [hfound] at h hlocate
              cases h
              exact ⟨.failed .locate e, .next hprobe (.failed _ hlocate), rfl⟩
          | ok found =>
              cases found with
              | none =>
                  simp only [hfound] at h hlocate
                  cases h
                  refine ⟨.stopped, .next hprobe (.stopped _ fun result hcame => ?_), .inl ⟨_, rfl⟩⟩
                  exact hcame.unique hlawful hlocate
              | some dockerfile =>
                  simp only [hfound] at h hlocate
                  obtain ⟨v, halong, hsettled⟩ := h.settled_ready
                  exact ⟨v, .next hprobe (.next hlocate halong), hsettled⟩

/-! ## The names of phases -/

theorem rooted_locate (fs : FileSystem) (workDir : Path) (given : Option Path) :
    Rooted (Dockerfile.locate fs workDir given) := by
  cases given with
  | none => trivial
  | some p =>
      simp only [Dockerfile.locate]
      split_ifs <;> trivial

theorem rooted_package (fs : FileSystem) (dockerfile : Path) (spec : BuildSpec) (remote : Bool) :
    Rooted (Context.package fs dockerfile spec remote) := by
  rw [Context.package]
  simp only [bind, Except.bind]
  generalize dockerfile.relativeTo? spec.workDir = relative
  have hadditions : Rooted (Context.additions fs dockerfile relative) := by
    cases relative with
    | some path => trivial
    | none =>
        simp only [Context.additions]
        cases fs.read dockerfile <;> trivial
  cases hadded : Context.additions fs dockerfile relative with
  | error e =>
      rw [hadded] at hadditions
      exact hadditions
  | ok added => cases Ignore.Rules.load fs spec.workDir spec.ignoreFile relative <;> trivial

theorem isRoot_of_map {r : Except BuildError α} {f : α → β} {cause : BuildError} (h : Rooted r)
    (hr : r.map f = .error cause) : cause.IsRoot := by
  cases r with
  | ok a => cases hr
  | error e => cases hr; exact h

/-- The error of a step names no phase, if no reply on the way to it did. -/
theorem Came.isRoot {step : Step} {cause : BuildError} (h : j.Came s₀ word step (.error cause))
    (hreports : ∀ y ∈ word, y.Rooted) (hreplies : j.daemon.Rooted s₀.daemon word)
    (hlookup : Rooted (j.credentials.forImage j.spec.tag)) : cause.IsRoot := by
  cases step with
  | locate => exact isRoot_of_map (rooted_locate _ _ _) h
  | lookup => exact isRoot_of_map hlookup h
  | probe | info | drive | push =>
    obtain ⟨r, hr, hcause⟩ := h
    exact isRoot_of_map (hreports _ hr) hcause
  | package =>
    obtain ⟨c, dockerfile, -, -, hcause⟩ := h
    refine isRoot_of_map ?_ hcause
    rw [packed]
    have hpackage := rooted_package j.fs dockerfile j.spec c.remote
    cases c.builder with
    | session => trivial
    | classic => cases hresult : Context.package j.fs dockerfile j.spec c.remote <;>
        rw [hresult] at hpackage <;> exact hpackage
  | inspect =>
    obtain ⟨r, ⟨before, m, id, back, hword, -, rfl⟩, hcause⟩ := h
    exact isRoot_of_map (hreplies before m _ back hword) hcause

theorem isRoot_blame (step : Step) {cause : BuildError} (h : cause.IsRoot) : (step.blame cause).IsRoot := by
  cases step with
  | info => cases cause <;> rfl
  | _ => exact h

/-! ## What comes afterwards -/

theorem play_bind_fst {act : Act σ α} {f g : α → Act σ β} {s : Stage σ}
    (h : ∀ a t, (play (f a) t).1 = (play (g a) t).1) :
    (play (act >>= f) s).1 = (play (act >>= g) s).1 := by
  rw [play_bind, play_bind]
  obtain ⟨_ | a, t⟩ := play act s
  · rfl
  · exact h a t

/-- A run without its clean-up. -/
def settle (j : Job σ) : Act σ BuildOutcome := do
  let ticket ← Act.start .build
  match ← Act.attempt (Act.during .builderInit (Act.inPhase .builderInit j.initialise)) with
  | .error e =>
    Act.finish ticket
    Act.fail e
  | .ok (.skip reason) =>
    Act.finish ticket
    return .skipped reason
  | .ok (.ready capability dockerfile) =>
    j.conclude (← Act.attempt (j.proceed ticket capability dockerfile))

theorem play_conclude (j : Job σ) (result : Except BuildError (Image × Option String)) (s t : Stage σ) :
    (play (j.conclude result) s).1 = (play (j.conclude result) t).1 := by
  cases result <;> rfl

theorem play_run (j : Job σ) (s : Stage σ) : (play j.run s).1 = (play j.settle s).1 := by
  refine play_bind_fst fun ticket t => play_bind_fst fun result u => ?_
  rcases result with e | reason | ⟨c, dockerfile⟩
  · rfl
  · rfl
  · refine play_bind_fst fun result v => ?_
    split_ifs
    · obtain ⟨hover, -⟩ := cleanUp_leads j v
      rw [play_bind]
      cases hplay : play j.cleanUp v with
      | mk r w =>
          rw [hplay] at hover
          obtain rfl : r = .ok () := hover
          exact play_conclude j result w v
    · rfl

theorem push_eq_of_push {d d' : Daemon σ} (hpush : d'.push = d.push) (settings : Settings) (tag : String)
    (credentials : Option Registry.Credentials) (hook : Push.RetryHook σ) (patience : Nat) :
    Push.push d' settings tag credentials hook patience =
      Push.push d settings tag credentials hook patience := by
  have honce : Push.once d' tag credentials = Push.once d tag credentials := by
    rw [Push.once, Push.once, hpush]
  have htry : ∀ attempt latest, Push.tryFrom d' settings tag credentials hook patience attempt latest =
      Push.tryFrom d settings tag credentials hook patience attempt latest := by
    induction patience with
    | zero => exact fun _ _ => rfl
    | succ patience ih => exact fun _ _ => by simp only [Push.tryFrom, honce, ih]
  rw [Push.push, Push.push, htry]

/-- The job with a daemon that does something else about tags. -/
def retag (j : Job σ) (tags : String → σ → Reply (List String) × σ) (remove : String → σ → Reply Unit × σ) :
    Job σ :=
  { j with daemon := { j.daemon with tags, remove } }

section

variable (j : Job σ) (tags : String → σ → Reply (List String) × σ) (remove : String → σ → Reply Unit × σ)

theorem retag_initialise : (j.retag tags remove).initialise = j.initialise := rfl

theorem retag_daemonInfo : (j.retag tags remove).daemonInfo = j.daemonInfo := rfl

theorem retag_publish : (j.retag tags remove).publish = j.publish := by
  have hsame : (j.retag tags remove).daemon.push = j.daemon.push := rfl
  have hpush : Push.push (j.retag tags remove).daemon = Push.push j.daemon := by
    funext settings tag credentials hook patience
    exact push_eq_of_push hsame settings tag credentials hook patience
  rw [publish, publish, hpush]
  rfl

theorem retag_construct : (j.retag tags remove).construct = j.construct := by
  have hprepare : (j.retag tags remove).prepare = j.prepare := rfl
  have hbuild : (j.retag tags remove).buildImage = j.buildImage := by
    funext c dockerfile context
    rw [buildImage, buildImage, retag_daemonInfo]
    cases context <;> rfl
  funext ticket c dockerfile
  rw [construct, construct, hprepare, hbuild]

theorem retag_proceed : (j.retag tags remove).proceed = j.proceed := by
  funext ticket c dockerfile
  rw [proceed, proceed, retag_construct, retag_publish]
  rfl

theorem retag_settle : (j.retag tags remove).settle = j.settle := by
  rw [settle, settle, retag_initialise, retag_proceed]
  rfl

/-- The result of a run does not depend on what becomes of tags. -/
theorem play_run_retag (s : Stage σ) :
    (play (j.retag tags remove).run s).1 = (play j.run s).1 := by
  rw [play_run, play_run, retag_settle]

end

/-! ## The result of a run -/

theorem failed_iff {v : Verdict} (halong : Along (j.Came s₀ word) j.steps v) (hlawful : j.Lawful s₀ word)
    (hsettled : j.Settled s₀ word r v) (e : BuildError) :
    r = .error (.failed e) ↔
      ∃ step cause, Along (j.Came s₀ word) j.steps (.failed step cause) ∧ e = step.told cause := by
  have hunique : ∀ {v'}, Along (j.Came s₀ word) j.steps v' → v = v' :=
    fun h => halong.unique (fun _ _ _ hcame hcame' => hcame.unique hlawful hcame') h
  constructor
  · rintro rfl
    cases v with
    | failed step cause =>
      cases hsettled
      exact ⟨step, cause, halong, rfl⟩
    | through =>
      obtain ⟨details, warning, -, hr⟩ := hsettled
      cases hr
    | stopped =>
      rcases hsettled with ⟨reason, hr⟩ | ⟨halt, hr, hhalt⟩
      · cases hr
      · exact absurd (Except.error.inj hr).symm (hhalt e)
  · rintro ⟨step, cause, hfails, rfl⟩
    cases hunique hfails
    exact hsettled

theorem built_iff {v : Verdict} (halong : Along (j.Came s₀ word) j.steps v) (hlawful : j.Lawful s₀ word)
    (hsettled : j.Settled s₀ word r v) (image : Image) :
    (∃ warning, r = .ok (.built image warning)) ↔
      (∀ step ∈ j.steps, j.Came s₀ word step (.ok true)) ∧
        ∃ details, j.Inspection s₀ word (.ok details) ∧
          image = ⟨details.id, j.spec.tag, details.size⟩ := by
  rw [← Along.through_iff]
  constructor
  · rintro ⟨warning, rfl⟩
    cases v with
    | failed step cause => cases hsettled
    | through =>
      obtain ⟨details, warning', hlook, hr⟩ := hsettled
      cases hr
      exact ⟨halong, details, hlook, rfl⟩
    | stopped =>
      rcases hsettled with ⟨reason, hr⟩ | ⟨halt, hr, -⟩
      · cases hr
      · cases hr
  · rintro ⟨hthrough, details, hlook, rfl⟩
    cases halong.unique (fun _ _ _ hcame hcame' => hcame.unique hlawful hcame') hthrough
    obtain ⟨details', warning, hlook', hr⟩ := hsettled
    cases hlook.unique hlawful hlook'
    exact ⟨warning, hr⟩

/-- A run fails exactly if one of its steps does, with the error of the first that fails, under one name of a
phase unless a reply named one; and it builds an image exactly if all steps lead on.  Nothing that becomes of
tags makes a difference to it. -/
theorem run_blames_first (j : Job σ) (s : Stage σ) :
    Leads j.run s fun r t => ∃ word, t.steps = s.steps ++ word ∧
      (∀ e, r = .error (.failed e) ↔
        ∃ step cause, Along (j.Came s word) j.steps (.failed step cause) ∧ e = step.told cause) ∧
      (∀ image, (∃ warning, r = .ok (.built image warning)) ↔
        (∀ step ∈ j.steps, j.Came s word step (.ok true)) ∧
          ∃ details, j.Inspection s word (.ok details) ∧
            image = ⟨details.id, j.spec.tag, details.size⟩) ∧
      (j.daemon.Rooted s.daemon word → Rooted (j.credentials.forImage j.spec.tag) →
        ∀ step cause, j.Came s word step (.error cause) →
          step.told cause = .phase step.phase (step.blame cause) ∧
            (step.blame cause).phase? = none ∧ (step.told cause).root = step.blame cause) ∧
      (∀ step : Step, (step.told .cancelled).kind = .cancelled) ∧
      ∀ tags remove, (play (j.retag tags remove).run s).1 = r := by
  have hretag : Leads j.run s fun r _ => ∀ tags remove, (play (j.retag tags remove).run s).1 = r :=
    fun tags remove => j.play_run_retag tags remove s
  refine (Leads.and (j.frank_run s) (Leads.and (j.run_ending s) hretag)).mono fun r t ht => ?_
  obtain ⟨⟨word, hsteps, -, hfrank⟩, ⟨probed, front, cleaning, hprobed, -, hprogress, hending⟩, htags⟩ := ht
  obtain rfl : word = front ++ cleaning := List.append_cancel_left (hsteps.symm.trans hprogress.steps)
  obtain ⟨v, halong, hsettled⟩ := hending.settled hprogress.lawful hprobed
  refine ⟨_, hsteps, failed_iff halong hprogress.lawful hsettled, built_iff halong hprogress.lawful hsettled,
    fun hreplies hlookup step cause hcame => ?_, fun step => by cases step <;> rfl, htags⟩
  have hcause := hcame.isRoot (hfrank trivial hreplies).1 hreplies hlookup
  have hblame := isRoot_blame step hcause
  have htold := hblame.inPhase_eq step.phase
  refine ⟨htold, hblame, ?_⟩
  rw [Step.told, BuildError.root_inPhase, hblame.root_eq]

end Job
end ImageBuild
