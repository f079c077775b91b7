import ImageBuild.Proofs.Pipeline.Drivers
import ImageBuild.Proofs.Pipeline.Opening
import ImageBuild.Proofs.Stage.Landmarks
/-!
# The phases of a build

Which landmarks a run leaves behind that comes to an end: its phases, in the order in which they start and
finish, with what was found by the probe and what came of the driver between them.
-/

namespace ImageBuild

open Act

variable {σ α : Type}

/-! ## Actions between the landmarks -/

section

variable {Q : ∀ {α : Type}, Act σ α → Prop} (h : Asking Q)
include h

theorem Classic.asking_build (d : Daemon σ) (settings : Settings) (spec : BuildSpec)
    (context : Context) (packing : Nat) (credentials : Registry.CredentialTable) :
    Q (build d settings spec context packing credentials) :=
  h.look (fun s => h.bind h.checkCaller fun _ =>
    h.bind (h.call _ _) (woven_afterCall h.toWoven s.encode context packing)) fun _ _ => rfl

theorem Solve.asking_build (d : Daemon σ) (settings : Settings) (spec : BuildSpec)
    (dockerfile : Path) (credentials : Registry.CredentialTable) :
    Q (build d settings spec dockerfile credentials) := by
  refine h.bind (h.bind h.checkCaller fun _ => h.look (fun s => ?_) fun _ _ => rfl)
    fun r => h.bind (woven_showAll h.toWoven _) fun _ => h.ofExcept _
  exact h.bind (h.call _ _) (woven_afterCall h.toWoven s.now)

namespace Push

theorem asking_once (d : Daemon σ) (tag : String) (credentials : Option Registry.Credentials) :
    Q (once d tag credentials) := by
  refine h.bind h.checkCaller fun _ => h.bind (h.ask rfl _ _) fun beats => ?_
  refine h.bind (woven_listen h.toWoven {} beats) fun heard => ?_
  cases heard.error with
  | none => exact h.pure ()
  | some reason => exact h.fail _

theorem asking_tryFrom (d : Daemon σ) (settings : Settings) (tag : String)
    (credentials : Option Registry.Credentials) (patience attempt : Nat)
    (latest : Option BuildError) :
    Q (tryFrom d settings tag credentials (fun _ _ => pure ()) patience attempt latest) := by
  induction patience generalizing attempt latest with
  | zero => exact h.forever
  | succ patience ih =>
      rw [tryFrom]
      refine h.bind (h.attempt (asking_once h d tag credentials)) fun result => ?_
      split
      · exact h.pure ()
      · exact h.fail _
      · refine of_ite _ (h.fail _) (h.bind (h.pure ()) fun _ => ?_)
        have hpause : Q (pause settings.pushRetryDelay : Act σ Unit) :=
          h.bind h.checkCaller fun _ => h.wait rfl _
        refine h.bind (h.attempt hpause) fun paused => ?_
        cases paused with
        | error e => exact h.fail _
        | ok x => exact ih (attempt + 1) _

theorem asking_push (d : Daemon σ) (settings : Settings) (tag : String)
    (credentials : Option Registry.Credentials) (patience : Nat) :
    Q (push d settings tag credentials (fun _ _ => pure ()) patience) := by
  rw [push]
  cases Registry.checkTag (Registry.nameAndTag tag).2 with
  | error fault => exact h.fail _
  | ok x => exact asking_tryFrom h d settings tag credentials patience 1 none

end Push

theorem Probe.asking_run (d : Daemon σ) (settings : Settings) : Q (run d settings) := by
  refine h.bind (h.attempt (h.reporting (h.within _ _ _) fun _ => rfl)) fun result => ?_
  split
  · exact h.fail _
  · exact h.pure _
  · refine h.bind ?_ fun kind => h.bind (h.ofExcept _) fun _ => h.pure _
    refine h.bind (h.attempt (h.within _ _ _)) fun kind => ?_
    split
    · exact h.pure _
    · exact h.fail _
    · exact h.fail _

namespace Job

theorem asking_daemonInfo (j : Job σ) : Q j.daemonInfo := by
  refine h.bind (h.attempt (h.reporting (h.within _ _ _) fun _ => rfl)) fun result => ?_
  split
  · exact h.pure _
  · exact h.fail _
  · exact h.fail _

theorem asking_conclude (j : Job σ) (result : Except BuildError (Image × Option String)) :
    Q (j.conclude result) := by
  cases result with
  | error e => exact h.bind (h.note rfl) fun _ => h.fail e
  | ok built => exact h.bind (h.note rfl) fun _ => h.pure _

end Job

end

namespace Job

theorem removeAll_sameLandmarks (d : Daemon σ) (w : Watch) (tags : List String) :
    Frames SameLandmarks (removeAll d w tags) := by
  induction tags with
  | nil => exact frames_pure ()
  | cons tag rest ih => exact (ask_sameLandmarks w _ _).attempt.bind fun _ => ih

theorem bare_cleanUp (j : Job σ) : Bare j.cleanUp := by
  refine (tame_bare.takeTurns rfl).bind fun _ => tame_bare.get.bind fun s => ?_
  refine bare_tryCatch ?_ (tame_bare.pure ()) fun halt hne => ?_
  · refine (ask_sameLandmarks _ _ _).attempt.bind fun result => ?_
    cases result with
    | error e => exact frames_pure ()
    | ok tags => exact removeAll_sameLandmarks j.daemon _ tags
  · cases halt with
    | overdue => exact absurd rfl hne
    | failed e => rfl
    | forever => rfl

/-! ## From landmark to landmark -/

/-- What the phase of the image leaves behind, and whether it makes one. -/
inductive Imaging : Bool → List Entry → Prop
  | unasked : Imaging false []
  | driven (m : BuilderMeta) (result : Except BuildError String) :
      Imaging result.isOk [.marked (.describe m), .reported (.driver result)]

/-- What the phases of the context and the image leave behind, the first of which has the ticket `n`. -/
inductive Making (c : Capability) (n : Nat) : Bool → List Entry → Prop
  | unpacked (h : c.builder = .classic) : Making c n false (Entry.phase .contextBuild n [])
  | classic {built : Bool} {inner : List Entry} (h : c.builder = .classic) (himage : Imaging built inner) :
      Making c n built (Entry.phase .contextBuild n [] ++ Entry.phase .imageBuild (n + 1) inner)
  | session {built : Bool} {inner : List Entry} (h : c.builder = .session) (himage : Imaging built inner) :
      Making c n built (Entry.phase .imageBuild n inner)

/-- What publishing leaves behind, if it comes to that. -/
def pushed (publishes : Bool) (n : Nat) : List Entry :=
  if publishes then Entry.phase .push n [] else []

/-- What a run leaves behind. -/
inductive Course (j : Job σ) (n : Nat) : List Entry → Prop
  | brief (probed : Except BuildError Capability) :
      Course j n (Entry.phase .build n (Entry.phase .builderInit (n + 1) [.reported (.probe probed)]))
  | full {c : Capability} {built : Bool} {inner : List Entry} (h : Making c (n + 2) built inner) :
      Course j n
        (Entry.phase .build n
          (Entry.phase .builderInit (n + 1) [.reported (.probe (.ok c))] ++ inner) ++
        pushed (built && j.spec.publish) (n + 2 + Mark.starts (Entry.marks inner)))

variable {j : Job σ} {n : Nat} {c : Capability} {dockerfile : Path}

theorem initialise_traces :
    Traces j.initialise n fun r word =>
      ∃ probed, word = [.reported (.probe probed)] ∧ r = probed.bind j.choice := by
  rw [initialise_eq]
  refine (Traces.reporting (Probe.asking_run asking_bare j.daemon j.settings) fun _ => rfl).bind ?_ ?_
  · rintro c _ rfl
    exact .of_ofExcept ⟨.ok c, rfl, rfl⟩
  · rintro e _ rfl
    exact ⟨.error e, rfl, rfl⟩

theorem prepare_traces :
    Traces (j.prepare c dockerfile) n fun r word =>
      (c.builder = .session ∧ r = .ok none ∧ word = []) ∨
        (c.builder = .classic ∧ (∀ context, r = .ok context → context.isSome) ∧
          word = Entry.phase .contextBuild n []) := by
  rw [prepare]
  cases hbuilder : c.builder with
  | session => exact .of_pure (.inl ⟨rfl, rfl, rfl⟩)
  | classic =>
      have hpack : Traces (do
          let context ← inPhase .contextBuild
            (ofExcept (Context.package j.fs dockerfile j.spec c.remote))
          announce (.text "Creating build context done")
          return some context : Act σ (Option Context)) (n + 1) fun r word =>
            (∀ context, r = .ok context → context.isSome) ∧ word = [] := by
        refine .bare_bind ((tame_bare.ofExcept _).inPhase .contextBuild) (fun context => ?_)
          fun e => ⟨nofun, rfl⟩
        refine .bare_bind (tame_bare.announce _) (fun _ => ?_) fun e => ⟨nofun, rfl⟩
        exact .of_pure ⟨fun found h => by cases h; rfl, rfl⟩
      refine (hpack.during .contextBuild).mono fun r word hword => ?_
      obtain ⟨_, ⟨hsome, rfl⟩, rfl⟩ := hword
      exact .inr ⟨rfl, hsome, rfl⟩

theorem driver_traces {act : Act σ α} {report : Except BuildError α → Report} {g : α → String}
    {f : α → String × Option String} (hact : Bare act)
    (hreport : ∀ result, report result = .driver (result.map g)) (m : BuilderMeta) :
    Traces (note (.marked (.describe m)) >>= fun _ => reporting report act >>= fun a => pure (f a))
      n fun r word => Imaging r.isOk word := by
  refine .note_bind rfl ((Traces.reporting hact fun result => by rw [hreport]; rfl).bind ?_ ?_)
  · rintro a _ rfl
    refine .of_pure ?_
    rw [hreport]
    exact .driven m (.ok (g a))
  · rintro e _ rfl
    rw [hreport]
    exact .driven m (.error e)

theorem buildImage_traces (context : Option Context) :
    Traces (j.buildImage c dockerfile context) n fun r word => Imaging r.isOk word := by
  refine .bare_bind tame_bare.get (fun s => ?_) fun e => .unasked
  refine .bare_bind (asking_daemonInfo asking_bare j) (fun info => ?_) fun e => .unasked
  refine .bare_bind (tame_bare.announce _) (fun _ => ?_) fun e => .unasked
  cases context with
  | some context =>
      exact driver_traces (g := Classic.Built.imageId) (Classic.asking_build asking_bare _ _ _ _ _ _) (fun _ => rfl) _
  | none =>
      exact driver_traces (g := id) (Solve.asking_build asking_bare _ _ _ _ _)
        (fun result => by cases result <;> rfl) _

theorem construct_traces (ticket : Nat) :
    Traces (j.construct ticket c dockerfile) n fun r word =>
      ∃ inner, Making c n r.isOk inner ∧ word = inner ++ [.marked (.finish ticket)] := by
  have himage : ∀ (context : Option Context) (n : Nat),
      Traces (during .imageBuild (inPhase .imageBuild (j.buildImage c dockerfile context))) n
        fun r word => ∃ inner, Imaging r.isOk inner ∧ word = Entry.phase .imageBuild n inner := by
    intro context n
    refine (((buildImage_traces context).inPhase .imageBuild).during .imageBuild).mono fun r word hword => ?_
    obtain ⟨inner, ⟨result, himaging, rfl⟩, rfl⟩ := hword
    cases result <;> exact ⟨inner, himaging, rfl⟩
  refine Traces.closing ticket (prepare_traces.bind ?_ ?_)
  · rintro context _ (⟨hsession, -, rfl⟩ | ⟨hclassic, -, rfl⟩)
    · refine (himage context n).mono fun r word hword => ?_
      obtain ⟨inner, himaging, rfl⟩ := hword
      exact .session hsession himaging
    · refine (himage context (n + 1)).mono fun r word hword => ?_
      obtain ⟨inner, himaging, rfl⟩ := hword
      exact .classic hclassic himaging
  · rintro e _ (⟨-, hr, -⟩ | ⟨hclassic, -, rfl⟩)
    · cases hr
    · exact .unpacked hclassic

theorem publish_traces :
    Traces j.publish n fun _ word => word = Entry.phase .push n [] := by
  have hpush : Bare (do
      let credentials ← inPhase .push (ofExcept (j.credentials.forImage j.spec.tag))
      inPhase .push (reporting .push
        (Push.push j.daemon j.settings j.spec.tag credentials (fun _ _ => pure ()) j.patience))
      announce (.text "Pushing image done")) := by
    refine ((tame_bare.ofExcept _).inPhase .push).bind fun credentials => ?_
    refine Bare.bind (Bare.inPhase .push ?_) fun _ => tame_bare.announce _
    exact asking_bare.reporting (Push.asking_push asking_bare _ _ _ _ _) fun _ => rfl
  refine ((Traces.of_bare hpush).during .push).mono fun r word hword => ?_
  obtain ⟨_, rfl, rfl⟩ := hword
  rfl

/-- Nothing is left out for want of somebody to show it to. -/
theorem announce_traces (e : Event) :
    Traces (announce e : Act σ Unit) n fun r word => r = .ok () ∧ word = [] := by
  intro s _
  have hok : Leads (announce e) s fun r _ => r = .ok () := by rw [leads_announce]
  refine ((tame_bare.announce e s).and hok).mono fun r t ht => ?_
  obtain ⟨⟨hsame, -⟩, rfl⟩ := ht
  exact .of_result (r := .ok ()) (hsame.trans (List.append_nil _).symm) ⟨rfl, rfl⟩

theorem proceed_traces (ticket : Nat) :
    Traces (j.proceed ticket c dockerfile) n fun _ word =>
      ∃ built inner, Making c n built inner ∧ word = inner ++ .marked (.finish ticket) ::
        pushed (built && j.spec.publish) (n + Mark.starts (Entry.marks inner)) := by
  refine (construct_traces ticket).bind ?_ ?_
  · rintro built _ ⟨inner, hmaking, rfl⟩
    have hinspect : Bare (inPhase .imageBuild
        (ask .none (.inspect built.1) (j.daemon.inspect built.1)) >>= fun details =>
          pure ((⟨details.id, j.spec.tag, details.size⟩ : Image), built.2)) :=
      ((asking_bare.ask rfl _ _).inPhase .imageBuild).bind fun _ => tame_bare.pure _
    have hstarts : Mark.starts (Entry.marks (inner ++ [.marked (.finish ticket)])) =
        Mark.starts (Entry.marks inner) := by
      rw [Entry.marks_append, Mark.starts_append]
      rfl
    rw [hstarts]
    -- Whatever comes after the push, it leaves nothing behind.
    have hend : ∀ {publishes} {word : List Entry}, j.spec.publish = publishes →
        word = pushed publishes (n + Mark.starts (Entry.marks inner)) →
        ∃ built inner', Making c n built inner' ∧ inner ++ [.marked (.finish ticket)] ++ word =
          inner' ++ .marked (.finish ticket) ::
            pushed (built && j.spec.publish) (n + Mark.starts (Entry.marks inner')) := by
      rintro _ _ rfl rfl
      exact ⟨true, inner, hmaking, by rw [List.append_assoc]; rfl⟩
    refine (announce_traces _).bind ?_ ?_
    · rintro _ _ ⟨-, rfl⟩
      split_ifs with hpublish
      · refine publish_traces.bind ?_ ?_
        · rintro _ _ rfl
          refine (Traces.of_bare hinspect).mono ?_
          rintro _ _ rfl
          exact hend hpublish rfl
        · rintro _ _ rfl
          exact hend hpublish rfl
      · refine (Traces.of_bare hinspect).mono ?_
        rintro _ _ rfl
        exact hend (Bool.eq_false_iff.2 hpublish) rfl
    · rintro _ _ ⟨hr, -⟩
      cases hr
  · rintro e _ ⟨inner, hmaking, rfl⟩
    exact ⟨false, inner, hmaking, rfl⟩

theorem init_traces :
    Traces (during .builderInit (inPhase .builderInit j.initialise)) n fun r word =>
      ∃ probed, word = Entry.phase .builderInit n [.reported (.probe probed)] ∧
        ∀ start, r = .ok start → probed.bind j.choice = .ok start := by
  refine ((initialise_traces.inPhase .builderInit).during .builderInit).mono fun r word hword => ?_
  obtain ⟨_, ⟨_, ⟨probed, rfl, rfl⟩, rfl⟩, rfl⟩ := hword
  refine ⟨probed, rfl, fun start hstart => ?_⟩
  cases hchoice : probed.bind j.choice with
  | error e => rw [hchoice] at hstart; cases hstart
  | ok found => rw [hchoice] at hstart; cases hstart; rfl

theorem run_traces (j : Job σ) (n : Nat) : Traces j.run n fun _ word => Course j n word := by
  refine .start_bind (init_traces.attempt_bind ?_)
  rintro result _ ⟨probed, rfl, hchoice⟩
  rcases result with e | reason | ⟨c, dockerfile⟩
  · exact .note_bind rfl (.of_fail (.brief probed))
  · exact .note_bind rfl (.of_pure (.brief probed))
  · obtain ⟨c', rfl, hready⟩ := bind_choice_eq_ok_iff.1 (hchoice _ rfl)
    obtain rfl : c' = c := by
      rcases hready with ⟨-, h⟩ | ⟨-, found, -, h⟩
      · cases h
      · cases found <;> cases h
        rfl
    refine (proceed_traces n).attempt_bind ?_
    rintro outcome _ ⟨built, inner, hmaking, rfl⟩
    have hrest : Bare (do
        if j.cleansUp c' outcome.isOk then j.cleanUp
        j.conclude outcome) :=
      of_ite _ (j.bare_cleanUp.bind fun _ => asking_conclude asking_bare j outcome)
        (asking_conclude asking_bare j outcome)
    refine (Traces.of_bare hrest).mono ?_
    rintro _ _ rfl
    have hcourse := Course.full (j := j) (n := n) hmaking
    simpa [Entry.phase, Mark.isStart, Nat.add_assoc] using hcourse

end Job
end ImageBuild
