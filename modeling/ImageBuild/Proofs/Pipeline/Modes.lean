import ImageBuild.Proofs.Pipeline.Phases
import ImageBuild.Proofs.Stage.Blind
/-!
# What the mode of a screen changes

A build never asks which mode its screen is in, and a screen that works hides events without a word.  So a run
comes to the same in either mode, and all that is missing from a screen for final events is what the other events
have written to the full one.
-/

namespace ImageBuild

open Act

variable {σ : Type}

/-! ## No part of a build sees the screen -/

namespace Job

variable (j : Job σ) (c : Capability) (dockerfile : Path)

theorem blind_initialise : Blind j.initialise := by
  have hprobe : Blind (Probe.run j.daemon j.settings) := Probe.asking_run asking_blind _ _
  refine (hprobe.reporting _).bind fun capability => ?_
  refine of_ite _ (blind_pure _) ((woven_blind.ofExcept _).bind fun found => ?_)
  cases found with
  | none => exact blind_pure _
  | some dockerfile => exact blind_pure _

theorem blind_prepare : Blind (j.prepare c dockerfile) := by
  rw [prepare]
  cases c.builder with
  | session => exact blind_pure _
  | classic =>
      apply Blind.during .contextBuild
      refine ((woven_blind.ofExcept _).inPhase .contextBuild).bind fun context => ?_
      exact (woven_blind.announce _).bind fun _ => blind_pure _

theorem blind_buildImage (context : Option Context) : Blind (j.buildImage c dockerfile context) := by
  refine blind_look (fun s => ?_) fun _ _ => rfl
  have hinfo : Blind j.daemonInfo := asking_daemonInfo asking_blind j
  refine hinfo.bind fun info => (woven_blind.announce _).bind fun _ => ?_
  refine (blind_note _).bind fun _ => ?_
  cases context with
  | some context =>
      have hbuild : ∀ packing credentials, Blind (Classic.build j.daemon j.settings j.spec context packing
          credentials) := Classic.asking_build asking_blind _ _ _ _
      exact ((hbuild _ _).reporting _).bind fun _ => blind_pure _
  | none =>
      have hbuild : ∀ credentials, Blind (Solve.build j.daemon j.settings j.spec dockerfile credentials) :=
        Solve.asking_build asking_blind _ _ _ _
      exact ((hbuild _).reporting _).bind fun _ => blind_pure _

theorem blind_publish : Blind j.publish := by
  have hpush : ∀ credentials, Blind (Push.push j.daemon j.settings j.spec.tag credentials
      (fun _ _ => pure ()) j.patience) := fun _ => Push.asking_push asking_blind _ _ _ _ _
  apply Blind.during .push
  refine ((woven_blind.ofExcept _).inPhase .push).bind fun credentials => ?_
  exact (((hpush credentials).reporting .push).inPhase .push).bind fun _ => woven_blind.announce _

theorem blind_construct (ticket : Nat) : Blind (j.construct ticket c dockerfile) := by
  apply Blind.closing ticket
  refine (j.blind_prepare c dockerfile).bind fun context => ?_
  exact ((j.blind_buildImage c dockerfile context).inPhase .imageBuild).during .imageBuild

theorem blind_proceed (ticket : Nat) : Blind (j.proceed ticket c dockerfile) := by
  refine (j.blind_construct c dockerfile ticket).bind fun built => ?_
  have hinspect : Blind (inPhase .imageBuild
      (ask .none (.inspect built.1) (j.daemon.inspect built.1)) >>= fun details =>
        pure ((⟨details.id, j.spec.tag, details.size⟩ : Image), built.2)) :=
    ((blind_ask _ _ _).inPhase .imageBuild).bind fun _ => blind_pure _
  refine (woven_blind.announce _).bind fun _ => ?_
  exact of_ite _ (j.blind_publish.bind fun _ => hinspect) hinspect

theorem blind_removeAll (d : Daemon σ) (w : Watch) (tags : List String) : Blind (removeAll d w tags) := by
  induction tags with
  | nil => exact blind_pure ()
  | cons tag rest ih => exact (blind_ask w _ _).attempt.bind fun _ => ih

theorem blind_cleanUp : Blind j.cleanUp := by
  refine (blind_takeTurns .none).bind fun _ => blind_look (fun s => ?_) fun _ _ => rfl
  apply Blind.tryCatch
  · refine (blind_ask _ _ _).attempt.bind fun result => ?_
    cases result with
    | error e => exact blind_pure ()
    | ok tags => exact blind_removeAll j.daemon _ tags
  · intro halt
    cases halt with
    | overdue => exact blind_pure ()
    | failed e => exact blind_throw (.failed e)
    | forever => exact blind_throw .forever

/-- A run is the same before any two screens that fail alike. -/
theorem blind_run : Blind j.run := by
  refine (blind_start .build).bind fun ticket => ?_
  refine ((j.blind_initialise.inPhase .builderInit).during .builderInit).attempt.bind fun init => ?_
  rcases init with e | reason | ⟨c, dockerfile⟩
  · exact (blind_note _).bind fun _ => blind_fail e
  · exact (blind_note _).bind fun _ => blind_pure _
  · refine (j.blind_proceed c dockerfile ticket).attempt.bind fun result => ?_
    have hend : Blind (j.conclude result) := asking_conclude asking_blind j result
    exact of_ite _ (j.blind_cleanUp.bind fun _ => hend) hend

end Job

/-! ## The two modes -/

/-- A screen that can be written to. -/
def Screen.working (mode : Mode) (color : Bool) : Screen := { mode, color }

theorem Screen.render_working (mode : Mode) (color : Bool) (e : Event) :
    (working mode color).render e =
      .ok (if (working mode color).shows e then eventLine color e ++ "\n" else "") := by
  rw [render]
  split_ifs <;> rfl

/-- News of something of which there will be more. -/
def Entry.isPartial : Entry → Bool
  | shown e => !e.final
  | _ => false

theorem Entry.written_working (color : Bool) (e : Entry) :
    written (.working .finalOnly color) e =
      if !e.isPartial then written (.working .full color) e else "" := by
  cases e with
  | shown e =>
      have hfull : (Screen.working .full color).shows e = true := rfl
      have hbrief : (Screen.working .finalOnly color).shows e = e.final := rfl
      rw [written, written, Screen.render_working, Screen.render_working, hfull, hbrief, isPartial, Bool.not_not]
      cases e.final <;> rfl
  | _ => rfl

theorem join_map_ite {α : Type} (p : α → Bool) (line : α → String) (items : List α) :
    String.join (items.map fun a => if p a then line a else "") =
      String.join ((items.filter p).map line) := by
  induction items with
  | nil => rfl
  | cons a rest ih =>
      rw [List.map_cons, String.join_cons, ih]
      cases hp : p a <;> simp [hp, String.join_cons]

/-- A run has the same end before a full screen and before one for final events, and leaves the same behind: its
calls, its phases and everything else but the screen.  The text on the screen for final events is the text on the
full one without the lines of the other events. -/
theorem Job.run_modes (j : Job σ) (s : Stage σ) (color : Bool) :
    let full := play j.run (s.on (.working .full color))
    let brief := play j.run (s.on (.working .finalOnly color))
    brief.1 = full.1 ∧ brief.2.calls = full.2.calls ∧ brief.2.recorder = full.2.recorder ∧
      brief.2 = full.2.on (.working .finalOnly color) ∧
      full.2.output = String.join (full.2.entries.map (Entry.written (.working .full color))) ∧
      brief.2.output = String.join
        ((full.2.entries.filter fun e => !e.isPartial).map (Entry.written (.working .full color))) ∧
      ∀ e, Entry.written (.working .full color) (.shown e) = Screen.eventLine color e ++ "\n" := by
  intro full brief
  have hfaults : (Screen.working .finalOnly color).faultOf? =
      (s.on (.working .full color)).screen.faultOf? :=
    funext fun e => (Screen.faultOf?_eq_none rfl e).trans (Screen.faultOf?_eq_none rfl e).symm
  obtain ⟨hscreen, hbrief⟩ := j.blind_run (s.on (.working .full color)) (.working .finalOnly color) hfaults
  have hplay : brief = (full.1, full.2.on (.working .finalOnly color)) := hbrief
  have hresult : brief.1 = full.1 := by rw [hplay]
  have hstage : brief.2 = full.2.on (.working .finalOnly color) := by rw [hplay]
  refine ⟨hresult, ?_, ?_, hstage, ?_, ?_, fun e => ?_⟩
  · rw [hstage]
    rfl
  · rw [hstage]
    rfl
  · rw [Stage.output, hscreen]
    rfl
  · rw [hstage, ← join_map_ite]
    simp only [← Entry.written_working]
    rfl
  · rw [Entry.written, Screen.render_working]
    rfl

end ImageBuild
