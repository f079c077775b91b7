import ImageBuild.Proofs.Classic.Settling
import ImageBuild.Proofs.Pipeline.Opening
import ImageBuild.Proofs.Pipeline.Rooted
/-!
# What the reports of a run name

A step of a build passes on what the daemon has told it or finds an error of its own.  Neither names a phase,
so no report of a run does, unless a reply did.
-/

namespace ImageBuild

open Act BuildError

variable {σ : Type}

namespace Classic

theorem isRoot_respond {st : State} {i : Input} {e : BuildError}
    (h : (respond st i).outcome = some (.error e)) (hi : ∀ e', i = .failed e' → e'.IsRoot) : e.IsRoot := by
  cases i with
  | chunk | fault | finished | dropped => cases h
  | look =>
    obtain ⟨unseen, uploading, events, hlook⟩ := respond_look st
    rw [hlook] at h
    cases h
  | message m =>
    rw [respond] at h
    cases hm : m.error <;> simp only [hm] at h <;> cases h
    rfl
  | failed e' =>
    cases hfault : st.upload.fault <;> simp only [respond, Upload.error?, hfault] at h <;> cases h
    · exact hi e' rfl
    · rfl
  | ended =>
    cases hfault : st.upload.fault <;> cases hid : st.imageId <;>
      simp only [respond, State.conclude, Upload.error?, hfault, hid, Option.map_some, Option.map_none]
        at h <;> cases h <;> rfl
  | cancelled => cases h; rfl

theorem ends_hear (st : State) (i : Input) {bad : BuildError → Prop} :
    Ends (hear st i : Act σ Response) (· = respond st i) bad :=
  (ends_announceAll _).bind fun _ _ => ends_pure rfl

theorem ends_finish {r : Response} (h : ∀ e, r.outcome = some (.error e) → e.IsRoot) :
    Ends (finish r : Act σ Built) (fun _ => True) IsRoot := by
  refine ends_ofExcept ?_
  cases hr : r.outcome with
  | none => rfl
  | some result =>
      cases result with
      | error e => exact h e hr
      | ok built => trivial

theorem ends_hear_finish (st : State) {i : Input} (hi : ∀ e, i = .failed e → e.IsRoot) :
    Ends (hear st i >>= finish : Act σ Built) (fun _ => True) IsRoot := by
  refine (ends_hear st i).bind fun r hr => ends_finish fun e he => ?_
  subst hr
  exact isRoot_respond he hi

theorem ends_listen (st : State) (look : Bool) {beats : List (Beat BuildMessage)}
    (h : ∀ b ∈ beats, b.Rooted) :
    Ends (listen st look beats : Act σ Built) (fun _ => True) IsRoot := by
  have hlook : ∀ {look : Bool} {act : Act σ Built}, Ends act (fun _ => True) IsRoot →
      Ends (if look then checkCaller >>= fun _ => act else act) (fun _ => True) IsRoot :=
    fun hact => .ite _ ((ends_checkCaller IsRoot.cancelled).bind fun _ _ => hact) hact
  induction beats generalizing st look with
  | nil => exact hlook (ends_hear_finish st nofun)
  | cons b rest ih =>
      obtain ⟨hb, hrest⟩ := List.forall_mem_cons.1 h
      refine hlook ((ends_follow IsRoot.cancelled .forCaller b.pace).bind fun _ _ => ?_)
      cases hcontent : b.content with
      | none => exact ih st false hrest
      | some content =>
          cases content with
          | error e => exact ends_hear_finish st fun e' he => by cases he; exact hb e hcontent
          | ok m =>
              refine (ends_hear st (.message m)).bind fun r hr => .ite _ (ends_finish fun e he => ?_)
                (ih r.state true hrest)
              subst hr
              exact isRoot_respond he nofun

theorem ends_answer (encode : Archive.Encoder) (context : Context) (packing : Nat) {r : BuildReply}
    (h : r.reply.Streams) :
    Ends (answer encode context packing r : Act σ (List (Beat BuildMessage))) (fun beats => ∀ b ∈ beats, b.Rooted)
      IsRoot := by
  have hread : Ends (readAll encode context packing : Act σ Unit) (fun _ => True) IsRoot :=
    ends_get.bind fun _ _ => .ite _ (ends_exchange _) (ends_giveWay IsRoot.cancelled .none)
  refine .ite _ (hread.bind fun _ _ => ?_) ?_ <;> split
  · exact ends_fail rfl
  · exact ends_receive IsRoot.cancelled .none h
  · exact ends_fail rfl
  · exact ends_receive IsRoot.cancelled .none h

theorem ends_afterCall (encode : Archive.Encoder) (context : Context) (packing : Nat) {r : BuildReply}
    (h : r.reply.Streams) :
    Ends (afterCall encode context packing r : Act σ Built) (fun _ => True) IsRoot := by
  refine (ends_answer encode context packing h).bind fun beats hbeats =>
    (ends_checkCaller IsRoot.cancelled).bind fun _ _ => ?_
  have hlisten : ∀ st : State, Ends (hear st .look >>= fun seen =>
      listen seen.state true beats : Act σ Built) (fun _ => True) IsRoot :=
    fun st => (ends_hear st .look).bind fun seen _ => ends_listen seen.state true hbeats
  exact .ite _ ((ends_exchange 1).bind fun _ _ => hlisten _) (hlisten _)

theorem build_keeps (d : Daemon σ) (settings : Settings) (spec : BuildSpec) (context : Context)
    (packing : Nat) (credentials : Registry.CredentialTable) :
    d.Keeps True (build d settings spec context packing credentials) (fun _ => True)
      IsRoot :=
  .quiet_bind quiet_get ends_get fun s => .quiet_bind quiet_checkCaller (ends_checkCaller IsRoot.cancelled) fun _ =>
    (Daemon.Keeps.call (fun _ => rfl) fun _ h => h).bind fun _ =>
      .of_quiet (woven_afterCall tame_quiet.woven s.encode context packing _) fun h =>
        ends_afterCall s.encode context packing h.2

end Classic

namespace Solve

theorem ends_produce {reply : Reply SolveResponse} (h : Rooted reply.result) (untaken : Bool)
    (news : List (Pace × SolveStatus)) {bad : BuildError → Prop} :
    Ends (produce reply untaken news : Act σ (List SolveStatus × Except BuildError SolveResponse))
      (fun produced => Rooted produced.2) bad := by
  induction news generalizing untaken with
  | nil =>
      exact (ends_receive IsRoot.cancelled .forCaller h).attempt.bind fun result hresult =>
        ends_pure hresult
  | cons first rest ih =>
      have hgive : Ends (handOver first.1 untaken : Act σ Unit) (fun _ => True) IsRoot := by
        refine (ends_follow IsRoot.cancelled .forCaller first.1).bind fun _ _ => ?_
        have hturn : Ends (giveWay .forCaller >>= fun _ => exchange 1 : Act σ Unit) (fun _ => True)
            IsRoot := (ends_giveWay IsRoot.cancelled .forCaller).bind fun _ _ => ends_exchange 1
        exact hturn.ite _ (ends_exchange 1)
      refine hgive.attempt.bind fun result hresult => ?_
      cases result with
      | error e => exact ends_pure hresult
      | ok x => exact (ih true).bind fun produced hproduced => ends_pure hproduced

theorem ends_afterCall (start : Nat) {r : SolveReply} (h : Rooted r.reply.result) :
    Ends (do
      let (sent, result) ← produce r.reply false r.news
      if 1 < sent.length || start < (← get).now then giveWay .none
      exchange (if !sent.isEmpty && isAtOnce r.reply.pace then 2 else 1)
      return (sent, result) : Act σ (List SolveStatus × Except BuildError SolveResponse))
      (fun produced => Rooted produced.2) IsRoot := by
  refine (ends_produce h false r.news).bind fun produced hproduced => ends_get.bind fun t _ => ?_
  have hlast : Ends (exchange (if !produced.1.isEmpty && isAtOnce r.reply.pace then 2 else 1) >>=
      fun _ => pure produced : Act σ (List SolveStatus × Except BuildError SolveResponse))
      (fun produced => Rooted produced.2) IsRoot :=
    (ends_exchange _).bind fun _ _ => ends_pure hproduced
  exact .ite _ ((ends_giveWay IsRoot.cancelled .none).bind fun _ _ => hlast) hlast

theorem ends_showAll (events : List Event) {bad : BuildError → Prop} :
    Ends (showAll events : Act σ (Option IoError)) (fun _ => True) bad := by
  induction events with
  | nil => exact ends_pure trivial
  | cons e rest ih => exact (ends_display e).bind fun _ _ => ih.bind fun _ _ => ends_pure trivial

theorem rooted_conclude {result : Except BuildError SolveResponse} (h : Rooted result)
    (fault : Option IoError) : Rooted (conclude result fault) := by
  cases result with
  | error e => exact h
  | ok response =>
      cases fault with
      | some fault => rfl
      | none =>
          simp only [conclude, bind, Except.bind]
          cases response.find? fun e => e.1 == digestKey <;> trivial

theorem build_keeps (d : Daemon σ) (settings : Settings) (spec : BuildSpec) (dockerfile : Path)
    (credentials : Registry.CredentialTable) :
    d.Keeps True (build d settings spec dockerfile credentials) (fun _ => True) IsRoot := by
  have hask : ∀ request, d.Keeps True (ask d request) (fun produced => Rooted produced.2)
      IsRoot := fun request =>
    .quiet_bind quiet_checkCaller (ends_checkCaller IsRoot.cancelled) fun _ =>
      .quiet_bind quiet_get ends_get fun s =>
      (Daemon.Keeps.call (fun _ => rfl) fun _ h => h).bind fun _ =>
        .of_quiet (woven_afterCall tame_quiet.woven s.now _) fun h => ends_afterCall s.now h.2
  exact (hask _).bind fun produced => .of_quiet
    ((woven_showAll tame_quiet.woven _).bind fun _ => quiet_ofExcept _) fun h =>
      (ends_showAll _).bind fun fault _ => ends_ofExcept (rooted_conclude h.2 fault)

end Solve

namespace Push

theorem ends_listen (heard : Heard) {beats : List (Beat PushMessage)} (h : ∀ b ∈ beats, b.Rooted) :
    Ends (listen heard beats : Act σ Heard) (fun _ => True) IsRoot := by
  induction beats generalizing heard with
  | nil => exact ends_pure trivial
  | cons b rest ih =>
      obtain ⟨hb, hrest⟩ := List.forall_mem_cons.1 h
      refine (ends_follow IsRoot.cancelled .forCaller b.pace).bind fun _ _ => ?_
      cases hcontent : b.content with
      | none => exact ih heard hrest
      | some content =>
          cases content with
          | error e => exact ends_fail (hb e hcontent)
          | ok m =>
              cases hevent : (heard.heed m).2 with
              | none => simpa only [hevent] using ih _ hrest
              | some e => simpa only [hevent] using (ends_announce e).bind fun _ _ => ih _ hrest

theorem once_keeps (d : Daemon σ) (tag : String) (credentials : Option Registry.Credentials) {P : Prop} :
    d.Keeps P (once d tag credentials) (fun _ => True) IsRoot := by
  have hask : d.Keeps P (Act.ask .forCaller (.push tag credentials) (d.push tag credentials))
      (fun beats => ∀ b ∈ beats, b.Rooted) IsRoot := .ask IsRoot.cancelled (fun _ => rfl) fun _ h => h
  refine .quiet_bind quiet_checkCaller (ends_checkCaller IsRoot.cancelled) fun _ => hask.bind fun beats => ?_
  have hquiet : Quiet (listen {} beats : Act σ Heard) := woven_listen tame_quiet.woven {} beats
  refine .of_quiet (hquiet.bind fun heard => ?_) fun h => (ends_listen {} h.2).bind fun heard _ => ?_
  · cases heard.error with
    | none => exact quiet_pure ()
    | some reason => exact quiet_throw _
  · cases heard.error with
    | none => exact ends_pure trivial
    | some reason => exact ends_fail rfl

theorem isRoot_classify {e : BuildError} (h : e.IsRoot) (tag : String) : (classify tag e).IsRoot := by
  cases e with
  | pushFailed reason =>
    simp only [classify]
    split_ifs <;> rfl
  | _ => exact h

theorem giveUp_keeps (d : Daemon σ) (tag : String) {latest : Option BuildError} {P : Prop}
    (h : P → ∀ e, latest = some e → e.IsRoot) :
    d.Keeps P (giveUp tag latest : Act σ Unit) (fun _ => True) IsRoot := by
  refine .throw fun hP e he => ?_
  cases he
  cases latest with
  | none => rfl
  | some e => exact isRoot_classify (h hP e rfl) tag

theorem tryFrom_keeps (d : Daemon σ) (settings : Settings) (tag : String)
    (credentials : Option Registry.Credentials) (patience attempt : Nat) (latest : Option BuildError)
    {P : Prop} (h : P → ∀ e, latest = some e → e.IsRoot) :
    d.Keeps P (tryFrom d settings tag credentials (fun _ _ => pure ()) patience attempt latest)
      (fun _ => True) IsRoot := by
  induction patience generalizing attempt latest P with
  | zero => exact .throw nofun
  | succ patience ih =>
      rw [tryFrom]
      refine (once_keeps d tag credentials).attempt.bind fun result => ?_
      split
      · exact .of_quiet (quiet_pure ()) fun _ => ends_pure trivial
      · exact giveUp_keeps d tag fun hP => h hP.1
      · rename_i e _
        have he : P ∧ Outcome (fun _ : Unit => True) IsRoot (.error e) → e.IsRoot := And.right
        split_ifs
        · exact .throw fun hP e' he' => by cases he'; exact isRoot_classify (he hP) tag
        · have hpause : Quiet (pause settings.pushRetryDelay : Act σ Unit) :=
            quiet_checkCaller.bind fun _ => quiet_wait .forCaller _
          have hends : Ends (pause settings.pushRetryDelay : Act σ Unit) (fun _ => True)
              IsRoot :=
            (ends_checkCaller IsRoot.cancelled).bind fun _ _ => ends_wait IsRoot.cancelled .forCaller _
          refine .quiet_bind (quiet_pure ()) (ends_pure trivial) fun _ => .quiet_bind hpause.attempt
            (hends.attempt.mono (fun _ _ => trivial) fun _ h => h) fun paused => ?_
          cases paused with
          | error _ => exact giveUp_keeps d tag fun hP e' he' => by cases he'; exact he hP
          | ok u => exact ih _ _ fun hP e' he' => by cases he'; exact he hP

theorem push_keeps (d : Daemon σ) (settings : Settings) (tag : String)
    (credentials : Option Registry.Credentials) (patience : Nat) {P : Prop} :
    d.Keeps P (push d settings tag credentials (fun _ _ => pure ()) patience) (fun _ => True)
      IsRoot := by
  rw [push]
  cases Registry.checkTag (Registry.nameAndTag tag).2 with
  | error fault => exact .throw fun _ e he => by cases he; rfl
  | ok u => exact tryFrom_keeps d settings tag credentials patience 1 none nofun

end Push

namespace Probe

theorem detect_keeps (d : Daemon σ) (timeout : Nat) {P : Prop} :
    d.Keeps P (detect timeout fun w => Act.ask w .builderKind d.builderKind) (fun _ => True) IsRoot := by
  have hask : d.Keeps P (Act.within timeout fun w => Act.ask w .builderKind d.builderKind)
      (fun _ => True) IsRoot := .within fun w => .ask IsRoot.cancelled (fun _ => rfl) fun _ h => h
  refine hask.attempt.bind fun result => ?_
  split
  · exact .of_quiet (quiet_pure _) fun _ => ends_pure trivial
  · exact .throw fun _ e he => by cases he; rfl
  · exact .throw fun _ e he => by cases he; rfl

theorem run_keeps (d : Daemon σ) (settings : Settings) :
    d.Keeps True (run d settings) (fun _ => True) IsRoot := by
  have hping : d.Keeps True (Act.within settings.probeTimeout fun w => Act.ask w .ping d.ping)
      (fun _ => True) IsRoot := .within fun w => .ask IsRoot.cancelled (fun _ => rfl) fun _ h => h
  have hreport : d.Keeps True (Act.reporting .ping
      (Act.within settings.probeTimeout fun w => Act.ask w .ping d.ping)) (fun _ => True) IsRoot :=
    hping.reporting fun _ h => h
  refine hreport.attempt.bind fun result => ?_
  split
  · exact .throw fun _ e he => by cases he; rfl
  · exact .of_quiet (quiet_pure _) fun _ => ends_pure trivial
  · refine (detect_keeps d settings.infoTimeout).bind fun kind => ?_
    have hsession : Rooted (sessionSupported settings kind) := by
      rw [sessionSupported]
      split
      · trivial
      · split <;> trivial
    exact (Daemon.Keeps.ofExcept fun _ => hsession).bind fun session =>
      .of_quiet (quiet_pure _) fun _ => ends_pure trivial

end Probe

namespace Job

open Daemon

theorem frank_initialise (j : Job σ) : j.daemon.Frank j.initialise := by
  rw [initialise_eq]
  exact (Frank.reporting .probe (Probe.run_keeps j.daemon j.settings) fun _ h => h).bind fun c =>
    .of_quiet (quiet_ofExcept _)

theorem frank_prepare (j : Job σ) (c : Capability) (dockerfile : Path) :
    j.daemon.Frank (j.prepare c dockerfile) := by
  rw [prepare]
  cases c.builder with
  | session => exact .of_quiet (quiet_pure _)
  | classic =>
      refine .during ((Frank.of_quiet (quiet_ofExcept _)).inPhase.bind fun context => ?_)
      exact .of_quiet ((quiet_announce _).bind fun _ => quiet_pure _)

theorem frank_daemonInfo (j : Job σ) : j.daemon.Frank j.daemonInfo := by
  have hask : j.daemon.Keeps True (Act.within j.settings.infoTimeout fun w =>
      Act.ask w .info j.daemon.info) (fun _ => True) IsRoot :=
    .within fun w => .ask IsRoot.cancelled (fun _ => rfl) fun _ h => h
  refine (Frank.reporting .info hask fun _ h => h).attempt.bind fun result => ?_
  split
  · exact .of_quiet (quiet_pure _)
  · exact .of_quiet (quiet_throw _)
  · exact .of_quiet (quiet_throw _)

theorem frank_buildImage (j : Job σ) (c : Capability) (dockerfile : Path) (context : Option Context) :
    j.daemon.Frank (j.buildImage c dockerfile context) := by
  refine (Frank.of_quiet quiet_get).bind fun s => j.frank_daemonInfo.bind fun info =>
    (Frank.of_quiet (quiet_announce _)).bind fun _ => (Frank.of_quiet (quiet_note rfl)).bind fun _ => ?_
  cases context with
  | some packed =>
      have hbuild := Classic.build_keeps j.daemon j.settings j.spec packed s.now
        (j.credentials.all.toOption.getD [])
      refine (Frank.reporting _ hbuild fun result h => ?_).bind fun built => .of_quiet (quiet_pure _)
      cases result <;> exact h
  | none =>
      have hsolve := Solve.build_keeps j.daemon j.settings j.spec dockerfile
        (j.credentials.all.toOption.getD [])
      exact (Frank.reporting .driver hsolve fun _ h => h).bind fun id => .of_quiet (quiet_pure _)

theorem frank_publish (j : Job σ) : j.daemon.Frank j.publish := by
  refine .during ((Frank.of_quiet (quiet_ofExcept _)).inPhase.bind fun credentials => ?_)
  have hpush : j.daemon.Keeps True (Push.push j.daemon j.settings j.spec.tag credentials
      (fun _ _ => pure ()) j.patience) (fun _ => True) IsRoot := Push.push_keeps _ _ _ _ _
  exact (Frank.reporting .push hpush fun _ h => h).inPhase.bind fun _ => .of_quiet (quiet_announce _)

theorem frank_proceed (j : Job σ) (ticket : Nat) (c : Capability) (dockerfile : Path) :
    j.daemon.Frank (j.proceed ticket c dockerfile) := by
  have hconstruct : j.daemon.Frank (j.construct ticket c dockerfile) :=
    ((j.frank_prepare c dockerfile).bind fun context =>
      (j.frank_buildImage c dockerfile context).inPhase.during).closing
  refine hconstruct.bind fun built => (Frank.of_quiet (quiet_announce _)).bind fun _ => ?_
  have hlook : j.daemon.Frank (Act.inPhase .imageBuild
      (Act.ask .none (.inspect built.1) (j.daemon.inspect built.1)) >>= fun details =>
        pure ((⟨details.id, j.spec.tag, details.size⟩ : Image), built.2)) :=
    (Frank.ask fun _ => rfl).inPhase.bind fun _ => .of_quiet (quiet_pure _)
  exact of_ite _ (j.frank_publish.bind fun _ => hlook) hlook

theorem frank_removeAll (d : Daemon σ) (w : Watch) (tags : List String) :
    d.Frank (removeAll d w tags) := by
  induction tags with
  | nil => exact .of_quiet (quiet_pure ())
  | cons tag rest ih => exact (Frank.ask fun _ => rfl).attempt.bind fun _ => ih

theorem frank_cleanUp (j : Job σ) : j.daemon.Frank j.cleanUp := by
  have hclear : ∀ w, j.daemon.Frank (j.clearTags w) := fun w => by
    refine (Frank.ask fun _ => rfl).attempt.bind fun result => ?_
    cases result with
    | error e => exact .of_quiet (quiet_pure ())
    | ok tags => exact frank_removeAll j.daemon w tags
  refine (Frank.of_quiet (quiet_takeTurns .none)).bind fun _ => (Frank.of_quiet quiet_get).bind fun s =>
    (hclear _).tryCatch fun halt => ?_
  cases halt with
  | overdue => exact quiet_pure ()
  | failed e => exact quiet_throw _
  | forever => exact quiet_throw _

theorem frank_conclude (j : Job σ) (result : Except BuildError (Image × Option String)) :
    j.daemon.Frank (j.conclude result) := by
  cases result with
  | ok built => exact .of_quiet ((quiet_note rfl).bind fun _ => quiet_pure _)
  | error e => exact .of_quiet ((quiet_note rfl).bind fun _ => quiet_throw _)

/-- No report of a run names a phase unless a reply on its way did. -/
theorem frank_run (j : Job σ) : j.daemon.Frank j.run := by
  refine (Frank.of_quiet (quiet_start .build)).bind fun ticket =>
    j.frank_initialise.inPhase.during.attempt.bind fun result => ?_
  have hfinish : ∀ act : Act σ BuildOutcome, Quiet act →
      j.daemon.Frank (Act.finish ticket >>= fun _ => act) :=
    fun act hact => .of_quiet ((quiet_finish ticket).bind fun _ => hact)
  rcases result with e | reason | ⟨c, dockerfile⟩
  · exact hfinish _ (quiet_throw _)
  · exact hfinish _ (quiet_pure _)
  · refine (j.frank_proceed ticket c dockerfile).attempt.bind fun result => ?_
    exact of_ite _ (j.frank_cleanUp.bind fun _ => j.frank_conclude result) (j.frank_conclude result)

end Job
end ImageBuild
