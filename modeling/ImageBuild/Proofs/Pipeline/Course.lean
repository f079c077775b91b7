import ImageBuild.Proofs.Pipeline.CleanUp
import ImageBuild.Proofs.Pipeline.Performs
/-!
# The course of a build

A build begins, goes through its steps and cleans up.  Its word is that of the steps followed by that of the
clean-up; the first part settles the result, and both the result and the daemon settle whether there is a
second.
-/

namespace ImageBuild

open Act

variable {σ : Type}

namespace Job

variable {j : Job σ} {s₀ : Stage σ} {word : List Entry} {k : Nat} {c : Capability} {dockerfile : Path}

/-! ## The steps -/

theorem prepare_performs (hprobe : .reported (.probe (.ok c)) ∈ word)
    (hlocate : Dockerfile.locate j.fs j.spec.workDir j.spec.dockerfile = .ok (some dockerfile)) :
    j.Performs s₀ word k (j.prepare c dockerfile) k Step.told [.package] := by
  have hcame : j.Came s₀ word .package ((j.packed c dockerfile).map fun _ => true) :=
    ⟨c, dockerfile, hprobe, hlocate, rfl⟩
  rw [packed] at hcame
  rw [prepare]
  cases hbuilder : c.builder with
  | session =>
      rw [hbuilder] at hcame
      exact fun s hs => ⟨word, List.Subset.refl word, hs, .next hcame .through⟩
  | classic =>
      rw [hbuilder] at hcame
      have hpackage : j.Came s₀ word .package
          ((Context.package j.fs dockerfile j.spec c.remote).map fun _ => true) := by
        cases hresult : Context.package j.fs dockerfile j.spec c.remote <;>
          rw [hresult] at hcame <;> exact hcame
      refine .during .contextBuild (.bind_passes ((Performs.ofExcept (fun _ => rfl) hpackage).inPhase ?_)
        fun context => (passes_announce _).bind fun _ => passes_pure _)
      simp [Step.phase]

theorem Step.blame_info {e : BuildError} (h : e ≠ .cancelled) :
    Step.info.blame e = .buildFailed ("error fetching docker server info: " ++ e.message) := by
  cases e <;> first | rfl | exact absurd rfl h

theorem daemonInfo_performs (hcall : ∀ m, j.Warrant s₀ word (.called m .info)) :
    j.Performs s₀ word 4 j.daemonInfo 6 Step.blame [.info] := by
  intro s hs
  rw [daemonInfo, leads_bind]
  refine (info_leads hs hcall).mono fun r t ht => ?_
  obtain ⟨result, word', rfl, hsub, hprogress, hreported⟩ := ht
  have hcame : j.Came s₀ word' .info (result.map fun _ => true) := ⟨result, hreported, rfl⟩
  simp only
  split
  · exact ⟨word', hsub, hprogress, .next hcame .through⟩
  · exact ⟨word', hsub, hprogress, .info, .cancelled, .failed [] hcame, rfl⟩
  · rename_i e hne
    exact ⟨word', hsub, hprogress, .info, e, .failed [] hcame, (Step.blame_info hne).symm⟩

theorem driver_performs {α : Type} {P : Call → Prop} {act : Act σ α}
    (report : Except BuildError α → Report) (name : α → String) (hact : j.daemon.CallsOnce P act)
    (hreport : ∀ result, report result = .driver (result.map name))
    (hcall : ∀ m c, P c → (Entry.called m c).rank = 7 ∧ j.Warrant s₀ word (.called m c)) :
    j.Performs s₀ word 6 (reporting report act) 8 Step.blame [.drive] := by
  refine .reporting (called_takes hact hcall) ?_ ?_ ?_ (fun _ => rfl) ?_ ?_
  · exact fun result => by rw [hreport]; rfl
  · intro a word' _ hmade
    rw [hreport]
    exact hmade
  · exact fun e word' => by rw [hreport]; trivial
  · intro word' result hmem
    refine ⟨result.map name, hreport result ▸ hmem, ?_⟩
    cases result <;> rfl
  · rintro word' result ⟨r, hmem, -⟩
    exact ⟨_, hmem, rfl⟩

theorem buildImage_performs {context : Option Context} (hprobe : .reported (.probe (.ok c)) ∈ word)
    (hcall : ∀ m, j.Warrant s₀ word (.called m .info)) (hcontext : j.Prepared c dockerfile context) :
    j.Performs s₀ word 4 (j.buildImage c dockerfile context) 8 Step.blame [.info, .drive] := by
  change j.Performs s₀ word 4 _ 8 Step.blame ([.info] ++ [.drive])
  refine .passes_bind passes_get fun s => ?_
  refine (daemonInfo_performs hcall).bind (daemonInfo_takes hcall) (by omega) (by simp)
    fun info word' hsub hinfo => ?_
  refine .passes_bind (passes_announce _) fun _ => .passes_bind (passes_note rfl) fun _ => ?_
  rcases hcontext with ⟨hsession, rfl⟩ | ⟨hclassic, packed, rfl, -⟩
  · refine .bind_passes (driver_performs .driver id
      (Solve.build_callsOnce j.daemon j.settings j.spec dockerfile _)
      (fun result => by cases result <;> rfl) (fun m c' hc => ?_)) fun _ => passes_pure _
    exact warrant_solve ⟨info, hinfo⟩ (hsub hprobe) hsession hc
  · refine .bind_passes (driver_performs (fun r => .driver (r.map Classic.Built.imageId))
      Classic.Built.imageId (Classic.build_callsOnce j.daemon j.settings j.spec packed _ _)
      (fun _ => rfl) (fun m c' hc => ?_)) fun _ => passes_pure _
    exact warrant_build ⟨info, hinfo⟩ (hsub hprobe) hclassic hc

theorem publish_performs (hpublish : j.spec.publish = true)
    (hbuilt : ∃ id, .reported (.driver (.ok id)) ∈ word) :
    j.Performs s₀ word 8 j.publish 10 Step.told [.lookup, .push] := by
  have hcame : j.Came s₀ word .lookup ((j.credentials.forImage j.spec.tag).map fun _ => true) := rfl
  have hlookup : j.Performs s₀ word 8 (inPhase .push (ofExcept (j.credentials.forImage j.spec.tag))) 8
      Step.told [.lookup] :=
    (Performs.ofExcept (fun _ => rfl) hcame).inPhase (by simp [Step.phase])
  have hfound : j.Takes s₀ word 8 (inPhase .push (ofExcept (j.credentials.forImage j.spec.tag))) 8
      fun found _ => j.credentials.forImage j.spec.tag = .ok found :=
    (Takes.of_ofExcept fun _ h => h).inPhase .push
  refine .during .push ?_
  change j.Performs s₀ word 8 _ 10 Step.told ([.lookup] ++ [.push])
  refine hlookup.bind hfound (by omega) (by simp) fun credentials word' hsub hcredentials => ?_
  have hbuilt' := hbuilt.imp fun _ hid => hsub hid
  refine .bind_passes (.inPhase (.reporting (push_takes hpublish hbuilt' hcredentials) ?_ ?_ ?_
    (fun _ => rfl) ?_ ?_) (by simp [Step.phase])) fun _ => passes_announce _
  · exact fun result => rfl
  · intro u longer _ hmade
    obtain ⟨m, hmem⟩ := hmade
    exact ⟨m, _, hmem, rfl⟩
  · exact fun e longer => trivial
  · exact fun hmem => ⟨_, hmem, rfl⟩
  · rintro longer result ⟨r, hmem, -⟩
    exact ⟨_, hmem, rfl⟩

theorem construct_performs {ticket : Nat} (hprobe : .reported (.probe (.ok c)) ∈ word)
    (havailable : c.available = true)
    (hlocate : Dockerfile.locate j.fs j.spec.workDir j.spec.dockerfile = .ok (some dockerfile)) :
    j.Performs s₀ word 4 (j.construct ticket c dockerfile) 8 Step.told [.package, .info, .drive] := by
  refine .closing ticket ?_
  change j.Performs s₀ word 4 _ 8 Step.told ([.package] ++ [.info, .drive])
  refine (prepare_performs hprobe hlocate).bind prepare_takes (by omega) (by simp)
    fun context word' hsub hcontext => ?_
  have hcall := warrant_info (hsub hprobe) havailable hlocate hcontext s₀
  exact .during .imageBuild (.inPhase (buildImage_performs (hsub hprobe) hcall hcontext)
    (by simp [Step.phase]))

theorem look_performs {id : String} (hcall : ∀ m, j.Warrant s₀ word (.called m (.inspect id))) :
    j.Performs s₀ word 10 (ask .none (.inspect id) (j.daemon.inspect id)) 11 Step.blame [.inspect] := by
  intro s hs
  refine (look_leads hs hcall).mono fun r t ht => ?_
  obtain ⟨m, hprogress, ⟨result, rfl, hlook⟩ | ⟨rfl, hhangs⟩⟩ := ht
  · have hcame : j.Came s₀ (word ++ [.called m (.inspect id)]) .inspect (result.map fun _ => true) :=
      ⟨result, hlook, rfl⟩
    refine ⟨_, List.subset_append_left word _, hprogress, ?_⟩
    cases result with
    | error e => exact ⟨.inspect, e, .failed [] hcame, rfl⟩
    | ok details => exact .next hcame .through
  · refine ⟨_, List.subset_append_left word _, hprogress, .stopped [] fun result hcame => ?_⟩
    -- There is one look at the image in a lawful word, and this one had no reply.
    obtain ⟨r, ⟨front, m', id', back, hword, hreply, -⟩, -⟩ := hcame
    obtain ⟨rfl, heq⟩ := hprogress.lawful.eq_front hword rfl rfl (by simp [Entry.rank])
      (by simp [Entry.rank])
    cases heq
    cases hreply.symm.trans hhangs

theorem proceed_performs {ticket : Nat} (hprobe : .reported (.probe (.ok c)) ∈ word)
    (havailable : c.available = true)
    (hlocate : Dockerfile.locate j.fs j.spec.workDir j.spec.dockerfile = .ok (some dockerfile)) :
    j.Performs s₀ word 4 (j.proceed ticket c dockerfile) 11 Step.told j.pipeline := by
  refine (construct_performs hprobe havailable hlocate).bind (construct_takes hprobe havailable hlocate)
    (by omega) (by simp) fun built word' _ hbuilt => ?_
  have hlook : ∀ longer, word' ⊆ longer →
      (j.spec.publish = true → .reported (.push (.ok ())) ∈ longer) →
      j.Performs s₀ longer 10 (inPhase .imageBuild
        (ask .none (.inspect built.1) (j.daemon.inspect built.1)) >>= fun details =>
          pure ((⟨details.id, j.spec.tag, details.size⟩ : Image), built.2)) 11 Step.told [.inspect] :=
    fun longer hlonger hpushed => .bind_passes
      ((look_performs fun _ => ⟨hlonger hbuilt, hpushed⟩).inPhase (by simp [Step.phase]))
      fun _ => passes_pure _
  refine .passes_bind (passes_announce _) fun _ => ?_
  split_ifs with hpublish
  · exact (publish_performs hpublish ⟨_, hbuilt⟩).bind (publish_takes hpublish ⟨_, hbuilt⟩) (by omega)
      (by simp) fun _ longer hlonger hpushed => hlook longer hlonger fun _ => hpushed
  · intro s hs
    exact hlook word' (List.Subset.refl word') (fun h => absurd h hpublish) s (hs.mono (by omega))

/-! ## The end -/

/-- What is done after the steps of a build, if there is anything left to do. -/
def Cleans (j : Job σ) (s₀ : Stage σ) (front : List Entry) (due : Bool) (cleaning : List Entry)
    (stop : Nat) : Prop :=
  if due then
    ∃ start word, cleaning = .called start (.tags j.spec.tag) :: word ∧
      j.Cleaned (j.daemon.after s₀.daemon front) start word stop
  else cleaning = []

/-- How a run ends that has found this to begin with. -/
inductive Ending (j : Job σ) (s₀ : Stage σ) (front : List Entry) :
    Except BuildError Start → List Entry → Nat → Except Halt BuildOutcome → Prop where
  | unfit (e : BuildError) (stop : Nat) :
      Ending j s₀ front (.error e) [] stop (.error (.failed (e.inPhase .builderInit)))
  | skipped (reason : SkipReason) (stop : Nat) :
      Ending j s₀ front (.ok (.skip reason)) [] stop (.ok (.skipped reason))
  | failed {c : Capability} {dockerfile : Path} {step : Step} {cause : BuildError}
      {cleaning : List Entry} {stop : Nat}
      (hfails : Along (j.Came s₀ front) j.pipeline (.failed step cause))
      (hcleans : j.Cleans s₀ front (j.cleansUp c false) cleaning stop) :
      Ending j s₀ front (.ok (.ready c dockerfile)) cleaning stop (.error (.failed (step.told cause)))
  | built {c : Capability} {dockerfile : Path} {built : Image × Option String} {cleaning : List Entry}
      {stop : Nat} (warning : Option String) (hthrough : Along (j.Came s₀ front) j.pipeline .through)
      (hfinds : j.Finds s₀ built front) (hcleans : j.Cleans s₀ front (j.cleansUp c true) cleaning stop) :
      Ending j s₀ front (.ok (.ready c dockerfile)) cleaning stop (.ok (.built built.1 warning))
  | stopped {c : Capability} {dockerfile : Path} {halt : Halt} (stop : Nat)
      (hstopped : Along (j.Came s₀ front) j.pipeline .stopped) (hhalt : ∀ e, halt ≠ .failed e) :
      Ending j s₀ front (.ok (.ready c dockerfile)) [] stop (.error halt)

/-- What is made of the result of the steps in the end. -/
def Concludes (result : Except BuildError (Image × Option String)) (r : Except Halt BuildOutcome) : Prop :=
  match result with
  | .ok built => ∃ warning, r = .ok (.built built.1 warning)
  | .error e => r = .error (.failed e)

theorem conclude_leads (j : Job σ) (result : Except BuildError (Image × Option String)) (s : Stage σ) :
    Leads (j.conclude result) s fun r t => Still s t ∧ t.now = s.now ∧ Concludes result r := by
  have hnote : ∀ success message, Still s { s with journal := .closed success message :: s.journal } :=
    fun success message => quiet_note (e := .closed success message) rfl s
  cases result with
  | ok built => exact ⟨hnote _ _, rfl, _, rfl⟩
  | error e => exact ⟨hnote _ _, rfl, rfl⟩

theorem ending_leads {s : Stage σ} (hs : j.Progress s₀ word 11 s) (due : Bool)
    (result : Except BuildError (Image × Option String)) :
    Leads (do
      if due then j.cleanUp
      j.conclude result) s fun r t => ∃ cleaning, j.Progress s₀ (word ++ cleaning) 13 t ∧
        j.Cleans s₀ word due cleaning t.now ∧ Concludes result r := by
  cases due with
  | false =>
      refine (conclude_leads j result s).mono fun r t ht => ⟨[], ?_, rfl, ht.2.2⟩
      rw [List.append_nil]
      exact (hs.still ht.1).mono (by omega)
  | true =>
      change Leads (j.cleanUp >>= fun _ => j.conclude result) s _
      rw [leads_bind]
      refine (Leads.and (cleanUp_leads j s) (cleanUp_takes s hs)).mono fun r t ht => ?_
      obtain ⟨⟨rfl, rest, hsteps, -, hcleaned⟩, word', -, hprogress, -⟩ := ht
      obtain rfl : word' = word ++ .called s.now (.tags j.spec.tag) :: rest := by
        rw [hs.steps, List.append_assoc] at hsteps
        exact List.append_cancel_left (hprogress.steps.symm.trans hsteps)
      refine (conclude_leads j result t).mono fun r u hu => ?_
      obtain ⟨hstill, hnow, hconcludes⟩ := hu
      refine ⟨_, hprogress.still hstill, ⟨s.now, rest, rfl, ?_⟩, hconcludes⟩
      rw [hnow, ← hs.daemon]
      exact hcleaned

theorem ready_leads {ticket : Nat} {s : Stage σ} (hprobe : .reported (.probe (.ok c)) ∈ word)
    (havailable : c.available = true)
    (hlocate : Dockerfile.locate j.fs j.spec.workDir j.spec.dockerfile = .ok (some dockerfile))
    (hs : j.Progress s₀ word 4 s) :
    Leads (do
      let result ← attempt (j.proceed ticket c dockerfile)
      if j.cleansUp c result.isOk then j.cleanUp
      j.conclude result) s fun r t => ∃ front cleaning, word ⊆ front ∧ (∀ y ∈ front, y.rank ≤ 11) ∧
        j.Progress s₀ (front ++ cleaning) 13 t ∧
        j.Ending s₀ front (.ok (.ready c dockerfile)) cleaning t.now r := by
  rw [leads_bind, leads_attempt]
  refine (Leads.and (proceed_performs hprobe havailable hlocate s hs)
    (proceed_takes hprobe havailable hlocate s hs)).mono fun r t ht => ?_
  obtain ⟨⟨front, hsub, hprogress, htells⟩, front', -, hprogress', hfinds⟩ := ht
  obtain rfl := hprogress.word_unique hprogress'
  have hhalts : ∀ {halt}, Along (j.Came s₀ front) j.pipeline .stopped → (∀ e, halt ≠ .failed e) →
      ∃ front cleaning, word ⊆ front ∧ (∀ y ∈ front, y.rank ≤ 11) ∧
        j.Progress s₀ (front ++ cleaning) 13 t ∧
        j.Ending s₀ front (.ok (.ready c dockerfile)) cleaning t.now (.error halt) := by
    intro halt hstopped hhalt
    refine ⟨front, [], hsub, hprogress.rank_le, ?_, .stopped t.now hstopped hhalt⟩
    rw [List.append_nil]
    exact hprogress.mono (by omega)
  rcases r with (e | _ | _) | built
  · obtain ⟨step, cause, halong, rfl⟩ := htells
    refine (ending_leads hprogress _ (.error _)).mono fun r u hu => ?_
    obtain ⟨cleaning, hprogress'', hcleans, rfl⟩ := hu
    exact ⟨front, cleaning, hsub, hprogress.rank_le, hprogress'', .failed halong hcleans⟩
  · exact hhalts htells nofun
  · exact hhalts htells nofun
  · refine (ending_leads hprogress _ (.ok built)).mono fun r u hu => ?_
    obtain ⟨cleaning, hprogress'', hcleans, warning, rfl⟩ := hu
    exact ⟨front, cleaning, hsub, hprogress.rank_le, hprogress'',
      .built warning htells (hfinds built rfl) hcleans⟩

/-- Every run takes the course that follows from what it has found to begin with. -/
theorem run_ending (j : Job σ) (s : Stage σ) :
    Leads j.run s fun r t => ∃ probed front cleaning, .reported (.probe probed) ∈ front ∧
      (∀ y ∈ front, y.rank ≤ 11) ∧ j.Progress s (front ++ cleaning) 13 t ∧
      j.Ending s front (probed.bind j.choice) cleaning t.now r := by
  rw [run, leads_bind, leads_start]
  simp only
  rw [leads_bind, leads_attempt]
  have hs := (Progress.start j s).still (quiet_start .build s)
  refine (opening_leads hs fun _ _ h => h).mono fun r t ht => ?_
  obtain ⟨probed, word, rfl, hprogress, hprobed⟩ := ht
  have hover : ∀ {u r}, Still t u → j.Ending s word (probed.bind j.choice) [] u.now r →
      ∃ probed front cleaning, .reported (.probe probed) ∈ front ∧ (∀ y ∈ front, y.rank ≤ 11) ∧
        j.Progress s (front ++ cleaning) 13 u ∧
        j.Ending s front (probed.bind j.choice) cleaning u.now r := by
    intro u r hstill hending
    refine ⟨probed, word, [], hprobed, fun y hy => ?_, ?_, hending⟩
    · exact Nat.le_trans (hprogress.rank_le y hy) (by omega)
    · rw [List.append_nil]
      exact (hprogress.still hstill).mono (by omega)
  cases hchoice : probed.bind j.choice with
  | error e =>
      refine hover (quiet_finish _ t) ?_
      rw [hchoice]
      exact .unfit e t.now
  | ok start =>
      cases start with
      | skip reason =>
          refine hover (quiet_finish _ t) ?_
          rw [hchoice]
          exact .skipped reason t.now
      | ready c dockerfile =>
          obtain ⟨c', rfl, ⟨-, hskip⟩ | ⟨havailable, found, hlocate, hready⟩⟩ :=
            bind_choice_eq_ok_iff.1 hchoice
          · cases hskip
          · cases found with
            | none => cases hready
            | some dockerfile =>
                cases hready
                refine (ready_leads hprobed havailable hlocate hprogress).mono fun r u hu => ?_
                obtain ⟨front, cleaning, hsub, hrank, hprogress', hending⟩ := hu
                exact ⟨_, front, cleaning, hsub hprobed, hrank, hprogress', hchoice ▸ hending⟩

end Job
end ImageBuild
