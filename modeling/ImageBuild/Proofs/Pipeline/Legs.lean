import ImageBuild.Proofs.Pipeline.Drivers
import ImageBuild.Proofs.Pipeline.Opening
import ImageBuild.Proofs.Pipeline.Steps
import ImageBuild.Proofs.Stage.Deadline
/-!
# The parts of a build

What each part of a build after its beginning takes it to: the context, the report of the daemon about
itself, the one call that builds, the pushes, the look at the image and the removal of its tags.
-/

namespace ImageBuild.Job

open Act

variable {σ : Type} {j : Job σ} {s₀ : Stage σ} {word : List Entry} {k : Nat} {c : Capability}
variable {dockerfile : Path}

/-- What is prepared of the context for a way of building. -/
def Prepared (j : Job σ) (c : Capability) (dockerfile : Path) (context : Option Context) : Prop :=
  c.builder = .session ∧ context = none ∨
    c.builder = .classic ∧ ∃ packed, context = some packed ∧
      Context.package j.fs dockerfile j.spec c.remote = .ok packed

theorem prepare_takes :
    j.Takes s₀ word k (j.prepare c dockerfile) k fun context _ =>
      j.Prepared c dockerfile context := by
  rw [prepare]
  cases hbuilder : c.builder with
  | session => exact .of_pure (.inl ⟨hbuilder, rfl⟩)
  | classic =>
      refine .during .contextBuild (Nat.le_refl k) ?_
      have hpackage : j.Takes s₀ word k
          (ofExcept (Context.package j.fs dockerfile j.spec c.remote)) k fun packed _ =>
            Context.package j.fs dockerfile j.spec c.remote = .ok packed :=
        .of_ofExcept fun _ h => h
      refine (hpackage.inPhase .contextBuild).bind (Nat.le_refl k) fun packed word' _ hpacked => ?_
      refine .quiet_bind (quiet_announce _) (Nat.le_refl k) fun _ => ?_
      exact .of_pure (.inr ⟨hbuilder, packed, rfl, hpacked⟩)

theorem info_leads {s : Stage σ} (hs : j.Progress s₀ word 4 s)
    (hcall : ∀ m, j.Warrant s₀ word (.called m .info)) :
    Leads (attempt (reporting .info (within j.settings.infoTimeout fun w =>
        ask w .info j.daemon.info))) s fun r t =>
      ∃ result word', r = .ok result ∧ word ⊆ word' ∧ j.Progress s₀ word' 6 t ∧
        .reported (.info result) ∈ word' := by
  have hanswer : ∀ m, j.Warrant s₀ (word ++ [.called m .info]) (.reported (.info
      ((j.daemon.info (j.daemon.after s₀.daemon word)).1.inTime j.settings.infoTimeout))) := by
    intro m
    cases hresult : (j.daemon.info (j.daemon.after s₀.daemon word)).1.inTime
        j.settings.infoTimeout with
    | error e => trivial
    | ok info => exact ⟨word, m, rfl, hresult⟩
  exact question_leads hs (fun _ => rfl) (fun m => ⟨rfl, hcall m⟩) (fun _ => rfl)
    (fun _ _ => by exact trivial) hanswer

theorem daemonInfo_takes (hcall : ∀ m, j.Warrant s₀ word (.called m .info)) :
    j.Takes s₀ word 4 j.daemonInfo 6 fun info word' => .reported (.info (.ok info)) ∈ word' := by
  intro s hs
  rw [daemonInfo, leads_bind]
  refine (info_leads hs hcall).mono fun r t ht => ?_
  obtain ⟨result, word', rfl, hsub, hprogress, hreported⟩ := ht
  simp only
  split
  · exact ⟨word', hsub, hprogress, fun a ha => by cases ha; exact hreported⟩
  · exact ⟨word', hsub, hprogress, fun a ha => by cases ha⟩
  · exact ⟨word', hsub, hprogress, fun a ha => by cases ha⟩

theorem called_takes {α : Type} {P : Call → Prop} {act : Act σ α} (hact : j.daemon.CallsOnce P act)
    (hcall : ∀ m c, P c → (Entry.called m c).rank = 7 ∧ j.Warrant s₀ word (.called m c)) :
    j.Takes s₀ word 6 act 7 fun _ word' =>
      ∃ m c, .called m c ∈ word' ∧ (Entry.called m c).rank = 7 := by
  refine (Takes.of_callsOnce hact (Nat.le_succ 6) fun m c hc =>
    ⟨(hcall m c hc).1, .inl (Nat.lt_succ_self 6), (hcall m c hc).2⟩).mono (Nat.le_refl 7) ?_
  rintro _ word' _ ⟨m, c, hc, hmem⟩
  exact ⟨m, c, hmem, (hcall m c hc).1⟩

theorem driver_takes {α : Type} {P : Call → Prop} {act : Act σ α}
    (report : Except BuildError α → Report) (name : α → String) (hact : j.daemon.CallsOnce P act)
    (hreport : ∀ result, report result = .driver (result.map name))
    (hcall : ∀ m c, P c → (Entry.called m c).rank = 7 ∧ j.Warrant s₀ word (.called m c)) :
    j.Takes s₀ word 6 (reporting report act) 8 fun a word' =>
      .reported (.driver (.ok (name a))) ∈ word' := by
  refine ((called_takes hact hcall).reporting ?_ ?_ ?_).mono (Nat.le_refl 8) fun a word' _ h => ?_
  · exact fun result => by rw [hreport]; rfl
  · intro a word' _ hmade
    rw [hreport]
    exact hmade
  · exact fun e word' => by rw [hreport]; trivial
  · rw [hreport] at h
    exact h

theorem warrant_solve {c' : Call} {m : Nat} (hinfo : ∃ info, .reported (.info (.ok info)) ∈ word)
    (hprobe : .reported (.probe (.ok c)) ∈ word) (hsession : c.builder = .session)
    (h : ∃ request, c' = .solve request) :
    (Entry.called m c').rank = 7 ∧ j.Warrant s₀ word (.called m c') := by
  obtain ⟨request, rfl⟩ := h
  exact ⟨rfl, hinfo, c, hprobe, hsession⟩

theorem warrant_build {c' : Call} {m : Nat} (hinfo : ∃ info, .reported (.info (.ok info)) ∈ word)
    (hprobe : .reported (.probe (.ok c)) ∈ word) (hclassic : c.builder = .classic)
    (h : ∃ request use, c' = .build request use) :
    (Entry.called m c').rank = 7 ∧ j.Warrant s₀ word (.called m c') := by
  obtain ⟨request, use, rfl⟩ := h
  exact ⟨rfl, hinfo, c, hprobe, hclassic⟩

theorem buildImage_takes {context : Option Context} (hprobe : .reported (.probe (.ok c)) ∈ word)
    (hcall : ∀ m, j.Warrant s₀ word (.called m .info)) (hcontext : j.Prepared c dockerfile context) :
    j.Takes s₀ word 4 (j.buildImage c dockerfile context) 8 fun built word' =>
      .reported (.driver (.ok built.1)) ∈ word' := by
  refine .quiet_bind quiet_get (by omega) fun s => ?_
  refine (daemonInfo_takes hcall).bind (by omega) fun info word' hsub hinfo => ?_
  refine .quiet_bind (quiet_announce _) (by omega) fun _ => ?_
  refine .quiet_bind (quiet_note rfl) (by omega) fun _ => ?_
  rcases hcontext with ⟨hsession, rfl⟩ | ⟨hclassic, packed, rfl, -⟩
  · refine (driver_takes .driver id (Solve.build_callsOnce j.daemon j.settings j.spec dockerfile _)
      (fun result => by cases result <;> rfl) fun m c' hc => ?_).bind (Nat.le_refl 8)
      fun built word'' _ h => .of_pure h
    exact warrant_solve ⟨info, hinfo⟩ (hsub hprobe) hsession hc
  · refine (driver_takes (fun r => .driver (r.map Classic.Built.imageId)) Classic.Built.imageId
      (Classic.build_callsOnce j.daemon j.settings j.spec packed _ _) (fun _ => rfl)
      fun m c' hc => ?_).bind (Nat.le_refl 8) fun built word'' _ h => .of_pure h
    exact warrant_build ⟨info, hinfo⟩ (hsub hprobe) hclassic hc

theorem tryFrom_takes {settings : Settings} {tag : String}
    {credentials : Option Registry.Credentials} (patience attempt : Nat)
    (latest : Option BuildError) (hk : k = 8 ∨ k = 9)
    (hwarrant : ∀ word', word ⊆ word' → ∀ m, j.Warrant s₀ word' (.called m (.push tag credentials))) :
    j.Takes s₀ word k
      (Push.tryFrom j.daemon settings tag credentials (fun _ _ => pure ()) patience attempt latest) 9
      fun _ word' => ∃ m, .called m (.push tag credentials) ∈ word' := by
  have hle : k ≤ 9 := by omega
  -- The induction is over words too: every push stands behind those before it.
  induction patience generalizing word k attempt latest with
  | zero => exact (Takes.of_throw .forever).mono hle fun _ _ _ h => h
  | succ patience ih =>
      have honce : j.Takes s₀ word k (Push.once j.daemon tag credentials) 9 fun _ word' =>
          ∃ m c, c = .push tag credentials ∧ .called m c ∈ word' := by
        refine .of_callsOnce (Push.once_callsOnce j.daemon tag credentials) hle fun m c hc => ?_
        subst hc
        refine ⟨rfl, ?_, hwarrant word (List.Subset.refl word) m⟩
        rcases hk with rfl | rfl
        · exact .inl (Nat.lt_succ_self 8)
        · exact .inr ⟨rfl, rfl⟩
      rw [Push.tryFrom]
      refine honce.attempt.bind (Nat.le_refl 9) fun result word' hsub hmade => ?_
      split
      · obtain ⟨m, c, rfl, hmem⟩ := hmade () rfl
        exact .of_pure ⟨m, hmem⟩
      · exact .of_throw _
      · split_ifs
        · exact .of_throw _
        · have hpause : Quiet (Push.pause settings.pushRetryDelay : Act σ Unit) :=
            quiet_checkCaller.bind fun _ => quiet_wait .forCaller _
          refine .quiet_bind (quiet_pure ()) (Nat.le_refl 9) fun _ => ?_
          refine .quiet_bind hpause.attempt (Nat.le_refl 9) fun paused => ?_
          cases paused with
          | error e => exact .of_throw _
          | ok u =>
              exact ih _ _ (.inr rfl) (fun longer hlonger => hwarrant longer fun y hy =>
                hlonger (hsub hy)) (Nat.le_refl 9)

theorem push_takes {credentials : Option Registry.Credentials} (hpublish : j.spec.publish = true)
    (hbuilt : ∃ id, .reported (.driver (.ok id)) ∈ word)
    (hfound : j.credentials.forImage j.spec.tag = .ok credentials) :
    j.Takes s₀ word 8 (Push.push j.daemon j.settings j.spec.tag credentials
      (fun _ _ => pure ()) j.patience) 9
      fun _ word' => ∃ m, .called m (.push j.spec.tag credentials) ∈ word' := by
  rw [Push.push]
  cases htag : Registry.checkTag (Registry.nameAndTag j.spec.tag).2 with
  | error fault => exact (Takes.of_throw _).mono (Nat.le_succ 8) fun _ _ _ h => h
  | ok u =>
      refine tryFrom_takes j.patience 1 none (.inl rfl) fun longer hlonger m => ?_
      obtain ⟨id, hid⟩ := hbuilt
      exact ⟨hpublish, ⟨id, hlonger hid⟩, hfound, rfl, htag⟩

theorem publish_takes (hpublish : j.spec.publish = true)
    (hbuilt : ∃ id, .reported (.driver (.ok id)) ∈ word) :
    j.Takes s₀ word 8 j.publish 10 fun _ word' => .reported (.push (.ok ())) ∈ word' := by
  have hcredentials : j.Takes s₀ word 8 (ofExcept (j.credentials.forImage j.spec.tag)) 8
      fun found _ => j.credentials.forImage j.spec.tag = .ok found :=
    .of_ofExcept fun _ h => h
  refine .during .push (by omega) ?_
  refine (hcredentials.inPhase .push).bind (by omega) fun credentials word' hsub hfound => ?_
  have hbuilt' := hbuilt.imp fun _ hid => hsub hid
  refine (((push_takes hpublish hbuilt' hfound).reporting ?_ ?_ ?_).inPhase .push).bind
    (Nat.le_refl 10) fun u longer _ h => ?_
  · exact fun result => rfl
  · intro u longer _ hmade
    obtain ⟨m, hmem⟩ := hmade
    exact ⟨m, _, hmem, rfl⟩
  · exact fun e longer => trivial
  · exact .of_quiet (quiet_announce _) fun _ => h

theorem warrant_info (hprobe : .reported (.probe (.ok c)) ∈ word) (havailable : c.available = true)
    (hlocate : Dockerfile.locate j.fs j.spec.workDir j.spec.dockerfile = .ok (some dockerfile))
    {context : Option Context} (hcontext : j.Prepared c dockerfile context) (s₀ : Stage σ) (m : Nat) :
    j.Warrant s₀ word (.called m .info) := by
  refine ⟨c, dockerfile, hprobe, havailable, hlocate, fun hclassic => ?_⟩
  rcases hcontext with ⟨hsession, -⟩ | ⟨-, packed, -, hpacked⟩
  · cases hclassic.symm.trans hsession
  · exact ⟨packed, hpacked⟩

theorem construct_takes {ticket : Nat} (hprobe : .reported (.probe (.ok c)) ∈ word)
    (havailable : c.available = true)
    (hlocate : Dockerfile.locate j.fs j.spec.workDir j.spec.dockerfile = .ok (some dockerfile)) :
    j.Takes s₀ word 4 (j.construct ticket c dockerfile) 8 fun built word' =>
      .reported (.driver (.ok built.1)) ∈ word' := by
  refine .closing ticket (prepare_takes.bind (by omega) fun context word' hsub hcontext => ?_)
  refine .during .imageBuild (by omega) (.inPhase .imageBuild ?_)
  exact buildImage_takes (hsub hprobe) (warrant_info (hsub hprobe) havailable hlocate hcontext s₀)
    hcontext

/-- The daemon was asked about an image, and built it before if the word is lawful. -/
def Inspected (word : List Entry) : Prop := ∃ m id, .called m (.inspect id) ∈ word

theorem Inspection.inspected {r : Except BuildError ImageDetails} (h : j.Inspection s₀ word r) :
    Inspected word := by
  obtain ⟨front, m, id, back, rfl, -⟩ := h
  exact ⟨m, id, by simp⟩

theorem look_leads {id : String} {s : Stage σ} (hs : j.Progress s₀ word 10 s)
    (hcall : ∀ m, j.Warrant s₀ word (.called m (.inspect id))) :
    Leads (ask .none (.inspect id) (j.daemon.inspect id)) s fun r t => ∃ m,
      j.Progress s₀ (word ++ [.called m (.inspect id)]) 11 t ∧
        ((∃ result, r = result.mapError .failed ∧
            j.Inspection s₀ (word ++ [.called m (.inspect id)]) result) ∨
          r = .error .forever ∧
            (j.daemon.inspect id (j.daemon.after s₀.daemon word)).1.pace.hangs = true) := by
  rw [← hs.daemon]
  refine (ask_none s _ _).mono fun r t ht => ?_
  obtain ⟨hsteps, hdaemon, rfl⟩ := ht
  refine ⟨s.now, hs.concat (.inl (Nat.lt_succ_self 10)) (hcall s.now) hsteps hdaemon, ?_⟩
  cases hhangs : (j.daemon.inspect id s.daemon).1.pace.hangs with
  | true => exact .inr ⟨rfl, rfl⟩
  | false => exact .inl ⟨_, rfl, word, s.now, id, [], rfl, hs.daemon ▸ hhangs, by rw [hs.daemon]⟩

theorem look_takes {id : String} (hcall : ∀ m, j.Warrant s₀ word (.called m (.inspect id))) :
    j.Takes s₀ word 10 (ask .none (.inspect id) (j.daemon.inspect id)) 11 fun details word' =>
      j.Inspection s₀ word' (.ok details) := by
  intro s hs
  refine (look_leads hs hcall).mono fun r t ht => ?_
  obtain ⟨m, hprogress, hend⟩ := ht
  refine ⟨_, List.subset_append_left word _, hprogress, ?_⟩
  rintro details rfl
  rcases hend with ⟨result, hresult, hlook⟩ | ⟨hforever, -⟩
  · cases result with
    | error e => cases hresult
    | ok found => cases hresult; exact hlook
  · cases hforever

/-- The image of a build is what the daemon tells of it in the end. -/
def Finds (j : Job σ) (s₀ : Stage σ) (built : Image × Option String) (word : List Entry) : Prop :=
  ∃ details, j.Inspection s₀ word (.ok details) ∧ built.1 = ⟨details.id, j.spec.tag, details.size⟩

theorem proceed_takes {ticket : Nat} (hprobe : .reported (.probe (.ok c)) ∈ word)
    (havailable : c.available = true)
    (hlocate : Dockerfile.locate j.fs j.spec.workDir j.spec.dockerfile = .ok (some dockerfile)) :
    j.Takes s₀ word 4 (j.proceed ticket c dockerfile) 11 (j.Finds s₀) := by
  refine (construct_takes hprobe havailable hlocate).bind (by omega) fun built word' _ hbuilt => ?_
  have hinspect : ∀ longer, word' ⊆ longer →
      (j.spec.publish = true → .reported (.push (.ok ())) ∈ longer) →
      j.Takes s₀ longer 10 (inPhase .imageBuild
        (ask .none (.inspect built.1) (j.daemon.inspect built.1)) >>= fun details =>
          pure ((⟨details.id, j.spec.tag, details.size⟩ : Image), built.2)) 11 (j.Finds s₀) := by
    intro longer hlonger hpushed
    refine ((look_takes fun _ => ⟨hlonger hbuilt, hpushed⟩).inPhase .imageBuild).bind
      (Nat.le_refl 11) fun details _ _ hlook => ?_
    exact .of_pure ⟨details, hlook, rfl⟩
  refine .quiet_bind (quiet_announce _) (by omega) fun _ => ?_
  split_ifs with hpublish
  · exact (publish_takes hpublish ⟨_, hbuilt⟩).bind (by omega) fun _ longer hlonger hpushed =>
      hinspect longer hlonger fun _ => hpushed
  · intro s hs
    exact hinspect word' (List.Subset.refl word') (fun h => absurd h hpublish) s (hs.mono (by omega))

/-! ## Cleaning up -/

theorem removeAll_takes {w : Watch} (tags : List String) (hk : k = 12 ∨ k = 13)
    (htags : ∃ m, .called m (.tags j.spec.tag) ∈ word) :
    j.Takes s₀ word k (removeAll j.daemon w tags) 13 fun _ _ => True := by
  have hle : k ≤ 13 := by omega
  induction tags generalizing word k with
  | nil => exact (Takes.of_quiet (quiet_pure ()) fun _ => trivial).mono hle fun _ _ _ h => h
  | cons tag rest ih =>
      have hask : j.daemon.CallsOnce (· = .remove tag) (ask w (.remove tag) (j.daemon.remove tag)) :=
        .of_ask rfl fun _ => rfl
      have hremove : j.Takes s₀ word k (ask w (.remove tag) (j.daemon.remove tag)) 13
          fun _ word' => ∃ m c, c = .remove tag ∧ .called m c ∈ word' := by
        refine .of_callsOnce hask hle fun m c hc => ?_
        subst hc
        refine ⟨rfl, ?_, htags⟩
        rcases hk with rfl | rfl
        · exact .inl (Nat.lt_succ_self 12)
        · exact .inr ⟨rfl, rfl⟩
      refine hremove.attempt.bind (Nat.le_refl 13) fun _ word' hsub _ => ?_
      obtain ⟨m, hm⟩ := htags
      exact ih (.inr rfl) ⟨m, hsub hm⟩ (Nat.le_refl 13)

theorem clearTags_takes {w : Watch} :
    j.Takes s₀ word 11 (j.clearTags w) 13 fun _ _ => True := by
  have hask : j.daemon.CallsOnce (· = .tags j.spec.tag)
      (ask w (.tags j.spec.tag) (j.daemon.tags j.spec.tag)) :=
    .of_ask rfl fun _ => rfl
  refine (Takes.attempt (.of_callsOnce hask (Nat.le_succ 11) fun m c hc => ?_)).bind
    (Nat.le_succ 12) fun result word' _ hlisted => ?_
  · subst hc
    exact ⟨rfl, .inl (Nat.lt_succ_self 11), rfl⟩
  · cases result with
    | error e => exact (Takes.of_pure trivial).mono (Nat.le_succ 12) fun _ _ _ h => h
    | ok tags =>
        obtain ⟨m, c, rfl, hmem⟩ := hlisted tags rfl
        exact removeAll_takes tags (.inl rfl) ⟨m, hmem⟩

theorem cleanUp_takes : j.Takes s₀ word 11 j.cleanUp 13 fun _ _ => True := by
  refine .quiet_bind (quiet_takeTurns .none) (by omega) fun _ => ?_
  refine .quiet_bind quiet_get (by omega) fun s => ?_
  refine .tryCatch clearTags_takes fun halt => ?_
  cases halt with
  | overdue => exact quiet_pure ()
  | failed e => exact quiet_throw _
  | forever => exact quiet_throw _

end ImageBuild.Job
