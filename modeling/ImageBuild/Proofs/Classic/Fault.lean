import ImageBuild.Daemon.Script
import ImageBuild.Proofs.Classic.Listening
import Mathlib
/-!
# What a classic build tells of a fault of its context

The fault of a context comes to light while the daemon reads it, and the daemon does about it what it likes: it
fails the call, it tells an error, it breaks off, or it goes on as if nothing had happened.  The build knows
better than the daemon what went wrong, but it says so only at the end of the stream.
-/

namespace ImageBuild.Classic

open Act

/-- The way out of a build that hears a stream to its end. -/
def streamExit (beats : List (Beat BuildMessage)) : Exit :=
  ((inputsOf beats).findSome? Input.exit?).getD .ended

/-- The way out of a build whose call has this reply, if the context has this fault. -/
def exitOf (fault : IoError) (r : BuildReply) : Exit :=
  match r.body, r.reply.result with
  | .drain, _ => .refused (.io fault)
  | _, .error e => .refused e
  | _, .ok beats => streamExit beats

/-- What a build waits for on its way out. -/
def awaited (r : BuildReply) : List Pace :=
  match r.body, r.reply.result with
  | .drain, _ => []
  | _, .error _ => [r.reply.pace]
  | _, .ok beats => r.reply.pace :: (heard beats).map Beat.pace

theorem fault?_of_mem_inputsOf {beats : List (Beat BuildMessage)} {i : Input}
    (h : i ∈ inputsOf beats) : i.fault? = none := by
  rw [inputsOf, List.mem_append, List.mem_singleton] at h
  rcases h with h | rfl
  · obtain ⟨⟨_, _ | _ | _⟩, -, hb⟩ := List.mem_filterMap.1 h <;> cases hb <;> rfl
  · rfl

/-- Where a fault is known, the way out is all that a build comes to. -/
theorem conclusion_of_fault {s : State} {fault : String} (hfault : s.upload.fault = some fault)
    (beats : List (Beat BuildMessage)) :
    conclusion s beats = .error ((streamExit beats).error fault) := by
  have hrun := run_of_fault hfault fun i (hi : i ∈ inputsOf beats) => fault?_of_mem_inputsOf hi
  rw [run_inputsOf] at hrun
  obtain ⟨x, hx, hconclusion⟩ := Option.map_eq_some_iff.1 hrun.symm
  rw [streamExit, hx]
  exact hconclusion.symm

/-- What is held back at a fault is not read. -/
theorem bodyInputs_of_fault {encode : Archive.Encoder} {c : Context} {fault : IoError}
    (h : c.archive.fault = some fault) :
    bodyInputs encode c .lossy =
      (Archive.chunksOf id (c.sizes encode) (some fault)).map (fun chunk => .chunk (Archive.sizeBy id chunk)) ++
        [.fault fault.message, .finished] := by
  have hbody : bodyInputs encode c .lossy = (c.reads encode).map readInput ++ [.finished] := rfl
  rw [hbody, Context.reads, h, List.map_append, List.map_map, List.append_assoc]
  rfl

theorem fault_begun (encode : Archive.Encoder) (c : Context) {use : BodyUse} (h : use.reads = true) :
    (begun encode c use).upload.fault = c.archive.fault.map IoError.message := by
  have hinputs : bodyInputs encode c use = bodyInputs encode c .lossy := by cases use <;> first | rfl | cases h
  have hstate : stateAfterCall encode c use = State.after {} (bodyInputs encode c .lossy) := by
    rw [stateAfterCall, hinputs]
    rfl
  rw [begun, fault_respond, hstate, fault_after, filterMap_fault?_bodyInputs]
  cases c.archive.fault <;> rfl

theorem foretold_of_fault {c : Context} {fault : IoError} (hfault : c.archive.fault = some fault)
    {r : BuildReply} (hreads : r.body.reads = true) (encode : Archive.Encoder) :
    foretold encode c r =
      if (awaited r).any Pace.hangs then .error .forever
      else .error (.failed ((exitOf fault r).error fault.message)) := by
  have hbegun : (begun encode c r.body).upload.fault = some fault.message := by
    rw [fault_begun encode c hreads, hfault, Option.map_some]
  obtain ⟨use, pace, result⟩ := r
  cases use with
  | drop | hold => cases hreads
  | drain =>
      rw [foretold, answered, hfault]
      rfl
  | lossy =>
      cases result with
      | error e =>
          rw [← afterPaces_bind, foretold, answered, hfault]
          exact bind_assoc _ _ _
      | ok beats =>
          have hcall : BodyUse.lossy = .drain → c.archive.fault = none := by
            rintro ⟨⟩
          rw [foretold_of_ok pace beats hcall, conclusion_of_fault hbegun]
          rfl

/-! ## The error of a build -/

/-- Once the daemon has come to a fault of the context, the error of a build is that of its way out: the
fault just if the way out looks to the upload.  This holds in whatever order the daemon reads and tells, and so
for a daemon that reads before it answers, for as long as the caller does not give up. -/
theorem build_tells_fault_iff {c : Context} {fault : IoError} (hfault : c.archive.fault = some fault) :
    (∀ x : Exit, x.error fault.message = .contextArchive fault.message ↔
      x.looks = true ∨ x = .refused (.contextArchive fault.message)) ∧
    (∀ encode before i after x message, Reads encode c before → .fault message ∈ before →
      (∀ j ∈ before, j.exit? = none) → i.exit? = some x →
        run {} (before ++ i :: after) = some (.error (x.error fault.message))) ∧
    ∀ (σ : Type) (d : Daemon σ) settings spec packing credentials (s : Stage σ) r,
      r = (d.build (request settings spec c credentials) s.daemon).1 → r.body.reads = true →
        Leads (build d settings spec c packing credentials) s fun result t => ¬t.GaveUp →
          result =
            if (awaited r).any Pace.hangs then .error .forever
            else .error (.failed ((exitOf fault r).error fault.message)) := by
  refine ⟨fun x => Exit.error_eq_contextArchive_iff, ?_, ?_⟩
  · intro encode before i after x message hread hmem hbefore hexit
    rw [run_append hbefore, run,
      outcome_respond_of_fault (fault_after_of_reads hfault hread hmem) hexit, Option.some_or]
  · rintro σ d settings spec packing credentials s r rfl hreads
    rw [← foretold_of_fault hfault hreads s.encode]
    exact build_leads d settings spec c packing credentials s

/-- What is packed of a tree with the entries `Dockerfile` and `z.sock`, of which the second is a socket. -/
def sockContext : Context where
  excludes := []
  relativeDockerfile := some "Dockerfile"
  compressed := false
  archive := .ofTree (.dir [([68, 111, 99, 107, 101, 114, 102, 105, 108, 101], .file ⟨#[70]⟩),
    ([122, 46, 115, 111, 99, 107], .socket)]) ⟨"/app"⟩ [] []

theorem sockContext_fault : sockContext.archive.fault = some (.socketEntry "/app/z.sock") := by cbv

/-- The same tree for a daemon that is far away. -/
def remoteContext : Context := { sockContext with compressed := true }

/-- An encoder the first write of which is enough for a chunk, and the second is not. -/
def bulky : Archive.Encoder := fun _ => [70000, 10]

theorem remoteContext_fault : remoteContext.archive.fault = some (.socketEntry "/app/z.sock") := sockContext_fault

theorem bodyInputs_remoteContext : bodyInputs bulky remoteContext .lossy =
    [.chunk 70000, .fault "/app/z.sock: socket can not be archived", .finished] := by
  have hchunks : Archive.chunksOf id (remoteContext.sizes bulky) (some (.socketEntry "/app/z.sock")) =
      [[70000]] := by
    cbv
  rw [bodyInputs_of_fault remoteContext_fault, hchunks]
  rfl

/-- A daemon that is asked for nothing but builds, and tells an error of its own after all of the context. -/
def telling : Script :=
  let refusal {α : Type} : Reply α := { result := .error (.capabilityDetection "busy") }
  { ping := refusal
    builderKind := refusal
    info := refusal
    build := {
      body := .lossy
      reply := { result := .ok [⟨{}, some (.ok { error := some "daemon saw it" })⟩] } }
    solve := { news := [], reply := refusal }
    pushes := []
    lastPush := refusal
    inspect := refusal
    tags := fun _ => refusal
    remove := fun _ => refusal }

def sockSpec : BuildSpec where
  workDir := ⟨"/app"⟩
  tag := "img:1"

/-- The fault is told at the end of a stream that says nothing about it, and not if a message tells an error. -/
theorem build_tells_fault_iff_remoteContext :
    remoteContext.archive.fault = some (.socketEntry "/app/z.sock") ∧
      Reads bulky remoteContext [.chunk 70000, .message { stream := some "Step 1" },
        .fault "/app/z.sock: socket can not be archived"] ∧
      run {} [.chunk 70000, .message { stream := some "Step 1" },
          .fault "/app/z.sock: socket can not be archived", .ended] =
        some (.error (.contextArchive "/app/z.sock: socket can not be archived")) ∧
      Leads (build telling.daemon {} sockSpec remoteContext 0 []) { encode := bulky, daemon := 0 } fun result t =>
        ¬t.GaveUp → result = .error (.failed (.buildFailed "daemon saw it")) := by
  have hreads : Reads bulky remoteContext [.chunk 70000, .message { stream := some "Step 1" },
      .fault "/app/z.sock: socket can not be archived"] := by
    rw [Reads, bodyInputs_remoteContext]
    exact ⟨[.finished], rfl⟩
  obtain ⟨-, hrun, hbuild⟩ := build_tells_fault_iff remoteContext_fault
  refine ⟨remoteContext_fault, hreads, ?_,
    hbuild Nat telling.daemon {} sockSpec 0 [] { encode := bulky, daemon := 0 } _ rfl rfl⟩
  refine hrun bulky [.chunk 70000, .message { stream := some "Step 1" },
    .fault "/app/z.sock: socket can not be archived"] .ended [] .ended _ hreads
    (List.mem_cons_of_mem _ (List.mem_cons_of_mem _ List.mem_cons_self)) ?_ rfl
  simp [Input.exit?]

/-- Though the fault is known and nobody gives up, the build fails for what the daemon told. -/
theorem build_hides_fault :
    sockContext.archive.fault = some (.socketEntry "/app/z.sock") ∧
      (telling.daemon.build (request {} sockSpec sockContext []) 0).1.body.reads = true ∧
      Leads (build telling.daemon {} sockSpec sockContext 0 []) { daemon := 0 } fun result t =>
        ¬t.GaveUp ∧ result = .error (.failed (.buildFailed "daemon saw it")) ∧
          result ≠ .error (.failed (.contextArchive "/app/z.sock: socket can not be archived")) := by
  have hpace : ∀ b ∈ [(⟨{}, some (.ok { error := some "daemon saw it" })⟩ : Beat BuildMessage)],
      b.pace = {} := List.forall_mem_singleton.2 rfl
  have hcalm : ({ daemon := 0 } : Stage Nat).Calm := ⟨rfl, rfl, rfl⟩
  have hbuild : Leads (build telling.daemon {} sockSpec sockContext 0 []) { daemon := 0 } fun result t =>
      result = .error (.failed (.buildFailed "daemon saw it")) ∧ t.Calm :=
    build_settles (fun _ => rfl) hpace 0 hcalm
  refine ⟨sockContext_fault, rfl, hbuild.mono ?_⟩
  rintro _ t ⟨rfl, hcalm⟩
  refine ⟨?_, rfl, nofun⟩
  rintro (hcancelled | ⟨c, hc, -⟩)
  · exact absurd (hcalm.cancelled.symm.trans hcancelled) (by decide)
  · cases hcalm.cancelAt.symm.trans hc

end ImageBuild.Classic
