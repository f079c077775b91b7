import ImageBuild.Classic
import ImageBuild.Probe
import ImageBuild.Push
import ImageBuild.Solve.Session
/-!
# A build from beginning to end

Probing the daemon, finding the Dockerfile, packing the context, building, pushing, inspecting,
cleaning up.  Each step belongs to a phase, which is recorded and which the errors of the step name.
Where there is no daemon or no Dockerfile the build is skipped, and that is no error.
-/

namespace ImageBuild

/-- A build and what it is given. -/
structure Job (σ : Type) where
  daemon : Daemon σ
  settings : Settings
  credentials : Registry.Provider
  fs : FileSystem
  spec : BuildSpec
  /-- The number of attempts for which a push is followed. -/
  patience : Nat

namespace Job

variable {σ : Type}

/-- What a build can start with. -/
inductive Start where
  | skip (reason : SkipReason)
  | ready (capability : Capability) (dockerfile : Path)

/-- Finds out what to build with, and from. -/
def initialise (j : Job σ) : Act σ Start := do
  let capability ← Act.reporting .probe (Probe.run j.daemon j.settings)
  if !capability.available then return .skip .daemonUnavailable
  match ← Act.ofExcept (Dockerfile.locate j.fs j.spec.workDir j.spec.dockerfile) with
  | none => return .skip .noDockerfile
  | some dockerfile => return .ready capability dockerfile

/-- The context of a classic build; a session needs none. -/
def prepare (j : Job σ) (c : Capability) (dockerfile : Path) : Act σ (Option Context) :=
  match c.builder with
  | .session => pure none
  | .classic => Act.during .contextBuild do
    let context ← Act.inPhase .contextBuild
      (Act.ofExcept (Context.package j.fs dockerfile j.spec c.remote))
    Act.announce (.text "Creating build context done")
    return some context

/-- Asks the daemon about itself. -/
def daemonInfo (j : Job σ) : Act σ DaemonInfo := do
  let asked := Act.within j.settings.infoTimeout fun w => Act.ask w .info j.daemon.info
  match ← Act.attempt (Act.reporting .info asked) with
  | .ok info => return info
  | .error .cancelled => Act.fail .cancelled
  | .error e => Act.fail (.buildFailed ("error fetching docker server info: " ++ e.message))

/-- Builds the image, for which the context is still being packed, and answers its id and a warning about
its context. -/
def buildImage (j : Job σ) (c : Capability) (dockerfile : Path) (context : Option Context) :
    Act σ (String × Option String) := do
  let packing := (← get).now
  let info ← j.daemonInfo
  Act.announce (.text ("docker host: " ++ info.serverVersion ++ " " ++ info.osType ++ " " ++
    info.architecture))
  Act.note (.marked (.describe ⟨context.isNone, c.remote, info.serverVersion, info.platform⟩))
  let credentials := j.credentials.all.toOption.getD []
  match context with
  | some context =>
    let built ← Act.reporting (fun r => .driver (r.map Classic.Built.imageId))
      (Classic.build j.daemon j.settings j.spec context packing credentials)
    return (built.imageId, Context.sizeWarning? built.contextSize)
  | none =>
    let id ← Act.reporting .driver
      (Solve.build j.daemon j.settings j.spec dockerfile credentials)
    return (id, none)

/-- Pushes the image. -/
def publish (j : Job σ) : Act σ Unit :=
  Act.during .push do
    let credentials ← Act.inPhase .push (Act.ofExcept (j.credentials.forImage j.spec.tag))
    Act.inPhase .push (Act.reporting .push
      (Push.push j.daemon j.settings j.spec.tag credentials (fun _ _ => pure ()) j.patience))
    Act.announce (.text "Pushing image done")

/-- The part of a build that the phase of the whole build covers, whose ticket is given. -/
def construct (j : Job σ) (ticket : Nat) (c : Capability) (dockerfile : Path) :
    Act σ (String × Option String) :=
  Act.closing ticket do
    let context ← j.prepare c dockerfile
    Act.during .imageBuild (Act.inPhase .imageBuild (j.buildImage c dockerfile context))

/-- Builds, pushes and inspects an image. -/
def proceed (j : Job σ) (ticket : Nat) (c : Capability) (dockerfile : Path) :
    Act σ (Image × Option String) := do
  let (id, warning) ← j.construct ticket c dockerfile
  Act.announce (.text "Building image done")
  if j.spec.publish then j.publish
  let details ← Act.inPhase .imageBuild (Act.ask .none (.inspect id) (j.daemon.inspect id))
  return (⟨details.id, j.spec.tag, details.size⟩, warning)

/-- Takes tags off, one after the other; one that stays on keeps nothing else from being tried. -/
def removeAll (d : Daemon σ) (w : Watch) : List String → Act σ Unit
  | [] => pure ()
  | tag :: rest => do
    let _ ← Act.attempt (Act.ask w (.remove tag) (d.remove tag))
    removeAll d w rest

/-- Takes the tags off the image that a tag names. -/
def clearTags (j : Job σ) (w : Watch) : Act σ Unit := do
  match ← Act.attempt (Act.ask w (.tags j.spec.tag) (j.daemon.tags j.spec.tag)) with
  | .error _ => pure ()
  | .ok tags => removeAll j.daemon w tags

/-- Cleans up for as long as the settings allow. -/
def cleanUp (j : Job σ) : Act σ Unit := do
  Act.takeTurns .none
  let deadline := (← get).now + j.settings.infoTimeout
  tryCatch (j.clearTags { deadline := some deadline }) fun
    | .overdue => pure ()
    | h => throw h

/-- Whether a build is cleaned up after: not on a daemon that is far away, where other builds may use
the tags, and not if the image is to stay here. -/
def cleansUp (j : Job σ) (c : Capability) (succeeded : Bool) : Bool :=
  !c.remote && (!succeeded || j.spec.publish)

/-- The last words about a build, and its outcome. -/
def conclude (j : Job σ) (result : Except BuildError (Image × Option String)) :
    Act σ BuildOutcome :=
  match result with
  | .ok (image, warning) => do
    Act.note (.closed true ("Built " ++ image.tag))
    let warnings := Dockerfile.argumentWarnings j.spec.buildArgs ++ warning.toList
    return .built image
      (if warnings.isEmpty then none else some (Text.joinWith "\n" warnings))
  | .error e => do
    Act.note (.closed false e.message)
    Act.fail e

/-- Runs a build. -/
def run (j : Job σ) : Act σ BuildOutcome := do
  let ticket ← Act.start .build
  let init := Act.during .builderInit (Act.inPhase .builderInit j.initialise)
  match ← Act.attempt init with
  | .error e =>
    Act.finish ticket
    Act.fail e
  | .ok (.skip reason) =>
    Act.finish ticket
    return .skipped reason
  | .ok (.ready capability dockerfile) =>
    let result ← Act.attempt (j.proceed ticket capability dockerfile)
    if j.cleansUp capability result.isOk then j.cleanUp
    j.conclude result

end Job
end ImageBuild
