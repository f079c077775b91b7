import ImageBuild.Settings
import ImageBuild.Stage
import ImageBuild.Text.Quoted
/-!
# Probing a daemon

Before a build the daemon is asked for a sign of life, and then which builder it prefers.  A daemon
that gives no sign of life is no error: there is just nothing to build with.
-/

namespace ImageBuild

namespace Probe

def unavailable (remote : Bool) : Capability := ⟨false, false, remote⟩

/-- The spellings of a truth value. -/
def flag? (s : String) : Option Bool :=
  if s ∈ ["1", "t", "T", "TRUE", "true", "True"] then some true
  else if s ∈ ["0", "f", "F", "FALSE", "false", "False"] then some false
  else none

/-- Whether to build in a session: as the settings say, or else as the daemon prefers. -/
def sessionSupported (settings : Settings) (kind : BuilderKind) : Except BuildError Bool :=
  match settings.buildkit with
  | none => .ok (kind = .buildKit)
  | some value =>
    match flag? value with
    | some b => .ok b
    | none => .error (.capabilityDetection
        ("DOCKER_BUILDKIT environment variable expects boolean value, got " ++ Text.quoted value))

variable {σ : Type}

/-- Waits for the reply to a question that the daemon has to answer. -/
def detect (timeout : Nat) (act : Watch → Act σ BuilderKind) : Act σ BuilderKind := do
  match ← Act.attempt (Act.within timeout act) with
  | .ok kind => pure kind
  | .error .cancelled => Act.fail .cancelled
  | .error e => Act.fail (.capabilityDetection e.message)

/-- Finds out what the daemon can do. -/
def run (d : Daemon σ) (settings : Settings) : Act σ Capability := do
  let pinged := Act.within settings.probeTimeout fun w => Act.ask w .ping d.ping
  match ← Act.attempt (Act.reporting .ping pinged) with
  | .error .cancelled => Act.fail .cancelled
  | .error _ => return unavailable d.isRemote
  | .ok () =>
    let kind ← detect settings.infoTimeout fun w => Act.ask w .builderKind d.builderKind
    let session ← Act.ofExcept (sessionSupported settings kind)
    return ⟨true, session, d.isRemote⟩

end Probe
end ImageBuild
