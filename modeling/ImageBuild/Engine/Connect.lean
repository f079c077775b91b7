import ImageBuild.Engine.Client
import ImageBuild.Settings
import ImageBuild.Text.Pem
/-!
# Finding an engine

The settings name the engine, or else the environment does, or else it is at the usual place.
-/

namespace ImageBuild.Engine

def unixScheme : String := "unix://"

def pipeScheme : String := "npipe://"

/-- Where the engine of a machine usually is. -/
def usualAddress : String := "unix:///var/run/docker.sock"

/-- Whether an address is that of another machine: all are, but for sockets and pipes. -/
def isRemote (address : Option String) : Bool :=
  match address with
  | none => false
  | some a =>
    !(Text.isBlankText a || a.startsWith unixScheme || a.startsWith pipeScheme)

/-- The ways to an engine. -/
inductive Way where
  | socket (path : String)
  | plain
  /-- A way on which the engine has to show a certificate. -/
  | secure
deriving Repr, DecidableEq

/-- The way that an address tells. -/
def Way.ofAddress? (address : String) : Option Way :=
  match Text.afterHead unixScheme address with
  | some path => some (.socket path)
  | none =>
    if address.startsWith "tcp://" || address.startsWith "http://" then some .plain
    else if address.startsWith "https://" then some .secure
    else none

/-- The way that an address tells in an environment, which can ask for certificates. -/
def Way.inEnvironment? (env : Environment) (address : String) : Option Way :=
  match Way.ofAddress? address with
  | some .plain => some (if (env.text? "DOCKER_TLS_VERIFY").isSome then .secure else .plain)
  | way => way

/-- Where the certificate is that other certificates are checked against. -/
def authorityFile (env : Environment) (accountHome : Path) : Path :=
  let home := (env.path? "HOME").getD accountHome
  let named := env.text? "DOCKER_CERT_PATH" <|> env.text? "DOCKER_CONFIG"
  ((named.map Path.mk).getD (home.join ⟨".docker"⟩)).join ⟨"ca.pem"⟩

/-- Makes sure that a way can be taken. -/
def Way.check (fs : FileSystem) (authority : Path) : Way → Except EngineError Unit
  | .socket path => if fs.exists? ⟨path⟩ then .ok () else .error (.socketNotFound path)
  | .plain => .ok ()
  | .secure =>
    match fs.read authority with
    | .error _ => .error (.certificateNotRead authority.text)
    | .ok content =>
      match Text.Pem.fault? content.toList with
      | some f => .error (.io (.reported f.message))
      | none => .ok ()

/-- Connects to the engine of the settings, which cannot ask for certificates, or else to that of the
environment, and answers whether it is on another machine. -/
def connect (fs : FileSystem) (settings : Settings) (env : Environment) (accountHome : Path) :
    Except BuildError Bool := do
  let named := env.text? "DOCKER_HOST"
  let way : Except EngineError Way ← match settings.daemonHost with
    | some address =>
      match Way.ofAddress? address with
      | none | some .secure => .error (.invalidConfig ("unsupported daemon host: " ++ address))
      | some way => .ok (.ok way)
    | none =>
      let address := named.getD usualAddress
      .ok ((Way.inEnvironment? env address).elim (.error (.unsupportedScheme address)) .ok)
  (way.bind (Way.check fs (authorityFile env accountHome))).mapError .connection
  return isRemote (settings.daemonHost <|> named)

end ImageBuild.Engine
