import ImageBuild.Daemon.Basic
import ImageBuild.Engine.Image
import ImageBuild.Engine.Info
import ImageBuild.Engine.Line
import ImageBuild.Engine.Stream
import ImageBuild.Engine.Target
import ImageBuild.Engine.Version
import ImageBuild.Solve.Request
/-!
# An engine as a daemon

The calls of a daemon as requests to an engine.  A solve is a build too, with the news of the solve
in its lines; its context is packed here, from the directories that the request names.
-/

namespace ImageBuild.Engine

/-- An engine that can be reached. -/
structure Client (τ : Type) where
  exchange : Exchange τ
  remote : Bool
  /-- Where the contexts of solves are packed. -/
  fs : FileSystem

/-- The query of a build. -/
structure BuildQuery where
  dockerfile : String
  tag : String
  buildArgs : List (String × String)
  labels : List (String × String)
  target : String
  noCache : Bool
  platform : String
  /-- Whether containers of the build are removed when it is over. -/
  removes : Bool
  /-- Whether the build is a solve in a session of its own. -/
  session : Bool
deriving Repr, DecidableEq

def BuildQuery.params (q : BuildQuery) : List (String × Param) :=
  [("dockerfile", .text q.dockerfile), ("t", .text q.tag), ("buildargs", .table q.buildArgs),
    ("labels", .table q.labels), ("target", .text q.target), ("nocache", .flag q.noCache),
    ("platform", .text q.platform), ("rm", .flag q.removes), ("forcerm", .flag q.removes),
    ("version", .text (if q.session then "2" else "1"))] ++
  if q.session then [("session", .session)] else []

/-- The query of a classic build. -/
def BuildQuery.ofClassic (r : ClassicRequest) : BuildQuery where
  dockerfile := r.dockerfile
  tag := r.tag
  buildArgs := r.buildArgs
  labels := r.labels
  target := r.target.getD ""
  noCache := r.noCache
  platform := r.platform
  removes := true
  session := false

def lookup (name : String) (entries : List (String × String)) : Option String :=
  (entries.find? fun e => e.1 == name).map Prod.snd

/-- The entries of a table that are marked, without their marks. -/
def unmarked (mark : String) (entries : List (String × String)) : List (String × String) :=
  entries.filterMap fun (name, value) => (Text.afterHead mark name).map fun name => (name, value)

/-- The tag under which a solve exports its image. -/
def exportTag (r : SolveRequest) : String :=
  match r.exports.find? fun e => e.kind == Solve.imageExport with
  | some e => (lookup "name" e.attrs).getD ""
  | none => ""

/-- The query of a solve with a context that is packed already. -/
def BuildQuery.ofSolve (r : SolveRequest) (context : Context) : BuildQuery where
  dockerfile := context.dockerfileName
  tag := exportTag r
  buildArgs := unmarked Solve.argMark r.frontendAttrs
  labels := unmarked Solve.labelMark r.frontendAttrs
  target := (lookup "target" r.frontendAttrs).getD ""
  noCache := (lookup "no-cache" r.frontendAttrs).isSome
  platform := (lookup "platform" r.frontendAttrs).getD ""
  removes := false
  session := true

/-- The context of a solve.  Secrets cannot be told to an engine. -/
def solveContext (fs : FileSystem) (remote : Bool) (r : SolveRequest) :
    Except BuildError Context := do
  if !r.secrets.isEmpty then
    let ids := (r.secrets.map Prod.fst).mergeSort Dockerfile.keyLE
    throw (.invalidConfig ("build secrets cannot be forwarded through the daemon session: " ++
      Text.joinWith ", " ids))
  match lookup "context" r.localDirs with
  | none => throw (.invalidConfig "solve request has no context dir")
  | some dir =>
    let dockerfileDir := (lookup "dockerfile" r.localDirs).getD dir
    let filename := (lookup "filename" r.frontendAttrs).getD "Dockerfile"
    Context.package fs (Path.join ⟨dockerfileDir⟩ ⟨filename⟩)
      { workDir := ⟨dir⟩, tag := exportTag r } remote

/-- The response to a solve, which may tell the image more than once; the last time counts. -/
def setDigest (response : SolveResponse) (digest : String) : SolveResponse :=
  (Solve.digestKey, digest) :: response.filter fun e => e.1 != Solve.digestKey

/-- Goes through the lines of a solve: the news in them, and what comes of them. -/
def followSolve (response : SolveResponse) :
    List (Except EngineError BuildLine) → List SolveStatus × Except BuildError SolveResponse
  | [] => ([], .ok response)
  | .error e :: _ => ([], .error (.connection e))
  | .ok line :: rest =>
    match line.errorDetail, line.aux with
    | some e, _ => ([], .error (.buildFailed e))
    | none, some (.trace t) =>
      let (news, result) := followSolve response rest
      (t.status :: news, result)
    | none, some (.image (some id)) => followSolve (setDigest response id) rest
    | none, _ => followSolve response rest

/-- The error of a push: a refusal is told in the words of the engine alone. -/
def pushError : EngineError → BuildError
  | .response _ message => .pushFailed message
  | e => .pushFailed e.message

/-- The lines of a response that is a stream; a refusal is an error of the stream. -/
def lines {α : Type} (reader : Json.Reader α) (r : Except EngineError Response) :
    List (Except EngineError α) :=
  match r.bind Response.accepted with
  | .ok body => readStream reader body
  | .error e => [.error e]

/-- A stream that takes no time. -/
def beats {α β : Type} (items : List (Except EngineError α)) (error : EngineError → BuildError)
    (message : α → β) : List (Beat β) :=
  items.map fun
    | .ok a => { content := some (.ok (message a)) }
    | .error e => { content := some (.error (error e)) }

namespace Client

variable {τ : Type}

/-- A request with a single value for an answer. -/
def askValue {α : Type} (c : Client τ) (request : Request) (reader : Json.Reader α) (t : τ) :
    Reply α × τ :=
  let (r, t) := c.exchange request t
  let result := (r.bind Response.accepted).bind (readValue reader)
  ({ result := result.mapError .connection }, t)

/-- A request that is about an image, and nothing more. -/
def aboutImage (method reference rest : String) : Request :=
  let target := Target.ofText ("/images/" ++ reference ++ rest)
  { method, path := target.path, query := target.params.map fun p => (p.1, .text p.2) }

def ping (c : Client τ) (t : τ) : Reply Unit × τ :=
  let (r, t) := c.exchange ⟨"GET", "/_ping", [], none, none, none⟩ t
  let result := (r.bind Response.accepted).bind Body.bytes
  ({ result := (result.map fun _ => ()).mapError .connection }, t)

def builderKind (c : Client τ) (t : τ) : Reply BuilderKind × τ :=
  c.askValue ⟨"GET", "/version", [], none, none, none⟩ (VersionRecord.reader.map preferredBuilder) t

def build (c : Client τ) (r : ClassicRequest) (t : τ) : BuildReply × τ :=
  let request : Request := {
    method := "POST"
    path := "/build"
    query := (BuildQuery.ofClassic r).params
    registryConfig := some r.credentials
    context := some r.context }
  let (response, t) := c.exchange request t
  let items := (lines BuildLine.reader response).map (orStreamError BuildLine.error id)
  ({ body := .lossy, reply := { result := .ok (beats items .connection BuildLine.message) } }, t)

def solve (c : Client τ) (r : SolveRequest) (t : τ) : SolveReply × τ :=
  match solveContext c.fs c.remote r with
  | .error e => ({ news := [], reply := { result := .error e } }, t)
  | .ok context =>
    let request : Request := {
      method := "POST"
      path := "/build"
      query := (BuildQuery.ofSolve r context).params
      context := some context }
    let (response, t) := c.exchange request t
    let items := (lines BuildLine.reader response).map (orStreamError BuildLine.error id)
    let (news, result) := followSolve [] items
    ({ news := news.map fun s => ({}, s), reply := { result } }, t)

def push (c : Client τ) (tag : String) (credentials : Option Registry.Credentials) (t : τ) :
    Reply (List (Beat PushMessage)) × τ :=
  let (image, imageTag) := Registry.nameAndTag tag
  let request : Request := { aboutImage "POST" image "/push" with
    query := [("tag", .text imageTag)]
    registryAuth := some credentials }
  let (response, t) := c.exchange request t
  let items := (lines PushLine.reader response).map (orStreamError PushLine.error id)
  ({ result := .ok (beats items pushError PushLine.message) }, t)

def tags (c : Client τ) (reference : String) (t : τ) : Reply (List String) × τ :=
  c.askValue
    ⟨"GET", "/images/json", [("filters", .filter [("reference", [reference])])], none, none, none⟩
    ((Json.Reader.list Image.tagsReader).map List.flatten) t

def remove (c : Client τ) (tag : String) (t : τ) : Reply Unit × τ :=
  c.askValue (aboutImage "DELETE" tag "") ((Json.Reader.list Image.removalForm).map fun _ => ()) t

/-- The engine as a daemon. -/
def daemon (c : Client τ) : Daemon τ where
  isRemote := c.remote
  ping := c.ping
  builderKind := c.builderKind
  info := c.askValue ⟨"GET", "/info", [], none, none, none⟩ Info.reader
  build := c.build
  solve := c.solve
  push := c.push
  inspect reference :=
    c.askValue (aboutImage "GET" reference "/json") Image.detailsReader
  tags := c.tags
  remove := c.remove

end Client
end ImageBuild.Engine
