import ImageBuild.Settings
import ImageBuild.Stage
import ImageBuild.Text.Size
/-!
# Classic builds

A classic build sends its context along and then listens to messages.  Reading the context and
sending messages are the daemon's own affair, so they may come in any order: `respond` takes them as
they come, and says what is shown and whether the build is over.
-/

namespace ImageBuild.Classic

/-- What a classic build makes. -/
structure Built where
  imageId : String
  /-- The number of bytes that the daemon read of the context. -/
  contextSize : Nat
deriving Repr, DecidableEq

/-- How far the context has been read. -/
structure Upload where
  sent : Nat := 0
  done : Bool := false
  fault : Option String := none
  /-- Whether it has come further since this was last looked at. -/
  unseen : Bool := false
  /-- Whether it may come further. -/
  alive : Bool := true
deriving Repr, DecidableEq

/-- The state of a build. -/
structure State where
  upload : Upload := {}
  /-- Whether the upload is still looked at. -/
  uploading : Bool := true
  imageId : Option String := none
deriving Repr, DecidableEq

inductive Input where
  /-- The daemon read some bytes of the context. -/
  | chunk (size : Nat)
  /-- The daemon came to a fault in the context. -/
  | fault (message : String)
  /-- The daemon read the context to its end. -/
  | finished
  /-- The daemon threw the context away. -/
  | dropped
  /-- The build looks at the upload. -/
  | look
  | message (m : BuildMessage)
  /-- The stream of messages breaks off. -/
  | failed (e : BuildError)
  /-- The stream of messages ends. -/
  | ended
  | cancelled

/-- What a build does about an input. -/
structure Response where
  state : State
  events : List Event := []
  /-- How the build ends, if it does. -/
  outcome : Option (Except BuildError Built) := none

def sendingLine (size : Nat) : String :=
  "Sending build context to Docker daemon  " ++ Text.decimalSize size

/-- The state after a value beside a message: only a value that holds an id changes it. -/
def State.heedAux (s : State) (aux : Option Json) : State :=
  match aux.bind imageId? with
  | some (some id) => { s with imageId := some id }
  | _ => s

def streamEvents (stream : Option String) : List Event :=
  ((stream.map Text.nonBlankLines).getD []).map Event.text

def statusEvents (m : BuildMessage) : List Event :=
  match m.status, m.progress with
  | some status, some progress => [.partialText (status ++ " " ++ progress)]
  | some status, none => [.text status]
  | none, _ => []

/-- Whether there is something to see about the upload. -/
def State.sees (s : State) : Bool :=
  s.uploading && (s.upload.unseen || !s.upload.alive)

/-- The error that a fault in the context leads to. -/
def Upload.error? (u : Upload) : Option BuildError :=
  u.fault.map .contextArchive

/-- How a build ends with its stream. -/
def State.conclude (s : State) : Except BuildError Built :=
  match s.upload.error?, s.imageId with
  | some e, _ => .error e
  | none, some id => .ok ⟨id, s.upload.sent⟩
  | none, none => .error .missingImageId

/-- Looks at the upload.  Its end is shown for good, and is the last there is to see of it. -/
def State.look (s : State) : Response :=
  let line := sendingLine s.upload.sent
  let upload := { s.upload with unseen := false }
  if s.upload.done then
    { state := { s with upload, uploading := false }, events := [.text line] }
  else
    { state := { s with upload, uploading := s.upload.unseen }, events := [.partialText line] }

def respond (s : State) : Input → Response
  | .chunk size =>
    { state := { s with upload := { s.upload with sent := s.upload.sent + size, unseen := true } } }
  | .fault message =>
    { state := { s with upload := { s.upload with fault := some message, unseen := true } } }
  | .finished =>
    { state := { s with upload := { s.upload with done := true, unseen := true, alive := false } } }
  | .dropped => { state := { s with upload := { s.upload with alive := false } } }
  | .look => if s.sees then s.look else { state := s }
  | .message m =>
    match m.error with
    | some e => { state := s, outcome := some (.error (.buildFailed e)) }
    | none => { state := s.heedAux m.aux, events := streamEvents m.stream ++ statusEvents m }
  | .failed e => { state := s, outcome := some (.error (s.upload.error?.getD e)) }
  | .ended => { state := s, outcome := some s.conclude }
  | .cancelled => { state := s, outcome := some (.error .cancelled) }

/-- What the daemon comes to in a context, as an input. -/
def readInput : Except IoError Nat → Input
  | .ok size => .chunk size
  | .error fault => .fault fault.message

/-- What happens to a context while the daemon answers the call. -/
def bodyInputs (encode : Archive.Encoder) (c : Context) : BodyUse → List Input
  | .hold => []
  | .drop => [.dropped]
  | _ => (c.reads encode).map readInput ++ [.finished]

/-- The state after the daemon has answered the call. -/
def stateAfterCall (encode : Archive.Encoder) (c : Context) (use : BodyUse) : State :=
  (bodyInputs encode c use).foldl (fun s i => (respond s i).state) {}

variable {σ : Type}

/-- Takes an input on stage. -/
def hear (s : State) (i : Input) : Act σ Response := do
  let r := respond s i
  r.events.forM Act.announce
  return r

/-- The end of a build. -/
def finish (r : Response) : Act σ Built :=
  Act.ofExcept (r.outcome.getD (.error .missingImageId))

/-- Listens to the stream.  The caller is looked to before each message, but a pause without a message
goes on to the next one at once. -/
def listen (s : State) (look : Bool) : List (Beat BuildMessage) → Act σ Built
  | [] => do
    if look then Act.checkCaller
    finish (← hear s .ended)
  | b :: rest => do
    if look then Act.checkCaller
    Act.follow .forCaller b.pace
    match b.content with
    | none => listen s false rest
    | some (.error e) => finish (← hear s (.failed e))
    | some (.ok m) =>
      let r ← hear s (.message m)
      if r.outcome.isSome then finish r else listen r.state true rest

/-- What a spec asks of a classic build. -/
def request (settings : Settings) (spec : BuildSpec) (context : Context)
    (credentials : Registry.CredentialTable) : ClassicRequest where
  tag := spec.tag
  dockerfile := context.dockerfileName
  buildArgs := spec.buildArgs
  labels := spec.labels
  target := spec.target
  noCache := spec.noCache
  platform := settings.platform
  credentials := credentials
  context := context

/-- Reads all of a context, the packing of which began at a moment.  It is packed in no time, but only
while others act; later every chunk of it is there, its end, and word that it is packed. -/
def readAll (encode : Archive.Encoder) (context : Context) (packing : Nat) : Act σ Unit := do
  if packing < (← get).now then Act.exchange ((context.reads encode).length + 2)
  else Act.giveWay .none

/-- Waits for the answer to the call, in which a daemon cannot read past a fault of the context. -/
def answer (encode : Archive.Encoder) (context : Context) (packing : Nat) (r : BuildReply) :
    Act σ (List (Beat BuildMessage)) := do
  if r.body.reads then readAll encode context packing
  match r.body, context.archive.fault with
  | .drain, some fault => Act.fail (.io fault)
  | _, _ => Act.receive .none r.reply

/-- What comes of the reply to the call of a build. -/
def afterCall (encode : Archive.Encoder) (context : Context) (packing : Nat) (r : BuildReply) :
    Act σ Built := do
  let beats ← answer encode context packing r
  Act.checkCaller
  let state := stateAfterCall encode context r.body
  if state.sees then Act.exchange 1
  let seen ← hear state .look
  listen seen.state true beats

/-- Builds an image from a context, the packing of which began at a moment. -/
def build (d : Daemon σ) (settings : Settings) (spec : BuildSpec) (context : Context) (packing : Nat)
    (credentials : Registry.CredentialTable) : Act σ Built := do
  let encode := (← get).encode
  Act.checkCaller
  let req := request settings spec context credentials
  let r ← Act.call (fun r => .build req r.body) (d.build req)
  afterCall encode context packing r

end ImageBuild.Classic
