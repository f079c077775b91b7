import ImageBuild.Engine.Trace
import ImageBuild.Json.Record
import ImageBuild.Text.Base64
/-!
# Lines of builds and pushes

The values in which an engine tells of a build or a push, line by line.
-/

namespace ImageBuild.Engine

open Json

/-- What stands beside the text of a line of a build. -/
inductive Aux where
  | trace (t : Trace)
  | image (id : Option String)
deriving Repr, DecidableEq

/-- Makes out what a value beside the text is. -/
def Aux.ofJson? : Json → Option Aux
  | .text s => do
    let bytes ← (Text.Base64.decode (Text.Utf8.ofString s)).toOption
    return .trace (← Trace.decode? bytes)
  | v => (imageId? v).map .image

def Aux.reader : Reader Aux :=
  Reader.any.choose ofJson?

/-- Reads the message of the details of an error. -/
def errorDetailReader : Reader (Option String) :=
  .record [.unused .int "code", .optional "message" .text fun message _ => message] none

def progressDetailForm : Reader Unit :=
  .form [.unused .int "current", .unused .int "total"]

/-- A line of a build. -/
structure BuildLine where
  stream : Option String := none
  error : Option String := none
  errorDetail : Option String := none
  status : Option String := none
  progress : Option String := none
  aux : Option Aux := none
deriving Repr, DecidableEq

def BuildLine.fields : List (Json.Field BuildLine) :=
  [.unused .text "id",
    .optional "stream" .text fun stream l => { l with stream := stream },
    .optional "error" .text fun error l => { l with error := error },
    .optional "errorDetail" errorDetailReader fun detail l => { l with errorDetail := detail.join },
    .optional "status" .text fun status l => { l with status := status },
    .optional "progress" .text fun progress l => { l with progress := progress },
    .unused progressDetailForm "progressDetail",
    .optional "aux" Aux.reader fun aux l => { l with aux := aux }]

def BuildLine.reader : Reader BuildLine :=
  .record fields {}

/-- A line of a push. -/
structure PushLine where
  error : Option String := none
  errorDetail : Option String := none
  status : Option String := none
  progress : Option String := none
deriving Repr, DecidableEq

def PushLine.fields : List (Json.Field PushLine) :=
  [.optional "error" .text fun error l => { l with error := error },
    .optional "errorDetail" errorDetailReader fun detail l => { l with errorDetail := detail.join },
    .optional "status" .text fun status l => { l with status := status },
    .optional "progress" .text fun progress l => { l with progress := progress },
    .unused progressDetailForm "progressDetail"]

def PushLine.reader : Reader PushLine :=
  .record fields {}

/-- The line as a message: an image is told as a value beside the text. -/
def BuildLine.message (l : BuildLine) : BuildMessage where
  stream := l.stream
  status := l.status
  progress := l.progress
  error := l.errorDetail
  aux := match l.aux with
    | some (.image id) => some (.object (id.map fun id => ("ID", Json.text id)).toList)
    | _ => none

def PushLine.message (l : PushLine) : PushMessage where
  status := l.status
  progress := l.progress
  error := l.errorDetail

/-- A line that tells an error is an error of the stream. -/
def orStreamError {α β : Type} (error? : α → Option String) (message : α → β) :
    Except EngineError α → Except EngineError β
  | .error e => .error e
  | .ok line =>
    match error? line with
    | some e => .error (.stream e)
    | none => .ok (message line)

end ImageBuild.Engine
