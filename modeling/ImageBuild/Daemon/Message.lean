import ImageBuild.Context
import ImageBuild.Json.Basic
import ImageBuild.Registry.Credentials
/-!
# What passes between a build and a daemon

The requests that a build makes of a daemon, and the messages that come back.
-/

namespace ImageBuild

/-- The builder that a daemon uses unless it is told otherwise. -/
inductive BuilderKind where
  | classic
  | buildKit
deriving Repr, DecidableEq

/-- What a daemon reports about itself. -/
structure DaemonInfo where
  serverVersion : String := ""
  osType : String := ""
  architecture : String := ""
  osVersion : String := ""
deriving Repr, DecidableEq

/-- The platform of a daemon in one line. -/
def DaemonInfo.platform (i : DaemonInfo) : String :=
  i.osType ++ "/" ++ i.architecture ++ "/" ++ i.osVersion

/-- A classic build, which sends its context along. -/
structure ClassicRequest where
  tag : String
  /-- The name of the Dockerfile in the context. -/
  dockerfile : String
  buildArgs : List (String × String)
  labels : List (String × String)
  target : Option String
  noCache : Bool
  platform : String
  credentials : Registry.CredentialTable
  context : Context

/-- A message of a classic build. -/
structure BuildMessage where
  stream : Option String := none
  status : Option String := none
  progress : Option String := none
  error : Option String := none
  /-- A value beside the text: at the end, it holds the id of the image. -/
  aux : Option Json := none

/-- The id of an image in a value beside the text: `none` if the value is no record with an id, and no
id if the record leaves it open. -/
def imageId? (v : Json) : Option (Option String) :=
  let given : Json → Option (Option String)
    | .null => some none
    | v => v.text?.map some
  match v with
  | .object fields =>
    match Json.valuesOf "ID" fields with
    | [] => some none
    | [id] => given id
    | _ => none
  | .array [id] => given id
  | _ => none

/-- Where a solve puts its result. -/
structure SolveExport where
  kind : String
  attrs : List (String × String)
deriving Repr, DecidableEq

/-- A build that the daemon solves as a graph of steps. -/
structure SolveRequest where
  frontend : String
  frontendAttrs : List (String × String)
  /-- Directories on this side, by the names that the frontend knows them by. -/
  localDirs : List (String × String)
  exports : List SolveExport
  credentials : Registry.CredentialTable := []
  secrets : List (String × List UInt8) := []
deriving Repr, DecidableEq

/-- How far a vertex of the graph has come. -/
structure VertexStatus where
  digest : String
  name : String
  cached : Bool := false
  started : Bool := false
  completed : Bool := false
  current : Nat := 0
  total : Option Nat := none
  error : Option String := none
deriving Repr, DecidableEq

/-- Output of a vertex. -/
structure VertexLog where
  vertex : String
  message : String
deriving Repr, DecidableEq

/-- News of a solve. -/
structure SolveStatus where
  vertexes : List VertexStatus := []
  logs : List VertexLog := []
deriving Repr, DecidableEq

/-- What a solve answers in the end. -/
abbrev SolveResponse := List (String × String)

/-- A message of a push. -/
structure PushMessage where
  status : Option String := none
  progress : Option String := none
  error : Option String := none
deriving Repr, DecidableEq

structure ImageDetails where
  id : String
  size : Int
deriving Repr, DecidableEq

end ImageBuild
