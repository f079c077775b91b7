import ImageBuild.Daemon.Message
import ImageBuild.Screen
import ImageBuild.Text.Pieces
/-!
# Showing a solve

News of a solve become events.  A vertex is shown under the first name that it was given, and no more
after it is done; what it prints is shown in any case.
-/

namespace ImageBuild.Solve

structure Display where
  /-- The first name of each vertex. -/
  names : List (String × String) := []
  /-- The vertexes that are done. -/
  done : List String := []
deriving Repr, DecidableEq

namespace Display

def name? (d : Display) (digest : String) : Option String :=
  (d.names.find? fun e => e.1 == digest).map Prod.snd

/-- Remembers the name of a vertex, unless it has one or is given none. -/
def learn (d : Display) (v : VertexStatus) : Display :=
  if v.name ≠ "" ∧ d.name? v.digest = none then
    { d with names := d.names ++ [(v.digest, v.name)] }
  else d

end Display

/-- Whether nothing more will come of a vertex. -/
def isDone (v : VertexStatus) : Bool :=
  v.completed || v.cached || v.error.isSome

namespace Display

/-- The step of a vertex under its name. -/
def step (d : Display) (v : VertexStatus) : StepProgress where
  id := v.digest
  name := (d.name? v.digest).getD v.name
  current := v.current
  total := v.total
  cached := v.cached
  error := v.error

/-- Takes news of a vertex. -/
def heed (d : Display) (v : VertexStatus) : Display × Option Event :=
  let d := d.learn v
  if d.done.contains v.digest then (d, none)
  else
    let event := Event.step (d.step v) (isDone v)
    (if isDone v then { d with done := v.digest :: d.done } else d, some event)

/-- Takes news of some vertexes, in order. -/
def heedAll (d : Display) : List VertexStatus → Display × List Event
  | [] => (d, [])
  | v :: rest =>
    let (d, event) := d.heed v
    let (d, events) := heedAll d rest
    (d, event.toList ++ events)

end Display

/-- The lines that a vertex printed. -/
def logEvents (log : VertexLog) : List Event :=
  (Text.nonBlankLines log.message).map fun line =>
    Event.text ("#" ++ Screen.shortDigest log.vertex ++ " " ++ line)

/-- Takes news of a solve. -/
def Display.take (d : Display) (s : SolveStatus) : Display × List Event :=
  let (d, events) := d.heedAll s.vertexes
  (d, events ++ s.logs.flatMap logEvents)

/-- The events of all news that are sent, in order. -/
def Display.takeAll (d : Display) : List SolveStatus → List Event
  | [] => []
  | s :: rest =>
    let (d, events) := d.take s
    events ++ takeAll d rest

end ImageBuild.Solve
