import ImageBuild.Solve.Session
/-!
# The parties of a session

In a session the daemon and the reader act in turns, in whatever order they get them, and at some moment
the caller may give up.  The daemon puts its news into a channel, which holds no more than one of them and
is closed when the daemon's part ends: with the response, with an error, or because the caller gave up.
A daemon that hangs has no end of its own.  The reader takes what is in the channel and shows it, whatever
became of what it showed before, until the channel is closed and empty.
-/

namespace ImageBuild.Solve

/-- Whoever acts next. -/
inductive Party where
  /-- The caller acts by giving up. -/
  | caller
  | daemon
  | reader
deriving Repr, DecidableEq

/-- What a session brings: the daemon's side of it, and how events fare on the screen. -/
structure Talk where
  news : List SolveStatus
  /-- How the daemon's part ends after its news, unless it hangs. -/
  ending : Option (Except BuildError SolveResponse)
  /-- Why an event cannot be shown after some others, if so. -/
  fault : List Event → Event → Option IoError

namespace Talk

/-- The first fault of events that are shown after some others. -/
def firstFault (talk : Talk) : List Event → List Event → Option IoError
  | _, [] => none
  | before, e :: rest => talk.fault before e <|> talk.firstFault (before ++ [e]) rest

/-- What comes of a session in which nobody gives up, if it ends. -/
def outcome? (talk : Talk) : Option (Except BuildError String) :=
  talk.ending.map fun ending => conclude ending (talk.firstFault [] (Display.takeAll {} talk.news))

end Talk

/-- How far a session has come. -/
structure Exchange where
  unsent : List SolveStatus
  sent : List SolveStatus := []
  /-- The news in the channel. -/
  held : Option SolveStatus := none
  /-- How the daemon's part ended; the channel is closed then. -/
  ended : Option (Except BuildError SolveResponse) := none
  /-- The caller has given up. -/
  cancelled : Bool := false
  /-- The daemon's part ended because the caller had given up. -/
  stopped : Bool := false
  /-- The news that the reader has taken. -/
  taken : List SolveStatus := []
  display : Display := {}
  shown : List Event := []
  fault : Option IoError := none
  /-- The reader has found the channel closed and empty. -/
  isOver : Bool := false

namespace Exchange

/-- A turn of the daemon.  It notices first whether the caller has given up, and waits while the channel
is full. -/
def send (talk : Talk) (x : Exchange) : Exchange :=
  if x.ended.isSome then x
  else if x.cancelled then { x with ended := some (.error .cancelled), stopped := true }
  else
    match x.unsent, x.held with
    | [], _ => { x with ended := talk.ending }
    | s :: rest, none => { x with unsent := rest, sent := x.sent ++ [s], held := some s }
    | _ :: _, some _ => x

/-- A turn of the reader, who waits while the channel is open and empty. -/
def read (talk : Talk) (x : Exchange) : Exchange :=
  match x.held with
  | none => { x with isOver := x.ended.isSome }
  | some s =>
    let (display, events) := x.display.take s
    { x with
      held := none
      taken := x.taken ++ [s]
      display
      shown := x.shown ++ events
      fault := x.fault <|> talk.firstFault x.shown events }

def act (talk : Talk) (x : Exchange) : Party → Exchange
  | .caller => { x with cancelled := true }
  | .daemon => x.send talk
  | .reader => x.read talk

/-- What comes of a session that is over. -/
def result? (x : Exchange) : Option (Except BuildError String) :=
  if x.isOver then x.ended.map fun ending => conclude ending x.fault else none

end Exchange

/-- How far a session has come after some turns. -/
def Talk.play (talk : Talk) (turns : List Party) : Exchange :=
  turns.foldl (Exchange.act talk) { unsent := talk.news }

end ImageBuild.Solve
