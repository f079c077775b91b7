import ImageBuild.Capability
import ImageBuild.Daemon.Basic
import ImageBuild.Recorder
import ImageBuild.Screen
/-!
# The stage of a build

A build acts on a stage: a clock, a caller who may give up at some moment, a daemon, a screen, an encoder
for what is sent compressed, and a journal of everything that was done.  Waiting moves the clock and
nothing else does.  A wait is watched for the caller, for a deadline, for both or for neither, and of all
that could end it the earliest does; at one moment the wait itself goes before its deadline, and both
before the caller.

The caller acts only while the build waits.  A wait for no time ends at once, and so do many of them in a
row, but not for ever: after a turn of `Stage.turn` waits at one moment others act.
-/

namespace ImageBuild

/-- How a step of a build came out. -/
inductive Report where
  | ping (result : Except BuildError Unit)
  | probe (result : Except BuildError Capability)
  | info (result : Except BuildError DaemonInfo)
  /-- The classic build or the solve, with the id of its image. -/
  | driver (result : Except BuildError String)
  | push (result : Except BuildError Unit)

/-- A line of the journal. -/
inductive Entry where
  | called (moment : Nat) (c : Call)
  | shown (e : Event)
  | closed (success : Bool) (message : String)
  | marked (m : Mark)
  /-- An attempt to push failed, and there will be another one. -/
  | retried (attempt : Nat) (e : BuildError)
  | reported (r : Report)

/-- Where a build takes place; `σ` is the state of the daemon. -/
structure Stage (σ : Type) where
  /-- Milliseconds since the beginning. -/
  now : Nat := 0
  /-- The moment at which the caller gives up, if that is settled. -/
  cancelAt : Option Nat := none
  /-- Whether the caller has given up already. -/
  cancelled : Bool := false
  /-- How many waits have ended in this turn. -/
  waits : Nat := 0
  screen : Screen := {}
  /-- What is written of an archive that is sent compressed.  Which encoder it is makes no difference to the
  rules of a build. -/
  encode : Archive.Encoder := Archive.plain
  daemon : σ
  /-- What was done, the latest first. -/
  journal : List Entry := []

/-- Why an action ends before its end. -/
inductive Halt where
  | failed (e : BuildError)
  /-- A deadline has passed. -/
  | overdue
  /-- The action waits for something that never comes. -/
  | forever

/-- An action on a stage. -/
abbrev Act (σ : Type) (α : Type) := ExceptT Halt (StateM (Stage σ)) α

/-- What ends a wait early. -/
structure Watch where
  /-- The caller, by giving up. -/
  caller : Bool := false
  deadline : Option Nat := none
deriving Repr, DecidableEq

namespace Watch

/-- Nothing ends the wait early. -/
def none : Watch := {}

def forCaller : Watch := { caller := true }

end Watch

/-- The earlier of two moments, either of which may never come. -/
def earlier? : Option Nat → Option Nat → Option Nat
  | some a, some b => some (min a b)
  | some a, none => some a
  | none, b => b

namespace Stage

variable {σ : Type}

/-- How many waits end in one turn. -/
def turn : Nat := 128

/-- What was done, in order. -/
def entries (s : Stage σ) : List Entry :=
  s.journal.reverse

/-- Whether the caller is known to have given up. -/
def isCancelled (s : Stage σ) : Bool :=
  s.cancelled || s.cancelAt.any (· < s.now)

/-- The moment at which the caller gives up on a wait that ends at `limit` otherwise; a wait that ends at
once leaves the caller no time. -/
def cancelMoment? (s : Stage σ) (limit : Option Nat) : Option Nat :=
  if !limit.all (s.now < ·) then none
  else if s.cancelled then some s.now
  else (s.cancelAt.filter fun c => limit.all (c < ·)).map (max s.now)

end Stage

namespace Entry

def call? : Entry → Option (Nat × Call)
  | called moment c => some (moment, c)
  | _ => none

def mark? : Entry → Option Mark
  | marked m => some m
  | _ => none

def retry? : Entry → Option (Nat × BuildError)
  | retried attempt e => some (attempt, e)
  | _ => none

/-- What an entry has written to a screen. -/
def written (screen : Screen) : Entry → String
  | shown e => (screen.render e).toOption.getD ""
  | closed success message => screen.close success message
  | _ => ""

end Entry

namespace Stage

variable {σ : Type}

def calls (s : Stage σ) : List (Nat × Call) :=
  s.entries.filterMap Entry.call?

def retries (s : Stage σ) : List (Nat × BuildError) :=
  s.entries.filterMap Entry.retry?

/-- The record of the phases. -/
def recorder (s : Stage σ) : Recorder :=
  Recorder.ofMarks (s.entries.filterMap Entry.mark?)

/-- All that was written to the screen. -/
def output (s : Stage σ) : String :=
  String.join (s.entries.map (Entry.written s.screen))

end Stage

namespace Act

variable {σ α : Type}

/-- Writes a line into the journal. -/
def note (e : Entry) : Act σ Unit :=
  modify fun s => { s with journal := e :: s.journal }

def fail (e : BuildError) : Act σ α :=
  throw (.failed e)

def ofExcept : Except BuildError α → Act σ α
  | .ok a => pure a
  | .error e => fail e

/-- The caller gives up. -/
def cancel : Act σ Unit :=
  modify fun s => { s with cancelled := true }

/-- Ends the turn: others act for a moment.  A deadline that is reached goes before the caller. -/
def giveWay (w : Watch) : Act σ Unit := do
  let s ← get
  let cancelled := s.cancelled || s.cancelAt.any (· ≤ s.now)
  set { s with cancelled, waits := 0 }
  if w.deadline.any (· ≤ s.now) then throw .overdue
  if w.caller && cancelled then fail .cancelled

/-- Ends the turn if there were enough waits in it. -/
def takeTurns (w : Watch) : Act σ Unit := do
  if Stage.turn ≤ (← get).waits then giveWay w

/-- Goes on only if the caller has not given up. -/
def checkCaller : Act σ Unit := do
  takeTurns .forCaller
  if (← get).isCancelled then fail .cancelled

/-- Waits until a moment, or for ever. -/
def waitUntil (w : Watch) (moment : Option Nat) : Act σ Unit := do
  let s ← get
  let limit := earlier? moment w.deadline
  let interruption := if w.caller then s.cancelMoment? limit else none
  match interruption, limit with
  | some t, _ =>
    set { s with now := t, waits := 0 }
    fail .cancelled
  | none, none => throw .forever
  | none, some t =>
    set { s with now := max s.now t, waits := (if s.now < t then 0 else s.waits) + 1 }
    if moment.all (t < ·) then throw .overdue

/-- Waits for some time. -/
def wait (w : Watch) (delay : Nat) : Act σ Unit := do
  takeTurns w
  waitUntil w (some ((← get).now + delay))

/-- Hands things over or takes them, `count` of them, where nobody keeps anybody waiting: each counts as a
wait that ends at once. -/
def exchange (count : Nat) : Act σ Unit :=
  modify fun s => { s with waits := s.waits + count }

/-- Lets happen what comes before something arrives. -/
def follow (w : Watch) (p : Pace) : Act σ Unit := do
  match p.delay with
  | some delay => wait w delay
  | none => pure ()
  if p.cancels then cancel
  if p.hangs then waitUntil w none

/-- Calls the daemon. -/
def call (entry : α → Call) (f : σ → α × σ) : Act σ α := do
  let s ← get
  let (reply, daemon) := f s.daemon
  set { s with daemon, journal := .called s.now (entry reply) :: s.journal }
  return reply

/-- Waits for a reply. -/
def receive (w : Watch) (r : Reply α) : Act σ α := do
  follow w r.pace
  ofExcept r.result

/-- Calls the daemon and waits for its reply. -/
def ask (w : Watch) (c : Call) (f : σ → Reply α × σ) : Act σ α := do
  receive w (← call (fun _ => c) f)

/-- Gives an action some time, unless the caller has given up. -/
def within (timeout : Nat) (act : Watch → Act σ α) : Act σ α := do
  checkCaller
  let deadline := (← get).now + timeout
  tryCatch (act { caller := true, deadline := some deadline }) fun
    | .overdue => fail (.buildFailed ("timed out after " ++ Nat.repr timeout ++ "ms"))
    | h => throw h

/-- The outcome of an action, errors included. -/
def attempt (act : Act σ α) : Act σ (Except BuildError α) :=
  tryCatch (Except.ok <$> act) fun
    | .failed e => pure (.error e)
    | h => throw h

/-- Writes into the journal how an action came out. -/
def reporting (report : Except BuildError α → Report) (act : Act σ α) : Act σ α := do
  let result ← attempt act
  note (.reported (report result))
  ofExcept result

/-- Names the phase of the errors of an action. -/
def inPhase (p : Phase) (act : Act σ α) : Act σ α :=
  tryCatch act fun
    | .failed e => fail (e.inPhase p)
    | h => throw h

/-- Shows an event, and answers why it cannot be shown if so. -/
def display (e : Event) : Act σ (Option IoError) := do
  note (.shown e)
  match (← get).screen.render e with
  | .ok _ => return none
  | .error fault => return some fault

/-- Shows an event to whoever is there to see it. -/
def announce (e : Event) : Act σ Unit := do
  let _ ← display e

/-- Starts a phase, and answers its ticket. -/
def start (p : Phase) : Act σ Nat := do
  let ticket := (← get).recorder.starts
  note (.marked (.start p))
  return ticket

def finish (ticket : Nat) : Act σ Unit :=
  note (.marked (.finish ticket))

/-- Finishes a phase when an action is over, in whatever way it ends. -/
def closing (ticket : Nat) (act : Act σ α) : Act σ α := do
  let result ← attempt act
  finish ticket
  ofExcept result

/-- The whole of a phase. -/
def during (p : Phase) (act : Act σ α) : Act σ α := do
  closing (← start p) act

end Act
end ImageBuild
