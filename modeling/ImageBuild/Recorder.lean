import ImageBuild.Phase
/-!
# The record of a build

A recorder is told when phases start and finish, and keeps them in the order in which they started.
Each start hands out a number, the ticket of the phase, and it is the ticket that finishes it: the
phases may overlap, and one phase may run more than once.
-/

namespace ImageBuild

/-- What is known of the builder. -/
structure BuilderMeta where
  usesBuildKit : Bool
  remote : Bool
  serverVersion : String
  /-- Operating system, architecture and version of the system. -/
  platform : String
deriving Repr, DecidableEq

/-- Something that a recorder is told. -/
inductive Mark where
  | start (p : Phase)
  /-- The phase with a ticket is over. -/
  | finish (ticket : Nat)
  | describe (m : BuilderMeta)
deriving Repr, DecidableEq

/-- A phase that was started. -/
structure Timing where
  phase : Phase
  finished : Bool
deriving Repr, DecidableEq

structure Recorder where
  timings : List Timing := []
  finishes : Nat := 0
  builder : Option BuilderMeta := none
deriving Repr, DecidableEq

namespace Recorder

/-- The number of phases started, which is the ticket of the next one. -/
def starts (r : Recorder) : Nat := r.timings.length

def start (r : Recorder) (p : Phase) : Recorder :=
  { r with timings := r.timings ++ [⟨p, false⟩] }

/-- Whether the phase with a ticket was started and is not over. -/
def isOpen (r : Recorder) (ticket : Nat) : Bool :=
  r.timings[ticket]?.any fun t => !t.finished

/-- Finishes the phase with a ticket; a ticket is good for one time only. -/
def finish (r : Recorder) (ticket : Nat) : Recorder :=
  if r.isOpen ticket then
    { r with
      finishes := r.finishes + 1
      timings := r.timings.modify ticket fun t => { t with finished := true } }
  else r

def describe (r : Recorder) (m : BuilderMeta) : Recorder :=
  { r with builder := some m }

def apply (r : Recorder) : Mark → Recorder
  | .start p => r.start p
  | .finish ticket => r.finish ticket
  | .describe m => r.describe m

/-- The record that marks lead to. -/
def ofMarks (marks : List Mark) : Recorder :=
  marks.foldl apply {}

/-- The phases that are not over, in the order in which they started. -/
def openPhases (r : Recorder) : List Phase :=
  (r.timings.filter fun t => !t.finished).map Timing.phase

/-- The earliest run of a phase. -/
def timing? (r : Recorder) (p : Phase) : Option Timing :=
  r.timings.find? fun t => t.phase == p

/-- The ticket of the earliest run of a phase. -/
def ticket? (r : Recorder) (p : Phase) : Option Nat :=
  r.timings.findIdx? fun t => t.phase == p

end Recorder
end ImageBuild
