import ImageBuild.IoError
import ImageBuild.Text.Blank
import ImageBuild.Text.Pieces
/-!
# The screen

A build reports events.  A screen writes a line for each event, or, where nobody watches it change,
only for those that are the last word on their subject.
-/

namespace ImageBuild

/-- How far a step of a build has come. -/
structure StepProgress where
  id : String
  name : String
  current : Nat := 0
  total : Option Nat := none
  cached : Bool := false
  error : Option String := none
deriving Repr, DecidableEq

inductive Subject where
  | text (line : String)
  | step (s : StepProgress)
deriving Repr, DecidableEq

/-- A piece of news about a subject. -/
structure Event where
  subject : Subject
  /-- Whether this is the last news of the subject. -/
  final : Bool
deriving Repr, DecidableEq

def Event.text (line : String) : Event := ⟨.text line, true⟩

/-- A line that another one will replace. -/
def Event.partialText (line : String) : Event := ⟨.text line, false⟩

def Event.step (s : StepProgress) (done : Bool) : Event := ⟨.step s, done⟩

namespace Screen

inductive Mode where
  /-- Every event is shown. -/
  | full
  /-- Only final events are shown. -/
  | finalOnly
deriving Repr, DecidableEq

/-- The styles that words are written in. -/
inductive Style where
  | red
  | green
  | cyan
  | boldRed
deriving Repr, DecidableEq

def Style.code : Style → String
  | .red => "31"
  | .green => "32"
  | .cyan => "36"
  | .boldRed => "1;31"

/-- A word in a style, on a screen that shows colors. -/
def paint (color : Bool) (style : Style) (word : String) : String :=
  if color then "\x1b[" ++ style.code ++ "m" ++ word ++ "\x1b[0m" else word

/-- The length of the short form of a digest. -/
def shortLength : Nat := 12

/-- The short form of a digest. -/
def shortDigest (digest : String) : String :=
  String.ofList ((Text.dropHeads "sha256:".toList digest.toList).take shortLength)

/-- The line of a step: an error is told before a hit in the cache, and that before the end. -/
def stepLine (color : Bool) (s : StepProgress) (done : Bool) : String :=
  let head := "#" ++ shortDigest s.id ++ " " ++ s.name
  match s.error with
  | some e => head ++ " " ++ paint color .boldRed "ERROR:" ++ " " ++ e
  | none =>
    if s.cached then head ++ " " ++ paint color .cyan "CACHED"
    else if done then head ++ " " ++ paint color .green "DONE"
    else
      match s.total with
      | some (total + 1) => head ++ " " ++ Nat.repr s.current ++ "/" ++ Nat.repr (total + 1)
      | _ => head

def dropLineEnds (s : String) : String :=
  String.ofList (Text.dropTailWhile (· = '\n') s.toList)

/-- The line of an event. -/
def eventLine (color : Bool) (e : Event) : String :=
  match e.subject with
  | .text line => dropLineEnds line
  | .step s => stepLine color s e.final

/-- The last line of a build: how it ended, and what there is to say about it. -/
def closingLine (color success : Bool) (message : String) : String :=
  let mark := if success then paint color .green "✓" else paint color .red "✗"
  mark ++ " " ++ message

end Screen

structure Screen where
  mode : Screen.Mode := .finalOnly
  color : Bool := false
  /-- What every attempt to write ends in, on a screen that has gone away. -/
  fault : Option IoError := none
deriving Repr, DecidableEq

namespace Screen

def shows (s : Screen) (e : Event) : Bool :=
  s.mode = .full || e.final

/-- Writes a line. -/
def write (s : Screen) (line : String) : Except IoError String :=
  match s.fault with
  | some fault => .error fault
  | none => .ok (line ++ "\n")

/-- What an event writes to the screen. -/
def render (s : Screen) (e : Event) : Except IoError String :=
  if s.shows e then s.write (eventLine s.color e) else .ok ""

/-- What the end of a build writes; nobody is told if this fails. -/
def close (s : Screen) (success : Bool) (message : String) : String :=
  (s.write (closingLine s.color success message)).toOption.getD ""

/-- Makes sure that everything is written. -/
def flush (s : Screen) : Except IoError String :=
  match s.fault with
  | some fault => .error fault
  | none => .ok ""

/-- The screen of a standard error stream that is no terminal. -/
def ofPlainStream : Screen where
  mode := .finalOnly

end Screen
end ImageBuild
