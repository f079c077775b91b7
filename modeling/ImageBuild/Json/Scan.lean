import ImageBuild.Json.Basic
/-!
# Scanning JSON

What all readers of JSON share: the faults of a text, the blanks between its parts, and the parts that
are read character by character.
-/

namespace ImageBuild.Json

/-- Why a text is not read as a value. -/
inductive Fault where
  /-- The text ends inside the value. -/
  | unfinished
  /-- A character stands where none like it may stand. -/
  | malformed
  /-- There is a value, but not one of the shape that is asked for. -/
  | mismatch
deriving Repr, DecidableEq

/-- A part of a text that was read, and the characters after it. -/
abbrev Parsed (α : Type) := Except Fault (α × List Char)

def isSpace (c : Char) : Bool :=
  c = ' ' || c = '\n' || c = '\t' || c = '\r'

def skipSpace (cs : List Char) : List Char :=
  cs.dropWhile isSpace

/-- The fault of a text that goes on with `cs` where something else had to stand. -/
def faultAt (cs : List Char) : Fault :=
  if cs.isEmpty then .unfinished else .malformed

/-- Reads `word` off the front. -/
def literal {α : Type} (word : List Char) (a : α) (cs : List Char) : Parsed α :=
  match word, cs with
  | [], cs => .ok (a, cs)
  | _ :: _, [] => .error .unfinished
  | w :: ws, c :: cs => if w = c then literal ws a cs else .error .malformed

/-- Reads the colon between a key and its value. -/
def colon (cs : List Char) : Except Fault (List Char) :=
  match skipSpace cs with
  | ':' :: rest => .ok rest
  | rest => .error (faultAt rest)

/-- Reads members of a container and its closing bracket.  Each member changes a state, and takes at
least one character of `fuel`. -/
def members {σ : Type} (close : Char) (member : σ → List Char → Parsed σ) :
    Nat → σ → List Char → Except Fault (σ × List Char)
  | 0, _, _ => .error .unfinished
  | fuel + 1, s, cs => do
    let (s, rest) ← member s cs
    match skipSpace rest with
    | ',' :: rest =>
      let rest := skipSpace rest
      if rest.head? = some close then throw .malformed
      members close member fuel s rest
    | c :: rest => if c = close then return (s, rest) else throw .malformed
    | [] => throw .unfinished

/-- Reads what follows the opening bracket of a container, which may be empty. -/
def container {σ : Type} (close : Char) (member : σ → List Char → Parsed σ) (fuel : Nat) (s : σ)
    (cs : List Char) : Parsed σ :=
  match skipSpace cs with
  | [] => .error .unfinished
  | c :: rest => if c = close then .ok (s, rest) else members close member fuel s (c :: rest)

end ImageBuild.Json
