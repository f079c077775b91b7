import ImageBuild.Json.Numeral
import ImageBuild.Json.Quoted
/-!
# Skipping JSON

A value that nobody asks for is skipped.  Its form is checked, but containers may nest to any depth, so
the containers that are open stand on a stack, the innermost first.
-/

namespace ImageBuild.Json

/-- A container that is open. -/
inductive Bracket where
  | array
  | object
deriving Repr, DecidableEq

namespace Bracket

def ofChar? (c : Char) : Option Bracket :=
  if c = '[' then some array else if c = '\x7b' then some object else none

def close : Bracket → Char
  | array => ']'
  | object => '\x7d'

/-- Skips what stands in front of a value in this container: in an object, a key and a colon. -/
def skipKey (b : Bracket) (cs : List Char) : Except Fault (List Char) :=
  match b with
  | array => .ok cs
  | object =>
    match skipSpace cs with
    | '"' :: rest => (skipString rest).bind colon
    | rest => .error (faultAt rest)

end Bracket

/-- Skips a value that is no container. -/
def skipScalar (cs : List Char) : Except Fault (List Char) :=
  let word (letters : String) (rest : List Char) : Except Fault (List Char) :=
    (literal letters.toList () rest).map Prod.snd
  match cs with
  | [] => .error .unfinished
  | '"' :: rest => skipString rest
  | 'n' :: rest => word "ull" rest
  | 't' :: rest => word "rue" rest
  | 'f' :: rest => word "alse" rest
  | '-' :: rest => Numeral.skip rest
  | c :: rest => if c.isDigit then Numeral.skip (c :: rest) else .error .malformed

/-- Skips what follows a value: the brackets that close, and the comma after them, unless everything
is closed.  Answers what is still open. -/
def leave : List Bracket → List Char → Except Fault (List Bracket × List Char)
  | [], cs => .ok ([], cs)
  | b :: opened, cs =>
    match skipSpace cs with
    | [] => .error .unfinished
    | c :: rest =>
      if c = b.close then leave opened rest
      else if c = ',' then .ok (b :: opened, rest)
      else .error .malformed

/-- Skips a value and all that follows it in the containers that are open; each value in it takes at
least one character of `fuel`. -/
def skipFrom (fuel : Nat) (opened : List Bracket) (cs : List Char) : Except Fault (List Char) :=
  match fuel, skipSpace cs with
  | 0, _ => .error .unfinished
  | _, [] => .error .unfinished
  | fuel + 1, c :: rest =>
    let next (after : List Char) : Except Fault (List Char) :=
      match leave opened after with
      | .error f => .error f
      | .ok ([], after) => .ok after
      | .ok (b :: opened, after) =>
        match b.skipKey after with
        | .error f => .error f
        | .ok after => skipFrom fuel (b :: opened) after
    match Bracket.ofChar? c with
    | some b =>
      match skipSpace rest with
      | [] => .error .unfinished
      | d :: after =>
        if d = b.close then next after
        else
          match b.skipKey (d :: after) with
          | .error f => .error f
          | .ok inner => skipFrom fuel (b :: opened) inner
    | none =>
      match skipScalar (c :: rest) with
      | .error f => .error f
      | .ok after => next after

/-- Skips one value. -/
def skipValue (fuel : Nat) (cs : List Char) : Except Fault (List Char) :=
  skipFrom fuel [] cs

end ImageBuild.Json
