import ImageBuild.Glob.Basic
/-!
# Reading glob patterns

The tokens are collected from left to right, the latest first, since a `**` right after a `**` adds
nothing.  Faults tell the position of a character in the pattern.
-/

namespace ImageBuild.Glob

inductive Fault where
  /-- More than two stars in a row. -/
  | wildcards (position : Nat)
  /-- Two stars that are not a whole step of the path. -/
  | partialStep (position : Nat)
  /-- A bracket without its partner, or with nothing inside. -/
  | bracket (position : Nat)
deriving Repr, DecidableEq

def Fault.position : Fault → Nat
  | .wildcards p => p
  | .partialStep p => p
  | .bracket p => p

def Fault.reason : Fault → String
  | .wildcards _ => "wildcards are either regular `*` or recursive `**`"
  | .partialStep _ => "recursive wildcards must form a single path component"
  | .bracket _ => "invalid range pattern"

def Fault.message (f : Fault) : String :=
  "Pattern syntax error near position " ++ Nat.repr f.position ++ ": " ++ f.reason

/-- The members of a bracket expression: three characters with a hyphen in the middle are a range. -/
def specifiers : List Char → List Specifier
  | lo :: '-' :: hi :: rest => .range lo hi :: specifiers rest
  | c :: rest => .single c :: specifiers rest
  | [] => []

/-- The bracket expression after an opening bracket, and the characters after the closing one.  The
first member may be a closing bracket. -/
def bracket? (cs : List Char) : Option (Token × List Char) :=
  match cs with
  | '!' :: c :: rest =>
    if rest.contains ']' then
      some (.except (specifiers (c :: rest.takeWhile (· ≠ ']'))),
        (rest.dropWhile (· ≠ ']')).drop 1)
    else none
  | '!' :: [] => none
  | c :: rest =>
    if rest.contains ']' then
      some (.within (specifiers (c :: rest.takeWhile (· ≠ ']'))),
        (rest.dropWhile (· ≠ ']')).drop 1)
    else none
  | [] => none

/-- Puts a `**` in front of the tokens read so far, unless it would repeat the one there. -/
def pushDepth (read : List Token) : List Token :=
  if read.length > 1 ∧ read.head? = some .anyDepth then read else .anyDepth :: read

/-- Reads on at `position`, right after the character `before`. -/
def parseFrom (fuel position : Nat) (before : Option Char) (read : List Token)
    (cs : List Char) : Except Fault (List Token) :=
  match fuel, cs with
  | _, [] => .ok read.reverse
  | 0, _ => .ok read.reverse
  | fuel + 1, '?' :: rest => parseFrom fuel (position + 1) (some '?') (.anyChar :: read) rest
  | _ + 1, '*' :: '*' :: '*' :: _ => .error (.wildcards (position + 2))
  | fuel + 1, '*' :: '*' :: rest =>
    if position = 0 ∨ before = some '/' then
      match rest with
      | [] => .ok (pushDepth read).reverse
      | '/' :: rest => parseFrom fuel (position + 3) (some '/') (pushDepth read) rest
      | _ => .error (.partialStep (position + 2))
    else .error (.partialStep (position - 1))
  | fuel + 1, '*' :: rest => parseFrom fuel (position + 1) (some '*') (.anySequence :: read) rest
  | fuel + 1, '[' :: rest =>
    match bracket? rest with
    | some (token, after) =>
      parseFrom fuel (position + 1 + (rest.length - after.length)) (some ']') (token :: read) after
    | none => .error (.bracket position)
  | fuel + 1, c :: rest => parseFrom fuel (position + 1) (some c) (.char c :: read) rest

/-- The tokens of a pattern; each of them takes at least one character of it. -/
def tokensOf (source : List Char) : Except Fault (List Token) :=
  parseFrom source.length 0 none [] source

/-- A pattern: a text, and the tokens that are read from it. -/
structure Pattern where
  source : List Char
  tokens : List Token
  read : tokensOf source = .ok tokens
deriving Repr, DecidableEq

/-- Reads a pattern. -/
def parse (source : List Char) : Except Fault Pattern :=
  match h : tokensOf source with
  | .ok tokens => .ok ⟨source, tokens, h⟩
  | .error fault => .error fault

namespace Pattern

/-- The characters in front of the first wildcard. -/
def literalHead (p : Pattern) : List Char :=
  Glob.literalHead p.source

def hasWildcard (p : Pattern) : Bool :=
  p.source.any isWildcard

end Pattern
end ImageBuild.Glob
