/-!
# Glob patterns

A pattern is a list of tokens, matched against a path from end to end.  No token but a written slash
and `anyDepth` matches a slash.
-/

namespace ImageBuild.Glob

/-- A member of a bracket expression. -/
inductive Specifier where
  | single (c : Char)
  | range (lo hi : Char)
deriving Repr, DecidableEq

def Specifier.admits (c : Char) : Specifier → Bool
  | .single d => c = d
  | .range lo hi => lo ≤ c && c ≤ hi

inductive Token where
  | char (c : Char)
  /-- `?`: one character. -/
  | anyChar
  /-- `*`: any characters of one step of the path. -/
  | anySequence
  /-- `**`: any steps of the path, with the slash after the last of them. -/
  | anyDepth
  /-- `[…]` -/
  | within (specifiers : List Specifier)
  /-- `[!…]` -/
  | except (specifiers : List Specifier)
deriving Repr, DecidableEq

/-- Whether a token that stands for one character admits `c`. -/
def Token.admits (c : Char) : Token → Bool
  | .char d => c = d
  | .anyChar => c ≠ '/'
  | .within specifiers => c ≠ '/' && specifiers.any (·.admits c)
  | .except specifiers => c ≠ '/' && !specifiers.any (·.admits c)
  | .anySequence => false
  | .anyDepth => false

/-- Whether `next` holds of what is left after some characters of the current step. -/
def afterSequence (next : List Char → Bool) : List Char → Bool
  | [] => next []
  | c :: cs => next (c :: cs) || (c ≠ '/' && afterSequence next cs)

/-- Whether `next` holds of what is left after some slash, or of the empty rest. -/
def afterSteps (next : List Char → Bool) : List Char → Bool
  | [] => next []
  | c :: cs => (c = '/' && next cs) || afterSteps next cs

/-- Whether the tokens match all of a path. -/
def matchTokens : List Token → List Char → Bool
  | [], path => path.isEmpty
  | .anySequence :: ts, path => afterSequence (matchTokens ts) path
  | .anyDepth :: ts, path => matchTokens ts path || afterSteps (matchTokens ts) path
  | _ :: _, [] => false
  | t :: ts, c :: path => t.admits c && matchTokens ts path

/-- The characters that are not matched by themselves. -/
def isWildcard (c : Char) : Bool :=
  c = '*' || c = '?' || c = '['

/-- The characters of a pattern in front of its first wildcard. -/
def literalHead (source : List Char) : List Char :=
  source.takeWhile fun c => !isWildcard c

end ImageBuild.Glob
