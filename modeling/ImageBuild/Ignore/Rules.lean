import ImageBuild.Glob.Matching
import ImageBuild.Ignore.Clean
/-!
# Ignore rules

An ignore file lists patterns, one on a line.  A path is ignored if the last pattern that matches it,
or a directory it lies in, is not negated.  `mayReincludeUnder` tells from the patterns alone whether
something below an ignored directory could still be wanted.
-/

namespace ImageBuild.Ignore

/-- A line of an ignore file. -/
structure Rule where
  pattern : Glob.Pattern
  /-- The line begins with `!`: what it matches is wanted after all. -/
  negated : Bool
deriving Repr, DecidableEq

abbrev Rules := List Rule

/-- A line whose pattern is no glob. -/
structure Fault where
  line : List Char
  fault : Glob.Fault
deriving Repr, DecidableEq

def Fault.message (f : Fault) : String :=
  "Invalid ignore pattern '" ++ String.ofList f.line ++ "': " ++ f.fault.message

/-- The rule in its normal form. -/
def Rule.text (r : Rule) : String :=
  String.ofList (if r.negated then '!' :: r.pattern.source else r.pattern.source)

/-- Whether a line is negated, and what it says beside that. -/
def splitNegation (line : List Char) : Bool × List Char :=
  match line with
  | '!' :: rest => (true, Text.trimChars rest)
  | line => (false, line)

def Rule.ofLine (line : List Char) : Except Fault Rule :=
  let (negated, body) := splitNegation line
  match Glob.parse (clean body) with
  | .ok pattern => .ok ⟨pattern, negated⟩
  | .error fault => .error ⟨line, fault⟩

/-- The rules of an ignore file: a line that begins with `#` is a comment, and blanks around a line
do not count. -/
def Rules.parse (content : String) : Except Fault Rules :=
  let wanted := (Text.linesOfChars content.toList).filter fun line => line.head? ≠ some '#'
  ((wanted.map Text.trimChars).filter fun line => !line.isEmpty).mapM Rule.ofLine

/-- The rules in their normal form, in order. -/
def Rules.texts (rules : Rules) : List String :=
  rules.map Rule.text

/-- A path as the rules see it, without `./` in front and slashes around it. -/
def trimPath (path : List Char) : List Char :=
  Text.dropTailWhile (· = '/') ((Text.dropHeads ['.', '/'] path).dropWhile (· = '/'))

/-- A path and every directory it lies in, from the outermost on. -/
def selfAndParents (path : List Char) : List (List Char) :=
  let pieces := path.splitOn '/'
  (List.range pieces.length).map fun n => ['/'].intercalate (pieces.take (n + 1))

def Rule.covers (r : Rule) (path : List Char) : Bool :=
  (selfAndParents path).any r.pattern.admits

/-- The verdict of the rules after an earlier verdict: the last rule that covers the path decides. -/
def verdict (path : List Char) (earlier : Bool) (rules : Rules) : Bool :=
  rules.foldl (fun ignored r => if r.covers path then !r.negated else ignored) earlier

/-- Whether a path, written with slashes and relative to the tree, is ignored.  The tree itself never
is. -/
def Rules.isIgnored (rules : Rules) (path : String) : Bool :=
  let path := trimPath path.toList
  !path.isEmpty && verdict path false rules

/-- Whether a negated rule could match something below the directory `dir/`, judged by the characters
before its first wildcard. -/
def Rule.mayReach (r : Rule) (dir : List Char) : Bool :=
  let literal := r.pattern.literalHead
  if r.pattern.hasWildcard then dir.isPrefixOf literal || literal.isPrefixOf dir
  else dir.isPrefixOf r.pattern.source

/-- Whether something below an ignored directory could be wanted.  If not, the directory need not be
looked at. -/
def Rules.mayReincludeUnder (rules : Rules) (dir : String) : Bool :=
  let dir := trimPath dir.toList ++ ['/']
  rules.any fun r => r.negated && r.mayReach dir

end ImageBuild.Ignore
