import ImageBuild.Text.Blank
/-!
# Pieces of a text

Lines, pieces between separators, and heads that are cut off.  A text is a list of characters here;
`lines` is the view of a text as the lines a reader sees.
-/

namespace ImageBuild.Text

/-- The pieces of `s` between the occurrences of `sep`; never the empty list. -/
def piecesOf (sep : Char) (s : String) : List String :=
  (s.toList.splitOn sep).map String.ofList

/-- Writes `sep` between the pieces. -/
def joinWith (sep : String) (pieces : List String) : String :=
  String.intercalate sep pieces

/-- A line feed ends a line, and a carriage return right before it belongs to the ending. -/
def closedLine (cs : List Char) : List Char :=
  if cs.getLast? = some '\r' then cs.dropLast else cs

/-- The lines of a text whose pieces between line feeds are given: every piece but the last was
closed by a line feed, and an empty last piece is no line. -/
def linesOfPieces : List (List Char) → List (List Char)
  | [] => []
  | [last] => if last.isEmpty then [] else [last]
  | piece :: rest => closedLine piece :: linesOfPieces rest

def linesOfChars (cs : List Char) : List (List Char) :=
  linesOfPieces (cs.splitOn '\n')

def lines (s : String) : List String :=
  (linesOfChars s.toList).map String.ofList

/-- The lines that hold more than blanks. -/
def nonBlankLines (s : String) : List String :=
  (lines s).filter fun line => !isBlankText line

/-- The part of a list after `head`, if the list begins with it. -/
def afterHead? {α : Type} [BEq α] (head xs : List α) : Option (List α) :=
  if head.isPrefixOf xs then some (xs.drop head.length) else none

/-- Cuts `head` off as often as the list begins with it; an empty `head` cuts nothing. -/
def dropHeads (head xs : List Char) : List Char :=
  if _h : head ≠ [] ∧ head.isPrefixOf xs then dropHeads head (xs.drop head.length) else xs
termination_by xs.length
decreasing_by
  have hlen := ( List.isPrefixOf_iff_prefix.1 _h.2).length_le
  have hpos := List.length_pos_iff.2 _h.1
  simp only [List.length_drop]
  omega

/-- The text after `head`, if it begins with it. -/
def afterHead (head s : String) : Option String :=
  (afterHead? head.toList s.toList).map String.ofList

/-- The two parts of a list around its first `x`. -/
def splitOnce {α : Type} [BEq α] (x : α) (xs : List α) : Option (List α × List α) :=
  match xs.dropWhile (· != x) with
  | [] => none
  | _ :: back => some (xs.takeWhile (· != x), back)

/-- Nothing but one `x` is lost. -/
theorem length_of_splitOnce {α : Type} [BEq α] {x : α} {xs front back : List α}
    (h : splitOnce x xs = some (front, back)) : front.length + back.length + 1 = xs.length := by
  have hlen := congrArg List.length (List.takeWhile_append_dropWhile (p := (· != x)) (l := xs))
  rw [splitOnce] at h
  split at h
  · cases h
  · rename_i heq
    cases h
    rw [List.length_append, heq, List.length_cons] at hlen
    omega

/-- Whether `part` occurs in `xs` as consecutive members. -/
def occursIn {α : Type} [BEq α] (part : List α) : List α → Bool
  | [] => part.isEmpty
  | x :: xs => part.isPrefixOf (x :: xs) || occursIn part xs

/-- Whether the text `part` occurs within `s`. -/
def hasPart (part s : String) : Bool :=
  occursIn part.toList s.toList

end ImageBuild.Text
