import ImageBuild.Text.Pieces
/-!
# The normal form of an ignore pattern

A pattern is written like a path, with slashes of either kind.  Its normal form is what is left after
every `.`, every empty step and every pair of a name and a `..` after it are taken out.
-/

namespace ImageBuild.Ignore

/-- Takes one step further from the steps taken so far, the latest of which comes first. -/
def pushStep (taken : List (List Char)) (piece : List Char) : List (List Char) :=
  if piece = [] ∨ piece = ['.'] then taken
  else if piece = ['.', '.'] then
    match taken with
    | [] => [piece]
    | latest :: before => if latest = ['.', '.'] then piece :: taken else before
  else piece :: taken

/-- The steps of a pattern in normal form. -/
def cleanSteps (cs : List Char) : List (List Char) :=
  let slashed := cs.map fun c => if c = '\\' then '/' else c
  ((slashed.splitOn '/').foldl pushStep []).reverse

/-- Writes steps with slashes between them; no steps at all are written as a dot. -/
def joinSteps (steps : List (List Char)) : List Char :=
  if steps = [] then ['.'] else ['/'].intercalate steps

/-- The normal form of a pattern. -/
def clean (cs : List Char) : List Char :=
  joinSteps (cleanSteps cs)

end ImageBuild.Ignore
