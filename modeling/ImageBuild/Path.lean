import ImageBuild.Text.Pieces
/-!
# Paths

A path is the text its user wrote: `Path.components` reads the text, and nothing here looks at a file
system.  `lexical` resolves `.` and `..` by name alone, and `relativeTo` compares two paths resolved
so, component by component.
-/

namespace ImageBuild

/-- A path as it was written. -/
structure Path where
  text : String
deriving Repr, DecidableEq, Inhabited

namespace Path

/-- One step of a path. -/
inductive Component where
  /-- The root of the file system, in front of an absolute path. -/
  | root
  /-- A `.` at the front of a relative path; anywhere else a `.` is no step. -/
  | here
  /-- A `..`. -/
  | up
  | name (s : List Char)
deriving Repr, DecidableEq

def Component.chars : Component → List Char
  | .root => ['/']
  | .here => ['.']
  | .up => ['.', '.']
  | .name s => s

/-- The step that a piece between slashes is, if it is one. -/
def stepOf? (piece : List Char) : Option Component :=
  if piece = [] ∨ piece = ['.'] then none
  else if piece = ['.', '.'] then some .up
  else some (.name piece)

def componentsOfChars (cs : List Char) : List Component :=
  match cs.splitOn '/' with
  | [] => []
  | first :: rest =>
    let front :=
      if first = [] ∧ rest ≠ [] then some Component.root
      else if first = ['.'] then some .here
      else stepOf? first
    front.toList ++ rest.filterMap stepOf?

def components (p : Path) : List Component :=
  componentsOfChars p.text.toList

def isAbsolute (p : Path) : Bool :=
  p.text.toList.head? == some '/'

/-- The path `q` as seen from `p`: an absolute `q` stands for itself. -/
def join (p q : Path) : Path :=
  if q.isAbsolute then q
  else if p.text.isEmpty ∨ p.text.toList.getLast? = some '/' then ⟨p.text ++ q.text⟩
  else ⟨p.text ++ "/" ++ q.text⟩

/-- Whether a piece between slashes counts as a step; the first piece of a relative path counts also
if it is a `.`. -/
def countsAsStep (isFirst : Bool) (piece : List Char) : Bool :=
  (stepOf? piece).isSome || (isFirst && piece = ['.'])

/-- The pieces up to the last one that counts. -/
def dropIdleTail (pieces : List (List Char)) : List (List Char) :=
  match pieces with
  | [] => []
  | first :: rest =>
    match Text.dropTailWhile (fun piece => !countsAsStep false piece) rest with
    | [] => if countsAsStep true first then [first] else []
    | rest => first :: rest

/-- The text of the path without its last step; the root and the empty path have none. -/
def parent? (p : Path) : Option Path :=
  let slashed (pieces : List (List Char)) : String := String.ofList (['/'].intercalate pieces)
  match p.text.toList.splitOn '/' with
  | [] => none
  | [] :: rest@(_ :: _) =>
    match Text.dropTailWhile (fun piece => !countsAsStep false piece) rest with
    | [] => none
    | steps => some ⟨"/" ++ slashed
        (Text.dropTailWhile (fun piece => !countsAsStep false piece) steps.dropLast)⟩
  | pieces =>
    match dropIdleTail pieces with
    | [] => none
    | steps => some ⟨slashed (dropIdleTail steps.dropLast)⟩

/-- The last step, if it is a name. -/
def fileName? (p : Path) : Option String :=
  match p.components.getLast? with
  | some (.name s) => some (String.ofList s)
  | _ => none

/-- Takes one step further from the steps taken so far, the latest of which comes first.  A `..` takes
back the step before it, and stays where nothing but the root is before it. -/
def walk (taken : List Component) : Component → List Component
  | .here => taken
  | .up =>
    match taken with
    | [] => [.up]
    | .root :: _ => .up :: taken
    | _ :: before => before
  | c => c :: taken

/-- Resolves `.` and `..` by name alone. -/
def lexical (p : Path) : List Component :=
  (p.components.foldl walk []).reverse

/-- The steps from `root` to `p`, where `p` lies below `root` by name. -/
def stepsBelow? (p root : Path) : Option (List Component) :=
  match Text.afterHead? root.lexical p.lexical with
  | some (c :: cs) => some (c :: cs)
  | _ => none

/-- The path from `root` to `p` with slashes between the steps, if `p` lies below `root` by name. -/
def relativeTo? (p root : Path) : Option String :=
  (p.stepsBelow? root).map fun steps =>
    String.ofList (['/'].intercalate (steps.map Component.chars))

end Path
end ImageBuild
