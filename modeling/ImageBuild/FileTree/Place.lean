import ImageBuild.FileTree.Lookup
/-!
# Placing files

A file system is set up by placing files at paths, one after the other.  Directories on the way are made,
symbolic links on the way are followed, and a file that is placed at a link is written where the link
leads.
-/

namespace ImageBuild.FileSystem

/-- The steps of a path. -/
def stepsOf (p : List UInt8) : List FileName :=
  p.splitOn slash

/-- Whether a step leads somewhere. -/
def isStep (piece : FileName) : Bool :=
  piece ≠ [] && piece ≠ [dot]

/-- The location from which a path goes on, seen from `here`. -/
def startOf (here : List FileName) (p : List UInt8) : List FileName :=
  if p.head? = some slash then [] else here

/-- The location to which steps lead from `here`, links followed. -/
def follow (root : FileTree) (here steps : List FileName) : Except OsError (List FileName) :=
  resolveFrom root true linkLimit here steps

/-- Makes the directories that are missing on the way from `here`, and answers where the way ends. -/
def makeDirs (root : FileTree) (here : List FileName) : List FileName → FileTree × List FileName
  | [] => (root, here)
  | step :: rest =>
    match follow root here [step] with
    | .ok there => makeDirs root there rest
    | .error _ => makeDirs (root.put (here ++ [step]) (.dir [])) (here ++ [step]) rest

/-- The location of a file that is written under a name in a directory, after at most `links` links. -/
def writtenTo (root : FileTree) (links : Nat) (dir : List FileName) (name : FileName) :
    List FileName :=
  match links, root.at? (dir ++ [name]) with
  | links + 1, some (.link target) =>
    let steps := stepsOf target
    match follow root (startOf dir target) steps.dropLast, steps.getLast? with
    | .ok there, some step => writtenTo root links there step
    | _, _ => dir ++ [name]
  | _, _ => dir ++ [name]

/-- Places a file, a directory, a link or a socket at a path. -/
def place (fs : FileSystem) (p : List UInt8) (t : FileTree) : FileSystem :=
  match ((stepsOf p).filter isStep).reverse with
  | [] => fs
  | name :: before =>
    let (root, dir) := makeDirs fs.root (startOf fs.workDir p) before.reverse
    match t with
    | .dir _ => { fs with root := (makeDirs root dir [name]).1 }
    | .file _ => { fs with root := root.put (writtenTo root linkLimit dir name) t }
    | _ => { fs with root := root.put (dir ++ [name]) t }

end ImageBuild.FileSystem
