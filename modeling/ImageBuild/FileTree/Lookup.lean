import ImageBuild.FileTree.Basic
import ImageBuild.IoError
import ImageBuild.Path
import ImageBuild.Text.Utf8
/-!
# Finding files

A file system is a tree and a working directory.  `resolve` follows a path through the tree, symbolic
links included, to a location that holds no link on the way; reading and testing files go through it.
-/

namespace ImageBuild

structure FileSystem where
  root : FileTree
  /-- The location that relative paths start from. -/
  workDir : List FileName := []

namespace FileSystem

/-- So many symbolic links are followed on the way to one file. -/
def linkLimit : Nat := 40

/-- The longest file name, in bytes. -/
def nameLimit : Nat := 255

/-- Paths of this length or more are refused. -/
def pathLimit : Nat := 4096

def slash : UInt8 := 47

def dot : UInt8 := 46

/-- The location that the steps in `pieces` lead to from `here`, with at most `links` links on the
way.  A link in the last place is followed only if `follow` says so. -/
def resolveFrom (root : FileTree) (follow : Bool) (links : Nat) (here : List FileName)
    (pieces : List FileName) : Except OsError (List FileName) :=
  match pieces with
  | [] => .ok here
  | piece :: rest =>
    match root.at? here with
    | some (.dir entries) =>
      if piece = [] ∨ piece = [dot] then resolveFrom root follow links here rest
      else if piece = [dot, dot] then resolveFrom root follow links here.dropLast rest
      else if nameLimit < piece.length then .error .nameTooLong
      else
        match FileTree.entryOf? piece entries with
        | none => .error .notFound
        | some (.link target) =>
          if rest = [] ∧ !follow then .ok (here ++ [piece])
          else
            match links with
            | 0 => .error .tooManyLinks
            | links + 1 =>
              let start := if target.head? = some slash then [] else here
              resolveFrom root follow links start (target.splitOn slash ++ rest)
        | some _ => resolveFrom root follow links (here ++ [piece]) rest
    | some _ => .error .notDirectory
    | none => .error .notFound
termination_by (links, pieces.length)

/-- The location of the file at a path. -/
def resolve (fs : FileSystem) (p : Path) (follow : Bool) : Except IoError (List FileName) :=
  let bytes := Text.Utf8.ofString p.text
  if bytes.contains 0 then .error .nulInPath
  else if bytes = [] then .error (.os .notFound)
  else if pathLimit ≤ bytes.length then .error (.os .nameTooLong)
  else
    let start := if bytes.head? = some slash then [] else fs.workDir
    (resolveFrom fs.root follow linkLimit start (bytes.splitOn slash)).mapError .os

/-- What a path leads to, after the last link. -/
def find (fs : FileSystem) (p : Path) : Except IoError FileTree := do
  let location ← fs.resolve p true
  match fs.root.at? location with
  | some t => .ok t
  | none => .error (.os .notFound)

def exists? (fs : FileSystem) (p : Path) : Bool :=
  (fs.find p).isOk

def isFile (fs : FileSystem) (p : Path) : Bool :=
  match fs.find p with
  | .ok t => t.isFile
  | .error _ => false

/-- The bytes of the file at a path. -/
def read (fs : FileSystem) (p : Path) : Except IoError ByteArray := do
  match ← fs.find p with
  | .file content => .ok content
  | .dir _ => .error (.os .isDirectory)
  | _ => .error (.os .noDevice)

/-- The file at a path, as text. -/
def readText (fs : FileSystem) (p : Path) : Except IoError String := do
  let content ← fs.read p
  match Text.Utf8.toString? content.toList with
  | .ok s => .ok s
  | .error _ => .error .notText

end FileSystem
end ImageBuild
