/-!
# File trees

A directory tree as a value.  File names are byte strings, since not every name is a text, and a
directory lists its entries in whatever order it likes: everything that depends on an order sorts.
-/

namespace ImageBuild

/-- The bytes of a file name. -/
abbrev FileName := List UInt8

inductive FileTree where
  | file (content : ByteArray)
  | dir (entries : List (FileName × FileTree))
  /-- A symbolic link, with the bytes of its target. -/
  | link (target : List UInt8)
  | socket
deriving Inhabited

namespace FileTree

def isDir : FileTree → Bool
  | dir _ => true
  | _ => false

def isFile : FileTree → Bool
  | file _ => true
  | _ => false

/-- The entry with a name in a list of entries. -/
def entryOf? (name : FileName) (entries : List (FileName × FileTree)) : Option FileTree :=
  (entries.find? fun e => e.1 == name).map Prod.snd

/-- The entry of a directory with a name. -/
def child? (name : FileName) : FileTree → Option FileTree
  | dir entries => entryOf? name entries
  | _ => none

/-- What stands at a location below this tree, links not followed. -/
def at? : List FileName → FileTree → Option FileTree
  | [], t => some t
  | name :: rest, t => (t.child? name).bind (at? rest)

/-- Puts an entry into a list of entries, in the place of one with the same name. -/
def putEntry (name : FileName) (t : FileTree) :
    List (FileName × FileTree) → List (FileName × FileTree)
  | [] => [(name, t)]
  | e :: es => if e.1 = name then (name, t) :: es else e :: putEntry name t es

/-- Puts `t` at a location in a tree, making the directories on the way.  A directory that is already
there stays as it is when another is put over it. -/
def put (old : FileTree) (location : List FileName) (t : FileTree) : FileTree :=
  match location with
  | [] => if t.isDir && old.isDir then old else t
  | name :: rest =>
    let entries := match old with
      | dir entries => entries
      | _ => []
    dir (putEntry name (put ((entryOf? name entries).getD (dir [])) rest t) entries)

/-- Compares names byte by byte. -/
def nameLE (a b : FileName) : Bool :=
  match a, b with
  | [], _ => true
  | _ :: _, [] => false
  | x :: xs, y :: ys => if x = y then nameLE xs ys else x < y

/-- The entries of a directory, in the order of their names. -/
def sortedEntries (entries : List (FileName × FileTree)) : List (FileName × FileTree) :=
  entries.mergeSort fun a b => nameLE a.1 b.1

end FileTree
end ImageBuild
