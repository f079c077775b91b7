import ImageBuild.Archive.Entry
import ImageBuild.FileTree.Lookup
import ImageBuild.Ignore.Rules
/-!
# Packing a tree

A walk through a tree visits a directory before what lies in it, and the entries of a directory in
the order of their names.  `walk` is told which directories to enter.  An archive is packed by a walk
that stays out of the directories in which the rules can want nothing, and by adding files that do
not come from the tree.
-/

namespace ImageBuild.Archive

/-- What a walk comes across. -/
structure Found where
  /-- The path below the root of the walk. -/
  name : String
  node : FileTree

/-- The name of an entry of the directory `dir`, which is empty for the root. -/
def nameBelow (dir : String) (name : FileName) : String :=
  if dir = "" then Text.Utf8.toStringLossy name
  else dir ++ "/" ++ Text.Utf8.toStringLossy name

/-- The findings of the entries of a directory, put in the order of the entries' names. -/
def inOrder (findings : List (FileName × List Found)) : List Found :=
  (findings.mergeSort fun a b => FileTree.nameLE a.1 b.1).flatMap Prod.snd

mutual

/-- What a walk comes across below `dir`, where `enter` tells which directories it goes into. -/
def walk (enter : String → Bool) (dir : String) : FileTree → List Found
  | .dir entries => inOrder (walkEntries enter dir entries)
  | _ => []

/-- What a walk comes across in each entry of the directory `dir`. -/
def walkEntries (enter : String → Bool) (dir : String) :
    List (FileName × FileTree) → List (FileName × List Found)
  | [] => []
  | (name, node) :: rest =>
    let here := nameBelow dir name
    (name, ⟨here, node⟩ :: if enter here then walk enter here node else []) ::
      walkEntries enter dir rest

end

/-- Files that are put into an archive without being in the tree, by name. -/
abbrev Additions := List (String × ByteArray)

def Additions.names (additions : Additions) : List String :=
  additions.map Prod.fst

/-- Whether an entry of the tree goes into the archive. -/
def isWanted (rules : Ignore.Rules) (additions : Additions) (name : String) : Bool :=
  !additions.names.contains name && !rules.isIgnored name

/-- Whether the walk goes into a directory: not if the directory is ignored and the rules want nothing
below it back. -/
def isEntered (rules : Ignore.Rules) (additions : Additions) (name : String) : Bool :=
  additions.names.contains name || !rules.isIgnored name || rules.mayReincludeUnder name

/-- The entry for something found under `root`; an archive has none for a socket. -/
def Found.entry (root : Path) (f : Found) : Except IoError Entry :=
  match f.node with
  | .dir _ => .ok ⟨f.name, .dir⟩
  | .file bytes => .ok ⟨f.name, .file bytes⟩
  | .link target => .ok ⟨f.name, .link (linkText target)⟩
  | .socket => .error (.socketEntry (root.join ⟨f.name⟩).text)

end Archive

/-- An archive, or what was packed of it when packing broke off. -/
structure Archive where
  entries : List Archive.Entry
  fault : Option IoError

namespace Archive

/-- Packs what was found until something cannot be packed. -/
def ofFound (root : Path) : List Found → Archive
  | [] => ⟨[], none⟩
  | f :: rest =>
    match f.entry root with
    | .ok e =>
      let a := ofFound root rest
      { a with entries := e :: a.entries }
    | .error fault => ⟨[], some fault⟩

/-- The additions as entries, in the order of their names. -/
def Additions.entries (additions : Additions) : List Entry :=
  (additions.mergeSort fun a b => !(b.1 < a.1)).map fun a => ⟨a.1, .file a.2⟩

/-- Puts entries at the end of an archive that is not broken off. -/
def append (a : Archive) (entries : List Entry) : Archive :=
  if a.fault.isSome then a else { a with entries := a.entries ++ entries }

/-- Packs a tree, whose root is known to the caller as `root`. -/
def ofTree (tree : FileTree) (root : Path) (rules : Ignore.Rules) (additions : Additions) :
    Archive :=
  let found := (walk (isEntered rules additions) "" tree).filter fun f =>
    isWanted rules additions f.name
  (ofFound root found).append additions.entries

/-- Packs the tree at a path. -/
def pack (fs : FileSystem) (root : Path) (rules : Ignore.Rules) (additions : Additions) : Archive :=
  match fs.find root with
  | .ok tree => ofTree tree root rules additions
  | .error e => ⟨[], some (.walk root.text e)⟩

end Archive
end ImageBuild
