import ImageBuild.Archive.Chunks
import ImageBuild.Dockerfile
import ImageBuild.Ignore.Load
import ImageBuild.Spec
/-!
# Build contexts

What a daemon is sent to build from: the wanted part of a tree as an archive, and the name under
which the archive holds the Dockerfile.  A Dockerfile that does not lie in the tree is added to the
archive.
-/

namespace ImageBuild

structure Context where
  /-- The ignore rules in their normal form. -/
  excludes : List String
  /-- The path of the Dockerfile, if it lies in the tree. -/
  relativeDockerfile : Option String
  /-- Whether the archive is sent compressed. -/
  compressed : Bool
  archive : Archive

namespace Context

/-- The name of the Dockerfile in the archive. -/
def dockerfileName (c : Context) : String :=
  c.relativeDockerfile.getD Dockerfile.defaultName

/-- Whether the Dockerfile was added to the archive. -/
def isInjected (c : Context) : Bool :=
  c.relativeDockerfile.isNone

/-- The sizes of all that is written of a context, which goes through an encoder if it is compressed. -/
def sizes (encode : Archive.Encoder) (c : Context) : List Nat :=
  if c.compressed then encode c.archive else Archive.plain c.archive

/-- What the reader of a context gets: the size of each chunk, and a fault if the context breaks off. -/
def reads (encode : Archive.Encoder) (c : Context) : List (Except IoError Nat) :=
  (Archive.chunksOf id (c.sizes encode) c.archive.fault).map (fun chunk => .ok (Archive.sizeBy id chunk)) ++
    c.archive.fault.toList.map .error

/-- The Dockerfile as an addition, if it does not lie in the tree. -/
def additions (fs : FileSystem) (dockerfile : Path) (relative : Option String) :
    Except BuildError Archive.Additions :=
  match relative with
  | some _ => .ok []
  | none =>
    match fs.read dockerfile with
    | .ok content => .ok [(Dockerfile.defaultName, content)]
    | .error e => .error
      (.contextArchive ("error reading Dockerfile " ++ dockerfile.text ++ ": " ++ e.message))

/-- Packs the tree of a build.  It is sent compressed to a daemon that is far away. -/
def package (fs : FileSystem) (dockerfile : Path) (spec : BuildSpec) (remote : Bool) :
    Except BuildError Context := do
  let relative := dockerfile.relativeTo? spec.workDir
  let additions ← additions fs dockerfile relative
  let rules ← (Ignore.Rules.load fs spec.workDir spec.ignoreFile relative).mapError fun e =>
    .contextArchive ("error reading .dockerignore: " ++ e.message)
  return {
    excludes := rules.texts
    relativeDockerfile := relative
    compressed := remote
    archive := Archive.pack fs spec.workDir rules additions }

/-- Packing where nothing can run beside the caller: the archive is written while it is read, so
there is no context without such a helper. -/
def packageAlone (fs : FileSystem) (dockerfile : Path) (spec : BuildSpec) (remote : Bool) :
    Except BuildError Context := do
  let _ ← package fs dockerfile spec remote
  throw (.contextArchive "no async runtime to archive on: ...")

def mebibyte : Nat := 1024 * 1024

/-- A context up to this size is no cause for a warning. -/
def sizeLimit : Nat := 500 * mebibyte

/-- A warning about a context of this size. -/
def sizeWarning? (size : Nat) : Option String :=
  if sizeLimit < size then
    some ("build context is " ++ Nat.repr (size / mebibyte) ++
      "MB; consider excluding files with .dockerignore")
  else none

end Context
end ImageBuild
