import ImageBuild.Error
import ImageBuild.FileTree.Lookup
/-!
# Dockerfiles

Which Dockerfile a build uses, where it lies in the tree, and which build arguments should not be
build arguments.
-/

namespace ImageBuild.Dockerfile

/-- The name of a Dockerfile that is packed into a tree it does not lie in. -/
def defaultName : String := "Dockerfile"

/-- The names looked for when none is given, in order. -/
def candidates : List String := [defaultName, "dockerfile"]

/-- The Dockerfile of a build.  A given one must be a file; without one, the first candidate in the
working directory is taken, and there may be none. -/
def locate (fs : FileSystem) (workDir : Path) (given : Option Path) :
    Except BuildError (Option Path) :=
  match given with
  | some p =>
    let p := workDir.join p
    if fs.isFile p then .ok (some p) else .error (.dockerfileNotFound p.text)
  | none => .ok ((candidates.map fun name => workDir.join ⟨name⟩).find? fs.isFile)

/-- Words that name a secret. -/
def secretWords : List String := ["password", "token", "secret", "api_key", "private_key"]

/-- The lower case of the characters that have an ASCII letter for it: the capitals and the Kelvin
sign.  No other character can take part in a secret word. -/
def lowerAscii (c : Char) : Char :=
  if c.toNat = 0x212A then 'k' else c.toLower

/-- Whether a build argument is named like a secret, in letters of either case. -/
def namesSecret (key : String) : Bool :=
  let key := key.toList.map lowerAscii
  secretWords.any fun word => Text.occursIn word.toList key

/-- Whether `a` stands before `b` in the order of code points, or is `b`. -/
def keyLE (a b : String) : Bool :=
  !(b < a)

/-- A warning for each build argument that is named like a secret, in the order of the names. -/
def argumentWarnings (args : List (String × String)) : List String :=
  (((args.map Prod.fst).mergeSort keyLE).filter namesSecret).map fun key =>
    "build argument '" ++ key ++ "' may contain a secret; it is recorded in the image history"

end ImageBuild.Dockerfile
