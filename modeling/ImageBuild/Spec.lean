import ImageBuild.Path
/-!
# What is to be built, and what came of it
-/

namespace ImageBuild

/-- What a caller wants built. -/
structure BuildSpec where
  /-- The root of the tree that is sent to the daemon. -/
  workDir : Path
  tag : String
  dockerfile : Option Path := none
  ignoreFile : Option Path := none
  target : Option String := none
  /-- Build arguments, each name once. -/
  buildArgs : List (String × String) := []
  labels : List (String × String) := []
  secrets : List (String × List UInt8) := []
  noCache : Bool := false
  /-- Whether the image is pushed once it is built. -/
  publish : Bool := false
deriving Repr, DecidableEq

structure Image where
  id : String
  tag : String
  size : Int
deriving Repr, DecidableEq

/-- Why nothing was built, where that is no error: another way of building may do. -/
inductive SkipReason where
  | daemonUnavailable
  | noDockerfile
deriving Repr, DecidableEq

def SkipReason.message : SkipReason → String
  | .daemonUnavailable => "docker daemon not available"
  | .noDockerfile => "dockerfile not found"

inductive BuildOutcome where
  | skipped (reason : SkipReason)
  | built (image : Image) (warning : Option String)
deriving Repr, DecidableEq

namespace BuildOutcome

def image? : BuildOutcome → Option Image
  | built image _ => some image
  | skipped _ => none

def isSkipped : BuildOutcome → Bool
  | skipped _ => true
  | built _ _ => false

end BuildOutcome
end ImageBuild
