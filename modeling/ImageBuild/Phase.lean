/-!
# Phases of a build
-/

namespace ImageBuild

inductive Phase where
  /-- The build as a whole. -/
  | build
  | contextBuild
  | builderInit
  | imageBuild
  | push
deriving Repr, DecidableEq, Inhabited

def Phase.name : Phase → String
  | .build => "build"
  | .contextBuild => "context-build"
  | .builderInit => "builder-init"
  | .imageBuild => "image-build"
  | .push => "push"

end ImageBuild
