/-!
# What a daemon can do
-/

namespace ImageBuild

/-- The two ways of building. -/
inductive Builder where
  | classic
  | session
deriving Repr, DecidableEq

def Builder.name : Builder → String
  | .classic => "classic"
  | .session => "buildkit"

/-- What a daemon can do. -/
structure Capability where
  available : Bool
  sessionSupported : Bool
  remote : Bool
deriving Repr, DecidableEq

/-- The way of building for a daemon. -/
def Capability.builder (c : Capability) : Builder :=
  if c.sessionSupported then .session else .classic

end ImageBuild
