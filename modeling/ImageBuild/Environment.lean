import ImageBuild.Path
import ImageBuild.Text.Decimal
import ImageBuild.Text.Utf8
/-!
# Environment variables
-/

namespace ImageBuild

/-- The variables that are set, and their bytes. -/
structure Environment where
  bindings : List (String × List UInt8)

namespace Environment

def bytes? (env : Environment) (name : String) : Option (List UInt8) :=
  (env.bindings.find? fun v => v.1 == name).map Prod.snd

/-- A variable that holds text. -/
def text? (env : Environment) (name : String) : Option String :=
  (env.bytes? name).bind fun bytes => (Text.Utf8.toString? bytes).toOption

/-- A variable that holds more than blanks. -/
def nonBlank? (env : Environment) (name : String) : Option String :=
  (env.text? name).filter fun s => !Text.isBlankText s

/-- A variable that holds a number below `bound`, with blanks around it or not. -/
def numeral? (env : Environment) (bound : Nat) (name : String) : Option Nat :=
  (env.text? name).bind fun s => Text.numeral? bound (Text.trim s)

/-- A variable that holds a path; what is no text in it is replaced. -/
def path? (env : Environment) (name : String) : Option Path :=
  (env.bytes? name).map fun bytes => ⟨Text.Utf8.toStringLossy bytes⟩

end Environment
end ImageBuild
