/-!
# JSON values

The value of a JSON text.  An object keeps its fields in the order of the text, repeated keys
included.
-/

namespace ImageBuild

/-- A number, as far as readers of whole numbers tell numbers apart. -/
inductive Json.Number where
  /-- A numeral without sign, fraction and exponent, below 2 ^ 64. -/
  | natural (n : Nat)
  /-- The numeral `-n` with `0 < n ≤ 2 ^ 63`. -/
  | negative (n : Nat)
  /-- Any other number. -/
  | real
deriving Repr, DecidableEq

inductive Json where
  | null
  | bool (b : Bool)
  | number (n : Json.Number)
  | text (s : String)
  | array (items : List Json)
  | object (fields : List (String × Json))
deriving Repr, BEq, Inhabited

namespace Json

def isNull : Json → Bool
  | null => true
  | _ => false

def text? : Json → Option String
  | text s => some s
  | _ => none

def bool? : Json → Option Bool
  | bool b => some b
  | _ => none

/-- The values of the fields with the key `name`, in order. -/
def valuesOf (name : String) (fields : List (String × Json)) : List Json :=
  (fields.filter fun f => f.1 == name).map Prod.snd

end Json
end ImageBuild
