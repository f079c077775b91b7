import ImageBuild.Text.Decimal
/-!
# Sizes in decimal units

A number of bytes as a person reads it: `512 B`, `2.05 kB`, `1.02 MB`.  Each unit is a thousand of
the one before it.  The number is divided in binary floating point, once for each unit, and the
quotient is then written with two decimals; so the quotient is a ratio here, rounded to 53 bits after
every division.
-/

namespace ImageBuild.Text

/-- A number that is a natural number over a power of two. -/
structure Ratio where
  numerator : Nat
  denominator : Nat
deriving Repr, DecidableEq

/-- A quotient rounded to a whole number; a half goes to the even neighbour. -/
def roundDiv (n d : Nat) : Nat :=
  let q := n / d
  let twice := 2 * (n % d)
  if twice > d ∨ (twice = d ∧ q % 2 = 1) then q + 1 else q

/-- The bits that a rounded quotient keeps. -/
def keptBits : Nat := 53

/-- The doublings after which `n / d` has as many bits as a rounded quotient keeps. -/
def doublings (n d : Nat) : Nat :=
  keptBits + Nat.log2 d - Nat.log2 n

/-- The quotient of a ratio and a number, rounded to 53 bits. -/
def Ratio.divide (r : Ratio) (k : Nat) : Ratio :=
  let d := r.denominator * k
  let places := doublings r.numerator d
  let places := if keptBits < Nat.log2 (r.numerator * Nat.pow 2 places / d) + 1 then places - 1
    else places
  ⟨roundDiv (r.numerator * Nat.pow 2 places) d, Nat.pow 2 places⟩

/-- A ratio with two decimals. -/
def Ratio.twoDecimals (r : Ratio) : String :=
  let hundredths := roundDiv (100 * r.numerator) r.denominator
  Nat.repr (hundredths / 100) ++ "." ++ paddedDigits 2 (hundredths % 100)

/-- The unit of a thousand bytes and those after it. -/
def sizeUnits : List String := ["kB", "MB", "GB", "TB", "PB", "EB"]

/-- A ratio of at least one thousand in the first unit in which it is less. -/
def scaled (r : Ratio) : List String → String
  | [] => r.twoDecimals
  | [unit] => (r.divide 1000).twoDecimals ++ " " ++ unit
  | unit :: units =>
    let r := r.divide 1000
    if r.numerator < 1000 * r.denominator then r.twoDecimals ++ " " ++ unit else scaled r units

/-- A number of bytes in decimal units. -/
def decimalSize (bytes : Nat) : String :=
  if bytes < 1000 then Nat.repr bytes ++ " B" else scaled ⟨bytes, 1⟩ sizeUnits

end ImageBuild.Text
