/-!
# Decimal numerals

Whole numbers in decimal digits, with an optional plus sign, read into a range of words.
-/

namespace ImageBuild.Text

/-- The number of words of 32 bits. -/
def words32 : Nat := 0x100000000

/-- The number of words of 64 bits. -/
def words64 : Nat := 0x10000000000000000

/-- The value of a decimal digit. -/
def digit? (c : Char) : Option Nat :=
  if '0' ≤ c ∧ c ≤ '9' then some (c.toNat - '0'.toNat) else none

/-- The value of a string of digits read after a number `acc`. -/
def digitsFrom (acc : Nat) : List Char → Option Nat
  | [] => some acc
  | c :: cs => (digit? c).bind fun d => digitsFrom (10 * acc + d) cs

/-- A non-empty string of digits. -/
def digits? : List Char → Option Nat
  | [] => none
  | cs => digitsFrom 0 cs

/-- A numeral below `bound`: one plus sign may stand in front of the digits. -/
def numeral? (bound : Nat) (s : String) : Option Nat :=
  let value := match s.toList with
    | '+' :: cs => digits? cs
    | cs => digits? cs
  value.filter (· < bound)

/-- The last `n` digits of `k`, most significant first, written in the given number of places. -/
def paddedDigits (places k : Nat) : String :=
  let text := Nat.repr k
  "".pushn '0' (places - text.length) ++ text

end ImageBuild.Text
