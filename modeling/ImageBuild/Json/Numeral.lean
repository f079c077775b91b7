import ImageBuild.Json.Scan
import ImageBuild.Text.Decimal
/-!
# Numbers in JSON

A numeral without fraction and exponent is a whole number, if it fits into 64 bits.  Any other is a
number in binary floating point, of which it only matters that it is finite: its leading digits, as
many as fit into 64 bits, are rounded to 53 binary digits, and so is the power of ten they are
multiplied with.
-/

namespace ImageBuild.Json

/-- A numeral as it is written, without its sign. -/
structure Numeral where
  whole : List Char
  fraction : List Char := []
  exponent : Option Int := none
deriving Repr, DecidableEq

namespace Numeral

/-- Reads a non-empty run of digits. -/
def digitRun (cs : List Char) : Parsed (List Char) :=
  let run := cs.takeWhile Char.isDigit
  if run.isEmpty then .error (faultAt cs) else .ok (run, cs.dropWhile Char.isDigit)

/-- Reads the digits of a fraction, if there is one. -/
def readFraction (cs : List Char) : Parsed (List Char) :=
  match cs with
  | '.' :: cs => digitRun cs
  | cs => .ok ([], cs)

/-- Reads the digits of an exponent and, in front of them, its sign. -/
def readExponentDigits (cs : List Char) : Parsed (Option Int) :=
  let signed (negative : Bool) (cs : List Char) : Parsed (Option Int) :=
    (digitRun cs).map fun (run, rest) =>
      let n := Int.ofNat ((Text.digits? run).getD 0)
      (some (if negative then -n else n), rest)
  match cs with
  | '+' :: cs => signed false cs
  | '-' :: cs => signed true cs
  | cs => signed false cs

/-- Reads an exponent, if there is one. -/
def readExponent (cs : List Char) : Parsed (Option Int) :=
  match cs with
  | 'e' :: cs => readExponentDigits cs
  | 'E' :: cs => readExponentDigits cs
  | cs => .ok (none, cs)

/-- Reads a numeral; a zero in front stands alone. -/
def read (cs : List Char) : Except Fault (Numeral × List Char) := do
  let (whole, rest) ← digitRun cs
  if 1 < whole.length ∧ whole.head? = some '0' then throw .malformed
  let (fraction, rest) ← readFraction rest
  let (exponent, rest) ← readExponent rest
  return (⟨whole, fraction, exponent⟩, rest)

/-- Skips a numeral; where a text may end inside a value, it may not end inside this. -/
def skip (cs : List Char) : Except Fault (List Char) :=
  match read cs with
  | .ok (_, rest) => .ok rest
  | .error _ => .error .malformed

/-- Appends digits to `significand` as long as it stays below 2 ^ 64, and answers what is left. -/
def absorb (significand : Nat) : List Char → Nat × List Char
  | [] => (significand, [])
  | c :: cs =>
    let next := 10 * significand + (Text.digit? c).getD 0
    if next < Text.words64 then absorb next cs else (significand, c :: cs)

/-- The leading digits of a numeral as a whole number, and the power of ten that they count. -/
def parts (n : Numeral) : Nat × Int :=
  let (significand, uncounted) := absorb 0 n.whole
  let (significand, dropped) := absorb significand n.fraction
  (significand, Int.ofNat uncounted.length - Int.ofNat (n.fraction.length - dropped.length) +
    n.exponent.getD 0)

/-- The nearest number of 53 binary digits; of two that are equally near, the even one. -/
def roundBinary (n : Nat) : Nat :=
  let step := 1 <<< (n.log2 - 52)
  let quotient := n / step
  let rest := n % step
  if step < 2 * rest ∨ (step = 2 * rest ∧ quotient % 2 = 1) then (quotient + 1) * step
  else quotient * step

/-- Numbers from here on are rounded to infinity. -/
def infinity : Nat := (1 <<< 1024) - (1 <<< 970)

/-- The greatest power of ten that is finite. -/
def greatestPower : Nat := 308

/-- Whether the value of a numeral is finite. -/
def isFinite (n : Numeral) : Bool :=
  let (significand, exponent) := n.parts
  significand = 0 || exponent < 0 ||
    (exponent.toNat ≤ greatestPower &&
      roundBinary significand * roundBinary (Nat.pow 10 exponent.toNat) < infinity)

/-- The number that a numeral stands for, with a minus sign in front of it or not. -/
def number (negative : Bool) (n : Numeral) : Number :=
  let value := (Text.digits? n.whole).getD 0
  if n.fraction ≠ [] ∨ n.exponent.isSome ∨ Text.words64 ≤ value then .real
  else if !negative then .natural value
  else if 0 < value ∧ value ≤ Text.words64 / 2 then .negative value
  else .real

/-- Reads a number, the sign of which is already read. -/
def readNumber (negative : Bool) (cs : List Char) : Except Fault (Number × List Char) := do
  let (n, rest) ← read cs
  if n.isFinite then return (n.number negative, rest)
  throw .malformed

end Numeral
end ImageBuild.Json
