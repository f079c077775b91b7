/-!
# Base64

The standard alphabet with padding.  `encode` writes each byte string in one way, and `decode`
accepts only what `encode` writes: the padding must be complete, and the bits of the last symbol that
encode nothing must be zero.
-/

namespace ImageBuild.Text.Base64

/-- The byte that fills up the last group of four. -/
def pad : UInt8 := 61

/-- The symbol of a six-bit value. -/
def symbol (v : Nat) : UInt8 :=
  if v < 26 then UInt8.ofNat (65 + v)
  else if v < 52 then UInt8.ofNat (97 + (v - 26))
  else if v < 62 then UInt8.ofNat (48 + (v - 52))
  else if v = 62 then 43
  else 47

/-- The six-bit value of a symbol. -/
def value? (b : UInt8) : Option Nat :=
  let n := b.toNat
  if 65 ≤ n ∧ n ≤ 90 then some (n - 65)
  else if 97 ≤ n ∧ n ≤ 122 then some (n - 97 + 26)
  else if 48 ≤ n ∧ n ≤ 57 then some (n - 48 + 52)
  else if n = 43 then some 62
  else if n = 47 then some 63
  else none

def encode : List UInt8 → List UInt8
  | [] => []
  | [a] =>
    let n := a.toNat * 16
    [symbol (n / 64), symbol (n % 64), pad, pad]
  | [a, b] =>
    let n := (a.toNat * 256 + b.toNat) * 4
    [symbol (n / 4096), symbol (n / 64 % 64), symbol (n % 64), pad]
  | a :: b :: c :: rest =>
    let n := (a.toNat * 256 + b.toNat) * 256 + c.toNat
    symbol (n / 262144) :: symbol (n / 4096 % 64) :: symbol (n / 64 % 64) :: symbol (n % 64) ::
      encode rest

/-- Why a byte string is no Base64. -/
inductive Fault where
  | symbol (byte : UInt8) (offset : Nat)
  | length (n : Nat)
  /-- The last symbol has bits that belong to no byte. -/
  | lastSymbol (byte : UInt8) (offset : Nat)
  | padding
deriving Repr, DecidableEq

def Fault.message : Fault → String
  | .symbol byte offset =>
    "Invalid symbol " ++ Nat.repr byte.toNat ++ ", offset " ++ Nat.repr offset ++ "."
  | .length n => "Invalid input length: " ++ Nat.repr n
  | .lastSymbol byte offset =>
    "Invalid last symbol " ++ Nat.repr byte.toNat ++ ", offset " ++ Nat.repr offset ++ "."
  | .padding => "Invalid padding"

/-- The values of symbols that stand from `offset` on. -/
def values (offset : Nat) : List UInt8 → Except Fault (List Nat)
  | [] => .ok []
  | b :: bs =>
    match value? b with
    | none => .error (.symbol b offset)
    | some v => (values (offset + 1) bs).map (v :: ·)

/-- The bytes of a full group of four values. -/
def groupBytes (a b c d : Nat) : List UInt8 :=
  let n := ((a * 64 + b) * 64 + c) * 64 + d
  [UInt8.ofNat (n / 65536), UInt8.ofNat (n / 256 % 256), UInt8.ofNat (n % 256)]

/-- The bytes of the values of the last group, and whether no bit is left over. -/
def lastBytes : List Nat → List UInt8 × Bool
  | [a, b] => ([UInt8.ofNat (a * 4 + b / 16)], b % 16 = 0)
  | [a, b, c] =>
    ([UInt8.ofNat (a * 4 + b / 16), UInt8.ofNat (b % 16 * 16 + c / 4)], c % 4 = 0)
  | [a, b, c, d] => (groupBytes a b c d, true)
  | _ => ([], true)

/-- Reads the last group, which begins at `offset` and may be padded.  Padding stands after two or
three symbols, and nothing stands after padding. -/
def decodeLast (offset : Nat) (group : List UInt8) : Except Fault (List UInt8) := do
  let body := group.takeWhile (· != pad)
  let padding := group.dropWhile (· != pad)
  let vs ← values offset body
  if !padding.isEmpty && (body.length < 2 || padding.any (· != pad)) then
    throw (.symbol pad (offset + body.length))
  if body.length < 2 then
    throw (.length (offset + body.length))
  if group.length ≠ 4 then
    throw .padding
  let (bytes, complete) := lastBytes vs
  if complete then return bytes
  throw (.lastSymbol (body.getLastD pad) (offset + body.length - 1))

def decodeGroups (offset : Nat) : List UInt8 → Except Fault (List UInt8)
  | a :: b :: c :: d :: e :: rest => do
    let vs ← values offset [a, b, c, d]
    let bytes := (lastBytes vs).1
    return bytes ++ (← decodeGroups (offset + 4) (e :: rest))
  | last => decodeLast offset last

/-- Reads Base64.  A single symbol too many that is no symbol at all, such as a line feed at the end,
is reported before anything else. -/
def decode (input : List UInt8) : Except Fault (List UInt8) :=
  match input.getLast? with
  | none => .ok []
  | some last =>
    if input.length % 4 = 1 ∧ last ≠ pad ∧ value? last = none then
      .error (.symbol last (input.length - 1))
    else decodeGroups 0 input

end ImageBuild.Text.Base64
