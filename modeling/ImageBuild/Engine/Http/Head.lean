import ImageBuild.Text.Pieces
import ImageBuild.Text.Utf8
/-!
# Heads of responses

A response begins with a head: a line that tells its status, then fields, each on a line of its own, then
an empty line.  A line ends in a line feed, with or without a carriage return in front.
-/

namespace ImageBuild.Engine

structure Head where
  /-- Whether it is of the first version of the protocol, which knows no chunks. -/
  isFirstVersion : Bool
  status : Nat
  /-- The names, in lower case, and the values. -/
  fields : List (List UInt8 × List UInt8)
deriving Repr, DecidableEq

namespace Head

def lineFeed : UInt8 := 10

def carriageReturn : UInt8 := 13

def space : UInt8 := 32

def tab : UInt8 := 9

/-- The line in front, without its end, and what comes after it. -/
def line? (bs : List UInt8) : Option (List UInt8 × List UInt8) :=
  (Text.splitOnce lineFeed bs).map fun (line, rest) =>
    (if line.getLast? = some carriageReturn then line.dropLast else line, rest)

/-- A line takes up at least its end. -/
theorem length_of_line? {bs line rest : List UInt8} (h : line? bs = some (line, rest)) :
    rest.length < bs.length := by
  obtain ⟨⟨front, back⟩, hs, heq⟩ := Option.map_eq_some_iff.1 h
  have hlen := Text.length_of_splitOnce hs
  cases heq
  omega

/-- Whether a byte may stand in the value of a field, or in the words after a status. -/
def isTextByte (b : UInt8) : Bool :=
  b = tab || (space ≤ b && b ≠ 127)

/-- Whether a byte may stand in the name of a field. -/
def isNameByte (b : UInt8) : Bool :=
  (65 ≤ b && b ≤ 90) || (97 ≤ b && b ≤ 122) || (48 ≤ b && b ≤ 57) ||
    (Text.Utf8.ofString "!#$%&'*+-.^_`|~").contains b

def lower (b : UInt8) : UInt8 :=
  if 65 ≤ b ∧ b ≤ 90 then b + 32 else b

def isGap (b : UInt8) : Bool := b = space || b = tab

/-- Reads a field: a name, a colon and a value with or without blanks around it. -/
def field? (line : List UInt8) : Option (List UInt8 × List UInt8) := do
  let (name, value) ← Text.splitOnce 58 line
  if name.isEmpty || !name.all isNameByte || !value.all isTextByte then none
  else some (name.map lower, Text.dropTailWhile isGap (value.dropWhile isGap))

/-- Reads fields up to an empty line. -/
def fields? (bs : List UInt8) : Option (List (List UInt8 × List UInt8) × List UInt8) :=
  match _h : line? bs with
  | none => none
  | some (line, rest) =>
    if line.isEmpty then some ([], rest)
    else
      match field? line with
      | none => none
      | some f => (fields? rest).map fun (fs, rest) => (f :: fs, rest)
termination_by bs.length
decreasing_by exact length_of_line? _h

/-- The value of a decimal digit. -/
def digit? (b : UInt8) : Option Nat :=
  if 48 ≤ b ∧ b ≤ 57 then some (b.toNat - 48) else none

/-- The value of a string of digits, if there is one. -/
def digits? (bs : List UInt8) : Option Nat :=
  if bs.isEmpty then none
  else bs.foldl (fun acc b => do return 10 * (← acc) + (← digit? b)) (some 0)

/-- Reads the first line: whether the version is the first one, and the status in three digits. -/
def statusLine? (line : List UInt8) : Option (Bool × Nat) := do
  let version := line.take 8
  let isFirst := version = Text.Utf8.ofString "HTTP/1.0"
  if !isFirst && version ≠ Text.Utf8.ofString "HTTP/1.1" then none
  else
    let status ← digits? ((line.drop 9).take 3)
    let words := line.drop 12
    if line.length < 12 || (line.drop 8).head? ≠ some space || status < 100 ||
        !(words.isEmpty || words.head? = some space) || !words.all isTextByte then none
    else some (isFirst, status)

/-- Empty lines in front of a head do not count. -/
def skipEmptyLines : List UInt8 → List UInt8
  | 13 :: 10 :: rest => skipEmptyLines rest
  | 10 :: rest => skipEmptyLines rest
  | bs => bs

theorem length_skipEmptyLines_le (bs : List UInt8) :
    (skipEmptyLines bs).length ≤ bs.length := by
  fun_induction skipEmptyLines bs with
  | case1 rest ih => simp only [List.length_cons]; omega
  | case2 rest ih => simp only [List.length_cons]; omega
  | case3 => exact Nat.le_refl _

/-- No head has more fields. -/
def fieldLimit : Nat := 100

theorem length_of_fields? {bs rest : List UInt8} {fs : List (List UInt8 × List UInt8)}
    (h : fields? bs = some (fs, rest)) : rest.length < bs.length := by
  fun_induction fields? bs generalizing fs with
  | case1 => cases h
  | case2 bs line rest' hl hempty => cases h; exact length_of_line? hl
  | case3 => cases h
  | case4 bs line rest' hl hempty f hf ih =>
    obtain ⟨⟨gs, back⟩, hg, heq⟩ := Option.map_eq_some_iff.1 h
    cases heq
    have := length_of_line? hl
    have := ih hg
    omega

/-- Reads the head in front, and answers what comes after it. -/
def read? (bs : List UInt8) : Option (Head × List UInt8) := do
  let (line, rest) ← line? (skipEmptyLines bs)
  let (isFirstVersion, status) ← statusLine? line
  let (fields, rest) ← fields? rest
  if fieldLimit < fields.length then none else some (⟨isFirstVersion, status, fields⟩, rest)

/-- A head takes up at least its lines. -/
theorem length_of_read? {bs rest : List UInt8} {head : Head} (h : read? bs = some (head, rest)) :
    rest.length < bs.length := by
  unfold read? at h
  simp only [bind, Option.bind_eq_some_iff] at h
  obtain ⟨⟨line, rest₁⟩, h₁, ⟨first, status⟩, -, ⟨fields, rest₂⟩, h₂, h₃⟩ := h
  have hskip := length_skipEmptyLines_le bs
  have hline := length_of_line? h₁
  have hfields : rest₂.length < rest₁.length := length_of_fields? h₂
  simp only at h₃
  split at h₃
  · cases h₃
  · cases h₃
    omega

/-- The values of the fields of a name, in order. -/
def values (head : Head) (name : String) : List (List UInt8) :=
  (head.fields.filter fun f => f.1 = Text.Utf8.ofString name).map Prod.snd

end Head
end ImageBuild.Engine
