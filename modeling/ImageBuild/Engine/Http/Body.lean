import ImageBuild.Engine.Http.Head
import ImageBuild.Error
import ImageBuild.Text.Decimal
/-!
# Bodies of responses

A body comes behind a head, which says where it ends: after so many bytes, after an empty chunk, or with
the connection.  It arrives in parts, as long as the reads that fetch it.
-/

namespace ImageBuild.Engine

structure Body where
  /-- The bytes, in the parts in which they arrive. -/
  parts : List (List UInt8)
  /-- Whether the body goes on to the end that its head tells. -/
  isWhole : Bool := true
deriving Repr, DecidableEq

/-- The error of a body that breaks off. -/
def cutShort : EngineError :=
  .io (.reported "error reading a body from connection")

namespace Body

/-- All bytes of a body, unless it breaks off. -/
def bytes (b : Body) : Except EngineError (List UInt8) :=
  if b.isWhole then .ok b.parts.flatten else .error cutShort

/-- The first read takes this many bytes, the head included. -/
def firstRead : Nat := 8192

/-- No read takes more bytes. -/
def readLimit : Nat := 417792

/-- Where the read ends that takes the byte at `position`, if a read of `size` bytes begins at `start`
that takes it or goes before; a read that was filled is followed by one of twice its size. -/
def readEnd (start size position : Nat) : Nat :=
  if start + size ≤ position ∧ 0 < size then
    readEnd (start + size) (min (2 * size) readLimit) position
  else max (start + size) (position + 1)
termination_by position - start

theorem lt_readEnd (start size position : Nat) : position < readEnd start size position := by
  fun_induction readEnd start size position with
  | case1 start size _ ih => exact ih
  | case2 start size _ => exact Nat.lt_of_lt_of_le (Nat.lt_succ_self position) (Nat.le_max_right _ _)

/-- The parts in which bytes arrive, the first of which is at `position`. -/
def arrivals (position : Nat) (bs : List UInt8) : List (List UInt8) :=
  if _h : bs = [] then []
  else
    let stop := readEnd 0 firstRead position
    bs.take (stop - position) :: arrivals stop (bs.drop (stop - position))
termination_by bs.length
decreasing_by
  have := List.length_pos_iff.2 _h
  have := lt_readEnd 0 firstRead position
  simp only [List.length_drop]
  omega

/-- All of the bytes arrive, in order. -/
theorem flatten_arrivals (position : Nat) (bs : List UInt8) :
    (arrivals position bs).flatten = bs := by
  fun_induction arrivals position bs with
  | case1 => rfl
  | case2 position bs _ stop ih => rw [List.flatten_cons, ih, List.take_append_drop]

end Body

/-- How the end of a body is told. -/
inductive Framing where
  | sized (n : Nat)
  | chunked
  | untilEnd
deriving Repr, DecidableEq

namespace Framing

def comma : UInt8 := 44

def semicolon : UInt8 := 59

/-- The pieces of a value between commas, without the blanks around them. -/
def piecesOf (value : List UInt8) : List (List UInt8) :=
  (value.splitOn comma).map fun piece => Text.dropTailWhile Head.isGap (piece.dropWhile Head.isGap)

/-- Whether chunks are the last thing that was done to a body. -/
def endsInChunks (value : List UInt8) : Bool :=
  value.all (· < 128) &&
    ((piecesOf value).getLast?.map fun piece => piece.map Head.lower) =
      some (Text.Utf8.ofString "chunked")

/-- A number of bytes that a body can have. -/
def length? (piece : List UInt8) : Option Nat :=
  (Head.digits? piece).filter (· < Text.words64 - 2)

/-- The framing that a head tells, if what it tells makes sense: of several lengths all have to be the
same. -/
def ofHead? (head : Head) : Option Framing :=
  match (head.values "transfer-encoding").getLast? with
  | some value =>
    if head.isFirstVersion then none
    else some (if endsInChunks value then .chunked else .untilEnd)
  | none =>
    match head.values "content-length" with
    | [] => some .untilEnd
    | values =>
      match (values.flatMap piecesOf).mapM length? with
      | some (n :: ns) => if ns.all (· = n) then some (.sized n) else none
      | _ => none

/-- The value of a hexadecimal digit. -/
def hexDigit? (b : UInt8) : Option Nat :=
  let c := Head.lower b
  if 97 ≤ c ∧ c ≤ 102 then some (c.toNat - 87) else Head.digit? c

/-- The line in front, which has to end in a carriage return and a line feed, and what comes after it. -/
def strictLine? (bs : List UInt8) : Option (List UInt8 × List UInt8) :=
  (Text.splitOnce Head.lineFeed bs).bind fun (line, rest) =>
    if line.getLast? = some Head.carriageReturn ∧ !line.dropLast.contains Head.carriageReturn then
      some (line.dropLast, rest)
    else none

theorem length_of_strictLine? {bs line rest : List UInt8}
    (h : strictLine? bs = some (line, rest)) : rest.length < bs.length := by
  obtain ⟨⟨front, back⟩, hs, heq⟩ := Option.bind_eq_some_iff.1 h
  have hlen := Text.length_of_splitOnce hs
  simp only at heq
  split at heq
  · cases heq
    omega
  · cases heq

/-- The size of a chunk, with a semicolon and anything behind it. -/
structure ChunkSize where
  size : Nat
  /-- The length of what stands behind the semicolon. -/
  extension : Nat
deriving Repr, DecidableEq

/-- Reads the size of a chunk, behind which there may be blanks. -/
def chunkSize? (line : List UInt8) : Option ChunkSize :=
  let digits := line.takeWhile fun b => (hexDigit? b).isSome
  let rest := (line.drop digits.length).dropWhile Head.isGap
  let size := (digits.filterMap hexDigit?).foldl (fun acc d => 16 * acc + d) 0
  if !digits.isEmpty && (rest.isEmpty || rest.head? = some semicolon) && size < Text.words64 then
    some ⟨size, rest.length - 1⟩
  else none

/-- The lengths of the lines of a trailer, up to the empty one.  They end in a carriage return and a line
feed, and hold no carriage return. -/
def trailerLines? (bs : List UInt8) : Option (List Nat) :=
  match _h : Text.splitOnce Head.carriageReturn bs with
  | some (line, 10 :: rest) =>
    if line.isEmpty then some [] else (trailerLines? rest).map (line.length :: ·)
  | _ => none
termination_by bs.length
decreasing_by
  have := Text.length_of_splitOnce _h
  simp only [List.length_cons] at this
  omega

/-- No trailer and no extensions of all chunks are as long. -/
def sideLimit : Nat := 16384

/-- Whether the last chunk is followed by a trailer in order: a few lines, if any, with a field in each,
before an empty line. -/
def endsInTrailer (bs : List UInt8) : Bool :=
  match trailerLines? bs with
  | none => false
  | some [] => true
  | some lines =>
    lines.length < Head.fieldLimit &&
      lines.foldl (fun taken line => taken + line + 2) 2 < sideLimit &&
      (Head.fields? bs).any fun (fields, _) => fields.length ≤ lines.length

/-- The chunks of a body, in the parts in which they arrive, and whether they come to their end in order;
the first one is at `position`, and extensions may be as long as `spare`. -/
def chunks (position spare : Nat) (bs : List UInt8) : List (List UInt8) × Bool :=
  match _h : strictLine? bs with
  | none => ([], false)
  | some (line, rest) =>
    match (chunkSize? line).filter (·.extension < spare) with
    | none => ([], false)
    | some ⟨0, _⟩ => ([], endsInTrailer rest)
    | some ⟨size, extension⟩ =>
      let start := position + line.length + 2
      match _hr : rest.drop size with
      | 13 :: 10 :: back =>
        let (more, isWhole) := chunks (start + size + 2) (spare - extension) back
        (Body.arrivals start (rest.take size) ++ more, isWhole)
      | _ => (Body.arrivals start (rest.take size), false)
termination_by bs.length
decreasing_by
  have hline := length_of_strictLine? _h
  have hdrop := congrArg List.length _hr
  simp only [List.length_drop, List.length_cons] at hdrop
  omega

/-- The body in bytes the first of which is at `position`. -/
def body (position : Nat) (bs : List UInt8) : Framing → Body
  | .sized n => ⟨Body.arrivals position (bs.take n), n ≤ bs.length⟩
  | .chunked =>
    let (parts, isWhole) := chunks position sideLimit bs
    ⟨parts, isWhole⟩
  | .untilEnd => ⟨Body.arrivals position bs, true⟩

end Framing
end ImageBuild.Engine
