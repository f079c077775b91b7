import ImageBuild.FileTree.Basic
import ImageBuild.Text.Utf8
/-!
# Archive entries

An archive is a row of records of 512 bytes: a header for each entry, then its content, filled up to
whole records, and two empty records at the end.  A header has room for a name and a link target of
100 bytes each; longer ones stand in a record of their own in front of it.
-/

namespace ImageBuild.Archive

/-- What an entry holds. -/
inductive Content where
  | dir
  /-- A symbolic link, with the bytes of its target as the archive tells it. -/
  | link (target : List UInt8)
  | file (bytes : ByteArray)

structure Entry where
  /-- The path of the entry below the root of the tree, with slashes between its steps. -/
  name : String
  content : Content

/-- The length of a record. -/
def recordSize : Nat := 512

/-- The bytes that fill `n` bytes up to whole records. -/
def fillSize (n : Nat) : Nat :=
  (recordSize - n % recordSize) % recordSize

/-- The room that a header has for a name, and for a link target. -/
def headerField : Nat := 100

def slash : UInt8 := 47

def dot : UInt8 := 46

/-- The steps of a link target: empty ones and dots count for nothing, but for a dot in front. -/
def linkSteps (target : List UInt8) : List (List UInt8) :=
  match target.splitOn slash with
  | [] => []
  | first :: rest =>
    (if first = [] then [] else [first]) ++ rest.filter fun step => step ≠ [] ∧ step ≠ [dot]

/-- A link target as it stands in a header: its steps, and a slash before or after them if it has one
there. -/
def headerLink (target : List UInt8) : List UInt8 :=
  (if target.head? = some slash then [slash] else []) ++
    [slash].intercalate (linkSteps target) ++
    (if target.getLast? = some slash then [slash] else [])

/-- A link target as the archive tells it: one that does not fit into a header is told as it is. -/
def linkText (target : List UInt8) : List UInt8 :=
  if (headerLink target).length ≤ headerField then headerLink target else target

/-- A consecutive part of an archive, written at once. -/
inductive Piece where
  | header (e : Entry)
  /-- The header of a text that does not fit into the header of its entry. -/
  | longHeader
  | longText (bytes : List UInt8)
  /-- The byte that closes a long text. -/
  | longEnd
  /-- The bytes from `start` up to `stop` of a file. -/
  | slice (bytes : ByteArray) (start stop : Nat)
  | fill (size : Nat)
  /-- The end of the archive. -/
  | trailer

def Piece.size : Piece → Nat
  | header _ => recordSize
  | longHeader => recordSize
  | longText bytes => bytes.length
  | longEnd => 1
  | slice _ start stop => stop - start
  | fill size => size
  | trailer => 2 * recordSize

/-- The pieces that fill up whole records after `n` bytes. -/
def fillPieces (n : Nat) : List Piece :=
  if fillSize n = 0 then [] else [.fill (fillSize n)]

/-- The record of a text that a header has no room for. -/
def longPieces (text : List UInt8) : List Piece :=
  if text.length ≤ headerField then []
  else [.longHeader, .longText text, .longEnd] ++ fillPieces (text.length + 1)

/-- The most bytes of a file that are written at once. -/
def sliceSize : Nat := 8192

/-- The slices of a file. -/
def slices (bytes : ByteArray) : List Piece :=
  (List.range ((bytes.size + (sliceSize - 1)) / sliceSize)).map fun k =>
    .slice bytes (k * sliceSize) (min ((k + 1) * sliceSize) bytes.size)

/-- The pieces of an entry, in the order in which they are written. -/
def Entry.pieces (e : Entry) : List Piece :=
  let name := longPieces (Text.Utf8.ofString e.name)
  match e.content with
  | .dir => name ++ [.header e]
  | .link target => name ++ longPieces target ++ [.header e]
  | .file bytes => name ++ [.header e] ++ slices bytes ++ fillPieces bytes.size

/-- The sum of the sizes of some things. -/
def sizeBy {α : Type} (size : α → Nat) : List α → Nat
  | [] => 0
  | x :: xs => size x + sizeBy size xs

def totalSize (pieces : List Piece) : Nat :=
  sizeBy Piece.size pieces

/-- The length of an archive with these entries. -/
def sizeOfEntries (entries : List Entry) : Nat :=
  totalSize (entries.flatMap Entry.pieces ++ [.trailer])

end ImageBuild.Archive
