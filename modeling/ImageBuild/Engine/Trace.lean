import ImageBuild.Daemon.Message
import ImageBuild.Engine.Wire
/-!
# Traces of a solve

A daemon tells news of a solve as a binary record.  A trace is what is of use in it: vertexes, progress
within them, and their output.
-/

namespace ImageBuild.Engine

/-- A vertex as a trace tells of it. -/
structure TraceVertex where
  digest : String := ""
  name : String := ""
  cached : Bool := false
  started : Bool := false
  completed : Bool := false
  error : String := ""
deriving Repr, DecidableEq

/-- Progress within a vertex. -/
structure TraceProgress where
  id : String := ""
  vertex : String := ""
  current : Int := 0
  total : Int := 0
  started : Bool := false
  completed : Bool := false
deriving Repr, DecidableEq

structure TraceLog where
  vertex : String := ""
  message : List UInt8 := []
deriving Repr, DecidableEq

structure Trace where
  vertexes : List TraceVertex := []
  progress : List TraceProgress := []
  logs : List TraceLog := []
deriving Repr, DecidableEq

namespace Trace

open Wire

/-- The forms of the records in a trace. -/
inductive Form where
  | trace
  | vertex
  | progress
  | log
  | warning
  | moment
  | group
  | sourceText
  | definition
  | operation
  | operationEntry
  | exportCache
  | wordEntry
  | flagEntry
  | sourceMap
  | placesEntry
  | places
  | place
  | range
  | position
deriving Repr, DecidableEq

/-- What stands in the fields of a trace. -/
def Form.kind? : Form → Nat → Option (Kind Form)
  | .trace, 1 => some (.record .vertex)
  | .trace, 2 => some (.record .progress)
  | .trace, 3 => some (.record .log)
  | .trace, 4 => some (.record .warning)
  | .vertex, 1 => some .text
  | .vertex, 2 => some .text
  | .vertex, 3 => some .text
  | .vertex, 4 => some .number
  | .vertex, 5 => some (.record .moment)
  | .vertex, 6 => some (.record .moment)
  | .vertex, 7 => some .text
  | .vertex, 8 => some (.record .group)
  | .progress, 1 => some .text
  | .progress, 2 => some .text
  | .progress, 3 => some .text
  | .progress, 4 => some .number
  | .progress, 5 => some .number
  | .progress, 6 => some (.record .moment)
  | .progress, 7 => some (.record .moment)
  | .progress, 8 => some (.record .moment)
  | .log, 1 => some .text
  | .log, 2 => some (.record .moment)
  | .log, 3 => some .number
  | .log, 4 => some .bytes
  | .warning, 1 => some .text
  | .warning, 2 => some .number
  | .warning, 3 => some .bytes
  | .warning, 4 => some .bytes
  | .warning, 5 => some .text
  | .warning, 6 => some (.record .sourceText)
  | .warning, 7 => some (.record .range)
  | .moment, 1 => some .number
  | .moment, 2 => some .number
  | .group, 1 => some .text
  | .group, 2 => some .text
  | .group, 3 => some .number
  | .sourceText, 1 => some .text
  | .sourceText, 2 => some .bytes
  | .sourceText, 3 => some (.record .definition)
  | .sourceText, 4 => some .text
  | .definition, 1 => some .bytes
  | .definition, 2 => some (.entry .operationEntry)
  | .definition, 3 => some (.record .sourceMap)
  | .operation, 1 => some .number
  | .operation, 2 => some (.entry .wordEntry)
  | .operation, 4 => some (.record .exportCache)
  | .operation, 5 => some (.entry .flagEntry)
  | .operation, 6 => some (.record .group)
  | .operationEntry, 1 => some .text
  | .operationEntry, 2 => some (.record .operation)
  | .exportCache, 1 => some .number
  | .wordEntry, 1 => some .text
  | .wordEntry, 2 => some .text
  | .flagEntry, 1 => some .text
  | .flagEntry, 2 => some .number
  | .sourceMap, 1 => some (.entry .placesEntry)
  | .sourceMap, 2 => some (.record .sourceText)
  | .placesEntry, 1 => some .text
  | .placesEntry, 2 => some (.record .places)
  | .places, 1 => some (.record .place)
  | .place, 1 => some .number
  | .place, 2 => some (.record .range)
  | .range, 1 => some (.record .position)
  | .range, 2 => some (.record .position)
  | .position, 1 => some .number
  | .position, 2 => some .number
  | _, _ => none

def vertexOf (fields : List Wire.Field) : TraceVertex where
  digest := last text? "" 1 fields
  name := last text? "" 3 fields
  cached := last number? 0 4 fields ≠ 0
  started := tells 5 fields
  completed := tells 6 fields
  error := last text? "" 7 fields

def progressOf (fields : List Wire.Field) : TraceProgress where
  id := last text? "" 1 fields
  vertex := last text? "" 2 fields
  current := toInt (last number? 0 4 fields)
  total := toInt (last number? 0 5 fields)
  started := tells 7 fields
  completed := tells 8 fields

def lineOf (fields : List Wire.Field) : TraceLog where
  vertex := last text? "" 1 fields
  message := last bytes? [] 4 fields

/-- Reads a trace. -/
def decode? (bs : List UInt8) : Option Trace :=
  (Wire.decode? Form.kind? Form.trace bs).map fun fields => {
    vertexes := (records 1 fields).map vertexOf
    progress := (records 2 fields).map progressOf
    logs := (records 3 fields).map lineOf }

/-- A field that holds a text, where an empty text is not told. -/
def textField (n : Nat) (s : String) : List Wire.Field :=
  if s = "" then [] else [(n, .text s)]

/-- A field that holds a number, where zero is not told. -/
def numberField (n : Nat) (k : Int) : List Wire.Field :=
  if k = 0 then [] else [(n, .number (k % Int.ofNat Text.words64).toNat)]

/-- A field that tells a moment. -/
def momentField (n : Nat) (told : Bool) : List Wire.Field :=
  if told then [(n, .record [(1, .number 1)])] else []

def vertexFields (v : TraceVertex) : List Wire.Field :=
  textField 1 v.digest ++ textField 3 v.name ++ numberField 4 (if v.cached then 1 else 0) ++
    momentField 5 v.started ++ momentField 6 v.completed ++ textField 7 v.error

def progressFields (p : TraceProgress) : List Wire.Field :=
  textField 1 p.id ++ textField 2 p.vertex ++ numberField 4 p.current ++ numberField 5 p.total ++
    momentField 7 p.started ++ momentField 8 p.completed

def logFields (l : TraceLog) : List Wire.Field :=
  textField 1 l.vertex ++ (if l.message = [] then [] else [(4, .bytes l.message)])

/-- Writes a trace. -/
def encode (t : Trace) : List UInt8 :=
  Wire.encode (
    (t.vertexes.map fun v => (1, Wire.record (vertexFields v))) ++
    (t.progress.map fun p => (2, Wire.record (progressFields p))) ++
    (t.logs.map fun l => (3, Wire.record (logFields l))))

def vertexStatus (v : TraceVertex) : VertexStatus where
  digest := v.digest
  name := v.name
  cached := v.cached
  started := v.started
  completed := v.completed
  error := if v.error = "" then none else some v.error

/-- Progress as news of its vertex: it goes by the name of what progresses. -/
def progressStatus (p : TraceProgress) : VertexStatus where
  digest := p.vertex
  name := p.id
  started := p.started
  completed := p.completed
  current := p.current.toNat
  total := if 0 < p.total then some p.total.toNat else none

def logOf (l : TraceLog) : VertexLog :=
  ⟨l.vertex, Text.Utf8.toStringLossy l.message⟩

/-- The news that a trace tells. -/
def status (t : Trace) : SolveStatus where
  vertexes := t.vertexes.map vertexStatus ++ t.progress.map progressStatus
  logs := t.logs.map logOf

end Trace
end ImageBuild.Engine
