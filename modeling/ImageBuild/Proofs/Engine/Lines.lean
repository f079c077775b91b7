import ImageBuild.Engine.Client
/-!
# The lines of a build

A line of a build may be or tell an error, and it may tell an image or a trace beside its text.  A solve
goes through the lines up to the first error, and takes from each what it tells.
-/

namespace ImageBuild.Engine

/-- The error that a line of a build is or tells. -/
def lineFault? : Except EngineError BuildLine → Option BuildError
  | .error e => some (.connection e)
  | .ok line =>
    match line.error, line.errorDetail with
    | some e, _ => some (.connection (.stream e))
    | none, some e => some (.buildFailed e)
    | none, none => none

/-- The image that a line of a build tells. -/
def lineImage? : Except EngineError BuildLine → Option String
  | .error _ => none
  | .ok line =>
    match line.aux with
    | some (.image id) => id
    | _ => none

/-- The trace that a line of a build tells. -/
def lineTrace? : Except EngineError BuildLine → Option Trace
  | .error _ => none
  | .ok line =>
    match line.aux with
    | some (.trace t) => some t
    | _ => none

/-- The lines of a build as both kinds of builds get them. -/
def heard (items : List (Except EngineError BuildLine)) : List (Except EngineError BuildLine) :=
  items.map (orStreamError BuildLine.error id)

theorem followSolve_of_fault {item : Except EngineError BuildLine} {e : BuildError}
    (h : lineFault? item = some e) (response : SolveResponse)
    (rest : List (Except EngineError BuildLine)) :
    followSolve response (heard (item :: rest)) = ([], .error e) := by
  rw [heard, List.map_cons]
  cases item with
  | error fault =>
      cases h
      rfl
  | ok line =>
      rw [lineFault?] at h
      rw [orStreamError]
      split at h
      · rename_i herror
        cases h
        rw [herror]
        rfl
      · rename_i herror hdetail
        cases h
        rw [herror]
        simp only [id, followSolve, hdetail]
      · cases h

theorem followSolve_of_plain {item : Except EngineError BuildLine} (h : lineFault? item = none)
    (response : SolveResponse) (rest : List (Except EngineError BuildLine)) :
    followSolve response (heard (item :: rest)) =
      let after := followSolve ((lineImage? item).elim response (setDigest response)) (heard rest)
      ((lineTrace? item).toList.map Trace.status ++ after.1, after.2) := by
  rw [heard, List.map_cons]
  cases item with
  | error fault => cases h
  | ok line =>
      rw [lineFault?] at h
      rw [orStreamError, lineImage?, lineTrace?]
      split at h
      · cases h
      · cases h
      · rename_i herror hdetail
        rw [herror]
        simp only [id, followSolve, hdetail]
        obtain haux | ⟨_ | (_ | image), haux⟩ : line.aux = none ∨ ∃ aux, line.aux = some aux := by
          cases line.aux <;> simp
        all_goals simp only [haux]; rfl

/-- The traces that a solve receives: those before the first error. -/
def received (items : List (Except EngineError BuildLine)) : List Trace :=
  (items.takeWhile fun item => (lineFault? item).isNone).filterMap lineTrace?

theorem news_followSolve (response : SolveResponse) (items : List (Except EngineError BuildLine)) :
    (followSolve response (heard items)).1 = (received items).map Trace.status := by
  induction items generalizing response with
  | nil => rfl
  | cons item rest ih =>
      rw [received, List.takeWhile_cons]
      cases hfault : lineFault? item with
      | some e =>
          rw [followSolve_of_fault hfault]
          rfl
      | none =>
          rw [followSolve_of_plain hfault]
          simp only [Option.isNone_none, if_true, ih]
          cases htrace : lineTrace? item with
          | none => rw [List.filterMap_cons_none htrace]; rfl
          | some t => rw [List.filterMap_cons_some htrace]; rfl

end ImageBuild.Engine
