import ImageBuild.Proofs.Engine.Lines
import ImageBuild.Proofs.Solve.Display
import Mathlib.Logic.Basic
/-!
# What is shown of the vertexes of a solve

A trace tells of vertexes and of progress within them, and a solve passes both on as news of vertexes.  So
progress that is complete reads like a vertex that is: the vertex is shown as done while it is still at
work, and nothing is shown of it after that, not even its error.  What is shown of a vertex is faithful
to what was told just if the vertex itself is the first to be told to be over, with the only error that
is told of it.
-/

namespace ImageBuild.Engine

def TraceVertex.isOver (v : TraceVertex) : Bool :=
  v.completed || v.cached || v.error != ""

/-- What a trace tells of: a vertex, or progress within one. -/
inductive Notice where
  | vertex (v : TraceVertex)
  | progress (p : TraceProgress)
deriving Repr, DecidableEq

namespace Notice

def digest : Notice → String
  | vertex v => v.digest
  | progress p => p.vertex

def isOver : Notice → Bool
  | vertex v => v.isOver
  | progress p => p.completed

def status : Notice → VertexStatus
  | vertex v => Trace.vertexStatus v
  | progress p => Trace.progressStatus p

theorem digest_status (n : Notice) : n.status.digest = n.digest := by
  cases n <;> rfl

theorem isDone_status (n : Notice) : Solve.isDone n.status = n.isOver := by
  cases n with
  | vertex v =>
      by_cases h : v.error = "" <;>
        simp [status, Trace.vertexStatus, Solve.isDone, isOver, TraceVertex.isOver, h]
  | progress p => simp [status, Trace.progressStatus, Solve.isDone, isOver]

theorem error_status_eq_some_iff {n : Notice} {error : String} :
    n.status.error = some error ↔ ∃ v, n = vertex v ∧ v.error = error ∧ error ≠ "" := by
  cases n with
  | vertex v =>
      by_cases h : v.error = ""
      · simp [status, Trace.vertexStatus, h, eq_comm]
      · simp only [status, Trace.vertexStatus, h, if_false, Option.some.injEq, vertex.injEq,
          exists_eq_left']
        exact ⟨fun he => ⟨he, he ▸ h⟩, And.left⟩
  | progress p => simp [status, Trace.progressStatus]

end Notice

/-- What a trace tells, in the order in which it is passed on. -/
def Trace.notices (t : Trace) : List Notice :=
  t.vertexes.map .vertex ++ t.progress.map .progress

theorem Trace.vertexes_status (t : Trace) : t.status.vertexes = t.notices.map Notice.status := by
  simp [Trace.status, Trace.notices, Function.comp_def, Notice.status]

/-- The first notice that a vertex is over, or that progress within it is. -/
def firstOver? (digest : String) (traces : List Trace) : Option Notice :=
  (traces.flatMap Trace.notices).find? fun n => n.digest == digest && n.isOver

def shown (traces : List Trace) : List Event :=
  Solve.Display.takeAll {} (traces.map Trace.status)

/-- What is shown of a vertex agrees with what is told of it. -/
structure Faithful (digest : String) (traces : List Trace) : Prop where
  /-- The last word on the vertex is shown only once a trace has told that the vertex itself is over. -/
  ended : ∀ front, front <+: traces → (∃ error, Solve.TellsEnd digest error (shown front)) →
    ∃ t ∈ front, ∃ v ∈ t.vertexes, v.digest = digest ∧ v.isOver
  /-- An error that is told of the vertex is shown. -/
  failed : ∀ t ∈ traces, ∀ v ∈ t.vertexes, v.digest = digest → v.error ≠ "" →
    Solve.TellsError digest v.error (shown traces)

theorem firstDone?_eq (digest : String) (traces : List Trace) :
    Solve.firstDone? digest ((traces.map Trace.status).flatMap SolveStatus.vertexes) =
      (firstOver? digest traces).map Notice.status := by
  have hnotices : (traces.map Trace.status).flatMap SolveStatus.vertexes =
      (traces.flatMap Trace.notices).map Notice.status := by
    simp only [List.flatMap_map, List.map_flatMap, Trace.vertexes_status]
  rw [Solve.firstDone?, hnotices, List.find?_map, firstOver?]
  simp only [Function.comp_def, Notice.digest_status, Notice.isDone_status]

theorem tellsEnd_shown {digest : String} {error : Option String} {traces : List Trace} :
    Solve.TellsEnd digest error (shown traces) ↔
      ∃ n, firstOver? digest traces = some n ∧ n.status.error = error := by
  rw [shown, Solve.Display.tellsEnd_takeAll, firstDone?_eq]
  simp only [Option.map_eq_some_iff, exists_exists_and_eq_and]

theorem tellsError_shown {digest error : String} {traces : List Trace} :
    Solve.TellsError digest error (shown traces) ↔
      ∃ v, firstOver? digest traces = some (.vertex v) ∧ v.error = error ∧ error ≠ "" := by
  rw [shown, Solve.Display.tellsError_takeAll, firstDone?_eq]
  simp only [Option.map_eq_some_iff, exists_exists_and_eq_and, Notice.error_status_eq_some_iff]
  constructor
  · rintro ⟨n, hn, v, rfl, herror⟩
    exact ⟨v, hn, herror⟩
  · rintro ⟨v, hv, herror⟩
    exact ⟨_, hv, v, rfl, herror⟩

/-- A trace tells of vertexes before it tells of progress. -/
theorem exists_vertex_of_find? {digest : String} {t : Trace} {v : TraceVertex} {n : Notice}
    (hv : v ∈ t.vertexes) (hdigest : v.digest = digest) (hover : v.isOver)
    (hn : t.notices.find? (fun n => n.digest == digest && n.isOver) = some n) :
    ∃ w, n = .vertex w := by
  have hsome : ((t.vertexes.map Notice.vertex).find?
      fun n => n.digest == digest && n.isOver).isSome := by
    refine List.find?_isSome.2 ⟨.vertex v, List.mem_map_of_mem hv, ?_⟩
    rw [Bool.and_eq_true]
    exact ⟨beq_iff_eq.2 hdigest, hover⟩
  obtain ⟨m, hm⟩ := Option.isSome_iff_exists.1 hsome
  rw [Trace.notices, List.find?_append, hm, Option.some_or] at hn
  obtain ⟨w, -, rfl⟩ := List.mem_map.1 (List.mem_of_find?_eq_some hm)
  cases hn
  exact ⟨w, rfl⟩

theorem firstOver?_isSome {digest : String} {traces : List Trace} {t : Trace} {v : TraceVertex}
    (ht : t ∈ traces) (hv : v ∈ t.vertexes) (hdigest : v.digest = digest) (hover : v.isOver) :
    ∃ n, firstOver? digest traces = some n := by
  refine Option.isSome_iff_exists.1 (List.find?_isSome.2 ⟨.vertex v, ?_, ?_⟩)
  · exact List.mem_flatMap.2 ⟨t, ht, List.mem_append_left _ (List.mem_map_of_mem hv)⟩
  · rw [Bool.and_eq_true]
    exact ⟨beq_iff_eq.2 hdigest, hover⟩

theorem exists_mem_of_firstOver? {digest : String} {traces : List Trace} {v : TraceVertex}
    (h : firstOver? digest traces = some (.vertex v)) :
    ∃ t ∈ traces, v ∈ t.vertexes ∧ v.digest = digest ∧ v.isOver := by
  have hover := List.find?_some h
  obtain ⟨t, ht, hv⟩ := List.mem_flatMap.1 (List.mem_of_find?_eq_some h)
  rw [Bool.and_eq_true] at hover
  refine ⟨t, ht, ?_, beq_iff_eq.1 hover.1, hover.2⟩
  simpa [Trace.notices] using hv

theorem firstOver?_extend {digest : String} {front traces : List Trace} {n : Notice}
    (hfront : front <+: traces) (h : firstOver? digest front = some n) :
    firstOver? digest traces = some n := by
  obtain ⟨rest, rfl⟩ := hfront
  rw [firstOver?, List.flatMap_append, List.find?_append]
  rw [firstOver?] at h
  rw [h, Option.some_or]

/-- Of a vertex whose last word is shown only once it is over, the vertex itself is the first to be
over. -/
theorem exists_vertex_of_firstOver? {digest : String} {traces : List Trace} {n : Notice}
    (hended : ∀ front, front <+: traces →
      (∃ error, Solve.TellsEnd digest error (shown front)) →
        ∃ t ∈ front, ∃ v ∈ t.vertexes, v.digest = digest ∧ v.isOver)
    (h : firstOver? digest traces = some n) : ∃ v, n = .vertex v := by
  have hsplit := h
  rw [firstOver?, List.find?_flatMap, List.findSome?_eq_some_iff] at hsplit
  obtain ⟨front, t, rest, rfl, ht, hfront⟩ := hsplit
  -- The notice stands in `t`, so the traces up to `t` show the last word on the vertex.
  have hn : firstOver? digest (front ++ [t]) = some n := by
    rw [firstOver?, List.find?_flatMap, List.findSome?_eq_some_iff]
    exact ⟨front, t, [], rfl, ht, hfront⟩
  obtain ⟨u, hu, v, hv, hdigest, hover⟩ := hended (front ++ [t])
    ⟨rest, by rw [List.append_assoc]; rfl⟩ ⟨_, tellsEnd_shown.2 ⟨n, hn, rfl⟩⟩
  rcases List.mem_append.1 hu with hu | hu
  · -- No trace before `t` tells that the vertex is over.
    have hnone := List.find?_eq_none.1 (hfront u hu) (.vertex v)
      (List.mem_append_left _ (List.mem_map_of_mem hv))
    exact absurd (by rw [Bool.and_eq_true]; exact ⟨beq_iff_eq.2 hdigest, hover⟩) hnone
  · obtain rfl := List.mem_singleton.1 hu
    exact exists_vertex_of_find? hv hdigest hover ht

/-- A solve passes on what the traces tell before its first error.  What is shown of a vertex is faithful
just if the first notice that it is over is about the vertex itself, and tells the only error that is told
of the vertex. -/
theorem solve_faithful_iff (response : SolveResponse) (items : List (Except EngineError BuildLine))
    (digest : String) :
    (followSolve response (heard items)).1 = (received items).map Trace.status ∧
      (Faithful digest (received items) ↔
        ∀ n, firstOver? digest (received items) = some n → ∃ v, n = .vertex v ∧
          ∀ t ∈ received items, ∀ u ∈ t.vertexes, u.digest = digest → u.error ≠ "" →
            u.error = v.error) := by
  refine ⟨news_followSolve response items, ?_⟩
  generalize received items = traces
  constructor
  · intro h n hn
    obtain ⟨v, rfl⟩ := exists_vertex_of_firstOver? h.ended hn
    refine ⟨v, rfl, fun t ht u hu hdigest herror => ?_⟩
    obtain ⟨w, hw, hsame, -⟩ := tellsError_shown.1 (h.failed t ht u hu hdigest herror)
    rw [hn] at hw
    cases hw
    exact hsame.symm
  · intro h
    constructor
    · rintro front hfront ⟨error, hend⟩
      obtain ⟨n, hn, -⟩ := tellsEnd_shown.1 hend
      obtain ⟨v, rfl, -⟩ := h n (firstOver?_extend hfront hn)
      obtain ⟨t, ht, hv, hdigest, hover⟩ := exists_mem_of_firstOver? hn
      exact ⟨t, ht, v, hv, hdigest, hover⟩
    · intro t ht u hu hdigest herror
      have hover : u.isOver := by simp [TraceVertex.isOver, herror]
      obtain ⟨n, hn⟩ := firstOver?_isSome ht hu hdigest hover
      obtain ⟨v, rfl, hsame⟩ := h n hn
      exact tellsError_shown.2 ⟨v, hn, (hsame t ht u hu hdigest herror).symm, herror⟩

/-! ## A vertex that fails after progress within it is complete -/

def failingVertex : TraceVertex where
  digest := "sha256:make"
  name := "RUN make"
  started := true
  completed := true
  error := "exit code: 2"

def completeProgress : TraceProgress where
  id := "extracting"
  vertex := "sha256:make"
  completed := true

/-- The step starts, the progress within it comes to its end, and then the step fails. -/
def failingTraces : List Trace :=
  [{ vertexes := [{ failingVertex with completed := false, error := "" }] },
    { progress := [completeProgress] }, { vertexes := [failingVertex] }]

def failingLines : List (Except EngineError BuildLine) :=
  failingTraces.map fun t => .ok { aux := some (.trace t) }

/-- The step is shown to be done with the progress, and its error is not shown. -/
theorem failing_vertex_shown_done :
    received failingLines = failingTraces ∧
      Solve.TellsEnd "sha256:make" none (shown (failingTraces.take 2)) ∧
      (∀ error, ¬Solve.TellsError "sha256:make" error (shown failingTraces)) ∧
      ¬Faithful "sha256:make" (received failingLines) := by
  have hreceived : received failingLines = failingTraces := by decide
  have hprogress : firstOver? "sha256:make" (failingTraces.take 2) =
      some (.progress completeProgress) := by decide
  have hfirst := firstOver?_extend (List.take_prefix 2 failingTraces) hprogress
  refine ⟨hreceived, tellsEnd_shown.2 ⟨_, hprogress, rfl⟩, fun error herror => ?_, fun h => ?_⟩
  · obtain ⟨v, hv, -⟩ := tellsError_shown.1 herror
    rw [hfirst] at hv
    cases hv
  · obtain ⟨v, hv⟩ := exists_vertex_of_firstOver? h.ended (hreceived ▸ hfirst)
    cases hv

end ImageBuild.Engine
