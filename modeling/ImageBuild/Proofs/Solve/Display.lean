import ImageBuild.Solve.Display
import Mathlib.Tactic.SplitIfs
/-!
# What a display tells of a vertex

A display tells of a vertex until it hears that the vertex is done, and then no more.  So the end that it
tells is the first one that it heard of, and of errors it tells only one that comes with that end.
-/

namespace ImageBuild.Solve

/-- The first news that a vertex is done. -/
def firstDone? (digest : String) (vs : List VertexStatus) : Option VertexStatus :=
  vs.find? fun v => v.digest == digest && isDone v

/-- One of the events is the last word on a vertex, with or without an error. -/
def TellsEnd (digest : String) (error : Option String) (events : List Event) : Prop :=
  ∃ step, Event.step step true ∈ events ∧ step.id = digest ∧ step.error = error

/-- One of the events tells of an error of a vertex. -/
def TellsError (digest error : String) (events : List Event) : Prop :=
  ∃ step final, Event.step step final ∈ events ∧ step.id = digest ∧ step.error = some error

theorem tellsEnd_append {digest : String} {error : Option String} {events later : List Event} :
    TellsEnd digest error (events ++ later) ↔
      TellsEnd digest error events ∨ TellsEnd digest error later := by
  simp only [TellsEnd, List.mem_append, or_and_right, exists_or]

theorem not_tellsEnd_nil {digest : String} {error : Option String} : ¬TellsEnd digest error [] := by
  rintro ⟨step, hstep, -⟩
  cases hstep

theorem firstDone?_cons_of_pos {digest : String} {v : VertexStatus} (hdigest : v.digest = digest)
    (hdone : isDone v) (vs : List VertexStatus) : firstDone? digest (v :: vs) = some v :=
  List.find?_cons_of_pos (by simp [hdigest, hdone])

theorem firstDone?_cons_of_neg {digest : String} {v : VertexStatus}
    (h : v.digest = digest → isDone v = false) (vs : List VertexStatus) :
    firstDone? digest (v :: vs) = firstDone? digest vs :=
  List.find?_cons_of_neg (by simpa using h)

namespace Display

@[simp] theorem done_learn (d : Display) (v : VertexStatus) : (d.learn v).done = d.done := by
  rw [learn]
  split_ifs <;> rfl

theorem heed_of_mem {d : Display} {v : VertexStatus} (h : v.digest ∈ d.done) :
    d.heed v = (d.learn v, none) := by
  rw [heed]
  exact if_pos (by simpa using h)

theorem heed_of_notMem {d : Display} {v : VertexStatus} (h : v.digest ∉ d.done) :
    d.heed v =
      (if isDone v then { d.learn v with done := v.digest :: d.done } else d.learn v,
        some (Event.step ((d.learn v).step v) (isDone v))) := by
  rw [heed]
  simp only [done_learn]
  exact if_neg (by simpa using h)

theorem heedAll_append (d : Display) (vs us : List VertexStatus) :
    d.heedAll (vs ++ us) =
      (((d.heedAll vs).1.heedAll us).1, (d.heedAll vs).2 ++ ((d.heedAll vs).1.heedAll us).2) := by
  induction vs generalizing d with
  | nil => rfl
  | cons v vs ih =>
      simp only [List.cons_append, heedAll, ih, List.append_assoc]

/-- Every event about vertexes is a step, and an error comes with the last word only. -/
theorem exists_step_of_mem_heedAll {d : Display} {vs : List VertexStatus} {e : Event}
    (h : e ∈ (d.heedAll vs).2) :
    ∃ step final, e = Event.step step final ∧ (step.error.isSome → final = true) := by
  induction vs generalizing d with
  | nil => cases h
  | cons v vs ih =>
      rw [heedAll, List.mem_append] at h
      rcases h with h | h
      · by_cases hdone : v.digest ∈ d.done
        · rw [heed_of_mem hdone] at h
          cases h
        · rw [heed_of_notMem hdone] at h
          obtain rfl := List.mem_singleton.1 h
          refine ⟨_, _, rfl, fun herror => ?_⟩
          rw [isDone, Bool.or_eq_true]
          exact .inr herror
      · exact ih h

theorem tellsEnd_heedAll {d : Display} {vs : List VertexStatus} {digest : String}
    {error : Option String} :
    TellsEnd digest error (d.heedAll vs).2 ↔
      digest ∉ d.done ∧ ∃ v, firstDone? digest vs = some v ∧ v.error = error := by
  induction vs generalizing d with
  | nil => simp [heedAll, firstDone?, not_tellsEnd_nil]
  | cons v vs ih =>
      rw [heedAll, tellsEnd_append, ih]
      by_cases hmem : v.digest ∈ d.done
      · -- The display has told the end of `v` already, so `v` is left out.
        rw [heed_of_mem hmem, Option.toList_none, or_iff_right not_tellsEnd_nil, done_learn]
        refine and_congr_right fun hdigest => ?_
        have hne : v.digest ≠ digest := fun h => hdigest (h ▸ hmem)
        rw [firstDone?_cons_of_neg fun h => absurd h hne]
      · rw [heed_of_notMem hmem, Option.toList_some]
        cases hdone : isDone v with
        | false =>
            have hnone : ¬TellsEnd digest error [Event.step ((d.learn v).step v) false] := by
              rintro ⟨step, hstep, -⟩
              cases List.mem_singleton.1 hstep
            simp only [Bool.false_eq_true, if_false]
            rw [or_iff_right hnone, done_learn, firstDone?_cons_of_neg fun _ => hdone]
        | true =>
            have hthis : TellsEnd digest error [Event.step ((d.learn v).step v) true] ↔
                v.digest = digest ∧ v.error = error := by
              constructor
              · rintro ⟨step, hstep, hid, herror⟩
                cases List.mem_singleton.1 hstep
                exact ⟨hid, herror⟩
              · rintro ⟨hid, herror⟩
                exact ⟨_, List.mem_singleton_self _, hid, herror⟩
            simp only [if_true]
            rw [hthis]
            by_cases hdigest : v.digest = digest
            · subst hdigest
              rw [firstDone?_cons_of_pos rfl hdone]
              simp [hmem]
            · rw [firstDone?_cons_of_neg fun h => absurd h hdigest]
              simp [hdigest, Ne.symm hdigest]

theorem tellsError_heedAll {d : Display} {vs : List VertexStatus} {digest error : String} :
    TellsError digest error (d.heedAll vs).2 ↔ TellsEnd digest (some error) (d.heedAll vs).2 := by
  constructor
  · rintro ⟨step, final, hstep, hid, herror⟩
    obtain ⟨step', final', heq, hfinal⟩ := exists_step_of_mem_heedAll hstep
    cases heq
    obtain rfl := hfinal (by rw [herror]; rfl)
    exact ⟨step, hstep, hid, herror⟩
  · rintro ⟨step, hstep, hid, herror⟩
    exact ⟨step, true, hstep, hid, herror⟩

/-- What is printed is no step, so the steps are those that the vertexes lead to. -/
theorem step_mem_takeAll {d : Display} {news : List SolveStatus} {step : StepProgress}
    {final : Bool} :
    Event.step step final ∈ d.takeAll news ↔
      Event.step step final ∈ (d.heedAll (news.flatMap SolveStatus.vertexes)).2 := by
  induction news generalizing d with
  | nil => rfl
  | cons s news ih =>
      have hlogs : Event.step step final ∉ s.logs.flatMap logEvents := by
        intro h
        obtain ⟨log, -, hlog⟩ := List.mem_flatMap.1 h
        obtain ⟨line, -, hline⟩ := List.mem_map.1 hlog
        cases hline
      rw [List.flatMap_cons, heedAll_append, takeAll, take]
      simp only [List.mem_append, ih, hlogs, or_false]

theorem tellsEnd_takeAll {news : List SolveStatus} {digest : String} {error : Option String} :
    TellsEnd digest error (takeAll {} news) ↔
      ∃ v, firstDone? digest (news.flatMap SolveStatus.vertexes) = some v ∧ v.error = error := by
  rw [TellsEnd]
  simp only [step_mem_takeAll]
  refine tellsEnd_heedAll.trans (and_iff_right ?_)
  exact List.not_mem_nil

theorem tellsError_takeAll {news : List SolveStatus} {digest error : String} :
    TellsError digest error (takeAll {} news) ↔
      ∃ v, firstDone? digest (news.flatMap SolveStatus.vertexes) = some v ∧ v.error = some error := by
  rw [← tellsEnd_takeAll, TellsError, TellsEnd]
  simp only [step_mem_takeAll]
  exact tellsError_heedAll

end Display
end ImageBuild.Solve
