import ImageBuild.Proofs.Solve.Display
import Mathlib.Data.List.Induction
import Mathlib.Data.List.TakeWhile
/-!
# What a display tells, from first to last

What is shown of a vertex depends on its own news alone.  They are told one by one up to the first that the
vertex is done, and each under the first name that the vertex had by then; the names that come after the end
are still kept, but there is nothing left to tell.  What the vertexes print is shown in any case, after the
steps of its own news.
-/

namespace ImageBuild.Solve

def stepFor? (digest : String) (e : Event) : Option (StepProgress × Bool) :=
  match e.subject with
  | .step s => if s.id = digest then some (s, e.final) else none
  | .text _ => none

/-- The steps of one vertex among some events, each with whether it is the last word. -/
def stepsOf (digest : String) (events : List Event) : List (StepProgress × Bool) :=
  events.filterMap (stepFor? digest)

def newsOf (digest : String) (vs : List VertexStatus) : List VertexStatus :=
  vs.filter fun v => v.digest == digest

/-- The news of a vertex, from all that was sent. -/
def newsSent (digest : String) (news : List SolveStatus) : List VertexStatus :=
  newsOf digest (news.flatMap SolveStatus.vertexes)

def firstName? (vs : List VertexStatus) : Option String :=
  (vs.map VertexStatus.name).find? (· ≠ "")

/-- The news of a vertex up to the first that it is done. -/
def untilDone (vs : List VertexStatus) : List VertexStatus :=
  vs.takeWhile (fun v => !isDone v) ++ (vs.find? isDone).toList

def stepAs (name : String) (v : VertexStatus) : StepProgress where
  id := v.digest
  name := name
  current := v.current
  total := v.total
  cached := v.cached
  error := v.error

/-- News of one vertex, each under the first name that was given so far. -/
def told (vs : List VertexStatus) : List (StepProgress × Bool) :=
  vs.mapIdx fun i v => (stepAs ((firstName? (vs.take (i + 1))).getD "") v, isDone v)

/-- The lines that a vertex printed and that hold more than blanks, each behind the short form of its digest. -/
def printed (log : VertexLog) : List String :=
  ((Text.lines log.message).filter fun line => line.toList.any fun c => !Text.isBlank c).map fun line =>
    "#" ++ String.ofList ((Text.dropHeads "sha256:".toList log.vertex.toList).take 12) ++ " " ++ line

def textFor? (e : Event) : Option String :=
  match e.subject with
  | .text line => some line
  | .step _ => none

/-- The lines among some events. -/
def textsOf (events : List Event) : List String := events.filterMap textFor?

theorem logEvents_eq (log : VertexLog) : logEvents log = (printed log).map Event.text := by
  have hblank : (fun line : String => !Text.isBlankText line) = fun line => line.toList.any fun c => !Text.isBlank c :=
    funext fun _ => List.not_all_eq_any_not
  rw [logEvents, Text.nonBlankLines, hblank, printed, List.map_map]
  rfl

theorem flatMap_logEvents (logs : List VertexLog) :
    logs.flatMap logEvents = (logs.flatMap printed).map Event.text := by
  rw [List.map_flatMap, funext logEvents_eq]

theorem textsOf_append (events later : List Event) :
    textsOf (events ++ later) = textsOf events ++ textsOf later :=
  List.filterMap_append

theorem isDone_iff (v : VertexStatus) :
    isDone v = true ↔ v.completed = true ∨ v.cached = true ∨ v.error.isSome = true := by
  rw [isDone, Bool.or_eq_true, Bool.or_eq_true, or_assoc]

theorem stepsOf_append (digest : String) (events later : List Event) :
    stepsOf digest (events ++ later) = stepsOf digest events ++ stepsOf digest later :=
  List.filterMap_append

theorem newsOf_concat (digest : String) (vs : List VertexStatus) (v : VertexStatus) :
    newsOf digest (vs ++ [v]) = newsOf digest vs ++ if v.digest = digest then [v] else [] := by
  rw [newsOf, List.filter_append]
  by_cases h : v.digest = digest <;> simp [newsOf, h]

theorem firstName?_concat (vs : List VertexStatus) (v : VertexStatus) :
    firstName? (vs ++ [v]) = (firstName? vs).or (if v.name = "" then none else some v.name) := by
  rw [firstName?, List.map_append, List.find?_append]
  by_cases h : v.name = "" <;> simp [firstName?, h]

theorem told_concat (vs : List VertexStatus) (v : VertexStatus) :
    told (vs ++ [v]) =
      told vs ++ [(stepAs ((firstName? (vs ++ [v])).getD "") v, isDone v)] := by
  rw [told, List.mapIdx_concat]
  congr 1
  · refine List.ext_getElem (by simp [told]) fun i hi _ => ?_
    rw [List.length_mapIdx] at hi
    simp [told, List.take_append_of_le_length (Nat.succ_le_of_lt hi)]
  · rw [List.take_of_length_le (by simp)]

theorem untilDone_of_open {vs : List VertexStatus} (h : ¬vs.any isDone) : untilDone vs = vs := by
  have hopen : ∀ v ∈ vs, (!isDone v) = true := by simpa using h
  have hnone : vs.find? isDone = none := List.find?_eq_none.2 (by simpa using hopen)
  rw [untilDone, hnone, List.takeWhile_eq_self_iff.2 hopen]
  exact List.append_nil vs

theorem untilDone_concat_of_done {vs : List VertexStatus} (h : vs.any isDone) (v : VertexStatus) :
    untilDone (vs ++ [v]) = untilDone vs := by
  obtain ⟨u, hu, hend⟩ := List.any_eq_true.1 h
  obtain ⟨first, hfirst⟩ := Option.isSome_iff_exists.1 (List.find?_isSome.2 ⟨u, hu, hend⟩)
  rw [untilDone, untilDone, List.find?_append, hfirst, Option.some_or, List.takeWhile_append, if_neg]
  intro hlength
  have hwhole := List.IsPrefix.eq_of_length (List.takeWhile_prefix _) hlength
  simpa [hend] using List.takeWhile_eq_self_iff.1 hwhole u hu

theorem untilDone_concat_of_open {vs : List VertexStatus} (h : ¬vs.any isDone) (v : VertexStatus) :
    untilDone (vs ++ [v]) = vs ++ [v] := by
  have hopen : ∀ u ∈ vs, (!isDone u) = true := by simpa using h
  have hnone : vs.find? isDone = none := List.find?_eq_none.2 (by simpa using hopen)
  rw [untilDone, List.find?_append, hnone, Option.none_or, List.takeWhile_append_of_pos hopen]
  cases hv : isDone v <;> simp [hv]

/-- Only the last of the steps that are told is the last word, and it is there just if the vertex is done. -/
theorem told_untilDone_ends (vs : List VertexStatus) :
    (told (untilDone vs)).map Prod.snd =
      List.replicate (vs.takeWhile fun v => !isDone v).length false ++
        if vs.any isDone then [true] else [] := by
  have hends (us : List VertexStatus) : (told us).map Prod.snd = us.map isDone := by
    refine List.ext_getElem (by simp [told]) fun i _ _ => ?_
    simp [told]
  rw [hends, untilDone, List.map_append]
  congr 1
  · refine List.eq_replicate_iff.2 ⟨by simp, fun b hb => ?_⟩
    obtain ⟨v, hv, rfl⟩ := List.mem_map.1 hb
    simpa using List.mem_takeWhile_imp hv
  · cases hfind : vs.find? isDone with
    | none => simpa using hfind
    | some v =>
        have hdone := List.find?_some hfind
        have hany : vs.any isDone = true := List.any_eq_true.2 ⟨v, List.mem_of_find?_eq_some hfind, hdone⟩
        simp [hdone, hany]

namespace Display

/-- The display has heard these news, and no others. -/
structure Heard (d : Display) (vs : List VertexStatus) : Prop where
  name : ∀ digest, d.name? digest = firstName? (newsOf digest vs)
  done : ∀ digest, digest ∈ d.done ↔ (newsOf digest vs).any isDone = true

theorem heard_nil : Heard {} [] := ⟨fun _ => rfl, fun _ => by simp [newsOf]⟩

theorem name?_learn (d : Display) (v : VertexStatus) (digest : String) :
    (d.learn v).name? digest =
      (d.name? digest).or (if v.digest = digest ∧ v.name ≠ "" then some v.name else none) := by
  rw [learn]
  split_ifs with hlearn hgiven hgiven
  · rw [name?, List.find?_append, Option.map_or, ← name?]
    simp [hgiven.1]
  · have hdigest : v.digest ≠ digest := fun h => hgiven ⟨h, hlearn.1⟩
    rw [name?, List.find?_append, Option.map_or, ← name?]
    simp [hdigest]
  · obtain ⟨name, hname⟩ := Option.ne_none_iff_exists'.1 fun h => hlearn ⟨hgiven.2, hgiven.1 ▸ h⟩
    rw [hname, Option.some_or]
  · rw [Option.or_none]

theorem name?_heed (d : Display) (v : VertexStatus) (digest : String) :
    (d.heed v).1.name? digest = (d.learn v).name? digest := by
  rw [heed]
  dsimp only
  split_ifs <;> rfl

theorem mem_done_heed (d : Display) (v : VertexStatus) (digest : String) :
    digest ∈ (d.heed v).1.done ↔ digest ∈ d.done ∨ v.digest = digest ∧ isDone v = true := by
  by_cases hmem : v.digest ∈ d.done
  · rw [heed_of_mem hmem, done_learn]
    exact ⟨.inl, fun h => h.elim id fun h => h.1 ▸ hmem⟩
  · rw [heed_of_notMem hmem]
    cases isDone v <;> simp [or_comm, eq_comm]

theorem Heard.name?_learn {d : Display} {vs : List VertexStatus} (h : d.Heard vs) (v : VertexStatus)
    (digest : String) : (d.learn v).name? digest = firstName? (newsOf digest (vs ++ [v])) := by
  rw [Display.name?_learn, h.name, newsOf_concat]
  by_cases hdigest : v.digest = digest
  · rw [if_pos hdigest, firstName?_concat]
    by_cases hname : v.name = "" <;> simp [hdigest, hname]
  · simp [hdigest]

theorem Heard.heed {d : Display} {vs : List VertexStatus} (h : d.Heard vs) (v : VertexStatus) :
    (d.heed v).1.Heard (vs ++ [v]) where
  name digest := by rw [name?_heed, h.name?_learn]
  done digest := by
    rw [mem_done_heed, h.done, newsOf_concat, List.any_append, Bool.or_eq_true]
    by_cases hdigest : v.digest = digest <;> simp [hdigest]

theorem Heard.step_learn {d : Display} {vs : List VertexStatus} (h : d.Heard vs) (v : VertexStatus) :
    (d.learn v).step v = stepAs ((firstName? (newsOf v.digest vs ++ [v])).getD "") v := by
  have hname := h.name?_learn v v.digest
  rw [newsOf_concat, if_pos rfl] at hname
  rw [step, hname, firstName?_concat]
  by_cases hv : v.name = ""
  · rw [hv]
    rfl
  · rw [if_neg hv]
    cases firstName? (newsOf v.digest vs) <;> rfl

theorem Heard.stepsOf_heed {d : Display} {vs : List VertexStatus} (h : d.Heard vs) (v : VertexStatus)
    (digest : String) :
    told (untilDone (newsOf digest (vs ++ [v]))) =
      told (untilDone (newsOf digest vs)) ++ stepsOf digest (d.heed v).2.toList := by
  have hdone := h.done v.digest
  rw [newsOf_concat]
  by_cases hmem : v.digest ∈ d.done
  · rw [heed_of_mem hmem, Option.toList_none, stepsOf, List.filterMap_nil, List.append_nil]
    split_ifs with hdigest
    · rw [untilDone_concat_of_done (hdigest ▸ hdone.1 hmem)]
    · rw [List.append_nil]
  · have hopen : ¬(newsOf v.digest vs).any isDone := fun hend => hmem (hdone.2 hend)
    rw [heed_of_notMem hmem, Option.toList_some, h.step_learn]
    split_ifs with hdigest
    · subst hdigest
      rw [untilDone_concat_of_open hopen, untilDone_of_open hopen, told_concat]
      simp [stepsOf, stepFor?, Event.step, stepAs]
    · simp [stepsOf, stepFor?, Event.step, stepAs, hdigest]

theorem heard_heedAll (vs : List VertexStatus) (digest : String) :
    (heedAll {} vs).1.Heard vs ∧
      stepsOf digest (heedAll {} vs).2 = told (untilDone (newsOf digest vs)) := by
  induction vs using List.reverseRec with
  | nil => exact ⟨heard_nil, rfl⟩
  | append_singleton vs v ih =>
      rw [heedAll_append, stepsOf_append, ih.2, ih.1.stepsOf_heed]
      exact ⟨ih.1.heed v, by simp [heedAll]⟩

theorem stepsOf_logEvents (digest : String) (logs : List VertexLog) :
    stepsOf digest (logs.flatMap logEvents) = [] := by
  refine List.filterMap_eq_nil_iff.2 fun e he => ?_
  obtain ⟨log, -, hlog⟩ := List.mem_flatMap.1 he
  obtain ⟨line, -, rfl⟩ := List.mem_map.1 hlog
  rfl

theorem stepsOf_takeAll (d : Display) (news : List SolveStatus) (digest : String) :
    stepsOf digest (d.takeAll news) =
      stepsOf digest (d.heedAll (news.flatMap SolveStatus.vertexes)).2 := by
  induction news generalizing d with
  | nil => rfl
  | cons s news ih =>
      rw [List.flatMap_cons, heedAll_append, takeAll, take]
      simp only [stepsOf_append, stepsOf_logEvents, List.append_nil, ih]

/-- The lines that are shown are those that the vertexes printed. -/
theorem textsOf_takeAll (d : Display) (news : List SolveStatus) :
    textsOf (d.takeAll news) = news.flatMap fun s => s.logs.flatMap printed := by
  induction news generalizing d with
  | nil => rfl
  | cons s news ih =>
      have hsteps : textsOf (d.heedAll s.vertexes).2 = [] := by
        refine List.filterMap_eq_nil_iff.2 fun e he => ?_
        obtain ⟨step, final, rfl, -⟩ := exists_step_of_mem_heedAll he
        rfl
      have hlogs : textsOf (s.logs.flatMap logEvents) = s.logs.flatMap printed := by
        rw [flatMap_logEvents, textsOf, List.filterMap_map]
        exact List.filterMap_some
      rw [takeAll, take, textsOf_append, textsOf_append, hsteps, hlogs, ih, List.flatMap_cons]
      rfl

/-- One more of the news adds its steps, and then what the vertexes printed. -/
theorem takeAll_concat (d : Display) (news : List SolveStatus) (s : SolveStatus) :
    d.takeAll (news ++ [s]) =
      d.takeAll news ++ (((d.heedAll (news.flatMap SolveStatus.vertexes)).1.heedAll s.vertexes).2 ++
        s.logs.flatMap logEvents) := by
  induction news generalizing d with
  | nil => simp [takeAll, take, heedAll]
  | cons t news ih =>
      simp only [List.cons_append, takeAll, take, ih, List.flatMap_cons, heedAll_append, List.append_assoc]

/-- For every vertex the display tells the news up to the first that it is done, each under the first name given so
far; so only the last of the steps can be the last word, and it is there just if the vertex is done: completed, taken
from the cache or gone wrong.  Every one of the news adds steps of vertexes to what was told before, and after them the
lines that its vertexes printed, whatever is done by then; there are no other lines. -/
theorem takeAll_tells (news : List SolveStatus) :
    (∀ digest,
      stepsOf digest (takeAll {} news) = told (untilDone (newsSent digest news)) ∧
        (stepsOf digest (takeAll {} news)).map Prod.snd =
          List.replicate ((newsSent digest news).takeWhile fun v => !isDone v).length false ++
            if (newsSent digest news).any isDone then [true] else []) ∧
      (∀ v, isDone v = true ↔ v.completed = true ∨ v.cached = true ∨ v.error.isSome = true) ∧
      (∀ s, ∃ steps, takeAll {} (news ++ [s]) = takeAll {} news ++ (steps ++ s.logs.flatMap logEvents) ∧
        s.logs.flatMap logEvents = (s.logs.flatMap printed).map Event.text ∧
        ∀ e ∈ steps, ∃ step final, e = Event.step step final) ∧
      textsOf (takeAll {} news) = news.flatMap fun s => s.logs.flatMap printed := by
  refine ⟨fun digest => ?_, isDone_iff,
    fun s => ⟨_, takeAll_concat {} news s, flatMap_logEvents s.logs, fun e he => ?_⟩, textsOf_takeAll {} news⟩
  · have hsteps : stepsOf digest (takeAll {} news) = told (untilDone (newsSent digest news)) :=
      (stepsOf_takeAll {} news digest).trans (heard_heedAll _ digest).2
    rw [hsteps]
    exact ⟨rfl, told_untilDone_ends _⟩
  · obtain ⟨step, final, hstep, -⟩ := exists_step_of_mem_heedAll he
    exact ⟨step, final, hstep⟩

example :
    stepsOf "sha256:a" (takeAll {}
        [{ vertexes := [⟨"sha256:a", "", false, true, false, 0, none, none⟩,
            ⟨"sha256:a", "RUN make", false, true, false, 1, none, none⟩] },
          { vertexes := [⟨"sha256:a", "make", false, true, true, 2, none, none⟩,
            ⟨"sha256:a", "", false, true, true, 2, none, none⟩] }]) =
      [(⟨"sha256:a", "", 0, none, false, none⟩, false),
        (⟨"sha256:a", "RUN make", 1, none, false, none⟩, false),
        (⟨"sha256:a", "RUN make", 2, none, false, none⟩, true)] := by
  decide

end Display

end ImageBuild.Solve
