import ImageBuild.Proofs.Pipeline.Order
/-!
# The steps of a build

A build goes through its steps in a fixed order, and what each has come to can be read off the word of the
build and what it was given.  The first step that does not let the build go on settles how it ends, so
there is one such end.
-/

namespace ImageBuild

inductive Step where
  | probe
  | locate
  | package
  | info
  | drive
  | lookup
  | push
  | inspect
deriving DecidableEq

namespace Step

/-- The phase in which a step fails. -/
def phase : Step → Phase
  | probe | locate => .builderInit
  | package => .contextBuild
  | info | drive | inspect => .imageBuild
  | lookup | push => .push

/-- What is said of a step that fails: its own error, but for a report of the daemon that is not to be had. -/
def blame : Step → BuildError → BuildError
  | info, .cancelled => .cancelled
  | info, e => .buildFailed ("error fetching docker server info: " ++ e.message)
  | _, e => e

/-- The error of a build that ends with the failure of a step. -/
def told (step : Step) (cause : BuildError) : BuildError := (step.blame cause).inPhase step.phase

end Step

/-- How far steps have led that are taken one after the other. -/
inductive Verdict where
  /-- All of them have let the build go on. -/
  | through
  /-- A step has failed, the first to do so. -/
  | failed (step : Step) (cause : BuildError)
  /-- A step has not let the build go on, and has not failed. -/
  | stopped

/-- Of some steps, taken one after the other, the first that does not let a build go on settles the verdict. -/
inductive Along (came : Step → Except BuildError Bool → Prop) : List Step → Verdict → Prop where
  | through : Along came [] .through
  | failed {step : Step} {cause : BuildError} (rest : List Step) (h : came step (.error cause)) :
      Along came (step :: rest) (.failed step cause)
  | stopped {step : Step} (rest : List Step) (h : ∀ result, came step result → result = .ok false) :
      Along came (step :: rest) .stopped
  | next {step : Step} {rest : List Step} {verdict : Verdict} (h : came step (.ok true))
      (hrest : Along came rest verdict) : Along came (step :: rest) verdict

namespace Along

variable {came : Step → Except BuildError Bool → Prop} {front rest : List Step} {v v' : Verdict}

theorem unique (hcame : ∀ step result result', came step result → came step result' → result = result')
    (h : Along came rest v) (h' : Along came rest v') : v = v' := by
  induction h with
  | through => cases h'; rfl
  | failed _ hfailed =>
    cases h' with
    | failed _ hfailed' => cases hcame _ _ _ hfailed hfailed'; rfl
    | stopped _ hstopped => cases hstopped _ hfailed
    | next hnext _ => cases hcame _ _ _ hfailed hnext
  | stopped _ hstopped =>
    cases h' with
    | failed _ hfailed => cases hstopped _ hfailed
    | stopped => rfl
    | next hnext _ => cases hstopped _ hnext
  | next hnext _ ih =>
    cases h' with
    | failed _ hfailed => cases hcame _ _ _ hnext hfailed
    | stopped _ hstopped => cases hstopped _ hnext
    | next _ hrest => exact ih hrest

theorem through_iff : Along came rest .through ↔ ∀ step ∈ rest, came step (.ok true) := by
  induction rest with
  | nil => exact ⟨fun _ step h => (List.not_mem_nil h).elim, fun _ => .through⟩
  | cons step rest ih =>
      rw [List.forall_mem_cons, ← ih]
      constructor
      · rintro (_ | _ | _ | ⟨hnext, hrest⟩)
        exact ⟨hnext, hrest⟩
      · exact fun h => .next h.1 h.2

theorem mem_of_failed {step : Step} {cause : BuildError} (h : Along came rest (.failed step cause)) :
    step ∈ rest := by
  generalize hv : Verdict.failed step cause = v at h
  induction h with
  | through => cases hv
  | failed => cases hv; exact List.mem_cons_self
  | stopped => cases hv
  | next _ _ ih => exact List.mem_cons_of_mem _ (ih hv)

/-- Steps that let the build go on leave the verdict to those after them. -/
theorem append (hfront : ∀ step ∈ front, came step (.ok true)) (h : Along came rest v) :
    Along came (front ++ rest) v := by
  induction front with
  | nil => exact h
  | cons step front ih =>
      obtain ⟨hstep, hfront⟩ := List.forall_mem_cons.1 hfront
      exact .next hstep (ih hfront)

/-- What comes after a step that does not let the build go on has no part in the verdict. -/
theorem append_right (h : Along came front v) (hv : v ≠ .through) (rest : List Step) :
    Along came (front ++ rest) v := by
  induction h with
  | through => exact absurd rfl hv
  | failed _ hfailed => exact .failed _ hfailed
  | stopped _ hstopped => exact .stopped _ hstopped
  | next hnext _ ih => exact .next hnext (ih hv)

theorem mono {came' : Step → Except BuildError Bool → Prop}
    (himp : ∀ step ∈ rest, ∀ result, came step result → came' step result) (h : Along came rest v)
    (hv : v ≠ .stopped) : Along came' rest v := by
  induction h with
  | through => exact .through
  | failed _ hfailed => exact .failed _ (himp _ List.mem_cons_self _ hfailed)
  | stopped => exact absurd rfl hv
  | next hnext _ ih =>
    refine .next (himp _ List.mem_cons_self _ hnext) (ih (fun step hstep => ?_) hv)
    exact himp step (List.mem_cons_of_mem _ hstep)

end Along

variable {σ : Type}

namespace Job

/-- The steps of a build with a daemon that is there. -/
def pipeline (j : Job σ) : List Step :=
  [.package, .info, .drive] ++ ((if j.spec.publish then [.lookup, .push] else []) ++ [.inspect])

/-- The steps of a build. -/
def steps (j : Job σ) : List Step := [.probe, .locate] ++ j.pipeline

/-- What a way of building needs packed. -/
def packed (j : Job σ) (c : Capability) (dockerfile : Path) : Except BuildError (Option Context) :=
  match c.builder with
  | .session => .ok none
  | .classic => (Context.package j.fs dockerfile j.spec c.remote).map some

/-- The daemon was asked about an image, and this is what it had to say. -/
def Inspection (j : Job σ) (s₀ : Stage σ) (word : List Entry)
    (result : Except BuildError ImageDetails) : Prop :=
  ∃ front m id back, word = front ++ .called m (.inspect id) :: back ∧
    (j.daemon.inspect id (j.daemon.after s₀.daemon front)).1.pace.hangs = false ∧
    (j.daemon.inspect id (j.daemon.after s₀.daemon front)).1.result = result

/-- What a step has come to: an error, or whether the build goes on after it. -/
def Came (j : Job σ) (s₀ : Stage σ) (word : List Entry) (step : Step)
    (result : Except BuildError Bool) : Prop :=
  match step with
  | .probe => ∃ r, .reported (.probe r) ∈ word ∧ r.map Capability.available = result
  | .locate =>
    (Dockerfile.locate j.fs j.spec.workDir j.spec.dockerfile).map Option.isSome = result
  | .package => ∃ c dockerfile, .reported (.probe (.ok c)) ∈ word ∧
      Dockerfile.locate j.fs j.spec.workDir j.spec.dockerfile = .ok (some dockerfile) ∧
      (j.packed c dockerfile).map (fun _ => true) = result
  | .info => ∃ r, .reported (.info r) ∈ word ∧ r.map (fun _ => true) = result
  | .drive => ∃ r, .reported (.driver r) ∈ word ∧ r.map (fun _ => true) = result
  | .lookup => (j.credentials.forImage j.spec.tag).map (fun _ => true) = result
  | .push => ∃ r, .reported (.push r) ∈ word ∧ r.map (fun _ => true) = result
  | .inspect => ∃ r, j.Inspection s₀ word r ∧ r.map (fun _ => true) = result

variable {j : Job σ} {s₀ : Stage σ} {word : List Entry} {step : Step}
  {result result' : Except BuildError Bool}

theorem Inspection.append {r : Except BuildError ImageDetails} (h : j.Inspection s₀ word r)
    (more : List Entry) : j.Inspection s₀ (word ++ more) r := by
  obtain ⟨front, m, id, back, rfl, hreply⟩ := h
  exact ⟨front, m, id, back ++ more, by simp, hreply⟩

theorem Came.mono {word' : List Entry} (h : j.Came s₀ word step result) (hsub : word ⊆ word')
    (hstep : step ≠ .inspect) : j.Came s₀ word' step result := by
  cases step with
  | probe | info | drive | push => exact h.imp fun _ hr => ⟨hsub hr.1, hr.2⟩
  | locate | lookup => exact h
  | package =>
    obtain ⟨c, dockerfile, hprobe, hpacked⟩ := h
    exact ⟨c, dockerfile, hsub hprobe, hpacked⟩
  | inspect => exact absurd rfl hstep

theorem Came.append (h : j.Came s₀ word step result) (more : List Entry) :
    j.Came s₀ (word ++ more) step result := by
  by_cases hstep : step = .inspect
  · subst hstep
    exact h.imp fun _ hr => ⟨hr.1.append more, hr.2⟩
  · exact h.mono (List.subset_append_left word more) hstep

namespace Lawful

/-- A step that is taken once has one place. -/
theorem eq_front (h : j.Lawful s₀ word) {front front' back back' : List Entry} {y y' : Entry}
    (hword : word = front ++ y :: back) (hword' : word = front' ++ y' :: back')
    (hrank : y.rank = y'.rank) (hpush : y'.rank ≠ 9) (hremove : y'.rank ≠ 13) :
    front = front' ∧ y = y' := by
  have hnever : ∀ {front y back y'}, word = front ++ y :: back → y' ∈ back → y.rank = y'.rank →
      y'.rank ≠ 9 → y'.rank ≠ 13 → False := by
    intro front y back y' hword hmem hrank hpush hremove
    have horder := h.order
    rw [hword, List.pairwise_append, List.pairwise_cons] at horder
    rcases horder.2.1.1 y' hmem with hlt | ⟨-, hrepeats⟩
    · omega
    · exact (Entry.rank_of_repeats hrepeats).elim hpush hremove
  rcases List.append_eq_append_iff.1 (hword.symm.trans hword') with ⟨mid, rfl, hmid⟩ | ⟨mid, rfl, hmid⟩
  · cases mid with
    | nil => exact ⟨(List.append_nil front).symm, (List.cons.inj hmid).1⟩
    | cons z mid =>
        obtain ⟨rfl, hback⟩ := List.cons.inj hmid
        exact (hnever hword (hback ▸ by simp) hrank hpush hremove).elim
  · cases mid with
    | nil => exact ⟨List.append_nil front', (List.cons.inj hmid).1.symm⟩
    | cons z mid =>
        obtain ⟨rfl, hback⟩ := List.cons.inj hmid
        exact (hnever hword' (hback ▸ by simp) hrank.symm (hrank ▸ hpush) (hrank ▸ hremove)).elim

end Lawful

theorem Inspection.unique {r r' : Except BuildError ImageDetails} (hlawful : j.Lawful s₀ word)
    (h : j.Inspection s₀ word r) (h' : j.Inspection s₀ word r') : r = r' := by
  obtain ⟨front, m, id, back, hword, -, rfl⟩ := h
  obtain ⟨front', m', id', back', hword', -, rfl⟩ := h'
  obtain ⟨rfl, heq⟩ := hlawful.eq_front hword hword' rfl (by simp [Entry.rank]) (by simp [Entry.rank])
  cases heq
  rfl

/-- No step comes to two ends. -/
theorem Came.unique (hlawful : j.Lawful s₀ word) (h : j.Came s₀ word step result)
    (h' : j.Came s₀ word step result') : result = result' := by
  have hreports : ∀ {y y' : Entry}, y ∈ word → y' ∈ word → y.rank = y'.rank → y'.rank ≠ 9 →
      y'.rank ≠ 13 → y = y' := hlawful.eq_of_rank_eq
  cases step with
  | locate | lookup => exact h.symm.trans h'
  | probe | info | drive | push =>
    obtain ⟨r, hr, rfl⟩ := h
    obtain ⟨r', hr', rfl⟩ := h'
    cases hreports hr hr' rfl (by simp [Entry.rank]) (by simp [Entry.rank])
    rfl
  | package =>
    obtain ⟨c, p, hc, hp, rfl⟩ := h
    obtain ⟨c', p', hc', hp', rfl⟩ := h'
    cases hreports hc hc' rfl (by simp [Entry.rank]) (by simp [Entry.rank])
    cases hp.symm.trans hp'
    rfl
  | inspect =>
    obtain ⟨r, hr, rfl⟩ := h
    obtain ⟨r', hr', rfl⟩ := h'
    rw [hr.unique hlawful hr']

end Job
end ImageBuild
