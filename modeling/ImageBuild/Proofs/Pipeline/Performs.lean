import ImageBuild.Proofs.Pipeline.Legs
import ImageBuild.Proofs.Pipeline.Steps
/-!
# How the parts of a build go through its steps

A part of a build performs some of its steps if what it comes to is what these steps have led to: it
succeeds if all of them have let the build go on, it fails with what is said of the first that failed, and it
does not end if one of them has not come to an end.
-/

namespace ImageBuild

open Act

variable {σ α β : Type}

namespace Act

/-- The action takes no step, and nothing keeps it from its end. -/
def Passes (act : Act σ α) : Prop := ∀ s, Leads act s fun r t => Still s t ∧ ∃ a, r = .ok a

theorem Passes.bind {act : Act σ α} {f : α → Act σ β} (hact : Passes act) (hf : ∀ a, Passes (f a)) :
    Passes (act >>= f) := by
  intro s
  rw [leads_bind]
  refine (hact s).mono fun r t ht => ?_
  obtain ⟨hstill, a, rfl⟩ := ht
  exact (hf a t).mono fun _ _ hu => ⟨hstill.trans hu.1, hu.2⟩

theorem passes_pure (a : α) : Passes (pure a : Act σ α) := fun s => ⟨.refl s, a, rfl⟩

theorem passes_get : Passes (get : Act σ (Stage σ)) := fun s => ⟨.refl s, s, rfl⟩

theorem passes_note {e : Entry} (h : e.isStep = false) : Passes (note e : Act σ Unit) :=
  fun s => ⟨quiet_note h s, (), rfl⟩

theorem passes_start (p : Phase) : Passes (start p : Act σ Nat) :=
  fun s => ⟨quiet_start p s, s.recorder.starts, rfl⟩

theorem passes_announce (e : Event) : Passes (announce e : Act σ Unit) := by
  intro s
  refine Leads.and (quiet_announce e s) ?_
  rw [leads_announce]
  exact ⟨(), rfl⟩

end Act

namespace Job

/-- The result of an action is what some steps have led to. -/
def Tells (j : Job σ) (s₀ : Stage σ) (word : List Entry) (tell : Step → BuildError → BuildError)
    (steps : List Step) : Except Halt α → Prop
  | .ok _ => Along (j.Came s₀ word) steps .through
  | .error (.failed e) => ∃ step cause, Along (j.Came s₀ word) steps (.failed step cause) ∧
      e = tell step cause
  | .error _ => Along (j.Came s₀ word) steps .stopped

/-- The action takes a build on from a word to longer ones and goes through some steps there. -/
def Performs (j : Job σ) (s₀ : Stage σ) (word : List Entry) (k : Nat) (act : Act σ α) (n : Nat)
    (tell : Step → BuildError → BuildError) (steps : List Step) : Prop :=
  ∀ s, j.Progress s₀ word k s → Leads act s fun r t =>
    ∃ word', word ⊆ word' ∧ j.Progress s₀ word' n t ∧ j.Tells s₀ word' tell steps r

variable {j : Job σ} {s₀ : Stage σ} {word : List Entry} {k m n : Nat} {act : Act σ α} {f : α → Act σ β}
variable {tell : Step → BuildError → BuildError} {steps rest : List Step} {step : Step}

theorem Progress.word_unique {word' : List Entry} {t : Stage σ} (h : j.Progress s₀ word k t)
    (h' : j.Progress s₀ word' n t) : word = word' :=
  List.append_cancel_left (h.steps.symm.trans h'.steps)

namespace Tells

variable {r : Except Halt α}

/-- The steps that follow make no difference to an action that has come to nothing. -/
theorem append_right {h : Halt} (hr : j.Tells s₀ word tell steps (.error h : Except Halt α))
    (rest : List Step) : j.Tells s₀ word tell (steps ++ rest) (.error h : Except Halt β) := by
  cases h with
  | failed e =>
    obtain ⟨step, cause, halong, rfl⟩ := hr
    exact ⟨step, cause, halong.append_right nofun rest, rfl⟩
  | overdue => exact Along.append_right hr nofun rest
  | forever => exact Along.append_right hr nofun rest

theorem append (hfront : ∀ step ∈ steps, j.Came s₀ word step (.ok true))
    (hr : j.Tells s₀ word tell rest r) : j.Tells s₀ word tell (steps ++ rest) r := by
  rcases r with (e | _ | _) | a
  · obtain ⟨step, cause, halong, rfl⟩ := hr
    exact ⟨step, cause, halong.append hfront, rfl⟩
  · exact Along.append hfront hr
  · exact Along.append hfront hr
  · exact Along.append hfront hr

end Tells

namespace Performs

theorem passes_bind (hact : Passes act) (hf : ∀ a, j.Performs s₀ word k (f a) n tell steps) :
    j.Performs s₀ word k (act >>= f) n tell steps := by
  intro s hs
  rw [leads_bind]
  refine (hact s).mono fun r t ht => ?_
  obtain ⟨hstill, a, rfl⟩ := ht
  exact hf a t (hs.still hstill)

/-- Steps that are gone through one after the other.  The look at the image is the last of all. -/
theorem bind {facts : α → List Entry → Prop} (hact : j.Performs s₀ word k act m tell steps)
    (hfacts : j.Takes s₀ word k act m facts) (hn : m ≤ n) (hsteps : .inspect ∉ steps)
    (hf : ∀ a word', word ⊆ word' → facts a word' → j.Performs s₀ word' m (f a) n tell rest) :
    j.Performs s₀ word k (act >>= f) n tell (steps ++ rest) := by
  intro s hs
  rw [leads_bind]
  refine (Leads.and (hact s hs) (hfacts s hs)).mono fun r t ht => ?_
  obtain ⟨⟨word', hsub, hprogress, htells⟩, word'', -, hprogress', hfact⟩ := ht
  obtain rfl := hprogress.word_unique hprogress'
  cases r with
  | error h => exact ⟨word', hsub, hprogress.mono hn, htells.append_right rest⟩
  | ok a =>
      refine (hf a word' hsub (hfact a rfl) t hprogress).mono fun r u hu => ?_
      obtain ⟨longer, hlonger, hprogress'', htells'⟩ := hu
      refine ⟨longer, fun y hy => hlonger (hsub hy), hprogress'', htells'.append fun step hstep => ?_⟩
      refine (Along.through_iff.1 htells step hstep).mono hlonger ?_
      rintro rfl
      exact hsteps hstep

/-- Steps after which there is nothing left to do but what passes. -/
theorem bind_passes (hact : j.Performs s₀ word k act n tell steps) (hf : ∀ a, Passes (f a)) :
    j.Performs s₀ word k (act >>= f) n tell steps := by
  intro s hs
  rw [leads_bind]
  refine (hact s hs).mono fun r t ht => ?_
  obtain ⟨word', hsub, hprogress, htells⟩ := ht
  cases r with
  | error h =>
      refine ⟨word', hsub, hprogress, ?_⟩
      cases h <;> exact htells
  | ok a =>
      refine (hf a t).mono fun r u hu => ?_
      obtain ⟨hstill, b, rfl⟩ := hu
      exact ⟨word', hsub, hprogress.still hstill, htells⟩

theorem inPhase {p : Phase} (h : j.Performs s₀ word k act n Step.blame steps)
    (hphase : ∀ step ∈ steps, step.phase = p) :
    j.Performs s₀ word k (inPhase p act) n Step.told steps := by
  intro s hs
  rw [leads_inPhase]
  refine (h s hs).mono fun r t ht => ?_
  obtain ⟨word', hsub, hprogress, htells⟩ := ht
  rcases r with (e | _ | _) | a
  · obtain ⟨step, cause, halong, rfl⟩ := htells
    refine ⟨word', hsub, hprogress, step, cause, halong, ?_⟩
    rw [Step.told, hphase step halong.mem_of_failed]
  · exact ⟨word', hsub, hprogress, htells⟩
  · exact ⟨word', hsub, hprogress, htells⟩
  · exact ⟨word', hsub, hprogress, htells⟩

theorem closing (ticket : Nat) (h : j.Performs s₀ word k act n tell steps) :
    j.Performs s₀ word k (closing ticket act) n tell steps := by
  intro s hs
  refine leads_closing (fun r t u htu ht => ?_) (h s hs)
  obtain ⟨word', hsub, hprogress, htells⟩ := ht
  exact ⟨word', hsub, hprogress.still htu, htells⟩

theorem during (p : Phase) (h : j.Performs s₀ word k act n tell steps) :
    j.Performs s₀ word k (during p act) n tell steps :=
  passes_bind (passes_start p) fun ticket => h.closing ticket

/-- A step that is settled by what the build was given. -/
theorem ofExcept {result : Except BuildError α} (hblame : ∀ e, step.blame e = e)
    (h : j.Came s₀ word step (result.map fun _ => true)) :
    j.Performs s₀ word k (ofExcept result) k Step.blame [step] := by
  intro s hs
  rw [leads_ofExcept]
  refine ⟨word, List.Subset.refl word, hs, ?_⟩
  cases result with
  | error e => exact ⟨step, e, .failed [] h, (hblame e).symm⟩
  | ok a => exact .next h .through

/-- A step of which there is a report if it has come to an end. -/
theorem reporting {facts : α → List Entry → Prop} {report : Except BuildError α → Report}
    (hact : j.Takes s₀ word k act n facts)
    (hrank : ∀ result, (Entry.reported (report result)).rank = n + 1)
    (hok : ∀ a word', word ⊆ word' → facts a word' → j.Warrant s₀ word' (.reported (report (.ok a))))
    (herror : ∀ e word', j.Warrant s₀ word' (.reported (report (.error e))))
    (hblame : ∀ e, step.blame e = e)
    (hreported : ∀ {word' result}, .reported (report result) ∈ word' →
      j.Came s₀ word' step (result.map fun _ => true))
    (hunreported : ∀ {word' result}, j.Came s₀ word' step result → ∃ y ∈ word', y.rank = n + 1) :
    j.Performs s₀ word k (reporting report act) (n + 1) Step.blame [step] := by
  intro s hs
  refine (hact.reporting_leads hrank hok herror hs).mono fun r t ht => ?_
  obtain ⟨word', hsub, ⟨result, rfl, hprogress⟩ | ⟨⟨halt, rfl, hhalt⟩, hprogress⟩⟩ := ht
  · have hcame : j.Came s₀ (word' ++ [.reported (report result)]) step (result.map fun _ => true) :=
      hreported (by simp)
    refine ⟨_, List.subset_append_of_subset_left _ hsub, hprogress, ?_⟩
    cases result with
    | error e => exact ⟨step, e, .failed [] hcame, (hblame e).symm⟩
    | ok a => exact .next hcame .through
  · refine ⟨word', hsub, hprogress.mono (Nat.le_succ n), ?_⟩
    have hnever : Along (j.Came s₀ word') [step] .stopped := by
      refine .stopped [] fun result hcame => ?_
      obtain ⟨y, hy, hreport⟩ := hunreported hcame
      have := hprogress.rank_le y hy
      omega
    cases halt with
    | failed e => exact absurd rfl (hhalt e)
    | overdue => exact hnever
    | forever => exact hnever

end Performs
end Job
end ImageBuild
