import ImageBuild.Daemon.Script
import ImageBuild.Proofs.Push.Course
/-!
# Trying again

By induction on the attempts, a push runs a course: each attempt that fails before the last is
followed by the report of its failure, the delay and the course of the attempts after it.
-/

namespace ImageBuild.Push

open Act

variable {σ : Type} {p : Plan σ} {s t u : Stage σ} {first patience : Nat}
variable {latest : Option BuildError} {r : Except Halt Unit}

theorem Ending.cons {attempts told : Nat} {e : BuildError}
    (hfailure : failure? (p.reply 0 s.daemon) = some e)
    (hnow : u.now = s.now + (span? (p.reply 0 s.daemon)).getD 0 + p.settings.pushRetryDelay)
    (hdaemon : u.daemon = p.stateAfter 1 s.daemon) (hcancelAt : u.cancelAt = s.cancelAt)
    (h : Ending p (first + 1) (some e) patience u attempts told t r) :
    Ending p first latest (patience + 1) s (attempts + 1) (told + 1) t r := by
  have hreply : ∀ i, p.reply i u.daemon = p.reply (i + 1) s.daemon := by
    intro i
    rw [hdaemon, Plan.reply_succ]
  have hstart : ∀ i, p.startAt u.now u.daemon i = p.startAt s.now s.daemon (i + 1) := by
    intro i
    rw [hnow, hdaemon, Plan.startAt_succ]
  have hremembered : remembered p (some e) u.daemon told =
      remembered p latest s.daemon (told + 1) := by
    cases told with
    | zero => exact hfailure.symm
    | succ m => exact congrArg failure? (hreply m)
  have hverdict : verdict p (some e) u.daemon told = verdict p latest s.daemon (told + 1) := by
    rw [verdict, verdict, hremembered]
  cases h with
  | succeeded k hlast hfail hspan hend =>
      rw [hreply] at hfail hspan
      rw [hstart] at hend
      exact .succeeded k (by omega) hfail hspan hend
  | exhausted k e' hlast hfail hne hspan hend hpos hmax =>
      rw [hreply] at hfail hspan
      rw [hstart] at hend
      exact .exhausted k e' (by omega) hfail hne hspan hend hpos (by omega)
  | gaveUpBefore hlast hgave hend =>
      rw [hstart] at hend
      rw [hverdict]
      exact .gaveUpBefore (by omega) hgave hend
  | gaveUpWithin hlast hgave hend =>
      rw [hreply, hstart] at hend
      rw [hverdict]
      exact .gaveUpWithin (by omega) hgave hend
  | calledOff k hlast hfail hspan hend =>
      rw [hreply] at hfail hspan
      rw [hstart] at hend
      rw [hverdict]
      exact .calledOff k (by omega) hfail hspan hend
  | endless hwhy =>
      rw [hreply, hcancelAt] at hwhy
      refine .endless ?_
      rcases hwhy with ⟨hlast, hrest⟩ | ⟨ha, ht⟩
      · exact .inl ⟨by omega, hrest⟩
      · exact .inr ⟨by omega, by omega⟩

/-- An attempt that fails, and the course of the attempts after it. -/
theorem Course.cons {attempts told : Nat} {e : BuildError} (h : Attempted p first (some e) s u)
    (hfailure : failure? (p.reply 0 s.daemon) = some e) (hne : e ≠ .cancelled)
    {k : Nat} (hspan : span? (p.reply 0 s.daemon) = some k)
    (hnow : u.now = s.now + k + p.settings.pushRetryDelay)
    (hgives : givesUp (p.reply 0 s.daemon) = false) (hhook : p.hookGivesUp first e = false)
    (hcourse : Course p (first + 1) (some e) patience u attempts told r t) :
    Course p first latest (patience + 1) s (attempts + 1) (told + 1) r t := by
  have hnow' : u.now = s.now + (span? (p.reply 0 s.daemon)).getD 0 + p.settings.pushRetryDelay := by
    rw [hspan, hnow, Option.getD_some]
  have hreply : ∀ i, p.reply (i + 1) s.daemon = p.reply i u.daemon := by
    intro i
    rw [h.daemon, Plan.reply_succ]
  have hstart : ∀ i, p.startAt s.now s.daemon (i + 1) = p.startAt u.now u.daemon i := by
    intro i
    rw [hnow', h.daemon, Plan.startAt_succ]
  have hnumber : ∀ i, first + (i + 1) = first + 1 + i := by
    intro i
    omega
  have hnever : ¬(givesUp (p.reply 0 s.daemon) = true ∨ p.hookGivesUp first e = true) := by
    simp [hgives, hhook]
  -- The new attempt comes before those of the course, each of which is one later now.
  constructor
  · have hfirst : p.attemptSteps first s.now s.daemon (told + 1) 0 =
        .called s.now (.push p.tag p.credentials) :: p.report first e := by
      rw [Plan.attemptSteps, if_pos (Nat.succ_pos told), hfailure]
      simp [Plan.startAt]
    have hrest : ∀ i, p.attemptSteps first s.now s.daemon (told + 1) (i + 1) =
        p.attemptSteps (first + 1) u.now u.daemon told i := by
      intro i
      rw [Plan.attemptSteps_succ, ← hnow', ← h.daemon]
    rw [hcourse.steps, h.steps, List.range_succ_eq_map, List.flatMap_cons, List.flatMap_map,
      hfirst]
    simp [hrest]
  · rw [hcourse.daemon, h.daemon, ← Plan.stateAfter_succ]
  · have := hcourse.told_le
    omega
  · intro i hi
    cases i with
    | zero => exact ⟨⟨e, hfailure, hne⟩, k, hspan⟩
    | succ j =>
        rw [hreply]
        exact hcourse.failed j (Nat.lt_of_succ_lt_succ hi)
  · intro hpos
    have := hcourse.allowed hpos
    omega
  · refine ⟨fun hs => absurd hs (by simp [h.idle]), fun c hc i hi => ?_, fun i hi => ?_⟩
    · cases i with
      | zero => exact h.inTime c hc
      | succ j =>
          rw [hstart]
          exact hcourse.willing.2.1 c (h.cancelAt.trans hc) j (Nat.lt_of_succ_lt_succ hi)
    · cases i with
      | zero =>
          refine ⟨hgives, fun e' he' => ?_⟩
          cases hfailure.symm.trans he'
          exact hhook
      | succ j =>
          rw [hreply, hnumber]
          exact hcourse.willing.2.2 j (Nat.lt_of_succ_lt_succ hi)
  · exact Nat.le_trans h.now_le hcourse.now_le
  · intro c hc
    have hfirst := h.prompt c hc
    have hsecond := hcourse.prompt c (h.cancelAt.trans hc)
    omega
  · exact hcourse.cancelAt.trans h.cancelAt
  · intro ht
    rcases hcourse.reason ht with hu | ⟨c, hc, hle⟩ | ⟨i, hi, hi'⟩ | ⟨i, hi, e', he', hi'⟩
    · rcases h.reason hu with ⟨c, hc, hle⟩ | hgave | ⟨e', he', hgave⟩
      · exact .inr (.inl ⟨c, hc, Nat.le_trans hle hcourse.now_le⟩)
      · exact absurd (.inl hgave) hnever
      · cases he'
        exact absurd (.inr hgave) hnever
    · exact .inr (.inl ⟨c, h.cancelAt.symm.trans hc, hle⟩)
    · exact .inr (.inr (.inl ⟨i + 1, Nat.succ_lt_succ hi, hreply i ▸ hi'⟩))
    · exact .inr (.inr (.inr ⟨i + 1, Nat.succ_lt_succ hi, e', hreply i ▸ he', hnumber i ▸ hi'⟩))
  · exact hcourse.ending.cons hfailure hnow' h.daemon h.cancelAt


/-! ## The whole row of attempts -/

/-- A push from its attempt with number `first` on, as the plan has it. -/
def Plan.attemptsFrom (p : Plan σ) (patience first : Nat) (latest : Option BuildError) :
    Act σ Unit :=
  tryFrom p.daemon p.settings p.tag p.credentials p.retryHook patience first latest

def Plan.settle (p : Plan σ) (patience first : Nat) (e : BuildError) : Act σ Unit :=
  if isLast p.settings first then fail (classify p.tag e)
  else
    p.retryHook first e >>= fun _ =>
      attempt (pause p.settings.pushRetryDelay) >>= fun
        | .ok () => p.attemptsFrom patience (first + 1) (some e)
        | .error _ => giveUp p.tag (some e)

end ImageBuild.Push
