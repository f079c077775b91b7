import ImageBuild.Proofs.Push.Attempt
/-!
# The course of a push

A push is a row of attempts, each of which starts when the one before it has failed and the delay has
passed.  The daemon's replies say when each attempt ends and how, so they say when every attempt
starts.  A course tells how many attempts there are, what is reported between them and how the row
ends: with a success, with the last attempt that is allowed, or when the caller gives up.
-/

namespace ImageBuild.Push

/-- What a push is given. -/
structure Plan (σ : Type) where
  daemon : Daemon σ
  settings : Settings
  tag : String
  credentials : Option Registry.Credentials
  /-- Whether the hook gives up on hearing of a failure, if there is a hook. -/
  hook : Option (Nat → BuildError → Bool)

namespace Plan

variable {σ : Type} (p : Plan σ)

/-- A hook reports a failure, and may give up. -/
def retryHook : RetryHook σ := fun attempt e =>
  match p.hook with
  | none => pure ()
  | some gives => do
    Act.note (.retried attempt e)
    if gives attempt e then Act.cancel else pure ()

def report (attempt : Nat) (e : BuildError) : List Entry :=
  if p.hook.isSome then [.retried attempt e] else []

def hookGivesUp (attempt : Nat) (e : BuildError) : Bool :=
  p.hook.any fun gives => gives attempt e

/-- The state of the daemon after so many pushes. -/
def stateAfter : Nat → σ → σ
  | 0, x => x
  | n + 1, x => (p.daemon.push p.tag p.credentials (stateAfter n x)).2

/-- The reply to a push that comes after so many others. -/
def reply (i : Nat) (x : σ) : Reply (List (Beat PushMessage)) :=
  (p.daemon.push p.tag p.credentials (p.stateAfter i x)).1

/-- When an attempt starts that comes after so many others. -/
def startAt (now : Nat) (x : σ) : Nat → Nat
  | 0 => now
  | i + 1 => startAt now x i + (span? (p.reply i x)).getD 0 + p.settings.pushRetryDelay

/-- The steps of an attempt: the call, and the report of its failure if it has one. -/
def attemptSteps (first now : Nat) (x : σ) (told i : Nat) : List Entry :=
  .called (p.startAt now x i) (.push p.tag p.credentials) ::
    if i < told then (failure? (p.reply i x)).toList.flatMap (p.report (first + i)) else []

theorem stateAfter_succ (n : Nat) (x : σ) :
    p.stateAfter (n + 1) x = p.stateAfter n (p.stateAfter 1 x) := by
  induction n with
  | zero => rfl
  | succ n ih =>
      rw [stateAfter, ih]
      rfl

theorem reply_succ (i : Nat) (x : σ) : p.reply (i + 1) x = p.reply i (p.stateAfter 1 x) := by
  rw [reply, reply, stateAfter_succ]

theorem startAt_succ (now : Nat) (x : σ) (i : Nat) :
    p.startAt now x (i + 1) =
      p.startAt (now + (span? (p.reply 0 x)).getD 0 + p.settings.pushRetryDelay)
        (p.stateAfter 1 x) i := by
  induction i with
  | zero => rfl
  | succ i ih => rw [startAt, ih, reply_succ, startAt]

theorem attemptSteps_succ (first now : Nat) (x : σ) (told i : Nat) :
    p.attemptSteps first now x (told + 1) (i + 1) =
      p.attemptSteps (first + 1)
        (now + (span? (p.reply 0 x)).getD 0 + p.settings.pushRetryDelay)
        (p.stateAfter 1 x) told i := by
  rw [attemptSteps, attemptSteps, startAt_succ, reply_succ, Nat.add_right_comm first 1 i,
    Nat.add_assoc first i 1]
  simp only [Nat.add_lt_add_iff_right]

end Plan

/-- The failure that a push remembers after so many attempts. -/
def remembered {σ : Type} (p : Plan σ) (latest : Option BuildError) (x : σ) : Nat → Option BuildError
  | 0 => latest
  | m + 1 => failure? (p.reply m x)

/-- What a push that is given up comes to after so many attempts. -/
def verdict {σ : Type} (p : Plan σ) (latest : Option BuildError) (x : σ) (told : Nat) : BuildError :=
  ((remembered p latest x told).map (classify p.tag)).getD .cancelled

/-- How a push ends of which `told` attempts have failed before the last, if there is one more. -/
inductive Ending {σ : Type} (p : Plan σ) (first : Nat) (latest : Option BuildError) (patience : Nat)
    (s : Stage σ) (attempts told : Nat) (t : Stage σ) : Except Halt Unit → Prop
  /-- The last attempt succeeds. -/
  | succeeded (k : Nat) (hlast : attempts = told + 1)
      (hfailure : failure? (p.reply told s.daemon) = none)
      (hspan : span? (p.reply told s.daemon) = some k)
      (hnow : t.now = p.startAt s.now s.daemon told + k) :
      Ending p first latest patience s attempts told t (.ok ())
  /-- The last attempt that is allowed fails. -/
  | exhausted (k : Nat) (e : BuildError) (hlast : attempts = told + 1)
      (hfailure : failure? (p.reply told s.daemon) = some e) (hne : e ≠ .cancelled)
      (hspan : span? (p.reply told s.daemon) = some k)
      (hnow : t.now = p.startAt s.now s.daemon told + k)
      (hpos : 0 < p.settings.pushMaxAttempts)
      (hmax : first + told = p.settings.pushMaxAttempts) :
      Ending p first latest patience s attempts told t (.error (.failed (classify p.tag e)))
  /-- The caller gives up before the next attempt. -/
  | gaveUpBefore (hlast : attempts = told) (hgave : t.GaveUp)
      (hnow : t.now ≤ p.startAt s.now s.daemon told) :
      Ending p first latest patience s attempts told t
        (.error (.failed (verdict p latest s.daemon told)))
  /-- The caller gives up before the last attempt is over. -/
  | gaveUpWithin (hlast : attempts = told + 1) (hgave : t.GaveUp)
      (hnow : ∀ k, span? (p.reply told s.daemon) = some k →
        t.now ≤ p.startAt s.now s.daemon told + k) :
      Ending p first latest patience s attempts told t
        (.error (.failed (verdict p latest s.daemon told)))
  /-- The last attempt says that it was given up. -/
  | calledOff (k : Nat) (hlast : attempts = told + 1)
      (hfailure : failure? (p.reply told s.daemon) = some .cancelled)
      (hspan : span? (p.reply told s.daemon) = some k)
      (hnow : t.now = p.startAt s.now s.daemon told + k) :
      Ending p first latest patience s attempts told t
        (.error (.failed (verdict p latest s.daemon told)))
  /-- The last attempt never ends, or the push is followed no longer. -/
  | endless (hwhy : attempts = told + 1 ∧ span? (p.reply told s.daemon) = none ∧ s.cancelAt = none ∨
        attempts = patience ∧ told = patience) :
      Ending p first latest patience s attempts told t (.error .forever)

/-- A push from its attempt with number `first` on, after `latest` went wrong. -/
structure Course {σ : Type} (p : Plan σ) (first : Nat) (latest : Option BuildError) (patience : Nat)
    (s : Stage σ) (attempts told : Nat) (r : Except Halt Unit) (t : Stage σ) : Prop where
  steps : t.steps = s.steps ++
    (List.range attempts).flatMap (p.attemptSteps first s.now s.daemon told)
  daemon : t.daemon = p.stateAfter attempts s.daemon
  /-- All attempts but perhaps the last have failed, and were told of. -/
  told_le : told ≤ attempts ∧ attempts ≤ told + 1
  failed : ∀ i < told, (∃ e, failure? (p.reply i s.daemon) = some e ∧ e ≠ .cancelled) ∧
    ∃ k, span? (p.reply i s.daemon) = some k
  allowed : 0 < p.settings.pushMaxAttempts →
    first + attempts ≤ p.settings.pushMaxAttempts + 1 ∧ first + told ≤ p.settings.pushMaxAttempts
  /-- No attempt starts after the caller gave up. -/
  willing : (s.cancelled = true → attempts = 0) ∧
    (∀ c, s.cancelAt = some c → ∀ i < attempts, p.startAt s.now s.daemon i ≤ c) ∧
    ∀ i, i + 1 < attempts → givesUp (p.reply i s.daemon) = false ∧
      ∀ e, failure? (p.reply i s.daemon) = some e → p.hookGivesUp (first + i) e = false
  now_le : s.now ≤ t.now
  prompt : ∀ c, s.cancelAt = some c → t.now ≤ max s.now c
  cancelAt : t.cancelAt = s.cancelAt
  /-- Nobody gives up for no reason. -/
  reason : t.cancelled = true →
    s.cancelled = true ∨ (∃ c, s.cancelAt = some c ∧ c ≤ t.now) ∨
      (∃ i < attempts, givesUp (p.reply i s.daemon) = true) ∨
      ∃ i < told, ∃ e, failure? (p.reply i s.daemon) = some e ∧ p.hookGivesUp (first + i) e = true
  ending : Ending p first latest patience s attempts told t r

/-! ## One attempt -/

section

open Act

variable {σ : Type} {p : Plan σ} {s t u : Stage σ}

/-- A stage after the call of an attempt, and after the report of its failure if it was `told`. -/
structure Attempted (p : Plan σ) (first : Nat) (told : Option BuildError) (s t : Stage σ) :
    Prop where
  daemon : t.daemon = p.stateAfter 1 s.daemon
  steps : t.steps = s.steps ++
    .called s.now (.push p.tag p.credentials) :: told.toList.flatMap (p.report first)
  cancelAt : t.cancelAt = s.cancelAt
  now_le : s.now ≤ t.now
  prompt : ∀ c, s.cancelAt = some c → t.now ≤ max s.now c
  idle : s.cancelled = false
  inTime : ∀ c, s.cancelAt = some c → s.now ≤ c
  reason : t.cancelled = true → (∃ c, s.cancelAt = some c ∧ c ≤ t.now) ∨
    givesUp (p.reply 0 s.daemon) = true ∨ ∃ e, told = some e ∧ p.hookGivesUp first e = true

namespace Attempted

variable {first : Nat} {told : Option BuildError} {e : BuildError}

theorem wait (h : Attempted p first told s t) {a : Option Nat} {P : Except BuildError Unit → Prop}
    {r : Except Halt Unit} (hwaited : Waited a False P t r u) : Attempted p first told s u where
  daemon := hwaited.elapsed.daemon.trans h.daemon
  steps := hwaited.elapsed.steps.trans h.steps
  cancelAt := hwaited.elapsed.cancelAt.trans h.cancelAt
  now_le := Nat.le_trans h.now_le hwaited.elapsed.now_le
  prompt := fun c hc => by
    have hfirst := h.prompt c hc
    have hsecond := hwaited.elapsed.prompt c (h.cancelAt.trans hc)
    omega
  idle := h.idle
  inTime := h.inTime
  reason := fun hu => by
    rcases hwaited.reason hu with ht | ⟨c, hc, hle⟩ | hfalse
    · rcases h.reason ht with ⟨c, hc, hle⟩ | hrest
      · exact .inl ⟨c, hc, Nat.le_trans hle hwaited.elapsed.now_le⟩
      · exact .inr hrest
    · exact .inl ⟨c, h.cancelAt.symm.trans hc, hle⟩
    · exact hfalse.elim

theorem report (h : Attempted p first none s t)
    (hook : u.daemon = t.daemon ∧ u.steps = t.steps ++ p.report first e ∧ u.now = t.now ∧
      u.cancelAt = t.cancelAt ∧ u.cancelled = (t.cancelled || p.hookGivesUp first e)) :
    Attempted p first (some e) s u where
  daemon := hook.1.trans h.daemon
  steps := by
    rw [hook.2.1, h.steps]
    simp
  cancelAt := hook.2.2.2.1.trans h.cancelAt
  now_le := hook.2.2.1 ▸ h.now_le
  prompt := hook.2.2.1 ▸ h.prompt
  idle := h.idle
  inTime := h.inTime
  reason := fun hu => by
    rw [hook.2.2.2.2, Bool.or_eq_true] at hu
    rcases hu with ht | hgives
    · rcases h.reason ht with hc | hgives | ⟨e', he, -⟩
      · exact .inl (hook.2.2.1 ▸ hc)
      · exact .inr (.inl hgives)
      · cases he
    · exact .inr (.inr ⟨e, rfl, hgives⟩)

end Attempted

end

end ImageBuild.Push
