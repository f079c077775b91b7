import ImageBuild.Proofs.Stage.Leads
import Mathlib.Tactic.SplitIfs
/-!
# Waiting for something while the caller may give up

While an action waits, the clock moves and the caller may give up, and nothing else happens.  A wait
that is watched for the caller either lasts as long as it has to, or ends because the caller gave up,
or never ends; and it ends no later than the caller gives up.
-/

namespace ImageBuild

namespace Entry

/-- Whether an entry tells a step of a build: a call, what came of one, or that it is tried again. -/
def isStep : Entry → Bool
  | called _ _ => true
  | retried _ _ => true
  | reported _ => true
  | _ => false

end Entry

namespace Stage

variable {σ : Type}

def steps (s : Stage σ) : List Entry := s.entries.filter Entry.isStep

def GaveUp (s : Stage σ) : Prop :=
  s.cancelled = true ∨ ∃ c, s.cancelAt = some c ∧ c ≤ s.now

theorem steps_of_journal_eq_cons {s t : Stage σ} {e : Entry} (h : t.journal = e :: s.journal) :
    t.steps = s.steps ++ [e].filter Entry.isStep := by
  simp only [steps, entries, h, List.reverse_cons, List.filter_append]

end Stage

/-- Milliseconds until something arrives, if it ever does. -/
def Pace.span? (p : Pace) : Option Nat :=
  if p.hangs then none else some (p.delay.getD 0)

theorem Pace.span?_eq_some {p : Pace} {k : Nat} :
    p.span? = some k ↔ p.hangs = false ∧ p.delay.getD 0 = k := by
  rw [Pace.span?]
  cases p.hangs <;> simp

theorem Pace.span?_eq_none {p : Pace} : p.span? = none ↔ p.hangs = true := by
  rw [Pace.span?]
  cases p.hangs <;> simp

def addSpans (a b : Option Nat) : Option Nat :=
  a.bind fun x => b.map fun y => x + y

/-- Milliseconds until all of some things have arrived, one after the other. -/
def totalSpan : List Pace → Option Nat
  | [] => some 0
  | p :: ps => addSpans p.span? (totalSpan ps)

@[simp] theorem zero_addSpans (a : Option Nat) : addSpans (some 0) a = a := by
  cases a with
  | none => rfl
  | some x => rw [addSpans, Option.bind_some, Option.map_some, Nat.zero_add]

@[simp] theorem addSpans_zero (a : Option Nat) : addSpans a (some 0) = a := by
  cases a <;> rfl

theorem addSpans_eq_some {a b : Option Nat} {n : Nat} :
    addSpans a b = some n ↔ ∃ x, a = some x ∧ ∃ y, b = some y ∧ x + y = n := by
  rw [addSpans, Option.bind_eq_some_iff]
  simp only [Option.map_eq_some_iff]

variable {σ α β : Type}

/-- What stays as it is while time passes from one stage to a later one, no later than the caller
gives up. -/
structure Elapsed (s t : Stage σ) : Prop where
  daemon : t.daemon = s.daemon
  steps : t.steps = s.steps
  cancelAt : t.cancelAt = s.cancelAt
  now_le : s.now ≤ t.now
  prompt : ∀ c, s.cancelAt = some c → t.now ≤ max s.now c
  cancelled : s.cancelled = true → t.cancelled = true

namespace Elapsed

variable {s t u : Stage σ}

theorem refl (s : Stage σ) : Elapsed s s where
  daemon := rfl
  steps := rfl
  cancelAt := rfl
  now_le := Nat.le_refl s.now
  prompt := fun c _ => Nat.le_max_left s.now c
  cancelled := id

theorem trans (h : Elapsed s t) (h' : Elapsed t u) : Elapsed s u where
  daemon := h'.daemon.trans h.daemon
  steps := h'.steps.trans h.steps
  cancelAt := h'.cancelAt.trans h.cancelAt
  now_le := Nat.le_trans h.now_le h'.now_le
  prompt := fun c hc => by
    have hfirst := h.prompt c hc
    have hsecond := h'.prompt c (h.cancelAt.trans hc)
    omega
  cancelled := fun hs => h'.cancelled (h.cancelled hs)

end Elapsed

/-- How an action ends that waits for as long as `span`, in which the caller gives up if `gives`, and
has an outcome then. -/
structure Waited (span : Option Nat) (gives : Prop) (outcome : Except BuildError α → Prop)
    (s : Stage σ) (r : Except Halt α) (t : Stage σ) : Prop where
  elapsed : Elapsed s t
  /-- Nobody gives up for no reason. -/
  reason : t.cancelled = true → s.cancelled = true ∨ (∃ c, s.cancelAt = some c ∧ c ≤ t.now) ∨ gives
  ending :
    (∃ result k, outcome result ∧ r = result.mapError .failed ∧ span = some k ∧
        t.now = s.now + k ∧ (gives → t.cancelled = true)) ∨
      (r = .error (.failed .cancelled) ∧ t.GaveUp ∧ ∀ k, span = some k → t.now ≤ s.now + k) ∨
      (r = .error .forever ∧ span = none ∧ s.cancelAt = none)

namespace Waited

variable {s t u : Stage σ} {a b : Option Nat} {gives gives' : Prop}
variable {outcome : Except BuildError β → Prop}

theorem of_result {result : Except BuildError β} (h : outcome result) (s : Stage σ) :
    Waited (some 0) False outcome s (result.mapError .failed) s where
  elapsed := .refl s
  reason := .inl
  ending := .inl ⟨result, 0, h, rfl, rfl, rfl, False.elim⟩

theorem of_ok {x : β} (h : outcome (.ok x)) (s : Stage σ) :
    Waited (some 0) False outcome s (.ok x) s :=
  of_result h s

theorem of_error {e : BuildError} (h : outcome (.error e)) (s : Stage σ) :
    Waited (some 0) False outcome s (.error (.failed e)) s :=
  of_result h s

theorem reason_trans (h : t.cancelled = true →
      s.cancelled = true ∨ (∃ c, s.cancelAt = some c ∧ c ≤ t.now) ∨ gives)
    (he : Elapsed s t) (he' : Elapsed t u)
    (h' : u.cancelled = true →
      t.cancelled = true ∨ (∃ c, t.cancelAt = some c ∧ c ≤ u.now) ∨ gives') :
    u.cancelled = true →
      s.cancelled = true ∨ (∃ c, s.cancelAt = some c ∧ c ≤ u.now) ∨ gives ∨ gives' := by
  intro hu
  rcases h' hu with ht | ⟨c, hc, hle⟩ | hgives
  · rcases h ht with hs | ⟨c, hc, hle⟩ | hgives
    · exact .inl hs
    · exact .inr (.inl ⟨c, hc, Nat.le_trans hle he'.now_le⟩)
    · exact .inr (.inr (.inl hgives))
  · exact .inr (.inl ⟨c, he.cancelAt.symm.trans hc, hle⟩)
  · exact .inr (.inr (.inr hgives))

/-- One wait after another. -/
theorem trans {P : Except BuildError α → Prop} {x : α} {r : Except Halt β}
    (h : Waited a gives P s (.ok x) t) (h' : Waited b gives' outcome t r u) :
    Waited (addSpans a b) (gives ∨ gives') outcome s r u := by
  obtain ⟨k, hk, hnow, hgives⟩ : ∃ k, a = some k ∧ t.now = s.now + k ∧
      (gives → t.cancelled = true) := by
    rcases h.ending with ⟨_, k, _, _, hk, hnow, hgives⟩ | ⟨hr, _⟩ | ⟨hr, _⟩
    · exact ⟨k, hk, hnow, hgives⟩
    · cases hr
    · cases hr
  refine ⟨h.elapsed.trans h'.elapsed, reason_trans h.reason h.elapsed h'.elapsed h'.reason, ?_⟩
  rcases h'.ending with ⟨result, k', hout, hr, hk', hnow', hgives'⟩ | ⟨hr, hgave, hin⟩ |
    ⟨hr, hnone, hat⟩
  · refine .inl ⟨result, k + k', hout, hr, by rw [hk, hk']; rfl, by omega, ?_⟩
    rintro (hfirst | hsecond)
    · exact h'.elapsed.cancelled (hgives hfirst)
    · exact hgives' hsecond
  · refine .inr (.inl ⟨hr, hgave, fun n hn => ?_⟩)
    rw [hk] at hn
    obtain ⟨k', hk', rfl⟩ := Option.map_eq_some_iff.1 hn
    have := hin k' hk'
    omega
  · refine .inr (.inr ⟨hr, ?_, h.elapsed.cancelAt.symm.trans hat⟩)
    rw [hk, hnone]
    rfl

theorem early {P : Except BuildError α → Prop} {halt : Halt} (hP : ∀ e, ¬P (.error e))
    (h : Waited a gives P s (.error halt) t) :
    Waited (addSpans a b) (gives ∨ gives') outcome s (.error halt) t := by
  refine ⟨h.elapsed, fun ht => ?_, ?_⟩
  · rcases h.reason ht with hs | hc | hgives
    · exact .inl hs
    · exact .inr (.inl hc)
    · exact .inr (.inr (.inl hgives))
  · rcases h.ending with ⟨result, _, hout, hr, _⟩ | ⟨hr, hgave, hin⟩ | ⟨hr, hnone, hat⟩
    · cases result with
      | error e => exact absurd hout (hP e)
      | ok x => cases hr
    · cases hr
      refine .inr (.inl ⟨rfl, hgave, fun n hn => ?_⟩)
      obtain ⟨k, hk, k', -, rfl⟩ := addSpans_eq_some.1 hn
      have := hin k hk
      omega
    · cases hr
      exact .inr (.inr ⟨rfl, by rw [hnone]; rfl, hat⟩)

theorem failing {P : Except BuildError α → Prop} {halt : Halt}
    (hP : ∀ e, P (.error e) → outcome (.error e)) (h : Waited a gives P s (.error halt) t) :
    Waited a gives outcome s (.error halt) t := by
  refine ⟨h.elapsed, h.reason, ?_⟩
  rcases h.ending with ⟨result, k, hout, hr, hrest⟩ | ⟨hr, hgave⟩ | ⟨hr, hnone⟩
  · cases result with
    | error e =>
        cases hr
        exact .inl ⟨.error e, k, hP e hout, rfl, hrest⟩
    | ok x => cases hr
  · cases hr
    exact .inr (.inl ⟨rfl, hgave⟩)
  · cases hr
    exact .inr (.inr ⟨rfl, hnone⟩)

end Waited

namespace Act

variable {s : Stage σ} {act : Act σ α} {f : α → Act σ β} {a b : Option Nat} {gives gives' : Prop}
variable {outcome : Except BuildError β → Prop}

/-- Waits one after the other, of which the first has no errors of its own. -/
theorem waited_bind {P : α → Prop}
    (h : Leads act s (Waited a gives (fun result => ∃ x, result = .ok x ∧ P x) s))
    (hf : ∀ x t, P x → Leads (f x) t (Waited b gives' outcome t)) :
    Leads (act >>= f) s (Waited (addSpans a b) (gives ∨ gives') outcome s) := by
  rw [leads_bind]
  refine h.mono fun r t ht => ?_
  cases r with
  | error halt =>
      refine ht.early fun e he => ?_
      obtain ⟨x, hx, -⟩ := he
      cases hx
  | ok x =>
      have hx : P x := by
        rcases ht.ending with ⟨result, _, ⟨y, rfl, hy⟩, hr, _⟩ | ⟨hr, _⟩ | ⟨hr, _⟩
        · cases hr
          exact hy
        · cases hr
        · cases hr
      exact (hf x t hx).mono fun r u hu => ht.trans hu

/-- What comes after a wait that fails in the end has no part in it. -/
theorem waited_bind_error {e : BuildError}
    (h : Leads act s (Waited a gives (fun result => result = .error e) s)) :
    Leads (act >>= f) s (Waited a gives (fun result => result = .error e) s) := by
  rw [leads_bind]
  refine h.mono fun r t ht => ?_
  cases r with
  | error halt => exact ht.failing fun e' he => by cases he; rfl
  | ok x =>
      rcases ht.ending with ⟨result, _, rfl, hr, _⟩ | ⟨hr, _⟩ | ⟨hr, _⟩ <;> cases hr

/-! ## Ways of waiting -/

/-- Nothing but success is to be expected of a wait. -/
def Plain (result : Except BuildError Unit) : Prop := ∃ x, result = .ok x ∧ True

theorem gaveUp_iff (s : Stage σ) :
    (s.cancelled || s.cancelAt.any (· ≤ s.now)) = true ↔ s.GaveUp := by
  rw [Bool.or_eq_true, Stage.GaveUp, Option.any_eq_true]
  simp only [decide_eq_true_eq]

theorem giveWay_waited (s : Stage σ) :
    Leads (giveWay .forCaller) s (Waited (some 0) False Plain s) := by
  rw [giveWay, leads_bind, leads_get]
  simp only [leads_bind, leads_set]
  rw [if_neg (by simp [Watch.forCaller])]
  simp only [Watch.forCaller, Bool.true_and]
  have helapsed : Elapsed s
      { s with cancelled := s.cancelled || s.cancelAt.any (· ≤ s.now), waits := 0 } :=
    ⟨rfl, rfl, rfl, Nat.le_refl s.now, fun c _ => Nat.le_max_left s.now c, fun h => by simp [h]⟩
  have hreason : (s.cancelled || s.cancelAt.any (· ≤ s.now)) = true →
      s.cancelled = true ∨ (∃ c, s.cancelAt = some c ∧ c ≤ s.now) ∨ False := by
    intro h
    rcases (gaveUp_iff s).1 h with hs | hc
    · exact .inl hs
    · exact .inr (.inl hc)
  by_cases hgave : (s.cancelled || s.cancelAt.any (· ≤ s.now)) = true
  · rw [if_pos hgave, leads_fail]
    exact ⟨helapsed, hreason, .inr (.inl ⟨rfl, .inl hgave, fun k _ => Nat.le_add_right s.now k⟩)⟩
  · rw [if_neg hgave, leads_pure]
    exact ⟨helapsed, hreason, .inl ⟨.ok (), 0, ⟨(), rfl, trivial⟩, rfl, rfl, rfl, False.elim⟩⟩

theorem takeTurns_waited (s : Stage σ) :
    Leads (takeTurns .forCaller) s (Waited (some 0) False Plain s) := by
  rw [takeTurns, leads_bind, leads_get]
  simp only
  split_ifs
  · exact giveWay_waited s
  · exact Waited.of_ok ⟨(), rfl, trivial⟩ s

/-- Whoever is let through has not given up. -/
theorem checkCaller_waited (s : Stage σ) :
    Leads checkCaller s fun r t => Waited (some 0) False Plain s r t ∧
      (r = .ok () → t.cancelled = false ∧ ∀ c, t.cancelAt = some c → t.now ≤ c) := by
  have hspan : addSpans (some 0) (some 0) = some 0 := rfl
  have hwaited : Leads checkCaller s (Waited (some 0) (False ∨ False) Plain s) := by
    rw [checkCaller, ← hspan]
    refine waited_bind (takeTurns_waited s) fun _ t _ => ?_
    rw [leads_bind, leads_get]
    simp only
    split_ifs with hcancelled
    · have hgave : t.GaveUp := by
        rw [Stage.isCancelled, Bool.or_eq_true, Option.any_eq_true] at hcancelled
        rcases hcancelled with hc | ⟨c, hc, hlt⟩
        · exact .inl hc
        · exact .inr ⟨c, hc, Nat.le_of_lt (of_decide_eq_true hlt)⟩
      exact ⟨.refl t, .inl, .inr (.inl ⟨rfl, hgave, fun k _ => Nat.le_add_right t.now k⟩)⟩
    · exact Waited.of_ok ⟨(), rfl, trivial⟩ t
  rw [or_self] at hwaited
  refine hwaited.and ?_
  rw [checkCaller, leads_bind]
  refine (takeTurns_waited s).mono fun r t _ => ?_
  cases r with
  | error halt => exact fun h => nomatch h
  | ok x =>
      rw [leads_bind, leads_get]
      simp only
      split_ifs with hcancelled
      · exact fun h => nomatch h
      · intro _
        rw [Stage.isCancelled, Bool.or_eq_true, not_or, Option.any_eq_true] at hcancelled
        refine ⟨Bool.not_eq_true _ ▸ hcancelled.1, fun c hc => ?_⟩
        exact Nat.not_lt.1 fun hlt => hcancelled.2 ⟨c, hc, decide_eq_true hlt⟩

theorem cancelMoment?_eq_some {s : Stage σ} {limit : Option Nat} {moment : Nat}
    (h : s.cancelMoment? limit = some moment) :
    ((s.cancelled = true ∧ moment = s.now) ∨
      ∃ c, s.cancelAt = some c ∧ moment = max s.now c) ∧
      ∀ m, limit = some m → moment ≤ max s.now m := by
  rw [Stage.cancelMoment?] at h
  split_ifs at h with hlimit hcancelled
  · obtain rfl : s.now = moment := Option.some.inj h
    exact ⟨.inl ⟨hcancelled, rfl⟩, fun m _ => Nat.le_max_left s.now m⟩
  · obtain ⟨c, hc, rfl⟩ := Option.map_eq_some_iff.1 h
    obtain ⟨hcaller, hbefore⟩ := Option.filter_eq_some_iff.1 hc
    refine ⟨.inr ⟨c, hcaller, rfl⟩, fun m hm => ?_⟩
    rw [hm, Option.all_some, decide_eq_true_eq] at hbefore
    omega

theorem cancelMoment?_eq_none {s : Stage σ} {limit : Option Nat}
    (hlimit : ∀ m, limit = some m → s.now < m) (h : s.cancelMoment? limit = none) :
    s.cancelled = false ∧ ∀ c, s.cancelAt = some c → ∃ m, limit = some m ∧ m ≤ c := by
  have hall : limit.all (s.now < ·) = true := by
    cases limit with
    | none => rfl
    | some m => exact decide_eq_true (hlimit m rfl)
  rw [Stage.cancelMoment?, hall] at h
  simp only [Bool.not_true, Bool.false_eq_true, if_false] at h
  split_ifs at h with hcancelled
  refine ⟨Bool.not_eq_true _ ▸ hcancelled, fun c hc => ?_⟩
  cases limit with
  | none => simp [hc] at h
  | some m => exact ⟨m, rfl, by simpa [hc, Option.filter] using h⟩

/-- A wait that is broken off when the caller gives up. -/
theorem waited_interrupted {s : Stage σ} {limit : Option Nat} {moment : Nat}
    (h : s.cancelMoment? limit = some moment) {span : Option Nat}
    (hspan : ∀ k, span = some k → limit = some (s.now + k)) :
    Waited span False Plain s (.error (.failed .cancelled)) { s with now := moment, waits := 0 } := by
  obtain ⟨hmoment, hlimit⟩ := cancelMoment?_eq_some h
  have hin : ∀ k, span = some k → moment ≤ s.now + k := by
    intro k hk
    have := hlimit (s.now + k) (hspan k hk)
    omega
  rcases hmoment with ⟨hcancelled, rfl⟩ | ⟨c, hc, rfl⟩
  · refine ⟨⟨rfl, rfl, rfl, Nat.le_refl s.now, fun c _ => Nat.le_max_left s.now c, id⟩, .inl, ?_⟩
    exact .inr (.inl ⟨rfl, .inl hcancelled, hin⟩)
  · refine ⟨⟨rfl, rfl, rfl, Nat.le_max_left s.now c, fun d hd => ?_, id⟩, .inl, ?_⟩
    · cases hc.symm.trans hd
      exact Nat.le_refl _
    · exact .inr (.inl ⟨rfl, .inr ⟨c, hc, Nat.le_max_right s.now c⟩, hin⟩)

theorem waitUntil_waited {s : Stage σ} {moment : Nat} (h : s.now ≤ moment) :
    Leads (waitUntil .forCaller (some moment)) s
      (Waited (some (moment - s.now)) False Plain s) := by
  rw [waitUntil, leads_bind, leads_get]
  simp only [Watch.forCaller, earlier?, if_true]
  cases hinterrupt : s.cancelMoment? (some moment) with
  | some t =>
      refine waited_interrupted hinterrupt fun k hk => ?_
      cases hk
      rw [Nat.add_sub_cancel' h]
  | none =>
      simp only [leads_bind, leads_set, Option.all_some, Nat.lt_irrefl, decide_false,
        Bool.false_eq_true, if_false]
      rw [leads_pure]
      have hmax : max s.now moment = moment := Nat.max_eq_right h
      -- The caller gives up no earlier than the wait is over, or the wait is over at once.
      refine ⟨⟨rfl, rfl, rfl, Nat.le_max_left s.now moment, fun c hc => ?_, id⟩, .inl, ?_⟩
      · by_cases hlt : s.now < moment
        · obtain ⟨m, hm, hle⟩ := (cancelMoment?_eq_none
            (fun m hm => Option.some.inj hm ▸ hlt) hinterrupt).2 c hc
          cases hm
          change max s.now moment ≤ max s.now c
          omega
        · change max s.now moment ≤ max s.now c
          omega
      · refine .inl ⟨.ok (), moment - s.now, ⟨(), rfl, trivial⟩, rfl, rfl, ?_, False.elim⟩
        change max s.now moment = s.now + (moment - s.now)
        omega

/-- What never comes is waited for until the caller gives up. -/
theorem waitUntil_never (s : Stage σ) :
    Leads (waitUntil .forCaller none) s (Waited none False Plain s) := by
  rw [waitUntil, leads_bind, leads_get]
  simp only [Watch.forCaller, earlier?, if_true]
  cases hinterrupt : s.cancelMoment? none with
  | some t => exact waited_interrupted hinterrupt fun k hk => by cases hk
  | none =>
      have hnever := (cancelMoment?_eq_none (by intro m hm; cases hm) hinterrupt).2
      refine ⟨.refl s, .inl, .inr (.inr ⟨rfl, rfl, ?_⟩)⟩
      cases hc : s.cancelAt with
      | none => rfl
      | some c =>
          obtain ⟨m, hm, -⟩ := hnever c hc
          cases hm

theorem wait_waited (s : Stage σ) (delay : Nat) :
    Leads (wait .forCaller delay) s (Waited (some delay) False Plain s) := by
  have hspan : addSpans (some 0) (some delay) = some delay := zero_addSpans (some delay)
  have hwaited : Leads (wait .forCaller delay) s (Waited (some delay) (False ∨ False) Plain s) := by
    rw [wait, ← hspan]
    refine waited_bind (takeTurns_waited s) fun _ t _ => ?_
    rw [leads_bind, leads_get]
    have h := waitUntil_waited (Nat.le_add_right t.now delay)
    rwa [Nat.add_sub_cancel_left] at h
  rwa [or_self] at hwaited

theorem cancel_waited (s : Stage σ) (b : Bool) :
    Leads (if b then cancel else pure ()) s (Waited (some 0) (b = true) Plain s) := by
  cases b with
  | false =>
      simp only [Bool.false_eq_true, if_false]
      exact Waited.of_ok ⟨(), rfl, trivial⟩ s
  | true =>
      have helapsed : Elapsed s { s with cancelled := true } :=
        ⟨rfl, rfl, rfl, Nat.le_refl s.now, fun c _ => Nat.le_max_left s.now c, fun _ => rfl⟩
      exact ⟨helapsed, fun _ => .inr (.inr rfl),
        .inl ⟨.ok (), 0, ⟨(), rfl, trivial⟩, rfl, rfl, rfl, fun _ => rfl⟩⟩

theorem follow_eq (w : Watch) (p : Pace) :
    (follow w p : Act σ Unit) =
      p.delay.elim (pure ()) (wait w) >>= fun _ =>
        (if p.cancels then cancel else pure ()) >>= fun _ =>
          if p.hangs then waitUntil w none else pure () := by
  rw [follow]
  cases p.delay <;> cases p.cancels <;> rfl

theorem follow_waited (s : Stage σ) (p : Pace) :
    Leads (follow .forCaller p) s (Waited p.span? (p.cancels = true) Plain s) := by
  have hdelay : ∀ s : Stage σ, Leads (p.delay.elim (pure ()) (wait .forCaller)) s
      (Waited (some (p.delay.getD 0)) False Plain s) := by
    intro s
    cases p.delay with
    | none => exact Waited.of_ok ⟨(), rfl, trivial⟩ s
    | some delay => exact wait_waited s delay
  have hhang : ∀ s : Stage σ, Leads (if p.hangs then waitUntil .forCaller none else pure ()) s
      (Waited (if p.hangs then none else some 0) False Plain s) := by
    intro s
    cases p.hangs with
    | false => exact Waited.of_ok ⟨(), rfl, trivial⟩ s
    | true => exact waitUntil_never s
  have hspan : addSpans (some (p.delay.getD 0))
      (addSpans (some 0) (if p.hangs then none else some 0)) = p.span? := by
    rw [Pace.span?]
    cases p.hangs <;> rfl
  have h := waited_bind (hdelay s) fun _ t _ => waited_bind (cancel_waited t p.cancels)
    fun _ u _ => hhang u
  rw [hspan, or_false, false_or] at h
  rw [follow_eq]
  exact h

theorem ofExcept_waited (result : Except BuildError α) (s : Stage σ) :
    Leads (ofExcept result) s (Waited (some 0) False (fun r => r = result) s) := by
  rw [leads_ofExcept]
  refine Waited.of_result ?_ s
  rfl

theorem receive_waited (r : Reply α) (s : Stage σ) :
    Leads (receive .forCaller r) s
      (Waited r.pace.span? (r.pace.cancels = true) (fun result => result = r.result) s) := by
  have h := waited_bind (follow_waited s r.pace) fun _ t _ => ofExcept_waited r.result t
  simp only [addSpans_zero, or_false] at h
  exact h

theorem exchange_waited (s : Stage σ) (n : Nat) :
    Leads (exchange n) s (Waited (some 0) False Plain s) := by
  have helapsed : Elapsed s { s with waits := s.waits + n } :=
    ⟨rfl, rfl, rfl, Nat.le_refl s.now, fun c _ => Nat.le_max_left s.now c, id⟩
  exact ⟨helapsed, .inl, .inl ⟨.ok (), 0, ⟨(), rfl, trivial⟩, rfl, rfl, rfl, False.elim⟩⟩

theorem announce_waited (s : Stage σ) (e : Event) :
    Leads (announce e) s (Waited (some 0) False Plain s) := by
  have hshown : Elapsed s { s with journal := .shown e :: s.journal } := by
    refine ⟨rfl, ?_, rfl, Nat.le_refl s.now, fun c _ => Nat.le_max_left s.now c, id⟩
    rw [Stage.steps_of_journal_eq_cons rfl]
    exact List.append_nil _
  rw [leads_announce]
  exact ⟨hshown, .inl, .inl ⟨.ok (), 0, ⟨(), rfl, trivial⟩, rfl, rfl, rfl, False.elim⟩⟩

end Act
end ImageBuild
