import ImageBuild.Proofs.Stage.Deadline
/-!
# What actions are bound for

A caller may break off a build wherever it waits.  But for that, and whatever else the stage holds, many an
action comes to one result: `BoundFor` says which.  It also says that nobody takes back that they gave up, so
that in an action made of several parts a caller who has not given up at its end has not done so in any of
them.
-/

namespace ImageBuild

variable {σ α β : Type}

instance : IsPreorder (Stage σ) fun s t => s.GaveUp → t.GaveUp where
  refl _ := id
  trans _ _ _ h h' := h' ∘ h

namespace Act

/-- The action comes to this result unless the caller gives up. -/
structure BoundFor (act : Act σ α) (r : Except Halt α) : Prop where
  lasting : Frames (fun s t => s.GaveUp → t.GaveUp) act
  comes : ∀ s, Leads act s fun r' t => ¬t.GaveUp → r' = r

variable {act : Act σ α} {f : α → Act σ β} {r : Except Halt α} {g : α → Except Halt β}

theorem BoundFor.leads (h : BoundFor act r) (s : Stage σ) :
    Leads act s fun r' t => (s.GaveUp → t.GaveUp) ∧ (¬t.GaveUp → r' = r) :=
  (h.lasting s).and (h.comes s)

theorem BoundFor.bind (h : BoundFor act r) (hf : ∀ a, BoundFor (f a) (g a)) :
    BoundFor (act >>= f) (r >>= g) := by
  refine ⟨h.lasting.bind fun a => (hf a).lasting, fun s => ?_⟩
  rw [leads_bind]
  refine (h.comes s).mono fun r' t ht => ?_
  cases r' with
  | error halt =>
      intro hgave
      rw [← ht hgave]
      rfl
  | ok a =>
      -- Who has not given up at the end had not done so when the first part was over.
      refine ((hf a).leads t).mono fun r'' u hu hgave => ?_
      rw [← ht fun hgave' => hgave (hu.1 hgave'), hu.2 hgave]
      rfl

theorem BoundFor.ite {other : Act σ α} (c : Prop) [Decidable c] (h : BoundFor act r)
    (hother : BoundFor other r) : BoundFor (if c then act else other) r := by
  split
  · exact h
  · exact hother

/-- What is read off the stage does not matter to the result. -/
theorem bound_get_bind {f : Stage σ → Act σ α} (h : ∀ s, BoundFor (f s) r) : BoundFor (get >>= f) r := by
  refine ⟨frames_get.bind fun s => (h s).lasting, fun s => ?_⟩
  rw [leads_bind, leads_get]
  exact (h s).comes s

theorem bound_pure (a : α) : BoundFor (pure a : Act σ α) (.ok a) :=
  ⟨frames_pure a, fun _ _ => rfl⟩

theorem bound_fail (e : BuildError) : BoundFor (fail e : Act σ α) (.error (.failed e)) :=
  ⟨frames_fail e, fun _ _ => rfl⟩

theorem bound_ofExcept (result : Except BuildError α) :
    BoundFor (ofExcept result : Act σ α) (result.mapError .failed) := by
  cases result with
  | ok a => exact bound_pure a
  | error e => exact bound_fail e

/-! ## Waiting -/

/-- What comes of waiting for some things, of which some may never come. -/
def afterPaces (ps : List Pace) : Except Halt Unit :=
  if ps.any Pace.hangs then .error .forever else .ok ()

theorem afterPaces_cons (p : Pace) (ps : List Pace) :
    afterPaces (p :: ps) = afterPaces [p] >>= fun _ => afterPaces ps := by
  rw [afterPaces, afterPaces, List.any_cons, List.any_cons, List.any_nil, Bool.or_false]
  cases p.hangs <;> rfl

theorem afterPaces_bind (ps : List Pace) (r : Except Halt α) :
    (afterPaces ps >>= fun _ => r) = if ps.any Pace.hangs then .error .forever else r := by
  rw [afterPaces]
  cases ps.any Pace.hangs <;> rfl

theorem isNone_totalSpan (ps : List Pace) : (totalSpan ps).isNone = ps.any Pace.hangs := by
  induction ps with
  | nil => rfl
  | cons p ps ih =>
      rw [totalSpan, List.any_cons, ← ih, Pace.span?]
      cases p.hangs <;> cases totalSpan ps <;> rfl

/-- A wait comes to its end unless the caller gives up or it has none. -/
theorem bound_of_waited {act : Act σ Unit} {gives : Prop} (ps : List Pace)
    (h : ∀ s, Leads act s (Waited (totalSpan ps) gives Plain s)) : BoundFor act (afterPaces ps) := by
  refine ⟨fun s => (h s).mono fun r t ht => ?_, fun s => (h s).mono fun r t ht hgave => ?_⟩
  · rintro (hs | ⟨c, hc, hle⟩)
    · exact .inl (ht.elapsed.cancelled hs)
    · exact .inr ⟨c, ht.elapsed.cancelAt.trans hc, Nat.le_trans hle ht.elapsed.now_le⟩
  · rw [afterPaces, ← isNone_totalSpan]
    rcases ht.ending with ⟨_, k, ⟨⟨⟩, rfl, -⟩, hr, hspan, -⟩ | ⟨-, ht, -⟩ | ⟨hr, hspan, -⟩
    · rw [hr, hspan]
      rfl
    · exact absurd ht hgave
    · rw [hr, hspan]
      rfl

theorem bound_exchange (n : Nat) : BoundFor (exchange n : Act σ Unit) (.ok ()) :=
  bound_of_waited [] (exchange_waited · n)

theorem bound_checkCaller : BoundFor (checkCaller : Act σ Unit) (.ok ()) :=
  bound_of_waited [] fun s => (checkCaller_waited s).mono fun _ _ ht => ht.1

theorem bound_follow (p : Pace) : BoundFor (follow .forCaller p : Act σ Unit) (afterPaces [p]) := by
  have hspan : totalSpan [p] = p.span? := addSpans_zero p.span?
  exact bound_of_waited [p] fun s => hspan ▸ follow_waited s p

theorem bound_announce (e : Event) : BoundFor (announce e : Act σ Unit) (.ok ()) :=
  bound_of_waited [] (announce_waited · e)

theorem bound_announceAll (events : List Event) :
    BoundFor (events.forM announce : Act σ Unit) (.ok ()) := by
  induction events with
  | nil => exact bound_pure ()
  | cons e rest ih => exact (bound_announce e).bind fun _ => ih

/-! ## Where the caller is not asked -/

theorem bound_giveWay : BoundFor (giveWay .none : Act σ Unit) (.ok ()) :=
  ⟨patient_gaveUp.giveWay .none, fun _ _ => rfl⟩

theorem bound_receive (r : Reply α) : BoundFor (receive .none r : Act σ α)
    (afterPaces [r.pace] >>= fun _ => r.result.mapError .failed) := by
  have hfollow : BoundFor (follow .none r.pace : Act σ Unit) (afterPaces [r.pace]) := by
    refine ⟨patient_gaveUp.follow .none r.pace, fun s => (follow_none s r.pace).mono fun _ _ ht _ => ?_⟩
    rw [ht, afterPaces, List.any_cons, List.any_nil, Bool.or_false]
  exact hfollow.bind fun _ => bound_ofExcept r.result

end Act
end ImageBuild
