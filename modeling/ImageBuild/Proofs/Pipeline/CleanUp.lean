import ImageBuild.Proofs.Pipeline.Order
import ImageBuild.Proofs.Stage.Deadline
/-!
# Cleaning up

The tags of an image are asked for and taken off one after the other.  What a removal comes to makes no
difference to those after it; only the deadline does, and it counts from the beginning of the whole.  So a
clean-up always comes to its end, and what it has come to by then follows from the replies and their pace.
-/

namespace ImageBuild

open Act

variable {σ : Type}

/-- The call that a step is. -/
def Entry.request? : Entry → Option Call
  | called _ c => some c
  | _ => none

namespace Job

/-- Tags are taken off from one moment to another, until there are no more or the limit is reached. -/
inductive Removing (d : Daemon σ) (limit : Nat) : σ → Nat → List String → List Entry → Nat → Prop where
  | done (x : σ) (now : Nat) : Removing d limit x now [] [] now
  | next {x : σ} {now k stop : Nat} {tag : String} {tags : List String} {word : List Entry}
      (hspan : (d.remove tag x).1.pace.span? = some k) (hin : now + k ≤ limit)
      (hrest : Removing d limit (d.remove tag x).2 (now + k) tags word stop) :
      Removing d limit x now (tag :: tags) (.called now (.remove tag) :: word) stop
  | cut {x : σ} {now : Nat} {tag : String} (tags : List String)
      (hlate : ∀ k, (d.remove tag x).1.pace.span? = some k → limit ≤ now + k) :
      Removing d limit x now (tag :: tags) [.called now (.remove tag)] limit

namespace Removing

variable {d : Daemon σ} {limit now stop : Nat} {x : σ} {tags : List String} {word : List Entry}

/-- Each tag is taken off once, in their order. -/
theorem map_request? (h : Removing d limit x now tags word stop) :
    word.map Entry.request? = (tags.take word.length).map fun tag => some (.remove tag) := by
  induction h with
  | done => rfl
  | next _ _ _ ih => simpa [Entry.request?] using ih
  | cut => rfl

/-- Only the limit keeps a tag from being taken off. -/
theorem eq_limit (h : Removing d limit x now tags word stop) (hleft : word.length < tags.length) :
    stop = limit := by
  induction h with
  | done => cases hleft
  | next _ _ _ ih => exact ih (Nat.lt_of_succ_lt_succ hleft)
  | cut => rfl

theorem le_limit (h : Removing d limit x now tags word stop) (hnow : now ≤ limit) : stop ≤ limit := by
  induction h with
  | done => exact hnow
  | next _ hin _ ih => exact ih hin
  | cut => exact Nat.le_refl _

end Removing

variable {s : Stage σ} {w : Watch} {limit : Nat}

theorem removeAll_leads (d : Daemon σ) (hw : w.EndsAt limit) (tags : List String)
    (hlimit : s.now ≤ limit) :
    Leads (removeAll d w tags) s fun r t => (r = .ok () ∨ r = .error .overdue) ∧
      ∃ word, t.steps = s.steps ++ word ∧ t.daemon = d.after s.daemon word ∧
        Removing d limit s.daemon s.now tags word t.now := by
  induction tags generalizing s with
  | nil => exact ⟨.inl rfl, [], (List.append_nil _).symm, rfl, .done s.daemon s.now⟩
  | cons tag rest ih =>
      rw [removeAll, leads_bind, leads_attempt]
      refine (ask_limited hw hlimit).mono fun r t ht => ?_
      obtain ⟨hsteps, hdaemon, hlimited⟩ := ht
      cases hlimited with
      | cut _ hnow hlate =>
        refine ⟨.inr rfl, _, hsteps, hdaemon, ?_⟩
        rw [hnow]
        exact .cut rest fun k hk => (hlate k hk).1
      | arrived _ k hspan hnow hin =>
        have hrest : Leads (removeAll d w rest) t fun r t => (r = .ok () ∨ r = .error .overdue) ∧
            ∃ word, t.steps = s.steps ++ word ∧ t.daemon = d.after s.daemon word ∧
              Removing d limit s.daemon s.now (tag :: rest) word t.now := by
          refine (ih hin).mono fun r u hu => ?_
          obtain ⟨hr, word, hsteps', hdaemon', hremoving⟩ := hu
          rw [hnow, hdaemon] at hremoving
          refine ⟨hr, _ :: word, ?_, ?_, .next hspan (hnow ▸ hin) hremoving⟩
          · rw [hsteps', hsteps, List.append_assoc, List.singleton_append]
          · rw [hdaemon', hdaemon]
            rfl
        cases (d.remove tag s.daemon).1.result <;> exact hrest

/-- What comes of the list of tags that is asked for at a moment: nothing is taken off if it is not told in
time, and all that it lists otherwise, for as long as there is time. -/
inductive Cleaned (j : Job σ) (x : σ) (start : Nat) : List Entry → Nat → Prop where
  | unlisted {e : BuildError} {stop : Nat} (hstop : stop ≤ start + j.settings.infoTimeout)
      (hreply : (j.daemon.tags j.spec.tag x).1.inTime j.settings.infoTimeout = .error e) :
      Cleaned j x start [] stop
  | listed {tags : List String} {k stop : Nat} {word : List Entry}
      (hreply : (j.daemon.tags j.spec.tag x).1.inTime j.settings.infoTimeout = .ok tags)
      (hspan : (j.daemon.tags j.spec.tag x).1.pace.span? = some k)
      (hremoving : Removing j.daemon (start + j.settings.infoTimeout) (j.daemon.tags j.spec.tag x).2
        (start + k) tags word stop) :
      Cleaned j x start word stop

theorem clearTags_leads (j : Job σ) (hwaits : s.waits < Stage.turn)
    (hw : w.EndsAt (s.now + j.settings.infoTimeout)) :
    Leads (j.clearTags w) s fun r t => (r = .ok () ∨ r = .error .overdue) ∧
      ∃ word, t.steps = s.steps ++ .called s.now (.tags j.spec.tag) :: word ∧
        t.daemon = j.daemon.after s.daemon (.called s.now (.tags j.spec.tag) :: word) ∧
        j.Cleaned s.daemon s.now word t.now := by
  rw [clearTags, leads_bind, leads_attempt]
  refine (ask_limited hw (Nat.le_add_right _ _)).mono fun r t ht => ?_
  obtain ⟨hsteps, hdaemon, hlimited⟩ := ht
  cases hlimited with
  | cut _ hnow hlate =>
    refine ⟨.inr rfl, [], hsteps, hdaemon,
      .unlisted (Nat.le_of_eq hnow) (e := tooLate j.settings.infoTimeout) ?_⟩
    rw [Reply.inTime, if_neg]
    intro hin
    obtain ⟨k, hk, hle⟩ := Option.any_eq_true _ _ |>.1 hin
    have := (hlate k hk).2 hwaits
    have := of_decide_eq_true hle
    omega
  | arrived _ k hspan hnow hin =>
    have hreply : (j.daemon.tags j.spec.tag s.daemon).1.inTime j.settings.infoTimeout =
        (j.daemon.tags j.spec.tag s.daemon).1.result := by
      rw [Reply.inTime, hspan, Option.any_some, if_pos (decide_eq_true (by omega))]
    cases hresult : (j.daemon.tags j.spec.tag s.daemon).1.result with
    | error e => exact ⟨.inl rfl, [], hsteps, hdaemon, .unlisted hin (hreply.trans hresult)⟩
    | ok tags =>
        refine (removeAll_leads j.daemon hw tags hin).mono fun r u hu => ?_
        obtain ⟨hr, word, hsteps', hdaemon', hremoving⟩ := hu
        rw [hnow, hdaemon] at hremoving
        refine ⟨hr, word, ?_, ?_, .listed (hreply.trans hresult) hspan hremoving⟩
        · rw [hsteps', hsteps, List.append_assoc, List.singleton_append]
        · rw [hdaemon', hdaemon]
          rfl

/-- A clean-up is over by its deadline, and nothing that happens in it is an error. -/
theorem cleanUp_leads (j : Job σ) (s : Stage σ) :
    Leads j.cleanUp s fun r t => r = .ok () ∧
      ∃ word, t.steps = s.steps ++ .called s.now (.tags j.spec.tag) :: word ∧
        t.daemon = j.daemon.after s.daemon (.called s.now (.tags j.spec.tag) :: word) ∧
        j.Cleaned s.daemon s.now word t.now := by
  rw [cleanUp, leads_bind]
  refine (takeTurns_none s).mono fun r t ht => ?_
  obtain ⟨rfl, hnow, hwaits, hstill⟩ := ht
  simp only
  rw [leads_bind, leads_get]
  simp only
  rw [leads_tryCatch, ← hnow, ← hstill.daemon, ← hstill.steps]
  refine (clearTags_leads j hwaits ⟨rfl, rfl⟩).mono fun r u hu => ?_
  obtain ⟨rfl | rfl, hword⟩ := hu
  · exact ⟨rfl, hword⟩
  · exact ⟨rfl, hword⟩

namespace Cleaned

variable {j : Job σ} {x : σ} {start stop : Nat} {word : List Entry}

theorem eq_nil {e : BuildError} (h : j.Cleaned x start word stop)
    (hreply : (j.daemon.tags j.spec.tag x).1.inTime j.settings.infoTimeout = .error e) : word = [] := by
  cases h with
  | unlisted => rfl
  | listed hlisted => cases hlisted.symm.trans hreply

theorem removes {tags : List String} (h : j.Cleaned x start word stop)
    (hreply : (j.daemon.tags j.spec.tag x).1.inTime j.settings.infoTimeout = .ok tags) :
    word.map Entry.request? = (tags.take word.length).map (fun tag => some (.remove tag)) ∧
      (word.length < tags.length → stop = start + j.settings.infoTimeout) := by
  cases h with
  | unlisted _ hunlisted => cases hunlisted.symm.trans hreply
  | listed hlisted _ hremoving =>
    cases hlisted.symm.trans hreply
    exact ⟨hremoving.map_request?, hremoving.eq_limit⟩

theorem le_limit (h : j.Cleaned x start word stop) : stop ≤ start + j.settings.infoTimeout := by
  cases h with
  | unlisted hstop => exact hstop
  | listed hlisted hspan hremoving =>
    refine hremoving.le_limit ?_
    rw [Reply.inTime, hspan, Option.any_some] at hlisted
    split_ifs at hlisted with hin
    exact Nat.add_le_add_left (of_decide_eq_true hin) start

end Cleaned
end Job
end ImageBuild
