import ImageBuild.Proofs.Stage.Waiting
import ImageBuild.Push
/-!
# What comes of an attempt to push

What is to come of an attempt is told by the daemon's reply alone: the error of the call, or else the
first error of the stream, or else the last one that a message tells.  An attempt lasts until then,
unless the caller gives up before.
-/

namespace ImageBuild

/-- The error that a stream ends in here. -/
def Beat.fault? {α : Type} (b : Beat α) : Option BuildError :=
  match b.content with
  | some (.error e) => some e
  | _ => none

/-- The beats up to the first error of a stream. -/
def heardBeats {α : Type} : List (Beat α) → List (Beat α)
  | [] => []
  | b :: rest => if b.fault?.isSome then [b] else b :: heardBeats rest

namespace Push

def complaint? (b : Beat PushMessage) : Option String :=
  match b.content with
  | some (.ok m) => m.error
  | _ => none

/-- The last error that the messages of a stream tell. -/
def lastComplaint? (beats : List (Beat PushMessage)) : Option String :=
  (beats.filterMap complaint?).getLast?

/-- Why an attempt fails, if it does. -/
def failure? (r : Reply (List (Beat PushMessage))) : Option BuildError :=
  match r.result with
  | .error e => some e
  | .ok beats =>
    match beats.findSome? Beat.fault? with
    | some e => some e
    | none => (lastComplaint? beats).map .pushFailed

/-- The outcome of an attempt that comes to its end. -/
def outcome (r : Reply (List (Beat PushMessage))) : Except BuildError Unit :=
  match failure? r with
  | some e => .error e
  | none => .ok ()

/-- What an attempt waits for. -/
def paces (r : Reply (List (Beat PushMessage))) : List Pace :=
  r.pace :: match r.result with
    | .error _ => []
    | .ok beats => (heardBeats beats).map Beat.pace

/-- How long an attempt takes, if it ever ends. -/
def span? (r : Reply (List (Beat PushMessage))) : Option Nat := totalSpan (paces r)

/-- The caller gives up in the course of an attempt. -/
def givesUp (r : Reply (List (Beat PushMessage))) : Bool := (paces r).any Pace.cancels

variable {σ : Type}

open Act

theorem heed_error (h : Heard) (m : PushMessage) : (h.heed m).1.error = m.error.or h.error := by
  rw [Heard.heed]
  split
  · simp_all
  · simp_all
  · split_ifs <;> simp_all

theorem lastComplaint?_cons (b : Beat PushMessage) (beats : List (Beat PushMessage)) :
    lastComplaint? (b :: beats) = (lastComplaint? beats).or (complaint? b) := by
  rw [lastComplaint?, lastComplaint?, List.filterMap_cons]
  cases hb : complaint? b with
  | none => simp
  | some e =>
      rw [List.getLast?_cons]
      cases (beats.filterMap complaint?).getLast? <;> rfl

/-- An attempt succeeds if its call does, its stream has no error and no message tells one. -/
theorem failure?_eq_none_iff {r : Reply (List (Beat PushMessage))} :
    failure? r = none ↔ ∃ beats, r.result = .ok beats ∧
      (∀ b ∈ beats, b.fault? = none) ∧ ∀ b ∈ beats, complaint? b = none := by
  rw [failure?]
  cases r.result with
  | error e => simp
  | ok beats =>
      cases hfault : beats.findSome? Beat.fault? with
      | some e =>
          obtain ⟨b, hb, he⟩ := List.exists_of_findSome?_eq_some hfault
          simp only [hfault, Except.ok.injEq, reduceCtorEq, false_iff]
          rintro ⟨_, rfl, hnone, -⟩
          rw [hnone b hb] at he
          cases he
      | none =>
          have hnone := List.findSome?_eq_none_iff.1 hfault
          simp only [hfault, Option.map_eq_none_iff, lastComplaint?, List.getLast?_eq_none_iff,
            List.filterMap_eq_nil_iff, Except.ok.injEq, exists_eq_left']
          exact ⟨fun h => ⟨hnone, h⟩, fun h => h.2⟩

theorem listen_waited (h : Heard) (beats : List (Beat PushMessage)) (s : Stage σ) :
    Leads (listen h beats) s
      (Waited (totalSpan ((heardBeats beats).map Beat.pace))
        (∃ p ∈ (heardBeats beats).map Beat.pace, p.cancels = true)
        (fun result =>
          match beats.findSome? Beat.fault? with
          | some e => result = .error e
          | none => ∃ later : Heard, result = .ok later ∧
              later.error = (lastComplaint? beats).or h.error) s) := by
  induction beats generalizing h s with
  | nil =>
      have hgives : (∃ p ∈ ([] : List Pace), p.cancels = true) ↔ False := by simp
      simp only [heardBeats, List.map_nil, hgives]
      exact Waited.of_ok ⟨h, rfl, rfl⟩ s
  | cons b rest ih =>
      have hfollow := follow_waited s b.pace
      rw [listen]
      cases hcontent : b.content with
      | none =>
          have hfault : b.fault? = none := by rw [Beat.fault?, hcontent]
          have hcomplaint : complaint? b = none := by rw [complaint?, hcontent]
          have h := waited_bind hfollow fun _ t _ => ih h t
          simp only [heardBeats, hfault, lastComplaint?_cons, hcomplaint, Option.isSome_none,
            Bool.false_eq_true, if_false, List.map_cons, totalSpan, List.findSome?_cons,
            Option.or_none, List.mem_cons, exists_eq_or_imp]
          exact h
      | some content =>
          cases content with
          | error e =>
              have hfault : b.fault? = some e := by rw [Beat.fault?, hcontent]
              have hfail : ∀ t : Stage σ, Leads (fail e : Act σ Heard) t
                  (Waited (some 0) False (fun result => result = .error e) t) := by
                intro t
                rw [leads_fail]
                refine Waited.of_error ?_ t
                rfl
              have h := waited_bind hfollow fun _ t _ => hfail t
              simp only [heardBeats, hfault, Option.isSome_some, if_true, List.map_cons,
                List.map_nil, totalSpan, List.findSome?_cons, List.mem_singleton, exists_eq_left]
              simpa using h
          | ok m =>
              have hfault : b.fault? = none := by rw [Beat.fault?, hcontent]
              have hcomplaint : complaint? b = m.error := by rw [complaint?, hcontent]
              have hlisten := fun t : Stage σ => ih (h.heed m).1 t
              simp only [heed_error] at hlisten
              simp only [heardBeats, hfault, lastComplaint?_cons, hcomplaint, Option.isSome_none,
                Bool.false_eq_true, if_false, List.map_cons, totalSpan, List.findSome?_cons,
                List.mem_cons, exists_eq_or_imp, Option.or_assoc]
              cases (h.heed m).2 with
              | none => exact waited_bind hfollow fun _ t _ => hlisten t
              | some event =>
                  have hshown := waited_bind hfollow fun _ t _ =>
                    waited_bind (announce_waited t event) fun _ u _ => hlisten u
                  simp only [zero_addSpans, false_or] at hshown
                  exact hshown

/-- How an attempt ends that heard of no error or of one. -/
def complain (reason : Option String) : Except BuildError Unit :=
  match reason with
  | some reason => .error (.pushFailed reason)
  | none => .ok ()

def hearBeats (beats : List (Beat PushMessage)) : Act σ Unit :=
  listen {} beats >>= fun heard => ofExcept (complain heard.error)

/-- An attempt once the call is made. -/
def hearOut (r : Reply (List (Beat PushMessage))) : Act σ Unit :=
  receive .forCaller r >>= hearBeats

theorem once_eq (d : Daemon σ) (tag : String) (credentials : Option Registry.Credentials) :
    once d tag credentials =
      checkCaller >>= fun _ =>
        call (fun _ => .push tag credentials) (d.push tag credentials) >>= hearOut := by
  rw [once]
  simp only [ask, bind_assoc]
  refine bind_congr fun _ => bind_congr fun r => bind_congr fun beats => bind_congr fun heard => ?_
  cases heard.error <;> rfl

theorem hearBeats_waited (beats : List (Beat PushMessage)) (s : Stage σ) :
    Leads (hearBeats beats) s
      (Waited (totalSpan ((heardBeats beats).map Beat.pace))
        (∃ p ∈ (heardBeats beats).map Beat.pace, p.cancels = true)
        (fun result => result =
          match beats.findSome? Beat.fault? with
          | some e => .error e
          | none => complain (lastComplaint? beats)) s) := by
  have hlisten := listen_waited {} beats s
  cases hfault : beats.findSome? Beat.fault? with
  | some e =>
      simp only [hfault] at hlisten
      exact waited_bind_error hlisten
  | none =>
      simp only [hfault, Option.or_none] at hlisten
      have hcomplain : ∀ (heard : Heard) (t : Stage σ), heard.error = lastComplaint? beats →
          Leads (ofExcept (complain heard.error)) t
            (Waited (some 0) False (fun r => r = complain (lastComplaint? beats)) t) := by
        intro heard t hheard
        rw [hheard]
        exact ofExcept_waited _ t
      have h := waited_bind hlisten hcomplain
      simp only [addSpans_zero, or_false] at h
      exact h

theorem outcome_eq_of_ok {r : Reply (List (Beat PushMessage))} {beats : List (Beat PushMessage)}
    (h : r.result = .ok beats) :
    outcome r =
      match beats.findSome? Beat.fault? with
      | some e => .error e
      | none => complain (lastComplaint? beats) := by
  rw [outcome, failure?, h]
  simp only
  cases beats.findSome? Beat.fault? with
  | some e => rfl
  | none => cases lastComplaint? beats <;> rfl

/-- An attempt lasts as long as its reply, and comes to what the reply tells. -/
theorem hearOut_waited (r : Reply (List (Beat PushMessage))) (s : Stage σ) :
    Leads (hearOut r) s
      (Waited (span? r) (givesUp r = true) (fun result => result = outcome r) s) := by
  have hreceive := receive_waited r s
  cases hresult : r.result with
  | error e =>
      have houtcome : outcome r = .error e := by rw [outcome, failure?, hresult]
      have hpaces : paces r = [r.pace] := by rw [paces, hresult]
      rw [hresult] at hreceive
      have h := waited_bind_error (f := hearBeats) hreceive
      rw [houtcome, span?, givesUp, hpaces, hearOut]
      simpa [totalSpan] using h
  | ok beats =>
      have hpaces : paces r = r.pace :: (heardBeats beats).map Beat.pace := by rw [paces, hresult]
      have hok : Leads (receive .forCaller r) s (Waited r.pace.span? (r.pace.cancels = true)
          (fun result => ∃ x, result = .ok x ∧ x = beats) s) := by
        simpa [hresult] using hreceive
      have hbeats := hearBeats_waited (σ := σ) beats
      have h := waited_bind (f := hearBeats) hok fun x t hx => by
        rw [hx]
        exact hbeats t
      rw [outcome_eq_of_ok hresult, span?, givesUp, hpaces, hearOut]
      simp only [totalSpan, List.any_cons, Bool.or_eq_true, List.any_eq_true]
      exact h

end Push
end ImageBuild
