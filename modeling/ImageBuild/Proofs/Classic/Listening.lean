import ImageBuild.Proofs.Classic.Exits
import ImageBuild.Proofs.Stage.Bound
/-!
# What a classic build is bound for

The reply to the call of a classic build settles what the build comes to, however long everything takes,
unless the caller gives up.  Only what the build still waits for counts: nothing that comes after its way out.
-/

namespace ImageBuild.Classic

open Act

variable {σ : Type}

/-- The input that a beat is for a build, if it is one. -/
def input? (b : Beat BuildMessage) : Option Input :=
  match b.content with
  | none => none
  | some (.error e) => some (.failed e)
  | some (.ok m) => some (.message m)

/-- What a build hears in a stream. -/
def inputsOf (beats : List (Beat BuildMessage)) : List Input :=
  beats.filterMap input? ++ [.ended]

/-- The beats up to the one that ends a build. -/
def heard : List (Beat BuildMessage) → List (Beat BuildMessage)
  | [] => []
  | b :: rest => if ((input? b).bind Input.exit?).isSome then [b] else b :: heard rest

theorem conclusion_cons (s : State) (b : Beat BuildMessage) (rest : List (Beat BuildMessage)) :
    conclusion s (b :: rest) =
      match input? b with
      | none => conclusion s rest
      | some i => (respond s i).outcome.getD (conclusion (respond s i).state rest) := by
  obtain ⟨pace, content⟩ := b
  rcases content with _ | e | m
  · rfl
  · rfl
  · simp only [conclusion, input?, respond]
    cases m.error <;> rfl

/-- What a build comes to is what becomes of all that it hears. -/
theorem run_inputsOf (s : State) (beats : List (Beat BuildMessage)) :
    run s (inputsOf beats) = some (conclusion s beats) := by
  induction beats generalizing s with
  | nil => rfl
  | cons b rest ih =>
      rw [conclusion_cons, inputsOf, List.filterMap_cons]
      cases input? b with
      | none => exact ih s
      | some i =>
          rw [List.cons_append, run]
          exact (congrArg (Option.or _) (ih _)).trans (Option.or_some ..)

/-- What comes of listening to a stream from a state on. -/
def listened (s : State) (beats : List (Beat BuildMessage)) : Except Halt Built :=
  afterPaces ((heard beats).map Beat.pace) >>= fun _ => (conclusion s beats).mapError .failed

theorem listened_cons (s : State) (b : Beat BuildMessage) (rest : List (Beat BuildMessage)) :
    listened s (b :: rest) = afterPaces [b.pace] >>= fun _ =>
      match input? b with
      | none => listened s rest
      | some i =>
        match (respond s i).outcome with
        | some result => result.mapError .failed
        | none => listened (respond s i).state rest := by
  have hlater : ∀ (later : List (Beat BuildMessage)) (r : Except Halt Built),
      (afterPaces ((b :: later).map Beat.pace) >>= fun _ => r) =
        afterPaces [b.pace] >>= fun _ => afterPaces (later.map Beat.pace) >>= fun _ => r := by
    intro later r
    rw [List.map_cons, afterPaces_cons, bind_assoc]
  rw [listened, heard, conclusion_cons]
  cases input? b with
  | none => exact hlater (heard rest) _
  | some i =>
      rw [Option.bind_some, ← isSome_outcome_respond s i]
      simp only
      cases (respond s i).outcome with
      | some result => exact hlater [] _
      | none => exact hlater (heard rest) _

theorem bound_hear (s : State) (i : Input) :
    BoundFor (hear s i : Act σ Response) (.ok (respond s i)) :=
  (bound_announceAll _).bind fun _ => bound_pure (respond s i)

theorem bound_listen (s : State) (look : Bool) (beats : List (Beat BuildMessage)) :
    BoundFor (listen s look beats : Act σ Built) (listened s beats) := by
  have hlook : ∀ {look : Bool} {act : Act σ Built} {r : Except Halt Built}, BoundFor act r →
      BoundFor (if look then checkCaller >>= fun _ => act else act) r :=
    fun hact => .ite _ (bound_checkCaller.bind fun _ => hact) hact
  have hend : ∀ (s : State) (i : Input), BoundFor (hear s i >>= finish : Act σ Built)
      (((respond s i).outcome.getD (.error .missingImageId)).mapError .failed) :=
    fun s i => (bound_hear s i).bind fun r => bound_ofExcept _
  induction beats generalizing s look with
  | nil => exact hlook (hend s .ended)
  | cons b rest ih =>
      rw [listened_cons]
      refine hlook ((bound_follow b.pace).bind fun _ => ?_)
      obtain ⟨pace, content⟩ := b
      rcases content with _ | e | m
      · exact ih s false
      · exact hend s (.failed e)
      · -- A message that tells an error ends the build, and the rest of the stream is not heard.
        refine (bound_hear s (.message m)).bind (g := fun r =>
          match r.outcome with
          | some result => result.mapError .failed
          | none => listened r.state rest) fun r => ?_
        rw [finish]
        cases r.outcome with
        | some result => exact bound_ofExcept result
        | none => exact ih r.state true

/-! ## From its call on -/

variable {encode : Archive.Encoder} {c : Context}

/-- The state in which a build begins to listen. -/
def begun (encode : Archive.Encoder) (c : Context) (use : BodyUse) : State :=
  (respond (stateAfterCall encode c use) .look).state

/-- What comes of waiting for the answer to the call. -/
def answered (c : Context) (r : BuildReply) : Except Halt (List (Beat BuildMessage)) :=
  match r.body, c.archive.fault with
  | .drain, some fault => .error (.failed (.io fault))
  | _, _ => afterPaces [r.reply.pace] >>= fun _ => r.reply.result.mapError .failed

/-- What a build comes to whose call has this reply. -/
def foretold (encode : Archive.Encoder) (c : Context) (r : BuildReply) : Except Halt Built :=
  answered c r >>= listened (begun encode c r.body)

/-- If the call succeeds, a build comes to what the stream tells. -/
theorem foretold_of_ok {use : BodyUse} (pace : Pace) (beats : List (Beat BuildMessage))
    (h : use = .drain → c.archive.fault = none) :
    foretold encode c ⟨use, pace, .ok beats⟩ =
      if (pace :: (heard beats).map Beat.pace).any Pace.hangs then .error .forever
      else (conclusion (begun encode c use) beats).mapError .failed := by
  have hanswered : answered c ⟨use, pace, .ok beats⟩ = afterPaces [pace] >>= fun _ => .ok beats := by
    rw [answered]
    split
    · rename_i fault huse hfault
      cases (h huse).symm.trans hfault
    · rfl
  rw [foretold, hanswered, ← afterPaces_bind, afterPaces_cons pace ((heard beats).map Beat.pace),
    bind_assoc, bind_assoc]
  rfl

theorem bound_answer (encode : Archive.Encoder) (c : Context) (packing : Nat) (r : BuildReply) :
    BoundFor (answer encode c packing r : Act σ (List (Beat BuildMessage))) (answered c r) := by
  have hread : BoundFor (readAll encode c packing : Act σ Unit) (.ok ()) :=
    bound_get_bind fun s => .ite _ (bound_exchange _) bound_giveWay
  have hreply : BoundFor (match r.body, c.archive.fault with
      | .drain, some fault => fail (.io fault)
      | _, _ => receive .none r.reply : Act σ (List (Beat BuildMessage))) (answered c r) := by
    rw [answered]
    split
    · exact bound_fail _
    · exact bound_receive r.reply
  rw [answer]
  split
  · exact hread.bind fun _ => hreply
  · exact hreply

theorem bound_afterCall (encode : Archive.Encoder) (c : Context) (packing : Nat) (r : BuildReply) :
    BoundFor (afterCall encode c packing r : Act σ Built) (foretold encode c r) := by
  refine (bound_answer encode c packing r).bind fun beats =>
    bound_checkCaller.bind (g := fun _ => listened (begun encode c r.body) beats) fun _ => ?_
  have hlisten : BoundFor (hear (stateAfterCall encode c r.body) .look >>= fun seen =>
      listen seen.state true beats : Act σ Built) (listened (begun encode c r.body) beats) :=
    (bound_hear _ .look).bind fun seen => bound_listen seen.state true beats
  exact .ite _ ((bound_exchange 1).bind fun _ => hlisten) hlisten

theorem build_leads (d : Daemon σ) (settings : Settings) (spec : BuildSpec) (c : Context)
    (packing : Nat) (credentials : Registry.CredentialTable) (s : Stage σ) :
    Leads (build d settings spec c packing credentials) s fun r t => ¬t.GaveUp →
      r = foretold s.encode c (d.build (request settings spec c credentials) s.daemon).1 := by
  rw [build, leads_bind, leads_get]
  simp only
  rw [leads_bind]
  -- The call is made of the daemon as it was, since nothing but waiting comes before.
  refine ((bound_checkCaller.comes s).and (quiet_checkCaller s)).mono fun r t ht => ?_
  obtain ⟨hcomes, hstill⟩ := ht
  cases r with
  | error halt =>
      intro hgave
      cases hcomes hgave
  | ok x =>
      rw [leads_bind, leads_call, ← hstill.daemon]
      exact (bound_afterCall s.encode c packing _).comes _

end ImageBuild.Classic
