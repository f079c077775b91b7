import ImageBuild.Proofs.Classic.Verdict
/-!
# How far a build gets

A build takes its inputs one after the other and shows what comes of each.  A caller who gives up, or something
that never arrives, stops it between two of them: then all that it did came of the inputs in front, and what lies
behind is neither handled nor shown.
-/

namespace ImageBuild.Classic

open Act

variable {σ : Type} {encode : Archive.Encoder} {c : Context}

/-- The events that come of inputs, up to the one that ends the build. -/
def eventsOf (s : State) : List Input → List Event
  | [] => []
  | i :: rest =>
    (respond s i).events ++
      if (respond s i).outcome.isSome then [] else eventsOf (respond s i).state rest

theorem eventsOf_append {before : List Input} (h : ∀ i ∈ before, i.exit? = none) (s : State)
    (rest : List Input) :
    eventsOf s (before ++ rest) = eventsOf s before ++ eventsOf (s.after before) rest := by
  induction before generalizing s with
  | nil => rfl
  | cons i before ih =>
      obtain ⟨hi, hbefore⟩ := List.forall_mem_cons.1 h
      simp only [List.cons_append, eventsOf, outcome_respond_eq_none hi, Option.isSome_none,
        Bool.false_eq_true, if_false, ih hbefore, List.append_assoc]
      rfl

/-- From a state on, a build takes a front of its inputs on stage, and nothing else.  Either this ends it, or it
is stopped: the caller gave up, or what comes next never arrives. -/
def Handles (st : State) (inputs : List Input) (s : Stage σ) (r : Except Halt Built) (t : Stage σ) : Prop :=
  ∃ front, front <+: inputs ∧ t.events = s.events ++ eventsOf st front ∧
    ((∃ result, run st front = some result ∧ r = result.mapError .failed) ∨
      run st front = none ∧ (r = .error (.failed .cancelled) ∧ t.GaveUp ∨ r = .error .forever))

namespace Handles

variable {st : State} {inputs : List Input} {i : Input} {s t u : Stage σ} {r : Except Halt Built}

theorem of_events (hevents : t.events = s.events) (h : Handles st inputs t r u) :
    Handles st inputs s r u := by
  obtain ⟨front, hfront, hshown, hr⟩ := h
  exact ⟨front, hfront, by rw [hshown, hevents], hr⟩

theorem stopped (hevents : t.events = s.events)
    (hr : r = .error (.failed .cancelled) ∧ t.GaveUp ∨ r = .error .forever) : Handles st inputs s r t :=
  ⟨[], List.nil_prefix, by rw [hevents, eventsOf, List.append_nil], .inr ⟨rfl, hr⟩⟩

theorem ended {result : Except BuildError Built} (houtcome : (respond st i).outcome = some result)
    (hevents : t.events = s.events ++ (respond st i).events) :
    Handles st (i :: inputs) s (result.mapError .failed) t := by
  refine ⟨[i], List.cons_prefix_cons.2 ⟨rfl, List.nil_prefix⟩, ?_, .inl ⟨result, ?_, rfl⟩⟩
  · rw [hevents, eventsOf, houtcome, Option.isSome_some, if_pos rfl, List.append_nil]
  · rw [run, houtcome, Option.some_or]

theorem cons (houtcome : (respond st i).outcome = none)
    (hevents : t.events = s.events ++ (respond st i).events)
    (h : Handles (respond st i).state inputs t r u) : Handles st (i :: inputs) s r u := by
  obtain ⟨front, hfront, hshown, hr⟩ := h
  refine ⟨i :: front, List.cons_prefix_cons.2 ⟨rfl, hfront⟩, ?_, ?_⟩
  · rw [hshown, hevents, eventsOf, houtcome, List.append_assoc]
    rfl
  · rwa [run, houtcome, Option.none_or]

/-- Inputs that show nothing may come first. -/
theorem silent {before : List Input}
    (h : ∀ i ∈ before, i.isTold = false ∧ ∀ s, (respond s i).events = [])
    (hlater : Handles (st.after before) inputs s r t) : Handles st (before ++ inputs) s r t := by
  induction before generalizing st with
  | nil => exact hlater
  | cons i before ih =>
      obtain ⟨⟨htold, hevents⟩, hbefore⟩ := List.forall_mem_cons.1 h
      refine cons (outcome_respond_eq_none (Input.exit?_of_isTold htold) st) ?_ (ih hbefore hlater)
      rw [hevents, List.append_nil]

end Handles

theorem silent_of_mem_bodyInputs {use : BodyUse} {i : Input} (h : i ∈ bodyInputs encode c use) :
    i.isTold = false ∧ ∀ s, (respond s i).events = [] := by
  have hread : i ∈ (c.reads encode).map readInput ++ [.finished] →
      i.isTold = false ∧ ∀ s, (respond s i).events = [] := by
    intro hi
    rcases List.mem_append.1 hi with hi | hi
    · obtain ⟨item, -, rfl⟩ := List.mem_map.1 hi
      cases item <;> exact ⟨rfl, fun _ => rfl⟩
    · rw [List.mem_singleton.1 hi]
      exact ⟨rfl, fun _ => rfl⟩
  cases use with
  | hold => exact absurd h List.not_mem_nil
  | drop =>
      rw [List.mem_singleton.1 h]
      exact ⟨rfl, fun _ => rfl⟩
  | drain | lossy => exact hread h

/-! ## Between two inputs -/

/-- An action that shows nothing and comes to `a`, unless the caller or an endless wait stops it. -/
def Pauses {α : Type} (act : Act σ α) (a : α) : Prop :=
  ∀ s, Leads act s fun r t => t.events = s.events ∧
    (r = .ok a ∨ (r = .error (.failed .cancelled) ∧ t.GaveUp ∨ r = .error .forever))

namespace Pauses

variable {α β : Type} {act : Act σ α} {a : α} {f : α → Act σ β}

theorem bind (h : Pauses act a) {b : β} (hf : Pauses (f a) b) : Pauses (act >>= f) b := by
  intro s
  rw [leads_bind]
  refine (h s).mono fun r t ht => ?_
  obtain ⟨hevents, rfl | ⟨rfl, hgave⟩ | rfl⟩ := ht
  · exact (hf t).mono fun _ _ hu => ⟨hu.1.trans hevents, hu.2⟩
  · exact ⟨hevents, .inr (.inl ⟨rfl, hgave⟩)⟩
  · exact ⟨hevents, .inr (.inr rfl)⟩

theorem bind_handles {f : α → Act σ Built} {st : State} {inputs : List Input} (h : Pauses act a)
    (hf : ∀ t, Leads (f a) t (Handles st inputs t)) (s : Stage σ) :
    Leads (act >>= f) s (Handles st inputs s) := by
  rw [leads_bind]
  refine (h s).mono fun r t ht => ?_
  obtain ⟨hevents, rfl | ⟨rfl, hgave⟩ | rfl⟩ := ht
  · exact (hf t).mono fun _ _ hu => hu.of_events hevents
  · exact .stopped hevents (.inl ⟨rfl, hgave⟩)
  · exact .stopped hevents (.inr rfl)

theorem ite {other : Act σ α} (c : Prop) [Decidable c] (h : Pauses act a) (hother : Pauses other a) :
    Pauses (if c then act else other) a := by
  split
  · exact h
  · exact hother

theorem of_waited {act : Act σ Unit} {span : Option Nat} {gives : Prop} (hrests : Frames Rests act)
    (h : ∀ s, Leads act s (Waited span gives Plain s)) : Pauses act () := by
  intro s
  refine (Leads.and (hrests s) (h s)).mono fun r t ht => ⟨ht.1.events, ?_⟩
  rcases ht.2.ending with ⟨_, _, ⟨_, rfl, -⟩, hr, -⟩ | ⟨hr, hgave, -⟩ | ⟨hr, -⟩
  · exact .inl hr
  · exact .inr (.inl ⟨hr, hgave⟩)
  · exact .inr (.inr hr)

end Pauses

theorem pauses_pure {α : Type} (a : α) : Pauses (pure a : Act σ α) a := fun _ => ⟨rfl, .inl rfl⟩

theorem pauses_checkCaller : Pauses (checkCaller : Act σ Unit) () :=
  .of_waited patient_rests.checkCaller fun s => (checkCaller_waited s).mono fun _ _ ht => ht.1

theorem pauses_follow (p : Pace) : Pauses (follow .forCaller p : Act σ Unit) () :=
  .of_waited (patient_rests.follow .forCaller p) fun s => follow_waited s p

theorem pauses_exchange (n : Nat) : Pauses (exchange n : Act σ Unit) () :=
  .of_waited (patient_rests.exchange n) fun s => exchange_waited s n

theorem pauses_unwatched (p : Pace) : Pauses (follow .none p : Act σ Unit) () := by
  intro s
  refine (Leads.and (patient_rests.follow .none p s) (follow_none s p)).mono fun r t ht => ?_
  refine ⟨ht.1.events, ?_⟩
  rw [ht.2]
  split
  · exact .inr (.inr rfl)
  · exact .inl rfl

theorem pauses_answer {r : BuildReply} {beats : List (Beat BuildMessage)}
    (hreply : r.reply.result = .ok beats) (hcall : r.body = .drain → c.archive.fault = none)
    (packing : Nat) : Pauses (answer encode c packing r : Act σ (List (Beat BuildMessage))) beats := by
  have hread : Pauses (readAll encode c packing : Act σ Unit) () := by
    intro s
    rw [readAll, leads_bind, leads_get]
    simp only
    split
    · exact pauses_exchange _ s
    · exact ⟨(patient_rests.giveWay .none s).events, .inl rfl⟩
  have hreceive : Pauses (receive .none r.reply : Act σ (List (Beat BuildMessage))) beats := by
    rw [receive, hreply]
    exact (pauses_unwatched r.reply.pace).bind (pauses_pure beats)
  rw [answer]
  refine .ite _ (hread.bind ?_) ?_
  all_goals
    split
    · rename_i fault hbody hfault
      cases (hcall hbody).symm.trans hfault
    · exact hreceive

theorem announceAll_leads (events : List Event) (s : Stage σ) :
    Leads (events.forM announce) s fun r t => r = .ok ⟨⟩ ∧ t.events = s.events ++ events := by
  induction events generalizing s with
  | nil => exact ⟨rfl, (List.append_nil _).symm⟩
  | cons e rest ih =>
      have hshown : ({ s with journal := .shown e :: s.journal } : Stage σ).events = s.events ++ [e] :=
        Stage.events_of_journal_eq_cons (e := .shown e) rfl
      change Leads (announce e >>= fun _ => rest.forM announce) s _
      rw [leads_bind, leads_announce]
      refine (ih _).mono fun r u hu => ⟨hu.1, ?_⟩
      rw [hu.2, hshown, List.append_assoc, List.singleton_append]

/-- An input is handled, and then the build is over or goes on with the next ones. -/
theorem hear_bind_handles {st : State} {i : Input} (inputs : List Input) {f : Response → Act σ Built}
    (hended : ∀ result, (respond st i).outcome = some result →
      ∀ t, Leads (f (respond st i)) t fun r u => r = result.mapError .failed ∧ u.events = t.events)
    (hgoes : (respond st i).outcome = none →
      ∀ t, Leads (f (respond st i)) t (Handles (respond st i).state inputs t)) (s : Stage σ) :
    Leads (hear st i >>= f) s (Handles st (i :: inputs) s) := by
  have hhear : Leads (hear st i) s fun r t =>
      r = .ok (respond st i) ∧ t.events = s.events ++ (respond st i).events := by
    rw [hear]
    simp only [leads_bind]
    refine (announceAll_leads _ s).mono fun r t ht => ?_
    obtain ⟨rfl, hevents⟩ := ht
    exact ⟨rfl, hevents⟩
  rw [leads_bind]
  refine hhear.mono fun r t ht => ?_
  obtain ⟨rfl, hevents⟩ := ht
  cases houtcome : (respond st i).outcome with
  | some result =>
      refine (hended result houtcome t).mono fun r u hu => ?_
      obtain ⟨rfl, hsame⟩ := hu
      exact .ended houtcome (hsame.trans hevents)
  | none => exact (hgoes houtcome t).mono fun r u hu => .cons houtcome hevents hu

/-- The end of a build tells what came of its last input. -/
theorem finish_leads {r : Response} {result : Except BuildError Built} (h : r.outcome = some result)
    (s : Stage σ) :
    Leads (finish r) s fun r t => r = result.mapError .failed ∧ t.events = s.events := by
  rw [finish, h, Option.getD_some, leads_ofExcept]
  exact ⟨rfl, rfl⟩

/-! ## The whole of a build -/

theorem listen_handles (st : State) (look : Bool) (beats : List (Beat BuildMessage)) (s : Stage σ) :
    Leads (listen st look beats) s (Handles st (inputsOf beats) s) := by
  have hlook : ∀ {look : Bool} {act : Act σ Built} {st : State} {inputs : List Input},
      (∀ t, Leads act t (Handles st inputs t)) → ∀ t,
        Leads (if look then checkCaller >>= fun _ => act else act) t (Handles st inputs t) := by
    intro look act st inputs hact t
    cases look with
    | false => exact hact t
    | true => exact pauses_checkCaller.bind_handles hact t
  induction beats generalizing st look s with
  | nil => exact hlook (hear_bind_handles [] (fun _ h => finish_leads h) fun h => by cases h) s
  | cons b rest ih =>
      refine hlook (fun t => (pauses_follow b.pace).bind_handles (fun t => ?_) t) s
      obtain ⟨pace, content⟩ := b
      rcases content with _ | e | m
      · exact ih st false t
      · exact hear_bind_handles (inputsOf rest) (fun _ h => finish_leads h) (fun h => by cases h) t
      · refine hear_bind_handles (inputsOf rest) (fun result h t => ?_) (fun h t => ?_) t
        · rw [h, Option.isSome_some, if_pos rfl]
          exact finish_leads h t
        · rw [h, Option.isSome_none, if_neg Bool.false_ne_true]
          exact ih _ true t

theorem afterCall_handles {use : BodyUse} (pace : Pace) (beats : List (Beat BuildMessage))
    (hcall : use = .drain → c.archive.fault = none) (packing : Nat) (s : Stage σ) :
    Leads (afterCall encode c packing ⟨use, pace, .ok beats⟩) s
      (Handles {} (bodyInputs encode c use ++ .look :: inputsOf beats) s) := by
  have hlook : ∀ t : Stage σ, Leads (hear (stateAfterCall encode c use) .look >>= fun seen =>
      listen seen.state true beats) t (Handles (stateAfterCall encode c use) (.look :: inputsOf beats) t) := by
    have hnone := outcome_respond_eq_none (i := .look) rfl (stateAfterCall encode c use)
    refine hear_bind_handles (inputsOf beats) (fun result h => ?_) fun _ => listen_handles _ true beats
    cases hnone.symm.trans h
  refine (pauses_answer rfl hcall packing).bind_handles (fun t =>
    pauses_checkCaller.bind_handles (fun t => ?_) t) s
  refine Leads.mono ?_ fun _ _ hu => Handles.silent (fun _ => silent_of_mem_bodyInputs) hu
  simp only
  split
  · exact (pauses_exchange 1).bind_handles hlook t
  · exact hlook t

theorem build_handles {d : Daemon σ} {settings : Settings} {spec : BuildSpec}
    {credentials : Registry.CredentialTable} {s : Stage σ} {use : BodyUse} {pace : Pace}
    {beats : List (Beat BuildMessage)}
    (hreply : (d.build (request settings spec c credentials) s.daemon).1 = ⟨use, pace, .ok beats⟩)
    (hcall : use = .drain → c.archive.fault = none) (packing : Nat) :
    Leads (build d settings spec c packing credentials) s
      (Handles {} (bodyInputs s.encode c use ++ .look :: inputsOf beats) s) := by
  rw [build, leads_bind, leads_get]
  simp only
  rw [leads_bind]
  refine ((pauses_checkCaller s).and (quiet_checkCaller s)).mono fun r t ht => ?_
  obtain ⟨⟨hevents, rfl | ⟨rfl, hgave⟩ | rfl⟩, hstill⟩ := ht
  · simp only
    rw [leads_bind, leads_call, hstill.daemon, hreply]
    refine (afterCall_handles pace beats hcall packing _).mono fun r u hu => hu.of_events ?_
    rw [Stage.events_of_journal_eq_cons rfl, hevents]
    exact List.append_nil _
  · exact .stopped hevents (.inl ⟨rfl, hgave⟩)
  · exact .stopped hevents (.inr rfl)

/-! ## A caller who gives up -/

/-- The caller gives up before the next thing comes. -/
def GivesUpBefore (s : Stage σ) (beats : List (Beat BuildMessage)) : Prop :=
  s.isCancelled = true ∨ ∃ c, s.cancelAt = some c ∧
    ∃ b ∈ beats.head?, ∀ k, b.pace.span? = some k → max s.now c < s.now + k

theorem checkCaller_gives_up {s : Stage σ} (h : s.isCancelled = true) :
    Leads checkCaller s fun r _ => r = .error (.failed .cancelled) := by
  refine (checkCaller_waited s).mono fun r t ht => ?_
  obtain ⟨hwaited, hlets⟩ := ht
  rcases hwaited.ending with ⟨_, _, ⟨_, rfl, -⟩, rfl, -⟩ | ⟨hr, -⟩ | ⟨-, hspan, -⟩
  · obtain ⟨hcancelled, hlate⟩ := hlets rfl
    rw [Stage.isCancelled, Bool.or_eq_true, Option.any_eq_true] at h
    rcases h with h | ⟨c, hc, hlt⟩
    · cases hcancelled.symm.trans (hwaited.elapsed.cancelled h)
    · have hle := hlate c (hwaited.elapsed.cancelAt.trans hc)
      have hnow := hwaited.elapsed.now_le
      have := of_decide_eq_true hlt
      omega
  · exact hr
  · cases hspan

theorem follow_gives_up {s : Stage σ} {c : Nat} (hc : s.cancelAt = some c) {p : Pace}
    (h : ∀ k, p.span? = some k → max s.now c < s.now + k) :
    Leads (follow .forCaller p) s fun r _ => r = .error (.failed .cancelled) := by
  refine (follow_waited s p).mono fun r t hwaited => ?_
  rcases hwaited.ending with ⟨_, k, -, -, hspan, hnow, -⟩ | ⟨hr, -⟩ | ⟨-, -, hnever⟩
  · have hprompt := hwaited.elapsed.prompt c hc
    have := h k hspan
    omega
  · exact hr
  · cases hnever.symm.trans hc

/-- Nothing more is handled or shown. -/
theorem listen_gives_up (st : State) {beats : List (Beat BuildMessage)} {s : Stage σ}
    (h : GivesUpBefore s beats) :
    Leads (listen st true beats) s fun r t =>
      r = .error (.failed .cancelled) ∧ t.events = s.events := by
  have hchecked : ∀ {f : Unit → Act σ Built}, s.isCancelled = true →
      Leads (checkCaller >>= f) s fun r t => r = .error (.failed .cancelled) ∧ t.events = s.events := by
    intro f hcancelled
    rw [leads_bind]
    refine (Leads.and (checkCaller_gives_up hcancelled) (patient_rests.checkCaller s)).mono fun r t ht => ?_
    obtain ⟨rfl, hrests⟩ := ht
    exact ⟨rfl, hrests.events⟩
  rcases h with hcancelled | ⟨c, hc, b, hb, hlate⟩
  · cases beats <;> exact hchecked hcancelled
  · obtain ⟨rest, rfl⟩ := List.head?_eq_some_iff.1 hb
    rw [listen, if_pos rfl, leads_bind]
    refine (Leads.and (checkCaller_waited s) (patient_rests.checkCaller s)).mono fun r t ht => ?_
    obtain ⟨⟨hwaited, -⟩, hrests⟩ := ht
    rcases hwaited.ending with ⟨_, k, ⟨_, rfl, -⟩, rfl, hspan, hnow, -⟩ | ⟨rfl, -⟩ | ⟨-, hspan, -⟩
    · cases hspan
      have hlater : ∀ k, b.pace.span? = some k → max t.now c < t.now + k := by
        rw [hnow]
        exact hlate
      have hfollow := follow_gives_up (hwaited.elapsed.cancelAt.trans hc) hlater
      simp only [Except.mapError]
      rw [leads_bind]
      refine (hfollow.and (patient_rests.follow .forCaller b.pace t)).mono fun r u hu => ?_
      obtain ⟨rfl, hrests'⟩ := hu
      exact ⟨rfl, (hrests.trans hrests').events⟩
    · exact ⟨rfl, hrests.events⟩
    · cases hspan

/-! ## The verdict -/

/-- The messages of a stream in front of the error that it breaks off with. -/
def messagesOf : List (Beat BuildMessage) → List BuildMessage
  | [] => []
  | b :: rest =>
    match b.content with
    | none => messagesOf rest
    | some (.error _) => []
    | some (.ok m) => m :: messagesOf rest

def brokenOf (beats : List (Beat BuildMessage)) : Option BuildError :=
  beats.findSome? fun b => b.content.bind fun
    | .error e => some e
    | .ok _ => none

theorem tells_inputsOf (beats : List (Beat BuildMessage)) :
    Tells (messagesOf beats) (brokenOf beats) (inputsOf beats) := by
  rw [Tells]
  induction beats with
  | nil => exact List.prefix_rfl
  | cons b rest ih =>
      obtain ⟨pace, _ | e | m⟩ := b
      · exact ih
      · exact List.cons_prefix_cons.2 ⟨rfl, List.nil_prefix⟩
      · exact List.cons_prefix_cons.2 ⟨rfl, ih⟩

theorem reads_of_mem_inputsOf {beats : List (Beat BuildMessage)} {i : Input}
    (h : i ∈ inputsOf beats) : i.reads = false := by
  rw [inputsOf, List.mem_append, List.mem_singleton] at h
  rcases h with h | rfl
  · obtain ⟨⟨_, _ | _ | _⟩, -, hb⟩ := List.mem_filterMap.1 h <;> cases hb <;> rfl
  · rfl

theorem filter_reads_begun (encode : Archive.Encoder) (c : Context) (use : BodyUse) {later : List Input}
    (h : ∀ i ∈ later, i.reads = false) :
    (bodyInputs encode c use ++ .look :: later).filter Input.reads =
      if use.reads then bodyInputs encode c .lossy else [] := by
  have hall : (bodyInputs encode c .lossy).filter Input.reads = bodyInputs encode c .lossy := by
    refine List.filter_eq_self.2 fun i hi => ?_
    rcases List.mem_append.1 hi with hi | hi
    · obtain ⟨item, -, rfl⟩ := List.mem_map.1 hi
      cases item <;> rfl
    · rw [List.mem_singleton.1 hi]
      rfl
  have hlater : (.look :: later).filter Input.reads = [] :=
    List.filter_eq_nil_iff.2 (List.forall_mem_cons.2 ⟨Bool.false_ne_true, fun i hi => by simp [h i hi]⟩)
  rw [List.filter_append, hlater, List.append_nil]
  cases use with
  | drain | lossy => exact hall
  | drop | hold => rfl

theorem exit?_of_mem_bodyInputs {use : BodyUse} :
    ∀ i ∈ bodyInputs encode c use, i.exit? = none :=
  fun _ hi => Input.exit?_of_isTold (silent_of_mem_bodyInputs hi).1

theorem readBy_begun (encode : Archive.Encoder) (c : Context) (use : BodyUse) (beats : List (Beat BuildMessage)) :
    readBy encode c (bodyInputs encode c use ++ .look :: inputsOf beats) =
      if use.reads then c.reads encode else [] := by
  have hbefore : beforeExit (bodyInputs encode c use ++ .look :: inputsOf beats) =
      bodyInputs encode c use ++ .look :: beforeExit (inputsOf beats) := by
    rw [beforeExit, List.takeWhile_append_of_pos fun i hi => by rw [exit?_of_mem_bodyInputs i hi]; rfl]
    rfl
  have hlater : ∀ i ∈ beforeExit (inputsOf beats), i.reads = false := fun i hi =>
    reads_of_mem_inputsOf ((List.takeWhile_prefix _).subset hi)
  rw [readBy, hbefore, List.countP_eq_length_filter, filter_reads_begun encode c use hlater]
  cases use.reads with
  | false => rfl
  | true =>
      refine List.take_of_length_le ?_
      change (c.reads encode).length ≤ ((c.reads encode).map readInput ++ [Input.finished]).length
      rw [List.length_append, List.length_map]
      exact Nat.le_add_right _ 1

/-- A build on stage takes its inputs in the order in which it reads first and then listens. -/
theorem conclusion_begun (encode : Archive.Encoder) (c : Context) (use : BodyUse)
    (beats : List (Beat BuildMessage)) :
    conclusion (begun encode c use) beats =
      verdict (if use.reads then c.reads encode else []) (messagesOf beats) (brokenOf beats) := by
  have hreads : Reads encode c (bodyInputs encode c use ++ .look :: inputsOf beats) := by
    rw [Reads, filter_reads_begun encode c use fun i => reads_of_mem_inputsOf]
    split
    · exact List.prefix_rfl
    · exact List.nil_prefix
  have htells : Tells (messagesOf beats) (brokenOf beats)
      (bodyInputs encode c use ++ .look :: inputsOf beats) := by
    have hnone : (bodyInputs encode c use).filter Input.isTold = [] :=
      List.filter_eq_nil_iff.2 fun i hi => by simp [(silent_of_mem_bodyInputs hi).1]
    rw [Tells, List.filter_append, hnone]
    exact tells_inputsOf beats
  have hrun : run {} (bodyInputs encode c use ++ .look :: inputsOf beats) =
      some (conclusion (begun encode c use) beats) := by
    rw [run_append exit?_of_mem_bodyInputs, run, outcome_respond_eq_none rfl, Option.none_or]
    exact run_inputsOf _ beats
  rw [run_eq_verdict htells hreads, readBy_begun] at hrun
  exact (Option.some.inj hrun).symm

/-- Nothing but what the daemon told and had read decides on a build, in whatever order the two are mixed: the
first message with an error, or else the end of the stream, where a fault of the context goes first and then the
last id that was told counts.  The size of the context is all that was read of it by then, in whatever chunks it
comes.  A caller who gives up leaves everything that comes later undone. -/
theorem build_verdict (c : Context) :
    (∀ encode messages broken inputs, Tells messages broken inputs → Reads encode c inputs →
      run {} inputs = some (verdict (readBy encode c inputs) messages broken)) ∧
    (∀ inputs built, run {} inputs = some (.ok built) →
      built.contextSize = ((beforeExit inputs).map Input.size).sum) ∧
    (∀ before after, (∀ i ∈ before, i.exit? = none) →
      run {} (before ++ .cancelled :: after) = some (.error .cancelled) ∧
        eventsOf {} (before ++ .cancelled :: after) = eventsOf {} before) ∧
    (∀ (σ : Type) (d : Daemon σ) settings spec packing credentials (s : Stage σ) use pace beats,
      (d.build (request settings spec c credentials) s.daemon).1 = ⟨use, pace, .ok beats⟩ →
      (use = .drain → c.archive.fault = none) →
        Leads (build d settings spec c packing credentials) s fun r t =>
          Handles {} (bodyInputs s.encode c use ++ .look :: inputsOf beats) s r t ∧
            (¬t.GaveUp → r =
              if (pace :: (heard beats).map Beat.pace).any Pace.hangs then .error .forever
              else (verdict (if use.reads then c.reads s.encode else []) (messagesOf beats)
                (brokenOf beats)).mapError .failed)) ∧
    ∀ (σ : Type) st beats (s : Stage σ), GivesUpBefore s beats →
      Leads (listen st true beats) s fun r t =>
        r = .error (.failed .cancelled) ∧ t.events = s.events := by
  refine ⟨fun _ _ _ _ => run_eq_verdict,
    fun inputs built h => (contextSize_of_run h).trans (Nat.zero_add _),
    fun before after hbefore => ⟨?_, ?_⟩, ?_, fun _ st _ _ => listen_gives_up st⟩
  · rw [run_append hbefore]
    rfl
  · rw [eventsOf_append hbefore]
    exact List.append_nil _
  · intro σ d settings spec packing credentials s use pace beats hreply hcall
    refine (build_handles hreply hcall packing).and ?_
    rw [← conclusion_begun, ← foretold_of_ok pace beats hcall, ← hreply]
    exact build_leads d settings spec c packing credentials s

end ImageBuild.Classic
