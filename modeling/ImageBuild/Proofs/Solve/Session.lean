import ImageBuild.Proofs.Solve.Exchange
import ImageBuild.Proofs.Stage.Frame
/-!
# A session on a stage

A build on a stage has the daemon's part first, and shows the news that came of it afterwards.  It comes to
the same as turns in which the reader takes each of the news as soon as it is sent, so that whatever is true
of a session in every order of turns is true of the build.
-/

namespace ImageBuild

namespace SolveReply

def arriving (r : SolveReply) : List SolveStatus :=
  (r.news.takeWhile fun item => !item.1.hangs).map Prod.snd

def ending? (r : SolveReply) : Option (Except BuildError SolveResponse) :=
  if r.news.all (fun item => !item.1.hangs) ∧ r.reply.pace.hangs = false then some r.reply.result
  else none

variable {p : Pace} (hp : p.hangs = false) (n : SolveStatus) (rest : List (Pace × SolveStatus))
  (reply : Reply SolveResponse)
include hp

theorem arriving_cons : arriving { news := (p, n) :: rest, reply } = n :: arriving { news := rest, reply } := by
  simp [arriving, hp]

theorem ending?_cons : ending? { news := (p, n) :: rest, reply } = ending? { news := rest, reply } := by
  rw [ending?, ending?, List.all_cons, hp]
  rfl

end SolveReply

namespace Solve

open Act

variable {σ : Type}

/-- The session in which the daemon replies in this way and events go to this screen. -/
def Talk.of (r : SolveReply) (screen : Screen) : Talk where
  news := r.arriving
  ending := r.ending?
  fault _ e := screen.faultOf? e

/-! ## The daemon's part -/

/-- How the daemon's part comes out that starts on one stage and ends on another. -/
inductive Came (reply : SolveReply) (s t : Stage σ) :
    Except Halt (List SolveStatus × Except BuildError SolveResponse) → Prop
  | ended {ending : Except BuildError SolveResponse} (hending : reply.ending? = some ending) :
      Came reply s t (.ok (reply.arriving, ending))
  | stopped {k : Nat} (hk : k ≤ reply.arriving.length) (hgave : t.GaveUp) :
      Came reply s t (.ok (reply.arriving.take k, .error .cancelled))
  /-- The daemon was not even called. -/
  | barred (hgave : t.GaveUp) : Came reply s t (.error (.failed .cancelled))
  | forever (hending : reply.ending? = none) (hcaller : s.cancelAt = none) :
      Came reply s t (.error .forever)

theorem handOver_waited (s : Stage σ) (p : Pace) (untaken : Bool) :
    Leads (handOver p untaken) s (Waited p.span? (p.cancels = true) Plain s) := by
  have hgive (c : Bool) (s : Stage σ) :
      Leads (if c then giveWay .forCaller else pure ()) s (Waited (some 0) False Plain s) := by
    cases c with
    | true => exact giveWay_waited s
    | false => exact Waited.of_ok ⟨(), rfl, trivial⟩ s
  have heq : handOver p untaken = follow .forCaller p >>= fun _ =>
      (if untaken && isAtOnce p then giveWay .forCaller else pure ()) >>= fun _ =>
        (exchange 1 : Act σ Unit) := by
    rw [handOver]
    cases untaken && isAtOnce p <;> rfl
  have h := waited_bind (follow_waited s p) fun _ t _ =>
    waited_bind (hgive (untaken && isAtOnce p) t) fun _ u _ => exchange_waited u 1
  rw [or_self, or_false] at h
  rw [heq]
  simpa using h

theorem rests_handOver (p : Pace) (untaken : Bool) :
    Frames Rests (handOver p untaken : Act σ Unit) := by
  refine (patient_rests.follow .forCaller p).bind fun _ => ?_
  have hgive : Frames Rests (giveWay .forCaller >>= fun _ => exchange 1 : Act σ Unit) :=
    (patient_rests.giveWay .forCaller).bind fun _ => patient_rests.exchange 1
  exact of_ite _ hgive (patient_rests.exchange 1)

theorem rests_produce (reply : Reply SolveResponse) (untaken : Bool)
    (news : List (Pace × SolveStatus)) :
    Frames Rests (produce reply untaken news :
      Act σ (List SolveStatus × Except BuildError SolveResponse)) := by
  induction news generalizing untaken with
  | nil => exact (patient_rests.receive .forCaller reply).attempt.bind fun _ => frames_pure _
  | cons first rest ih =>
      refine (rests_handOver first.1 untaken).attempt.bind fun result => ?_
      cases result with
      | error e => exact frames_pure _
      | ok x => exact (ih true).bind fun _ => frames_pure _

theorem Came.cons {p : Pace} (hp : p.hangs = false) {n : SolveStatus}
    {rest : List (Pace × SolveStatus)} {reply : Reply SolveResponse} {s t u : Stage σ}
    {r : Except Halt (List SolveStatus × Except BuildError SolveResponse)} (hs : Elapsed s t)
    (h : Came { news := rest, reply } t u r) :
    Came { news := (p, n) :: rest, reply } s u (r.map fun came => (n :: came.1, came.2)) := by
  have harriving := SolveReply.arriving_cons hp n rest reply
  have hending := SolveReply.ending?_cons hp n rest reply
  cases h with
  | ended hended =>
      have hthis := Came.ended (s := s) (t := u) (hending.trans hended)
      rwa [harriving] at hthis
  | @stopped k hk hgave =>
      have hthis : Came { news := (p, n) :: rest, reply } s u _ :=
        .stopped (k := k + 1) (by rw [harriving]; exact Nat.succ_le_succ hk) hgave
      rwa [harriving] at hthis
  | barred hgave => exact .barred hgave
  | forever hended hcaller => exact .forever (hending.trans hended) (hs.cancelAt ▸ hcaller)

/-- News by news, the daemon's part goes on, or the caller gives up, or nothing more comes. -/
theorem produce_came (reply : Reply SolveResponse) (untaken : Bool)
    (news : List (Pace × SolveStatus)) (s : Stage σ) :
    Leads (produce reply untaken news) s fun r t => Elapsed s t ∧ Came { news, reply } s t r := by
  induction news generalizing untaken s with
  | nil =>
      rw [produce, leads_bind, leads_attempt]
      refine (receive_waited reply s).mono fun r t ht => ?_
      rcases ht.ending with ⟨result, k, rfl, rfl, hspan, -⟩ | ⟨rfl, hgave, -⟩ | ⟨rfl, hspan, hcaller⟩
      · have hending : SolveReply.ending? { news := [], reply } = some reply.result :=
          if_pos ⟨rfl, (Pace.span?_eq_some.1 hspan).1⟩
        have hthis := And.intro ht.elapsed (Came.ended (s := s) (t := t) hending)
        cases hresult : reply.result <;> (rw [hresult] at hthis; exact hthis)
      · exact ⟨ht.elapsed, .stopped (k := 0) (Nat.zero_le _) hgave⟩
      · have hhangs := Pace.span?_eq_none.1 hspan
        exact ⟨ht.elapsed, .forever (if_neg fun h => by simp [hhangs] at h) hcaller⟩
  | cons first rest ih =>
      obtain ⟨p, n⟩ := first
      rw [produce, leads_bind, leads_attempt]
      refine (handOver_waited s p untaken).mono fun r t ht => ?_
      rcases ht.ending with ⟨result, k, ⟨x, rfl, -⟩, rfl, hspan, -⟩ | ⟨rfl, hgave, -⟩ |
        ⟨rfl, hspan, hcaller⟩
      · have hp := (Pace.span?_eq_some.1 hspan).1
        change Leads (produce reply true rest >>= fun came => pure (n :: came.1, came.2)) t _
        rw [leads_bind]
        refine (ih true t).mono fun r u hu => ?_
        have hthis := And.intro (ht.elapsed.trans hu.1) (hu.2.cons hp (n := n) ht.elapsed)
        cases r <;> exact hthis
      · exact ⟨ht.elapsed, .stopped (Nat.zero_le _) hgave⟩
      · have hhangs := Pace.span?_eq_none.1 hspan
        exact ⟨ht.elapsed, .forever (if_neg fun h => by simp [hhangs] at h) hcaller⟩

/-- Whoever gives way for its own sake goes on. -/
theorem giveWay_none (s : Stage σ) :
    Leads (giveWay .none) s fun r t => r = .ok () ∧ (s.GaveUp → t.GaveUp) := by
  rw [giveWay, leads_bind, leads_get]
  exact ⟨rfl, fun hgave => .inl ((gaveUp_iff s).2 hgave)⟩

theorem Came.mono {reply : SolveReply} {s s' t t' : Stage σ}
    {r : Except Halt (List SolveStatus × Except BuildError SolveResponse)} (h : Came reply s t r)
    (hcancelAt : s.cancelAt = s'.cancelAt) (hgave : t.GaveUp → t'.GaveUp) : Came reply s' t' r := by
  cases h with
  | ended hended => exact .ended hended
  | stopped hk ht => exact .stopped hk (hgave ht)
  | barred ht => exact .barred (hgave ht)
  | forever hended hcaller => exact .forever hended (hcancelAt ▸ hcaller)

/-- After the daemon's part the stage comes to rest, and what came of that part stays. -/
theorem settle_came {came : List SolveStatus × Except BuildError SolveResponse} (s : Stage σ)
    (start n : Nat) :
    Leads (do
        if 1 < came.1.length || start < (← get).now then giveWay .none
        exchange n
        return came : Act σ (List SolveStatus × Except BuildError SolveResponse)) s
      fun r t => r = .ok came ∧ Rests s t ∧ (s.GaveUp → t.GaveUp) := by
  rw [leads_bind, leads_get]
  simp only
  split
  · rw [leads_bind]
    refine ((giveWay_none s).and (patient_rests.giveWay .none s)).mono fun r t ht => ?_
    obtain ⟨⟨rfl, hgave⟩, hrests⟩ := ht
    exact ⟨rfl, hrests.trans ⟨rfl, rfl, rfl⟩, hgave⟩
  · exact ⟨rfl, ⟨rfl, rfl, rfl⟩, id⟩

theorem ask_came (d : Daemon σ) (request : SolveRequest) (s : Stage σ) :
    Leads (ask d request) s fun r t =>
      t.screen = s.screen ∧ t.events = s.events ∧ Came (d.solve request s.daemon).1 s t r := by
  rw [ask, leads_bind]
  refine ((checkCaller_waited s).and (patient_rests.checkCaller s)).mono fun r t ht => ?_
  obtain ⟨⟨hwaited, -⟩, hrests⟩ := ht
  rcases hwaited.ending with ⟨result, k, ⟨x, rfl, -⟩, rfl, -⟩ | ⟨rfl, hgave, -⟩ | ⟨rfl, hspan, -⟩
  · simp only [Except.mapError]
    rw [leads_bind, leads_get]
    simp only
    rw [leads_bind, leads_call, hrests.daemon]
    simp only
    rw [leads_bind]
    refine ((produce_came _ _ _ _).and (rests_produce _ _ _ _)).mono fun r u hu => ?_
    obtain ⟨⟨-, hcame⟩, hrests'⟩ := hu
    -- The call alone stands in the journal, and it is no event.
    have hevents : u.events = s.events := by
      rw [hrests'.events, Stage.events_of_journal_eq_cons rfl, hrests.events]
      exact List.append_nil _
    cases r with
    | error h =>
        exact ⟨hrests'.screen.trans hrests.screen, hevents, hcame.mono hwaited.elapsed.cancelAt id⟩
    | ok came =>
        refine (settle_came u _ _).mono fun r v hv => ?_
        obtain ⟨rfl, hrests'', hgave⟩ := hv
        exact ⟨hrests''.screen.trans (hrests'.screen.trans hrests.screen), hrests''.events.trans hevents,
          hcame.mono hwaited.elapsed.cancelAt hgave⟩
  · exact ⟨hrests.screen, hrests.events, .barred hgave⟩
  · cases hspan

/-! ## The reader's part -/

/-- All events are shown, and the first fault is kept. -/
theorem showAll_leads (talk : Talk) (events before : List Event) (s : Stage σ)
    (hfault : ∀ before e, talk.fault before e = s.screen.faultOf? e) :
    Leads (showAll events) s fun r t =>
      r = .ok (talk.firstFault before events) ∧ t.events = s.events ++ events ∧
        (s.GaveUp → t.GaveUp) := by
  induction events generalizing s before with
  | nil => exact ⟨rfl, (List.append_nil _).symm, id⟩
  | cons e rest ih =>
      rw [showAll, leads_bind, leads_display]
      simp only
      rw [leads_bind]
      refine (ih (before ++ [e]) { s with journal := .shown e :: s.journal } hfault).mono fun r u hu => ?_
      obtain ⟨rfl, hevents, hgave⟩ := hu
      have hall : u.events = s.events ++ e :: rest := by
        rw [hevents, Stage.events_of_journal_eq_cons rfl]
        exact List.append_assoc _ [e] rest
      rw [Talk.firstFault, hfault]
      exact ⟨rfl, hall, hgave⟩

/-! ## The order of turns on a stage -/

/-- The daemon sends, and the reader takes, one thing after the other. -/
def relay (k : Nat) : List Party := (List.replicate k [Party.daemon, Party.reader]).flatten

theorem relay_succ (k : Nat) : relay (k + 1) = relay k ++ [.daemon, .reader] := by
  rw [relay, List.replicate_succ', List.flatten_append]
  rfl

def wholeRelay (talk : Talk) : List Party := relay talk.news.length ++ [.daemon, .reader]

def brokenRelay (k : Nat) : List Party := relay k ++ [.caller, .daemon, .reader]

variable {talk : Talk}

theorem play_append (front back : List Party) :
    talk.play (front ++ back) = back.foldl (Exchange.act talk) (talk.play front) :=
  List.foldl_append

theorem play_relay {k : Nat} (hk : k ≤ talk.news.length) :
    (talk.play (relay k)).unsent = talk.news.drop k ∧ (talk.play (relay k)).held = none ∧
      (talk.play (relay k)).ended = none ∧ (talk.play (relay k)).cancelled = false := by
  induction k with
  | zero => exact ⟨rfl, rfl, rfl, rfl⟩
  | succ k ih =>
      obtain ⟨hunsent, hheld, hended, hcancelled⟩ := ih (Nat.le_of_succ_le hk)
      rw [List.drop_eq_getElem_cons hk] at hunsent
      rw [relay_succ, play_append, List.foldl_cons, List.foldl_cons, List.foldl_nil, Exchange.act,
        Exchange.act, Exchange.send_next hended hcancelled hheld hunsent]
      exact ⟨rfl, rfl, hended, hcancelled⟩

theorem sent_play_relay {k : Nat} (hk : k ≤ talk.news.length) :
    (talk.play (relay k)).sent = talk.news.take k := by
  have hnews := (Exchange.sound_play talk (relay k)).news
  rw [(play_relay hk).1] at hnews
  exact List.append_cancel_right (hnews.symm.trans (List.take_append_drop k talk.news).symm)

theorem play_ended {ending : Except BuildError SolveResponse} (hending : talk.ending = some ending) :
    (talk.play (wholeRelay talk)).isOver ∧
      (talk.play (wholeRelay talk)).cancelled = false ∧
      (talk.play (wholeRelay talk)).sent = talk.news := by
  have hall : talk.news.length ≤ talk.news.length := Nat.le_refl _
  have hsent := sent_play_relay hall
  obtain ⟨hunsent, hheld, hended, hcancelled⟩ := play_relay hall
  rw [List.drop_length] at hunsent
  rw [List.take_length] at hsent
  rw [wholeRelay, play_append]
  simp [Exchange.act, Exchange.send, Exchange.read, hunsent, hheld, hended, hcancelled, hsent,
    hending]

theorem play_stopped {k : Nat} (hk : k ≤ talk.news.length) :
    (talk.play (brokenRelay k)).isOver ∧
      (talk.play (brokenRelay k)).stopped ∧
      (talk.play (brokenRelay k)).sent = talk.news.take k := by
  have hsent := sent_play_relay hk
  obtain ⟨hunsent, hheld, hended, hcancelled⟩ := play_relay hk
  rw [brokenRelay, play_append]
  simp [Exchange.act, Exchange.send, Exchange.read, hheld, hended, hsent]

/-- What happened from one stage to another, and came to a result, is what the session came to. -/
structure Exchange.Mirrors (x : Exchange) (s : Stage σ) (r : Except Halt String) (t : Stage σ) :
    Prop where
  isOver : x.isOver
  result : x.result?.map (Except.mapError .failed) = some r
  events : t.events = s.events ++ x.shown
  gaveUp : x.cancelled → t.GaveUp

theorem mirrors_ended {s t : Stage σ} {ending : Except BuildError SolveResponse}
    (hending : talk.ending = some ending)
    (hevents : t.events = s.events ++ Display.takeAll {} talk.news) :
    (talk.play (wholeRelay talk)).Mirrors s
      ((conclude ending (talk.firstFault [] (Display.takeAll {} talk.news))).mapError .failed) t := by
  obtain ⟨hover, hcancelled, hsent⟩ := play_ended hending
  have hsound := Exchange.sound_play talk (wholeRelay talk)
  have hstopped : ¬(talk.play (wholeRelay talk)).stopped :=
    fun h => nomatch hcancelled.symm.trans (hsound.stopped h).1
  have houtcome : talk.outcome? =
      some (conclude ending (talk.firstFault [] (Display.takeAll {} talk.news))) := by
    rw [Talk.outcome?, hending, Option.map_some]
  refine ⟨hover, ?_, ?_, fun h => nomatch hcancelled.symm.trans h⟩
  · rw [hsound.result?_eq hover, if_neg hstopped, houtcome, Option.map_some]
  · rw [hevents, hsound.shown_eq hover, hsent]

theorem mirrors_stopped {s t : Stage σ} {k : Nat} (hk : k ≤ talk.news.length)
    (hevents : t.events = s.events ++ Display.takeAll {} (talk.news.take k)) (hgave : t.GaveUp) :
    (talk.play (brokenRelay k)).Mirrors s (.error (.failed .cancelled)) t := by
  obtain ⟨hover, hstopped, hsent⟩ := play_stopped hk
  have hsound := Exchange.sound_play talk (brokenRelay k)
  refine ⟨hover, ?_, ?_, fun _ => hgave⟩
  · rw [hsound.result?_eq hover, if_pos hstopped]
    rfl
  · rw [hevents, hsound.shown_eq hover, hsent]

/-- The session of a build that starts on a stage. -/
def session (d : Daemon σ) (settings : Settings) (spec : BuildSpec) (dockerfile : Path)
    (credentials : Registry.CredentialTable) (s : Stage σ) : Talk :=
  .of (d.solve { request spec dockerfile spec.buildArgs settings.platform with credentials }
    s.daemon).1 s.screen

/-- What is shown of the news that came, and what it comes to. -/
theorem show_leads {t : Stage σ} (came : List SolveStatus × Except BuildError SolveResponse)
    (hfault : ∀ before e, talk.fault before e = t.screen.faultOf? e) :
    Leads (showAll (Display.takeAll {} came.1) >>= fun fault => ofExcept (conclude came.2 fault)) t
      fun r u =>
        r = (conclude came.2 (talk.firstFault [] (Display.takeAll {} came.1))).mapError .failed ∧
          u.events = t.events ++ Display.takeAll {} came.1 ∧ (t.GaveUp → u.GaveUp) := by
  rw [leads_bind]
  refine (showAll_leads talk _ [] t hfault).mono fun r u hu => ?_
  obtain ⟨rfl, hevents, hgave⟩ := hu
  simp only
  rw [leads_ofExcept]
  exact ⟨rfl, hevents, hgave⟩

/-- A build on a stage does what the session does in some order of turns, or it waits for ever. -/
theorem build_mirrors (d : Daemon σ) (settings : Settings) (spec : BuildSpec) (dockerfile : Path)
    (credentials : Registry.CredentialTable) (s : Stage σ) :
    Leads (build d settings spec dockerfile credentials) s fun r t =>
      (∃ turns, ((session d settings spec dockerfile credentials s).play turns).Mirrors s r t) ∨
        r = .error .forever ∧ (session d settings spec dockerfile credentials s).ending = none ∧
          s.cancelAt = none := by
  rw [build, leads_bind]
  refine (ask_came d _ s).mono fun r t ht => ?_
  obtain ⟨hscreen, hevents, hcame⟩ := ht
  have hfault (before : List Event) (e : Event) :
      (session d settings spec dockerfile credentials s).fault before e = t.screen.faultOf? e := by
    rw [hscreen]
    rfl
  cases hcame with
  | ended hended =>
      refine (show_leads (_, _) hfault).mono fun r u hu => .inl ?_
      obtain ⟨rfl, hshown, -⟩ := hu
      exact ⟨_, mirrors_ended hended (hshown.trans (by rw [hevents]; rfl))⟩
  | stopped hk hgave =>
      refine (show_leads (_, _) hfault).mono fun r u hu => .inl ?_
      obtain ⟨rfl, hshown, hlater⟩ := hu
      exact ⟨_, mirrors_stopped hk (hshown.trans (by rw [hevents]; rfl)) (hlater hgave)⟩
  | barred hgave =>
      have hnone : t.events = s.events ++ Display.takeAll {}
          ((session d settings spec dockerfile credentials s).news.take 0) := by
        rw [hevents]
        exact (List.append_nil _).symm
      exact .inl ⟨_, mirrors_stopped (Nat.zero_le _) hnone hgave⟩
  | forever hended hcaller => exact .inr ⟨rfl, hended, hcaller⟩

/-! ## In every order of turns -/

/-- In whatever order the turns come, and whenever the caller gives up, all that was sent is taken once and
in order, and what the session comes to depends on no more than whether the caller gave up before the
daemon's part ended.  If not, the error of the daemon goes first, then the first fault of the screen, and then
the image of the response or that there is none.  A session whose parties keep getting turns is over in the end
unless the daemon hangs and nobody gives up.  A build on a stage is such a session. -/
theorem session_delivers (talk : Talk) (turns : List Party) :
    (talk.play turns).Delivers talk ∧
      (∀ result, (talk.play turns).result? = some result →
        (talk.play turns).cancelled ∧ result = .error .cancelled ∨
          ∃ ending fault, talk.ending = some ending ∧ talk.Meets (Display.takeAll {} talk.news) fault ∧
            LeadTo ending fault result) ∧
      (∀ later, (talk.play turns).cancelled → (talk.play turns).ended = none →
        (talk.play (turns ++ later)).sent = (talk.play turns).sent ∧
          ∀ result, (talk.play (turns ++ later)).result? = some result → result = .error .cancelled) ∧
      (∀ rounds : List (List Party), talk.ending.isSome ∨ (talk.play turns).cancelled →
        (∀ round ∈ rounds, .daemon ∈ round ∧ .reader ∈ round) →
        2 * talk.news.length + 2 ≤ rounds.length →
        (talk.play (turns ++ rounds.flatten)).result?.isSome) ∧
      ∀ {σ : Type} (d : Daemon σ) (settings : Settings) (spec : BuildSpec) (dockerfile : Path)
        (credentials : Registry.CredentialTable) (s : Stage σ),
        Leads (build d settings spec dockerfile credentials) s fun r t =>
          (∃ turns, ((session d settings spec dockerfile credentials s).play turns).Mirrors s r t) ∨
            r = .error .forever ∧ (session d settings spec dockerfile credentials s).ending = none ∧
              s.cancelAt = none := by
  have hsound := Exchange.sound_play talk
  refine ⟨(hsound turns).delivers, fun result hresult => ?_, fun later hcancelled hended => ?_,
    fun rounds hends hrounds hmany => ?_, build_mirrors⟩
  · rcases (hsound turns).delivers.result result hresult with ⟨-, hcancelled, hstopped⟩ | ⟨-, -, houtcome⟩
    · exact .inl ⟨hcancelled, hstopped⟩
    · obtain ⟨ending, hending, rfl⟩ := Option.map_eq_some_iff.1 houtcome
      exact .inr ⟨ending, _, hending, talk.meets_firstFault _, conclude_leadTo ending _⟩
  · obtain ⟨hsent, hstops⟩ := Exchange.stopped_run (hsound turns) hcancelled (.inl hended) later
    rw [← play_append] at hsent hstops
    refine ⟨hsent, fun result hresult => ?_⟩
    have hover := Exchange.isOver_of_result?_isSome (by rw [hresult]; rfl)
    have hstopped := hstops.resolve_left (Option.isSome_iff_ne_none.1 ((hsound _).closed hover).1)
    rw [(hsound _).result?_eq hover, if_pos hstopped] at hresult
    exact (Option.some.inj hresult).symm
  · have hless : (talk.play turns).toDo ≤ rounds.length := by
      have hle := Exchange.toDo_run_le (Exchange.Sound.start talk) turns
      rw [Exchange.toDo_start] at hle
      exact Nat.le_trans hle hmany
    have hover := Exchange.isOver_of_rounds (hsound turns) hends hrounds hless
    rw [← play_append] at hover
    exact (hsound _).result?_isSome hover

/-- Two vertexes end on a screen that has gone away. -/
def goneTalk : Talk where
  news := [{ vertexes := [{ digest := "sha256:a", name := "A", completed := true }] },
    { vertexes := [{ digest := "sha256:b", name := "B", completed := true }] }]
  ending := some (.ok [(digestKey, "sha256:c")])
  fault _ _ := some (.reported "broken pipe")

theorem session_delivers_gone :
    goneTalk.ending.isSome ∧
      (∀ round ∈ List.replicate 6 [Party.reader, .daemon], .daemon ∈ round ∧ .reader ∈ round) ∧
      2 * goneTalk.news.length + 2 ≤ (List.replicate 6 [Party.reader, .daemon]).length ∧
      (goneTalk.play ([.daemon] ++ (List.replicate 6 [Party.reader, .daemon]).flatten)).result?.isSome :=
  have hrounds : ∀ round ∈ List.replicate 6 [Party.reader, .daemon],
      .daemon ∈ round ∧ .reader ∈ round := by decide
  ⟨rfl, hrounds, by decide,
    (session_delivers goneTalk [.daemon]).2.2.2.1 _ (.inl rfl) hrounds (by decide)⟩

end Solve
end ImageBuild
