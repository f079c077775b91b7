import ImageBuild.Proofs.Pipeline.Progress
import ImageBuild.Proofs.Push.Attempt
import ImageBuild.Proofs.Solve.Session
/-!
# Builds and attempts to push, with their one call

A classic build, a build in a session and an attempt to push wait, listen and show what they hear, but each
of them calls the daemon no more than once.
-/

namespace ImageBuild

open Act

variable {σ : Type}

section

variable {Q : ∀ {α : Type}, Act σ α → Prop} (h : Woven Q)
include h

theorem Classic.woven_hear (st : State) (i : Input) : Q (hear st i : Act σ Response) :=
  h.bind (h.announceAll (respond st i).events) fun _ => h.pure _

theorem Classic.woven_listen (st : State) (look : Bool) (beats : List (Beat BuildMessage)) :
    Q (listen st look beats : Act σ Built) := by
  have hlook : ∀ {look : Bool} {act : Act σ Built}, Q act →
      Q (if look then checkCaller >>= fun _ => act else act) :=
    fun hact => of_ite _ (h.bind h.checkCaller fun _ => hact) hact
  have hend : ∀ (st : State) (i : Input), Q (hear st i >>= finish : Act σ Built) :=
    fun st i => h.bind (woven_hear h st i) fun r => h.ofExcept _
  induction beats generalizing st look with
  | nil => exact hlook (hend st .ended)
  | cons b rest ih =>
      refine hlook (h.bind (h.follow rfl b.pace) fun _ => ?_)
      cases b.content with
      | none => exact ih st false
      | some content =>
          cases content with
          | error e => exact hend st (.failed e)
          | ok m =>
              refine h.bind (woven_hear h st (.message m)) fun r => ?_
              exact of_ite _ (h.ofExcept _) (ih r.state true)

theorem Classic.woven_answer (encode : Archive.Encoder) (context : Context) (packing : Nat) (r : BuildReply) :
    Q (answer encode context packing r : Act σ (List (Beat BuildMessage))) := by
  have hread : Q (readAll encode context packing : Act σ Unit) :=
    h.look (fun _ => of_ite _ (h.exchange _) (h.giveWay rfl)) fun _ _ => rfl
  refine of_ite _ (h.bind hread fun _ => ?_) ?_ <;> split
  · exact h.fail _
  · exact h.receive rfl r.reply
  · exact h.fail _
  · exact h.receive rfl r.reply

/-- What a classic build makes of the reply to its call. -/
theorem Classic.woven_afterCall (encode : Archive.Encoder) (context : Context) (packing : Nat) (r : BuildReply) :
    Q (afterCall encode context packing r : Act σ Built) := by
  refine h.bind (woven_answer h encode context packing r) fun beats => h.bind h.checkCaller fun _ => ?_
  have hlisten : ∀ st : State, Q (hear st .look >>= fun seen =>
      listen seen.state true beats : Act σ Built) :=
    fun st => h.bind (woven_hear h st .look) fun seen => woven_listen h seen.state true beats
  exact of_ite _ (h.bind (h.exchange 1) fun _ => hlisten _) (hlisten _)

theorem Solve.woven_produce (reply : Reply SolveResponse) (untaken : Bool)
    (news : List (Pace × SolveStatus)) :
    Q (produce reply untaken news : Act σ (List SolveStatus × Except BuildError SolveResponse)) := by
  induction news generalizing untaken with
  | nil => exact h.bind (h.attempt (h.receive rfl reply)) fun _ => h.pure _
  | cons first rest ih =>
      have hgive : Q (handOver first.1 untaken : Act σ Unit) := by
        refine h.bind (h.follow rfl first.1) fun _ => ?_
        exact of_ite _ (h.bind (h.giveWay rfl) fun _ => h.exchange 1) (h.exchange 1)
      refine h.bind (h.attempt hgive) fun result => ?_
      cases result with
      | error e => exact h.pure _
      | ok x => exact h.bind (ih true) fun _ => h.pure _

/-- What a solve makes of the reply to its call. -/
theorem Solve.woven_afterCall (start : Nat) (r : SolveReply) :
    Q (do
      let (sent, result) ← produce r.reply false r.news
      if 1 < sent.length || start < (← get).now then giveWay .none
      exchange (if !sent.isEmpty && isAtOnce r.reply.pace then 2 else 1)
      return (sent, result) : Act σ (List SolveStatus × Except BuildError SolveResponse)) := by
  refine h.bind (woven_produce h r.reply false r.news) fun produced => h.look (fun _ => ?_) fun _ _ => rfl
  have hlast : Q (exchange (if !produced.1.isEmpty && isAtOnce r.reply.pace then 2 else 1) >>=
      fun _ => pure produced : Act σ (List SolveStatus × Except BuildError SolveResponse)) :=
    h.bind (h.exchange _) fun _ => h.pure produced
  exact of_ite _ (h.bind (h.giveWay rfl) fun _ => hlast) hlast

theorem Solve.woven_showAll (events : List Event) :
    Q (showAll events : Act σ (Option IoError)) := by
  induction events with
  | nil => exact h.pure none
  | cons e rest ih => exact h.bind (h.display e) fun _ => h.bind ih fun _ => h.pure _

theorem Push.woven_listen (heard : Heard) (beats : List (Beat PushMessage)) :
    Q (listen heard beats : Act σ Heard) := by
  induction beats generalizing heard with
  | nil => exact h.pure heard
  | cons b rest ih =>
      refine h.bind (h.follow rfl b.pace) fun _ => ?_
      cases b.content with
      | none => exact ih heard
      | some content =>
          cases content with
          | error e => exact h.fail e
          | ok m =>
              cases hevent : (heard.heed m).2 with
              | none => simpa only [hevent] using ih _
              | some e => simpa only [hevent] using h.bind (h.announce e) fun _ => ih _

end

theorem Classic.build_callsOnce (d : Daemon σ) (settings : Settings) (spec : BuildSpec)
    (context : Context) (packing : Nat) (credentials : Registry.CredentialTable) :
    d.CallsOnce (fun c => ∃ request use, c = .build request use)
      (build d settings spec context packing credentials) :=
  .quiet_bind quiet_get fun s => .quiet_bind quiet_checkCaller fun _ =>
    .bind_quiet (.of_call (fun _ => ⟨_, _, rfl⟩) fun _ => rfl)
      (woven_afterCall tame_quiet.woven s.encode context packing)

theorem Solve.build_callsOnce (d : Daemon σ) (settings : Settings) (spec : BuildSpec)
    (dockerfile : Path) (credentials : Registry.CredentialTable) :
    d.CallsOnce (fun c => ∃ request, c = .solve request)
      (build d settings spec dockerfile credentials) := by
  refine .bind_quiet (.quiet_bind quiet_checkCaller fun _ => .quiet_bind quiet_get fun s => ?_)
    fun r => (woven_showAll tame_quiet.woven _).bind fun _ => quiet_ofExcept _
  exact .bind_quiet (.of_call (fun _ => ⟨_, rfl⟩) fun _ => rfl) (woven_afterCall tame_quiet.woven s.now)

theorem Push.once_callsOnce (d : Daemon σ) (tag : String)
    (credentials : Option Registry.Credentials) :
    d.CallsOnce (· = .push tag credentials) (once d tag credentials) := by
  rw [once_eq]
  refine .quiet_bind quiet_checkCaller fun _ => .bind_quiet (.of_call (fun _ => rfl) fun _ => rfl) ?_
  intro r s
  exact (hearOut_waited r s).mono fun _ _ ht => ht.elapsed.still

end ImageBuild
