import ImageBuild.Solve.Session
import ImageBuild.Proofs.Stage.Calm
/-!
# A session that nothing disturbs

When the daemon replies at once, nobody gives up and the screen works, a build in a session comes to what
is made of the reply alone.
-/

namespace ImageBuild

open Act

namespace Solve

variable {σ : Type}

theorem settles_produce (reply : Except BuildError SolveResponse) (untaken : Bool)
    (news : List SolveStatus) :
    Settles (produce { result := reply } untaken (news.map fun s => ({}, s)) :
      Act σ (List SolveStatus × Except BuildError SolveResponse)) (.ok (news, reply)) := by
  have hway : Settles (Act.giveWay .forCaller : Act σ Unit) (.ok ()) := settles_giveWay rfl
  induction news generalizing untaken with
  | nil => exact (settles_receive .forCaller reply).attempt.bind (settles_pure _)
  | cons s rest ih =>
      have hhandOver : Settles (handOver {} untaken : Act σ Unit) (.ok ()) :=
        (settles_pure ()).bind
          (.ite _ (hway.bind (settles_exchange 1)) (settles_exchange 1))
      exact hhandOver.attempt.bind ((ih true).bind (settles_pure _))

theorem settles_showAll (events : List Event) :
    Settles (showAll events : Act σ (Option IoError)) (.ok none) := by
  induction events with
  | nil => exact settles_pure none
  | cons e rest ih => exact (settles_display e).bind (ih.bind (settles_pure none))

/-- A build in a session comes to what its solve replies at once. -/
theorem settles_build {d : Daemon σ} {settings : Settings} {spec : BuildSpec} {dockerfile : Path}
    {credentials : Registry.CredentialTable} {news : List SolveStatus}
    {result : Except BuildError SolveResponse}
    (hreply : ∀ x, (d.solve { request spec dockerfile spec.buildArgs settings.platform with
      credentials } x).1 = { news := news.map fun s => ({}, s), reply := { result } }) :
    Settles (build d settings spec dockerfile credentials) (conclude result none) := by
  have hask : Settles (ask d { request spec dockerfile spec.buildArgs settings.platform with
      credentials }) (.ok (news, result)) := by
    refine settles_checkCaller.bind (.get_bind fun start => (settles_call hreply).bind ?_)
    refine (settles_produce result false news).bind (.get_bind fun later => ?_)
    have hlast : ∀ n, Settles (Act.exchange n >>= fun _ => pure (news, result) :
        Act σ (List SolveStatus × Except BuildError SolveResponse)) (.ok (news, result)) :=
      fun n => (settles_exchange n).bind (settles_pure _)
    exact .ite _ ((settles_giveWay rfl).bind (hlast _)) (hlast _)
  exact hask.bind ((settles_showAll _).bind (settles_ofExcept _))

end Solve
end ImageBuild
