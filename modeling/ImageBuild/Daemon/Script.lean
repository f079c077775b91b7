import ImageBuild.Daemon.Basic
/-!
# Daemons that follow a script

A script says in advance what a daemon replies to each call.  Pushes have a reply for each attempt,
and one for the attempts after those.
-/

namespace ImageBuild

structure Script where
  isRemote : Bool := false
  ping : Reply Unit
  builderKind : Reply BuilderKind
  info : Reply DaemonInfo
  build : BuildReply
  solve : SolveReply
  /-- The replies to the first pushes. -/
  pushes : List (Reply (List (Beat PushMessage)))
  /-- The reply to every push after them. -/
  lastPush : Reply (List (Beat PushMessage))
  inspect : Reply ImageDetails
  /-- The tags of an image. -/
  tags : String → Reply (List String)
  remove : String → Reply Unit

/-- The daemon of a script; its state is the number of pushes so far. -/
def Script.daemon (s : Script) : Daemon Nat where
  isRemote := s.isRemote
  ping n := (s.ping, n)
  builderKind n := (s.builderKind, n)
  info n := (s.info, n)
  build _ n := (s.build, n)
  solve _ n := (s.solve, n)
  push _ _ n := (s.pushes.getD n s.lastPush, n + 1)
  inspect _ n := (s.inspect, n)
  tags reference n := (s.tags reference, n)
  remove tag n := (s.remove tag, n)

end ImageBuild
