import ImageBuild.Daemon.Message
/-!
# Daemons

A daemon is a state and a function for each call: what it replies, how long that takes, and what
state it is in afterwards.  Whatever takes time is written down as a `Pace`, so that a reply is a
value and the clock belongs to the caller.
-/

namespace ImageBuild

/-- What happens before something arrives. -/
structure Pace where
  /-- Milliseconds of waiting, if there is any. -/
  delay : Option Nat := none
  /-- The caller gives up meanwhile. -/
  cancels : Bool := false
  /-- It never arrives. -/
  hangs : Bool := false
deriving Repr, DecidableEq

/-- The reply to a call. -/
structure Reply (α : Type) where
  pace : Pace := {}
  result : Except BuildError α

/-- An item of a stream: a message, an error that ends the stream, or a pause without a message. -/
structure Beat (α : Type) where
  pace : Pace := {}
  content : Option (Except BuildError α)

/-- What a daemon does with the context that it is sent. -/
inductive BodyUse where
  /-- Reads all of it; a fault in it fails the call. -/
  | drain
  /-- Reads all of it and takes no notice of faults. -/
  | lossy
  /-- Throws it away unread. -/
  | drop
  /-- Keeps it unread. -/
  | hold
deriving Repr, DecidableEq

/-- Whether all of the context is read. -/
def BodyUse.reads : BodyUse → Bool
  | drain => true
  | lossy => true
  | drop => false
  | hold => false

/-- The reply to a classic build. -/
structure BuildReply where
  body : BodyUse := .drain
  reply : Reply (List (Beat BuildMessage))

/-- The reply to a solve: news first, each at its own pace. -/
structure SolveReply where
  news : List (Pace × SolveStatus)
  reply : Reply SolveResponse

structure Daemon (σ : Type) where
  isRemote : Bool
  ping : σ → Reply Unit × σ
  builderKind : σ → Reply BuilderKind × σ
  info : σ → Reply DaemonInfo × σ
  build : ClassicRequest → σ → BuildReply × σ
  solve : SolveRequest → σ → SolveReply × σ
  push : String → Option Registry.Credentials → σ → Reply (List (Beat PushMessage)) × σ
  inspect : String → σ → Reply ImageDetails × σ
  tags : String → σ → Reply (List String) × σ
  remove : String → σ → Reply Unit × σ

/-- A call of a daemon, with what it was asked. -/
inductive Call where
  | ping
  | builderKind
  | info
  | build (request : ClassicRequest) (body : BodyUse)
  | solve (request : SolveRequest)
  | push (tag : String) (credentials : Option Registry.Credentials)
  | inspect (reference : String)
  | tags (reference : String)
  | remove (tag : String)

end ImageBuild
