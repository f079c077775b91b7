import ImageBuild.Settings
import ImageBuild.Solve.Display
import ImageBuild.Solve.Request
import ImageBuild.Stage
/-!
# Builds in a session

Two parties take part in a solve: the daemon, which sends news, and a reader, who shows them.  News go
from one to the other one at a time, so that the daemon gives way to the reader before it sends the
next.  The reader does not care whether the caller gives up, and shows all that was sent.

The daemon acts first in the first turn of a solve, and behind the reader in the turn in which it comes
to an end later.  So it is only in the first turn that the reader finds out at once that there are no
more news.
-/

namespace ImageBuild.Solve

variable {σ : Type}

/-- Whether something comes at once, which leaves no time to take what came before. -/
def isAtOnce (p : Pace) : Bool :=
  p.delay.getD 0 = 0

/-- Sends news: if the last ones were not taken yet, the daemon gives way. -/
def handOver (p : Pace) (untaken : Bool) : Act σ Unit := do
  Act.follow .forCaller p
  if untaken && isAtOnce p then Act.giveWay .forCaller
  Act.exchange 1

/-- The news that are sent, and how the solve ends. -/
def produce (reply : Reply SolveResponse) (untaken : Bool) :
    List (Pace × SolveStatus) → Act σ (List SolveStatus × Except BuildError SolveResponse)
  | [] => return ([], ← Act.attempt (Act.receive .forCaller reply))
  | (p, s) :: rest => do
    match ← Act.attempt (handOver p untaken) with
    | .error e => return ([], .error e)
    | .ok () =>
      let (sent, result) ← produce reply true rest
      return (s :: sent, result)

/-- Asks the daemon for a solve.  After the first turn the reader has a turn of its own at the end, in which
it takes what is left. -/
def ask (d : Daemon σ) (request : SolveRequest) :
    Act σ (List SolveStatus × Except BuildError SolveResponse) := do
  Act.checkCaller
  let start := (← get).now
  let r ← Act.call (fun _ => .solve request) (d.solve request)
  let (sent, result) ← produce r.reply false r.news
  if 1 < sent.length || start < (← get).now then Act.giveWay .none
  Act.exchange (if !sent.isEmpty && isAtOnce r.reply.pace then 2 else 1)
  return (sent, result)

/-- Shows events, and answers the first fault of the screen. -/
def showAll : List Event → Act σ (Option IoError)
  | [] => pure none
  | e :: rest => do
    let fault ← Act.display e
    let later ← showAll rest
    return fault <|> later

/-- What comes of a solve: its own error goes before a fault of the screen, and that before a response
without an image. -/
def conclude (result : Except BuildError SolveResponse) (fault : Option IoError) :
    Except BuildError String := do
  let response ← result
  match fault with
  | some fault => throw (.io fault)
  | none =>
    match response.find? fun e => e.1 == digestKey with
    | some e => return e.2
    | none => throw .missingImageId

/-- Builds an image, and answers its digest. -/
def build (d : Daemon σ) (settings : Settings) (spec : BuildSpec) (dockerfile : Path)
    (credentials : Registry.CredentialTable) : Act σ String := do
  let req := { request spec dockerfile spec.buildArgs settings.platform with credentials }
  let (sent, result) ← ask d req
  let fault ← showAll (Display.takeAll {} sent)
  Act.ofExcept (conclude result fault)

end ImageBuild.Solve
