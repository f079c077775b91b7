import ImageBuild.Settings
import ImageBuild.Stage
/-!
# Pushing an image

A push is tried again after every failure, until it succeeds, the attempts are used up or the caller
gives up.  An attempt fails by the first error of its stream, or else by the last error that a message
tells; and only when there is no further attempt is it asked whether the registry denied access.
-/

namespace ImageBuild.Push

/-- The word by which a registry denies access, wherever it stands in the message. -/
def denial : String := "denied:"

/-- The error of a push that is given up: a denial is told as such. -/
def classify (tag : String) (e : BuildError) : BuildError :=
  match e with
  | .pushFailed reason => if Text.hasPart denial reason then .unauthorized tag else e
  | _ => e

/-- What was heard of an attempt so far. -/
structure Heard where
  /-- The latest status that is shown once only while it is repeated. -/
  status : String := ""
  /-- The latest error that a message told. -/
  error : Option String := none
deriving Repr, DecidableEq

/-- Takes notice of a message, which may be worth showing. -/
def Heard.heed (h : Heard) (m : PushMessage) : Heard × Option Event :=
  match m.error, m.status with
  | some e, _ => ({ h with error := some e }, none)
  | none, none => (h, none)
  | none, some status =>
    if status = "Pushing" then
      (h, some (.partialText ("  ↑ " ++ status ++ " " ++ m.progress.getD "")))
    else if status = "Pushed" then (h, some (.text "  ✓ Pushed"))
    else if status = "Layer already exists" then (h, some (.text "  ✓ Layer already exists"))
    else if status = "Preparing" ∨ status = "Waiting" then (h, none)
    else if status = h.status then (h, none)
    else ({ h with status }, some (.text ("  ℹ " ++ status)))

variable {σ : Type}

/-- Listens to the end of the stream of an attempt. -/
def listen (h : Heard) : List (Beat PushMessage) → Act σ Heard
  | [] => pure h
  | b :: rest => do
    Act.follow .forCaller b.pace
    match b.content with
    | none => listen h rest
    | some (.error e) => Act.fail e
    | some (.ok m) =>
      let (h, event) := h.heed m
      match event with
      | some event => Act.announce event
      | none => pure ()
      listen h rest

/-- One attempt. -/
def once (d : Daemon σ) (tag : String) (credentials : Option Registry.Credentials) :
    Act σ Unit := do
  Act.checkCaller
  let beats ← Act.ask .forCaller (.push tag credentials) (d.push tag credentials)
  let heard ← listen {} beats
  match heard.error with
  | some reason => Act.fail (.pushFailed reason)
  | none => pure ()

/-- Waits between two attempts. -/
def pause (delay : Nat) : Act σ Unit := do
  Act.checkCaller
  Act.wait .forCaller delay

/-- How a push ends on which the caller gave up after `latest` went wrong. -/
def giveUp (tag : String) (latest : Option BuildError) : Act σ Unit :=
  Act.fail ((latest.map (classify tag)).getD .cancelled)

/-- What is done about a failure, given its number, before the next attempt. -/
abbrev RetryHook (σ : Type) := Nat → BuildError → Act σ Unit

/-- Whether `attempt` is the last one that the settings allow. -/
def isLast (settings : Settings) (attempt : Nat) : Bool :=
  0 < settings.pushMaxAttempts && settings.pushMaxAttempts ≤ attempt

/-- Tries from the given attempt on, after `latest` went wrong.  A push without end is followed for
`patience` attempts.  The count has no bound here, where one of 32 bits would run over: so this is what
comes of a push for as long as it has failed fewer than 2^32 times. -/
def tryFrom (d : Daemon σ) (settings : Settings) (tag : String)
    (credentials : Option Registry.Credentials) (hook : RetryHook σ) (patience attempt : Nat)
    (latest : Option BuildError) : Act σ Unit :=
  match patience with
  | 0 => throw .forever
  | patience + 1 => do
    match ← Act.attempt (once d tag credentials) with
    | .ok () => pure ()
    | .error .cancelled => giveUp tag latest
    | .error e =>
      if isLast settings attempt then Act.fail (classify tag e)
      else
        hook attempt e
        match ← Act.attempt (pause settings.pushRetryDelay) with
        | .ok () => tryFrom d settings tag credentials hook patience (attempt + 1) (some e)
        | .error _ => giveUp tag (some e)

/-- Pushes an image, if its tag is one. -/
def push (d : Daemon σ) (settings : Settings) (tag : String)
    (credentials : Option Registry.Credentials) (hook : RetryHook σ) (patience : Nat) :
    Act σ Unit :=
  let imageTag := (Registry.nameAndTag tag).2
  match Registry.checkTag imageTag with
  | .error fault => Act.fail (.invalidTag (fault.message imageTag))
  | .ok () => tryFrom d settings tag credentials hook patience 1 none

end ImageBuild.Push
