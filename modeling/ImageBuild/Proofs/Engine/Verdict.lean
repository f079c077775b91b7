import ImageBuild.Engine.Script
import ImageBuild.Proofs.Classic.Settling
import ImageBuild.Proofs.Engine.Lines
import ImageBuild.Proofs.Solve.Context
import ImageBuild.Proofs.Solve.Settling
/-!
# What the lines of a build come to

An engine tells of a classic build and of a solve in lines of the same kind, but a classic build hears
them as messages, and a solve as news and a response.  Both come to the same: the first error that a
line is or tells, or else the last image that one tells.
-/

namespace ImageBuild

open Act

namespace Engine

/-- The end of a build of which nothing but an image is known. -/
def imageOr : Option String → Except BuildError String
  | some id => .ok id
  | none => .error .missingImageId

/-- What the lines of a build come to after an image was told. -/
def verdictAfter (image : Option String) (items : List (Except EngineError BuildLine)) :
    Except BuildError String :=
  match items.findSome? lineFault? with
  | some e => .error e
  | none => imageOr ((items.filterMap lineImage?).getLast?.or image)

def verdict (items : List (Except EngineError BuildLine)) : Except BuildError String :=
  verdictAfter none items

theorem verdictAfter_of_fault {item : Except EngineError BuildLine} {e : BuildError}
    (h : lineFault? item = some e) (image : Option String)
    (rest : List (Except EngineError BuildLine)) :
    verdictAfter image (item :: rest) = .error e := by
  rw [verdictAfter, List.findSome?_cons, h]

theorem verdictAfter_cons {item : Except EngineError BuildLine} (h : lineFault? item = none)
    (image : Option String) (rest : List (Except EngineError BuildLine)) :
    verdictAfter image (item :: rest) = verdictAfter ((lineImage? item).or image) rest := by
  rw [verdictAfter, verdictAfter, List.findSome?_cons, h]
  cases hitem : lineImage? item with
  | none => rw [List.filterMap_cons_none hitem, Option.none_or]
  | some id =>
      rw [List.filterMap_cons_some hitem, List.getLast?_cons]
      cases (rest.filterMap lineImage?).getLast? <;> rfl

/-! ## Solves -/

def digest? (response : SolveResponse) : Option String :=
  (response.find? fun e => e.1 == Solve.digestKey).map Prod.snd

theorem digest?_setDigest (response : SolveResponse) (id : String) :
    digest? (setDigest response id) = some id := by
  simp [digest?, setDigest]

theorem conclude_eq (result : Except BuildError SolveResponse) :
    Solve.conclude result none = result.bind fun response => imageOr (digest? response) := by
  cases result with
  | error e => rfl
  | ok response =>
      cases hfind : response.find? fun e => e.1 == Solve.digestKey <;>
        simp [Solve.conclude, digest?, hfind, imageOr, bind, Except.bind, pure, Except.pure, throw,
          throwThe, MonadExceptOf.throw]

/-- A solve comes to the verdict on its lines. -/
theorem conclude_followSolve (response : SolveResponse)
    (items : List (Except EngineError BuildLine)) :
    Solve.conclude (followSolve response (heard items)).2 none =
      verdictAfter (digest? response) items := by
  rw [conclude_eq]
  induction items generalizing response with
  | nil => rfl
  | cons item rest ih =>
      cases hfault : lineFault? item with
      | some e => rw [followSolve_of_fault hfault, verdictAfter_of_fault hfault]; rfl
      | none =>
          rw [followSolve_of_plain hfault, verdictAfter_cons hfault, ih]
          cases lineImage? item with
          | none => rfl
          | some image => rw [Option.elim_some, digest?_setDigest, Option.some_or]

/-! ## Classic builds -/

theorem heedAux_message (s : Classic.State) (line : BuildLine) :
    s.heedAux line.message.aux = { s with imageId := (lineImage? (.ok line)).or s.imageId } := by
  rw [lineImage?, BuildLine.message]
  obtain haux | ⟨_ | (_ | image), haux⟩ : line.aux = none ∨ ∃ aux, line.aux = some aux := by
    cases line.aux <;> simp
  all_goals simp only [haux]; rfl

theorem conclusion_of_fault {s : Classic.State} (hs : s.upload.fault = none)
    {item : Except EngineError BuildLine} {e : BuildError} (h : lineFault? item = some e)
    (rest : List (Except EngineError BuildLine)) :
    Classic.conclusion s (beats (heard (item :: rest)) .connection BuildLine.message) =
      .error e := by
  have hupload : s.upload.error? = none := by rw [Classic.Upload.error?, hs]; rfl
  rw [heard, List.map_cons, beats, List.map_cons]
  cases item with
  | error fault =>
      cases h
      simp only [orStreamError, Classic.conclusion, hupload, Option.getD_none]
  | ok line =>
      rw [lineFault?] at h
      rw [orStreamError]
      split at h
      · rename_i herror
        cases h
        simp only [herror, Classic.conclusion, hupload, Option.getD_none]
      · rename_i herror hdetail
        cases h
        simp only [herror, id, Classic.conclusion, BuildLine.message, hdetail]
      · cases h

theorem conclusion_of_plain (s : Classic.State) {item : Except EngineError BuildLine}
    (h : lineFault? item = none) (rest : List (Except EngineError BuildLine)) :
    Classic.conclusion s (beats (heard (item :: rest)) .connection BuildLine.message) =
      Classic.conclusion { s with imageId := (lineImage? item).or s.imageId }
        (beats (heard rest) .connection BuildLine.message) := by
  rw [heard, List.map_cons, beats, List.map_cons]
  cases item with
  | error fault => cases h
  | ok line =>
      rw [lineFault?] at h
      rw [orStreamError]
      split at h
      · cases h
      · cases h
      · rename_i herror hdetail
        have hmessage : line.message.error = none := hdetail
        simp only [herror, id, Classic.conclusion, hmessage, heedAux_message]
        rfl

/-- A classic build comes to the verdict on its lines. -/
theorem conclusion_beats {s : Classic.State} (hs : s.upload.fault = none)
    (items : List (Except EngineError BuildLine)) :
    (Classic.conclusion s (beats (heard items) .connection BuildLine.message)).map
      Classic.Built.imageId = verdictAfter s.imageId items := by
  induction items generalizing s with
  | nil =>
      have hupload : s.upload.error? = none := by rw [Classic.Upload.error?, hs]; rfl
      change s.conclude.map Classic.Built.imageId = imageOr s.imageId
      rw [Classic.State.conclude, hupload]
      cases s.imageId <;> rfl
  | cons item rest ih =>
      cases hfault : lineFault? item with
      | some e => rw [conclusion_of_fault hs hfault, verdictAfter_of_fault hfault]; rfl
      | none =>
          rw [conclusion_of_plain s hfault, verdictAfter_cons hfault]
          exact ih (s := { s with imageId := (lineImage? item).or s.imageId }) hs

/-! ## Builds by an engine -/

/-- An engine that gives one reply to all builds whose context is sent to its end. -/
def Client.Replies {τ : Type} (c : Client τ) (reply : Except EngineError Response) : Prop :=
  ∀ request t, request.route = "POST /build" → request.breaksOff = false →
    (c.exchange request t).1 = reply

variable {τ : Type} {c : Client τ} {reply : Except EngineError Response}

def messages (items : List (Except EngineError BuildLine)) : List (Beat BuildMessage) :=
  beats (heard items) .connection BuildLine.message

theorem route_build : "POST" ++ " " ++ "/build" = "POST /build" := by decide

theorem breaksOff_eq_false {request : Request} {context : Context}
    (hcontext : request.context = some context) (h : context.archive.fault = none) :
    request.breaksOff = false := by
  rw [Request.breaksOff, hcontext, Option.any_some, h]
  rfl

theorem Client.Replies.build (h : c.Replies reply) {r : ClassicRequest}
    (hcontext : r.context.archive.fault = none) (t : τ) :
    (c.build r t).1 =
      { body := .lossy, reply := { result := .ok (messages (lines BuildLine.reader reply)) } } := by
  let request : Request := {
    method := "POST"
    path := "/build"
    query := (BuildQuery.ofClassic r).params
    registryConfig := some r.credentials
    context := some r.context }
  rw [← h request t route_build (breaksOff_eq_false rfl hcontext)]
  rfl

theorem Client.Replies.solve (h : c.Replies reply) {r : SolveRequest} {sent : Context}
    (hpacked : solveContext c.fs c.remote r = .ok sent) (hsent : sent.archive.fault = none) (t : τ) :
    (c.solve r t).1 =
      { news := (followSolve [] (heard (lines BuildLine.reader reply))).1.map fun s => ({}, s)
        reply := { result := (followSolve [] (heard (lines BuildLine.reader reply))).2 } } := by
  let request : Request := {
    method := "POST"
    path := "/build"
    query := (BuildQuery.ofSolve r sent).params
    context := some sent }
  rw [← h request t route_build (breaksOff_eq_false rfl hsent), Client.solve, hpacked]
  rfl

/-- If an engine replies the same to a classic build and to a solve, both come to the same verdict: the
first error, or else the last image, or else that there is none. -/
theorem engines_agree {settings : Settings} {spec : BuildSpec} {dockerfile : Path}
    {context sent : Context} {credentials : Registry.CredentialTable}
    (hcontext : context.archive.fault = none)
    (hpacked : solveContext c.fs c.remote
      { Solve.request spec dockerfile spec.buildArgs settings.platform with credentials } = .ok sent)
    (hsent : sent.archive.fault = none) (hreply : c.Replies reply) (packing : Nat) :
    Settles (Classic.Built.imageId <$>
        Classic.build c.daemon settings spec context packing credentials)
      (verdict (lines BuildLine.reader reply)) ∧
    Settles (Solve.build c.daemon settings spec dockerfile credentials)
      (verdict (lines BuildLine.reader reply)) := by
  constructor
  · intro s hs
    have hbeats : ∀ b ∈ messages (lines BuildLine.reader reply), b.pace = {} := by
      intro b hb
      obtain ⟨item, -, rfl⟩ := List.mem_map.1 hb
      cases item <;> rfl
    have hlistener := Classic.untold_listener hcontext s.encode
    have hverdict := conclusion_beats hlistener.fault (lines BuildLine.reader reply)
    rw [hlistener.imageId] at hverdict
    rw [verdict, ← hverdict, leads_map]
    refine (Classic.build_settles (hreply.build hcontext) hbeats packing hs).mono fun r t ht => ?_
    obtain ⟨rfl, hcalm⟩ := ht
    refine ⟨?_, hcalm⟩
    rw [messages]
    cases Classic.conclusion (Classic.listener s.encode context) _ <;> rfl
  · have hverdict := conclude_followSolve [] (lines BuildLine.reader reply)
    rw [verdict]
    exact hverdict ▸ Solve.settles_build (hreply.solve hpacked hsent)

/-! ## The lines of a body -/

section

variable {α : Type} {reader : Json.Reader α} {box after : Inbox} {a : α}

theorem Inbox.values_of_take_some (h : box.take reader = .ok (some a, after)) (isWhole : Bool)
    (parts : List (List UInt8)) :
    box.values reader isWhole parts = .ok a :: after.values reader isWhole parts := by
  rw [Inbox.values]
  split <;> rename_i heq <;> rw [h] at heq <;> cases heq
  rfl

theorem Inbox.values_of_take_none (h : box.take reader = .ok (none, after)) (isWhole : Bool)
    (part : List UInt8) (parts : List (List UInt8)) :
    box.values reader isWhole (part :: parts) =
      (after.makeRoom.receive part).values reader isWhole
        (partsLeft after.makeRoom.room part parts) := by
  rw [Inbox.values]
  split <;> rename_i heq <;> rw [h] at heq <;> cases heq
  rfl

theorem Inbox.values_of_held_nil (h : box.held = []) : box.values reader true [] = [] := by
  have htake : box.take reader = .ok (none, box) := by
    rw [Inbox.take, h]
    rfl
  have hlast : box.lastValues reader = [] := by
    rw [Inbox.lastValues]
    split <;> rename_i heq <;> rw [htake] at heq <;> cases heq
    rw [h]
    rfl
  rw [Inbox.values]
  split <;> rename_i heq <;> rw [htake] at heq <;> cases heq
  exact hlast

end

def imageLine (image : String) : List UInt8 :=
  Text.Utf8.ofString ("\x7b\"aux\":\x7b\"ID\":\"" ++ image ++ "\"\x7d\x7d\n")

def twoImages : Response where
  body := imageLine "a" ++ imageLine "b"

def tellsImage (image : String) : Except EngineError BuildLine :=
  .ok { aux := some (.image (some image)) }

theorem lines_twoImages :
    lines BuildLine.reader (.ok twoImages) = [tellsImage "a", tellsImage "b"] := by
  have haccepted : twoImages.accepted = .ok ⟨[imageLine "a" ++ imageLine "b"], true⟩ := by cbv
  have hempty : Inbox.empty.take BuildLine.reader = .ok (none, .empty) := by cbv
  have hleft : Inbox.partsLeft Inbox.empty.makeRoom.room (imageLine "a" ++ imageLine "b") [] = [] := by
    cbv
  have hfirst : (Inbox.empty.makeRoom.receive (imageLine "a" ++ imageLine "b")).take BuildLine.reader =
      .ok (some { aux := some (.image (some "a")) }, ⟨imageLine "b", 19, 8192, 8154⟩) := by cbv
  have hsecond : Inbox.take BuildLine.reader ⟨imageLine "b", 19, 8192, 8154⟩ =
      .ok (some { aux := some (.image (some "b")) }, ⟨[], 38, 8192, 8154⟩) := by cbv
  simp only [lines, Except.bind, haccepted, readStream]
  rw [Inbox.values_of_take_none hempty, hleft, Inbox.values_of_take_some hfirst,
    Inbox.values_of_take_some hsecond, Inbox.values_of_held_nil rfl]
  rfl

/-- An engine that replies with two images to each build. -/
def twoImagesClient : Client (List Request) where
  exchange := Routes.exchange [("POST /build", [twoImages])]
  remote := false
  fs := keySystem

theorem twoImagesClient_replies : twoImagesClient.Replies (.ok twoImages) := by
  intro request sent hroute hbreaksOff
  have hresponse : ∀ n, Routes.response [("POST /build", [twoImages])] "POST /build" n = twoImages := by
    intro n
    cases n <;> rfl
  simp only [twoImagesClient, Routes.exchange, hbreaksOff, Bool.false_eq_true, if_false, hroute,
    hresponse]

theorem engines_agree_twoImages :
    ∃ sent, sent.archive.fault = none ∧
      solveContext twoImagesClient.fs twoImagesClient.remote
        { Solve.request keySpec ⟨"/app/Dockerfile"⟩ keySpec.buildArgs "linux/amd64" with
          credentials := [] } = .ok sent ∧
      twoImagesClient.Replies (.ok twoImages) ∧
      ({ daemon := [] } : Stage (List Request)).Calm ∧
      Settles (Classic.Built.imageId <$> Classic.build twoImagesClient.daemon {} keySpec sent 0 [])
        (.ok "b") ∧
      Settles (Solve.build twoImagesClient.daemon {} keySpec ⟨"/app/Dockerfile"⟩ []) (.ok "b") := by
  obtain ⟨sent, hpacked, hfault⟩ := keySystem_package
  have hsolve : solveContext twoImagesClient.fs twoImagesClient.remote
      { Solve.request keySpec ⟨"/app/Dockerfile"⟩ keySpec.buildArgs "linux/amd64" with
        credentials := [] } = .ok sent := by
    rw [← hpacked]
    exact solveContext_request rfl keySystem_isFile false [] "linux/amd64" []
  have hverdict : verdict (lines BuildLine.reader (.ok twoImages)) = .ok "b" := by
    rw [lines_twoImages]
    rfl
  refine ⟨sent, hfault, hsolve, twoImagesClient_replies, ⟨rfl, rfl, rfl⟩, ?_⟩
  rw [← hverdict]
  exact engines_agree hfault hsolve hfault twoImagesClient_replies 0

end Engine
end ImageBuild
