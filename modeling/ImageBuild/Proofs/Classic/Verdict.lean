import ImageBuild.Proofs.Classic.Listening
import Mathlib
/-!
# The verdict on a classic build

The inputs of a build mix what the daemon reads of the context with what it tells.  However they are mixed, the
build comes to what the messages and the reading up to its way out say, each for itself: the messages are taken
in their order, and of the reading only its extent counts.
-/

namespace ImageBuild.Classic

/-! ## What is read and what is told -/

def fault? : Except IoError Nat → Option IoError
  | .error fault => some fault
  | .ok _ => none

def faultRead (read : List (Except IoError Nat)) : Option IoError := (read.filterMap fault?).getLast?

def bytesRead (read : List (Except IoError Nat)) : Nat := (read.map fun item => item.toOption.getD 0).sum

/-- The id of an image that a message tells: a record tells one by its only field `ID`, and a list by its only item,
if this is a text. -/
def toldId? (m : BuildMessage) : Option String :=
  match m.aux with
  | some (.object fields) =>
    match fields.filter fun f => f.1 == "ID" with
    | [(_, .text id)] => some id
    | _ => none
  | some (.array [.text id]) => some id
  | _ => none

theorem toldId?_eq (m : BuildMessage) : toldId? m = (m.aux.bind imageId?).join := by
  rw [toldId?]
  rcases m.aux with _ | _ | _ | _ | _ | items | fields
  case some.array =>
    rcases items with _ | ⟨item, _ | _⟩
    · rfl
    · cases item <;> rfl
    · cases item <;> rfl
  case some.object =>
    simp only [Option.bind_some, imageId?, Json.valuesOf]
    generalize fields.filter _ = found
    rcases found with _ | ⟨⟨_, v⟩, _ | _⟩
    · rfl
    · cases v <;> rfl
    · cases v <;> rfl
  all_goals rfl

/-- What becomes of a build that hears these messages and then the end of the stream, or the error that the
stream breaks off with, after this much was read of the context. -/
def verdict (read : List (Except IoError Nat)) (messages : List BuildMessage)
    (broken : Option BuildError) : Except BuildError Built :=
  match messages.findSome? BuildMessage.error, faultRead read, broken,
    (messages.filterMap toldId?).getLast? with
  | some e, _, _, _ => .error (.buildFailed e)
  | none, some fault, _, _ => .error (.contextArchive fault.message)
  | none, none, some e, _ => .error e
  | none, none, none, some id => .ok ⟨id, bytesRead read⟩
  | none, none, none, none => .error .missingImageId

namespace Input

/-- Whether an input comes from the stream or from the caller. -/
def isTold : Input → Bool
  | message _ => true
  | failed _ => true
  | ended => true
  | cancelled => true
  | _ => false

def message? : Input → Option BuildMessage
  | message m => some m
  | _ => none

def size : Input → Nat
  | chunk size => size
  | _ => 0

theorem exit?_of_isTold {i : Input} (h : i.isTold = false) : i.exit? = none := by
  cases i <;> first | rfl | cases h

end Input

/-- How a stream ends. -/
def closing : Option BuildError → Input
  | some e => .failed e
  | none => .ended

/-- These messages and this end come first in the stream, and nobody gives up before. -/
def Tells (messages : List BuildMessage) (broken : Option BuildError) (inputs : List Input) : Prop :=
  messages.map .message ++ [closing broken] <+: inputs.filter Input.isTold

/-- The inputs before the way out. -/
def beforeExit (inputs : List Input) : List Input := inputs.takeWhile fun i => i.exit?.isNone

/-- What the daemon has read of a context when a build finds its way out. -/
def readBy (encode : Archive.Encoder) (c : Context) (inputs : List Input) : List (Except IoError Nat) :=
  (c.reads encode).take ((beforeExit inputs).countP Input.reads)

/-! ## The state after some inputs -/

theorem sent_respond (s : State) (i : Input) :
    (respond s i).state.upload.sent = s.upload.sent + i.size := by
  cases i with
  | look =>
      obtain ⟨unseen, uploading, events, hlook⟩ := respond_look s
      rw [hlook]
      rfl
  | message m =>
      obtain ⟨imageId, hmessage⟩ := respond_message s m
      rw [hmessage]
      rfl
  | _ => rfl

theorem sent_after (s : State) (inputs : List Input) :
    (s.after inputs).upload.sent = s.upload.sent + (inputs.map Input.size).sum := by
  induction inputs generalizing s with
  | nil => rfl
  | cons i rest ih =>
      rw [State.after, List.foldl_cons]
      refine (ih _).trans ?_
      rw [sent_respond, List.map_cons, List.sum_cons, Nat.add_assoc]

/-- A value that holds no id never takes back one that was told. -/
theorem imageId_heedAux (s : State) (aux : Option Json) :
    (s.heedAux aux).imageId = (aux.bind imageId?).join.or s.imageId := by
  rw [State.heedAux]
  rcases aux.bind imageId? with _ | _ | id <;> rfl

theorem imageId_respond {i : Input} (h : i.exit? = none) (s : State) :
    (respond s i).state.imageId = (i.message?.bind toldId?).or s.imageId := by
  cases i with
  | look =>
      obtain ⟨unseen, uploading, events, hlook⟩ := respond_look s
      rw [hlook]
      rfl
  | message m =>
      rw [respond, Option.map_eq_none_iff.1 h]
      exact (imageId_heedAux s m.aux).trans (congrArg (·.or s.imageId) (toldId?_eq m).symm)
  | _ => rfl

/-- The last id that was told is the one that is known. -/
theorem imageId_after {inputs : List Input} (h : ∀ i ∈ inputs, i.exit? = none) (s : State) :
    (s.after inputs).imageId =
      ((inputs.filterMap Input.message?).filterMap toldId?).getLast?.or s.imageId := by
  rw [List.filterMap_filterMap]
  induction inputs generalizing s with
  | nil => rfl
  | cons i rest ih =>
      obtain ⟨hi, hrest⟩ := List.forall_mem_cons.1 h
      rw [State.after, List.foldl_cons]
      refine (ih hrest _).trans ?_
      rw [imageId_respond hi, List.filterMap_cons]
      cases i.message?.bind toldId? with
      | none => rw [Option.none_or]
      | some id =>
          rw [List.getLast?_cons]
          cases (rest.filterMap fun i => i.message?.bind toldId?).getLast? <;> rfl

/-! ## What was read by the way out -/

variable {encode : Archive.Encoder} {c : Context}

theorem beforeExit_append {before : List Input} (hbefore : ∀ i ∈ before, i.exit? = none) {x : Input}
    {way : Exit} (hx : x.exit? = some way) (after : List Input) :
    beforeExit (before ++ x :: after) = before := by
  rw [beforeExit, List.takeWhile_append_of_pos fun i hi => by rw [hbefore i hi]; rfl,
    List.takeWhile_cons_of_neg (by rw [hx]; exact Bool.false_ne_true), List.append_nil]

/-- The size of a context is all that was read of it, whatever it was packed of. -/
theorem contextSize_of_run {s : State} {inputs : List Input} {built : Built}
    (h : run s inputs = some (.ok built)) :
    built.contextSize = s.upload.sent + ((beforeExit inputs).map Input.size).sum := by
  induction inputs generalizing s with
  | nil => cases h
  | cons i rest ih =>
      rw [run] at h
      cases hexit : i.exit? with
      | none =>
          have hbefore : beforeExit (i :: rest) = i :: beforeExit rest :=
            List.takeWhile_cons_of_pos (by rw [hexit]; rfl)
          rw [outcome_respond_eq_none hexit, Option.none_or] at h
          rw [hbefore, List.map_cons, List.sum_cons, ih h, sent_respond, Nat.add_assoc]
      | some way =>
          have hbefore : beforeExit (i :: rest) = [] := beforeExit_append (List.forall_mem_nil _) hexit rest
          rw [hbefore]
          -- Of all the ways out, only the end of the stream can have an image.
          cases i with
          | ended =>
              rw [respond, Option.some_or, Option.some_inj, State.conclude] at h
              split at h <;> cases h
              rfl
          | message m =>
              obtain ⟨e, he, -⟩ := Option.map_eq_some_iff.1 hexit
              simp only [respond, he, Option.some_or] at h
              cases h
          | failed | cancelled => cases h
          | chunk | fault | finished | dropped | look => cases hexit

theorem reads_eq_take {inputs : List Input} (h : Reads encode c inputs) :
    ∃ n, inputs.filter Input.reads =
      ((c.reads encode).take (inputs.countP Input.reads)).map readInput ++ [.finished].take n := by
  have hbody : bodyInputs encode c .lossy = (c.reads encode).map readInput ++ [.finished] := rfl
  rw [Reads, List.prefix_iff_eq_take, ← List.countP_eq_length_filter, hbody, List.take_append,
    ← List.map_take] at h
  exact ⟨_, h⟩

theorem faults_eq {inputs : List Input} (h : Reads encode c inputs) :
    inputs.filterMap Input.fault? =
      (((c.reads encode).take (inputs.countP Input.reads)).filterMap fault?).map IoError.message := by
  obtain ⟨n, hreads⟩ := reads_eq_take h
  have hend : ([.finished].take n).filterMap Input.fault? = [] := by cases n <;> simp [Input.fault?]
  rw [← filterMap_fault?_filter_reads, hreads, List.filterMap_append, hend, List.append_nil,
    List.filterMap_map, List.map_filterMap]
  congr 1
  funext item
  cases item <;> rfl

theorem sum_size_filter_reads (inputs : List Input) :
    ((inputs.filter Input.reads).map Input.size).sum = (inputs.map Input.size).sum := by
  induction inputs with
  | nil => rfl
  | cons i rest ih => cases i <;> simp [List.filter_cons, Input.reads, Input.size, ih]

theorem sizes_eq {inputs : List Input} (h : Reads encode c inputs) :
    (inputs.map Input.size).sum = bytesRead ((c.reads encode).take (inputs.countP Input.reads)) := by
  obtain ⟨n, hreads⟩ := reads_eq_take h
  have hend : (([.finished].take n).map Input.size).sum = 0 := by cases n <;> simp [Input.size]
  rw [← sum_size_filter_reads, hreads, List.map_append, List.sum_append, hend, Nat.add_zero,
    List.map_map, bytesRead]
  congr 2
  funext item
  cases item <;> rfl

/-! ## One verdict for every order -/

/-- The way out is the first message that tells an error, or else the end of the stream. -/
theorem Tells.split {messages : List BuildMessage} {broken : Option BuildError} {inputs : List Input}
    (h : Tells messages broken inputs) :
    ∃ before x after, inputs = before ++ x :: after ∧ (∀ i ∈ before, i.exit? = none) ∧
      ((∃ m e, x = .message m ∧ m.error = some e ∧ messages.findSome? BuildMessage.error = some e) ∨
        x = closing broken ∧ before.filterMap Input.message? = messages) := by
  induction inputs generalizing messages with
  | nil =>
      rw [Tells, List.filter_nil, List.prefix_nil] at h
      cases messages <;> cases h
  | cons i rest ih =>
      cases htold : i.isTold with
      | false =>
          have hmessage : i.message? = none := by cases i <;> first | rfl | cases htold
          rw [Tells, List.filter_cons_of_neg (by simp [htold])] at h
          obtain ⟨before, x, after, rfl, hbefore, hway⟩ := ih h
          refine ⟨i :: before, x, after, rfl, List.forall_mem_cons.2 ⟨Input.exit?_of_isTold htold, hbefore⟩, ?_⟩
          rwa [List.filterMap_cons_none hmessage]
      | true =>
          rw [Tells, List.filter_cons_of_pos htold] at h
          cases messages with
          | nil =>
              obtain ⟨rfl, -⟩ := List.cons_prefix_cons.1 h
              exact ⟨[], _, rest, rfl, List.forall_mem_nil _, .inr ⟨rfl, rfl⟩⟩
          | cons m messages =>
              obtain ⟨rfl, hrest⟩ := List.cons_prefix_cons.1 h
              cases herror : m.error with
              | some e =>
                  exact ⟨[], _, rest, rfl, List.forall_mem_nil _, .inl ⟨m, e, rfl, herror, by simp [herror]⟩⟩
              | none =>
                  obtain ⟨before, x, after, rfl, hbefore, hway⟩ := ih hrest
                  have hexit : (Input.message m).exit? = none := by rw [Input.exit?, herror]; rfl
                  refine ⟨.message m :: before, x, after, rfl, List.forall_mem_cons.2 ⟨hexit, hbefore⟩, ?_⟩
                  rw [List.findSome?_cons, herror]
                  exact hway.imp_right (And.imp_right (congrArg (m :: ·)))

theorem findSome?_error_eq_none {inputs : List Input} (h : ∀ i ∈ inputs, i.exit? = none) :
    (inputs.filterMap Input.message?).findSome? BuildMessage.error = none := by
  rw [List.findSome?_eq_none_iff]
  intro m hm
  obtain ⟨i, hi, hmessage⟩ := List.mem_filterMap.1 hm
  cases i <;> cases hmessage
  exact Option.map_eq_none_iff.1 (h _ hi)

theorem outcome_closing {s : State} {read : List (Except IoError Nat)} {messages : List BuildMessage}
    (hfault : s.upload.fault = (faultRead read).map IoError.message)
    (hsent : s.upload.sent = bytesRead read)
    (himage : s.imageId = (messages.filterMap toldId?).getLast?)
    (hclean : messages.findSome? BuildMessage.error = none) (broken : Option BuildError) :
    (respond s (closing broken)).outcome = some (verdict read messages broken) := by
  unfold verdict
  rw [hclean]
  cases broken with
  | some e =>
      rw [closing, respond, Upload.error?, hfault]
      cases faultRead read <;> rfl
  | none =>
      rw [closing, respond, State.conclude, Upload.error?, hfault, himage, hsent]
      cases faultRead read with
      | some fault => rfl
      | none => cases (messages.filterMap toldId?).getLast? <;> rfl

/-- Whatever order the daemon reads and tells in, a build comes to the verdict on what it told and had read. -/
theorem run_eq_verdict {messages : List BuildMessage} {broken : Option BuildError}
    {inputs : List Input} (htells : Tells messages broken inputs) (hreads : Reads encode c inputs) :
    run {} inputs = some (verdict (readBy encode c inputs) messages broken) := by
  obtain ⟨before, x, after, rfl, hbefore, hway⟩ := htells.split
  rw [run_append hbefore, run]
  rcases hway with ⟨m, e, rfl, herror, hfirst⟩ | ⟨rfl, rfl⟩
  · simp only [respond, herror, verdict, hfirst, Option.some_or]
  · have hread : Reads encode c before := ((List.prefix_append before _).filter _).trans hreads
    have hby : readBy encode c (before ++ closing broken :: after) =
        (c.reads encode).take (before.countP Input.reads) := by
      rw [readBy]
      cases broken <;> rw [beforeExit_append hbefore rfl]
    have hfault : (State.after {} before).upload.fault =
        (faultRead ((c.reads encode).take (before.countP Input.reads))).map IoError.message := by
      rw [fault_after, faults_eq hread, List.getLast?_map, Option.or_none]
      rfl
    have hsent : (State.after {} before).upload.sent =
        bytesRead ((c.reads encode).take (before.countP Input.reads)) := by
      rw [sent_after, sizes_eq hread]
      exact Nat.zero_add _
    have himage := (imageId_after hbefore {}).trans (Option.or_none ..)
    rw [hby, outcome_closing hfault hsent himage (findSome?_error_eq_none hbefore), Option.some_or]

/-- A value that is no record with an id leaves the id that was told before. -/
example : verdict [.ok 512, .ok 1024]
    [{ aux := some (.object [("ID", .text "sha256:ab")]) }, { aux := some (.text "later") }] none =
      .ok ⟨"sha256:ab", 1536⟩ := by
  rfl

end ImageBuild.Classic
