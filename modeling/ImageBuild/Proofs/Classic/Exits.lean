import ImageBuild.Proofs.Classic.Settling
/-!
# The ways out of a classic build

What a daemon reads of a context and what it tells may come in any order.  A build takes all of it as inputs,
and its way out is the first of them that ends it.  A fault of the context that the daemon has come to stays
known until then, but only the ways out at the end of the stream look to it.
-/

namespace ImageBuild.Classic

inductive Exit where
  /-- The call fails. -/
  | refused (e : BuildError)
  /-- A message tells an error. -/
  | told (error : String)
  /-- The stream breaks off. -/
  | broken (e : BuildError)
  | ended
  /-- The caller gives up. -/
  | abandoned

namespace Exit

/-- Whether this way out looks to the upload. -/
def looks : Exit → Bool
  | refused _ => false
  | told _ => false
  | broken _ => true
  | ended => true
  | abandoned => false

/-- The error at this way out, if a fault of the context is known. -/
def error (fault : String) : Exit → BuildError
  | refused e => e
  | told error => .buildFailed error
  | broken _ => .contextArchive fault
  | ended => .contextArchive fault
  | abandoned => .cancelled

theorem error_eq_contextArchive_iff {fault : String} {x : Exit} :
    x.error fault = .contextArchive fault ↔
      x.looks = true ∨ x = .refused (.contextArchive fault) := by
  cases x <;> simp [error, looks]

end Exit

namespace Input

/-- The way out that an input is, if it ends a build. -/
def exit? : Input → Option Exit
  | message m => m.error.map .told
  | failed e => some (.broken e)
  | ended => some .ended
  | cancelled => some .abandoned
  | _ => none

def fault? : Input → Option String
  | fault text => some text
  | _ => none

/-- Whether the daemon comes further in the context. -/
def reads : Input → Bool
  | chunk _ => true
  | fault _ => true
  | finished => true
  | _ => false

end Input

/-! ## One input -/

theorem isSome_outcome_respond (s : State) (i : Input) :
    (respond s i).outcome.isSome = i.exit?.isSome := by
  cases i with
  | chunk | fault | finished | dropped | failed | ended | cancelled => rfl
  | look =>
      obtain ⟨unseen, uploading, events, hlook⟩ := respond_look s
      rw [hlook]
      rfl
  | message m =>
      rw [respond, Input.exit?]
      cases m.error <;> rfl

theorem outcome_respond_eq_none {i : Input} (h : i.exit? = none) (s : State) :
    (respond s i).outcome = none := by
  have hnone := isSome_outcome_respond s i
  rw [h] at hnone
  exact Option.isNone_iff_eq_none.1 (Option.isSome_eq_false_iff.1 hnone)

/-- A message changes nothing but the id that is known. -/
theorem respond_message (s : State) (m : BuildMessage) :
    ∃ imageId, (respond s (.message m)).state = { s with imageId } := by
  rw [respond]
  cases m.error with
  | some e => exact ⟨s.imageId, rfl⟩
  | none =>
      dsimp only
      rw [State.heedAux]
      split
      · exact ⟨_, rfl⟩
      · exact ⟨s.imageId, rfl⟩

/-- The last fault that the daemon came to is the one that is known. -/
theorem fault_respond (s : State) (i : Input) :
    (respond s i).state.upload.fault = i.fault?.or s.upload.fault := by
  cases i with
  | chunk | fault | finished | dropped | failed | ended | cancelled => rfl
  | look =>
      obtain ⟨unseen, uploading, events, hlook⟩ := respond_look s
      rw [hlook]
      rfl
  | message m =>
      obtain ⟨imageId, hmessage⟩ := respond_message s m
      rw [hmessage]
      rfl

theorem outcome_respond_of_fault {s : State} {i : Input} {x : Exit} {fault : String}
    (hfault : s.upload.fault = some fault) (hexit : i.exit? = some x) :
    (respond s i).outcome = some (.error (x.error fault)) := by
  cases i with
  | chunk | fault | finished | dropped | look => cases hexit
  | message m =>
      obtain ⟨e, he, rfl⟩ := Option.map_eq_some_iff.1 hexit
      simp only [respond, he, Exit.error]
  | failed e =>
      cases hexit
      rw [respond, Upload.error?, hfault]
      rfl
  | ended =>
      cases hexit
      rw [respond, State.conclude, Upload.error?, hfault]
      rfl
  | cancelled =>
      cases hexit
      rfl

/-! ## All inputs of a build -/

/-- The state after some inputs. -/
def State.after (s : State) (inputs : List Input) : State :=
  inputs.foldl (fun s i => (respond s i).state) s

/-- Takes inputs until one of them ends the build. -/
def run (s : State) : List Input → Option (Except BuildError Built)
  | [] => none
  | i :: rest => (respond s i).outcome.or (run (respond s i).state rest)

theorem fault_after (s : State) (inputs : List Input) :
    (s.after inputs).upload.fault =
      (inputs.filterMap Input.fault?).getLast?.or s.upload.fault := by
  induction inputs generalizing s with
  | nil => rfl
  | cons i rest ih =>
      rw [State.after, List.foldl_cons]
      refine (ih _).trans ?_
      rw [fault_respond, List.filterMap_cons]
      cases i.fault? with
      | none => rw [Option.none_or]
      | some m =>
          rw [List.getLast?_cons]
          cases (rest.filterMap Input.fault?).getLast? <;> rfl

theorem run_append {before : List Input} (h : ∀ i ∈ before, i.exit? = none) (s : State)
    (rest : List Input) : run s (before ++ rest) = run (s.after before) rest := by
  induction before generalizing s with
  | nil => rfl
  | cons i before ih =>
      obtain ⟨hi, hbefore⟩ := List.forall_mem_cons.1 h
      rw [List.cons_append, run, outcome_respond_eq_none hi, Option.none_or, ih hbefore]
      rfl

/-- With a fault known, the way out is all that counts. -/
theorem run_of_fault {s : State} {fault : String} (hfault : s.upload.fault = some fault)
    {inputs : List Input} (hinputs : ∀ i ∈ inputs, i.fault? = none) :
    run s inputs = (inputs.findSome? Input.exit?).map fun x => .error (x.error fault) := by
  induction inputs generalizing s with
  | nil => rfl
  | cons i rest ih =>
      obtain ⟨hi, hrest⟩ := List.forall_mem_cons.1 hinputs
      rw [run, List.findSome?_cons]
      cases hexit : i.exit? with
      | some x => rw [outcome_respond_of_fault hfault hexit, Option.some_or, Option.map_some]
      | none =>
          have hkept : (respond s i).state.upload.fault = some fault := by
            rw [fault_respond, hi, Option.none_or, hfault]
          rw [outcome_respond_eq_none hexit, Option.none_or, ih hkept hrest]

/-! ## What the daemon reads -/

/-- The daemon reads the context from its beginning on, as far as it likes. -/
def Reads (encode : Archive.Encoder) (c : Context) (inputs : List Input) : Prop :=
  inputs.filter Input.reads <+: bodyInputs encode c .lossy

variable {encode : Archive.Encoder} {c : Context}

theorem filterMap_fault?_bodyInputs (encode : Archive.Encoder) (c : Context) :
    (bodyInputs encode c .lossy).filterMap Input.fault? = c.archive.fault.toList.map IoError.message := by
  have hbody : bodyInputs encode c .lossy = (c.reads encode).map readInput ++ [.finished] := rfl
  have hok : (((Archive.chunksOf id (c.sizes encode) c.archive.fault).map fun chunk =>
      Except.ok (Archive.sizeBy id chunk)).map readInput).filterMap Input.fault? = [] := by
    rw [List.filterMap_eq_nil_iff, List.map_map]
    intro i hi
    obtain ⟨chunk, -, rfl⟩ := List.mem_map.1 hi
    rfl
  rw [hbody, Context.reads, List.map_append, List.filterMap_append, List.filterMap_append, hok]
  cases c.archive.fault <;> rfl

theorem filterMap_fault?_filter_reads (inputs : List Input) :
    (inputs.filter Input.reads).filterMap Input.fault? = inputs.filterMap Input.fault? := by
  rw [List.filterMap_filter]
  congr 1
  funext i
  cases i <;> rfl

/-- A daemon that comes to a fault comes to the one of the context. -/
theorem fault_after_of_reads {fault : IoError} (hfault : c.archive.fault = some fault)
    {inputs : List Input} (h : Reads encode c inputs) {message : String} (hmem : .fault message ∈ inputs) :
    (State.after {} inputs).upload.fault = some fault.message := by
  have hprefix := h.filterMap Input.fault?
  rw [filterMap_fault?_filter_reads, filterMap_fault?_bodyInputs, hfault] at hprefix
  have hfound : message ∈ inputs.filterMap Input.fault? := List.mem_filterMap.2 ⟨_, hmem, rfl⟩
  have hfaults : inputs.filterMap Input.fault? = [fault.message] :=
    hprefix.eq_of_length_le (List.length_pos_of_mem hfound)
  rw [fault_after, hfaults]
  rfl

end ImageBuild.Classic
