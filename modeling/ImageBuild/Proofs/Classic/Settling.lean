import ImageBuild.Classic
import ImageBuild.Proofs.Stage.Calm
/-!
# A classic build that nothing disturbs

When the daemon reads the context to its end and tells its beats at once, nobody gives up and the screen
works, a classic build comes to what the beats tell, starting from the state in which it begins to listen.
-/

namespace ImageBuild

open Act

namespace Classic

variable {σ : Type}

/-- What a classic build comes to that hears these beats. -/
def conclusion (s : State) : List (Beat BuildMessage) → Except BuildError Built
  | [] => s.conclude
  | b :: rest =>
    match b.content with
    | none => conclusion s rest
    | some (.error e) => .error (s.upload.error?.getD e)
    | some (.ok m) =>
      match m.error with
      | some e => .error (.buildFailed e)
      | none => conclusion (s.heedAux m.aux) rest

/-- A look at the upload changes nothing but what is still to be seen of it. -/
theorem respond_look (s : State) : ∃ unseen uploading events, respond s .look =
    { state := { s with upload := { s.upload with unseen }, uploading }, events } := by
  rw [respond]
  split
  · rw [State.look]
    split <;> exact ⟨_, _, _, rfl⟩
  · exact ⟨_, _, _, rfl⟩

theorem settles_hear (s : State) (i : Input) :
    Settles (hear s i : Act σ Response) (.ok (respond s i)) :=
  (settles_announceAll _).bind (settles_pure _)

theorem settles_listen (s : State) (look : Bool) {beats : List (Beat BuildMessage)}
    (h : ∀ b ∈ beats, b.pace = {}) :
    Settles (listen s look beats : Act σ Built) (conclusion s beats) := by
  have hlook : ∀ (look : Bool) {act : Act σ Built} {result : Except BuildError Built},
      Settles act result → Settles (if look then checkCaller >>= fun _ => act else act) result :=
    fun look _ _ hact => .ite _ (settles_checkCaller.bind hact) hact
  have hend : ∀ (s : State) (i : Input), Settles (hear s i >>= finish : Act σ Built)
      ((respond s i).outcome.getD (.error .missingImageId)) :=
    fun s i => (settles_hear s i).bind (settles_ofExcept _)
  induction beats generalizing s look with
  | nil => exact hlook look (hend s .ended)
  | cons b rest ih =>
      obtain ⟨pace, content⟩ := b
      obtain rfl : pace = {} := h _ List.mem_cons_self
      replace ih := fun s look => ih s look fun b hb => h b (List.mem_cons_of_mem _ hb)
      refine hlook look ((settles_pure ()).bind ?_)
      cases content with
      | none => exact ih s false
      | some content =>
          cases content with
          | error e => exact hend s (.failed e)
          | ok m =>
              refine (settles_hear s (.message m)).bind ?_
              cases herror : m.error with
              | some e =>
                  simp only [conclusion, respond, herror, Option.isSome_some, if_true]
                  exact settles_ofExcept _
              | none =>
                  simp only [conclusion, respond, herror]
                  exact ih _ true

/-- The state in which a build begins to listen, all of its context having been read. -/
def listener (encode : Archive.Encoder) (context : Context) : State :=
  (respond (stateAfterCall encode context .lossy) .look).state

theorem settles_afterCall (encode : Archive.Encoder) (context : Context) (packing : Nat)
    {beats : List (Beat BuildMessage)} (hbeats : ∀ b ∈ beats, b.pace = {}) :
    Settles (afterCall encode context packing { body := .lossy, reply := { result := .ok beats } } : Act σ Built)
      (conclusion (listener encode context) beats) := by
  have hread : Settles (readAll encode context packing : Act σ Unit) (.ok ()) :=
    .get_bind fun _ => .ite _ (settles_exchange _) (settles_giveWay rfl)
  have hanswer : Settles (answer encode context packing { body := .lossy, reply := { result := .ok beats } } :
      Act σ (List (Beat BuildMessage))) (.ok beats) := by
    refine hread.bind ?_
    cases context.archive.fault <;> exact settles_receive .none _
  have hlisten : Settles (hear (stateAfterCall encode context .lossy) .look >>= fun seen =>
      listen seen.state true beats : Act σ Built) (conclusion (listener encode context) beats) :=
    (settles_hear _ .look).bind (settles_listen _ true hbeats)
  exact hanswer.bind (settles_checkCaller.bind (.ite _ ((settles_exchange 1).bind hlisten) hlisten))

/-- A classic build comes to what its stream tells at once. -/
theorem build_settles {d : Daemon σ} {settings : Settings} {spec : BuildSpec} {context : Context}
    {credentials : Registry.CredentialTable} {beats : List (Beat BuildMessage)}
    (hreply : ∀ x, (d.build (request settings spec context credentials) x).1 =
      { body := .lossy, reply := { result := .ok beats } })
    (hbeats : ∀ b ∈ beats, b.pace = {}) (packing : Nat) {s : Stage σ} (hs : s.Calm) :
    Leads (build d settings spec context packing credentials) s fun r t =>
      r = (conclusion (listener s.encode context) beats).mapError .failed ∧ t.Calm := by
  rw [build, leads_bind, leads_get]
  exact settles_checkCaller.bind ((settles_call hreply).bind (settles_afterCall s.encode context packing hbeats)) s hs

/-- Nothing went wrong with the upload, and no image was told. -/
structure State.Untold (s : State) : Prop where
  fault : s.upload.fault = none
  imageId : s.imageId = none

theorem State.Untold.respond_readInput {s : State} (h : s.Untold) (size : Nat) :
    (respond s (readInput (.ok size))).state.Untold :=
  ⟨h.fault, h.imageId⟩

theorem State.Untold.look {s : State} (h : s.Untold) : (respond s .look).state.Untold := by
  obtain ⟨unseen, uploading, events, hlook⟩ := respond_look s
  rw [hlook]
  exact ⟨h.fault, h.imageId⟩

theorem exists_size_of_mem_reads {encode : Archive.Encoder} {context : Context} (h : context.archive.fault = none)
    {read : Except IoError Nat} (hread : read ∈ context.reads encode) : ∃ size, read = .ok size := by
  rw [Context.reads, h, Option.toList_none, List.map_nil, List.append_nil] at hread
  obtain ⟨chunk, -, rfl⟩ := List.mem_map.1 hread
  exact ⟨Archive.sizeBy id chunk, rfl⟩

theorem untold_listener {context : Context} (h : context.archive.fault = none) (encode : Archive.Encoder) :
    (listener encode context).Untold := by
  have hfold : ∀ (reads : List (Except IoError Nat)) (s : State), s.Untold →
      (∀ read ∈ reads, ∃ size, read = .ok size) →
      ((reads.map readInput).foldl (fun s i => (respond s i).state) s).Untold := by
    intro reads
    induction reads with
    | nil => exact fun s hs _ => hs
    | cons read rest ih =>
        intro s hs hall
        obtain ⟨size, rfl⟩ := hall read List.mem_cons_self
        exact ih _ (hs.respond_readInput size) fun read hread =>
          hall read (List.mem_cons_of_mem _ hread)
  have hread := hfold (context.reads encode) {} ⟨rfl, rfl⟩ fun read => exists_size_of_mem_reads h
  refine State.Untold.look ?_
  have hinputs : bodyInputs encode context .lossy = (context.reads encode).map readInput ++ [.finished] := rfl
  rw [stateAfterCall, hinputs, List.foldl_append]
  exact ⟨hread.fault, hread.imageId⟩

end Classic
end ImageBuild
