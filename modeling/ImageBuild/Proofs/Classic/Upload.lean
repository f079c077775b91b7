import ImageBuild.Proofs.Archive.Chunks
import ImageBuild.Proofs.Classic.Handling
import ImageBuild.Proofs.Text.Size
/-!
# What is shown of the upload

A build looks at the upload whenever something is new about it, and may miss any number of steps in between.  So
the sizes that it shows only ever grow, and the final one is shown when all of the context was read, or never.  As
long as something is new the loop does not get to the stream, but it can look only once more than the daemon comes
further, so it always comes to the end of the stream.
-/

namespace ImageBuild.Classic

open Act

theorem sum_map_eq_sizeBy {α : Type} (size : α → Nat) (xs : List α) :
    (xs.map size).sum = Archive.sizeBy size xs := by
  induction xs with
  | nil => rfl
  | cons x xs ih => rw [List.map_cons, List.sum_cons, ih, Archive.sizeBy]

/-- A context that is packed to its end has as many bytes as its archive, or as what an encoder writes of it. -/
theorem bytesRead_reads {c : Context} (encode : Archive.Encoder) (h : c.archive.fault = none) :
    bytesRead (c.reads encode) =
      if c.compressed then (encode c.archive).sum else Archive.sizeOfEntries c.archive.entries := by
  have hsum : bytesRead (c.reads encode) = Archive.sizeBy id (c.sizes encode) := by
    rw [← Archive.sizeBy_chunksOf, ← sum_map_eq_sizeBy, bytesRead, Context.reads, h, Option.toList_none, List.map_nil,
      List.append_nil, List.map_map]
    rfl
  rw [hsum, Context.sizes]
  split
  · rw [← sum_map_eq_sizeBy, List.map_id]
  · exact Archive.sizeBy_map Archive.Piece.size c.archive.pieces

/-! ## What comes of looking -/

def Input.isLook : Input → Bool
  | look => true
  | _ => false

/-- The events that come of inputs, up to the one that ends the build, each with the input that it comes of. -/
def trace (s : State) : List Input → List (Input × Event)
  | [] => []
  | i :: rest =>
    (respond s i).events.map (i, ·) ++
      if (respond s i).outcome.isSome then [] else trace (respond s i).state rest

/-- What is shown of the upload. -/
def uploadLines (s : State) (inputs : List Input) : List Event :=
  ((trace s inputs).filter fun e => e.1.isLook).map Prod.snd

theorem map_trace (s : State) (inputs : List Input) : (trace s inputs).map Prod.snd = eventsOf s inputs := by
  induction inputs generalizing s with
  | nil => rfl
  | cons i rest ih =>
      rw [trace, eventsOf, List.map_append, List.map_map]
      congr 1
      · exact List.map_id _
      · split
        · rfl
        · exact ih _

theorem uploadLines_cons (s : State) (i : Input) (rest : List Input) :
    uploadLines s (i :: rest) =
      (if i.isLook then (respond s i).events else []) ++
        if (respond s i).outcome.isSome then [] else uploadLines (respond s i).state rest := by
  rw [uploadLines, trace, List.filter_append, List.map_append]
  congr 1
  · rw [List.filter_map, List.map_map]
    cases hlook : i.isLook <;> simp [Function.comp_def, hlook]
  · split
    · rfl
    · rfl

/-- What shows a size, in passing or for good. -/
def sizeEvent (n : Nat) (final : Bool) : Event where
  subject := .text ("Sending build context to Docker daemon  " ++ Text.decimalSize n)
  final := final

/-- These sizes were shown in passing, and this one for good. -/
def sizeLines (sizes : List Nat) (final : Option Nat) : List Event :=
  sizes.map (fun n => sizeEvent n false) ++ final.toList.map fun n => sizeEvent n true

/-- A build that takes the inputs looks at the upload, and it is in this state when it does. -/
def LooksIn (s : State) (inputs : List Input) (seen : State) : Prop :=
  ∃ before after, inputs = before ++ .look :: after ∧ s.after before = seen

/-- What is shown of the upload: sizes that grow, each of them as the upload is when the build looks at it, and after
them the last one for good if the upload is done by then. -/
structure Shows (s : State) (inputs : List Input) (sizes : List Nat) (final : Option Nat) : Prop where
  lines : uploadLines s inputs = sizeLines sizes final
  sorted : (sizes ++ final.toList).Pairwise (· ≤ ·)
  seen : ∀ n ∈ sizes, ∃ seen, LooksIn s inputs seen ∧ seen.upload.sent = n
  done : ∀ n ∈ final, ∃ before after, inputs = before ++ .look :: after ∧
    uploadLines s before = sizeLines sizes none ∧ (s.after before).upload.sent = n ∧
      (s.after before).upload.done = true

theorem LooksIn.cons {s seen : State} {i : Input} {rest : List Input}
    (h : LooksIn (respond s i).state rest seen) : LooksIn s (i :: rest) seen := by
  obtain ⟨before, after, rfl, hseen⟩ := h
  exact ⟨i :: before, after, rfl, hseen⟩

theorem LooksIn.sent_le {s seen : State} {inputs : List Input} (h : LooksIn s inputs seen) :
    s.upload.sent ≤ seen.upload.sent := by
  obtain ⟨before, after, -, rfl⟩ := h
  rw [sent_after]
  exact Nat.le_add_right _ _

theorem uploading_respond {s : State} (h : s.uploading = false) (i : Input) :
    (respond s i).state.uploading = false := by
  cases i with
  | look => rw [respond, State.sees, h, Bool.false_and, if_neg Bool.false_ne_true]; exact h
  | message m =>
      obtain ⟨imageId, hmessage⟩ := respond_message s m
      rw [hmessage]
      exact h
  | _ => exact h

theorem uploadLines_of_not_uploading {s : State} (h : s.uploading = false) (inputs : List Input) :
    uploadLines s inputs = [] := by
  induction inputs generalizing s with
  | nil => rfl
  | cons i rest ih =>
      have hnone : (if i.isLook then (respond s i).events else []) = [] := by
        cases i with
        | look => rw [respond, State.sees, h, Bool.false_and, if_neg Bool.false_ne_true]; rfl
        | _ => rfl
      rw [uploadLines_cons, hnone, ih (uploading_respond h i), ite_self, List.append_nil]

namespace Shows

variable {s : State} {i : Input} {rest : List Input} {sizes : List Nat} {final : Option Nat}

theorem nothing {inputs : List Input} (h : uploadLines s inputs = []) : Shows s inputs [] none :=
  ⟨h, .nil, nofun, nofun⟩

theorem later (hlines : ∀ rest, uploadLines s (i :: rest) = uploadLines (respond s i).state rest)
    (h : Shows (respond s i).state rest sizes final) : Shows s (i :: rest) sizes final := by
  refine ⟨(hlines rest).trans h.lines, h.sorted, fun n hn => ?_, fun n hn => ?_⟩
  · obtain ⟨seen, hlooks, hsent⟩ := h.seen n hn
    exact ⟨seen, hlooks.cons, hsent⟩
  · obtain ⟨before, after, rfl, hbefore, hsent, hdone⟩ := h.done n hn
    exact ⟨i :: before, after, rfl, (hlines before).trans hbefore, hsent, hdone⟩

theorem le_of_mem (h : Shows s rest sizes final) {n : Nat} (hn : n ∈ sizes ++ final.toList) :
    s.upload.sent ≤ n := by
  rcases List.mem_append.1 hn with hn | hn
  · obtain ⟨seen, hlooks, rfl⟩ := h.seen n hn
    exact hlooks.sent_le
  · obtain ⟨before, after, rfl, -, rfl, -⟩ := h.done n (Option.mem_toList.1 hn)
    exact LooksIn.sent_le ⟨before, after, rfl, rfl⟩

/-- A look in passing comes first. -/
theorem passing (hsees : s.sees = true) (hdone : s.upload.done = false)
    (h : Shows (respond s .look).state rest sizes final) :
    Shows s (.look :: rest) (s.upload.sent :: sizes) final := by
  have hevents : (respond s .look).events = [sizeEvent s.upload.sent false] := by
    rw [respond, if_pos hsees, State.look, hdone]
    rfl
  have hlines (rest : List Input) : uploadLines s (.look :: rest) =
      sizeEvent s.upload.sent false :: uploadLines (respond s .look).state rest := by
    rw [uploadLines_cons, outcome_respond_eq_none rfl, hevents]
    rfl
  refine ⟨?_, List.pairwise_cons.2 ⟨fun n hn => ?_, h.sorted⟩, fun n hn => ?_, fun n hn => ?_⟩
  · rw [hlines, h.lines]
    rfl
  · exact (sent_respond s .look).ge.trans (h.le_of_mem hn)
  · rcases List.mem_cons.1 hn with rfl | hn
    · exact ⟨s, ⟨[], rest, rfl, rfl⟩, rfl⟩
    · obtain ⟨seen, hlooks, hsent⟩ := h.seen n hn
      exact ⟨seen, hlooks.cons, hsent⟩
  · obtain ⟨before, after, rfl, hbefore, hsent, hseen⟩ := h.done n hn
    refine ⟨.look :: before, after, rfl, ?_, hsent, hseen⟩
    rw [hlines, hbefore]
    rfl

/-- Once the upload is done the build looks for the last time. -/
theorem last (hsees : s.sees = true) (hdone : s.upload.done = true) (rest : List Input) :
    Shows s (.look :: rest) [] (some s.upload.sent) := by
  have hlook : respond s .look =
      { state := { s with upload := { s.upload with unseen := false }, uploading := false },
        events := [sizeEvent s.upload.sent true] } := by
    rw [respond, if_pos hsees, State.look, if_pos hdone]
    rfl
  have hlines : uploadLines s (.look :: rest) = [sizeEvent s.upload.sent true] := by
    rw [uploadLines_cons, hlook, uploadLines_of_not_uploading rfl, ite_self, List.append_nil]
    rfl
  refine ⟨hlines, List.pairwise_singleton _ _, fun n hn => absurd hn List.not_mem_nil, fun n hn => ?_⟩
  obtain rfl := Option.mem_some.1 hn
  exact ⟨[], rest, rfl, rfl, rfl, hdone⟩

end Shows

theorem exists_shows (s : State) (inputs : List Input) : ∃ sizes final, Shows s inputs sizes final := by
  induction inputs generalizing s with
  | nil => exact ⟨[], none, .nothing rfl⟩
  | cons i rest ih =>
      obtain ⟨sizes, final, h⟩ := ih (respond s i).state
      cases hlook : i.isLook with
      | false =>
          have hlines := uploadLines_cons s i
          simp only [hlook, if_neg Bool.false_ne_true, List.nil_append] at hlines
          split at hlines
          · exact ⟨[], none, .nothing (hlines rest)⟩
          · exact ⟨sizes, final, .later hlines h⟩
      | true =>
          obtain rfl : i = .look := by cases i <;> first | rfl | cases hlook
          cases hsees : s.sees with
          | false =>
              have hrespond : respond s .look = { state := s } := by
                rw [respond, if_neg (by simp [hsees])]
              refine ⟨sizes, final, .later (fun rest => ?_) h⟩
              rw [uploadLines_cons, hrespond]
              rfl
          | true =>
              cases hdone : s.upload.done with
              | false => exact ⟨_, final, .passing hsees hdone h⟩
              | true => exact ⟨[], _, .last hsees hdone rest⟩

/-! ## What the daemon does with the context -/

/-- The daemon reads the context from its beginning on, as far as it likes, and nothing any more once it has thrown
it away. -/
structure Uses (encode : Archive.Encoder) (c : Context) (inputs : List Input) : Prop where
  reads : Reads encode c inputs
  dropped : ∀ before after, inputs = before ++ .dropped :: after → after.filter Input.reads = []

variable {encode : Archive.Encoder} {c : Context} {inputs before after : List Input}

theorem Reads.front (h : Reads encode c inputs) (hbefore : before <+: inputs) : Reads encode c before :=
  (hbefore.filter _).trans h

theorem Uses.front (h : Uses encode c inputs) (hbefore : before <+: inputs) : Uses encode c before := by
  refine ⟨h.reads.front hbefore, ?_⟩
  rintro front back rfl
  obtain ⟨after, rfl⟩ := hbefore
  have hrest := h.dropped front (back ++ after) (by simp)
  rw [List.filter_append] at hrest
  exact (List.append_eq_nil_iff.1 hrest).1

theorem done_respond (s : State) (i : Input) :
    (respond s i).state.upload.done = true → s.upload.done = true ∨ i = .finished := by
  cases i with
  | finished => exact fun _ => .inr rfl
  | look =>
      obtain ⟨unseen, uploading, events, hlook⟩ := respond_look s
      rw [hlook]
      exact .inl
  | message m =>
      obtain ⟨imageId, hmessage⟩ := respond_message s m
      rw [hmessage]
      exact .inl
  | _ => exact .inl

theorem done_after {s : State} (h : (s.after inputs).upload.done = true) :
    s.upload.done = true ∨ .finished ∈ inputs := by
  induction inputs generalizing s with
  | nil => exact .inl h
  | cons i rest ih =>
      rw [State.after, List.foldl_cons] at h
      rcases ih h with h | h
      · rcases done_respond s i h with h | rfl
        · exact .inl h
        · exact .inr List.mem_cons_self
      · exact .inr (List.mem_cons_of_mem i h)

/-- The daemon comes to the end of the context only by reading all of it. -/
theorem Reads.eq_of_finished (h : Reads encode c inputs) (hmem : .finished ∈ inputs) :
    inputs.filter Input.reads = bodyInputs encode c .lossy := by
  have hbody : bodyInputs encode c .lossy = (c.reads encode).map readInput ++ [.finished] := rfl
  have hfiltered : .finished ∈ inputs.filter Input.reads := List.mem_filter.2 ⟨hmem, rfl⟩
  rw [Reads, hbody, List.prefix_concat_iff] at h
  rcases h with h | h
  · exact h
  · obtain ⟨item, -, hitem⟩ := List.mem_map.1 (h.subset hfiltered)
    cases item <;> cases hitem

theorem bytesRead_take_le (read : List (Except IoError Nat)) (n : Nat) :
    bytesRead (read.take n) ≤ bytesRead read := by
  have happend : bytesRead (read.take n) + bytesRead (read.drop n) = bytesRead read := by
    rw [bytesRead, bytesRead, ← List.sum_append, ← List.map_append, List.take_append_drop]
    rfl
  omega

theorem sent_after_of_reads (h : Reads encode c inputs) :
    (State.after {} inputs).upload.sent = bytesRead ((c.reads encode).take (inputs.countP Input.reads)) := by
  rw [sent_after, sizes_eq h]
  exact Nat.zero_add _

theorem sent_of_finished (h : Reads encode c inputs) (hmem : .finished ∈ inputs) :
    (State.after {} inputs).upload.sent = bytesRead (c.reads encode) := by
  have hlength : inputs.countP Input.reads = (c.reads encode).length + 1 := by
    rw [List.countP_eq_length_filter, h.eq_of_finished hmem]
    simp [bodyInputs]
  rw [sent_after_of_reads h, List.take_of_length_le (by omega)]

/-- What is shown for good is all of the context, and it is shown when all of it was read. -/
theorem Shows.of_reads {sizes : List Nat} {final : Option Nat} (h : Shows {} inputs sizes final)
    (hreads : Reads encode c inputs) :
    (∀ n ∈ sizes, n ≤ bytesRead (c.reads encode)) ∧
      ∀ n, final = some n → n = bytesRead (c.reads encode) ∧ ∃ before after, inputs = before ++ .look :: after ∧
        before.filter Input.reads = bodyInputs encode c .lossy ∧ uploadLines {} before = sizeLines sizes none := by
  refine ⟨fun n hn => ?_, fun n hn => ?_⟩
  · obtain ⟨seen, ⟨before, after, rfl, rfl⟩, rfl⟩ := h.seen n hn
    rw [sent_after_of_reads (hreads.front (List.prefix_append before _))]
    exact bytesRead_take_le _ _
  · obtain ⟨before, after, rfl, hbefore, rfl, hdone⟩ := h.done n hn
    have hmem : .finished ∈ before := (done_after hdone).resolve_left nofun
    have hfront := hreads.front (List.prefix_append before _)
    exact ⟨sent_of_finished hfront hmem, before, after, rfl, hfront.eq_of_finished hmem, hbefore⟩

theorem final_of_not_finished (h : .finished ∉ inputs) : ∀ e ∈ uploadLines {} inputs, e.final = false := by
  obtain ⟨sizes, final, hshows⟩ := exists_shows {} inputs
  have hnone : final = none := by
    refine Option.eq_none_iff_forall_not_mem.2 fun n hn => ?_
    obtain ⟨before, after, rfl, -, -, hdone⟩ := hshows.done n hn
    exact h (List.mem_append_left _ ((done_after hdone).resolve_left nofun))
  rw [hshows.lines, hnone]
  intro e he
  obtain ⟨n, -, rfl⟩ := List.mem_map.1 (by simpa [sizeLines] using he : e ∈ sizes.map _)
  rfl

theorem Uses.not_finished (h : Uses encode c (before ++ .dropped :: after)) (hbefore : .finished ∉ before) :
    .finished ∉ before ++ .dropped :: after := by
  intro hmem
  rcases List.mem_append.1 hmem with hmem | hmem
  · exact hbefore hmem
  · rcases List.mem_cons.1 hmem with heq | hmem
    · cases heq
    · have hread : .finished ∈ after.filter Input.reads := List.mem_filter.2 ⟨hmem, rfl⟩
      rw [h.dropped before after rfl] at hread
      cases hread

/-! ## What is shown in any case -/

/-- The upload goes on, and is looked at. -/
structure State.Open (s : State) : Prop where
  uploading : s.uploading = true
  done : s.upload.done = false
  alive : s.upload.alive = true

/-- The upload is done, and this is still to be seen. -/
structure State.Due (s : State) : Prop where
  uploading : s.uploading = true
  done : s.upload.done = true
  unseen : s.upload.unseen = true

theorem State.Due.sees {s : State} (h : s.Due) : s.sees = true := by
  rw [State.sees, h.uploading, h.unseen]
  rfl

theorem State.Open.respond {s : State} (h : s.Open) {i : Input} (hfinished : i ≠ .finished) (hdropped : i ≠ .dropped) :
    (respond s i).state.Open := by
  cases i with
  | finished => exact absurd rfl hfinished
  | dropped => exact absurd rfl hdropped
  | look =>
      rw [Classic.respond]
      split
      · rename_i hsees
        rw [State.sees, h.alive, Bool.not_true, Bool.or_false, Bool.and_eq_true] at hsees
        rw [State.look, if_neg (by simp [h.done])]
        exact ⟨hsees.2, h.done, h.alive⟩
      · exact h
  | message m =>
      obtain ⟨imageId, hmessage⟩ := respond_message s m
      rw [hmessage]
      exact ⟨h.uploading, h.done, h.alive⟩
  | _ => exact ⟨h.uploading, h.done, h.alive⟩

theorem State.Due.respond {s : State} (h : s.Due) {i : Input} (hlook : i ≠ .look) : (respond s i).state.Due := by
  cases i with
  | look => exact absurd rfl hlook
  | message m =>
      obtain ⟨imageId, hmessage⟩ := respond_message s m
      rw [hmessage]
      exact ⟨h.uploading, h.done, h.unseen⟩
  | finished => exact ⟨h.uploading, rfl, rfl⟩
  | chunk | fault => exact ⟨h.uploading, h.done, rfl⟩
  | _ => exact ⟨h.uploading, h.done, h.unseen⟩

theorem mem_uploadLines_cons {s : State} {i : Input} {rest : List Input} {e : Event} (hexit : i.exit? = none)
    (h : e ∈ uploadLines (respond s i).state rest) : e ∈ uploadLines s (i :: rest) := by
  rw [uploadLines_cons, outcome_respond_eq_none hexit, Option.isSome_none, if_neg Bool.false_ne_true]
  exact List.mem_append_right _ h

theorem exists_final_of_due {s : State} (hs : s.Due) (hbefore : ∀ i ∈ before, i.exit? = none) :
    ∃ n, sizeEvent n true ∈ uploadLines s (before ++ .look :: after) := by
  have hnow : ∀ {s : State}, s.Due → ∀ rest, ∃ n, sizeEvent n true ∈ uploadLines s (.look :: rest) := by
    intro s hs rest
    rw [(Shows.last hs.sees hs.done rest).lines]
    exact ⟨s.upload.sent, List.mem_singleton_self _⟩
  induction before generalizing s with
  | nil => exact hnow hs after
  | cons i before ih =>
      obtain ⟨hi, hrest⟩ := List.forall_mem_cons.1 hbefore
      cases hlook : i.isLook with
      | true =>
          obtain rfl : i = .look := by cases i <;> first | rfl | cases hlook
          exact hnow hs _
      | false =>
          have hne : i ≠ .look := by
            rintro rfl
            cases hlook
          obtain ⟨n, hn⟩ := ih (hs.respond hne) hrest
          exact ⟨n, mem_uploadLines_cons hi hn⟩

/-- The upload goes on until it is done, if the context is not thrown away before. -/
theorem exists_final_of_open {s : State} (hs : s.Open) (hbefore : ∀ i ∈ before, i.exit? = none)
    (hmem : .finished ∈ before)
    (hdropped : ∀ front back, before = front ++ .dropped :: back → .finished ∉ back) :
    ∃ n, sizeEvent n true ∈ uploadLines s (before ++ .look :: after) := by
  induction before generalizing s with
  | nil => cases hmem
  | cons i before ih =>
      obtain ⟨hi, hrest⟩ := List.forall_mem_cons.1 hbefore
      have hlater : ∀ front back, before = front ++ .dropped :: back → .finished ∉ back :=
        fun front back hsplit => hdropped (i :: front) back (by rw [hsplit]; rfl)
      by_cases hfinished : i = .finished
      · have hdue : (respond s i).state.Due := by
          rw [hfinished]
          exact ⟨hs.uploading, rfl, rfl⟩
        obtain ⟨n, hn⟩ : ∃ n, sizeEvent n true ∈ uploadLines (respond s i).state (before ++ .look :: after) :=
          exists_final_of_due hdue hrest
        exact ⟨n, mem_uploadLines_cons hi hn⟩
      · have hfound := (List.mem_cons.1 hmem).resolve_left (Ne.symm hfinished)
        have hkept : i ≠ .dropped := by
          rintro rfl
          exact hdropped [] before rfl hfound
        obtain ⟨n, hn⟩ := ih (hs.respond hfinished hkept) hrest hfound hlater
        exact ⟨n, mem_uploadLines_cons hi hn⟩

/-- A build that looks at the upload after all of the context was read has shown its size by then. -/
theorem Uses.final_mem (h : Uses encode c (before ++ .look :: after)) (hmem : .finished ∈ before)
    (hbefore : ∀ i ∈ before, i.exit? = none) :
    sizeEvent (bytesRead (c.reads encode)) true ∈ uploadLines {} (before ++ .look :: after) := by
  have hdropped : ∀ front back, before = front ++ .dropped :: back → .finished ∉ back := by
    intro front back hsplit hback
    have hnone := (h.front (List.prefix_append before _)).dropped front back hsplit
    exact absurd (List.mem_filter.2 ⟨hback, rfl⟩) (by rw [hnone]; exact List.not_mem_nil)
  have hopen : ({} : State).Open := ⟨rfl, rfl, rfl⟩
  obtain ⟨n, hn⟩ : ∃ n, sizeEvent n true ∈ uploadLines {} (before ++ .look :: after) :=
    exists_final_of_open hopen hbefore hmem hdropped
  obtain ⟨sizes, final, hshows⟩ := exists_shows {} (before ++ .look :: after)
  have hfinal := hn
  rw [hshows.lines, sizeLines, List.mem_append] at hfinal
  rcases hfinal with hfinal | hfinal
  · obtain ⟨m, -, hm⟩ := List.mem_map.1 hfinal
    cases congrArg Event.final hm
  · obtain ⟨m, hm, heq⟩ := List.mem_map.1 hfinal
    rw [← ((hshows.of_reads h.reads).2 m (Option.mem_toList.1 hm)).1, heq]
    exact hn

/-! ## The loop -/

/-- What happens around the loop of a build. -/
inductive Move where
  /-- The daemon does something with the context, or the caller gives up. -/
  | happens (i : Input)
  /-- Something of the stream arrives, where the build can take it later. -/
  | arrives (i : Input)
  /-- The loop goes round once. -/
  | turn

namespace Move

def isHappens : Move → Bool
  | happens _ => true
  | _ => false

def isArrives : Move → Bool
  | arrives _ => true
  | _ => false

def isTurn : Move → Bool
  | turn => true
  | _ => false

end Move

/-- The loop of a build between two moves. -/
structure Loop where
  state : State := {}
  /-- What has arrived of the stream and is not yet taken. -/
  waiting : List Input := []

namespace Loop

/-- What a build takes at a move, and what is waiting then.  The upload goes before the stream, and a turn in which
there is neither goes by. -/
def takes (l : Loop) : Move → Option Input × List Input
  | .happens i => (some i, l.waiting)
  | .arrives i => (none, l.waiting ++ [i])
  | .turn => if l.state.sees then (some .look, l.waiting) else (l.waiting.head?, l.waiting.tail)

def next (l : Loop) (m : Move) : Loop where
  state := l.state.after (l.takes m).1.toList
  waiting := (l.takes m).2

/-- All that a build takes in the course of some moves. -/
def taken (l : Loop) : List Move → List Input
  | [] => []
  | m :: ms => (l.takes m).1.toList ++ (l.next m).taken ms

theorem next_happens (l : Loop) (i : Input) : l.next (.happens i) = ⟨(respond l.state i).state, l.waiting⟩ := rfl

theorem next_arrives (l : Loop) (i : Input) : l.next (.arrives i) = ⟨l.state, l.waiting ++ [i]⟩ := rfl

theorem next_turn_of_sees {l : Loop} (h : l.state.sees = true) :
    l.next .turn = ⟨(respond l.state .look).state, l.waiting⟩ := by
  rw [next, takes, if_pos h]
  rfl

theorem next_turn_of_waiting {l : Loop} (h : l.state.sees = false) {i : Input} {rest : List Input}
    (hwaiting : l.waiting = i :: rest) : l.next .turn = ⟨(respond l.state i).state, rest⟩ := by
  rw [next, takes, if_neg (by simp [h]), hwaiting]
  rfl

theorem taken_append (l : Loop) (before after : List Move) :
    l.taken (before ++ after) = l.taken before ++ (before.foldl next l).taken after := by
  induction before generalizing l with
  | nil => rfl
  | cons m before ih => rw [List.cons_append, taken, taken, ih, List.append_assoc, List.foldl_cons]

end Loop

/-- How often a build can look at the upload before it comes further. -/
def State.looks (s : State) : Nat :=
  if s.uploading then if s.upload.unseen then 2 else 1 else 0

theorem State.looks_le (s : State) : s.looks ≤ 2 := by
  rw [State.looks]
  split_ifs <;> omega

theorem looks_respond_look {s : State} (h : s.sees = true) :
    (respond s .look).state.looks < s.looks := by
  obtain ⟨huploading, hseen⟩ := Bool.and_eq_true_iff.1 h
  rw [respond, if_pos h, State.look, State.looks, State.looks, huploading]
  cases hdone : s.upload.done <;> cases hunseen : s.upload.unseen <;> simp

theorem looks_respond_of_isTold {i : Input} (h : i.isTold = true) (s : State) :
    (respond s i).state.looks = s.looks := by
  cases i with
  | message m =>
      obtain ⟨imageId, hmessage⟩ := respond_message s m
      rw [hmessage]
      rfl
  | failed | ended | cancelled => rfl
  | _ => cases h

theorem looks_respond_le (s : State) (i : Input) : (respond s i).state.looks ≤ s.looks + 1 := by
  cases i with
  | look =>
      cases hsees : s.sees with
      | true => exact (looks_respond_look hsees).le.trans (Nat.le_succ _)
      | false => rw [respond, if_neg (by simp [hsees])]; exact Nat.le_succ _
  | message m => exact (looks_respond_of_isTold rfl s).le.trans (Nat.le_succ _)
  | _ =>
      obtain ⟨⟨sent, done, fault, unseen, alive⟩, uploading, imageId⟩ := s
      cases uploading <;> cases unseen <;> simp [respond, State.looks]

namespace Loop

/-- The end of the stream that waits behind other messages is taken in time: each turn takes one of them, or it is a
look, and there are no more of these than what happens gives cause for. -/
theorem exists_exit_of_turns {l : Loop} {front back : List Input} {x : Input} (hx : x.exit?.isSome = true)
    {ms : List Move} (hwaiting : l.waiting = front ++ x :: back) (hfront : ∀ i ∈ front, i.isTold = true)
    (hturns : l.state.looks + ms.countP Move.isHappens + front.length < ms.countP Move.isTurn) :
    ∃ i ∈ l.taken ms, i.exit?.isSome = true := by
  induction ms generalizing l front back with
  | nil => simp at hturns
  | cons m ms ih =>
      have hlater : (∃ i ∈ (l.next m).taken ms, i.exit?.isSome = true) →
          ∃ i ∈ l.taken (m :: ms), i.exit?.isSome = true :=
        fun ⟨i, hi, hexit⟩ => ⟨i, List.mem_append_right _ hi, hexit⟩
      simp only [List.countP_cons] at hturns
      cases m with
      | happens i =>
          have hlooks := looks_respond_le l.state i
          simp only [Move.isHappens, Move.isTurn, if_true, Bool.false_eq_true, if_false] at hturns
          rw [next_happens] at hlater
          exact hlater (ih hwaiting hfront (by dsimp only; omega))
      | arrives i =>
          simp only [Move.isHappens, Move.isTurn, Bool.false_eq_true, if_false] at hturns
          have hmore : l.waiting ++ [i] = front ++ x :: (back ++ [i]) := by simp [hwaiting]
          rw [next_arrives] at hlater
          exact hlater (ih hmore hfront hturns)
      | turn =>
          simp only [Move.isHappens, Move.isTurn, if_true, Bool.false_eq_true, if_false] at hturns
          cases hsees : l.state.sees with
          | true =>
              have hlooks := looks_respond_look hsees
              rw [next_turn_of_sees hsees] at hlater
              exact hlater (ih hwaiting hfront (by dsimp only; omega))
          | false =>
              cases front with
              | nil =>
                  refine ⟨x, List.mem_append_left _ ?_, hx⟩
                  simp [takes, hsees, hwaiting]
              | cons y front =>
                  obtain ⟨hy, hfront⟩ := List.forall_mem_cons.1 hfront
                  have hlooks := looks_respond_of_isTold hy l.state
                  rw [List.length_cons] at hturns
                  rw [next_turn_of_waiting hsees hwaiting] at hlater
                  exact hlater (ih rfl hfront (by dsimp only; omega))

/-- Only what arrives is waiting. -/
theorem waiting_foldl (l : Loop) (ms : List Move) :
    (∀ i ∈ (ms.foldl next l).waiting, i ∈ l.waiting ∨ .arrives i ∈ ms) ∧
      (ms.foldl next l).waiting.length ≤ l.waiting.length + ms.countP Move.isArrives := by
  induction ms generalizing l with
  | nil => exact ⟨fun i hi => .inl hi, Nat.le_add_right _ _⟩
  | cons m ms ih =>
      have hnext : (∀ i ∈ (l.next m).waiting, i ∈ l.waiting ∨ .arrives i = m) ∧
          (l.next m).waiting.length ≤ l.waiting.length + if m.isArrives then 1 else 0 := by
        cases m with
        | happens => exact ⟨fun i hi => .inl hi, le_rfl⟩
        | arrives => simp [next, takes, Move.isArrives]
        | turn =>
            simp only [next, takes, Move.isArrives]
            split
            · exact ⟨fun i hi => .inl hi, le_rfl⟩
            · exact ⟨fun i hi => .inl (List.mem_of_mem_tail hi), by simp⟩
      obtain ⟨hmem, hlength⟩ := ih (l.next m)
      rw [List.foldl_cons, List.countP_cons]
      refine ⟨fun i hi => ?_, by omega⟩
      rcases hmem i hi with hi | hi
      · rcases hnext.1 i hi with hi | rfl
        · exact .inl hi
        · exact .inr List.mem_cons_self
      · exact .inr (List.mem_cons_of_mem m hi)

end Loop

theorem isSome_run_iff {s : State} {inputs : List Input} :
    (run s inputs).isSome = true ↔ ∃ i ∈ inputs, i.exit?.isSome = true := by
  induction inputs generalizing s with
  | nil => simp [run]
  | cons i rest ih =>
      rw [run, Option.isSome_or, Bool.or_eq_true, isSome_outcome_respond, ih]
      simp

/-- Once the end of the stream has arrived, a build is over after as many turns as messages arrived before it, one
for each thing that still happens, and three more. -/
theorem Loop.isSome_run_of_turns {before after : List Move} {x : Input} (hx : x.exit?.isSome = true)
    (htold : ∀ i, .arrives i ∈ before → i.isTold = true)
    (hturns : before.countP Move.isArrives + after.countP Move.isHappens + 3 ≤ after.countP Move.isTurn) :
    (run {} (({} : Loop).taken (before ++ .arrives x :: after))).isSome = true := by
  rw [isSome_run_iff, Loop.taken_append]
  obtain ⟨hmem, hlength⟩ := Loop.waiting_foldl {} before
  generalize before.foldl Loop.next {} = l at hmem hlength ⊢
  have hfront : ∀ i ∈ l.waiting, i.isTold = true := fun i hi =>
    htold i ((hmem i hi).resolve_left List.not_mem_nil)
  have hlooks := l.state.looks_le
  rw [List.length_nil] at hlength
  have hwaiting : (l.next (.arrives x)).waiting = l.waiting ++ x :: [] := rfl
  have hbound : (l.next (.arrives x)).state.looks + after.countP Move.isHappens + l.waiting.length <
      after.countP Move.isTurn := by
    change l.state.looks + _ + _ < _
    omega
  obtain ⟨i, hi, hexit⟩ := Loop.exists_exit_of_turns hx hwaiting hfront hbound
  exact ⟨i, List.mem_append_right _ hi, hexit⟩

/-! ## A build on a stage -/

theorem isTold_of_mem_inputsOf {beats : List (Beat BuildMessage)} {i : Input} (h : i ∈ inputsOf beats) :
    i.isTold = true := by
  rw [inputsOf, List.mem_append, List.mem_singleton] at h
  rcases h with h | rfl
  · obtain ⟨⟨_, _ | _ | _⟩, -, hb⟩ := List.mem_filterMap.1 h <;> cases hb <;> rfl
  · rfl

theorem uses_build (encode : Archive.Encoder) (c : Context) (use : BodyUse) (beats : List (Beat BuildMessage)) :
    Uses encode c (bodyInputs encode c use ++ .look :: inputsOf beats) := by
  have hfilter := filter_reads_begun encode c use fun i (hi : i ∈ inputsOf beats) => reads_of_mem_inputsOf hi
  refine ⟨?_, fun before after hsplit => ?_⟩
  · rw [Reads, hfilter]
    split
    · exact List.prefix_rfl
    · exact List.nil_prefix
  · cases hreads : use.reads with
    | false =>
        rw [hreads, if_neg Bool.false_ne_true, hsplit, List.filter_append, List.filter_cons] at hfilter
        exact (List.append_eq_nil_iff.1 hfilter).2
    | true =>
        -- A context that is read to its end is not thrown away.
        have hbody : bodyInputs encode c use = (c.reads encode).map readInput ++ [.finished] := by
          cases use <;> first | rfl | cases hreads
        have hmem : .dropped ∈ bodyInputs encode c use ++ .look :: inputsOf beats := by simp [hsplit]
        rw [hbody] at hmem
        simp only [List.mem_append, List.mem_cons, List.mem_map, List.not_mem_nil, reduceCtorEq, or_false,
          false_or] at hmem
        rcases hmem with ⟨item, -, hitem⟩ | hmem
        · cases item <;> cases hitem
        · cases isTold_of_mem_inputsOf hmem

/-- Of the upload a build shows sizes that grow and do not go beyond the size of the context, and then at most one
for good, which is that size.  It comes after the others, once all of the context was read and the build looks, and so
never of a context that is thrown away or not read.  The loop comes to the end of the stream whatever becomes of the
context.  All this is true whatever an encoder makes of a context that is compressed, and so of a build on any
stage. -/
theorem upload_shown_once (c : Context) :
    (∀ encode inputs, Uses encode c inputs → ∃ sizes final, uploadLines {} inputs = sizeLines sizes final ∧
      (sizes ++ final.toList).Pairwise (· ≤ ·) ∧ (∀ n ∈ sizes, n ≤ bytesRead (c.reads encode)) ∧
        ∀ n, final = some n → n = bytesRead (c.reads encode) ∧ ∃ before after, inputs = before ++ .look :: after ∧
          before.filter Input.reads = bodyInputs encode c .lossy ∧ uploadLines {} before = sizeLines sizes none) ∧
    (∀ n final, ∃ text, sizeEvent n final = ⟨.text ("Sending build context to Docker daemon  " ++ text), final⟩ ∧
      Text.TellsSize n text) ∧
    (∀ encode, c.archive.fault = none → bytesRead (c.reads encode) =
      if c.compressed then (encode c.archive).sum else Archive.sizeOfEntries c.archive.entries) ∧
    (∀ encode before after, Uses encode c (before ++ .look :: after) → .finished ∈ before →
      (∀ i ∈ before, i.exit? = none) →
        sizeEvent (bytesRead (c.reads encode)) true ∈ uploadLines {} (before ++ .look :: after)) ∧
    (∀ encode before after, Uses encode c (before ++ .dropped :: after) → .finished ∉ before →
      ∀ e ∈ uploadLines {} (before ++ .dropped :: after), e.final = false) ∧
    (∀ inputs, (∀ i ∈ inputs, i.reads = false) → ∀ e ∈ uploadLines {} inputs, e.final = false) ∧
    (∀ before after x, x.exit?.isSome = true → (∀ i, .arrives i ∈ before → i.isTold = true) →
      before.countP Move.isArrives + after.countP Move.isHappens + 3 ≤ after.countP Move.isTurn →
        (run {} (({} : Loop).taken (before ++ .arrives x :: after))).isSome = true) ∧
    ∀ (σ : Type) (d : Daemon σ) settings spec packing credentials (s : Stage σ) use pace beats,
      (d.build (request settings spec c credentials) s.daemon).1 = ⟨use, pace, .ok beats⟩ →
      (use = .drain → c.archive.fault = none) →
        Leads (build d settings spec c packing credentials) s fun r t =>
          (∃ front, Uses s.encode c front ∧ t.events = s.events ++ (trace {} front).map Prod.snd) ∧
            (¬t.GaveUp → (pace :: (heard beats).map Beat.pace).any Pace.hangs = false →
              r ≠ .error .forever) := by
  refine ⟨fun encode inputs huses => ?_, fun n final => ⟨_, rfl, Text.decimalSize_tells n⟩, bytesRead_reads,
    fun encode before after => Uses.final_mem, fun encode before after huses hbefore => ?_, fun inputs hnone => ?_,
    fun before after x => Loop.isSome_run_of_turns, ?_⟩
  · obtain ⟨sizes, final, hshows⟩ := exists_shows {} inputs
    exact ⟨sizes, final, hshows.lines, hshows.sorted, hshows.of_reads huses.reads⟩
  · exact final_of_not_finished (huses.not_finished hbefore)
  · exact final_of_not_finished fun hmem => Bool.false_ne_true (hnone _ hmem).symm
  · intro σ d settings spec packing credentials s use pace beats hreply hcall
    refine ((build_handles hreply hcall packing).and
      (build_leads d settings spec c packing credentials s)).mono fun r t ht => ?_
    obtain ⟨⟨front, hfront, hevents, -⟩, hforetold⟩ := ht
    refine ⟨⟨front, (uses_build s.encode c use beats).front hfront, ?_⟩, fun hgave hpaces => ?_⟩
    · rw [map_trace, hevents]
    · rw [hforetold hgave, hreply, foretold_of_ok pace beats hcall, hpaces, if_neg Bool.false_ne_true]
      cases conclusion (begun s.encode c use) beats <;> exact nofun

/-- A look comes between the last chunk and the end of the context, and another one after it. -/
example : uploadLines {} [.chunk 512, .chunk 512, .look, .message { stream := some "Step 1" }, .finished, .look,
    .look, .ended] = sizeLines [1024] (some 1024) := by
  decide

end ImageBuild.Classic
