import ImageBuild.Proofs.Recorder.Nesting
import Mathlib.Data.List.Basic
/-!
# Guards of phases

Who starts a phase holds a guard for it, and the phase is over once the guard is released.  Guards may be released in
any order, and several of them may be for one phase.  Yet the recorder, which knows of tickets alone, has those phases
open whose guards are held, and has finished those whose guards were released.
-/

namespace ImageBuild

/-- What the starter of a phase holds. -/
structure Guard where
  ticket : Nat
  phase : Phase
deriving Repr, DecidableEq

/-- The guards that were handed out: those that are still held, the oldest first, and those that were released. -/
structure Hand where
  live : List Guard := []
  released : List Guard := []
deriving Repr, DecidableEq

namespace Hand

/-- A guard is released once.  Who no longer holds the guard of a ticket cannot finish its phase. -/
def apply (hand : Hand) : Mark → Hand
  | .start p => { hand with live := hand.live ++ [⟨hand.live.length + hand.released.length, p⟩] }
  | .finish ticket =>
    { live := hand.live.filter fun g => g.ticket ≠ ticket
      released := hand.released ++ hand.live.filter fun g => g.ticket = ticket }
  | .describe _ => hand

def ofMarks (word : List Mark) : Hand := word.foldl apply {}

def hasReleased (hand : Hand) (ticket : Nat) : Bool := hand.released.any fun g => g.ticket = ticket

variable {hand : Hand} {older newer : List Guard} {ticket : Nat}

theorem apply_finish_of_ne (h : ∀ g ∈ hand.live, g.ticket ≠ ticket) :
    hand.apply (.finish ticket) = hand := by
  have hlive : hand.live.filter (fun g => g.ticket ≠ ticket) = hand.live :=
    List.filter_eq_self.2 (by simpa using h)
  have hreleased : hand.live.filter (fun g => g.ticket = ticket) = [] :=
    List.filter_eq_nil_iff.2 (by simpa using h)
  rw [apply, hlive, hreleased, List.append_nil]

theorem apply_finish (p : Phase) (hlive : hand.live = older ++ ⟨ticket, p⟩ :: newer)
    (h : ∀ g ∈ older ++ newer, g.ticket ≠ ticket) :
    hand.apply (.finish ticket) = ⟨older ++ newer, hand.released ++ [⟨ticket, p⟩]⟩ := by
  have hkept : (older ++ newer).filter (fun g => g.ticket ≠ ticket) = older ++ newer :=
    List.filter_eq_self.2 (by simpa using h)
  have hnone : (older ++ newer).filter (fun g => g.ticket = ticket) = [] :=
    List.filter_eq_nil_iff.2 (by simpa using h)
  rw [List.filter_append] at hkept hnone
  obtain ⟨holder, hnewer⟩ := List.append_eq_nil_iff.1 hnone
  rw [apply, hlive, List.filter_append, List.filter_append, List.filter_cons_of_neg (by simp), hkept, holder,
    List.filter_cons_of_pos (by simp), hnewer, List.nil_append]

end Hand

namespace Mark

def phase? : Mark → Option Phase
  | start p => some p
  | _ => none

/-- The phases that a word starts, the earliest first. -/
def phases (word : List Mark) : List Phase := word.filterMap phase?

end Mark

namespace Recorder

/-! ## The guards of what is open -/

/-- The guards of the phases that are not over, the first of which has the ticket `n`. -/
def openFrom (n : Nat) : List Timing → List Guard
  | [] => []
  | t :: rest => (if t.finished then [] else [⟨n, t.phase⟩]) ++ openFrom (n + 1) rest

variable {timings before after : List Timing} {n ticket : Nat} {g : Guard} {p : Phase} {r : Recorder}
  {hand : Hand}

theorem openFrom_append (before after : List Timing) (n : Nat) :
    openFrom n (before ++ after) = openFrom n before ++ openFrom (n + before.length) after := by
  induction before generalizing n with
  | nil => rfl
  | cons t before ih =>
      rw [List.cons_append, openFrom, ih, openFrom, List.append_assoc, List.length_cons]
      congr 3
      omega

theorem mem_openFrom :
    g ∈ openFrom n timings ↔ ∃ i, g.ticket = n + i ∧ timings[i]? = some ⟨g.phase, false⟩ := by
  induction timings generalizing n with
  | nil => simp [openFrom]
  | cons t rest ih =>
      rw [openFrom, List.mem_append, ih]
      constructor
      · rintro (hmem | ⟨i, hticket, hat⟩)
        · obtain ⟨phase, _ | _⟩ := t
          · obtain rfl := List.mem_singleton.1 hmem
            exact ⟨0, rfl, rfl⟩
          · cases hmem
        · exact ⟨i + 1, by omega, hat⟩
      · rintro ⟨_ | i, hticket, hat⟩
        · obtain rfl := Option.some.inj hat
          have hg : g = ⟨n, g.phase⟩ := congrArg (Guard.mk · g.phase) hticket
          exact .inl (List.mem_singleton.2 hg)
        · exact .inr ⟨i, by omega, hat⟩

theorem map_phase_openFrom (timings : List Timing) (n : Nat) :
    (openFrom n timings).map Guard.phase =
      (timings.filter fun t => !t.finished).map Timing.phase := by
  induction timings generalizing n with
  | nil => rfl
  | cons t rest ih =>
      rw [openFrom, List.map_append, ih, List.filter_cons]
      cases t.finished <;> simp

theorem pairwise_openFrom (timings : List Timing) (n : Nat) :
    (openFrom n timings).Pairwise fun g h => g.ticket < h.ticket := by
  induction timings generalizing n with
  | nil => exact .nil
  | cons t rest ih =>
      refine List.pairwise_append.2 ⟨?_, ih (n + 1), ?_⟩
      · cases t.finished <;> simp
      · intro g hg h hh
        obtain ⟨i, hticket, -⟩ := mem_openFrom.1 hh
        cases hfinished : t.finished <;> simp_all
        omega

theorem openFrom_split (before after : List Timing) (t : Timing) :
    openFrom 0 (before ++ t :: after) = openFrom 0 before ++
      ((if t.finished then [] else [⟨before.length, t.phase⟩]) ++ openFrom (before.length + 1) after) := by
  rw [openFrom_append, Nat.zero_add, openFrom]

theorem ticket_lt_of_mem (h : g ∈ openFrom 0 before) : g.ticket < before.length := by
  obtain ⟨i, hticket, hat⟩ := mem_openFrom.1 h
  have hi := (List.getElem?_eq_some_iff.1 hat).1
  omega

theorem le_ticket_of_mem (h : g ∈ openFrom n timings) : n ≤ g.ticket := by
  obtain ⟨i, hticket, -⟩ := mem_openFrom.1 h
  omega

/-- The guards of the phases that are not over. -/
def openGuards (r : Recorder) : List Guard := openFrom 0 r.timings

theorem openGuards_start (r : Recorder) (p : Phase) :
    (r.start p).openGuards = r.openGuards ++ [⟨r.starts, p⟩] := by
  rw [openGuards, start, openFrom_split]
  rfl

theorem openGuards_finish (h : r.timings = before ++ ⟨p, false⟩ :: after) :
    ∃ older newer, r.openGuards = older ++ ⟨before.length, p⟩ :: newer ∧
      (r.finish before.length).openGuards = older ++ newer ∧
      ∀ g ∈ older ++ newer, g.ticket ≠ before.length := by
  refine ⟨openFrom 0 before, openFrom (before.length + 1) after, ?_, ?_, fun g hg => ?_⟩
  · rw [openGuards, h, openFrom_split]
    simp
  · rw [finish_of_timings h, openGuards, openFrom_split]
    simp
  · rcases List.mem_append.1 hg with hg | hg
    · have hlt := ticket_lt_of_mem hg
      omega
    · have hle := le_ticket_of_mem hg
      omega

theorem finished_finish (h : r.timings = before ++ ⟨p, false⟩ :: after) (ticket : Nat) :
    (r.finish before.length).timings[ticket]?.any Timing.finished =
      (r.timings[ticket]?.any Timing.finished || ticket = before.length) := by
  rw [finish_of_timings h, h, List.getElem?_append, List.getElem?_append]
  split_ifs with hlt
  · simp [Nat.ne_of_lt hlt]
  · obtain ⟨k, rfl⟩ := Nat.exists_eq_add_of_le (Nat.le_of_not_lt hlt)
    rw [Nat.add_sub_cancel_left]
    cases k <;> simp

theorem exists_timings_of_isOpen (h : r.isOpen ticket = true) :
    ∃ before p after, r.timings = before ++ ⟨p, false⟩ :: after ∧ before.length = ticket := by
  obtain ⟨⟨p, finished⟩, hat, hfinished⟩ := (Option.any_eq_true _ _).1 h
  obtain ⟨hlt, hget⟩ := List.getElem?_eq_some_iff.1 hat
  obtain rfl : finished = false := by simpa using hfinished
  refine ⟨r.timings.take ticket, p, r.timings.drop (ticket + 1), ?_, ?_⟩
  · rw [← hget, ← List.drop_eq_getElem_cons hlt, List.take_append_drop]
  · rw [List.length_take]
    omega

theorem ticket_ne_of_not_isOpen (h : ¬r.isOpen ticket = true) : ∀ g ∈ r.openGuards, g.ticket ≠ ticket := by
  rintro g hg rfl
  obtain ⟨i, hticket, hat⟩ := mem_openFrom.1 hg
  rw [Nat.zero_add] at hticket
  exact h (by simp [isOpen, hticket, hat])

/-! ## A hand beside a recorder -/

/-- The hand and the recorder were told the same. -/
structure Tracks (r : Recorder) (hand : Hand) : Prop where
  live : hand.live = r.openGuards
  released : ∀ ticket, hand.hasReleased ticket = r.timings[ticket]?.any Timing.finished
  finishes : r.finishes = hand.released.length
  starts : r.starts = hand.live.length + hand.released.length

theorem Tracks.start (h : Tracks r hand) (p : Phase) : Tracks (r.start p) (hand.apply (.start p)) := by
  refine ⟨?_, fun ticket => ?_, h.finishes, ?_⟩
  · rw [openGuards_start, ← h.live, h.starts]
    rfl
  · have hlast : [(⟨p, false⟩ : Timing)][ticket - r.timings.length]?.any Timing.finished = false := by
      cases ticket - r.timings.length <;> simp
    refine (h.released ticket).trans ?_
    rw [Recorder.start, List.getElem?_append]
    split_ifs with hlt
    · rfl
    · rw [hlast, List.getElem?_eq_none (Nat.le_of_not_lt hlt)]
      rfl
  · have hstarts : (r.start p).starts = r.starts + 1 := by simp [Recorder.start, Recorder.starts]
    rw [hstarts, h.starts, Hand.apply]
    simp only [List.length_append, List.length_singleton]
    omega

theorem Tracks.finish (h : Tracks r hand) (ticket : Nat) :
    Tracks (r.finish ticket) (hand.apply (.finish ticket)) := by
  by_cases hopen : r.isOpen ticket = true
  · obtain ⟨before, p, after, htimings, rfl⟩ := exists_timings_of_isOpen hopen
    obtain ⟨older, newer, hguards, hrest, hne⟩ := openGuards_finish htimings
    have hheld := Hand.apply_finish p (h.live.trans hguards) hne
    rw [hheld]
    refine ⟨hrest.symm, fun ticket => ?_, ?_, ?_⟩
    · rw [finished_finish htimings, ← h.released, Hand.hasReleased, List.any_append]
      simp [Hand.hasReleased, eq_comm]
    · rw [finish_of_timings htimings, List.length_append, ← h.finishes]
      rfl
    · have hstarts : (r.finish before.length).starts = r.starts := by
        rw [finish_of_timings htimings, Recorder.starts, Recorder.starts, htimings]
        simp
      rw [hstarts, h.starts, h.live, hguards]
      simp only [List.length_append, List.length_cons, List.length_nil]
      omega
  · have hne := ticket_ne_of_not_isOpen hopen
    rw [← h.live] at hne
    rw [Recorder.finish, if_neg hopen, Hand.apply_finish_of_ne hne]
    exact h

theorem Tracks.apply (h : Tracks r hand) (m : Mark) : Tracks (r.apply m) (hand.apply m) := by
  cases m with
  | start p => exact h.start p
  | finish ticket => exact h.finish ticket
  | describe m => exact ⟨h.live, h.released, h.finishes, h.starts⟩

theorem Tracks.foldl (h : Tracks r hand) (word : List Mark) :
    Tracks (word.foldl Recorder.apply r) (word.foldl Hand.apply hand) := by
  induction word generalizing r hand with
  | nil => exact h
  | cons m rest ih => exact ih (h.apply m)

theorem tracks_ofMarks (word : List Mark) : Tracks (ofMarks word) (Hand.ofMarks word) := by
  apply Tracks.foldl
  exact ⟨rfl, fun ticket => by simp [Hand.hasReleased], rfl, rfl⟩

theorem map_phase_apply (r : Recorder) (m : Mark) :
    (r.apply m).timings.map Timing.phase = r.timings.map Timing.phase ++ m.phase?.toList := by
  cases m with
  | start p => simp [Recorder.apply, start, Mark.phase?]
  | describe m => simp [Recorder.apply, describe, Mark.phase?]
  | finish ticket =>
      rw [Recorder.apply]
      by_cases hopen : r.isOpen ticket = true
      · obtain ⟨before, p, after, htimings, rfl⟩ := exists_timings_of_isOpen hopen
        rw [finish_of_timings htimings, htimings]
        simp [Mark.phase?]
      · rw [finish, if_neg hopen]
        simp [Mark.phase?]

theorem map_phase_foldl (word : List Mark) (r : Recorder) :
    (word.foldl Recorder.apply r).timings.map Timing.phase =
      r.timings.map Timing.phase ++ Mark.phases word := by
  induction word generalizing r with
  | nil => exact (List.append_nil _).symm
  | cons m rest ih =>
      rw [List.foldl_cons, ih, map_phase_apply, List.append_assoc, Mark.phases, Mark.phases,
        List.filterMap_cons]
      cases m.phase? <;> rfl

theorem map_phase_ofMarks (word : List Mark) :
    (ofMarks word).timings.map Timing.phase = Mark.phases word := map_phase_foldl word {}

theorem timings_ofMarks (word : List Mark) (ticket : Nat) :
    (ofMarks word).timings[ticket]? = (Mark.phases word)[ticket]?.map fun p =>
      ⟨p, (Hand.ofMarks word).hasReleased ticket⟩ := by
  rw [← map_phase_ofMarks, List.getElem?_map, (tracks_ofMarks word).released]
  cases (ofMarks word).timings[ticket]? <;> rfl

theorem timing?_ofMarks (word : List Mark) (p : Phase) :
    (ofMarks word).timing? p = ((Mark.phases word).findIdx? (· == p)).map fun ticket =>
      ⟨p, (Hand.ofMarks word).hasReleased ticket⟩ := by
  have hphases := map_phase_ofMarks word
  have hindex : (ofMarks word).timings.findIdx? (fun t => t.phase == p) =
      (Mark.phases word).findIdx? (· == p) := by
    rw [← hphases, List.findIdx?_map]
    rfl
  rw [timing?, List.find?_eq_bind_findIdx?_getElem?, hindex]
  cases hfound : (Mark.phases word).findIdx? (· == p) with
  | none => rfl
  | some ticket =>
      obtain ⟨hlt, heq, -⟩ := List.findIdx?_eq_some_iff_getElem.1 hfound
      rw [Option.bind_some, timings_ofMarks, List.getElem?_eq_getElem hlt, eq_of_beq heq]
      rfl

/-- However phases start and guards are released, the guards that are held account for the difference of the two
counts and for what is open, in the order in which they were handed out.  A phase that started is over just if its own
guard was released, and of a phase that started more than once the earliest run is known by its name. -/
theorem ofMarks_guards (word : List Mark) :
    ((ofMarks word).starts = Mark.starts word ∧
      (ofMarks word).finishes = (Hand.ofMarks word).released.length ∧
      (ofMarks word).starts = (ofMarks word).finishes + (Hand.ofMarks word).live.length) ∧
    (ofMarks word).openPhases = (Hand.ofMarks word).live.map Guard.phase ∧
    ((Hand.ofMarks word).live.Pairwise fun g h => g.ticket < h.ticket) ∧
    (∀ ticket : Nat, (ofMarks word).timings[ticket]? = (Mark.phases word)[ticket]?.map fun p =>
      ⟨p, (Hand.ofMarks word).hasReleased ticket⟩) ∧
    ∀ p, (ofMarks word).timing? p = ((Mark.phases word).findIdx? (· == p)).map fun ticket =>
      ⟨p, (Hand.ofMarks word).hasReleased ticket⟩ := by
  have h := tracks_ofMarks word
  refine ⟨⟨starts_ofMarks word, h.finishes, ?_⟩, ?_, ?_, timings_ofMarks word, timing?_ofMarks word⟩
  · rw [h.starts, h.finishes]
    exact Nat.add_comm _ _
  · rw [h.live, openGuards, map_phase_openFrom, openPhases]
  · rw [h.live]
    apply pairwise_openFrom

/-- The middle one of three guards is released first, and a phase that is over is started anew. -/
example : (ofMarks [.start .build, .start .push, .start .push, .finish 1, .start .build, .finish 0]).openPhases =
    [.push, .build] := by decide

end Recorder
end ImageBuild
