import ImageBuild.Recorder
import Mathlib.Tactic.SplitIfs
/-!
# Nested phases

Phases nest if all that starts in a phase is over before the phase is.  Their marks make up a word of
brackets, in which a ticket closes what its number has opened.  A recorder that is told such a word
has the same phases open after it as before, and each phase of the word is finished once.
-/

namespace ImageBuild

namespace Mark

def isStart : Mark → Bool
  | start _ => true
  | _ => false

/-- The number of phases that a word starts. -/
def starts (word : List Mark) : Nat := word.countP isStart

@[simp] theorem starts_nil : starts [] = 0 := rfl

@[simp] theorem starts_cons (m : Mark) (word : List Mark) :
    starts (m :: word) = starts word + if m.isStart then 1 else 0 := List.countP_cons

@[simp] theorem starts_append (front back : List Mark) :
    starts (front ++ back) = starts front + starts back := List.countP_append

theorem starts_span (p : Phase) (ticket : Nat) (inner rest : List Mark) :
    starts (start p :: inner ++ finish ticket :: rest) = starts inner + starts rest + 1 := by
  simp [isStart, Nat.add_assoc]

end Mark

/-- The marks of phases that nest, the first of which has the ticket `n`. -/
inductive Nested : Nat → List Mark → Prop
  | nil (n : Nat) : Nested n []
  | describe {n : Nat} {word : List Mark} (m : BuilderMeta) (h : Nested n word) :
      Nested n (.describe m :: word)
  | span {n : Nat} {inner rest : List Mark} (p : Phase) (hinner : Nested (n + 1) inner)
      (hrest : Nested (n + 1 + Mark.starts inner) rest) :
      Nested n (.start p :: inner ++ .finish n :: rest)

namespace Nested

variable {n : Nat} {word back : List Mark}

theorem phase {inner : List Mark} (p : Phase) (h : Nested (n + 1) inner) :
    Nested n (.start p :: inner ++ [.finish n]) :=
  .span p h (.nil _)

theorem append (h : Nested n word) (hback : Nested (n + Mark.starts word) back) :
    Nested n (word ++ back) := by
  induction h with
  | nil n => exact hback
  | describe m h ih => exact .describe m (ih (by simpa [Mark.isStart] using hback))
  | @span n inner rest p hinner hrest _ ih =>
      rw [List.append_assoc, List.cons_append]
      refine .span p hinner (ih ?_)
      have hticket : n + (Mark.starts inner + Mark.starts rest + 1) =
          n + 1 + Mark.starts inner + Mark.starts rest := by omega
      rwa [Mark.starts_span, hticket] at hback

theorem count_finish (h : Nested n word) (ticket : Nat) :
    word.count (.finish ticket) =
      if n ≤ ticket ∧ ticket < n + Mark.starts word then 1 else 0 := by
  induction h with
  | nil n => rw [if_neg (by simp)]; rfl
  | describe m h ih => simpa [Mark.isStart] using ih
  | @span n inner rest p _ _ ihinner ihrest =>
      rw [Mark.starts_span, List.cons_append, List.count_cons_of_ne (by simp), List.count_append,
        List.count_cons, ihinner, ihrest]
      simp only [beq_iff_eq, Mark.finish.injEq]
      split_ifs <;> omega

end Nested

namespace Recorder

variable {r : Recorder} {word : List Mark}

theorem starts_foldl_apply (word : List Mark) (r : Recorder) :
    (word.foldl apply r).starts = r.starts + Mark.starts word := by
  induction word generalizing r with
  | nil => rfl
  | cons m rest ih =>
      rw [List.foldl_cons, ih, Mark.starts_cons]
      cases m with
      | start p =>
          have hstart : (r.apply (.start p)).starts = r.starts + 1 := by simp [apply, start, starts]
          simp only [hstart, Mark.isStart, if_true]
          omega
      | finish ticket =>
          have hfinish : (r.apply (.finish ticket)).starts = r.starts := by
            simp only [apply, finish, starts]
            split_ifs <;> simp
          rw [hfinish]
          rfl
      | describe m => rfl

theorem starts_ofMarks (word : List Mark) : (ofMarks word).starts = Mark.starts word := by
  rw [ofMarks, starts_foldl_apply]
  exact Nat.zero_add _

theorem finish_of_timings {before after : List Timing} {p : Phase}
    (h : r.timings = before ++ ⟨p, false⟩ :: after) :
    r.finish before.length =
      { r with finishes := r.finishes + 1, timings := before ++ ⟨p, true⟩ :: after } := by
  have hopen : r.isOpen before.length = true := by simp [isOpen, h]
  have hmodify : (before ++ ⟨p, false⟩ :: after).modify before.length
      (fun t => { t with finished := true }) = before ++ ⟨p, true⟩ :: after := by
    simp [List.modify_eq_take_cons_drop]
  rw [finish, if_pos hopen, h, hmodify]

/-- After nested phases a recorder knows of so many phases more, all of which are over. -/
theorem foldl_apply_nested {n : Nat} (h : Nested n word) (hn : r.starts = n) :
    ∃ ended, (word.foldl apply r).timings = r.timings ++ ended ∧
      ended.length = Mark.starts word ∧ (∀ t ∈ ended, t.finished = true) ∧
      (word.foldl apply r).finishes = r.finishes + Mark.starts word := by
  induction h generalizing r with
  | nil n => exact ⟨[], by simp⟩
  | describe m h ih => simpa [apply, describe, Mark.isStart] using ih (r := r.describe m) hn
  | @span n inner rest p _ _ ihinner ihrest =>
      subst hn
      obtain ⟨within, htimings, hlength, hover, hfinishes⟩ :=
        ihinner (r := r.start p) (by simp [starts, start])
      have hsplit : (inner.foldl apply (r.start p)).timings =
          r.timings ++ ⟨p, false⟩ :: within := by rw [htimings]; simp [start]
      have hclosed := finish_of_timings hsplit
      rw [show r.timings.length = r.starts from rfl] at hclosed
      have hstarts : ((inner.foldl apply (r.start p)).finish r.starts).starts =
          r.starts + 1 + Mark.starts inner := by
        rw [hclosed, starts, List.length_append, List.length_cons, hlength, starts]
        omega
      obtain ⟨later, htimings', hlength', hover', hfinishes'⟩ := ihrest hstarts
      rw [List.foldl_append, List.foldl_cons, List.foldl_cons]
      refine ⟨⟨p, true⟩ :: within ++ later, ?_, ?_, ?_, ?_⟩
      · exact htimings'.trans (by rw [hclosed]; simp)
      · simp only [Mark.starts_span, List.length_append, List.length_cons, hlength, hlength']
        omega
      · intro t ht
        rcases List.mem_append.1 ht with ht | ht
        · rcases List.mem_cons.1 ht with rfl | ht
          · rfl
          · exact hover t ht
        · exact hover' t ht
      · refine hfinishes'.trans ?_
        rw [hclosed, hfinishes, Mark.starts_span]
        change r.finishes + Mark.starts inner + 1 + Mark.starts rest = _
        omega

end Recorder
end ImageBuild
