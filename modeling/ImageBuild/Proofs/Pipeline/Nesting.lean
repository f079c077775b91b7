import ImageBuild.Daemon.Script
import ImageBuild.Proofs.Pipeline.Phases
import ImageBuild.Proofs.Solve.Context
import Mathlib.Data.List.Basic
/-!
# How the phases of a build lie in each other

Every phase that a run starts is finished once, and no phase starts before what it needs is over.  All
phases nest, but the one of the whole build does not hold them all: an image is pushed after it.
-/

namespace ImageBuild

open Act

variable {σ : Type}

/-- The one phase of these marks that lies in no other is `p`, which has the ticket `n`. -/
def Encloses (n : Nat) (p : Phase) (word : List Mark) : Prop :=
  ∃ inner, Nested (n + 1) inner ∧ word = .start p :: inner ++ [.finish n]

theorem Encloses.getLast?_eq {n : Nat} {p : Phase} {word : List Mark} (h : Encloses n p word) :
    word.getLast? = some (.finish n) := by
  obtain ⟨inner, -, rfl⟩ := h
  exact List.getLast?_concat

namespace Recorder

/-- Of what a new recorder is told in nested phases, nothing stays open. -/
theorem ofMarks_nested {word : List Mark} (h : Nested 0 word) :
    (ofMarks word).finishes = (ofMarks word).starts ∧ (ofMarks word).openPhases = [] := by
  obtain ⟨ended, htimings, hlength, hover, hfinishes⟩ := foldl_apply_nested h (r := {}) rfl
  rw [starts_ofMarks]
  refine ⟨hfinishes.trans (Nat.zero_add _), ?_⟩
  rw [openPhases, ofMarks, htimings, List.nil_append, List.filter_eq_nil_iff.2, List.map_nil]
  intro t ht
  simp [hover t ht]

/-- A phase that holds one that is over, and more that are over. -/
theorem ofMarks_within {p q : Phase} {word : List Mark} (hpq : p ≠ q) (h : Nested 2 word) :
    (ofMarks ([Mark.start p, Mark.start q, Mark.finish 1] ++ word)).openPhases = [p] ∧
      (ofMarks ([Mark.start p, Mark.start q, Mark.finish 1] ++ word)).timing? q = some ⟨q, true⟩ := by
  obtain ⟨ended, htimings, -, hover, -⟩ :=
    foldl_apply_nested h (r := ofMarks [.start p, .start q, .finish 1]) rfl
  rw [openPhases, timing?, ofMarks, List.foldl_append, ← ofMarks, htimings]
  have hopen : (ended.filter fun t => !t.finished) = [] := by
    rw [List.filter_eq_nil_iff]
    intro t ht
    simp [hover t ht]
  have hfirst : (ofMarks [.start p, .start q, .finish 1]).timings = [⟨p, false⟩, ⟨q, true⟩] := rfl
  rw [hfirst]
  refine ⟨?_, ?_⟩
  · simp [hopen]
  · simp [hpq]

end Recorder

namespace Job

variable {c : Capability} {n : Nat} {built : Bool} {inner : List Entry} {j : Job σ}

theorem Imaging.marks_cases (h : Imaging built inner) :
    Entry.marks inner = [] ∨ ∃ m, Entry.marks inner = [.describe m] := by
  cases h with
  | unasked => exact .inl rfl
  | driven m result => exact .inr ⟨m, rfl⟩

theorem Imaging.nested (h : Imaging built inner) (n : Nat) : Nested n (Entry.marks inner) := by
  obtain hmarks | ⟨m, hmarks⟩ := h.marks_cases <;> rw [hmarks]
  · exact .nil n
  · exact .describe m (.nil n)

theorem nested_phase (p : Phase) (h : Nested (n + 1) (Entry.marks inner)) :
    Nested n (Entry.marks (Entry.phase p n inner)) := by
  rw [Entry.marks_phase]
  exact h.phase p

theorem Making.nested (h : Making c n built inner) : Nested n (Entry.marks inner) := by
  cases h with
  | unpacked hclassic => exact nested_phase .contextBuild (.nil _)
  | session hsession himage => exact nested_phase .imageBuild (himage.nested _)
  | classic hclassic himage =>
      rw [Entry.marks_append]
      exact (nested_phase .contextBuild (.nil _)).append (nested_phase .imageBuild (himage.nested _))

theorem nested_pushed (publishes : Bool) (n : Nat) : Nested n (Entry.marks (pushed publishes n)) := by
  cases publishes with
  | false => exact .nil n
  | true => exact nested_phase .push (.nil _)

/-- The phase of the whole build, up to the end of it. -/
theorem Making.nested_build (probed : Report) (h : Making c (n + 2) built inner) :
    Nested (n + 1) (Entry.marks (Entry.phase .builderInit (n + 1) [.reported probed] ++ inner)) := by
  rw [Entry.marks_append]
  exact (nested_phase .builderInit (.nil _)).append h.nested

theorem Course.nested {word : List Entry} (h : Course j n word) : Nested n (Entry.marks word) := by
  cases h with
  | brief probed => exact nested_phase .build (nested_phase .builderInit (.nil _))
  | @full c built inner hmaking =>
      rw [Entry.marks_append]
      refine (nested_phase .build (hmaking.nested_build _)).append ?_
      have hstarts : n + Mark.starts (Entry.marks (Entry.phase .build n
          (Entry.phase .builderInit (n + 1) [.reported (.probe (.ok c))] ++ inner))) =
            n + 2 + Mark.starts (Entry.marks inner) := by
        simp [Entry.phase, Mark.isStart]
        omega
      rw [hstarts]
      exact nested_pushed _ _

/-! ## What starts before what -/

/-- Where the context or the image starts, all that started since the beginning is over. -/
theorem Making.split {p : Phase} (h : Making c n built inner) (hp : .start p ∈ Entry.marks inner) :
    ∃ before after : List Mark, Entry.marks inner = before ++ .start p :: after ∧ Nested n before ∧
      .start p ∉ before ∧ .start p ∉ after ∧
      (p = .contextBuild → c.builder = .classic) ∧
      (p = .imageBuild → .start .contextBuild ∉ after) := by
  have hcontext : Nested n [.start .contextBuild, .finish n] := .phase .contextBuild (.nil _)
  cases h with
  | unpacked hclassic =>
      rw [Entry.marks_phase] at hp ⊢
      obtain rfl : p = .contextBuild := by simpa using hp
      exact ⟨[], _, rfl, .nil n, by simp, by simp, fun _ => hclassic, nofun⟩
  | session hsession himage =>
      rw [Entry.marks_phase] at hp ⊢
      obtain hmarks | ⟨m, hmarks⟩ := himage.marks_cases <;>
      · rw [hmarks] at hp ⊢
        obtain rfl : p = .imageBuild := by simpa using hp
        exact ⟨[], _, rfl, .nil n, by simp, by simp, nofun, fun _ => by simp⟩
  | classic hclassic himage =>
      rw [Entry.marks_append, Entry.marks_phase, Entry.marks_phase] at hp ⊢
      obtain hmarks | ⟨m, hmarks⟩ := himage.marks_cases <;>
      · rw [hmarks] at hp ⊢
        obtain rfl | rfl : p = .contextBuild ∨ p = .imageBuild := by simpa using hp
        · exact ⟨[], _, rfl, .nil n, by simp, by simp, fun _ => hclassic, nofun⟩
        · exact ⟨_, _, rfl, hcontext, by simp, by simp, nofun, fun _ => by simp⟩

/-- A record in which everything is over, and has started in order. -/
structure Balanced (t : Stage σ) : Prop where
  finishes_eq : t.recorder.finishes = t.recorder.starts
  none_open : t.recorder.openPhases = []
  finished_once : ∀ ticket < t.recorder.starts, t.marks.count (.finish ticket) = 1
  /-- When the context or the image starts, the initialisation is over and only the whole is not. -/
  initialised : ∀ front p back, t.marks = front ++ Mark.start p :: back →
    p = .contextBuild ∨ p = .imageBuild →
      (Recorder.ofMarks front).openPhases = [.build] ∧
        (Recorder.ofMarks front).timing? .builderInit = some ⟨.builderInit, true⟩
  context_classic : .start .contextBuild ∈ t.marks →
    ∃ c, .reported (.probe (.ok c)) ∈ t.entries ∧ c.builder = .classic
  /-- There is no context to come when the image starts. -/
  context_first : ∀ front back, t.marks = front ++ Mark.start .imageBuild :: back →
    .start .contextBuild ∉ back

/-- In the whole of a run too there is one place at which the context or the image starts. -/
theorem Course.split {p : Phase} {word : List Entry} (h : Course j n word)
    (hp : .start p ∈ Entry.marks word) (hlater : p = .contextBuild ∨ p = .imageBuild) :
    ∃ (c : Capability) (before after : List Mark), Entry.marks word =
        [Mark.start .build, Mark.start .builderInit, Mark.finish (n + 1)] ++ before ++
          Mark.start p :: after ∧
      Nested (n + 2) before ∧ .start p ∉ before ∧ .start p ∉ after ∧
      .reported (.probe (.ok c)) ∈ word ∧
      (p = .contextBuild → c.builder = .classic) ∧
      (p = .imageBuild → .start .contextBuild ∉ after) := by
  cases h with
  | brief probed => rcases hlater with rfl | rfl <;> simp [Entry.phase] at hp
  | @full c built inner hmaking =>
      have hpushed : ∀ q ≠ .push, Mark.start q ∉
          Entry.marks (pushed (built && j.spec.publish) (n + 2 + Mark.starts (Entry.marks inner))) := by
        intro q hq
        cases built && j.spec.publish <;> simp [pushed, Entry.phase, hq]
      have hinner : .start p ∈ Entry.marks inner := by
        rcases hlater with rfl | rfl <;> simpa [Entry.phase, hpushed] using hp
      obtain ⟨before, after, hmarks, hnested, hbefore, hafter, hclassic, hfirst⟩ := hmaking.split hinner
      refine ⟨c, before, after ++ .finish n :: Entry.marks (pushed (built && j.spec.publish)
        (n + 2 + Mark.starts (Entry.marks inner))), ?_, hnested, hbefore, ?_, by simp [Entry.phase],
        hclassic, fun himage => ?_⟩
      · simp [Entry.phase, hmarks]
      · rcases hlater with rfl | rfl <;> simp [hafter, hpushed]
      · simp [hfirst himage, hpushed]

theorem Course.balanced {word : List Entry} {t : Stage σ} (h : Course j 0 word)
    (hword : t.landmarks = word) : Balanced t := by
  have hmarks : t.marks = Entry.marks word := by rw [Stage.marks_eq, hword]
  have hrecorder : t.recorder = Recorder.ofMarks (Entry.marks word) := hmarks ▸ rfl
  have hnested : Nested 0 (Entry.marks word) := h.nested
  have hreported : ∀ {e}, e ∈ word → e ∈ t.entries := fun he => List.mem_of_mem_filter (hword ▸ he)
  obtain ⟨hfinishes, hopen⟩ := Recorder.ofMarks_nested hnested
  -- A phase starts at one place only, so any place at which it does is the one of `Course.split`.
  have hplace : ∀ {front p back}, t.marks = front ++ Mark.start p :: back →
      p = .contextBuild ∨ p = .imageBuild → ∃ before : List Mark, front =
        [Mark.start .build, Mark.start .builderInit, Mark.finish 1] ++ before ∧ Nested 2 before ∧
        (p = .imageBuild → .start .contextBuild ∉ back) := by
    intro front p back heq hlater
    rw [hmarks] at heq
    obtain ⟨c, before, after, hsplit, hbefore, hnot, hnot', -, -, hfirst⟩ :=
      h.split (p := p) (by simp [heq]) hlater
    rw [hsplit] at heq
    have hnot₀ : Mark.start p ∉
        [Mark.start .build, Mark.start .builderInit, Mark.finish (0 + 1)] ++ before := by
      rcases hlater with rfl | rfl <;> simp [hnot]
    obtain ⟨rfl, -, rfl⟩ := (List.append_cons_inj_of_notMem hnot₀ hnot').1 heq
    exact ⟨before, rfl, hbefore, hfirst⟩
  refine ⟨by rw [hrecorder]; exact hfinishes, by rw [hrecorder]; exact hopen, ?_, ?_, ?_, ?_⟩
  · intro ticket hticket
    rw [hrecorder, Recorder.starts_ofMarks] at hticket
    rw [hmarks, hnested.count_finish, if_pos ⟨Nat.zero_le _, by omega⟩]
  · intro front p back heq hlater
    obtain ⟨before, rfl, hbefore, -⟩ := hplace heq hlater
    exact Recorder.ofMarks_within (by decide) hbefore
  · intro hstart
    obtain ⟨c, -, -, -, -, -, -, hprobe, hclassic, -⟩ := h.split (hmarks ▸ hstart) (.inl rfl)
    exact ⟨c, hreported hprobe, hclassic rfl⟩
  · intro front back heq
    obtain ⟨_, -, -, hfirst⟩ := hplace heq (.inr rfl)
    exact hfirst rfl

/-- Whatever becomes of a run that comes to an end, its phases are finished once each, and start in order. -/
theorem run_balanced (j : Job σ) (s : Stage σ) (hnew : s.journal = []) :
    Leads j.run s fun r t => r ≠ .error .overdue ∧ (r ≠ .error .forever → Balanced t) := by
  have hempty : s.landmarks = [] := by rw [Stage.landmarks, Stage.entries, hnew]; rfl
  refine (j.run_traces 0 s (by rw [Stage.starts_eq, hempty]; rfl)).mono fun r t ht => ⟨ht.1, fun hends => ?_⟩
  obtain ⟨result, word, -, hword, hcourse⟩ | hforever := ht.cases
  · exact hcourse.balanced (by rw [hword, hempty, List.nil_append])
  · exact absurd hforever hends

/-- A daemon that does all it is asked to. -/
def willing : Script where
  ping := { result := .ok () }
  builderKind := { result := .ok .buildKit }
  info := { result := .ok { serverVersion := "27.3.1", osType := "linux", architecture := "x86_64" } }
  build := { reply := { result := .ok [] } }
  solve := { news := [], reply := { result := .ok [(Solve.digestKey, "sha256:abc")] } }
  pushes := []
  lastPush := { result := .ok [] }
  inspect := { result := .ok { id := "sha256:abc", size := 1 } }
  tags := fun _ => { result := .ok [] }
  remove := fun _ => { result := .ok () }

def release : Job Nat where
  daemon := willing.daemon
  settings := {}
  credentials := Registry.CredentialTable.provider []
  fs := Engine.keySystem
  spec := { workDir := ⟨"/app"⟩, tag := "img:1", publish := true }
  patience := 1

theorem release_choice (c : Capability) :
    release.choice c =
      if c.available then .ok (.ready c ⟨"/app/Dockerfile"⟩) else .ok (.skip .daemonUnavailable) := by
  have hlocate : Dockerfile.locate release.fs release.spec.workDir release.spec.dockerfile =
      .ok (some ⟨"/app/Dockerfile"⟩) := by
    have hjoin : (⟨"/app"⟩ : Path).join ⟨"Dockerfile"⟩ = ⟨"/app/Dockerfile"⟩ := by decide
    change Except.ok (List.find? Engine.keySystem.isFile
      [(⟨"/app"⟩ : Path).join ⟨"Dockerfile"⟩, (⟨"/app"⟩ : Path).join ⟨"dockerfile"⟩]) = _
    rw [hjoin, List.find?_cons_of_pos Engine.keySystem_isFile]
  rw [choice, hlocate]
  cases c.available <;> rfl

theorem release_builds : (play release.run { daemon := 0 }).1.toOption =
    some (.built ⟨"sha256:abc", "img:1", 1⟩ none) := by
  rw [run, initialise_eq]
  simp only [release_choice]
  decide +kernel

theorem run_balanced_release :
    ({ daemon := 0 } : Stage Nat).journal = [] ∧
      Leads release.run { daemon := 0 } fun r t =>
        r.toOption = some (.built ⟨"sha256:abc", "img:1", 1⟩ none) ∧ Balanced t := by
  obtain ⟨-, hbalanced⟩ := run_balanced release { daemon := 0 } rfl
  exact ⟨rfl, release_builds, hbalanced fun h => by simpa [h, Except.toOption] using release_builds⟩

/-! ## What the phase of the whole build holds -/

/-- An image was built, and it is to be pushed. -/
def Publishes (j : Job σ) (word : List Entry) : Prop :=
  j.spec.publish = true ∧ ∃ id, .reported (.driver (.ok id)) ∈ word

theorem Imaging.driver_iff (h : Imaging built inner) :
    (∃ id, .reported (.driver (.ok id)) ∈ inner) ↔ built = true := by
  cases h with
  | unasked => simp
  | driven m result => cases result <;> simp [Except.isOk, Except.toBool]

theorem Making.driver_iff (h : Making c n built inner) :
    (∃ id, .reported (.driver (.ok id)) ∈ inner) ↔ built = true := by
  cases h with
  | unpacked hclassic => simp [Entry.phase]
  | session hsession himage => simpa [Entry.phase] using himage.driver_iff
  | classic hclassic himage => simpa [Entry.phase] using himage.driver_iff

/-- A push comes after the phase of the whole build, and nothing else does. -/
theorem Course.marks_eq {word : List Entry} (h : Course j n word) :
    ∃ inner : List Mark, Nested (n + 1) inner ∧
      ((¬j.Publishes word ∧ Entry.marks word = Mark.start .build :: inner ++ [Mark.finish n]) ∨
        (j.Publishes word ∧ Entry.marks word = Mark.start .build :: inner ++
          [Mark.finish n, Mark.start .push, Mark.finish (n + 1 + Mark.starts inner)])) := by
  cases h with
  | brief probed =>
      refine ⟨_, nested_phase .builderInit (.nil _), .inl ⟨?_, Entry.marks_phase _ _ _⟩⟩
      rintro ⟨-, id, hid⟩
      simp [Entry.phase] at hid
  | @full c built inner hmaking =>
      have hpublishes : j.Publishes (Entry.phase .build n
          (Entry.phase .builderInit (n + 1) [.reported (.probe (.ok c))] ++ inner) ++
            pushed (built && j.spec.publish) (n + 2 + Mark.starts (Entry.marks inner))) ↔
          (built && j.spec.publish) = true := by
        rw [Publishes, Bool.and_eq_true, and_comm, ← hmaking.driver_iff]
        cases built && j.spec.publish <;> simp [Entry.phase, pushed]
      refine ⟨_, hmaking.nested_build (.probe (.ok c)), ?_⟩
      rw [hpublishes, Entry.marks_append, Entry.marks_phase]
      cases built && j.spec.publish with
      | false => exact .inl ⟨by simp, by simp [pushed]⟩
      | true =>
          refine .inr ⟨rfl, ?_⟩
          simp [pushed, Entry.phase, Mark.isStart]
          omega

/-- The phases of a run nest, and that of the whole build comes first, but it encloses the others only if
nothing is pushed. -/
theorem run_encloses_iff (j : Job σ) (s : Stage σ) :
    Leads j.run s fun r t => r ≠ .error .forever → ∃ word, t.landmarks = s.landmarks ++ word ∧
      Nested s.recorder.starts (Entry.marks word) ∧
      (Entry.marks word).head? = some (.start .build) ∧
      (Encloses s.recorder.starts .build (Entry.marks word) ↔ ¬j.Publishes word) ∧
      (j.Publishes word → ∃ inner, Nested (s.recorder.starts + 1) inner ∧
        Entry.marks word = Mark.start .build :: inner ++
          [Mark.finish s.recorder.starts, Mark.start .push,
            Mark.finish (s.recorder.starts + 1 + Mark.starts inner)]) := by
  refine (j.run_traces _ s rfl).mono fun r t ht hends => ?_
  obtain ⟨result, word, rfl, hword, hcourse⟩ | rfl := ht.cases
  · refine ⟨word, hword, hcourse.nested, ?_⟩
    obtain ⟨inner, hinner, ⟨hnot, hmarks⟩ | ⟨hpublishes, hmarks⟩⟩ := hcourse.marks_eq
    · refine ⟨by rw [hmarks]; rfl, iff_of_true ⟨inner, hinner, hmarks⟩ hnot, fun h => absurd h hnot⟩
    · refine ⟨by rw [hmarks]; rfl, iff_of_false ?_ (fun h => h hpublishes),
        fun _ => ⟨inner, hinner, hmarks⟩⟩
      -- The last phase to finish would have the ticket of the first.
      intro hencloses
      have hlast := hencloses.getLast?_eq
      rw [hmarks, List.getLast?_append_of_ne_nil _ (by simp)] at hlast
      have hticket : s.recorder.starts + 1 + Mark.starts inner = s.recorder.starts := by
        simpa using hlast
      omega
  · exact absurd rfl hends

theorem release_marks : (play release.run { daemon := 0 }).2.marks =
    [.start .build, .start .builderInit, .finish 1, .start .imageBuild,
      .describe ⟨true, false, "27.3.1", "linux/x86_64/"⟩, .finish 2, .finish 0, .start .push,
      .finish 3] := by
  rw [run, initialise_eq]
  simp only [release_choice]
  decide +kernel

/-- The run succeeds, and pushes its image when the phase of the whole build is over. -/
theorem release_not_enclosed :
    Leads release.run { daemon := 0 } fun r t =>
      r.toOption = some (.built ⟨"sha256:abc", "img:1", 1⟩ none) ∧ ¬Encloses 0 .build t.marks := by
  refine ⟨release_builds, fun h => ?_⟩
  have hlast := h.getLast?_eq
  rw [release_marks] at hlast
  cases hlast

end Job
end ImageBuild
