import ImageBuild.Pipeline
import ImageBuild.Proofs.Stage.Questions
/-!
# The order of a build

The steps of a build form a word: the calls of the daemon, and between them the reports of how the
parts of the build came out.  A lawful word keeps to an order, in which only pushes and removals are
repeated, and each of its steps is warranted by the steps before it.
-/

namespace ImageBuild

namespace Entry

/-- The place of a step in the order of a build. -/
def rank : Entry → Nat
  | called _ .ping => 1
  | reported (.ping _) => 2
  | called _ .builderKind => 3
  | reported (.probe _) => 4
  | called _ .info => 5
  | reported (.info _) => 6
  | called _ (.build _ _) => 7
  | called _ (.solve _) => 7
  | reported (.driver _) => 8
  | called _ (.push _ _) => 9
  | reported (.push _) => 10
  | called _ (.inspect _) => 11
  | called _ (.tags _) => 12
  | called _ (.remove _) => 13
  | _ => 0

/-- Whether there may be more than one step of this kind. -/
def repeats : Entry → Bool
  | called _ (.push _ _) => true
  | called _ (.remove _) => true
  | _ => false

theorem rank_of_repeats {y : Entry} (h : y.repeats = true) : y.rank = 9 ∨ y.rank = 13 := by
  rcases y with ⟨_, c⟩ | _ | _ | _ | _ | r
  · cases c <;> first | exact .inl rfl | exact .inr rfl | cases h
  all_goals cases h

def Precedes (a b : Entry) : Prop :=
  a.rank < b.rank ∨ a.rank = b.rank ∧ b.repeats = true

end Entry

variable {σ α : Type}

namespace Daemon

def step (d : Daemon σ) (x : σ) : Call → σ
  | .ping => (d.ping x).2
  | .builderKind => (d.builderKind x).2
  | .info => (d.info x).2
  | .build request _ => (d.build request x).2
  | .solve request => (d.solve request x).2
  | .push tag credentials => (d.push tag credentials x).2
  | .inspect reference => (d.inspect reference x).2
  | .tags reference => (d.tags reference x).2
  | .remove tag => (d.remove tag x).2

def heed (d : Daemon σ) (x : σ) : Entry → σ
  | .called _ c => d.step x c
  | _ => x

/-- The state of a daemon after all calls of a word. -/
def after (d : Daemon σ) (x : σ) (word : List Entry) : σ := word.foldl d.heed x

theorem after_concat (d : Daemon σ) (x : σ) (word : List Entry) (y : Entry) :
    d.after x (word ++ [y]) = d.heed (d.after x word) y := by
  rw [after, after, List.foldl_append]
  rfl

/-- A word ends in a call of the daemon, and this is what comes of the reply in the time for it. -/
def Answers (d : Daemon σ) (x : σ) (word : List Entry) (c : Call) (f : σ → Reply α × σ)
    (timeout : Nat) (result : Except BuildError α) : Prop :=
  ∃ front m, word = front ++ [.called m c] ∧ (f (d.after x front)).1.inTime timeout = result

end Daemon

namespace Job

/-- What must have come before a step of a build that begins on a stage. -/
def Warrant (j : Job σ) (s₀ : Stage σ) (front : List Entry) : Entry → Prop
  | .called _ .ping => True
  | .reported (.ping result) =>
    (∃ m, front = [.called m .ping]) ∧
        (j.daemon.ping s₀.daemon).1.inTime j.settings.probeTimeout = result ∨
      result = .error .cancelled ∧
        s₀.Leaves j.settings.probeTimeout (j.daemon.ping s₀.daemon).1.pace
  | .called _ .builderKind => .reported (.ping (.ok ())) ∈ front
  | .reported (.probe (.ok c)) =>
    if c.available then
      .reported (.ping (.ok ())) ∈ front ∧ c.remote = j.daemon.isRemote ∧
        ∃ kind, j.daemon.Answers s₀.daemon front .builderKind j.daemon.builderKind
            j.settings.infoTimeout (.ok kind) ∧
          Probe.sessionSupported j.settings kind = .ok c.sessionSupported
    else ∃ e, e ≠ .cancelled ∧ .reported (.ping (.error e)) ∈ front
  | .reported (.probe (.error _)) =>
    .reported (.ping (.ok ())) ∈ front ∨ .reported (.ping (.error .cancelled)) ∈ front
  | .called _ .info =>
    ∃ c dockerfile, .reported (.probe (.ok c)) ∈ front ∧ c.available = true ∧
      Dockerfile.locate j.fs j.spec.workDir j.spec.dockerfile = .ok (some dockerfile) ∧
      (c.builder = .classic →
        ∃ context, Context.package j.fs dockerfile j.spec c.remote = .ok context)
  | .reported (.info (.ok info)) =>
    j.daemon.Answers s₀.daemon front .info j.daemon.info j.settings.infoTimeout (.ok info)
  | .called _ (.build _ _) =>
    (∃ info, .reported (.info (.ok info)) ∈ front) ∧
      ∃ c, .reported (.probe (.ok c)) ∈ front ∧ c.builder = .classic
  | .called _ (.solve _) =>
    (∃ info, .reported (.info (.ok info)) ∈ front) ∧
      ∃ c, .reported (.probe (.ok c)) ∈ front ∧ c.builder = .session
  | .reported (.driver (.ok _)) => ∃ m c, .called m c ∈ front ∧ (Entry.called m c).rank = 7
  | .called _ (.push tag credentials) =>
    j.spec.publish = true ∧ (∃ id, .reported (.driver (.ok id)) ∈ front) ∧
      j.credentials.forImage j.spec.tag = .ok credentials ∧ tag = j.spec.tag ∧
      Registry.checkTag (Registry.nameAndTag tag).2 = .ok ()
  | .reported (.push (.ok _)) => ∃ m c, .called m c ∈ front ∧ (Entry.called m c).rank = 9
  | .called _ (.inspect id) =>
    .reported (.driver (.ok id)) ∈ front ∧
      (j.spec.publish = true → .reported (.push (.ok ())) ∈ front)
  | .called _ (.tags reference) => reference = j.spec.tag
  | .called _ (.remove _) => ∃ m, .called m (.tags j.spec.tag) ∈ front
  | .reported _ => True
  | _ => False

/-- The steps come in their order, and each has its warrant. -/
structure Lawful (j : Job σ) (s₀ : Stage σ) (word : List Entry) : Prop where
  order : word.Pairwise Entry.Precedes
  warrant : ∀ front y back, word = front ++ y :: back → j.Warrant s₀ front y

namespace Lawful

variable {j : Job σ} {s₀ : Stage σ} {word : List Entry} {a b y : Entry}

theorem nil (j : Job σ) (s₀ : Stage σ) : j.Lawful s₀ [] where
  order := .nil
  warrant := fun front y back h => by simp at h

theorem concat (h : j.Lawful s₀ word) (horder : ∀ a ∈ word, a.Precedes y)
    (hwarrant : j.Warrant s₀ word y) : j.Lawful s₀ (word ++ [y]) := by
  constructor
  · rw [List.pairwise_append]
    refine ⟨h.order, List.pairwise_singleton Entry.Precedes y, fun a ha b hb => ?_⟩
    obtain rfl := List.mem_singleton.1 hb
    exact horder a ha
  · intro front z back hword
    -- The step that is looked at is the new one or stands before it.
    rcases List.eq_nil_or_concat back with rfl | ⟨init, last, rfl⟩
    · obtain ⟨rfl, hlast⟩ := List.append_inj' hword rfl
      obtain rfl := List.singleton_inj.1 hlast
      exact hwarrant
    · rw [List.concat_eq_append, ← List.cons_append, ← List.append_assoc] at hword
      exact h.warrant front z init (List.append_inj' hword rfl).1

/-- All but pushes and removals happens at most once. -/
theorem length_filter_rank_le_one (h : j.Lawful s₀ word) {k : Nat} (hpush : k ≠ 9)
    (hremove : k ≠ 13) : (word.filter fun y => y.rank = k).length ≤ 1 := by
  have hnever : (word.filter fun y => y.rank = k).Pairwise fun _ _ => False := by
    refine List.Pairwise.imp_of_mem (fun {a b} ha hb hprecedes => ?_) (h.order.filter _)
    have hrank : a.rank = k := by simpa using (List.mem_filter.1 ha).2
    have hrank' : b.rank = k := by simpa using (List.mem_filter.1 hb).2
    rcases hprecedes with hlt | ⟨-, hrepeats⟩
    · omega
    · rcases Entry.rank_of_repeats hrepeats with hb | hb <;> omega
  cases hfound : word.filter fun y => y.rank = k with
  | nil => exact Nat.zero_le 1
  | cons first rest =>
      cases rest with
      | nil => exact Nat.le_refl 1
      | cons second rest =>
          rw [hfound] at hnever
          exact ((List.pairwise_cons.1 hnever).1 second List.mem_cons_self).elim

theorem eq_of_rank_eq (h : j.Lawful s₀ word) (ha : a ∈ word) (hb : b ∈ word)
    (hrank : a.rank = b.rank) (hpush : b.rank ≠ 9) (hremove : b.rank ≠ 13) : a = b := by
  have ha' : a ∈ word.filter fun y => y.rank = b.rank := List.mem_filter.2 ⟨ha, by simpa using hrank⟩
  have hb' : b ∈ word.filter fun y => y.rank = b.rank := List.mem_filter.2 ⟨hb, by simp⟩
  have hone := h.length_filter_rank_le_one hpush hremove
  obtain ⟨y, hy⟩ := List.length_eq_one_iff.1
    (Nat.le_antisymm hone (List.length_pos_of_mem ha'))
  rw [hy] at ha' hb'
  exact (List.mem_singleton.1 ha').trans (List.mem_singleton.1 hb').symm

theorem exists_front (h : j.Lawful s₀ word) (hy : y ∈ word) :
    ∃ front, front ⊆ word ∧ j.Warrant s₀ front y := by
  obtain ⟨front, back, rfl⟩ := List.append_of_mem hy
  exact ⟨front, List.subset_append_left front _, h.warrant front y back rfl⟩

end Lawful
end Job
end ImageBuild
