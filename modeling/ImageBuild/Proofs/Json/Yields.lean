import ImageBuild.Json.Record
/-!
# What readers give

A reader gives only values of some kind.  For a record this is an invariant of the record that is
being read: the blank one has it, and no field loses it, in whatever order the fields come.
-/

namespace ImageBuild.Json

variable {α β σ : Type}

theorem members_keeps {P : σ → Prop} {close : Char} {member : σ → List Char → Parsed σ}
    (hmember : ∀ s cs s' rest, P s → member s cs = .ok (s', rest) → P s') (fuel : Nat) :
    ∀ s cs s' rest, P s → members close member fuel s cs = .ok (s', rest) → P s' := by
  induction fuel with
  | zero =>
      intro s cs s' rest _ h
      cases h
  | succ fuel ih =>
      intro s cs s' rest hs h
      rw [members] at h
      cases hread : member s cs with
      | error f => rw [hread] at h; cases h
      | ok read =>
          obtain ⟨t, after⟩ := read
          have ht := hmember s cs t after hs hread
          rw [hread] at h
          simp only [bind, Except.bind, pure, Except.pure, throw, throwThe, MonadExceptOf.throw]
            at h
          split at h
          · split at h
            · cases h
            · exact ih _ _ _ _ ht h
          · split at h
            · cases h
              exact ht
            · cases h
          · cases h

theorem container_keeps {P : σ → Prop} {close : Char} {member : σ → List Char → Parsed σ}
    (hmember : ∀ s cs s' rest, P s → member s cs = .ok (s', rest) → P s') {fuel : Nat} {s s' : σ}
    {cs rest : List Char} (hs : P s) (h : container close member fuel s cs = .ok (s', rest)) :
    P s' := by
  rw [container] at h
  split at h
  · cases h
  · split at h
    · cases h
      exact hs
    · exact members_keeps hmember fuel _ _ _ _ hs h

theorem mem_keys_lastOfEach {k : String} {entries : List (String × α)}
    (h : k ∈ (lastOfEach entries).map Prod.fst) : k ∈ entries.map Prod.fst := by
  induction entries with
  | nil => exact h
  | cons e es ih =>
      rw [lastOfEach] at h
      split at h
      · exact List.mem_cons_of_mem _ (ih h)
      · rcases List.mem_cons.1 h with rfl | h
        · exact List.mem_cons_self
        · exact List.mem_cons_of_mem _ (ih h)

theorem nodup_keys_lastOfEach (entries : List (String × α)) :
    ((lastOfEach entries).map Prod.fst).Nodup := by
  induction entries with
  | nil => exact List.nodup_nil
  | cons e es ih =>
      rw [lastOfEach]
      split
      · exact ih
      · rename_i hlast
        rw [List.map_cons, List.nodup_cons]
        refine ⟨fun hmem => hlast ?_, ih⟩
        obtain ⟨p, hp, hkey⟩ := List.mem_map.1 (mem_keys_lastOfEach hmem)
        exact List.any_eq_true.2 ⟨p, hp, beq_iff_eq.2 hkey⟩

/-- Whatever the reader reads is such a value. -/
def Reader.Yields (r : Reader α) (P : α → Prop) : Prop :=
  ∀ ⦃b cs a rest⦄, r b cs = .ok (a, rest) → P a

theorem Reader.refuse_yields (P : α → Prop) : (Reader.refuse (α := α)).Yields P := by
  intro b cs a rest h
  simp only [Reader.refuse, Reader.choose, bind, Except.bind] at h
  split at h <;> cases h

/-- A table has each key once. -/
theorem Reader.table_yields (r : Reader α) :
    r.table.Yields fun entries => (entries.map Prod.fst).Nodup := by
  intro b cs entries rest h
  rw [Reader.table] at h
  split at h
  · cases hinside : b.inside with
    | error f => rw [hinside] at h; cases h
    | ok inside =>
        rw [hinside] at h
        simp only [bind, Except.bind] at h
        split at h
        · cases h
        · cases h
          exact nodup_keys_lastOfEach _
  · exact Reader.refuse_yields (fun entries => (entries.map Prod.fst).Nodup) h

theorem Reader.map_yields {r : Reader α} {P : α → Prop} {Q : β → Prop} {f : α → β}
    (hr : r.Yields P) (hf : ∀ a, P a → Q (f a)) : (r.map f).Yields Q := by
  intro b cs a rest h
  rw [Reader.map] at h
  cases hread : r b cs with
  | error f => rw [hread] at h; cases h
  | ok read =>
      rw [hread] at h
      cases h
      exact hf _ (hr hread)

/-- No value of the field takes `P` from a record. -/
def Field.Keeps (f : Field σ) (P : σ → Prop) : Prop :=
  f.reader.Yields fun update => ∀ s, P s → P (update s)

theorem Field.defaulted_keeps {r : Reader α} {Q : α → Prop} {P : σ → Prop} {name : String}
    {set : α → σ → σ} (hr : r.Yields Q) (hset : ∀ a, Q a → ∀ s, P s → P (set a s)) :
    (Field.defaulted name r set).Keeps P :=
  Reader.map_yields hr hset

theorem Record.entry_keeps {fields : List (Field σ)} {P : σ → Prop}
    (hfields : ∀ f ∈ fields, f.Keeps P) {b : Budget} {s s' : Record.Partial σ}
    {cs rest : List Char} (hs : P s.1) (h : Record.entry fields b s cs = .ok (s', rest)) :
    P s'.1 := by
  simp only [Record.entry, bind, Except.bind, pure, Except.pure, throw, throwThe,
    MonadExceptOf.throw] at h
  split at h
  · split at h
    · cases h
    · split at h
      · -- A field with another key is skipped.
        repeat' split at h
        all_goals cases h
        exact hs
      · rename_i f hfind
        repeat' split at h
        all_goals cases h
        rename_i hread
        exact hfields f (List.mem_of_find?_eq_some hfind) hread _ hs
  · cases h

theorem Record.items_keeps {P : σ → Prop} {b : Budget} {fields : List (Field σ)}
    (hfields : ∀ f ∈ fields, f.Keeps P) : ∀ {isFirst : Bool} {s s' : σ} {cs rest : List Char},
    P s → Record.items b isFirst fields s cs = .ok (s', rest) → P s' := by
  induction fields with
  | nil =>
      intro isFirst s s' cs rest hs h
      rw [Record.items] at h
      split at h <;> cases h
      exact hs
  | cons f fields ih =>
      intro isFirst s s' cs rest hs h
      have htail := fun g hg => hfields g (List.mem_cons_of_mem f hg)
      have hitem (cs' : List Char) (hcs : ((f.reader b cs').bind fun read =>
          Record.items b false fields (read.1 s) read.2) = .ok (s', rest)) : P s' := by
        cases hread : f.reader b cs' with
        | error fault => rw [hread] at hcs; cases hcs
        | ok read =>
            rw [hread] at hcs
            exact ih htail (hfields f List.mem_cons_self hread s hs) hcs
      simp only [Record.items, bind, pure, Except.pure, throw, throwThe, MonadExceptOf.throw] at h
      split at h
      · cases h
      · split at h
        · exact ih htail hs h
        · cases h
      · repeat' split at h
        all_goals first
          | exact hitem _ h
          | cases h

/-- What holds of the blank record and is lost by no field holds of every record that is read. -/
theorem Reader.record_yields {P : σ → Prop} {fields : List (Field σ)} {blank : σ}
    (hblank : P blank) (hfields : ∀ f ∈ fields, f.Keeps P) :
    (Reader.record fields blank).Yields P := by
  intro b cs s rest h
  simp only [Reader.record, bind, Except.bind, pure, Except.pure, throw, throwThe,
    MonadExceptOf.throw] at h
  split at h
  · split at h
    · cases h
    · exact Record.items_keeps hfields hblank h
  · split at h
    · cases h
    · split at h
      · cases h
      · rename_i hread
        split at h <;> cases h
        exact container_keeps (P := fun p => P p.1)
          (fun s cs s' rest => Record.entry_keeps hfields) hblank hread
  · exact Reader.refuse_yields P h

theorem Reader.readText_yields {r : Reader α} {P : α → Prop} (hr : r.Yields P) {s : String} {a : α}
    (h : r.readText s = .ok a) : P a := by
  simp only [Reader.readText, Reader.readChars, bind, Except.bind, pure, Except.pure, throw,
    throwThe, MonadExceptOf.throw] at h
  split at h
  · cases h
  · rename_i hread
    split at h <;> cases h
    exact hr hread

end ImageBuild.Json
