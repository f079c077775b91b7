import ImageBuild.Text.Utf8

/-!
# ASCII characters of a lossy reading

A byte string that is read with replacements holds an ASCII character only
where the byte of this character stands: the longer forms and the replacement
character lie beyond ASCII.  So a file name has a slash or a dot in its text
only where it has one in its bytes.
-/

namespace ImageBuild.Text.Utf8

theorem toNat_ofNat_eq_or_zero (n : Nat) :
    (Char.ofNat n).toNat = n ∨ (Char.ofNat n).toNat = 0 := by
  by_cases hn : n.isValidChar
  · left
    rw [Char.ofNat, dif_pos hn]
    rfl
  · right
    rw [Char.ofNat, dif_neg hn]
    rfl

/-- A leading byte of three or four bytes and its second byte make up at least
seven bits together. -/
theorem second_bits {lead b : UInt8} (h : isSecond lead b = true) :
    (lead.toNat = 0xE0 → 0x20 ≤ b.toNat % 64) ∧ (lead.toNat = 0xF0 → 0x10 ≤ b.toNat % 64) := by
  have hb := b.toNat_lt
  refine ⟨fun hlead => ?_, fun hlead => ?_⟩
  · have hlead' : lead = 0xE0 := UInt8.toNat_inj.1 hlead
    subst hlead'
    have hle : 0xA0 ≤ b.toNat ∧ b.toNat ≤ 0xBF := by
      simpa [isSecond, secondBytes, UInt8.le_iff_toNat_le] using h
    omega
  · have hlead' : lead = 0xF0 := UInt8.toNat_inj.1 hlead
    subst hlead'
    have hle : 0x90 ≤ b.toNat ∧ b.toNat ≤ 0xBF := by
      simpa [isSecond, secondBytes, UInt8.le_iff_toNat_le] using h
    omega

/-- A sequence of one byte is an ASCII character, and a longer one has more
than seven bits. -/
theorem scan_char {lead : UInt8} {rest : List UInt8} {c : Char} {width : Nat} :
    scan lead rest = .char c width →
      (width = 0 ∧ c = Char.ofNat lead.toNat) ∨ ∃ n, 0x80 ≤ n ∧ c = Char.ofNat n := by
  fun_cases scan lead rest with
  | case1 =>
      rintro ⟨⟩
      exact .inl ⟨rfl, rfl⟩
  | case3 _ htwo =>
      rintro ⟨⟩
      refine .inr ⟨_, ?_, rfl⟩
      simp only [UInt8.le_iff_toNat_le, UInt8.reduceToNat] at htwo
      simp only [List.foldl]
      omega
  | case7 _ _ hthree b hb =>
      rintro ⟨⟩
      refine .inr ⟨_, ?_, rfl⟩
      have hbits := (second_bits hb).1
      simp only [UInt8.le_iff_toNat_le, UInt8.reduceToNat] at hthree
      simp only [List.foldl]
      omega
  | case13 _ _ _ hfour b hb =>
      rintro ⟨⟩
      refine .inr ⟨_, ?_, rfl⟩
      have hbits := (second_bits hb).2
      simp only [UInt8.le_iff_toNat_le, UInt8.reduceToNat] at hfour
      simp only [List.foldl]
      omega
  | _ => rintro ⟨⟩

theorem scan_ascii {lead : UInt8} {rest : List UInt8} {c : Char} {width : Nat}
    (h : scan lead rest = .char c width) (hpos : 0 < c.toNat) (hc : c.toNat < 0x80) :
    width = 0 ∧ lead.toNat = c.toNat := by
  rcases scan_char h with ⟨hwidth, rfl⟩ | ⟨n, hn, rfl⟩
  · rcases toNat_ofNat_eq_or_zero lead.toNat with heq | hzero
    · exact ⟨hwidth, heq.symm⟩
    · omega
  · rcases toNat_ofNat_eq_or_zero n with heq | hzero <;> omega

theorem eq_nil_of_decodeLossy {bytes : List UInt8} : decodeLossy bytes = [] → bytes = [] := by
  fun_cases decodeLossy bytes with
  | case1 => exact fun _ => rfl
  | _ => exact fun h => absurd h (List.cons_ne_nil _ _)

theorem ne_replacement {c : Char} (hc : c.toNat < 0x80) : c ≠ replacement := by
  rintro rfl
  exact absurd hc (by decide)

/-- An ASCII character in a lossy reading stands in the bytes too. -/
theorem mem_of_mem_decodeLossy {bytes : List UInt8} {b : UInt8} {c : Char}
    (hb : b.toNat = c.toNat) (hpos : 0 < c.toNat) (hc : c.toNat < 0x80) :
    c ∈ decodeLossy bytes → b ∈ bytes := by
  fun_induction decodeLossy bytes with
  | case1 => exact fun h => absurd h List.not_mem_nil
  | case2 lead rest d width hscan ih =>
      intro h
      rcases List.mem_cons.1 h with rfl | hrest
      · have hlead : b = lead := UInt8.toNat_inj.1 (hb.trans (scan_ascii hscan hpos hc).2.symm)
        exact hlead ▸ List.mem_cons_self
      · exact List.mem_cons_of_mem lead (List.mem_of_mem_drop (ih hrest))
  | case3 lead rest width hscan ih =>
      intro h
      rcases List.mem_cons.1 h with heq | hrest
      · exact absurd heq (ne_replacement hc)
      · exact List.mem_cons_of_mem lead (List.mem_of_mem_drop (ih hrest))
  | case4 => exact fun h => absurd (List.mem_singleton.1 h) (ne_replacement hc)

theorem eq_singleton_of_decodeLossy {bytes : List UInt8} {b : UInt8} {c : Char}
    (hb : b.toNat = c.toNat) (hpos : 0 < c.toNat) (hc : c.toNat < 0x80) :
    decodeLossy bytes = [c] → bytes = [b] := by
  fun_cases decodeLossy bytes with
  | case1 => exact fun h => absurd h.symm (List.cons_ne_nil c [])
  | case2 lead rest d width hscan =>
      intro h
      obtain ⟨rfl, hrest⟩ := List.cons.inj h
      obtain ⟨rfl, hlead⟩ := scan_ascii hscan hpos hc
      have hnil : rest = [] := eq_nil_of_decodeLossy (by simpa using hrest)
      rw [hnil, UInt8.toNat_inj.1 (hlead.trans hb.symm)]
  | case3 => exact fun h => absurd (List.cons.inj h).1.symm (ne_replacement hc)
  | case4 => exact fun h => absurd (List.cons.inj h).1.symm (ne_replacement hc)

end ImageBuild.Text.Utf8
