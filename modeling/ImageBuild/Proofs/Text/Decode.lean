import ImageBuild.Proofs.Text.Encode
import ImageBuild.Proofs.Text.Utf8
/-!
# Encoding again what is read

The bounds on the second byte of a sequence leave one sequence for each character: what is read from bytes is
encoded in those bytes again.
-/

namespace ImageBuild.Text.Utf8

/-! ## The bytes of a character -/

section

variable {a b d e : UInt8} {c : Char}

theorem encodeChar_one (hlo : c.toNat < 0x80) (ha : c.toNat = a.toNat) :
    String.utf8EncodeChar c = [a] := by
  rw [String.utf8EncodeChar]
  change (if c.toNat ≤ 0x7f then [UInt8.ofNat c.toNat] else _) = _
  rw [if_pos (by omega), ha, UInt8.ofNat_toNat]

theorem encodeChar_two (hlo : 0x80 ≤ c.toNat) (hhi : c.toNat < 0x800)
    (ha : c.toNat / 64 + 0xC0 = a.toNat) (hb : c.toNat % 64 + 0x80 = b.toNat) :
    String.utf8EncodeChar c = [a, b] := by
  rw [String.utf8EncodeChar]
  change (if c.toNat ≤ 0x7f then _ else if c.toNat ≤ 0x7ff then
    [UInt8.ofNat (c.toNat / 64 % 32 + 0xc0), UInt8.ofNat (c.toNat % 64 + 0x80)] else _) = _
  rw [if_neg (by omega), if_pos (by omega), Nat.mod_eq_of_lt (a := c.toNat / 64) (by omega), ha, hb,
    UInt8.ofNat_toNat, UInt8.ofNat_toNat]

theorem encodeChar_three (hlo : 0x800 ≤ c.toNat) (hhi : c.toNat < 0x10000)
    (ha : c.toNat / 4096 + 0xE0 = a.toNat) (hb : c.toNat / 64 % 64 + 0x80 = b.toNat)
    (hd : c.toNat % 64 + 0x80 = d.toNat) : String.utf8EncodeChar c = [a, b, d] := by
  rw [String.utf8EncodeChar]
  change (if c.toNat ≤ 0x7f then _ else if c.toNat ≤ 0x7ff then _ else if c.toNat ≤ 0xffff then
    [UInt8.ofNat (c.toNat / 4096 % 16 + 0xe0), UInt8.ofNat (c.toNat / 64 % 64 + 0x80),
      UInt8.ofNat (c.toNat % 64 + 0x80)] else _) = _
  rw [if_neg (by omega), if_neg (by omega), if_pos (by omega),
    Nat.mod_eq_of_lt (a := c.toNat / 4096) (by omega), ha, hb, hd, UInt8.ofNat_toNat, UInt8.ofNat_toNat,
    UInt8.ofNat_toNat]

theorem encodeChar_four (hlo : 0x10000 ≤ c.toNat) (hhi : c.toNat < 0x110000)
    (ha : c.toNat / 262144 + 0xF0 = a.toNat) (hb : c.toNat / 4096 % 64 + 0x80 = b.toNat)
    (hd : c.toNat / 64 % 64 + 0x80 = d.toNat) (he : c.toNat % 64 + 0x80 = e.toNat) :
    String.utf8EncodeChar c = [a, b, d, e] := by
  rw [String.utf8EncodeChar]
  change (if c.toNat ≤ 0x7f then _ else if c.toNat ≤ 0x7ff then _ else if c.toNat ≤ 0xffff then _ else
    [UInt8.ofNat (c.toNat / 262144 % 8 + 0xf0), UInt8.ofNat (c.toNat / 4096 % 64 + 0x80),
      UInt8.ofNat (c.toNat / 64 % 64 + 0x80), UInt8.ofNat (c.toNat % 64 + 0x80)]) = _
  rw [if_neg (by omega), if_neg (by omega), if_neg (by omega),
    Nat.mod_eq_of_lt (a := c.toNat / 262144) (by omega), ha, hb, hd, he, UInt8.ofNat_toNat,
    UInt8.ofNat_toNat, UInt8.ofNat_toNat, UInt8.ofNat_toNat]

end

/-! ## One sequence -/

theorem toNat_ofNat_of_valid {n : Nat} (h : n < 0xD800 ∨ 0xDFFF < n ∧ n < 0x110000) :
    (Char.ofNat n).toNat = n := by
  rw [Char.ofNat, dif_pos h]
  rfl

theorem bounds_of_isContinuation {b : UInt8} (h : isContinuation b = true) :
    0x80 ≤ b.toNat ∧ b.toNat ≤ 0xBF := by
  simpa [isContinuation, UInt8.le_iff_toNat_le] using h

theorem bounds_of_isSecond {lead b : UInt8} (h : isSecond lead b = true) :
    (0x80 ≤ b.toNat ∧ b.toNat ≤ 0xBF) ∧ (lead.toNat = 0xE0 → 0xA0 ≤ b.toNat) ∧
      (lead.toNat = 0xED → b.toNat ≤ 0x9F) ∧ (lead.toNat = 0xF0 → 0x90 ≤ b.toNat) ∧
        (lead.toNat = 0xF4 → b.toNat ≤ 0x8F) := by
  rw [isSecond, secondBytes] at h
  split_ifs at h with h₁ h₂ h₃ h₄ <;> simp only [← UInt8.toNat_inj, UInt8.reduceToNat] at * <;>
    simp [UInt8.le_iff_toNat_le] at h <;> omega

/-- A character that is found at the front of bytes is encoded there. -/
theorem encodeChar_of_scan {lead : UInt8} {rest : List UInt8} {c : Char} {width : Nat} :
    scan lead rest = .char c width →
      lead :: rest = String.utf8EncodeChar c ++ rest.drop width := by
  fun_cases scan lead rest with
  | case1 =>
      rintro ⟨⟩
      have hlead : lead.toNat < 0x80 := UInt8.lt_iff_toNat_lt.1 ‹lead < 0x80›
      have hc := toNat_ofNat_of_valid (n := lead.toNat) (.inl (by omega))
      rw [encodeChar_one (a := lead) (by omega) hc]
      rfl
  | case3 _ htwo b later hb =>
      rintro ⟨⟩
      simp only [UInt8.le_iff_toNat_le, UInt8.reduceToNat] at htwo
      have hb := bounds_of_isContinuation hb
      have hc : (assemble (lead.toNat % 32) [b]).toNat = lead.toNat % 32 * 64 + b.toNat % 64 :=
        toNat_ofNat_of_valid (n := lead.toNat % 32 * 64 + b.toNat % 64) (by omega)
      rw [encodeChar_two (a := lead) (b := b) (by omega) (by omega) (by omega) (by omega)]
      rfl
  | case7 _ _ hthree b hb d later hd =>
      rintro ⟨⟩
      simp only [UInt8.le_iff_toNat_le, UInt8.reduceToNat] at hthree
      have hb := bounds_of_isSecond hb
      have hd := bounds_of_isContinuation hd
      have hc : (assemble (lead.toNat % 16) [b, d]).toNat =
          (lead.toNat % 16 * 64 + b.toNat % 64) * 64 + d.toNat % 64 :=
        toNat_ofNat_of_valid (n := (lead.toNat % 16 * 64 + b.toNat % 64) * 64 + d.toNat % 64) (by omega)
      rw [encodeChar_three (a := lead) (b := b) (d := d) (by omega) (by omega) (by omega)
        (by omega) (by omega)]
      rfl
  | case13 _ _ _ hfour b hb d hd e later he =>
      rintro ⟨⟩
      simp only [UInt8.le_iff_toNat_le, UInt8.reduceToNat] at hfour
      have hb := bounds_of_isSecond hb
      have hd := bounds_of_isContinuation hd
      have he := bounds_of_isContinuation he
      have hc : (assemble (lead.toNat % 8) [b, d, e]).toNat =
          ((lead.toNat % 8 * 64 + b.toNat % 64) * 64 + d.toNat % 64) * 64 + e.toNat % 64 :=
        toNat_ofNat_of_valid
          (n := ((lead.toNat % 8 * 64 + b.toNat % 64) * 64 + d.toNat % 64) * 64 + e.toNat % 64) (by omega)
      rw [encodeChar_four (a := lead) (b := b) (d := d) (e := e) (by omega) (by omega)
        (by omega) (by omega) (by omega) (by omega)]
      rfl
  | _ => rintro ⟨⟩

/-! ## Whole inputs -/

theorem encode_of_decodeFrom {index : Nat} {bytes : List UInt8} {cs : List Char} :
    decodeFrom index bytes = .ok cs → encode cs = bytes := by
  fun_induction decodeFrom index bytes generalizing cs with
  | case1 =>
      rintro ⟨⟩
      rfl
  | case2 index lead rest c width hscan ih =>
      intro h
      cases htail : decodeFrom (index + width + 1) (rest.drop width) with
      | error f => simp [htail, Except.map] at h
      | ok tail =>
          simp only [htail, Except.map, Except.ok.injEq] at h
          rw [← h, encodeChar_of_scan hscan, ← ih htail]
          rfl
  | case3 => rintro ⟨⟩
  | case4 => rintro ⟨⟩

/-- The bytes of a text are the only ones that are read as that text. -/
theorem decode_eq_ok_iff {bytes : List UInt8} {cs : List Char} :
    decode bytes = .ok cs ↔ bytes = encode cs :=
  ⟨fun h => (encode_of_decodeFrom h).symm, fun h => h ▸ decodeFrom_encode 0 cs⟩

theorem encode_injective : Function.Injective encode := fun cs ds h => by
  have hcs := decodeFrom_encode 0 cs
  rw [h, decodeFrom_encode] at hcs
  exact (Except.ok.inj hcs).symm

theorem ofString_injective : Function.Injective ofString :=
  fun _ _ h => String.toList_injective (encode_injective h)

end ImageBuild.Text.Utf8
