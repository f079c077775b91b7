import ImageBuild.Text.Utf8
import Mathlib.Tactic.SplitIfs
/-!
# Reading back what is encoded

A character is encoded in one to four bytes, and at the front of them a reader finds that character.  The
second byte of a longer sequence lies within narrower bounds after some leading bytes; that is where the
encoded character is one for which fewer bytes do not do, and no surrogate.
-/

namespace ImageBuild.Text.Utf8

theorem isSecond_of {lead b : UInt8} (hlo : 0x80 ≤ b.toNat) (hhi : b.toNat ≤ 0xBF)
    (h₁ : lead.toNat = 0xE0 → 0xA0 ≤ b.toNat) (h₂ : lead.toNat = 0xED → b.toNat ≤ 0x9F)
    (h₃ : lead.toNat = 0xF0 → 0x90 ≤ b.toNat) (h₄ : lead.toNat = 0xF4 → b.toNat ≤ 0x8F) :
    isSecond lead b = true := by
  rw [isSecond, secondBytes]
  split_ifs with h h h h <;> simp only [← UInt8.toNat_inj, UInt8.reduceToNat] at h <;>
    simp [UInt8.le_iff_toNat_le, *]

theorem isContinuation_of {b : UInt8} (hlo : 0x80 ≤ b.toNat) (hhi : b.toNat ≤ 0xBF) :
    isContinuation b = true := by
  simp [isContinuation, UInt8.le_iff_toNat_le, hlo, hhi]

theorem scan_one {lead : UInt8} {c : Char} (h : lead.toNat = c.toNat) (hc : c.toNat < 0x80)
    (rest : List UInt8) : scan lead rest = .char c 0 := by
  rw [scan.eq_def, if_pos (by simpa [UInt8.lt_iff_toNat_lt, h] using hc), h, Char.ofNat_toNat]

theorem scan_two {lead b : UInt8} {c : Char} (hlo : 0x80 ≤ c.toNat) (hhi : c.toNat < 0x800)
    (hlead : lead.toNat = c.toNat / 64 + 0xC0) (hb : b.toNat = c.toNat % 64 + 0x80)
    (rest : List UInt8) : scan lead (b :: rest) = .char c 1 := by
  have hvalue : assemble (lead.toNat % 32) [b] = c := by
    have heq : lead.toNat % 32 * 64 + b.toNat % 64 = c.toNat := by omega
    rw [assemble, List.foldl, List.foldl, heq, Char.ofNat_toNat]
  have hsecond : isContinuation b = true := isContinuation_of (by omega) (by omega)
  rw [scan.eq_def, if_neg, if_pos]
  · simp only [hsecond, if_true, hvalue]
  all_goals
    simp only [UInt8.le_iff_toNat_le, UInt8.lt_iff_toNat_lt, UInt8.reduceToNat]
    omega

theorem scan_three {lead b d : UInt8} {c : Char} (hlo : 0x800 ≤ c.toNat) (hhi : c.toNat < 0x10000)
    (hlead : lead.toNat = c.toNat / 4096 + 0xE0) (hb : b.toNat = c.toNat / 64 % 64 + 0x80)
    (hd : d.toNat = c.toNat % 64 + 0x80) (rest : List UInt8) :
    scan lead (b :: d :: rest) = .char c 2 := by
  have hvalid : c.toNat < 0xD800 ∨ 0xDFFF < c.toNat ∧ c.toNat < 0x110000 := c.valid
  have hvalue : assemble (lead.toNat % 16) [b, d] = c := by
    have heq : (lead.toNat % 16 * 64 + b.toNat % 64) * 64 + d.toNat % 64 = c.toNat := by omega
    rw [assemble, List.foldl, List.foldl, List.foldl, heq, Char.ofNat_toNat]
  have hsecond : isSecond lead b = true :=
    isSecond_of (by omega) (by omega) (by omega) (by omega) (by omega) (by omega)
  have hthird : isContinuation d = true := isContinuation_of (by omega) (by omega)
  rw [scan.eq_def, if_neg, if_neg, if_pos]
  · simp only [hsecond, hthird, if_true, hvalue]
  all_goals
    simp only [UInt8.le_iff_toNat_le, UInt8.lt_iff_toNat_lt, UInt8.reduceToNat]
    omega

theorem scan_four {lead b d e : UInt8} {c : Char} (hlo : 0x10000 ≤ c.toNat)
    (hlead : lead.toNat = c.toNat / 262144 + 0xF0) (hb : b.toNat = c.toNat / 4096 % 64 + 0x80)
    (hd : d.toNat = c.toNat / 64 % 64 + 0x80) (he : e.toNat = c.toNat % 64 + 0x80)
    (rest : List UInt8) : scan lead (b :: d :: e :: rest) = .char c 3 := by
  have hvalid : c.toNat < 0xD800 ∨ 0xDFFF < c.toNat ∧ c.toNat < 0x110000 := c.valid
  have hvalue : assemble (lead.toNat % 8) [b, d, e] = c := by
    have heq : ((lead.toNat % 8 * 64 + b.toNat % 64) * 64 + d.toNat % 64) * 64 + e.toNat % 64 =
        c.toNat := by omega
    rw [assemble, List.foldl, List.foldl, List.foldl, List.foldl, heq, Char.ofNat_toNat]
  have hsecond : isSecond lead b = true :=
    isSecond_of (by omega) (by omega) (by omega) (by omega) (by omega) (by omega)
  have hthird : isContinuation d = true := isContinuation_of (by omega) (by omega)
  have hfourth : isContinuation e = true := isContinuation_of (by omega) (by omega)
  rw [scan.eq_def, if_neg, if_neg, if_neg, if_pos]
  · simp only [hsecond, hthird, hfourth, if_true, hvalue]
  all_goals
    simp only [UInt8.le_iff_toNat_le, UInt8.lt_iff_toNat_lt, UInt8.reduceToNat]
    omega

/-- At the front of the bytes of a character stands the character. -/
theorem scan_encode (c : Char) (rest : List UInt8) :
    ∃ lead more, String.utf8EncodeChar c = lead :: more ∧
      scan lead (more ++ rest) = .char c more.length := by
  have hvalid : c.toNat < 0xD800 ∨ 0xDFFF < c.toNat ∧ c.toNat < 0x110000 := c.valid
  have hbyte : ∀ n, n < 256 → (UInt8.ofNat n).toNat = n := fun n hn => UInt8.toNat_ofNat_of_lt' hn
  rw [String.utf8EncodeChar]
  change ∃ lead more, (if c.toNat ≤ 0x7f then _ else if c.toNat ≤ 0x7ff then _ else
    if c.toNat ≤ 0xffff then _ else _) = lead :: more ∧ _
  split_ifs with h₁ h₂ h₃
  · exact ⟨_, _, rfl, scan_one (hbyte c.toNat (by omega)) (by omega) rest⟩
  · refine ⟨_, _, rfl, scan_two (by omega) (by omega) ?_ (hbyte (c.toNat % 64 + 0x80) (by omega)) rest⟩
    exact (hbyte (c.toNat / 64 % 32 + 0xc0) (by omega)).trans (by omega)
  · refine ⟨_, _, rfl, scan_three (by omega) (by omega) ?_
      (hbyte (c.toNat / 64 % 64 + 0x80) (by omega)) (hbyte (c.toNat % 64 + 0x80) (by omega)) rest⟩
    exact (hbyte (c.toNat / 4096 % 16 + 0xe0) (by omega)).trans (by omega)
  · refine ⟨_, _, rfl, scan_four (by omega) ?_ (hbyte (c.toNat / 4096 % 64 + 0x80) (by omega))
      (hbyte (c.toNat / 64 % 64 + 0x80) (by omega)) (hbyte (c.toNat % 64 + 0x80) (by omega)) rest⟩
    exact (hbyte (c.toNat / 262144 % 8 + 0xf0) (by omega)).trans (by omega)

theorem exists_scan_encode_cons (c : Char) (cs : List Char) :
    ∃ lead more, encode (c :: cs) = lead :: (more ++ encode cs) ∧
      scan lead (more ++ encode cs) = .char c more.length := by
  obtain ⟨lead, more, hbytes, hscan⟩ := scan_encode c (encode cs)
  refine ⟨lead, more, ?_, hscan⟩
  rw [encode, List.flatMap_cons, hbytes]
  rfl

/-- What is encoded is read back as it was, also by a reading that would make the best of anything. -/
theorem decodeLossy_encode (cs : List Char) : decodeLossy (encode cs) = cs := by
  induction cs with
  | nil => rw [encode, List.flatMap_nil, decodeLossy]
  | cons c cs ih =>
      obtain ⟨lead, more, hcons, hscan⟩ := exists_scan_encode_cons c cs
      rw [hcons, decodeLossy, hscan]
      dsimp only
      rw [List.drop_left, ih]

theorem decodeFrom_encode (index : Nat) (cs : List Char) : decodeFrom index (encode cs) = .ok cs := by
  induction cs generalizing index with
  | nil => rw [encode, List.flatMap_nil, decodeFrom]
  | cons c cs ih =>
      obtain ⟨lead, more, hcons, hscan⟩ := exists_scan_encode_cons c cs
      rw [hcons, decodeFrom, hscan]
      dsimp only
      rw [List.drop_left, ih]
      rfl

theorem toString?_ofString (s : String) : toString? (ofString s) = .ok s := by
  rw [toString?, ofString, decode, decodeFrom_encode, Except.map, String.ofList_toList]

theorem toList_loop (content : ByteArray) (index : Nat) (front : List UInt8) :
    ByteArray.toList.loop content index front = front.reverse ++ content.data.toList.drop index := by
  induction index, front using ByteArray.toList.loop.induct content with
  | case1 index front hlt ih =>
      have hlt' : index < content.data.toList.length := hlt
      have hbyte : content.get! index = content.data.toList[index] :=
        getElem!_pos content.data index hlt
      rw [ByteArray.toList.loop, if_pos hlt, ih, List.drop_eq_getElem_cons hlt', hbyte, List.reverse_cons,
        List.append_assoc, List.singleton_append]
  | case2 index front hge =>
      rw [ByteArray.toList.loop, if_neg hge, List.drop_eq_nil_of_le (by simpa using hge), List.append_nil]

/-- The content of a file that holds these bytes. -/
theorem toList_mk (bytes : List UInt8) : ByteArray.toList ⟨bytes.toArray⟩ = bytes := by
  rw [ByteArray.toList, toList_loop]
  rfl

end ImageBuild.Text.Utf8
