import ImageBuild.Text.Base64
import Mathlib
/-!
# Reading back Base64

Three bytes are four values of six bits, and each value has one symbol.  The padding and the unused bits of the
last group are fixed as well, so that reading accepts exactly what writing produces.
-/

namespace ImageBuild.Text.Base64

/-! ## Symbols -/

theorem value?_symbol : ∀ v < 64, value? (symbol v) = some v := by decide

theorem symbol_ne_pad : ∀ v < 64, symbol v ≠ pad := by decide

theorem symbol_of_value? {b : UInt8} {v : Nat} (h : value? b = some v) : v < 64 ∧ b = symbol v := by
  have hb := b.toNat_lt
  rw [← UInt8.toNat_inj]
  simp only [value?] at h
  split_ifs at h with h₁ h₂ h₃ h₄ h₅ <;> cases h
  all_goals
    refine ⟨by omega, ?_⟩
    simp only [symbol]
    split_ifs <;> simp <;> omega

theorem values_eq_ok_iff {offset : Nat} {bs : List UInt8} {vs : List Nat} :
    values offset bs = .ok vs ↔ (∀ v ∈ vs, v < 64) ∧ bs = vs.map symbol := by
  induction bs generalizing offset vs with
  | nil => cases vs <;> simp [values]
  | cons b bs ih =>
      rw [values]
      constructor
      · intro h
        cases hvalue : value? b with
        | none => simp [hvalue] at h
        | some v =>
            simp only [hvalue] at h
            obtain ⟨more, hmore, rfl⟩ : ∃ more, values (offset + 1) bs = .ok more ∧ v :: more = vs := by
              cases hvalues : values (offset + 1) bs with
              | error fault => simp [hvalues, Except.map] at h
              | ok more =>
                  rw [hvalues] at h
                  exact ⟨more, rfl, by simpa [Except.map] using h⟩
            obtain ⟨hv, rfl⟩ := symbol_of_value? hvalue
            obtain ⟨hbound, rfl⟩ := ih.1 hmore
            exact ⟨List.forall_mem_cons.2 ⟨hv, hbound⟩, rfl⟩
      · rintro ⟨hbound, hsymbols⟩
        cases vs with
        | nil => cases hsymbols
        | cons v more =>
            obtain ⟨rfl, rfl⟩ := List.cons.inj hsymbols
            obtain ⟨hv, hmore⟩ := List.forall_mem_cons.1 hbound
            rw [value?_symbol v hv, ih.2 ⟨hmore, rfl⟩]
            rfl

/-! ## The last group -/

/-- A group that is written with these values, as many as there are, and padding in place of the rest. -/
def padded (vs : List Nat) : List UInt8 := vs.map symbol ++ List.replicate (4 - vs.length) pad

theorem takeWhile_padded {vs : List Nat} (h : ∀ v ∈ vs, v < 64) (n : Nat) :
    (vs.map symbol ++ List.replicate n pad).takeWhile (· != pad) = vs.map symbol := by
  have hbody : ∀ b ∈ vs.map symbol, (b != pad) = true := by
    intro b hb
    obtain ⟨v, hv, rfl⟩ := List.mem_map.1 hb
    exact bne_iff_ne.2 (symbol_ne_pad v (h v hv))
  rw [List.takeWhile_append_of_pos hbody]
  cases n <;> simp [List.replicate_succ]

theorem dropWhile_padded {vs : List Nat} (h : ∀ v ∈ vs, v < 64) (n : Nat) :
    (vs.map symbol ++ List.replicate n pad).dropWhile (· != pad) = List.replicate n pad := by
  have happend := List.takeWhile_append_dropWhile (p := (· != pad))
    (l := vs.map symbol ++ List.replicate n pad)
  rw [takeWhile_padded h] at happend
  exact List.append_cancel_left happend

theorem decodeLast_eq_ok_iff {offset : Nat} {group bytes : List UInt8} :
    decodeLast offset group = .ok bytes ↔
      ∃ vs, (∀ v ∈ vs, v < 64) ∧ 2 ≤ vs.length ∧ vs.length ≤ 4 ∧ group = padded vs ∧
        lastBytes vs = (bytes, true) := by
  constructor
  · intro h
    rw [decodeLast] at h
    cases hvalues : values offset (group.takeWhile (· != pad)) with
    | error fault => simp [hvalues, bind, Except.bind] at h
    | ok vs =>
        obtain ⟨hbound, hbody⟩ := values_eq_ok_iff.1 hvalues
        have hgroup := List.takeWhile_append_dropWhile (p := (· != pad)) (l := group)
        rw [hvalues] at h
        rw [hbody] at h hgroup
        generalize group.dropWhile (· != pad) = rest at h hgroup
        subst hgroup
        simp only [bind, Except.bind, throw, throwThe, MonadExceptOf.throw, pure, Except.pure,
          List.length_append, List.length_map] at h
        split_ifs at h with hpadding hshort hlength hcomplete
        cases h
        have hrest : ∀ b ∈ rest, b = pad := by
          intro b hb
          by_contra hpad
          have hany : (rest.any fun b => b != pad) = true := List.any_eq_true.2 ⟨b, hb, bne_iff_ne.2 hpad⟩
          exact hpadding (by simp [List.ne_nil_of_mem hb, hany])
        have hrest : rest = List.replicate (4 - vs.length) pad :=
          List.eq_replicate_iff.2 ⟨by omega, hrest⟩
        refine ⟨vs, hbound, by omega, by omega, by rw [padded, hrest], ?_⟩
        exact Prod.ext rfl hcomplete
  · rintro ⟨vs, hbound, htwo, hfour, rfl, hbytes⟩
    have hvalues : values offset (vs.map symbol) = .ok vs := values_eq_ok_iff.2 ⟨hbound, rfl⟩
    simp only [decodeLast, padded, takeWhile_padded hbound, dropWhile_padded hbound, hvalues]
    simp [bind, Except.bind, pure, Except.pure, Nat.not_lt.2 htwo, Nat.add_sub_cancel' hfour, hbytes]

/-! ## Bytes and their values -/

theorem toNat_ofNat_of_lt {n : Nat} (h : n < 256) : (UInt8.ofNat n).toNat = n :=
  UInt8.toNat_ofNat_of_lt' h

theorem encode_groupBytes {p q r s : Nat} (hp : p < 64) (hq : q < 64) (hr : r < 64) (hs : s < 64)
    (more : List UInt8) :
    encode (groupBytes p q r s ++ more) = [p, q, r, s].map symbol ++ encode more := by
  have hfirst : (((p * 64 + q) * 64 + r) * 64 + s) / 65536 < 256 := by omega
  have hsecond : (((p * 64 + q) * 64 + r) * 64 + s) / 256 % 256 < 256 := by omega
  have hthird : (((p * 64 + q) * 64 + r) * 64 + s) % 256 < 256 := by omega
  simp only [groupBytes, List.cons_append, List.nil_append, encode, List.map_cons, List.map_nil,
    toNat_ofNat_of_lt hfirst, toNat_ofNat_of_lt hsecond, toNat_ofNat_of_lt hthird]
  congr 2
  · omega
  congr 2
  · omega
  congr 2
  · omega
  congr 2
  omega

theorem encode_fullBytes {vs : List Nat} (hbound : ∀ v ∈ vs, v < 64) (hfour : vs.length = 4)
    (more : List UInt8) : encode ((lastBytes vs).1 ++ more) = vs.map symbol ++ encode more := by
  obtain ⟨p, q, r, s, rfl⟩ := List.length_eq_four.1 hfour
  obtain ⟨hp, hq, hr, hs⟩ : p < 64 ∧ q < 64 ∧ r < 64 ∧ s < 64 := by simpa using hbound
  exact encode_groupBytes hp hq hr hs more

/-- Values without a bit to spare are those of their bytes. -/
theorem encode_lastBytes {vs : List Nat} (hbound : ∀ v ∈ vs, v < 64) (htwo : 2 ≤ vs.length)
    (hfour : vs.length ≤ 4) (hcomplete : (lastBytes vs).2 = true) :
    encode (lastBytes vs).1 = padded vs := by
  match vs with
  | [] | [_] => simp at htwo
  | [p, q] =>
      obtain ⟨hp, hq⟩ : p < 64 ∧ q < 64 := by simpa using hbound
      have hbits : q % 16 = 0 := by simpa [lastBytes] using hcomplete
      have hfirst : (p * 4 + q / 16) * 16 / 64 = p := by omega
      have hsecond : (p * 4 + q / 16) * 16 % 64 = q := by omega
      simp only [lastBytes, encode]
      rw [toNat_ofNat_of_lt (by omega), hfirst, hsecond]
      rfl
  | [p, q, r] =>
      obtain ⟨hp, hq, hr⟩ : p < 64 ∧ q < 64 ∧ r < 64 := by simpa using hbound
      have hbits : r % 4 = 0 := by simpa [lastBytes] using hcomplete
      have hvalue : ((p * 4 + q / 16) * 256 + (q % 16 * 16 + r / 4)) * 4 = (p * 64 + q) * 64 + r := by omega
      have hfirst : ((p * 64 + q) * 64 + r) / 4096 = p := by omega
      have hsecond : ((p * 64 + q) * 64 + r) / 64 % 64 = q := by omega
      have hthird : ((p * 64 + q) * 64 + r) % 64 = r := by omega
      simp only [lastBytes, encode]
      rw [toNat_ofNat_of_lt (by omega), toNat_ofNat_of_lt (by omega), hvalue, hfirst, hsecond, hthird]
      rfl
  | [p, q, r, s] =>
      have hfull := encode_fullBytes hbound rfl []
      rwa [List.append_nil] at hfull
  | _ :: _ :: _ :: _ :: _ :: _ => exact absurd hfour (by simp)

/-- The values of one, two or three bytes. -/
def valuesOf : List UInt8 → List Nat
  | [a] => [a.toNat / 4, a.toNat % 4 * 16]
  | [a, b] => [a.toNat / 4, a.toNat % 4 * 16 + b.toNat / 16, b.toNat % 16 * 4]
  | [a, b, c] =>
    [a.toNat / 4, a.toNat % 4 * 16 + b.toNat / 16, b.toNat % 16 * 4 + c.toNat / 64, c.toNat % 64]
  | _ => []

theorem ofNat_of_eq {n : Nat} {b : UInt8} (h : n = b.toNat) : UInt8.ofNat n = b := by
  rw [h, UInt8.ofNat_toNat]

theorem lastBytes_valuesOf {bytes : List UInt8} (hne : bytes ≠ []) (hlen : bytes.length ≤ 3) :
    (∀ v ∈ valuesOf bytes, v < 64) ∧ (valuesOf bytes).length = bytes.length + 1 ∧
      lastBytes (valuesOf bytes) = (bytes, true) := by
  match bytes with
  | [] => exact absurd rfl hne
  | [a] =>
      have ha := a.toNat_lt
      refine ⟨?_, rfl, ?_⟩
      · simp only [valuesOf, List.mem_cons, List.not_mem_nil, or_false, forall_eq_or_imp, forall_eq]
        omega
      · simp only [valuesOf, lastBytes]
        rw [ofNat_of_eq (b := a) (by omega), decide_eq_true (by omega)]
  | [a, b] =>
      have ha := a.toNat_lt
      have hb := b.toNat_lt
      refine ⟨?_, rfl, ?_⟩
      · simp only [valuesOf, List.mem_cons, List.not_mem_nil, or_false, forall_eq_or_imp, forall_eq]
        omega
      · simp only [valuesOf, lastBytes]
        rw [ofNat_of_eq (b := a) (by omega), ofNat_of_eq (b := b) (by omega), decide_eq_true (by omega)]
  | [a, b, c] =>
      have ha := a.toNat_lt
      have hb := b.toNat_lt
      have hc := c.toNat_lt
      refine ⟨?_, rfl, ?_⟩
      · simp only [valuesOf, List.mem_cons, List.not_mem_nil, or_false, forall_eq_or_imp, forall_eq]
        omega
      · simp only [valuesOf, lastBytes, groupBytes]
        rw [ofNat_of_eq (b := a) (by omega), ofNat_of_eq (b := b) (by omega), ofNat_of_eq (b := c) (by omega)]
  | _ :: _ :: _ :: _ :: _ => exact absurd hlen (by simp)

/-! ## All groups -/

theorem decodeLast_encode {bytes : List UInt8} (hne : bytes ≠ []) (hlen : bytes.length ≤ 3) (offset : Nat) :
    decodeLast offset (encode bytes) = .ok bytes := by
  obtain ⟨hbound, hlength, hbytes⟩ := lastBytes_valuesOf hne hlen
  have hpos := List.length_pos_iff.2 hne
  have hencode := encode_lastBytes hbound (by omega) (by omega) (by rw [hbytes])
  rw [hbytes] at hencode
  exact decodeLast_eq_ok_iff.2 ⟨valuesOf bytes, hbound, by omega, by omega, hencode, hbytes⟩

theorem encode_of_decodeLast {offset : Nat} {group bytes : List UInt8}
    (h : decodeLast offset group = .ok bytes) : group = encode bytes := by
  obtain ⟨vs, hbound, htwo, hfour, rfl, hbytes⟩ := decodeLast_eq_ok_iff.1 h
  have hencode := encode_lastBytes hbound htwo hfour (by rw [hbytes])
  rw [hbytes] at hencode
  exact hencode.symm

theorem encode_of_decodeGroups {offset : Nat} {input bytes : List UInt8} :
    decodeGroups offset input = .ok bytes → input = encode bytes := by
  fun_induction decodeGroups offset input generalizing bytes with
  | case1 offset a b c d e rest ih =>
      intro h
      cases hvalues : values offset [a, b, c, d] with
      | error fault => simp [hvalues, bind, Except.bind] at h
      | ok vs =>
          cases hmore : decodeGroups (offset + 4) (e :: rest) with
          | error fault => simp [hvalues, hmore, bind, Except.bind] at h
          | ok more =>
              obtain ⟨hbound, hgroup⟩ := values_eq_ok_iff.1 hvalues
              have hfour : vs.length = 4 := by simpa using (congrArg List.length hgroup).symm
              obtain rfl : (lastBytes vs).1 ++ more = bytes := by
                simpa [hvalues, hmore, bind, Except.bind, pure, Except.pure] using h
              rw [encode_fullBytes hbound hfour more, ← hgroup, ← ih hmore]
              rfl
  | case2 offset last hlast => exact encode_of_decodeLast

theorem decodeGroups_full {vs : List Nat} (hbound : ∀ v ∈ vs, v < 64) (hfour : vs.length = 4)
    {rest bytes : List UInt8} (hne : rest ≠ []) {offset : Nat}
    (hrest : decodeGroups (offset + 4) rest = .ok bytes) :
    decodeGroups offset (vs.map symbol ++ rest) = .ok ((lastBytes vs).1 ++ bytes) := by
  obtain ⟨e, more, rfl⟩ := List.exists_cons_of_ne_nil hne
  obtain ⟨p, q, r, s, rfl⟩ := List.length_eq_four.1 hfour
  have hvalues : values offset [symbol p, symbol q, symbol r, symbol s] = .ok [p, q, r, s] :=
    values_eq_ok_iff.2 ⟨hbound, rfl⟩
  simp only [List.map_cons, List.map_nil, List.cons_append, List.nil_append, decodeGroups, hvalues, hrest]
  rfl

theorem encode_ne_nil {bytes : List UInt8} (h : bytes ≠ []) : encode bytes ≠ [] := by
  fun_cases encode bytes with
  | case1 => exact absurd rfl h
  | _ => exact List.cons_ne_nil _ _

theorem length_encode_mod (bytes : List UInt8) : (encode bytes).length % 4 = 0 := by
  fun_induction encode bytes with
  | case1 => rfl
  | case2 => simp
  | case3 => simp
  | case4 a b c rest n ih =>
      simp only [List.length_cons]
      omega

theorem decodeGroups_encode {bytes : List UInt8} (hne : bytes ≠ []) (offset : Nat) :
    decodeGroups offset (encode bytes) = .ok bytes := by
  match bytes with
  | [] => exact absurd rfl hne
  | [_] | [_, _] | [_, _, _] => exact decodeLast_encode hne (by simp) offset
  | a :: b :: c :: d :: rest =>
      have hrest := decodeGroups_encode (List.cons_ne_nil d rest) (offset + 4)
      obtain ⟨hbound, hfour, hbytes⟩ := lastBytes_valuesOf (List.cons_ne_nil a [b, c]) (by simp)
      have hencode := encode_fullBytes hbound hfour (d :: rest)
      have hdecode := decodeGroups_full hbound hfour (encode_ne_nil (List.cons_ne_nil d rest)) hrest
      rw [← hencode, hbytes] at hdecode
      exact hdecode

/-- Reading accepts exactly what writing produces. -/
theorem decode_eq_ok_iff {input bytes : List UInt8} : decode input = .ok bytes ↔ input = encode bytes := by
  rw [decode]
  constructor
  · intro h
    cases hlast : input.getLast? with
    | none =>
        obtain rfl := List.getLast?_eq_none_iff.1 hlast
        cases h
        rfl
    | some last =>
        simp only [hlast] at h
        split_ifs at h
        exact encode_of_decodeGroups h
  · rintro rfl
    cases hlast : (encode bytes).getLast? with
    | none =>
        have hnil := List.getLast?_eq_none_iff.1 hlast
        by_cases hne : bytes = []
        · rw [hne]
        · exact absurd hnil (encode_ne_nil hne)
    | some last =>
        have hne : bytes ≠ [] := by
          rintro rfl
          cases hlast
        simp [length_encode_mod, decodeGroups_encode hne]

/-- `fooba` takes one byte of padding, and `foobar` none. -/
example : encode [102, 111, 111, 98, 97] = [90, 109, 57, 118, 89, 109, 69, 61] ∧
    encode [102, 111, 111, 98, 97, 114] = [90, 109, 57, 118, 89, 109, 70, 121] := by
  decide

end ImageBuild.Text.Base64
