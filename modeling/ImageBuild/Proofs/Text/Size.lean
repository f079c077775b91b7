import ImageBuild.Text.Size
import Mathlib
/-!
# What the text of a size tells

A size is divided by a thousand once for each unit, and every quotient is rounded to 53 bits.  So each division
moves it by no more than half of the last of these bits, and the two decimals that are written tell the size up to
half a hundredth of the unit and what the divisions moved.
-/

namespace ImageBuild.Text

theorem abs_sub_le_iff_mul {x y e c : ℚ} (hc : 0 < c) : |x - y| ≤ e ↔ |x * c - y * c| ≤ e * c := by
  rw [← sub_mul, abs_mul, abs_of_pos hc, mul_le_mul_iff_left₀ hc]

/-! ## Whole quotients -/

theorem div_le_roundDiv (n d : Nat) : n / d ≤ roundDiv n d := by
  rw [roundDiv]
  split <;> omega

theorem roundDiv_mul_near (n : Nat) {d : Nat} (hd : 0 < d) :
    2 * (roundDiv n d * d) ≤ 2 * n + d ∧ 2 * n ≤ 2 * (roundDiv n d * d) + d := by
  have hsplit := Nat.div_add_mod n d
  have hless := Nat.mod_lt n hd
  rw [Nat.mul_comm] at hsplit
  rw [roundDiv]
  split
  · rw [Nat.add_mul]
    omega
  · omega

/-- A rounded quotient is off by half at most. -/
theorem abs_roundDiv_sub_le (n : Nat) {d : Nat} (hd : 0 < d) : |(roundDiv n d : ℚ) - n / d| ≤ 1 / 2 := by
  obtain ⟨hle, hge⟩ := roundDiv_mul_near n hd
  have hd' : (0 : ℚ) < d := Nat.cast_pos.2 hd
  have hle' : (2 * (roundDiv n d * d) : ℚ) ≤ 2 * n + d := by exact_mod_cast hle
  have hge' : (2 * n : ℚ) ≤ 2 * (roundDiv n d * d) + d := by exact_mod_cast hge
  rw [abs_sub_le_iff_mul hd', div_mul_cancel₀ _ hd'.ne', abs_le]
  constructor <;> linarith

/-! ## The bits that are kept -/

/-- The doublings of a numerator before it is divided. -/
def places (n d : Nat) : Nat :=
  if keptBits < Nat.log2 (n * Nat.pow 2 (doublings n d) / d) + 1 then doublings n d - 1 else doublings n d

theorem Ratio.divide_eq (r : Ratio) (k : Nat) :
    r.divide k =
      ⟨roundDiv (r.numerator * 2 ^ places r.numerator (r.denominator * k)) (r.denominator * k),
        2 ^ places r.numerator (r.denominator * k)⟩ := rfl

/-- All of the bits that a quotient keeps are in front of the point. -/
theorem le_mul_two_pow_places {n d : Nat} (hn : n ≠ 0) (hd : 0 < d) : 2 ^ 52 * d ≤ n * 2 ^ places n d := by
  rw [places]
  split
  · rename_i hmany
    have hquotient : n * 2 ^ doublings n d / d ≠ 0 := by
      intro hzero
      rw [Nat.pow_eq, hzero] at hmany
      exact absurd hmany (by decide)
    have hbits : 2 ^ 53 ≤ n * 2 ^ doublings n d / d := (Nat.le_log2 hquotient).1 (Nat.lt_succ_iff.1 hmany)
    rw [Nat.le_div_iff_mul_le hd] at hbits
    cases hp : doublings n d with
    | zero => rw [hp] at hbits; omega
    | succ p => rw [hp, Nat.pow_succ 2 p, ← Nat.mul_assoc] at hbits; rw [Nat.add_sub_cancel]; omega
  · calc
      2 ^ 52 * d ≤ 2 ^ 52 * 2 ^ (Nat.log2 d + 1) := Nat.mul_le_mul_left _ Nat.lt_log2_self.le
      _ = 2 ^ (keptBits + Nat.log2 d) := by rw [← Nat.pow_add, keptBits]; congr 1; omega
      _ ≤ 2 ^ (Nat.log2 n + doublings n d) := Nat.pow_le_pow_right two_pos (by rw [doublings]; omega)
      _ = 2 ^ Nat.log2 n * 2 ^ doublings n d := Nat.pow_add ..
      _ ≤ n * 2 ^ doublings n d := Nat.mul_le_mul_right _ (Nat.log2_self_le hn)

namespace Ratio

def value (r : Ratio) : ℚ := r.numerator / r.denominator

variable {r : Ratio}

/-- The part of a quotient by which rounding it moves it at most. -/
def slip : ℚ := 1 / 2 ^ 53

theorem abs_value_divide_sub_le {k : Nat} (hn : r.numerator ≠ 0) (hd : 0 < r.denominator) (hk : 0 < k) :
    |(r.divide k).value - r.value / k| ≤ r.value / k * slip := by
  have hdk : 0 < r.denominator * k := Nat.mul_pos hd hk
  have hdk' : (0 : ℚ) < (r.denominator * k : Nat) := Nat.cast_pos.2 hdk
  rw [divide_eq, value, value, div_div, ← Nat.cast_mul]
  generalize r.denominator * k = d at hdk hdk'
  have hbits : (2 ^ 52 * d : ℚ) ≤ r.numerator * 2 ^ places r.numerator d := by
    exact_mod_cast le_mul_two_pow_places hn hdk
  have hnear := abs_roundDiv_sub_le (r.numerator * 2 ^ places r.numerator d) hdk
  push_cast at hnear ⊢
  generalize places r.numerator d = p at hbits hnear
  have hp : (0 : ℚ) < 2 ^ p := by positivity
  have hquotient : (r.numerator * 2 ^ p : ℚ) / d = r.numerator / d * 2 ^ p := by ring
  rw [hquotient] at hnear
  have hlarge : 2 ^ 52 ≤ (r.numerator : ℚ) / d * 2 ^ p := by
    rwa [← hquotient, le_div_iff₀ hdk']
  rw [abs_sub_le_iff_mul hp, div_mul_cancel₀ _ hp.ne']
  refine hnear.trans ?_
  rw [slip, mul_right_comm]
  linarith

/-- A quotient of something that is no smaller is at least one. -/
theorem le_divide {k : Nat} (hd : 0 < r.denominator) (hk : 0 < k) (h : k * r.denominator ≤ r.numerator) :
    (r.divide k).denominator ≤ (r.divide k).numerator := by
  rw [divide_eq]
  refine le_trans ?_ (div_le_roundDiv _ _)
  rw [Nat.le_div_iff_mul_le (Nat.mul_pos hd hk), Nat.mul_comm, Nat.mul_comm r.denominator]
  exact Nat.mul_le_mul_right _ h

theorem denominator_divide_pos (r : Ratio) (k : Nat) : 0 < (r.divide k).denominator := Nat.two_pow_pos _

/-! ## Two decimals -/

/-- The hundredths that are written of a ratio. -/
def hundredths (r : Ratio) : Nat := roundDiv (100 * r.numerator) r.denominator

theorem abs_hundredths_sub_le (hd : 0 < r.denominator) : |(r.hundredths : ℚ) / 100 - r.value| ≤ 1 / 200 := by
  have hnear := abs_roundDiv_sub_le (100 * r.numerator) hd
  rw [← hundredths] at hnear
  push_cast at hnear
  rw [mul_div_assoc, ← value, abs_le] at hnear
  rw [abs_le]
  constructor <;> linarith

theorem le_hundredths (hd : 0 < r.denominator) (h : r.denominator ≤ r.numerator) : 100 ≤ r.hundredths := by
  refine le_trans ?_ (div_le_roundDiv _ _)
  rw [Nat.le_div_iff_mul_le hd]
  exact Nat.mul_le_mul_left _ h

theorem hundredths_le (hd : 0 < r.denominator) (h : r.numerator < 1000 * r.denominator) :
    r.hundredths ≤ 100000 := by
  have hnear := (roundDiv_mul_near (100 * r.numerator) hd).1
  rw [← hundredths] at hnear
  by_contra hmore
  have hlarge : 100001 * r.denominator ≤ r.hundredths * r.denominator := Nat.mul_le_mul_right _ (by omega)
  omega

end Ratio

/-- A number of hundredths as a text with two decimals. -/
def hundredthsText (h : Nat) : String :=
  Nat.repr (h / 100) ++ "." ++ Nat.repr (h / 10 % 10) ++ Nat.repr (h % 10)

theorem paddedDigits_two : ∀ m < 100, paddedDigits 2 m = Nat.repr (m / 10) ++ Nat.repr (m % 10) := by
  decide

theorem Ratio.twoDecimals_eq (r : Ratio) : r.twoDecimals = hundredthsText r.hundredths := by
  have hten : r.hundredths % 100 / 10 = r.hundredths / 10 % 10 := by omega
  have hone : r.hundredths % 100 % 10 = r.hundredths % 10 := by omega
  have htext : r.twoDecimals =
      Nat.repr (r.hundredths / 100) ++ "." ++ paddedDigits 2 (r.hundredths % 100) := rfl
  rw [htext, paddedDigits_two _ (Nat.mod_lt _ (by decide)), hten, hone, hundredthsText]
  simp only [String.append_assoc]

/-! ## The unit -/

/-- So many hundredths tell of a ratio divided by a thousand so often.  The slips of the divisions add up like
interest. -/
structure Ratio.ToldBy (r : Ratio) (k h : Nat) : Prop where
  large : 100 ≤ h
  near : |(h : ℚ) / 100 - r.value / 1000 ^ k| ≤ 1 / 200 + r.value / 1000 ^ k * ((1 + slip) ^ k - 1)

theorem Ratio.toldBy_hundredths {r : Ratio} (hd : 0 < r.denominator) (h : r.denominator ≤ r.numerator) :
    r.ToldBy 0 r.hundredths := by
  refine ⟨le_hundredths hd h, ?_⟩
  rw [pow_zero, pow_zero, sub_self, mul_zero, add_zero, div_one]
  exact abs_hundredths_sub_le hd

theorem Ratio.ToldBy.of_divide {r : Ratio} {k h : Nat} (hn : r.numerator ≠ 0) (hd : 0 < r.denominator)
    (htold : (r.divide 1000).ToldBy k h) : r.ToldBy (k + 1) h := by
  refine ⟨htold.large, ?_⟩
  have hslip := abs_value_divide_sub_le hn hd (k := 1000) (by decide)
  have hk : (0 : ℚ) < 1000 ^ k := by positivity
  have hquotient : r.value / 1000 ^ (k + 1) = r.value / (1000 : Nat) / 1000 ^ k := by
    rw [pow_succ', ← div_div, Nat.cast_ofNat]
  have hmoved : |(r.divide 1000).value / 1000 ^ k - r.value / (1000 : Nat) / 1000 ^ k| ≤
      r.value / (1000 : Nat) / 1000 ^ k * slip := by
    rw [← sub_div, abs_div, abs_of_pos hk, div_mul_eq_mul_div]
    exact div_le_div_of_nonneg_right hslip hk.le
  have hnear := htold.near
  rw [hquotient]
  generalize (r.divide 1000).value / 1000 ^ k = v at hmoved hnear
  generalize r.value / (1000 : Nat) / 1000 ^ k = w at hmoved ⊢
  have hgrown : v * ((1 + slip) ^ k - 1) ≤ w * (1 + slip) * ((1 + slip) ^ k - 1) := by
    refine mul_le_mul_of_nonneg_right ?_ (sub_nonneg.2 (one_le_pow₀ (by rw [slip]; norm_num)))
    have hle := le_of_abs_le hmoved
    linarith
  calc
    |(h : ℚ) / 100 - w| ≤ |(h : ℚ) / 100 - v| + |v - w| := abs_sub_le _ _ _
    _ ≤ 1 / 200 + w * (1 + slip) * ((1 + slip) ^ k - 1) + w * slip := by linarith
    _ = 1 / 200 + w * ((1 + slip) ^ (k + 1) - 1) := by rw [pow_succ]; ring

theorem scaled_tells {units : List String} (hunits : units ≠ []) {r : Ratio} (hd : 0 < r.denominator)
    (hr : 1000 * r.denominator ≤ r.numerator) :
    ∃ k unit h, units[k]? = some unit ∧ scaled r units = hundredthsText h ++ " " ++ unit ∧ r.ToldBy (k + 1) h ∧
      (k + 1 < units.length → h ≤ 100000) := by
  induction units generalizing r with
  | nil => exact absurd rfl hunits
  | cons unit units ih =>
      have hn : r.numerator ≠ 0 := by omega
      have hpos := r.denominator_divide_pos 1000
      have hthis : r.ToldBy 1 (r.divide 1000).hundredths :=
        (Ratio.toldBy_hundredths hpos (Ratio.le_divide hd (by decide) hr)).of_divide hn hd
      cases units with
      | nil =>
          refine ⟨0, unit, _, rfl, ?_, hthis, fun hmore => absurd hmore (by simp)⟩
          rw [scaled, Ratio.twoDecimals_eq]
      | cons next units =>
          simp only [scaled]
          split
          · rename_i hsmall
            refine ⟨0, unit, _, rfl, ?_, hthis, fun _ => Ratio.hundredths_le hpos hsmall⟩
            rw [Ratio.twoDecimals_eq]
          · rename_i hlarge
            obtain ⟨k, unit, h, hunit, htext, htold, hless⟩ := ih (List.cons_ne_nil _ _) hpos (Nat.not_lt.1 hlarge)
            exact ⟨k + 1, unit, h, hunit, htext, htold.of_divide hn hd,
              fun hmore => hless (Nat.lt_of_succ_lt_succ hmore)⟩

/-! ## A number of bytes -/

/-- A text tells a number of bytes: as it is, or in the largest unit that it has one of at least, off by half a
hundredth of the unit and a trillionth of the number at most. -/
inductive TellsSize (n : Nat) : String → Prop where
  | bytes : n < 1000 → TellsSize n (Nat.repr n ++ " B")
  | units {k h : Nat} {unit : String} : 1000 ≤ n →
      ["kB", "MB", "GB", "TB", "PB", "EB"][k]? = some unit → 100 ≤ h → (k < 5 → h ≤ 100000) →
      |(h : ℚ) / 100 * 1000 ^ (k + 1) - n| ≤ 1000 ^ (k + 1) / 200 + n / 10 ^ 12 →
      TellsSize n (Nat.repr (h / 100) ++ "." ++ Nat.repr (h / 10 % 10) ++ Nat.repr (h % 10) ++ " " ++ unit)

theorem decimalSize_tells (n : Nat) : TellsSize n (decimalSize n) := by
  rw [decimalSize]
  split
  · exact .bytes ‹_›
  · rename_i hlarge
    have hn : 1000 * (⟨n, 1⟩ : Ratio).denominator ≤ (⟨n, 1⟩ : Ratio).numerator := by simpa using hlarge
    have hunits : sizeUnits ≠ [] := List.cons_ne_nil _ _
    obtain ⟨k, unit, h, hunit, htext, htold, hless⟩ := scaled_tells hunits (r := ⟨n, 1⟩) Nat.one_pos hn
    have hk : k < 6 := (List.getElem?_eq_some_iff.1 hunit).1
    rw [htext]
    refine .units (by simpa using hlarge) hunit htold.large (fun hk => hless (Nat.succ_lt_succ hk)) ?_
    have hnear := htold.near
    have hunit : (0 : ℚ) < 1000 ^ (k + 1) := by positivity
    have hvalue : (⟨n, 1⟩ : Ratio).value = n := by simp [Ratio.value]
    have hslips : (1 + Ratio.slip) ^ (k + 1) - 1 ≤ 1 / 10 ^ 12 := by
      have hmore : (1 + Ratio.slip) ^ (k + 1) ≤ (1 + Ratio.slip) ^ 6 :=
        pow_le_pow_right₀ (by rw [Ratio.slip]; norm_num) hk
      have hsix : (1 + Ratio.slip) ^ 6 ≤ 1 + 1 / 10 ^ 12 := by rw [Ratio.slip]; norm_num
      linarith
    rw [hvalue, abs_sub_le_iff_mul hunit, div_mul_cancel₀ _ hunit.ne', add_mul, mul_right_comm,
      div_mul_cancel₀ _ hunit.ne'] at hnear
    have hpart := mul_le_mul_of_nonneg_left hslips (Nat.cast_nonneg (α := ℚ) n)
    linarith

end ImageBuild.Text
