import Mathlib.Algebra.Order.Field.Power
import Mathlib.Data.Rat.Cast.Order
import Mathlib.Tactic.FieldSimp
import Mathlib.Tactic.Linarith
import Mathlib.Tactic.Ring
import Xbase.Number.Decimal

/-!
# Rounding leaves exact values alone

The double nearest to a quotient is the quotient itself, if that is a double.

* `Number.mantissaExponent_eq`: the exponent of the mantissa follows from the power of two below the
  quotient;
* `Number.nearestBits_of_ratio`: a quotient `m * 2 ^ e` with a mantissa of a double rounds to the
  bits with this mantissa and exponent;
* `Decimal.bits_of_value`: the same for a decimal, whose size never takes one of the shortcuts.
-/

namespace Xbase

namespace Number

@[simp]
theorem power_eq (base exponent : Nat) : power base exponent = base ^ exponent := rfl

/-- The quotient `num / den` lies between `2 ^ j` and the next power of two. -/
theorem log2_ratio {num den : Nat} (hn : num ≠ 0) (hd : den ≠ 0) :
    (2 : ℚ) ^ ((num.log2 : Int) - den.log2 - 1) < num / den ∧
      (num : ℚ) / den < 2 ^ ((num.log2 : Int) - den.log2 + 1) := by
  have hn₁ : (2 : ℚ) ^ num.log2 ≤ num := by exact_mod_cast Nat.log2_self_le hn
  have hn₂ : (num : ℚ) < 2 ^ (num.log2 + 1) := by exact_mod_cast Nat.lt_log2_self
  have hd₁ : (2 : ℚ) ^ den.log2 ≤ den := by exact_mod_cast Nat.log2_self_le hd
  have hd₂ : (den : ℚ) < 2 ^ (den.log2 + 1) := by exact_mod_cast Nat.lt_log2_self
  have hpos : (0 : ℚ) < den := by exact_mod_cast Nat.pos_of_ne_zero hd
  constructor
  · rw [lt_div_iff₀ hpos]
    calc (2 : ℚ) ^ ((num.log2 : Int) - den.log2 - 1) * den
        < 2 ^ ((num.log2 : Int) - den.log2 - 1) * 2 ^ (den.log2 + 1) := by gcongr
      _ = 2 ^ num.log2 := by
        rw [← zpow_natCast, ← zpow_add₀ (by norm_num), ← zpow_natCast]
        congr 1
        push_cast
        ring
      _ ≤ num := hn₁
  · rw [div_lt_iff₀ hpos]
    calc (num : ℚ) < 2 ^ (num.log2 + 1) := hn₂
      _ = 2 ^ ((num.log2 : Int) - den.log2 + 1) * 2 ^ den.log2 := by
        rw [← zpow_natCast, ← zpow_natCast, ← zpow_add₀ (by norm_num)]
        congr 1
        push_cast
        ring
      _ ≤ 2 ^ ((num.log2 : Int) - den.log2 + 1) * den := by gcongr

/-- Scaling by a power of two multiplies the quotient. -/
theorem scaleTwo_ratio (num : Nat) {den : Nat} (hd : den ≠ 0) (e : Int) :
    (scaleTwo num den e).2 ≠ 0 ∧
      ((scaleTwo num den e).1 : ℚ) / (scaleTwo num den e).2 = num / den * 2 ^ e := by
  simp only [scaleTwo, power_eq]
  split
  · next he =>
    refine ⟨hd, ?_⟩
    obtain ⟨k, rfl⟩ := Int.eq_ofNat_of_zero_le he
    push_cast
    simp only [Int.toNat_natCast, zpow_natCast]
    ring
  · next he =>
    refine ⟨Nat.mul_ne_zero hd (by positivity), ?_⟩
    obtain ⟨k, rfl⟩ : ∃ k : Nat, e = -k := ⟨(-e).toNat, by omega⟩
    push_cast
    simp only [neg_neg, Int.toNat_natCast, zpow_neg, zpow_natCast]
    field_simp

/-- The mantissa of a number from `2 ^ j` to below the next power of two has 53 bits at the exponent
`j - 52`. -/
theorem mantissaExponent_eq {num den : Nat} (hn : num ≠ 0) (hd : den ≠ 0) {j : Int}
    (hlow : (2 : ℚ) ^ j ≤ num / den) (hhigh : (num : ℚ) / den < 2 ^ (j + 1)) :
    mantissaExponent num den = max (-1074) (j - 52) := by
  obtain ⟨hlow', hhigh'⟩ := log2_ratio hn hd
  unfold mantissaExponent
  set k : Int := (num.log2 : Int) - den.log2 with hk
  have hone : (1 : ℚ) < 2 := by norm_num
  have hj₁ : j < k + 1 := (zpow_lt_zpow_iff_right₀ hone).mp (lt_of_le_of_lt hlow hhigh')
  have hj₂ : k - 1 < j + 1 := (zpow_lt_zpow_iff_right₀ hone).mp (lt_trans hlow' hhigh)
  obtain ⟨hne, hratio⟩ := scaleTwo_ratio num hd (-k)
  rcases hsc : scaleTwo num den (-k) with ⟨n, d⟩
  rw [hsc] at hne hratio
  have hpos : (0 : ℚ) < d := by exact_mod_cast Nat.pos_of_ne_zero hne
  -- The scaled quotient is at least one exactly if `k` is the power of two below the quotient.
  have hiff : d ≤ n ↔ k ≤ j := by
    have h₁ : d ≤ n ↔ (1 : ℚ) ≤ n / d := by
      rw [le_div_iff₀ hpos, one_mul]
      exact_mod_cast Iff.rfl
    have hk0 : (0 : ℚ) < 2 ^ k := by positivity
    rw [h₁, hratio, zpow_neg, ← div_eq_mul_inv, le_div_iff₀ hk0, one_mul]
    constructor
    · intro h
      have := (zpow_lt_zpow_iff_right₀ hone).mp (lt_of_le_of_lt h hhigh)
      omega
    · intro h
      exact le_trans ((zpow_le_zpow_iff_right₀ hone).mpr h) hlow
  dsimp only
  rw [hsc]
  congr 1
  split
  · next h =>
    have := hiff.mp h
    omega
  · next h =>
    have := mt hiff.mpr h
    omega

theorem divHalfEven_mul (m : Nat) {d : Nat} (hd : d ≠ 0) : divHalfEven (m * d) d = m := by
  have hpos := Nat.pos_of_ne_zero hd
  unfold divHalfEven
  simp [hpos]

/-- A mantissa and an exponent of a double other than zero: 53 bits, or fewer at the least
exponent. -/
def Normal (m : Nat) (e : Int) : Prop :=
  0 < m ∧ m < 2 ^ 53 ∧ -1074 ≤ e ∧ (m < 2 ^ 52 → e = -1074)

/-- A quotient that is a double, infinity apart, is rounded to itself. -/
theorem nearestBits_of_ratio {num den m : Nat} {e : Int} (hm : Normal m e) (hd : den ≠ 0)
    (h : (num : ℚ) / den = m * 2 ^ e) :
    nearestBits num den = min infinityBits ((e + 1074).toNat * 2 ^ 52 + m) := by
  obtain ⟨hpos, hlt, hmin, hsub⟩ := hm
  have hm₁ : (2 : ℚ) ^ m.log2 ≤ m := by exact_mod_cast Nat.log2_self_le (by omega)
  have hm₂ : (m : ℚ) < 2 ^ (m.log2 + 1) := by exact_mod_cast Nat.lt_log2_self
  have hmpos : (0 : ℚ) < m := by exact_mod_cast hpos
  have hnum : num ≠ 0 := by
    rintro rfl
    have : (0 : ℚ) < m * 2 ^ e := by positivity
    rw [← h] at this
    simp at this
  have hlow : (2 : ℚ) ^ ((m.log2 : Int) + e) ≤ num / den := by
    rw [h, zpow_add₀ (by norm_num), zpow_natCast]
    gcongr
  have hhigh : (num : ℚ) / den < 2 ^ ((m.log2 : Int) + e + 1) := by
    rw [h, show (m.log2 : Int) + e + 1 = ((m.log2 + 1 : Nat) : Int) + e by push_cast; ring,
      zpow_add₀ (by norm_num), zpow_natCast]
    gcongr
  have hexp : mantissaExponent num den = e := by
    rw [mantissaExponent_eq hnum hd hlow hhigh]
    have hlog : m.log2 < 53 := (Nat.log2_lt (by omega)).mpr hlt
    by_cases hsmall : m < 2 ^ 52
    · have he := hsub hsmall
      have : m.log2 < 52 := (Nat.log2_lt (by omega)).mpr hsmall
      omega
    · have : 52 ≤ m.log2 := (Nat.le_log2 (by omega)).mpr (by omega)
      omega
  obtain ⟨hne, hratio⟩ := scaleTwo_ratio num hd (-e)
  unfold nearestBits
  rw [if_neg hnum, hexp, power_eq]
  rcases hsc : scaleTwo num den (-e) with ⟨n, d⟩
  rw [hsc] at hne hratio
  have hdpos : (d : ℚ) ≠ 0 := by exact_mod_cast hne
  have hn : n = m * d := by
    dsimp only at hratio
    rw [h, mul_assoc, ← zpow_add₀ (by norm_num), add_neg_cancel, zpow_zero, mul_one,
      div_eq_iff hdpos] at hratio
    exact_mod_cast hratio
  dsimp only
  rw [hsc, hn, divHalfEven_mul m hne]

/-- The parts of a finite number other than zero. -/
theorem normal_of_magnitude {bits m : Nat} {e : Int} (h : magnitudeOfBits bits = .finite m e)
    (hm : m ≠ 0) :
    Normal m e ∧ bits < infinityBits ∧ (e + 1074).toNat * 2 ^ 52 + m = bits := by
  rw [magnitudeOfBits, power_eq] at h
  split at h
  · cases h
  split at h
  · cases h
  split at h
  · cases h
    exact ⟨⟨by omega, by omega, by omega, fun _ => rfl⟩, by omega, by omega⟩
  · obtain ⟨rfl, rfl⟩ := Magnitude.finite.inj h
    exact ⟨⟨by omega, by omega, by omega, by omega⟩, by omega, by omega⟩

end Number

/-! ## Decimals -/

namespace Decimal

/-- The exact value. -/
def value (d : Decimal) : ℚ := d.coefficient * 10 ^ d.exponent

theorem value_normalize (d : Decimal) : d.normalize.value = d.value := by
  induction d using normalize.induct with
  | case1 d h ih =>
    rw [normalize, dif_pos h, ih, value, value]
    have hten : d.coefficient = d.coefficient / 10 * 10 := by omega
    conv => rhs; rw [hten]
    push_cast
    rw [zpow_add₀ (by norm_num), zpow_one]
    ring
  | case2 d h => rw [normalize, dif_neg h]

theorem normalize_normalize (d : Decimal) : d.normalize.normalize = d.normalize := by
  induction d using normalize.induct with
  | case1 d h ih =>
    have hd : d.normalize = normalize ⟨d.coefficient / 10, d.exponent + 1⟩ := by
      rw [normalize, dif_pos h]
    rw [hd, ih]
  | case2 d h =>
    have hd : d.normalize = d := by rw [normalize, dif_neg h]
    rw [hd, hd]

theorem bits_normalize (d : Decimal) : d.normalize.bits = d.bits := by
  rw [bits, bits, normalize_normalize]

/-- Zeros at the end of the coefficient may stand in the exponent. -/
theorem normalize_mul_pow {c : Nat} (hc : c ≠ 0) (k : Nat) (e : Int) :
    normalize ⟨c * 10 ^ k, e⟩ = normalize ⟨c, e + k⟩ := by
  induction k generalizing e with
  | zero => simp
  | succ k ih =>
    have hne : c * 10 ^ (k + 1) ≠ 0 := Nat.mul_ne_zero hc (by positivity)
    have hpow : c * 10 ^ (k + 1) = c * 10 ^ k * 10 := by rw [Nat.pow_succ, Nat.mul_assoc]
    have hmod : c * 10 ^ (k + 1) % 10 = 0 := by omega
    rw [normalize, dif_pos ⟨hne, hmod⟩]
    simp only [hpow, Nat.mul_div_cancel _ (by decide : 0 < 10)]
    rw [ih]
    congr 2
    push_cast
    ring

theorem bits_zero (e : Int) : bits ⟨0, e⟩ = 0 := by
  have h : normalize ⟨0, e⟩ = ⟨0, e⟩ := by
    rw [normalize, dif_neg (by simp)]
  rw [bits, h, roundedBits, if_pos rfl]

/-- Zeros at the end of the coefficient make no difference. -/
theorem bits_mul_pow (c k : Nat) (e : Int) : bits ⟨c * 10 ^ k, e⟩ = bits ⟨c, e + k⟩ := by
  by_cases hc : c = 0
  · rw [hc, Nat.zero_mul, bits_zero, bits_zero]
  · rw [bits, bits, normalize_mul_pow hc]

theorem bits_le (d : Decimal) : d.bits ≤ Number.infinityBits := by
  have nearest_le (num den : Nat) : Number.nearestBits num den ≤ Number.infinityBits := by
    unfold Number.nearestBits
    split
    · exact Nat.zero_le _
    · exact Nat.min_le_left _ _
  unfold bits roundedBits
  split
  · exact Nat.zero_le _
  split
  · split
    · exact Nat.le_refl _
    · exact nearest_le _ _
  split
  · exact Nat.zero_le _
  · exact nearest_le _ _

/-- A decimal whose value is a double is not so large or small that its size alone would decide. -/
theorem roundedBits_of_value {c m : Nat} {k e : Int} (hm : Number.Normal m e)
    (hbits : (e + 1074).toNat * 2 ^ 52 + m < Number.infinityBits)
    (h : (c : ℚ) * 10 ^ k = m * 2 ^ e) :
    roundedBits c k = (e + 1074).toNat * 2 ^ 52 + m := by
  have hmin := min_eq_right (le_of_lt hbits)
  have hmpos : (0 : ℚ) < m := by exact_mod_cast hm.1
  have hc : c ≠ 0 := by
    rintro rfl
    have : (0 : ℚ) < m * 2 ^ e := by positivity
    rw [← h] at this
    simp at this
  have hc₁ : (2 : ℚ) ^ c.log2 ≤ c := by exact_mod_cast Nat.log2_self_le hc
  have hc₂ : (c : ℚ) < 2 ^ (c.log2 + 1) := by exact_mod_cast Nat.lt_log2_self
  have hone : (1 : ℚ) < 2 := by norm_num
  simp only [roundedBits, Number.power_eq]
  rw [if_neg hc]
  split
  · next hk =>
    obtain ⟨k, rfl⟩ := Int.eq_ofNat_of_zero_le hk
    rw [zpow_natCast] at h
    -- The value is below `2 ^ 1024`, and a power of ten has three bits at least.
    have hsize : (c.log2 : Int) + 3 * k < 1024 := by
      have hle : (2 : ℚ) ^ ((c.log2 : Int) + 3 * k) ≤ c * 10 ^ k := by
        rw [zpow_add₀ (by norm_num), zpow_natCast, zpow_mul, zpow_natCast]
        gcongr
        norm_num
      have hlt : (m : ℚ) * 2 ^ e < 2 ^ (1024 : Int) := by
        have hm53 : (m : ℚ) < 2 ^ (53 : Int) := by exact_mod_cast hm.2.1
        have he : e ≤ 971 := by
          have h₁ := hm.2.2.2
          simp only [Number.infinityBits, Number.power_eq] at hbits
          omega
        calc (m : ℚ) * 2 ^ e < 2 ^ (53 : Int) * 2 ^ e := by gcongr
          _ = 2 ^ (53 + e) := (zpow_add₀ (by norm_num) _ _).symm
          _ ≤ 2 ^ (1024 : Int) := (zpow_le_zpow_iff_right₀ hone).mpr (by omega)
      rw [← h] at hlt
      exact (zpow_lt_zpow_iff_right₀ hone).mp (lt_of_le_of_lt hle hlt)
    rw [if_neg (by omega), Int.toNat_natCast,
      Number.nearestBits_of_ratio hm (by decide) (by push_cast; rw [div_one, h]), hmin]
  · next hk =>
    obtain ⟨k, rfl⟩ : ∃ k' : Nat, k = -k' := ⟨(-k).toNat, by omega⟩
    have h : (c : ℚ) / 10 ^ k = m * 2 ^ e := by rw [← h, zpow_neg, zpow_natCast, div_eq_mul_inv]
    -- The value is at least `2 ^ (-1074)`.
    have hsize : 3 * (k : Int) + -1074 < c.log2 + 1 := by
      have hle : (2 : ℚ) ^ (3 * (k : Int) + -1074) ≤ c := by
        have hc : (c : ℚ) = 10 ^ k * (m * 2 ^ e) := by
          rw [← h]
          field_simp
        have hm1 : (1 : ℚ) ≤ m := by exact_mod_cast hm.1
        have he : (2 : ℚ) ^ (-1074 : Int) ≤ 2 ^ e := (zpow_le_zpow_iff_right₀ hone).mpr hm.2.2.1
        calc (2 : ℚ) ^ (3 * (k : Int) + -1074) = 8 ^ k * (1 * 2 ^ (-1074 : Int)) := by
              rw [zpow_add₀ (by norm_num), zpow_mul, zpow_natCast, one_mul]
              norm_num
          _ ≤ 10 ^ k * (m * 2 ^ e) := by gcongr; norm_num
          _ = c := hc.symm
      have hlt := lt_of_le_of_lt hle hc₂
      rw [← zpow_natCast] at hlt
      exact_mod_cast (zpow_lt_zpow_iff_right₀ hone).mp hlt
    rw [if_neg (by omega), neg_neg, Int.toNat_natCast,
      Number.nearestBits_of_ratio hm (by positivity) (by push_cast; exact h), hmin]

/-- A decimal whose value is that of a finite number rounds to the bits of the number. -/
theorem bits_of_value {d : Decimal} {bits m : Nat} {e : Int}
    (hmag : Number.magnitudeOfBits bits = .finite m e) (hm : m ≠ 0) (h : d.value = m * 2 ^ e) :
    d.bits = bits := by
  obtain ⟨hnormal, hlt, hbits⟩ := Number.normal_of_magnitude hmag hm
  rw [Decimal.bits,
    roundedBits_of_value hnormal (hbits ▸ hlt) (by rw [← h, ← value_normalize, value]), hbits]

end Decimal

end Xbase
