import Mathlib.Algebra.Order.Field.Basic
import Mathlib.Data.Rat.Cast.Order
import Mathlib.Tactic.FieldSimp
import Mathlib.Tactic.Ring
import PeerHealth.Number.Reading

/-! The numbers that texts are rounded to. Main statements: rounding to a whole number goes no
further than the whole numbers around, and a number read from text has at most 53 bits. -/

namespace PeerHealth.Number

theorem twoTo_eq (n : Nat) : twoTo n = 2 ^ n := rfl

theorem twoTo_pos (n : Nat) : 0 < twoTo n := Nat.two_pow_pos n

section Rounding

variable {num den k : Nat}

/-- A quotient is not rounded past a whole number that it does not pass. -/
theorem roundDiv_le (hden : 0 < den) (h : num ≤ k * den) : roundDiv num den ≤ k := by
  have hsplit := Nat.div_add_mod num den
  have hquotient : num / den ≤ k := Nat.div_le_of_le_mul (by rwa [Nat.mul_comm])
  rcases Nat.lt_or_ge (num / den) k with hlt | hge
  · unfold roundDiv
    dsimp only
    split_ifs <;> omega
  · have heq : num / den = k := Nat.le_antisymm hquotient hge
    have hrest : num % den = 0 := by
      rw [heq, Nat.mul_comm] at hsplit
      omega
    rw [roundDiv, hrest, if_pos (by omega), heq]

/-- At most a half is rounded to nothing. -/
theorem roundDiv_eq_zero_iff (hden : 0 < den) : roundDiv num den = 0 ↔ 2 * num ≤ den := by
  unfold roundDiv
  dsimp only
  rcases Nat.lt_or_ge num den with hlt | hge
  · rw [Nat.div_eq_of_lt hlt, Nat.mod_eq_of_lt hlt]
    constructor <;> intro h <;> split_ifs at h ⊢ <;> omega
  · have hquotient : 0 < num / den := Nat.div_pos hge hden
    constructor <;> intro h <;> split_ifs at h ⊢ <;> omega

theorem roundDiv_one (n : Nat) : roundDiv n 1 = n := by
  simp [roundDiv, Nat.mod_one]

end Rounding

namespace Binary64

/-- The number itself. -/
def value (x : Binary64) : ℚ := x.mantissa * 2 ^ x.exponent

theorem toRatio_pos (x : Binary64) : 0 < x.toRatio.2 := by
  unfold toRatio
  split
  · exact twoTo_pos _
  · exact Nat.one_pos

theorem value_eq (x : Binary64) : x.value = x.toRatio.1 / x.toRatio.2 := by
  unfold value toRatio
  split
  · rename_i hneg
    obtain ⟨n, hn⟩ := Int.eq_ofNat_of_zero_le (by omega : 0 ≤ -x.exponent)
    have hexponent : x.exponent = -(n : Int) := by omega
    rw [hexponent, zpow_neg, zpow_natCast, neg_neg, Int.toNat_natCast, twoTo_eq]
    push_cast
    rw [div_eq_mul_inv]
  · rename_i hnonneg
    obtain ⟨n, hn⟩ := Int.eq_ofNat_of_zero_le (by omega : 0 ≤ x.exponent)
    rw [hn, zpow_natCast, Int.toNat_natCast, twoTo_eq]
    push_cast
    rw [div_one]

/-- In units of any power of two a quotient is a fraction, one of whose parts stays. -/
theorem inUnits_eq (num den : Nat) (exponent : Int) :
    inUnits num den exponent =
      (num * twoTo (-exponent).toNat, den * twoTo exponent.toNat) := by
  unfold inUnits
  split
  · rw [Int.toNat_of_nonpos (by omega : exponent ≤ 0), twoTo_zero, Nat.mul_one]
  · rw [Int.toNat_of_nonpos (by omega : -exponent ≤ 0), twoTo_zero, Nat.mul_one]

/-- In units of `2 ^ exponent` the quotient has at most 53 bits before the point. -/
def Fits (num den : Nat) (exponent : Int) : Prop :=
  num * twoTo (-exponent).toNat < 2 * least * (den * twoTo exponent.toNat)

/-- The exponents of the highest bits tell the size of a quotient up to a factor of two. -/
theorem fits_of_log2 {num den : Nat} {exponent : Int} (hden : den ≠ 0)
    (h : (num.log2 : Int) - den.log2 - 52 ≤ exponent) : Fits num den exponent := by
  have hleast : 2 * least = 2 ^ 53 := by decide
  have hsize : num.log2 + 1 + (-exponent).toNat ≤ 53 + (den.log2 + exponent.toNat) := by omega
  unfold Fits
  rw [hleast, twoTo_eq, twoTo_eq]
  calc num * 2 ^ (-exponent).toNat
      < 2 ^ (num.log2 + 1) * 2 ^ (-exponent).toNat :=
        Nat.mul_lt_mul_of_pos_right Nat.lt_log2_self (Nat.two_pow_pos _)
    _ = 2 ^ (num.log2 + 1 + (-exponent).toNat) := (pow_add ..).symm
    _ ≤ 2 ^ (53 + (den.log2 + exponent.toNat)) := Nat.pow_le_pow_right (by decide) hsize
    _ = 2 ^ 53 * (2 ^ den.log2 * 2 ^ exponent.toNat) := by rw [pow_add, pow_add]
    _ ≤ 2 ^ 53 * (den * 2 ^ exponent.toNat) :=
        Nat.mul_le_mul_left _ (Nat.mul_le_mul_right _ (Nat.log2_self_le hden))

/-- Half a unit can be taken where the quotient has room for another bit. -/
theorem fits_pred {num den : Nat} {exponent : Int}
    (h : num * twoTo (-exponent).toNat < least * (den * twoTo exponent.toNat)) :
    Fits num den (exponent - 1) := by
  unfold Fits
  by_cases hlt : 0 < exponent
  · have hnone : (-(exponent - 1)).toNat = (-exponent).toNat := by omega
    have hdown : exponent.toNat = (exponent - 1).toNat + 1 := by omega
    rw [hdown, twoTo_succ] at h
    rw [hnone]
    calc num * twoTo (-exponent).toNat
        < least * (den * (twoTo (exponent - 1).toNat * 2)) := h
      _ = 2 * least * (den * twoTo (exponent - 1).toNat) := by ring
  · have hup : (-(exponent - 1)).toNat = (-exponent).toNat + 1 := by omega
    have hnone : (exponent - 1).toNat = exponent.toNat := by omega
    rw [hup, hnone, twoTo_succ, ← Nat.mul_assoc, Nat.mul_comm _ 2, Nat.mul_assoc 2]
    exact Nat.mul_lt_mul_of_pos_left h (by decide)

theorem fits_unitExponent {num den : Nat} (hden : den ≠ 0) :
    Fits num den (unitExponent num den) := by
  simp only [unitExponent, inUnits_eq]
  split
  · rename_i h
    refine fits_pred ?_
    have hpos : 0 < den * twoTo (max ((num.log2 : Int) - den.log2 - 52) (-1074)).toNat :=
      Nat.mul_pos (Nat.pos_of_ne_zero hden) (twoTo_pos _)
    exact (Nat.div_lt_iff_lt_mul hpos).mp h.1
  · exact fits_of_log2 hden (Int.le_max_left ..)

/-- A number nearest to a quotient has at most 53 bits. -/
theorem mantissa_ofRatio {num den : Nat} {x : Binary64} (hden : den ≠ 0)
    (h : ofRatio num den = some x) : x.mantissa < 2 * least := by
  unfold ofRatio at h
  split at h
  · cases h
    decide
  · have hfits : Fits num den (unitExponent num den) := fits_unitExponent hden
    simp only [inUnits_eq] at h
    have hpos : 0 < den * twoTo (unitExponent num den).toNat :=
      Nat.mul_pos (Nat.pos_of_ne_zero hden) (twoTo_pos _)
    have hle := roundDiv_le hpos (Nat.le_of_lt hfits)
    generalize roundDiv _ _ = m at h hle
    rw [Option.ite_none_left_eq_some] at h
    obtain ⟨-, heq⟩ := h
    rw [← Option.some.inj heq]
    split
    · exact (by decide : least < 2 * least)
    · rename_i hne
      exact Nat.lt_of_le_of_ne hle hne

end Binary64

theorem mantissa_nearestDecimal {significand : Nat} {exponent : Int} {x : Binary64}
    (h : nearestDecimal significand exponent = some x) : x.mantissa < 2 * Binary64.least := by
  unfold nearestDecimal at h
  split at h
  · cases h
    decide
  · dsimp only at h
    split_ifs at h
    · cases h
      decide
    · exact Binary64.mantissa_ofRatio (Nat.ne_of_gt (tenTo_pos _)) h
    · exact Binary64.mantissa_ofRatio Nat.one_ne_zero h

theorem mantissa_unsigned? {negative sign : Bool} {cs : List Char} {x : Binary64}
    (h : unsigned? negative cs = some (.finite sign x)) : x.mantissa < 2 * Binary64.least := by
  simp only [unsigned?] at h
  split at h
  · cases h
  split at h
  · cases h
  -- with or without a point
  split at h
  all_goals
    split at h
    · cases h
    obtain ⟨e, -, he⟩ := Option.map_eq_some_iff.mp h
    split at he
    · rename_i hnearest
      cases he
      exact mantissa_nearestDecimal hnearest
    · cases he

/-- A finite number read from text has at most 53 bits. -/
theorem mantissa_reading? {sign : Bool} {cs : List Char} {x : Binary64}
    (h : reading? cs = some (.finite sign x)) : x.mantissa < 2 * Binary64.least := by
  unfold reading? at h
  split at h <;> exact mantissa_unsigned? h

end PeerHealth.Number
