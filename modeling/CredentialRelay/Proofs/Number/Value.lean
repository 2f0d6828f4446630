import Mathlib
import CredentialRelay.Json

namespace CredentialRelay

theorem Decimal.clampSigned_eq (n : ℤ) : clampSigned n = max (-2 ^ 63) (min n (2 ^ 63 - 1)) := by
  unfold clampSigned signedLimit
  omega

def towardZero (q : ℚ) : ℤ := if 0 ≤ q then ⌊q⌋ else ⌈q⌉

@[simp] theorem towardZero_intCast (n : ℤ) : towardZero n = n := by
  unfold towardZero
  split <;> simp

theorem towardZero_neg (q : ℚ) : towardZero (-q) = -towardZero q := by
  unfold towardZero
  rcases lt_trichotomy q 0 with negative | rfl | positive
  · rw [if_pos (neg_nonneg.2 negative.le), if_neg (not_le.2 negative), Int.floor_neg]
  · simp
  · rw [if_neg (not_le.2 (neg_lt_zero.2 positive)), if_pos positive.le, Int.ceil_neg]

namespace Binary64

def absolute (x : Binary64) : ℚ := x.mantissa * 2 ^ x.exponent

def value (x : Binary64) : ℚ := if x.negative then -x.absolute else x.absolute

theorem floor_absolute (x : Binary64) :
    ⌊x.absolute⌋ = ((x.mantissa <<< x.exponent.toNat >>> (-x.exponent).toNat : ℕ) : ℤ) := by
  unfold absolute
  cases x.exponent with
  | ofNat k =>
      have whole : (x.mantissa : ℚ) * 2 ^ (k : ℤ) = ((x.mantissa * 2 ^ k : ℕ) : ℤ) := by
        push_cast
        rw [zpow_natCast]
      rw [Int.ofNat_eq_natCast, whole, Int.floor_intCast, Int.toNat_natCast, Int.toNat_neg_natCast,
        Nat.shiftLeft_eq, Nat.shiftRight_zero]
  | negSucc k =>
      have cut : (x.mantissa : ℚ) * 2 ^ Int.negSucc k = (x.mantissa : ℚ) / (2 ^ (k + 1) : ℕ) := by
        rw [zpow_negSucc, div_eq_mul_inv]
        push_cast
        rfl
      rw [cut, Rat.floor_natCast_div_natCast, Int.toNat_negSucc, Int.neg_negSucc, Nat.shiftLeft_zero,
        Nat.shiftRight_eq_div_pow]
      norm_cast

theorem trunc_eq_towardZero (x : Binary64) : x.trunc = towardZero x.value := by
  have positive : 0 ≤ x.absolute := by
    unfold absolute
    positivity
  have whole : towardZero x.absolute = ⌊x.absolute⌋ := if_pos positive
  rw [floor_absolute] at whole
  unfold trunc value
  cases x.negative with
  | false => exact whole.symm
  | true =>
      rw [if_pos rfl, if_pos rfl, towardZero_neg, whole]

end Binary64

namespace Json.Number

def value : Number → ℚ
  | integer n => n
  | double x => x.value

theorem trunc_eq_towardZero (number : Number) : number.trunc = towardZero number.value := by
  cases number with
  | integer n => exact (towardZero_intCast n).symm
  | double x => exact x.trunc_eq_towardZero

end Json.Number

end CredentialRelay
