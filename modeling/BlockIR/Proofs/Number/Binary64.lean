import BlockIR.Number.Binary64
import Mathlib.Algebra.Order.Field.Rat
import Mathlib.Tactic.Positivity

namespace BlockIR.Binary64

def toRat (x : Binary64) : ℚ :=
  (if x.negative then -1 else 1) * (x.mantissa * 2 ^ x.exponent)

lemma magnitude_pos (x : Binary64) : 0 < x.magnitude.2 := by
  unfold magnitude Ratio.scale
  split
  · exact Nat.one_pos
  · exact Nat.mul_pos Nat.one_pos (Nat.pow_pos (by decide))

lemma magnitude_eq (x : Binary64) :
    (x.magnitude.1 : ℚ) / x.magnitude.2 = x.mantissa * 2 ^ x.exponent := by
  unfold magnitude Ratio.scale
  split
  · rename_i he
    obtain ⟨k, hk⟩ := Int.eq_ofNat_of_zero_le he
    simp [hk]
  · rename_i he
    obtain ⟨k, hk⟩ := Int.exists_eq_neg_ofNat (by omega : x.exponent ≤ 0)
    simp [hk, div_eq_mul_inv]

lemma natCast_div_eq_iff {a d : ℕ} (hd : 0 < d) {n : ℤ} :
    (a : ℚ) / d = n ↔ a % d = 0 ∧ (a : ℤ) / d = n := by
  have hq : (d : ℚ) ≠ 0 := by positivity
  have hz : (d : ℤ) ≠ 0 := by positivity
  have hmul : (a : ℚ) / d = n ↔ (a : ℤ) = n * d := by
    rw [div_eq_iff hq]
    norm_cast
  rw [hmul]
  constructor
  · intro h
    have hdvd : (d : ℤ) ∣ a := ⟨n, by rw [h, mul_comm]⟩
    exact ⟨Nat.mod_eq_zero_of_dvd (Int.natCast_dvd_natCast.1 hdvd), by rw [h, Int.mul_ediv_cancel n hz]⟩
  · rintro ⟨hmod, rfl⟩
    exact (Int.ediv_mul_cancel (Int.natCast_dvd_natCast.2 (Nat.dvd_of_mod_eq_zero hmod))).symm

lemma toInt?_eq_some_iff {x : Binary64} {n : ℤ} : x.toInt? = some n ↔ x.toRat = n := by
  have hint := natCast_div_eq_iff (a := x.magnitude.1) x.magnitude_pos (n := if x.negative then -n else n)
  have hneg (q : ℚ) : -q = n ↔ q = (-n : ℤ) := by rw [neg_eq_iff_eq_neg, Int.cast_neg]
  have hsome : x.toInt? = some n ↔ x.magnitude.1 % x.magnitude.2 = 0 ∧
      (x.magnitude.1 : ℤ) / x.magnitude.2 = if x.negative then -n else n := by
    unfold toInt?
    by_cases hm : x.magnitude.1 % x.magnitude.2 = 0
    · cases x.negative <;> simp [hm, neg_eq_iff_eq_neg]
    · simp [hm]
  rw [hsome, ← hint, magnitude_eq, toRat]
  cases x.negative <;> simp [hneg]

end BlockIR.Binary64
