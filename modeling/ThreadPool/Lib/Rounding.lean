import Mathlib.Algebra.Order.Floor.Div
import Mathlib.Order.Bounds.Basic

/-!
# Rounding up by a mask

The idiom `(x + p - 1) & ~(p - 1)` on unsigned words. For `p` a power of two
clearing the low bits is a division and a multiplication (`toNat_clear`), so
the idiom computes the least multiple of `p` that is no less than `x`, as
long as that multiple fits the word. Where it does not fit the addition
wraps, and what comes out is less than `x`; there is no third case.
-/

namespace Rounding

variable {w k : Nat}

/-- The least multiple of `p` that is no less than `n`. -/
def ceil (p n : Nat) : Nat := p * (n ⌈/⌉ p)

theorem le_ceil {p : Nat} (hp : 0 < p) (n : Nat) : n ≤ ceil p n := le_smul_ceilDiv hp

theorem ceil_le_iff {p n m : Nat} (hp : 0 < p) (hm : p ∣ m) : ceil p n ≤ m ↔ n ≤ m := by
  obtain ⟨c, rfl⟩ := hm
  rw [ceil, Nat.mul_le_mul_left_iff hp, ceilDiv_le_iff_le_mul hp]

theorem isLeast_ceil {p : Nat} (hp : 0 < p) (n : Nat) :
    IsLeast {m | p ∣ m ∧ n ≤ m} (ceil p n) :=
  ⟨⟨Nat.dvd_mul_right p _, le_ceil hp n⟩, fun _ hm => (ceil_le_iff hp hm.1).mpr hm.2⟩

theorem ceil_lt_add {p : Nat} (hp : 0 < p) (n : Nat) : ceil p n < n + p := by
  rw [ceil, Nat.ceilDiv_eq_add_pred_div]
  have hle := Nat.mul_div_le (n + p - 1) p
  omega

theorem ceil_of_dvd {p n : Nat} (hp : 0 < p) (hn : p ∣ n) : ceil p n = n :=
  Nat.le_antisymm ((ceil_le_iff hp hn).mpr le_rfl) (le_ceil hp n)

theorem ceil_lt_iff {p n m : Nat} (hp : 0 < p) (hm : p ∣ m) (hpm : p ≤ m) :
    ceil p n < m ↔ n + p ≤ m := by
  obtain ⟨c, rfl⟩ := hm
  have hc : 0 < c := by
    rcases Nat.eq_zero_or_pos c with rfl | hc
    · omega
    · exact hc
  have hsub : p * (c - 1) = p * c - p := by rw [Nat.mul_sub, Nat.mul_one]
  have hstep : ceil p n < p * c ↔ ceil p n ≤ p * (c - 1) := by
    rw [ceil, Nat.mul_lt_mul_left hp, Nat.mul_le_mul_left_iff hp]
    omega
  rw [hstep, ceil_le_iff hp (Nat.dvd_mul_right p _), hsub]
  omega

/-! ## Words -/

theorem toNat_clear {x p : BitVec w} (hp : p.toNat = 2 ^ k) :
    (x &&& ~~~(p - 1#w)).toNat = x.toNat / 2 ^ k * 2 ^ k := by
  have hlt : 2 ^ k < 2 ^ w := hp ▸ p.isLt
  have hkw : k < w := (Nat.pow_lt_pow_iff_right Nat.one_lt_two).mp hlt
  have hone : (1#w).toNat = 1 := BitVec.toNat_one (Nat.zero_lt_of_lt hkw)
  have hmask : (p - 1#w).toNat = 2 ^ k - 1 := by
    rw [BitVec.toNat_sub_of_le (by rw [BitVec.le_def, hone, hp]; exact Nat.one_le_two_pow),
      hone, hp]
  refine Nat.eq_of_testBit_eq fun i => ?_
  rw [BitVec.testBit_toNat, BitVec.getLsbD_and, BitVec.getLsbD_not,
    ← BitVec.testBit_toNat (p - 1#w), hmask, Nat.testBit_two_pow_sub_one,
    Nat.testBit_mul_two_pow, Nat.testBit_div_two_pow, BitVec.testBit_toNat]
  by_cases hki : k ≤ i
  · rw [Nat.sub_add_cancel hki]
    by_cases hiw : i < w
    · simp [hki, hiw]
    · rw [BitVec.getLsbD_of_ge x i (by omega)]
      simp
  · simp [hki, Nat.lt_of_not_le hki]

theorem toNat_add_pred {x p : BitVec w} (hp : 0 < p.toNat) :
    (x + p - 1#w).toNat = (x.toNat + p.toNat - 1) % 2 ^ w := by
  have hw : 0 < w := by
    rcases Nat.eq_zero_or_pos w with rfl | hw
    · have hlt := p.isLt
      omega
    · exact hw
  have hpos : 1 ≤ 2 ^ w := Nat.one_le_two_pow
  rw [BitVec.toNat_sub, BitVec.toNat_add, BitVec.toNat_one hw, Nat.add_mod_mod,
    show 2 ^ w - 1 + (x.toNat + p.toNat) = x.toNat + p.toNat - 1 + 2 ^ w by omega,
    Nat.add_mod_right]

/-- Where the multiple fits the word, the idiom computes it. -/
theorem toNat_roundUp {x p : BitVec w} (hp : p.toNat = 2 ^ k)
    (hfits : x.toNat + 2 ^ k ≤ 2 ^ w) :
    ((x + p - 1#w) &&& ~~~(p - 1#w)).toNat = ceil (2 ^ k) x.toNat := by
  have hpos : 0 < 2 ^ k := Nat.two_pow_pos k
  rw [toNat_clear hp, toNat_add_pred (by omega), hp, Nat.mod_eq_of_lt (by omega), ceil,
    Nat.ceilDiv_eq_add_pred_div, Nat.mul_comm]

/-- Where it does not, the result is too small. -/
theorem toNat_roundUp_lt {x p : BitVec w} (hp : p.toNat = 2 ^ k)
    (hwraps : 2 ^ w < x.toNat + 2 ^ k) :
    ((x + p - 1#w) &&& ~~~(p - 1#w)).toNat < x.toNat := by
  have hpos : 0 < 2 ^ k := Nat.two_pow_pos k
  have hplt := p.isLt
  have hxlt := x.isLt
  have hwrap : (x.toNat + 2 ^ k - 1) % 2 ^ w = x.toNat + 2 ^ k - 1 - 2 ^ w := by
    rw [Nat.mod_eq_sub_mod (by omega), Nat.mod_eq_of_lt (by omega)]
  rw [toNat_clear hp, toNat_add_pred (by omega), hp, hwrap]
  have hle := Nat.div_mul_le_self (x.toNat + 2 ^ k - 1 - 2 ^ w) (2 ^ k)
  omega

theorem toNat_roundUp_wraps {x p : BitVec w} (hp : p.toNat = 2 ^ k)
    (hwraps : 2 ^ w < x.toNat + 2 ^ k) : ((x + p - 1#w) &&& ~~~(p - 1#w)).toNat = 0 := by
  have hplt := p.isLt
  have hxlt := x.isLt
  have hwrap : (x.toNat + 2 ^ k - 1) % 2 ^ w = x.toNat + 2 ^ k - 1 - 2 ^ w := by
    rw [Nat.mod_eq_sub_mod (by omega), Nat.mod_eq_of_lt (by omega)]
  rw [toNat_clear hp, toNat_add_pred (by omega), hp, hwrap, Nat.div_eq_of_lt (by omega),
    Nat.zero_mul]

end Rounding
