import Mathlib.Algebra.Order.Field.Basic
import Mathlib.Algebra.Order.Floor.Ring
import Mathlib.Data.Rat.Floor
import Mathlib.Tactic.Linarith

/-!
# Interpolating between two bounds

A value that falls linearly from `b` to `a` as a fraction goes from nought to
one stays between the two for as long as the fraction is one, and no longer.
Casting the value to an integer by dropping what is behind the point does
not change that for positive bounds.
-/

namespace Interpolation

variable {K : Type*} [Field K] [LinearOrder K] [IsStrictOrderedRing K]

/-- From `b` at nought down to `a` at one. -/
def descend (a b l : K) : K := a + (b - a) * (1 - l)

theorem le_descend_iff {a b l : K} (hab : a < b) : a ≤ descend a b l ↔ l ≤ 1 := by
  have hpos : 0 < b - a := sub_pos.mpr hab
  rw [descend, le_add_iff_nonneg_right, mul_nonneg_iff_of_pos_left hpos, sub_nonneg]

theorem descend_le_iff {a b l : K} (hab : a < b) : descend a b l ≤ b ↔ 0 ≤ l := by
  have hpos : 0 < b - a := sub_pos.mpr hab
  rw [descend, ← le_sub_iff_add_le', mul_le_iff_le_one_right hpos, sub_le_self_iff]

section Truncate

variable [FloorRing K]

/-- Towards zero, as a cast to an integer type goes. -/
def truncate (q : K) : Int := if 0 ≤ q then ⌊q⌋ else ⌈q⌉

theorem le_truncate_iff {q : K} {m : Int} (hm : 0 < m) : m ≤ truncate q ↔ (m : K) ≤ q := by
  unfold truncate
  split
  · exact Int.le_floor
  · next hneg =>
      have hlt : q < 0 := lt_of_not_ge hneg
      have hceil : ⌈q⌉ ≤ 0 := Int.ceil_le.mpr (by exact_mod_cast hlt.le)
      have hpos : (0 : K) < m := Int.cast_pos.mpr hm
      exact ⟨fun h => by omega, fun h => absurd (hpos.trans_le h) hlt.not_gt⟩

theorem truncate_le {q : K} {m : Int} (hm : 0 ≤ m) (hq : q ≤ m) : truncate q ≤ m := by
  unfold truncate
  split
  · exact_mod_cast (Int.floor_le q).trans hq
  · next hneg =>
      have hceil : ⌈q⌉ ≤ 0 := Int.ceil_le.mpr (by exact_mod_cast (lt_of_not_ge hneg).le)
      omega

theorem le_truncate {q : K} {m : Int} (hq : (m : K) ≤ q) : m ≤ truncate q := by
  unfold truncate
  split
  · exact Int.le_floor.mpr hq
  · exact_mod_cast hq.trans (Int.le_ceil q)

end Truncate

end Interpolation
