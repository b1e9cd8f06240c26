import Mathlib.Algebra.Order.Ring.Int

/-!
# Times in seconds and nanoseconds

A `timespec` stands for a number of nanoseconds. Splitting a number by
division that truncates keeps the number (`nanos_truncate`) and puts the
nanoseconds in range where it agrees with the division that rounds down: on
the numbers that are not negative, and on whole seconds
(`truncate_valid_iff`).
-/

/-- `struct timespec`. -/
structure Timespec where
  tvSec : Int
  tvNsec : Int
  deriving DecidableEq, Repr

namespace Timespec

/-- The number of nanoseconds it stands for. -/
def nanos (t : Timespec) : Int := t.tvSec * 1000000000 + t.tvNsec

/-- The nanoseconds are in range. -/
def Valid (t : Timespec) : Prop := 0 ≤ t.tvNsec ∧ t.tvNsec < 1000000000

instance (t : Timespec) : Decidable t.Valid := inferInstanceAs (Decidable (_ ∧ _))

/-- Split by division that truncates, as `/` and `%` of C++ do. -/
def truncate (n : Int) : Timespec := ⟨n.tdiv 1000000000, n.tmod 1000000000⟩

theorem nanos_truncate (n : Int) : (truncate n).nanos = n :=
  Int.tdiv_mul_add_tmod n 1000000000

theorem Valid.tvSec_nonneg_iff {t : Timespec} (h : t.Valid) :
    0 ≤ t.tvSec ↔ 0 ≤ t.nanos := by
  obtain ⟨hlo, hhi⟩ := h
  rw [nanos]
  omega

theorem truncate_tvNsec (n : Int) :
    (truncate n).tvNsec =
      n % 1000000000 - if 0 ≤ n ∨ 1000000000 ∣ n then 0 else 1000000000 := by
  rw [truncate, Int.tmod_eq_emod]
  split
  · rfl
  · rfl

theorem truncate_valid_iff {n : Int} :
    (truncate n).Valid ↔ 0 ≤ n ∨ 1000000000 ∣ n := by
  rw [Valid, truncate_tvNsec]
  by_cases h : 0 ≤ n ∨ 1000000000 ∣ n
  · rw [if_pos h]
    omega
  · rw [if_neg h]
    omega

theorem truncate_valid {n : Int} (h : 0 ≤ n) : (truncate n).Valid :=
  truncate_valid_iff.mpr (Or.inl h)

end Timespec

/-! ## Counts of 64 bits -/

/-- A signed count of 64 bits, wrapped where it does not fit. -/
def wrapCount (n : Int) : Int := n.bmod (2 ^ 64)

theorem wrapCount_of_fits {n : Int} (hlo : -2 ^ 63 ≤ n) (hhi : n < 2 ^ 63) :
    wrapCount n = n :=
  Int.bmod_eq_of_le (by omega) (by omega)

theorem wrapCount_of_over {n : Int} (hlo : 2 ^ 63 ≤ n) (hhi : n < 2 ^ 64) :
    wrapCount n = n - 2 ^ 64 := by
  have hmod : n % ((2 ^ 64 : Nat) : Int) = n := Int.emod_eq_of_lt (by omega) (by omega)
  rw [wrapCount, Int.bmod_def, hmod, if_neg (by omega)]
  rfl
