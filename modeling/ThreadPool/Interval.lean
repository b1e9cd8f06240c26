import ThreadPool.Lib.Interpolation
import ThreadPool.Normal.Model
import ThreadPool.Numa.Model

/-!
# The interval of the monitor

`AdjustCheckInterval` of both pools: from the task count and the thread count
it loads, how long the monitor is going to wait. Loads are of type `size_t`,
so the product in the test of the second branch is modulo `2 ^ 64`. The
`double`s are read as rationals, and a division by zero is `none`.
-/

namespace ThreadPool

open Interpolation

/-- `static_cast<double>(task_count) / thread_count`. -/
def loadFactor (taskCount threadCount : Nat) : Option ℚ :=
  if threadCount = 0 then none else some (taskCount / threadCount)

/-- The body of `AdjustCheckInterval`, for a pool's bounds and threshold; in
milliseconds. -/
def scaledInterval (minInterval maxInterval : Int) (threshold taskCount threadCount : Nat) :
    Option Int :=
  if taskCount = 0 then some maxInterval
  else if taskCount > threadCount * threshold % 2 ^ 64 then some minInterval
  else (loadFactor taskCount threadCount).map fun load =>
    truncate ((minInterval : ℚ) + (maxInterval - minInterval) * (1 - load))

namespace Normal

/-- In milliseconds. -/
def minCheckInterval : Int := 100
def maxCheckInterval : Int := 5000

/-- `NormalThreadPool::AdjustCheckInterval`: what it stores. -/
def adjustCheckInterval (taskCount threadCount : Nat) : Option Int :=
  scaledInterval minCheckInterval maxCheckInterval expandThreshold taskCount threadCount

end Normal

namespace Numa

/-- In milliseconds. -/
def minCheckInterval : Int := 100
def maxCheckInterval : Int := 5000

/-- `NumaThreadPool::AdjustCheckInterval`: what it stores. -/
def adjustCheckInterval (taskCount threadCount : Nat) : Option Int :=
  scaledInterval minCheckInterval maxCheckInterval expandThreshold taskCount threadCount

end Numa

/-! ## The range -/

section Scaled

variable {lo hi : Int} {threshold t n : Nat}

theorem threads_pos (ht : t ≠ 0) (hload : ¬t > n * threshold % 2 ^ 64) : 0 < n := by
  rcases Nat.eq_zero_or_pos n with rfl | hn
  · rw [Nat.zero_mul, Nat.zero_mod] at hload
    omega
  · exact hn

/-- In the last branch the interval is interpolated. -/
theorem scaledInterval_eq (ht : t ≠ 0) (hload : ¬t > n * threshold % 2 ^ 64) :
    scaledInterval lo hi threshold t n =
      some (truncate (descend (lo : ℚ) hi (t / n))) := by
  have hn := threads_pos ht hload
  rw [scaledInterval, if_neg ht, if_neg hload, loadFactor, if_neg (by omega)]
  rfl

theorem scaledInterval_ne_none : scaledInterval lo hi threshold t n ≠ none := by
  by_cases ht : t = 0
  · rw [scaledInterval, if_pos ht]
    exact Option.some_ne_none hi
  by_cases hload : t > n * threshold % 2 ^ 64
  · rw [scaledInterval, if_neg ht, if_pos hload]
    exact Option.some_ne_none lo
  · rw [scaledInterval_eq ht hload]
    exact Option.some_ne_none _

/-- The interval is in its range exactly where the interpolation is not made,
or the tasks do not outnumber the threads. -/
theorem scaledInterval_range (hlo : 0 < lo) (hlt : lo < hi) :
    (∃ i ∈ scaledInterval lo hi threshold t n, lo ≤ i ∧ i ≤ hi) ↔
      t = 0 ∨ t > n * threshold % 2 ^ 64 ∨ t ≤ n := by
  by_cases ht : t = 0
  · rw [scaledInterval, if_pos ht]
    exact ⟨fun _ => Or.inl ht, fun _ => ⟨hi, rfl, hlt.le, le_rfl⟩⟩
  by_cases hload : t > n * threshold % 2 ^ 64
  · rw [scaledInterval, if_neg ht, if_pos hload]
    exact ⟨fun _ => Or.inr (Or.inl hload), fun _ => ⟨lo, rfl, le_rfl, hlt.le⟩⟩
  have hn : (0 : ℚ) < n := Nat.cast_pos.mpr (threads_pos ht hload)
  have hbounds : (lo : ℚ) < hi := Int.cast_lt.mpr hlt
  have hupper : truncate (descend (lo : ℚ) hi (t / n)) ≤ hi :=
    truncate_le (by omega) ((descend_le_iff hbounds).mpr (by positivity))
  have hlower : lo ≤ truncate (descend (lo : ℚ) hi (t / n)) ↔ t ≤ n := by
    rw [le_truncate_iff hlo, le_descend_iff hbounds, div_le_one hn, Nat.cast_le]
  rw [scaledInterval_eq ht hload]
  constructor
  · rintro ⟨i, hi', hle, -⟩
    cases hi'
    exact Or.inr (Or.inr (hlower.mp hle))
  · intro h
    exact ⟨_, rfl, hlower.mpr ((h.resolve_left ht).resolve_left hload), hupper⟩

/-- What the last branch casts is not far below the range, so the cast of a
`double` to `int` is defined. -/
theorem scaledInterval_fits {i : Int} (hlo : 0 < lo) (hlt : lo < hi) (hthr : 1 ≤ threshold)
    (h : i ∈ scaledInterval lo hi threshold t n) :
    hi - (hi - lo) * threshold ≤ i ∧ i ≤ hi := by
  have hone : (1 : Int) ≤ threshold := by exact_mod_cast hthr
  have hspan : hi - lo ≤ (hi - lo) * threshold := le_mul_of_one_le_right (by omega) hone
  by_cases ht : t = 0
  · rw [scaledInterval, if_pos ht] at h
    cases h
    omega
  by_cases hload : t > n * threshold % 2 ^ 64
  · rw [scaledInterval, if_neg ht, if_pos hload] at h
    cases h
    omega
  have hn : (0 : ℚ) < n := Nat.cast_pos.mpr (threads_pos ht hload)
  have hbounds : (lo : ℚ) < hi := Int.cast_lt.mpr hlt
  have hle : (t : ℚ) / n ≤ threshold := by
    rw [div_le_iff₀ hn, mul_comm]
    exact_mod_cast (Nat.not_lt.mp hload).trans (Nat.mod_le _ _)
  rw [scaledInterval_eq ht hload] at h
  cases h
  refine ⟨le_truncate ?_, truncate_le (by omega) ((descend_le_iff hbounds).mpr (by positivity))⟩
  rw [descend]
  push_cast
  nlinarith

end Scaled

/-- The condition on the loads: no task, or so many that the shortest interval
is taken, or no more than threads. -/
def Balanced (threshold taskCount threadCount : Nat) : Prop :=
  taskCount = 0 ∨ taskCount > threadCount * threshold % 2 ^ 64 ∨ taskCount ≤ threadCount

instance (threshold taskCount threadCount : Nat) :
    Decidable (Balanced threshold taskCount threadCount) :=
  inferInstanceAs (Decidable (_ ∨ _ ∨ _))

/-- `AdjustCheckInterval` never divides by zero, and what it stores is in its
range exactly on balanced loads. -/
theorem interval_in_range (taskCount threadCount : Nat) :
    (Normal.adjustCheckInterval taskCount threadCount ≠ none ∧
      ((∃ i ∈ Normal.adjustCheckInterval taskCount threadCount, 100 ≤ i ∧ i ≤ 5000) ↔
        Balanced Normal.expandThreshold taskCount threadCount)) ∧
    (Numa.adjustCheckInterval taskCount threadCount ≠ none ∧
      ((∃ i ∈ Numa.adjustCheckInterval taskCount threadCount, 100 ≤ i ∧ i ≤ 5000) ↔
        Balanced Numa.expandThreshold taskCount threadCount)) := by
  constructor
  · exact ⟨scaledInterval_ne_none, scaledInterval_range (by decide) (by decide)⟩
  · exact ⟨scaledInterval_ne_none, scaledInterval_range (by decide) (by decide)⟩

/-- Two tasks and one thread. -/
theorem interval_negative :
    ¬∀ taskCount threadCount : Nat,
      ∃ i ∈ Normal.adjustCheckInterval taskCount threadCount, 100 ≤ i ∧ i ≤ 5000 := by
  intro hall
  obtain ⟨i, hi, hle, -⟩ := hall 2 1
  have hval : Normal.adjustCheckInterval 2 1 = some (-4800) := by decide +kernel
  rw [hval] at hi
  cases hi
  exact absurd hle (by decide)

end ThreadPool
