import Mathlib.Order.Basic

/-!
# Contiguous storage

A vector keeps its elements in one block. `push_back` onto a full block gives
it up for a larger one, how much larger is the policy `grow`, and everything
that pointed into the old block points nowhere. A `Storage` is the block
alone: how many elements it holds room for, and how many blocks came before
it, which is what a reference to an element is compared with. A `Storage` of
the capacity `n` and the size 0 is what `reserve(n)` makes of an empty vector,
and `clear` leaves a `Storage` as it is.
-/

/-- The block a vector keeps its elements in. -/
structure Storage where
  capacity : Nat
  moves : Nat := 0
  deriving DecidableEq, Repr

namespace Storage

/-- The policy of libstdc++. -/
def doubled (size : Nat) : Nat := size + max size 1

theorem lt_doubled (size : Nat) : size < doubled size := by
  unfold doubled
  omega

variable {grow : Nat → Nat} {v : Storage} {size k : Nat}

/-- `push_back` onto `size` elements. -/
def push (grow : Nat → Nat) (v : Storage) (size : Nat) : Storage :=
  if size = v.capacity then ⟨grow size, v.moves + 1⟩ else v

/-- `k` times `push_back`. -/
def pushes (grow : Nat → Nat) (v : Storage) (size : Nat) : Nat → Storage
  | 0 => v
  | k + 1 => (pushes grow v size k).push grow (size + k)

theorem push_of_lt (h : size < v.capacity) : v.push grow size = v :=
  if_neg (Nat.ne_of_lt h)

theorem pushes_of_le (h : size + k ≤ v.capacity) : v.pushes grow size k = v := by
  induction k with
  | zero => rfl
  | succ k ih =>
      rw [pushes, ih (by omega)]
      exact push_of_lt (by omega)

theorem moves_le_push : v.moves ≤ (v.push grow size).moves := by
  unfold push
  split
  · exact Nat.le_succ _
  · exact Nat.le_refl _

theorem moves_le_pushes : v.moves ≤ (v.pushes grow size k).moves := by
  induction k with
  | zero => exact Nat.le_refl _
  | succ k ih => exact Nat.le_trans ih moves_le_push

theorem pushes_of_moves_le (h : (v.pushes grow size k).moves ≤ v.moves) :
    v.pushes grow size k = v := by
  induction k with
  | zero => rfl
  | succ k ih =>
      have hlast := ih (Nat.le_trans moves_le_push h)
      rw [pushes, hlast] at h ⊢
      unfold push at h ⊢
      split at h
      · exact absurd h (Nat.not_succ_le_self _)
      · next hne => exact if_neg hne

theorem lt_capacity_push (hgrow : ∀ n, n < grow n) (h : size ≤ v.capacity) :
    size < (v.push grow size).capacity := by
  unfold push
  split
  · exact hgrow size
  · next hne => exact Nat.lt_of_le_of_ne h hne

theorem le_capacity_pushes (hgrow : ∀ n, n < grow n) (h : size ≤ v.capacity) :
    size + k ≤ (v.pushes grow size k).capacity := by
  induction k with
  | zero => exact h
  | succ k ih => exact lt_capacity_push hgrow ih

/-- The block is given up for elements that do not fit, and only for these. -/
theorem moves_lt_pushes_iff (hgrow : ∀ n, n < grow n) (h : size ≤ v.capacity) :
    v.moves < (v.pushes grow size k).moves ↔ v.capacity < size + k := by
  constructor
  · intro hmoves
    by_contra hfits
    rw [pushes_of_le (Nat.le_of_not_lt hfits)] at hmoves
    exact Nat.lt_irrefl _ hmoves
  · intro hover
    by_contra hsame
    have hroom := le_capacity_pushes hgrow (k := k) h
    rw [pushes_of_moves_le (Nat.le_of_not_lt hsame)] at hroom
    exact Nat.not_le_of_lt hover hroom

/-- Where one larger block is large enough, there is at most one. -/
theorem pushes_eq (h : size ≤ v.capacity) (hlarge : size + k ≤ grow v.capacity) :
    v.pushes grow size k =
      if size + k ≤ v.capacity then v else ⟨grow v.capacity, v.moves + 1⟩ := by
  induction k with
  | zero => exact (if_pos h).symm
  | succ k ih =>
      rw [pushes, ih (by omega)]
      by_cases hfits : size + k ≤ v.capacity
      · rw [if_pos hfits, push]
        by_cases hfull : size + k = v.capacity
        · rw [if_pos hfull, if_neg (by omega), hfull]
        · rw [if_neg hfull, if_pos (by omega)]
      · rw [if_neg hfits, if_neg (by omega)]
        exact push_of_lt hlarge

end Storage
