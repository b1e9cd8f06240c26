import Mathlib.Data.List.Basic

/-!
# Counted loops

`for (i = 0; i < n; ++i)` over a state, and its invariant rule: what holds
before the first round, and of `i + 1` after round `i` if of `i` before it,
holds of `n` after the loop. A loop that writes position `i` of a list in
round `i` and nothing else is the case `fill`: afterwards every position
below `n` has what was written there, and the others are as they were.
-/

namespace Loop

variable {σ α : Type*}

/-- Rounds `0` to `n - 1`, in that order. -/
def count (n : Nat) (body : Nat → σ → σ) (s : σ) : σ :=
  (List.range n).foldl (fun s i => body i s) s

theorem count_zero (body : Nat → σ → σ) (s : σ) : count 0 body s = s := rfl

theorem count_succ (n : Nat) (body : Nat → σ → σ) (s : σ) :
    count (n + 1) body s = body n (count n body s) := by
  rw [count, List.range_succ, List.foldl_append]
  rfl

/-- The invariant rule. -/
theorem count_invariant {n : Nat} {body : Nat → σ → σ} {s : σ} (P : Nat → σ → Prop)
    (hinit : P 0 s) (hstep : ∀ i s, i < n → P i s → P (i + 1) (body i s)) :
    P n (count n body s) := by
  induction n with
  | zero =>
      rw [count_zero]
      exact hinit
  | succ n ih =>
      rw [count_succ]
      exact hstep n _ n.lt_succ_self
        (ih fun i s hi => hstep i s (Nat.lt_succ_of_lt hi))

/-- Write `f i` at position `i`, for `i` from `0` to `n - 1`. -/
def fill (n : Nat) (f : Nat → α) (xs : List α) : List α :=
  count n (fun i xs => xs.set i (f i)) xs

theorem getElem?_fill {n : Nat} {f : Nat → α} {xs : List α} (hn : n ≤ xs.length) (j : Nat) :
    (fill n f xs)[j]? = if j < n then some (f j) else xs[j]? := by
  have hfill : (fill n f xs).length = xs.length ∧
      (fill n f xs)[j]? = if j < n then some (f j) else xs[j]? := by
    refine count_invariant
      (fun i (ys : List α) => ys.length = xs.length ∧
        ys[j]? = if j < i then some (f j) else xs[j]?) ⟨rfl, rfl⟩ ?_
    rintro i ys hi ⟨hlen, hys⟩
    refine ⟨List.length_set.trans hlen, ?_⟩
    by_cases hij : i = j
    · subst hij
      rw [List.getElem?_set_self (by omega), if_pos (Nat.lt_succ_self i)]
    · rw [List.getElem?_set_ne hij, hys]
      refine if_congr ?_ rfl rfl
      omega
  exact hfill.2

end Loop
