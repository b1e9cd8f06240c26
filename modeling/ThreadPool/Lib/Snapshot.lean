import Mathlib.Algebra.BigOperators.Group.List.Basic

/-!
# Summing up numbers that move

Somebody reads a list of numbers one after the other and adds them up, while
others change them. The sum mixes moments. It is the sum of the whole list at
one of the moments of the reading if no change of a number still to be read
comes after those already read have changed in sum. The moment is then the
last change of a number that was still to be read.
-/

namespace Interleave

variable {M : Type*} [AddCommMonoid M]

/-- A reading: the numbers as they are now, how many have been read, what they
came to, and what the numbers were at each moment so far. -/
structure Reading (M : Type*) where
  now : List M
  pos : Nat
  total : M
  moments : List (List M)

namespace Reading

/-- A reading that begins. -/
def start (now : List M) : Reading M := ⟨now, 0, 0, [now]⟩

/-- Where the numbers have changed. -/
def change (r : Reading M) (now : List M) : Reading M :=
  { r with now := now, moments := r.moments ++ [now] }

/-- The next number is read. -/
def next (r : Reading M) (x : M) : Reading M :=
  { r with pos := r.pos + 1, total := r.total + x }

/-- At some moment the sum was what has been read and what is still to be read. -/
def Explained (r : Reading M) : Prop :=
  ∃ m ∈ r.moments, m.sum = r.total + (r.now.drop r.pos).sum

theorem explained_start (now : List M) : (start now).Explained :=
  ⟨now, List.mem_singleton.mpr rfl, by rw [start, List.drop_zero, zero_add]⟩

theorem Explained.next {r : Reading M} {x : M} (hr : r.Explained)
    (hx : r.now[r.pos]? = some x) : (r.next x).Explained := by
  obtain ⟨m, hm, hsum⟩ := hr
  obtain ⟨hlt, hget⟩ := List.getElem?_eq_some_iff.mp hx
  refine ⟨m, hm, ?_⟩
  rw [hsum, List.drop_eq_getElem_cons hlt, List.sum_cons, hget, Reading.next, add_assoc]

/-- What is still to be read stays, so the old moment will do; or what was
read is still there, so this one will. -/
theorem Explained.change {r : Reading M} (hr : r.Explained) {now : List M}
    (h : now.drop r.pos = r.now.drop r.pos ∨ (now.take r.pos).sum = r.total) :
    (r.change now).Explained := by
  rcases h with hdrop | htake
  · obtain ⟨m, hm, hsum⟩ := hr
    refine ⟨m, List.mem_append_left _ hm, ?_⟩
    rw [hsum, ← hdrop]
    rfl
  · refine ⟨now, List.mem_append_right _ (List.mem_singleton.mpr rfl), ?_⟩
    rw [← List.sum_take_add_sum_drop now r.pos, htake]
    rfl

theorem Explained.set {r : Reading M} (hr : r.Explained) {n : Nat} (x : M)
    (h : r.pos ≤ n → (r.now.take r.pos).sum = r.total) :
    (r.change (r.now.set n x)).Explained := by
  refine hr.change ?_
  rcases Nat.lt_or_ge n r.pos with hlt | hle
  · exact Or.inl (List.drop_set_of_lt hlt)
  · right
    rw [List.take_set_of_le hle]
    exact h hle

/-- At the end the total is the sum at some moment. -/
theorem Explained.total {r : Reading M} (hr : r.Explained) (hdone : r.now.length ≤ r.pos) :
    ∃ m ∈ r.moments, m.sum = r.total := by
  obtain ⟨m, hm, hsum⟩ := hr
  refine ⟨m, hm, ?_⟩
  rw [hsum, List.drop_eq_nil_of_le hdone, List.sum_nil, add_zero]

end Reading

end Interleave
