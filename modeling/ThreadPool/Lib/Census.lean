import Mathlib.Algebra.Order.Group.Multiset
import Mathlib.Data.Multiset.Filter
import Mathlib.Tactic.Abel

/-!
# Taking the census of a list of agents

A system with any number of agents keeps them in a list and changes one of
them at a time. Its invariants count: how many agents stand at this point,
which items the agents hold between them. This file says how those two
kinds of census move under the updates a step makes. An agent is replaced,
a newcomer is appended, every agent is moved by the same map.

The counting lemmas are stated additively, before plus after on both
sides, because that is the form in which natural-number arithmetic needs
no side condition. `gather` is the multiset of what a partial reading
finds over the list; its update lemma has the same shape.
-/

namespace Interleave

variable {α β : Type*}

/-- One if the agent is counted, none otherwise. -/
def tally (p : α → Bool) (a : α) : Nat := if p a then 1 else 0

theorem tally_pos {p : α → Bool} {a : α} (h : p a = true) : tally p a = 1 :=
  if_pos h

theorem tally_neg {p : α → Bool} {a : α} (h : p a = false) : tally p a = 0 := by
  rw [tally, h]
  rfl

theorem countP_set_add {p : α → Bool} {l : List α} {i : Nat} {a b : α}
    (h : l[i]? = some a) :
    (l.set i b).countP p + tally p a = l.countP p + tally p b := by
  obtain ⟨hlt, hget⟩ := List.getElem?_eq_some_iff.mp h
  have hle := List.boole_getElem_le_countP (p := p) hlt
  rw [List.countP_set hlt]
  rw [hget] at hle ⊢
  simp only [tally]
  omega

theorem countP_set_same {p : α → Bool} {l : List α} {i : Nat} {a b : α}
    (h : l[i]? = some a) (hp : p b = p a) : (l.set i b).countP p = l.countP p := by
  have hadd := countP_set_add (p := p) (b := b) h
  simp only [tally, hp] at hadd
  omega

theorem countP_set_gain {p : α → Bool} {l : List α} {i : Nat} {a b : α}
    (h : l[i]? = some a) (hold : p a = false) (hnew : p b = true) :
    (l.set i b).countP p = l.countP p + 1 := by
  have hadd := countP_set_add (p := p) (b := b) h
  rw [tally_neg hold, tally_pos hnew] at hadd
  omega

theorem countP_set_lose {p : α → Bool} {l : List α} {i : Nat} {a : α}
    (h : l[i]? = some a) (b : α) (hold : p a = true) (hnew : p b = false) :
    l.countP p = (l.set i b).countP p + 1 := by
  have hadd := countP_set_add (p := p) (b := b) h
  rw [tally_pos hold, tally_neg hnew] at hadd
  omega

theorem countP_set_le {p : α → Bool} {l : List α} {i : Nat} {a b : α}
    (h : l[i]? = some a) (hp : p b = true → p a = true) :
    (l.set i b).countP p ≤ l.countP p := by
  have hadd := countP_set_add (p := p) (b := b) h
  have hle : tally p b ≤ tally p a := by
    cases hb : p b with
    | true => rw [tally_pos hb, tally_pos (hp hb)]
    | false => rw [tally_neg hb]; exact Nat.zero_le _
  omega

theorem countP_le_one {β : Type*} [DecidableEq β] {l : List α} {f : α → β}
    (hnodup : (l.map f).Nodup) (q : α → Bool) (b : β) :
    l.countP (fun a => q a && decide (f a = b)) ≤ 1 := by
  have hcount : (l.map f).count b ≤ 1 := List.nodup_iff_count_le_one.mp hnodup b
  rw [List.count, List.countP_map] at hcount
  refine (List.countP_mono_left fun a _ h => ?_).trans hcount
  simp only [Bool.and_eq_true, decide_eq_true_eq] at h
  simp [h.2]

theorem countP_pos_of_getElem? {p : α → Bool} {l : List α} {i : Nat} {a : α}
    (h : l[i]? = some a) (hp : p a = true) : 0 < l.countP p :=
  List.countP_pos_iff.mpr ⟨a, List.mem_of_getElem? h, hp⟩

theorem eq_of_countP_le_one {p : α → Bool} {l : List α} {i j : Nat} {a b : α}
    (hle : l.countP p ≤ 1) (hi : l[i]? = some a) (hj : l[j]? = some b)
    (ha : p a = true) (hb : p b = true) : i = j := by
  induction l generalizing i j with
  | nil => cases hi
  | cons x xs ih =>
      rw [List.countP_cons] at hle
      cases i with
      | zero =>
          cases j with
          | zero => rfl
          | succ j =>
              rw [List.getElem?_cons_zero, Option.some.injEq] at hi
              have hpos := countP_pos_of_getElem? (i := j) hj hb
              rw [if_pos (by rw [hi]; exact ha)] at hle
              omega
      | succ i =>
          have hpos := countP_pos_of_getElem? (i := i) hi ha
          cases j with
          | zero =>
              rw [List.getElem?_cons_zero, Option.some.injEq] at hj
              rw [if_pos (by rw [hj]; exact hb)] at hle
              omega
          | succ j => rw [ih (by omega) hi hj]

theorem set_self {l : List α} {i : Nat} {a : α} (h : l[i]? = some a) :
    l.set i a = l := by
  obtain ⟨hlt, rfl⟩ := List.getElem?_eq_some_iff.mp h
  exact List.set_getElem_self hlt

theorem map_set_same {f : α → β} {l : List α} {i : Nat} {a b : α} (h : l[i]? = some a)
    (hf : f b = f a) : (l.set i b).map f = l.map f := by
  rw [List.map_set, hf]
  exact set_self (by rw [List.getElem?_map, h]; rfl)

theorem modify_eq_set_of_getElem? {f : α → α} {l : List α} {i : Nat} {a : α}
    (h : l[i]? = some a) : l.modify i f = l.set i (f a) := by
  refine List.ext_getElem? fun j => ?_
  rw [List.getElem?_modify, List.getElem?_set]
  obtain ⟨hlt, hget⟩ := List.getElem?_eq_some_iff.mp h
  by_cases hij : i = j
  · subst hij
    simp [hlt, hget]
  · simp [hij]

theorem forall_mem_set {P : α → Prop} {l : List α} {i : Nat} {b : α}
    (h : ∀ a ∈ l, P a) (hb : P b) : ∀ a ∈ l.set i b, P a := by
  intro a ha
  rcases List.mem_or_eq_of_mem_set ha with hmem | rfl
  · exact h a hmem
  · exact hb

theorem exists_mem_set {P : α → Prop} {l : List α} {i : Nat} {a b : α}
    (h : ∃ x ∈ l, P x) (ha : l[i]? = some a) (hab : P a → P b) :
    ∃ x ∈ l.set i b, P x := by
  obtain ⟨x, hx, hp⟩ := h
  obtain ⟨j, hj⟩ := List.mem_iff_getElem?.mp hx
  by_cases hij : i = j
  · subst hij
    rw [ha, Option.some.injEq] at hj
    subst hj
    exact ⟨b, List.mem_set (List.getElem?_eq_some_iff.mp ha).1 b, hab hp⟩
  · refine ⟨x, List.mem_of_getElem? (i := j) ?_, hp⟩
    rw [List.getElem?_set_ne hij]
    exact hj

theorem exists_mem_set_iff {P : α → Prop} {l : List α} {i : Nat} {a b : α}
    (ha : l[i]? = some a) (hab : P a → P b) :
    (∃ x ∈ l.set i b, P x) ↔ (∃ x ∈ l, P x) ∨ P b := by
  constructor
  · rintro ⟨x, hx, hp⟩
    rcases List.mem_or_eq_of_mem_set hx with hmem | rfl
    · exact Or.inl ⟨x, hmem, hp⟩
    · exact Or.inr hp
  · rintro (h | hb)
    · exact exists_mem_set h ha hab
    · exact ⟨b, List.mem_set (List.getElem?_eq_some_iff.mp ha).1 b, hb⟩

theorem getElem?_set_cases {l : List α} {i j : Nat} {a b : α}
    (h : (l.set i b)[j]? = some a) :
    j = i ∧ a = b ∨ j ≠ i ∧ l[j]? = some a := by
  rw [List.getElem?_set] at h
  split at h
  · next hij =>
      split at h
      · exact Or.inl ⟨hij.symm, (Option.some.inj h).symm⟩
      · cases h
  · next hij => exact Or.inr ⟨Ne.symm hij, h⟩

theorem getElem?_concat_cases {l : List α} {i : Nat} {a b : α}
    (h : (l ++ [b])[i]? = some a) :
    i = l.length ∧ a = b ∨ i < l.length ∧ l[i]? = some a := by
  rcases Nat.lt_trichotomy i l.length with hlt | rfl | hgt
  · rw [List.getElem?_append_left hlt] at h
    exact Or.inr ⟨hlt, h⟩
  · rw [List.getElem?_concat_length, Option.some.injEq] at h
    exact Or.inl ⟨rfl, h.symm⟩
  · rw [List.getElem?_eq_none (by simpa using Nat.succ_le_of_lt hgt)] at h
    cases h

theorem forall_getElem?_set {P : Nat → α → Prop} {l : List α} {i : Nat} {b : α}
    (h : ∀ j a, l[j]? = some a → P j a) (hb : P i b) :
    ∀ j a, (l.set i b)[j]? = some a → P j a := by
  intro j a ha
  rw [List.getElem?_set] at ha
  split at ha
  · next hij =>
      split at ha
      · rw [Option.some.injEq] at ha
        rw [← hij, ← ha]
        exact hb
      · cases ha
  · exact h j a ha

theorem forall_getElem?_append {P : Nat → α → Prop} {l l' : List α}
    (h : ∀ j a, l[j]? = some a → P j a)
    (h' : ∀ k a, l'[k]? = some a → P (l.length + k) a) :
    ∀ j a, (l ++ l')[j]? = some a → P j a := by
  intro j a ha
  rcases Nat.lt_or_ge j l.length with hlt | hge
  · rw [List.getElem?_append_left hlt] at ha
    exact h j a ha
  · rw [List.getElem?_append_right hge] at ha
    have hnew := h' _ a ha
    rwa [Nat.add_sub_cancel' hge] at hnew

theorem sum_map_set_add {f : α → Nat} {l : List α} {i : Nat} {a b : α}
    (h : l[i]? = some a) : ((l.set i b).map f).sum + f a = (l.map f).sum + f b := by
  induction l generalizing i with
  | nil => simp at h
  | cons x xs ih =>
      cases i with
      | zero =>
          rw [List.getElem?_cons_zero, Option.some.injEq] at h
          rw [h, List.set_cons_zero, List.map_cons, List.map_cons, List.sum_cons,
            List.sum_cons]
          omega
      | succ i =>
          rw [List.getElem?_cons_succ] at h
          have htail := ih h
          rw [List.set_cons_succ, List.map_cons, List.map_cons, List.sum_cons, List.sum_cons]
          omega

/-- What a partial reading finds over the list, counted with multiplicity. -/
def gather (f : α → Option β) (l : List α) : Multiset β := ↑(l.filterMap f)

/-- The multiset of what one agent shows. -/
def shown : Option β → Multiset β
  | none => 0
  | some b => {b}

theorem gather_cons {f : α → Option β} {a : α} {l : List α} :
    gather f (a :: l) = shown (f a) + gather f l := by
  unfold gather
  cases h : f a with
  | none => rw [List.filterMap_cons_none h, shown, zero_add]
  | some b => rw [List.filterMap_cons_some h, shown, Multiset.singleton_add]; rfl

theorem gather_append {f : α → Option β} {l l' : List α} :
    gather f (l ++ l') = gather f l + gather f l' := by
  unfold gather
  rw [List.filterMap_append]
  rfl

theorem gather_set_add {f : α → Option β} {l : List α} {i : Nat} {a b : α}
    (h : l[i]? = some a) :
    gather f (l.set i b) + shown (f a) = gather f l + shown (f b) := by
  induction l generalizing i with
  | nil => simp at h
  | cons x xs ih =>
      cases i with
      | zero =>
          rw [List.getElem?_cons_zero, Option.some.injEq] at h
          rw [h, List.set_cons_zero, gather_cons, gather_cons]
          abel
      | succ i =>
          rw [List.getElem?_cons_succ] at h
          rw [List.set_cons_succ, gather_cons, gather_cons, add_assoc, ih h,
            add_assoc]

theorem gather_set_same (f : α → Option β) {l : List α} {i : Nat} {a b : α}
    (h : l[i]? = some a) (hsame : f b = f a) : gather f (l.set i b) = gather f l := by
  have hadd := gather_set_add (f := f) (b := b) h
  rw [hsame] at hadd
  exact add_right_cancel hadd

theorem gather_set_gain (f : α → Option β) {l : List α} {i : Nat} {a b : α} {x : β}
    (h : l[i]? = some a) (hold : f a = none) (hnew : f b = some x) :
    gather f (l.set i b) = x ::ₘ gather f l := by
  have hadd := gather_set_add (f := f) (b := b) h
  rw [hold, hnew, shown, shown, add_zero] at hadd
  rw [hadd, ← Multiset.singleton_add, add_comm]

theorem gather_set_lose (f : α → Option β) {l : List α} {i : Nat} {a b : α} {x : β}
    (h : l[i]? = some a) (hold : f a = some x) (hnew : f b = none) :
    gather f l = x ::ₘ gather f (l.set i b) := by
  have hadd := gather_set_add (f := f) (b := b) h
  rw [hold, hnew, shown, shown, add_zero] at hadd
  rw [← hadd, ← Multiset.singleton_add, add_comm]

theorem mem_gather {f : α → Option β} {l : List α} {x : β} :
    x ∈ gather f l ↔ ∃ a ∈ l, f a = some x := by
  rw [gather, Multiset.mem_coe, List.mem_filterMap]

/-- Where nothing is shown twice, what is shown tells the agent. -/
theorem eq_of_shown {f : α → Option β} {l : List α} (hnodup : (gather f l).Nodup)
    {i j : Nat} {a b : α} {x : β} (hi : l[i]? = some a) (hj : l[j]? = some b)
    (ha : f a = some x) (hb : f b = some x) : i = j := by
  rw [gather, Multiset.coe_nodup, List.Nodup, List.pairwise_filterMap,
    List.pairwise_iff_getElem] at hnodup
  obtain ⟨hlti, rfl⟩ := List.getElem?_eq_some_iff.mp hi
  obtain ⟨hltj, rfl⟩ := List.getElem?_eq_some_iff.mp hj
  rcases Nat.lt_trichotomy i j with hlt | heq | hgt
  · exact absurd rfl (hnodup i j hlti hltj hlt x ha x hb)
  · exact heq
  · exact absurd rfl (hnodup j i hltj hlti hgt x hb x ha)

theorem gather_eq_zero {f : α → Option β} {l : List α}
    (h : ∀ a ∈ l, f a = none) : gather f l = 0 := by
  unfold gather
  rw [List.filterMap_eq_nil_iff.mpr h]
  rfl

theorem gather_map {γ : Type*} {f : α → Option β} {g : γ → α} {l : List γ} :
    gather f (l.map g) = gather (f ∘ g) l := by
  unfold gather
  rw [List.filterMap_map]

end Interleave
