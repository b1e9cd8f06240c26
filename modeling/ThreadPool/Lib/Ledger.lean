import Mathlib.Data.Finset.Union
import Mathlib.Data.Set.Pairwise.Basic
import Mathlib.Order.Interval.Finset.Nat
import ThreadPool.Lib.Rounding

/-!
# Ledgers of disjoint regions

Places are given out in regions and taken back. A ledger is exact when no place
is in the regions of two owners, the places in use are those of the regions,
and each place bears the mark of its owner. Giving out a region that is not in
use keeps it so, taking one back keeps it so, and marking a region anew is one
after the other.

The regions of memory are ranges of whole pages: those that a range of bytes
reaches into. From the start of a page it does not matter whether the length
of the range was rounded up.
-/

namespace Ledger

variable {α β τ : Type*} [DecidableEq α]

/-- The regions of the owners do not meet and make up what is in use, and the
places have the marks of their owners. -/
structure Exact (region : β → Finset α) (label : β → τ) (inUse : Finset α) (mark : α → τ)
    (owners : Finset β) : Prop where
  covers : inUse = owners.biUnion region
  disjoint : (owners : Set β).PairwiseDisjoint region
  marked : ∀ b ∈ owners, ∀ x ∈ region b, mark x = label b

variable {region : β → Finset α} {label : β → τ} {inUse : Finset α} {mark : α → τ}
  {owners : Finset β}

theorem Exact.subset (h : Exact region label inUse mark owners) {b : β} (hb : b ∈ owners) :
    region b ⊆ inUse := by
  rw [h.covers]
  exact Finset.subset_biUnion_of_mem region hb

theorem Exact.owner_unique (h : Exact region label inUse mark owners) {b c : β} {x : α}
    (hb : b ∈ owners) (hc : c ∈ owners) (hxb : x ∈ region b) (hxc : x ∈ region c) : b = c := by
  by_contra hne
  exact Finset.disjoint_left.mp (h.disjoint hb hc hne) hxb hxc

theorem Exact.congr (h : Exact region label inUse mark owners) {mark' : α → τ}
    (hmark : ∀ x ∈ inUse, mark' x = mark x) : Exact region label inUse mark' owners where
  covers := h.covers
  disjoint := h.disjoint
  marked := fun b hb x hx => (hmark x (h.subset hb hx)).trans (h.marked b hb x hx)

variable [DecidableEq β]

/-- A region that is not in use is given out and marked. -/
theorem Exact.give (h : Exact region label inUse mark owners) {b : β}
    (hfree : Disjoint (region b) inUse) :
    Exact region label (inUse ∪ region b)
      (fun x => if x ∈ region b then label b else mark x) (insert b owners) where
  covers := by rw [Finset.biUnion_insert, ← h.covers, Finset.union_comm]
  disjoint := by
    rw [Finset.coe_insert]
    refine h.disjoint.insert fun c hc _ => ?_
    exact hfree.mono_right (h.subset hc)
  marked := by
    intro c hc x hx
    by_cases hxb : x ∈ region b
    · rw [if_pos hxb]
      rcases Finset.mem_insert.mp hc with rfl | hc
      · rfl
      · exact absurd (h.subset hc hx) (Finset.disjoint_left.mp hfree hxb)
    · rw [if_neg hxb]
      rcases Finset.mem_insert.mp hc with rfl | hc
      · exact absurd hx hxb
      · exact h.marked c hc x hx

/-- A region is taken back. -/
theorem Exact.takeBack (h : Exact region label inUse mark owners) {b : β} (hb : b ∈ owners) :
    Exact region label (inUse \ region b) mark (owners.erase b) where
  covers := by
    ext x
    simp only [Finset.mem_sdiff, Finset.mem_biUnion, Finset.mem_erase]
    constructor
    · rintro ⟨hx, hxb⟩
      rw [h.covers, Finset.mem_biUnion] at hx
      obtain ⟨c, hc, hxc⟩ := hx
      refine ⟨c, ⟨?_, hc⟩, hxc⟩
      rintro rfl
      exact hxb hxc
    · rintro ⟨c, ⟨hne, hc⟩, hxc⟩
      exact ⟨h.subset hc hxc, fun hxb => hne (h.owner_unique hc hb hxc hxb)⟩
  disjoint := h.disjoint.subset (Finset.coe_subset.mpr (Finset.erase_subset b owners))
  marked := fun c hc => h.marked c (Finset.mem_of_mem_erase hc)

theorem Exact.remark (h : Exact region label inUse mark owners) {b c : β} (hb : b ∈ owners)
    (hregion : region c = region b) :
    Exact region label inUse (fun x => if x ∈ region b then label c else mark x)
      (insert c (owners.erase b)) := by
  have hfree : Disjoint (region c) (inUse \ region b) := by
    rw [hregion]
    exact Finset.disjoint_sdiff
  have hgiven := (h.takeBack hb).give hfree
  rwa [hregion, Finset.sdiff_union_of_subset (h.subset hb)] at hgiven

end Ledger

namespace Paging

open Rounding

/-- The pages of `p` bytes that a range of bytes reaches into. -/
def touched (p base len : Nat) : Finset Nat := Finset.Ico (base / p) ((base + len) ⌈/⌉ p)

variable {p base len : Nat}

theorem byte_touched (hp : 0 < p) {i : Nat} (hi : i < len) :
    (base + i) / p ∈ touched p base len := by
  rw [touched, Finset.mem_Ico]
  refine ⟨Nat.div_le_div_right (Nat.le_add_right base i), ?_⟩
  rw [Nat.div_lt_iff_lt_mul hp, Nat.mul_comm]
  exact Nat.lt_of_lt_of_le (Nat.add_lt_add_left hi base) (le_smul_ceilDiv hp)

theorem touched_of_dvd (hp : 0 < p) (hbase : p ∣ base) :
    touched p base len = Finset.Ico (base / p) (base / p + len ⌈/⌉ p) := by
  obtain ⟨c, rfl⟩ := hbase
  rw [touched, Nat.mul_div_cancel_left c hp, Nat.ceilDiv_eq_add_pred_div,
    Nat.ceilDiv_eq_add_pred_div, Nat.add_assoc, Nat.add_sub_assoc (by omega),
    Nat.mul_add_div hp]

theorem touched_ceil (hp : 0 < p) (hbase : p ∣ base) :
    touched p base (ceil p len) = touched p base len := by
  have hcount : ceil p len ⌈/⌉ p = len ⌈/⌉ p := by
    rw [ceil]
    exact smul_ceilDiv hp _
  rw [touched_of_dvd hp hbase, touched_of_dvd hp hbase, hcount]

end Paging
