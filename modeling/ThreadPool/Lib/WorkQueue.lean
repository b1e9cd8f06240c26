import Mathlib.Data.List.Nodup
import ThreadPool.Lib.Census
import ThreadPool.Lib.Machine

/-!
# What a work queue is for

A work queue takes items in, hands each to one agent, and lets that agent
either run it to its end or put it away; what is still queued when the
queue is emptied is discarded. Nothing else may happen to an item. This
file states that contract as a small transition system of its own, in
which the items are anything and the agents are anything, and derives the
two laws a user of a queue relies on.

* **Conservation** (`Lawful.balance`). An item is accepted at most once, and
  an accepted item is in exactly one place: in the queue, in the hands of
  one agent, started, put away, or discarded.

* **Order** (`Lawful.order`). What has left the queue, followed by what is
  still in it, is what was accepted, in the order of acceptance. So the
  items that agents took were taken in that order (`taken_sublist`).

The history is part of the state, written and never read. A program meets
the contract when a map from its states to work queues sends each of its
steps to a step here or to no step; `Step.lawful` and the simulation rule
then carry both laws over.
-/

namespace Interleave

open Relation

variable {ω ι : Type*}

/-- What can happen to an item, and at whose hands. -/
inductive WorkEvent (ω ι : Type*) where
  | accept (x : ι)
  | take (a : ω) (x : ι)
  | start (a : ω) (x : ι)
  | drop (a : ω) (x : ι)
  | finish (a : ω) (x : ι)
  | discard (x : ι)
  deriving DecidableEq, Repr

namespace WorkEvent

def accepted? : WorkEvent ω ι → Option ι
  | .accept x => some x
  | _ => none

def taken? : WorkEvent ω ι → Option ι
  | .take _ x => some x
  | _ => none

/-- The item that leaves the queue, if one does. -/
def left? : WorkEvent ω ι → Option ι
  | .take _ x => some x
  | .discard x => some x
  | _ => none

def started? : WorkEvent ω ι → Option ι
  | .start _ x => some x
  | _ => none

def dropped? : WorkEvent ω ι → Option ι
  | .drop _ x => some x
  | _ => none

def finished? : WorkEvent ω ι → Option ι
  | .finish _ x => some x
  | _ => none

def discarded? : WorkEvent ω ι → Option ι
  | .discard x => some x
  | _ => none

/-- Whether it is a taking, by an agent with a property. -/
def takenBy (p : ω → Bool) : WorkEvent ω ι → Bool
  | .take a _ => p a
  | _ => false

end WorkEvent

/-! ## Readings of a history -/

def accepted (h : List (WorkEvent ω ι)) : List ι := h.filterMap WorkEvent.accepted?
def taken (h : List (WorkEvent ω ι)) : List ι := h.filterMap WorkEvent.taken?
def left (h : List (WorkEvent ω ι)) : List ι := h.filterMap WorkEvent.left?
def started (h : List (WorkEvent ω ι)) : List ι := h.filterMap WorkEvent.started?
def dropped (h : List (WorkEvent ω ι)) : List ι := h.filterMap WorkEvent.dropped?
def finished (h : List (WorkEvent ω ι)) : List ι := h.filterMap WorkEvent.finished?
def discarded (h : List (WorkEvent ω ι)) : List ι :=
  h.filterMap WorkEvent.discarded?

theorem filterMap_concat {β : Type*} (f : WorkEvent ω ι → Option β)
    (h : List (WorkEvent ω ι)) (e : WorkEvent ω ι) :
    (h ++ [e]).filterMap f = h.filterMap f ++ (f e).toList := by
  rw [List.filterMap_append]
  cases hf : f e with
  | none => rw [List.filterMap_cons_none hf]; rfl
  | some b => rw [List.filterMap_cons_some hf]; rfl

section Concat

variable (h : List (WorkEvent ω ι)) (e : WorkEvent ω ι)

@[simp] theorem accepted_concat :
    accepted (h ++ [e]) = accepted h ++ e.accepted?.toList := filterMap_concat _ h e
@[simp] theorem taken_concat :
    taken (h ++ [e]) = taken h ++ e.taken?.toList := filterMap_concat _ h e
@[simp] theorem left_concat :
    left (h ++ [e]) = left h ++ e.left?.toList := filterMap_concat _ h e
@[simp] theorem started_concat :
    started (h ++ [e]) = started h ++ e.started?.toList := filterMap_concat _ h e
@[simp] theorem dropped_concat :
    dropped (h ++ [e]) = dropped h ++ e.dropped?.toList := filterMap_concat _ h e
@[simp] theorem finished_concat :
    finished (h ++ [e]) = finished h ++ e.finished?.toList := filterMap_concat _ h e
@[simp] theorem discarded_concat :
    discarded (h ++ [e]) = discarded h ++ e.discarded?.toList :=
  filterMap_concat _ h e

end Concat

theorem readings_discard (h : List (WorkEvent ω ι)) (xs : List ι) :
    accepted (h ++ xs.map .discard) = accepted h ∧
      taken (h ++ xs.map .discard) = taken h ∧
      started (h ++ xs.map .discard) = started h ∧
      dropped (h ++ xs.map .discard) = dropped h ∧
      finished (h ++ xs.map .discard) = finished h ∧
      left (h ++ xs.map .discard) = left h ++ xs ∧
      discarded (h ++ xs.map .discard) = discarded h ++ xs := by
  induction xs generalizing h with
  | nil => simp
  | cons x xs ih =>
      have hx := ih (h ++ [.discard x])
      simpa [WorkEvent.accepted?, WorkEvent.taken?, WorkEvent.started?,
        WorkEvent.dropped?, WorkEvent.finished?, WorkEvent.left?,
        WorkEvent.discarded?] using hx

theorem taken_sublist_left : ∀ h : List (WorkEvent ω ι), (taken h).Sublist (left h)
  | [] => List.Sublist.refl _
  | e :: h => by
      have ih := taken_sublist_left h
      cases e <;>
        simp only [taken, left, List.filterMap_cons, WorkEvent.taken?,
          WorkEvent.left?] at ih ⊢ <;>
        first
          | exact ih
          | exact ih.cons_cons _
          | exact ih.cons _

theorem count_left [DecidableEq ι] (x : ι) : ∀ h : List (WorkEvent ω ι),
    (left h).count x = (taken h).count x + (discarded h).count x
  | [] => rfl
  | e :: h => by
      have ih := count_left x h
      cases e <;>
        simp only [left, taken, discarded, List.filterMap_cons, WorkEvent.left?,
          WorkEvent.taken?, WorkEvent.discarded?, List.count_cons] at ih ⊢ <;>
        omega

/-- How often agents with a property have taken an item. -/
def takes (p : ω → Bool) (h : List (WorkEvent ω ι)) : Nat :=
  h.countP (WorkEvent.takenBy p)

@[simp] theorem takes_concat (p : ω → Bool) (h : List (WorkEvent ω ι))
    (e : WorkEvent ω ι) :
    takes p (h ++ [e]) = takes p h + if e.takenBy p then 1 else 0 := by
  rw [takes, List.countP_append, List.countP_singleton, takes]

theorem takes_discard (p : ω → Bool) (h : List (WorkEvent ω ι)) (xs : List ι) :
    takes p (h ++ xs.map .discard) = takes p h := by
  have hnone : (xs.map (WorkEvent.discard (ω := ω))).countP (WorkEvent.takenBy p) = 0 := by
    refine List.countP_eq_zero.mpr fun e he => ?_
    obtain ⟨x, -, rfl⟩ := List.mem_map.mp he
    exact Bool.false_ne_true
  rw [takes, List.countP_append, hnone, Nat.add_zero, takes]

/-! ## The contract -/

/-- A work queue: what is queued, who holds what, who runs what, and what
has happened. -/
structure WorkQueue (ω ι : Type*) where
  queue : List ι
  held : Multiset (ω × ι)
  busy : Multiset (ω × ι)
  hist : List (WorkEvent ω ι)

namespace WorkQueue

/-- The queue nothing has happened to. -/
def empty : WorkQueue ω ι := ⟨[], 0, 0, []⟩

/-- What may happen to a work queue. Every move is written to the history. -/
inductive Step : WorkQueue ω ι → WorkQueue ω ι → Prop where
  | accept {q : WorkQueue ω ι} (x : ι) (hnew : x ∉ accepted q.hist) :
      Step q ⟨q.queue ++ [x], q.held, q.busy, q.hist ++ [.accept x]⟩
  | take {q : WorkQueue ω ι} (a : ω) (x : ι) (rest : List ι)
      (hq : q.queue = x :: rest) :
      Step q ⟨rest, (a, x) ::ₘ q.held, q.busy, q.hist ++ [.take a x]⟩
  | start {q : WorkQueue ω ι} (a : ω) (x : ι) (held : Multiset (ω × ι))
      (hheld : q.held = (a, x) ::ₘ held) :
      Step q ⟨q.queue, held, (a, x) ::ₘ q.busy, q.hist ++ [.start a x]⟩
  | drop {q : WorkQueue ω ι} (a : ω) (x : ι) (held : Multiset (ω × ι))
      (hheld : q.held = (a, x) ::ₘ held) :
      Step q ⟨q.queue, held, q.busy, q.hist ++ [.drop a x]⟩
  | finish {q : WorkQueue ω ι} (a : ω) (x : ι) (busy : Multiset (ω × ι))
      (hbusy : q.busy = (a, x) ::ₘ busy) :
      Step q ⟨q.queue, q.held, busy, q.hist ++ [.finish a x]⟩
  | clear {q : WorkQueue ω ι} :
      Step q ⟨[], q.held, q.busy, q.hist ++ q.queue.map .discard⟩

theorem Step.hist_grows {q q' : WorkQueue ω ι} (hs : Step q q') : q.hist <+: q'.hist := by
  cases hs <;> exact List.prefix_append _ _

variable [DecidableEq ι]

/-- How often an item occurs in the hands listed. -/
def inHands (m : Multiset (ω × ι)) (x : ι) : Nat := (m.map Prod.snd).count x

@[simp] theorem inHands_zero (x : ι) : inHands (0 : Multiset (ω × ι)) x = 0 := rfl

@[simp] theorem inHands_cons (a : ω) (x y : ι) (m : Multiset (ω × ι)) :
    inHands ((a, x) ::ₘ m) y = inHands m y + [x].count y := by
  rw [inHands, Multiset.map_cons, ← Multiset.singleton_add, Multiset.count_add,
    ← Multiset.coe_singleton, Multiset.coe_count, Nat.add_comm]
  rfl

theorem inHands_gather {α : Type*} (f : α → Option (ω × ι)) (x : ι) (l : List α) :
    inHands (gather f l) x = l.countP fun a => (f a).map Prod.snd = some x := by
  induction l with
  | nil => rfl
  | cons a l ih =>
      rw [gather_cons, List.countP_cons]
      cases hf : f a with
      | none => simpa [shown] using ih
      | some y =>
          rw [shown, Multiset.singleton_add, inHands_cons, ih]
          simp [List.count_singleton]

theorem exists_of_inHands {α : Type*} {f : α → Option (ω × ι)} {x : ι} {l : List α}
    (h : 0 < inHands (gather f l) x) : ∃ a ∈ l, (f a).map Prod.snd = some x := by
  rw [inHands_gather] at h
  obtain ⟨a, ha, hx⟩ := List.countP_pos_iff.mp h
  exact ⟨a, ha, of_decide_eq_true hx⟩

/-- The laws of a work queue, in the form that is preserved step by step. -/
structure Lawful (q : WorkQueue ω ι) : Prop where
  nodup : (accepted q.hist).Nodup
  order : left q.hist ++ q.queue = accepted q.hist
  takenCount : ∀ x, (taken q.hist).count x =
    inHands q.held x + (started q.hist).count x + (dropped q.hist).count x
  startedCount : ∀ x, (started q.hist).count x =
    inHands q.busy x + (finished q.hist).count x

theorem lawful_empty : (empty : WorkQueue ω ι).Lawful where
  nodup := List.nodup_nil
  order := rfl
  takenCount := fun _ => rfl
  startedCount := fun _ => rfl

/-- Every move keeps the laws: what it takes from one place it puts in the
next, and only acceptance makes a new item. -/
theorem Step.lawful {q q' : WorkQueue ω ι} (hs : Step q q') (hq : q.Lawful) :
    q'.Lawful := by
  obtain ⟨hnodup, horder, htaken, hstarted⟩ := hq
  cases hs with
  | accept x hnew =>
      refine ⟨?_, ?_, fun y => ?_, fun y => ?_⟩
      · simp only [accepted_concat, WorkEvent.accepted?, Option.toList]
        exact hnodup.append (List.nodup_singleton x)
          (List.disjoint_singleton.mpr hnew)
      · simp [WorkEvent.left?, WorkEvent.accepted?, ← horder]
      · simpa [WorkEvent.taken?, WorkEvent.started?, WorkEvent.dropped?]
          using htaken y
      · simpa [WorkEvent.started?, WorkEvent.finished?] using hstarted y
  | take a x rest hqueue =>
      refine ⟨?_, ?_, fun y => ?_, fun y => ?_⟩
      · simpa [WorkEvent.accepted?] using hnodup
      · simp [WorkEvent.left?, WorkEvent.accepted?, ← horder, hqueue]
      · have h := htaken y
        simp [WorkEvent.taken?, WorkEvent.started?, WorkEvent.dropped?] at h ⊢
        omega
      · simpa [WorkEvent.started?, WorkEvent.finished?] using hstarted y
  | start a x held hheld =>
      refine ⟨?_, ?_, fun y => ?_, fun y => ?_⟩
      · simpa [WorkEvent.accepted?] using hnodup
      · simpa [WorkEvent.left?, WorkEvent.accepted?] using horder
      · have h := htaken y
        simp [WorkEvent.taken?, WorkEvent.started?, WorkEvent.dropped?, hheld]
          at h ⊢
        omega
      · have h := hstarted y
        simp [WorkEvent.started?, WorkEvent.finished?] at h ⊢
        omega
  | drop a x held hheld =>
      refine ⟨?_, ?_, fun y => ?_, fun y => ?_⟩
      · simpa [WorkEvent.accepted?] using hnodup
      · simpa [WorkEvent.left?, WorkEvent.accepted?] using horder
      · have h := htaken y
        simp [WorkEvent.taken?, WorkEvent.started?, WorkEvent.dropped?, hheld]
          at h ⊢
        omega
      · simpa [WorkEvent.started?, WorkEvent.finished?] using hstarted y
  | finish a x busy hbusy =>
      refine ⟨?_, ?_, fun y => ?_, fun y => ?_⟩
      · simpa [WorkEvent.accepted?] using hnodup
      · simpa [WorkEvent.left?, WorkEvent.accepted?] using horder
      · simpa [WorkEvent.taken?, WorkEvent.started?, WorkEvent.dropped?]
          using htaken y
      · have h := hstarted y
        simp [WorkEvent.started?, WorkEvent.finished?, hbusy] at h ⊢
        omega
  | clear =>
      obtain ⟨ha, ht, hst, hd, hf, hl, -⟩ := readings_discard q.hist q.queue
      refine ⟨?_, ?_, fun y => ?_, fun y => ?_⟩
      · rwa [ha]
      · rw [ha, hl, List.append_nil, horder]
      · rw [ht, hst, hd]
        exact htaken y
      · rw [hst, hf]
        exact hstarted y

theorem lawful_of_steps {q q' : WorkQueue ω ι} (hs : ReflTransGen Step q q')
    (hq : q.Lawful) : q'.Lawful := by
  induction hs with
  | refl => exact hq
  | tail _ hlast ih => exact hlast.lawful ih

namespace Lawful

variable {q : WorkQueue ω ι}

/-- Conservation: the places an item can be in account for exactly the one
time, if any, that it was accepted. -/
theorem balance (hq : q.Lawful) (x : ι) :
    (accepted q.hist).count x =
      q.queue.count x + inHands q.held x + (started q.hist).count x +
        (dropped q.hist).count x + (discarded q.hist).count x := by
  rw [← hq.order, List.count_append, count_left, hq.takenCount]
  omega

theorem accepted_count_le (hq : q.Lawful) (x : ι) :
    (accepted q.hist).count x ≤ 1 := List.nodup_iff_count_le_one.mp hq.nodup x

/-- Order: agents take items in the order of acceptance. -/
theorem taken_sublist (hq : q.Lawful) :
    (taken q.hist).Sublist (accepted q.hist) := by
  rw [← hq.order]
  exact (taken_sublist_left q.hist).trans (List.sublist_append_left _ _)

/-- What was run to its end, discarded, is queued or being run was
accepted. -/
theorem accepted_of_fate (hq : q.Lawful) {x : ι}
    (h : x ∈ finished q.hist ∨ x ∈ discarded q.hist ∨ x ∈ q.queue ∨ 0 < inHands q.busy x) :
    x ∈ accepted q.hist := by
  have hbalance := hq.balance x
  have hstarted := hq.startedCount x
  refine List.count_pos_iff.mp ?_
  rcases h with hfinished | hdiscarded | hqueued | hbusy
  · have hpos := List.count_pos_iff.mpr hfinished
    omega
  · have hpos := List.count_pos_iff.mpr hdiscarded
    omega
  · have hpos := List.count_pos_iff.mpr hqueued
    omega
  · omega

/-- What is queued or being run has neither been run to its end nor
discarded. -/
theorem open_of_place (hq : q.Lawful) {x : ι} (h : x ∈ q.queue ∨ 0 < inHands q.busy x) :
    x ∉ finished q.hist ∧ x ∉ discarded q.hist := by
  have hbalance := hq.balance x
  have hstarted := hq.startedCount x
  have hle := hq.accepted_count_le x
  have hzero : (finished q.hist).count x = 0 ∧ (discarded q.hist).count x = 0 := by
    rcases h with hqueued | hbusy
    · have hpos := List.count_pos_iff.mpr hqueued
      omega
    · omega
  exact ⟨List.count_eq_zero.mp hzero.1, List.count_eq_zero.mp hzero.2⟩

/-- Where nobody has anything in hand, what was accepted is queued still, or
has come to one of its ends. -/
theorem fate_of_idle (hq : q.Lawful) (hheld : q.held = 0) (hbusy : q.busy = 0) {x : ι}
    (h : x ∈ accepted q.hist) :
    x ∈ q.queue ∨ x ∈ finished q.hist ∨ x ∈ discarded q.hist ∨ x ∈ dropped q.hist := by
  have hbalance := hq.balance x
  have hstarted := hq.startedCount x
  have hpos := List.count_pos_iff.mpr h
  rw [hheld, inHands_zero] at hbalance
  rw [hbusy, inHands_zero] at hstarted
  simp only [← List.count_pos_iff (a := x)]
  omega

/-- What was accepted and not discarded is queued or has been taken. -/
theorem queued_or_taken (hq : q.Lawful) {x : ι} (hacc : x ∈ accepted q.hist)
    (hkept : x ∉ discarded q.hist) : x ∈ q.queue ∨ x ∈ taken q.hist := by
  rw [← hq.order, List.mem_append] at hacc
  refine hacc.symm.imp_right fun hleft => ?_
  have hcount := count_left x q.hist
  have hpos := List.count_pos_iff.mpr hleft
  rw [List.count_eq_zero.mpr hkept] at hcount
  exact List.count_pos_iff.mp (by omega)

/-- What was taken and has come to neither end is in somebody's hands. -/
theorem inHands_of_taken (hq : q.Lawful) {x : ι} (ht : x ∈ taken q.hist)
    (hfinished : x ∉ finished q.hist) (hdropped : x ∉ dropped q.hist) :
    0 < inHands q.held x ∨ 0 < inHands q.busy x := by
  have htaken := hq.takenCount x
  have hstarted := hq.startedCount x
  have hpos := List.count_pos_iff.mpr ht
  rw [List.count_eq_zero.mpr hdropped] at htaken
  rw [List.count_eq_zero.mpr hfinished] at hstarted
  omega

end Lawful

end WorkQueue

end Interleave
