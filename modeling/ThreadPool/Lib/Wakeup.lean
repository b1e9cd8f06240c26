import Mathlib.Logic.Relation

/-!
# Why a queue with a condition variable does not lose a wake-up

Consumers sleep while a queue is empty and are woken one for each item, by a
notification that comes some time after the item. This file is about the
numbers alone: how many items are queued, how many consumers are asleep, how
many are awake on their way to the queue, and how many notifications are
owed for items already pushed.

What keeps an item from being forgotten is `Covered`: while anybody sleeps,
every queued item has a consumer on its way to it or a notification still to
come. It is kept by any system whose consumers go to sleep, or turn away,
only from an empty queue. Nothing else is needed of them; in particular an
awake consumer need not find an item, and one that finds an item need not
come back.
-/

namespace Interleave

open Relation

/-- The four numbers. -/
structure Gate where
  queued : Nat
  asleep : Nat
  awake : Nat
  owed : Nat

namespace Gate

/-- What a step may do to the numbers. -/
inductive Step : Gate → Gate → Prop where
  | push {q s a o : Nat} : Step ⟨q, s, a, o⟩ ⟨q + 1, s, a, o + 1⟩
  | notify {q s a o : Nat} : Step ⟨q, s + 1, a, o + 1⟩ ⟨q, s, a + 1, o⟩
  | notifyNobody {q a o : Nat} : Step ⟨q, 0, a, o + 1⟩ ⟨q, 0, a, o⟩
  /-- a consumer wakes up by itself -/
  | rouse {q s a o : Nat} : Step ⟨q, s + 1, a, o⟩ ⟨q, s, a + 1, o⟩
  /-- a consumer goes to the queue without having slept -/
  | arrive {q s a o : Nat} : Step ⟨q, s, a, o⟩ ⟨q, s, a + 1, o⟩
  | take {q s a o : Nat} : Step ⟨q + 1, s, a + 1, o⟩ ⟨q, s, a, o⟩
  | turnAway {s a o : Nat} : Step ⟨0, s, a + 1, o⟩ ⟨0, s, a, o⟩
  | sleep {s a o : Nat} : Step ⟨0, s, a, o⟩ ⟨0, s + 1, a, o⟩
  | broadcast {q s a o : Nat} : Step ⟨q, s, a, o⟩ ⟨q, 0, a + s, o⟩
  | drain {q s a o : Nat} : Step ⟨q, s, a, o⟩ ⟨0, s, a, o⟩

/-- While anybody sleeps, every queued item is seen to. -/
def Covered (g : Gate) : Prop := 0 < g.asleep → g.queued ≤ g.awake + g.owed

theorem Step.covered {g g' : Gate} (h : Step g g') (hg : g.Covered) : g'.Covered := by
  cases h <;> simp only [Covered] at hg ⊢ <;> omega

theorem covered_of_steps {g g' : Gate} (h : ReflTransGen Step g g')
    (hg : g.Covered) : g'.Covered := by
  induction h with
  | refl => exact hg
  | tail _ hlast ih => exact hlast.covered ih

/-- Nothing is queued behind sleepers when nobody is awake or about to
notify. -/
theorem Covered.queued_eq_zero {g : Gate} (hg : g.Covered) (hasleep : 0 < g.asleep)
    (hawake : g.awake = 0) (howed : g.owed = 0) : g.queued = 0 := by
  have hle := hg hasleep
  omega

end Gate

end Interleave
