import Mathlib.Data.List.Basic
import ThreadPool.Lib.Census

/-!
# A crew and its queue

How far a task is from being taken out of a queue that several workers serve.
A worker that is on its way to the queue, or back from it with its hands full,
is active; how many steps it still has is its `toGo`. What stands between a
task and the workers is weighed by twice what is queued ahead of it, plus the
workers with their hands full, plus the workers that may yet be lost
(`load`): a worker that takes something takes one from the queue and fills a
pair of hands, and one that is done empties a pair.

A step then does one of three things for the task (`Advance`). It takes it, or
it lowers the load, or it leaves the active workers as active as they were and
brings the one who moved nearer to its end. The last is what makes an active
worker somebody to wait for; where nobody is active there is one more thing to
do, which is to have somebody woken (`toDo`).
-/

namespace Interleave

/-- What there is to know of the workers. -/
structure Crew (ω : Type*) where
  /-- on its way to the queue, or back with its hands full -/
  active : ω → Bool
  /-- back with its hands full -/
  engaged : ω → Bool
  toGo : ω → Nat

/-- A queue and its workers, and how many of these may be lost at most. -/
structure Service (τ ω : Type*) where
  tasks : List τ
  workers : List ω
  losses : Nat := 0

namespace Crew

variable {τ ω : Type*} (C : Crew ω)

/-- The active workers are active still, no further from their end, and nearer
to it if it was they who moved. -/
def Carried (mover : Option Nat) (ws ws' : List ω) : Prop :=
  ∀ (j : Nat) w, ws[j]? = some w → C.active w = true →
    ∃ w', ws'[j]? = some w' ∧ C.active w' = true ∧ C.toGo w' ≤ C.toGo w ∧
      (mover = some j → C.toGo w' < C.toGo w)

variable {C}

theorem Carried.same (ws : List ω) : C.Carried none ws ws :=
  fun _ w hw hactive => ⟨w, hw, hactive, Nat.le_refl _, nofun⟩

theorem Carried.set {mover : Option Nat} {ws : List ω} {i : Nat} {v v' : ω}
    (hv : ws[i]? = some v) (hmover : ∀ j, mover = some j → j = i)
    (hkept : C.active v = true → C.active v' = true ∧ C.toGo v' ≤ C.toGo v ∧
      (mover = some i → C.toGo v' < C.toGo v)) :
    C.Carried mover ws (ws.set i v') := by
  intro j w hw hactive
  by_cases hij : i = j
  · subst hij
    rw [hv, Option.some.injEq] at hw
    subst hw
    exact ⟨v', List.getElem?_set_self (List.getElem?_eq_some_iff.mp hv).1, hkept hactive⟩
  · exact ⟨w, by rw [List.getElem?_set_ne hij, hw], hactive, Nat.le_refl _,
      fun h => absurd (hmover j h).symm hij⟩

theorem Carried.append (ws new : List ω) : C.Carried none ws (ws ++ new) :=
  fun _ w hw hactive =>
    ⟨w, by rw [List.getElem?_append_left (List.getElem?_eq_some_iff.mp hw).1, hw], hactive,
      Nat.le_refl _, nofun⟩

theorem Carried.map {f : ω → ω} (ws : List ω) (hf : ∀ w, C.active w = true → f w = w) :
    C.Carried none ws (ws.map f) :=
  fun _ w hw hactive =>
    ⟨w, by rw [List.getElem?_map, hw, Option.map_some, hf w hactive], hactive, Nat.le_refl _,
      nofun⟩

theorem Carried.idle {ws ws' : List ω} {mover : Option Nat} (h : C.Carried none ws ws')
    (hidle : ∀ (j : Nat) w, mover = some j → ws[j]? = some w → C.active w = false) :
    C.Carried mover ws ws' := by
  intro j w hw hactive
  obtain ⟨w', hw', hactive', hle, -⟩ := h j w hw hactive
  refine ⟨w', hw', hactive', hle, fun hmover => ?_⟩
  rw [hidle j w hmover hw] at hactive
  cases hactive

variable [DecidableEq τ] (C)

/-- What stands between task `t` and the workers. -/
def load (t : τ) (v : Service τ ω) : Nat :=
  2 * v.tasks.idxOf t + v.workers.countP C.engaged + v.losses

/-- What a step does for a queued task. -/
inductive Advance (t : τ) (mover : Option Nat) (v v' : Service τ ω) (taken : Prop) : Prop where
  | takes (htaken : taken)
  | lightens (hqueued : t ∈ v'.tasks) (hload : C.load t v' < C.load t v)
  | carries (hqueued : t ∈ v'.tasks) (hload : C.load t v' ≤ C.load t v)
      (hcarried : C.Carried mover v.workers v'.workers)

variable {C} {t : τ} {mover : Option Nat} {v v' : Service τ ω} {taken : Prop}

theorem Advance.of_same (ht : t ∈ v.tasks) (htasks : v.tasks <+: v'.tasks)
    (hworkers : v'.workers = v.workers) (hlosses : v'.losses ≤ v.losses) :
    C.Advance t none v v' taken := by
  obtain ⟨later, htasks⟩ := htasks
  refine .carries (by rw [← htasks]; exact List.mem_append_left _ ht) ?_
    (by rw [hworkers]; exact .same _)
  rw [load, load, hworkers, ← htasks, List.idxOf_append_of_mem ht]
  omega

theorem Advance.of_set {i : Nat} {w w' : ω} (ht : t ∈ v.tasks) (htasks : v'.tasks = v.tasks)
    (hw : v.workers[i]? = some w) (hworkers : v'.workers = v.workers.set i w')
    (hlosses : v'.losses ≤ v.losses) (hmover : ∀ j, mover = some j → j = i)
    (hengaged : C.engaged w' = C.engaged w)
    (hkept : C.active w = true → C.active w' = true ∧ C.toGo w' ≤ C.toGo w ∧
      (mover = some i → C.toGo w' < C.toGo w)) :
    C.Advance t mover v v' taken := by
  refine .carries (by rw [htasks]; exact ht) ?_
    (by rw [hworkers]; exact .set hw hmover hkept)
  rw [load, load, hworkers, htasks, countP_set_same hw hengaged]
  omega

theorem Advance.of_set_less {i : Nat} {w w' : ω} (ht : t ∈ v'.tasks)
    (hw : v.workers[i]? = some w) (hworkers : v'.workers = v.workers.set i w')
    (hlosses : v'.losses ≤ v.losses)
    (hless : 2 * v'.tasks.idxOf t + tally C.engaged w' <
      2 * v.tasks.idxOf t + tally C.engaged w) :
    C.Advance t mover v v' taken := by
  refine .lightens ht ?_
  have hadd := countP_set_add (p := C.engaged) (b := w') hw
  rw [load, load, hworkers]
  omega

theorem Advance.of_append {new : List ω} (ht : t ∈ v.tasks) (htasks : v'.tasks = v.tasks)
    (hworkers : v'.workers = v.workers ++ new) (hlosses : v'.losses ≤ v.losses)
    (hengaged : new.countP C.engaged = 0) : C.Advance t none v v' taken := by
  refine .carries (by rw [htasks]; exact ht) ?_ (by rw [hworkers]; exact .append _ _)
  rw [load, load, hworkers, htasks, List.countP_append, hengaged]
  omega

theorem Advance.of_map {f : ω → ω} (ht : t ∈ v.tasks) (htasks : v'.tasks = v.tasks)
    (hworkers : v'.workers = v.workers.map f) (hlosses : v'.losses ≤ v.losses)
    (hf : ∀ w, C.active w = true → f w = w) (hengaged : ∀ w, C.engaged (f w) = C.engaged w) :
    C.Advance t none v v' taken := by
  refine .carries (by rw [htasks]; exact ht) ?_ (by rw [hworkers]; exact .map _ hf)
  have hcount : (v.workers.map f).countP C.engaged = v.workers.countP C.engaged := by
    rw [List.countP_map]
    exact List.countP_congr fun w _ => by simp [hengaged]
  rw [load, load, hworkers, htasks, hcount]
  omega

theorem Advance.idle (h : C.Advance t none v v' taken)
    (hidle : ∀ (j : Nat) w, mover = some j → v.workers[j]? = some w → C.active w = false) :
    C.Advance t mover v v' taken := by
  cases h with
  | takes htaken => exact .takes htaken
  | lightens hqueued hload => exact .lightens hqueued hload
  | carries hqueued hload hcarried => exact .carries hqueued hload (hcarried.idle hidle)

theorem Advance.waits (h : C.Advance t mover v v' taken) : t ∈ v'.tasks ∨ taken := by
  cases h with
  | takes htaken => exact Or.inr htaken
  | lightens hqueued | carries hqueued => exact Or.inl hqueued

/-! ## What is left to do -/

variable (C) in
/-- The load, and one for the wake-up it takes to have an active worker. -/
def toDo (t : τ) (v : Service τ ω) : Nat :=
  2 * C.load t v + if v.workers.any C.active then 0 else 1

theorem toDo_of_active {w : ω} (hw : w ∈ v.workers) (hactive : C.active w = true) :
    C.toDo t v = 2 * C.load t v := by
  rw [toDo, if_pos (List.any_eq_true.mpr ⟨w, hw, hactive⟩)]
  rfl

theorem toDo_of_none (hnone : ∀ w ∈ v.workers, C.active w = false) :
    C.toDo t v = 2 * C.load t v + 1 := by
  have hany : v.workers.any C.active = false :=
    List.any_eq_false.mpr fun w hw => by simp [hnone w hw]
  rw [toDo, hany]
  rfl

theorem toDo_lt (h : C.load t v' < C.load t v) : C.toDo t v' < C.toDo t v := by
  unfold toDo
  split <;> omega

theorem Advance.worker {j : Nat} {w : ω} (h : C.Advance t mover v v' taken)
    (hw : v.workers[j]? = some w) (hactive : C.active w = true) :
    C.toDo t v' < C.toDo t v ∨ taken ∨ C.toDo t v' ≤ C.toDo t v ∧
      ∃ w', v'.workers[j]? = some w' ∧ C.active w' = true ∧ C.toGo w' ≤ C.toGo w ∧
        (mover = some j → C.toGo w' < C.toGo w) := by
  cases h with
  | takes htaken => exact Or.inr (Or.inl htaken)
  | lightens _ hload => exact Or.inl (toDo_lt hload)
  | carries _ hload hcarried =>
      obtain ⟨w', hw', hactive', hnearer⟩ := hcarried j w hw hactive
      refine Or.inr (Or.inr ⟨?_, w', hw', hactive', hnearer⟩)
      rw [toDo_of_active (List.mem_of_getElem? hw) hactive,
        toDo_of_active (List.mem_of_getElem? hw') hactive']
      exact Nat.mul_le_mul_left 2 hload

theorem Advance.nobody (h : C.Advance t mover v v' taken)
    (hnone : ∀ w ∈ v.workers, C.active w = false) :
    C.toDo t v' < C.toDo t v ∨ taken ∨
      C.toDo t v' ≤ C.toDo t v ∧ ∀ w ∈ v'.workers, C.active w = false := by
  cases h with
  | takes htaken => exact Or.inr (Or.inl htaken)
  | lightens _ hload => exact Or.inl (toDo_lt hload)
  | carries _ hload =>
      by_cases hactive : ∃ w ∈ v'.workers, C.active w = true
      · obtain ⟨w, hw, hactive⟩ := hactive
        refine Or.inl ?_
        rw [toDo_of_active hw hactive, toDo_of_none hnone]
        omega
      · have hnone' : ∀ w ∈ v'.workers, C.active w = false :=
          fun w hw => Bool.eq_false_iff.mpr fun h => hactive ⟨w, hw, h⟩
        refine Or.inr (Or.inr ⟨?_, hnone'⟩)
        rw [toDo_of_none hnone, toDo_of_none hnone']
        omega

end Crew

end Interleave
