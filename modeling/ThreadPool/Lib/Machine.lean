import Mathlib.Logic.Relation

/-!
# Machines that take one step at a time

An interleaving is a list of actions, each taken by whichever party the
scheduler picked. This file fixes the one notion of a run that everything
above it is stated over, and the rules for reasoning about it.

A `Machine` is an initial state and a partial, executable step function: an
action that is not enabled answers `none`. Reachability carries a condition
on the steps taken. `ReachableWhen ok` quantifies over the runs every step
of which meets `ok` in the state it is taken from, which is how a law that
holds only as long as some event stays away is stated without a second
transition relation. Plain reachability is the condition that is always met.

Three rules do all the work later: an invariant is what the initial state
has and every step keeps, a condition may be weakened, and a map of states
that sends steps to runs sends reachable states to reachable states. Closed
runs are evaluated by `runWhen`, which is the executable face of the same
relation.
-/

namespace Interleave

open Relation

/-- A system: where it starts, and what each action does where it is
enabled. -/
structure Machine (σ α : Type*) where
  init : σ
  step : σ → α → Option σ

namespace Machine

variable {σ α τ : Type*} {M : Machine σ α} {ok ok' : σ → α → Prop}

/-- One step, by an action that meets the condition where it is taken. -/
def StepWhen (M : Machine σ α) (ok : σ → α → Prop) (s s' : σ) : Prop :=
  ∃ a, ok s a ∧ M.step s a = some s'

/-- The states of the runs all of whose steps meet the condition. -/
def ReachableWhen (M : Machine σ α) (ok : σ → α → Prop) (s : σ) : Prop :=
  ReflTransGen (M.StepWhen ok) M.init s

/-- The states of all runs. -/
def Reachable (M : Machine σ α) (s : σ) : Prop :=
  M.ReachableWhen (fun _ _ => True) s

theorem ReachableWhen.step {s s' : σ} {a : α} (hr : M.ReachableWhen ok s)
    (ha : ok s a) (hs : M.step s a = some s') : M.ReachableWhen ok s' :=
  ReflTransGen.tail hr ⟨a, ha, hs⟩

theorem ReachableWhen.mono {s : σ} (hr : M.ReachableWhen ok s)
    (hok : ∀ s a, ok s a → ok' s a) : M.ReachableWhen ok' s :=
  ReflTransGen.mono (fun s _ ⟨a, ha, hs⟩ => ⟨a, hok s a ha, hs⟩) _ _ hr

theorem ReachableWhen.reachable {s : σ} (hr : M.ReachableWhen ok s) :
    M.Reachable s := hr.mono fun _ _ _ => trivial

/-- The invariant rule. The step may use that the state it starts from is
itself reached under the condition, so invariants proved earlier are at
hand without being restated. -/
theorem ReachableWhen.invariant {P : σ → Prop} {s : σ}
    (hr : M.ReachableWhen ok s) (hinit : P M.init)
    (hstep : ∀ s a s', M.ReachableWhen ok s → P s → ok s a →
      M.step s a = some s' → P s') : P s := by
  induction hr with
  | refl => exact hinit
  | tail hr hlast ih =>
      obtain ⟨a, ha, hs⟩ := hlast
      exact hstep _ a _ hr ih ha hs

/-- The invariant rule for all runs. -/
theorem Reachable.invariant {P : σ → Prop} {s : σ} (hr : M.Reachable s)
    (hinit : P M.init)
    (hstep : ∀ s a s', M.Reachable s → P s → M.step s a = some s' → P s') :
    P s :=
  ReachableWhen.invariant hr hinit fun s a s' hr hp _ hs => hstep s a s' hr hp hs

/-- A run from `s` all of whose steps meet the condition gets to `s'`. -/
def LeadsWhen (M : Machine σ α) (ok : σ → α → Prop) (s s' : σ) : Prop :=
  ReflTransGen (M.StepWhen ok) s s'

/-- A run from `s` gets to `s'`. -/
def Leads (M : Machine σ α) (s s' : σ) : Prop :=
  M.LeadsWhen (fun _ _ => True) s s'

theorem LeadsWhen.mono {s s' : σ} (hs : M.LeadsWhen ok s s')
    (hok : ∀ s a, ok s a → ok' s a) : M.LeadsWhen ok' s s' :=
  ReflTransGen.mono (fun s _ ⟨a, ha, hs⟩ => ⟨a, hok s a ha, hs⟩) _ _ hs

/-- What every step that meets the condition keeps, from whichever state,
once true, stays true. -/
theorem LeadsWhen.keeps {P : σ → Prop} {s s' : σ} (hs : M.LeadsWhen ok s s') (hp : P s)
    (hstep : ∀ s a s', P s → ok s a → M.step s a = some s' → P s') : P s' := by
  induction hs with
  | refl => exact hp
  | tail _ hlast ih =>
      obtain ⟨a, ha, hs⟩ := hlast
      exact hstep _ a _ ih ha hs

/-- What it keeps from the states that are reached. -/
theorem LeadsWhen.stable {P : σ → Prop} {s s' : σ} (hs : M.LeadsWhen ok s s')
    (hr : M.Reachable s) (hp : P s)
    (hstep : ∀ s a s', M.Reachable s → P s → ok s a → M.step s a = some s' → P s') :
    P s' := by
  have hboth : M.Reachable s' ∧ P s' :=
    hs.keeps (P := fun s => M.Reachable s ∧ P s) ⟨hr, hp⟩ fun s a s' hs ha hstep' =>
      ⟨ReachableWhen.step hs.1 trivial hstep', hstep s a s' hs.1 hs.2 ha hstep'⟩
  exact hboth.2

theorem Leads.stable {P : σ → Prop} {s s' : σ} (hs : M.Leads s s') (hr : M.Reachable s)
    (hp : P s)
    (hstep : ∀ s a s', M.Reachable s → P s → M.step s a = some s' → P s') : P s' :=
  LeadsWhen.stable hs hr hp fun s a s' hr hp _ hs => hstep s a s' hr hp hs

theorem LeadsWhen.le {f : σ → Nat} {s s' : σ} (hs : M.LeadsWhen ok s s')
    (hr : M.Reachable s)
    (hstep : ∀ s a s', M.Reachable s → ok s a → M.step s a = some s' → f s' ≤ f s) :
    f s' ≤ f s :=
  hs.stable (P := fun t => f t ≤ f s) hr (Nat.le_refl _) fun t a t' hr hle ha ht =>
    Nat.le_trans (hstep t a t' hr ha ht) hle

/-- The progress rule: where every state with `P` has an allowed step that is
the last one, or keeps `P` and lowers a rank, a run comes to its end. -/
theorem exists_leads_of_rank {P done : σ → Prop} (rank : σ → Nat)
    (hstep : ∀ s, P s → ∃ a s', ok s a ∧ M.step s a = some s' ∧
      (done s' ∨ P s' ∧ rank s' < rank s))
    {s : σ} (hs : P s) : ∃ s', M.LeadsWhen ok s s' ∧ done s' := by
  induction hrank : rank s using Nat.strongRecOn generalizing s with
  | ind r ih =>
      obtain ⟨a, t, ha, ht, hdone | ⟨hpt, hlt⟩⟩ := hstep s hs
      · exact ⟨t, ReflTransGen.single ⟨a, ha, ht⟩, hdone⟩
      · obtain ⟨s', hrun, hdone⟩ := ih (rank t) (by omega) hpt rfl
        exact ⟨s', ReflTransGen.head ⟨a, ha, ht⟩ hrun, hdone⟩

/-- The simulation rule: a map that sends every step of a run to a run of
`R` sends the states reached to states `R` reaches. -/
theorem ReachableWhen.simulates {R : τ → τ → Prop} (f : σ → τ) {s : σ}
    (hr : M.ReachableWhen ok s)
    (hstep : ∀ s a s', M.ReachableWhen ok s → ok s a →
      M.step s a = some s' → ReflTransGen R (f s) (f s')) :
    ReflTransGen R (f M.init) (f s) :=
  ReachableWhen.invariant (P := fun s => ReflTransGen R (f M.init) (f s)) hr
    ReflTransGen.refl fun s a s' hr ih ha hs => ih.trans (hstep s a s' hr ha hs)

/-- Run a list of actions, stopping at the first that is not enabled or
does not meet the condition. -/
def runWhen (M : Machine σ α) (ok : σ → α → Prop) [∀ s a, Decidable (ok s a)] :
    σ → List α → Option σ
  | s, [] => some s
  | s, a :: as =>
      if ok s a then
        match M.step s a with
        | some s' => runWhen M ok s' as
        | none => none
      else none

/-- Run a list of actions. -/
def run (M : Machine σ α) (as : List α) : Option σ :=
  M.runWhen (fun _ _ => True) M.init as

theorem reflTransGen_of_runWhen [∀ s a, Decidable (ok s a)] :
    ∀ {as : List α} {s s' : σ}, M.runWhen ok s as = some s' →
      ReflTransGen (M.StepWhen ok) s s' := by
  intro as
  induction as with
  | nil =>
      intro s s' h
      rw [runWhen, Option.some.injEq] at h
      rw [h]
  | cons a as ih =>
      intro s s' h
      rw [runWhen] at h
      split at h
      · next ha =>
          split at h
          · next mid hs => exact ReflTransGen.head ⟨a, ha, hs⟩ (ih h)
          · cases h
      · cases h

/-- A closed run from a state that evaluates to a state with a property shows
that the state leads to one with that property. -/
theorem exists_leads_of_runWhen (M : Machine σ α) (ok : σ → α → Prop)
    [∀ s a, Decidable (ok s a)] {s : σ} {as : List α} (P : σ → Prop) [DecidablePred P]
    (h : (M.runWhen ok s as).any (fun s' => decide (P s')) = true) :
    ∃ s', M.LeadsWhen ok s s' ∧ P s' := by
  obtain ⟨s', hs, hp⟩ := (Option.any_eq_true _ _).mp h
  exact ⟨s', reflTransGen_of_runWhen hs, of_decide_eq_true hp⟩

/-- A closed run that evaluates to a state with a property shows that a
state with that property is reached. -/
theorem exists_of_runWhen (M : Machine σ α) (ok : σ → α → Prop)
    [∀ s a, Decidable (ok s a)] (as : List α) (P : σ → Prop) [DecidablePred P]
    (h : (M.runWhen ok M.init as).any (fun s => decide (P s)) = true) :
    ∃ s, M.ReachableWhen ok s ∧ P s :=
  exists_leads_of_runWhen M ok P h

theorem exists_of_run (M : Machine σ α) (as : List α) (P : σ → Prop) [DecidablePred P]
    (h : (M.run as).any (fun s => decide (P s)) = true) : ∃ s, M.Reachable s ∧ P s :=
  exists_of_runWhen M _ as P h

end Machine

end Interleave
