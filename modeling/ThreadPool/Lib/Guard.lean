import ThreadPool.Lib.Census
import ThreadPool.Lib.Machine

/-!
# A guard that is tested first and shut later

Agents come to a guard one by one. An agent that finds it open goes inside,
does there what it has come for, and shuts the guard behind it. Testing and
shutting are two steps, and any number of agents may test in between, so the
guard alone keeps nobody out. What it does guarantee is told by one
condition on a run: nobody finds the guard open while somebody else is
inside. In such runs, and only in them, no more than one agent ever passes.

A system that is guarded in this way refines the machine below: its agents
are read as stages, its flag as the guard, and each of its steps is a step
here or none.
-/

namespace Interleave

open Relation

/-- How far an agent has come. -/
inductive Stage where
  | outside
  /-- it has found the guard open, and not shut it yet -/
  | inside
  /-- it has shut it -/
  | through
  deriving DecidableEq, Repr

def Stage.passed (st : Stage) : Bool := st ≠ .outside

structure Guard where
  isOpen : Bool := true
  agents : List Stage := []
  deriving DecidableEq, Repr

namespace Guard

inductive Action where
  | comes
  /-- agent `i` tests, and finds the guard open -/
  | passes (i : Nat)
  | shuts (i : Nat)
  deriving DecidableEq, Repr

/-- How many agents more have passed. -/
def Action.gain : Action → Nat
  | .passes _ => 1
  | _ => 0

def step (g : Guard) : Action → Option Guard
  | .comes => some { g with agents := g.agents ++ [.outside] }
  | .passes i =>
      if g.isOpen ∧ g.agents[i]? = some .outside then
        some { g with agents := g.agents.set i .inside }
      else none
  | .shuts i =>
      if g.agents[i]? = some .inside then
        some { isOpen := false, agents := g.agents.set i .through }
      else none

def machine : Machine Guard Action where
  init := {}
  step := step

/-- How many agents have passed. -/
def passed (g : Guard) : Nat := g.agents.countP Stage.passed

/-- Nobody passes while somebody else is inside. -/
def Vacant (g : Guard) (a : Action) : Prop :=
  ∀ i, a = .passes i → .inside ∉ g.agents

variable {g g' : Guard} {a : Action}

theorem passes_cases {i : Nat} (h : step g (.passes i) = some g') :
    g.isOpen = true ∧ g.agents[i]? = some .outside ∧
      g' = { g with agents := g.agents.set i .inside } := by
  rw [step] at h
  split at h
  · next hi => exact ⟨hi.1, hi.2, (Option.some.inj h).symm⟩
  · cases h

theorem shuts_cases {i : Nat} (h : step g (.shuts i) = some g') :
    g.agents[i]? = some .inside ∧
      g' = { isOpen := false, agents := g.agents.set i .through } := by
  rw [step] at h
  split at h
  · next hi => exact ⟨hi, (Option.some.inj h).symm⟩
  · cases h

theorem passed_step (h : step g a = some g') :
    g'.passed = g.passed + a.gain := by
  cases a with
  | comes =>
      rw [step, Option.some.injEq] at h
      rw [← h, passed, List.countP_append]
      rfl
  | passes i =>
      obtain ⟨-, hi, rfl⟩ := passes_cases h
      exact countP_set_gain hi rfl rfl
  | shuts i =>
      obtain ⟨hi, rfl⟩ := shuts_cases h
      exact countP_set_same hi rfl

/-! ## At most one -/

/-- An open guard has been shut by nobody, and a guard that is shut has been
passed. -/
structure Sound (g : Guard) : Prop where
  opened : g.isOpen = true → .through ∉ g.agents
  shut : g.isOpen = false → 0 < g.passed

theorem Sound.step (hs : Sound g) (h : step g a = some g') : Sound g' := by
  refine ⟨fun hopen hmem => ?_, fun hshut => ?_⟩
  · cases a with
    | comes =>
        rw [Guard.step, Option.some.injEq] at h
        subst h
        rcases List.mem_append.mp hmem with hmem | hmem
        · exact hs.opened hopen hmem
        · cases List.mem_singleton.mp hmem
    | passes i =>
        obtain ⟨hopen, -, rfl⟩ := passes_cases h
        rcases List.mem_or_eq_of_mem_set hmem with hmem | hst
        · exact hs.opened hopen hmem
        · cases hst
    | shuts i =>
        obtain ⟨-, rfl⟩ := shuts_cases h
        cases hopen
  · rw [passed_step h]
    cases a with
    | comes =>
        rw [Guard.step, Option.some.injEq] at h
        subst h
        exact Nat.lt_of_lt_of_le (hs.shut hshut) (Nat.le_add_right _ _)
    | passes i => exact Nat.lt_of_lt_of_le Nat.zero_lt_one (Nat.le_add_left _ _)
    | shuts i =>
        obtain ⟨hi, -⟩ := shuts_cases h
        exact Nat.lt_of_lt_of_le (countP_pos_of_getElem? hi rfl) (Nat.le_add_right _ _)

theorem sound_of_reachable {ok : Guard → Action → Prop}
    (hr : machine.ReachableWhen ok g) : Sound g :=
  hr.invariant ⟨fun _ => List.not_mem_nil, nofun⟩ fun _ _ _ _ hs _ hstep => hs.step hstep

theorem passed_eq_zero (hin : .inside ∉ g.agents) (hthrough : .through ∉ g.agents) :
    g.passed = 0 := by
  refine List.countP_eq_zero.mpr fun st hst => ?_
  cases st with
  | outside => nofun
  | inside => exact absurd hst hin
  | through => exact absurd hst hthrough

/-- The one who passes finds the guard open, so nobody is through, and finds
nobody inside. -/
theorem passed_le_one (hr : machine.ReachableWhen Vacant g) : g.passed ≤ 1 :=
  hr.invariant (P := fun g => g.passed ≤ 1) (Nat.zero_le 1)
    fun g a g' hr hle hok hstep => by
      rw [passed_step hstep]
      cases a with
      | passes i =>
          obtain ⟨hopen, -, -⟩ := passes_cases hstep
          have hzero := passed_eq_zero (hok i rfl) ((sound_of_reachable hr).opened hopen)
          exact (congrArg (· + 1) hzero).le
      | _ => exact hle

theorem passed_eq_one (hr : machine.ReachableWhen Vacant g) (hshut : g.isOpen = false) :
    g.passed = 1 :=
  Nat.le_antisymm (passed_le_one hr) ((sound_of_reachable hr).shut hshut)

/-! ## The guard of a list of agents -/

section

variable {α : Type*} {f : α → Stage} {l : List α} {b c : α} {i : Nat} {isOpen : Bool}

/-- The guard, with the agents of the list at the stages `f` says. -/
def of (isOpen : Bool) (f : α → Stage) (l : List α) : Guard := ⟨isOpen, l.map f⟩

theorem passed_of : (of isOpen f l).passed = l.countP fun a => (f a).passed := by
  rw [passed, of, List.countP_map]
  rfl

theorem inside_of : .inside ∉ (of isOpen f l).agents ↔ ∀ a ∈ l, f a ≠ .inside := by
  simp [of]

theorem agents_of (hi : l[i]? = some b) : (of isOpen f l).agents[i]? = some (f b) := by
  rw [of, List.getElem?_map, hi]
  rfl

theorem of_set (l : List α) (i : Nat) (c : α) :
    of isOpen f (l.set i c) = ⟨isOpen, (l.map f).set i (f c)⟩ := by
  rw [of, List.map_set]

theorem of_set_same (hi : l[i]? = some b) (hf : f c = f b) :
    of isOpen f (l.set i c) = of isOpen f l := by
  rw [of, of, map_set_same hi hf]

theorem of_comes (hb : f b = .outside) :
    step (of isOpen f l) .comes = some (of isOpen f (l ++ [b])) := by
  simp [step, of, hb]

theorem of_passes (hopen : isOpen = true) (hi : l[i]? = some b) (hb : f b = .outside)
    (hc : f c = .inside) :
    step (of isOpen f l) (.passes i) = some (of isOpen f (l.set i c)) := by
  rw [step, if_pos ⟨hopen, hb ▸ agents_of hi⟩, of_set, hc]
  rfl

theorem of_shuts (hi : l[i]? = some b) (hb : f b = .inside) (hc : f c = .through) :
    step (of isOpen f l) (.shuts i) = some (of false f (l.set i c)) := by
  rw [step, if_pos (hb ▸ agents_of hi), of_set, hc]
  rfl

end

/-! ## Guarded systems -/

/-- What a step of a system is to its guard; `finds` says whether somebody finds
it open. -/
inductive Refines (finds : Bool) (g g' : Guard) : Prop where
  | passes (i : Nat) (hfinds : finds = true) (hstep : step g (.passes i) = some g')
  | moves (a : Action) (hfinds : finds = false) (hgain : a.gain = 0)
      (hstep : step g a = some g')
  | stays (hfinds : finds = false) (hsame : g' = g)

theorem Refines.passed {finds : Bool} (h : Refines finds g g') :
    g'.passed = g.passed + finds.toNat := by
  cases h with
  | passes i hfinds hstep => rw [passed_step hstep, hfinds]; rfl
  | moves a hfinds hgain hstep => rw [passed_step hstep, hfinds, hgain]; rfl
  | stays hfinds hsame => rw [hsame, hfinds]; rfl

/-- Every step of the system is a step of the guard, or none. -/
structure Guards {σ α : Type*} (M : Machine σ α) (view : σ → Guard)
    (finds : σ → α → Bool) : Prop where
  init : view M.init = {}
  step : ∀ s a s', M.Reachable s → M.step s a = some s' →
    Refines (finds s a) (view s) (view s')

namespace Guards

variable {σ α : Type*} {M : Machine σ α} {view : σ → Guard} {finds : σ → α → Bool}
  {ok : σ → α → Prop} {s s' t : σ} {x : α}

theorem reachable (h : Guards M view finds) (hr : M.ReachableWhen ok s)
    (hok : ∀ s a, ok s a → finds s a = true → .inside ∉ (view s).agents) :
    machine.ReachableWhen Vacant (view s) := by
  have hsim := hr.simulates (R := machine.StepWhen Vacant) view
    fun s a s' hr ha hstep => by
      cases h.step s a s' hr.reachable hstep with
      | passes i hfinds hpass =>
          exact .single ⟨.passes i, fun _ _ => hok s a ha hfinds, hpass⟩
      | moves y hfinds hgain hmove =>
          refine .single ⟨y, fun i hi => ?_, hmove⟩
          rw [hi] at hgain
          cases hgain
      | stays hfinds hsame => rw [hsame]
  rw [h.init] at hsim
  exact hsim

theorem passed_le (h : Guards M view finds) (hr : M.Reachable s) (hs : M.Leads s t) :
    (view s).passed ≤ (view t).passed :=
  hs.stable (P := fun t => (view s).passed ≤ (view t).passed) hr (Nat.le_refl _)
    fun t a t' hr hle hstep => by
      rw [(h.step t a t' hr hstep).passed]
      omega

/-- Whoever finds the guard open while somebody is inside is the second, for
good. -/
theorem two_le_passed (h : Guards M view finds) (hr : M.Reachable s)
    (hfinds : finds s x = true) (hin : .inside ∈ (view s).agents)
    (hstep : M.step s x = some s') (hs : M.Leads s' t) : 2 ≤ (view t).passed := by
  have hone : 0 < (view s).passed := List.countP_pos_iff.mpr ⟨.inside, hin, rfl⟩
  have htwo := (h.step s x s' hr hstep).passed
  have hr' : M.Reachable s' := hr.tail ⟨x, trivial, hstep⟩
  have hle := h.passed_le hr' hs
  rw [hfinds, Bool.toNat_true] at htwo
  omega

end Guards

end Guard

end Interleave
