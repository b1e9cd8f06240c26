import Mathlib.Tactic.ByContra
import ThreadPool.Lib.Machine

/-!
# Fair runs

What a machine never does is a matter of the states it reaches. What it does
in the end is a matter of whole runs, and of a scheduler that does not pass
one party over for good. `Run` is an infinite run. `Fair` is weak fairness
towards a party: if it could move at all times from some time on, it moves
again. `StronglyFair` asks more, and is what a party needs that waits for a
mutex others keep taking: if it could move again and again, it moves. What a
party does for as long as it likes is kept apart from both: `FairOutside` says
nothing of the times it is busy, and that these end is a premise of its own
(`Ends`).

The one rule for liveness is the rule of the helpful party
(`Helped.eventually`). Before the goal is reached there is always a party
whose next steps help. Steps of the others leave it helpful or lower a
measure, its own steps bring it nearer to its end or lower the measure; and a
helper moves in the end, by whichever fairness there is. So either the measure
falls, and there is a next helper, or the helper is passed over for good,
which fairness excludes. Which party helps may change as often as the measure
falls.

A closed run that comes to a state where nobody can move but an idle step is
fair, whatever the parties are (`fair_thenIdle`). That is how a law about
fair runs is applied to a run that is written down.
-/

namespace Interleave

namespace Machine

variable {σ α : Type*} {M : Machine σ α}

/-- An infinite run. -/
structure Run (M : Machine σ α) where
  state : Nat → σ
  act : Nat → α
  start : state 0 = M.init
  next : ∀ n, M.step (state n) (act n) = some (state (n + 1))

/-- A party can move. A party is the set of its actions. -/
def Enabled (M : Machine σ α) (party : α → Prop) (s : σ) : Prop :=
  ∃ a, party a ∧ (M.step s a).isSome = true

namespace Run

variable (ρ : M.Run)

theorem reachableWhen {ok : σ → α → Prop} (hok : ∀ n, ok (ρ.state n) (ρ.act n)) (n : Nat) :
    M.ReachableWhen ok (ρ.state n) := by
  induction n with
  | zero =>
      rw [ρ.start]
      exact Relation.ReflTransGen.refl
  | succ n ih => exact ReachableWhen.step ih (hok n) (ρ.next n)

theorem reachable (n : Nat) : M.Reachable (ρ.state n) :=
  ρ.reachableWhen (fun _ => trivial) n

/-- From time `n` on. -/
def Always (n : Nat) (P : σ → Prop) : Prop := ∀ m, n ≤ m → P (ρ.state m)

/-- At time `n` or later. -/
def Eventually (n : Nat) (P : σ → Prop) : Prop := ∃ m, n ≤ m ∧ P (ρ.state m)

/-- A party that could move at all times from some time on moves again. -/
def Fair (party : α → Prop) : Prop :=
  ∀ n, ρ.Always n (M.Enabled party) → ∃ m, n ≤ m ∧ party (ρ.act m)

/-- A party that could move again and again moves again. -/
def StronglyFair (party : α → Prop) : Prop :=
  ∀ n, (∀ m, n ≤ m → ρ.Eventually m (M.Enabled party)) → ∃ m, n ≤ m ∧ party (ρ.act m)

/-- Weak fairness while the party is not busy. How long it is busy is its own
affair, and not the scheduler's to promise. -/
def FairOutside (busy : σ → Prop) (party : α → Prop) : Prop :=
  ∀ n, ρ.Always n (fun s => M.Enabled party s ∧ ¬busy s) → ∃ m, n ≤ m ∧ party (ρ.act m)

/-- Strong fairness while the party is not busy. -/
def StronglyFairOutside (busy : σ → Prop) (party : α → Prop) : Prop :=
  ∀ n, (∀ m, n ≤ m → ρ.Eventually m fun s => M.Enabled party s ∧ ¬busy s) →
    ∃ m, n ≤ m ∧ party (ρ.act m)

/-- What is busy is not busy for good. -/
def Ends (busy : σ → Prop) : Prop :=
  ∀ n, busy (ρ.state n) → ρ.Eventually n fun s => ¬busy s

variable {ρ}

theorem StronglyFair.fair {party : α → Prop} (h : ρ.StronglyFair party) : ρ.Fair party :=
  fun n henabled => h n fun m hm => ⟨m, Nat.le_refl m, henabled m hm⟩

theorem Always.mono {n m : Nat} {P : σ → Prop} (h : ρ.Always n P) (hle : n ≤ m) :
    ρ.Always m P := fun k hk => h k (Nat.le_trans hle hk)

theorem always_of_step {n : Nat} {P : σ → Prop} (hp : P (ρ.state n))
    (hstep : ∀ s a s', M.Reachable s → P s → M.step s a = some s' → P s') :
    ρ.Always n P := by
  intro m hm
  induction hm with
  | refl => exact hp
  | step _ ih => exact hstep _ _ _ (ρ.reachable _) ih (ρ.next _)

theorem Fair.outside {busy : σ → Prop} {party : α → Prop} (h : ρ.Fair party) :
    ρ.FairOutside busy party := fun n henabled => h n fun m hm => (henabled m hm).1

theorem StronglyFair.outside {busy : σ → Prop} {party : α → Prop}
    (h : ρ.StronglyFair party) : ρ.StronglyFairOutside busy party :=
  fun n henabled => h n fun m hm => by
    obtain ⟨k, hk, hen, -⟩ := henabled m hm
    exact ⟨k, hk, hen⟩

section Busy

variable {busy : σ → Prop} {party : α → Prop}
  (hown : ∀ s a s', M.Reachable s → busy s → M.step s a = some s' → ¬party a → busy s')

include hown

/-- A party that alone can end what it is busy with moves again. -/
theorem Ends.moves (hends : ρ.Ends busy) {n : Nat} (hbusy : busy (ρ.state n)) :
    ∃ m, n ≤ m ∧ party (ρ.act m) := by
  by_contra hnot
  obtain ⟨m, hm, hover⟩ := hends n hbusy
  have hstays : ∀ k, n ≤ k → busy (ρ.state k) := by
    intro k hk
    induction hk with
    | refl => exact hbusy
    | @step k hk ih =>
        exact hown _ _ _ (ρ.reachable k) ih (ρ.next k) fun hmoves => hnot ⟨k, hk, hmoves⟩
  exact hover (hstays m hm)

/-- Where what the party is busy with ends, fairness in between is fairness. -/
theorem FairOutside.fair (h : ρ.FairOutside busy party) (hends : ρ.Ends busy) :
    ρ.Fair party := by
  intro n henabled
  by_cases hbusy : ∃ m, n ≤ m ∧ busy (ρ.state m)
  · obtain ⟨m, hm, hbusy⟩ := hbusy
    obtain ⟨k, hk, hmoves⟩ := hends.moves hown hbusy
    exact ⟨k, Nat.le_trans hm hk, hmoves⟩
  · exact h n fun m hm => ⟨henabled m hm, fun hb => hbusy ⟨m, hm, hb⟩⟩

theorem StronglyFairOutside.stronglyFair (h : ρ.StronglyFairOutside busy party)
    (hends : ρ.Ends busy) : ρ.StronglyFair party := by
  intro n henabled
  by_cases hbusy : ∃ m, n ≤ m ∧ busy (ρ.state m)
  · obtain ⟨m, hm, hbusy⟩ := hbusy
    obtain ⟨k, hk, hmoves⟩ := hends.moves hown hbusy
    exact ⟨k, Nat.le_trans hm hk, hmoves⟩
  · refine h n fun m hm => ?_
    obtain ⟨k, hk, hen⟩ := henabled m hm
    exact ⟨k, hk, hen, fun hb => hbusy ⟨k, Nat.le_trans hm hk, hb⟩⟩

end Busy

theorem leads {n m : Nat} (ρ : M.Run) (h : n ≤ m) : M.Leads (ρ.state n) (ρ.state m) := by
  induction h with
  | refl => exact Relation.ReflTransGen.refl
  | step _ ih => exact Relation.ReflTransGen.tail ih ⟨_, trivial, ρ.next _⟩

/-! ## The rule of the helpful party -/

/-- What is owed for `Q` to be reached from `n` on: helpers with a measure
that tells how much is left to do, and for each how far it is from its
end. -/
structure Helped {ι : Type*} (ρ : M.Run) (n : Nat) (party : ι → α → Prop) (Q : σ → Prop)
    (help : ι → σ → Prop) (measure : σ → Nat) (dist : ι → σ → Nat) : Prop where
  exists_help : ρ.Always n fun s => ¬Q s → ∃ i, help i s
  moves : ∀ i m, n ≤ m → ρ.Always m (fun s => ¬Q s ∧ help i s) →
    ∃ k, m ≤ k ∧ party i (ρ.act k)
  step : ∀ m, n ≤ m → ¬Q (ρ.state m) → ∀ i, help i (ρ.state m) →
    measure (ρ.state (m + 1)) < measure (ρ.state m) ∨ Q (ρ.state (m + 1)) ∨
      measure (ρ.state (m + 1)) ≤ measure (ρ.state m) ∧ help i (ρ.state (m + 1)) ∧
        dist i (ρ.state (m + 1)) ≤ dist i (ρ.state m) ∧
        (party i (ρ.act m) → dist i (ρ.state (m + 1)) < dist i (ρ.state m))

variable {ι : Type*} {party : ι → α → Prop} {Q : σ → Prop} {help : ι → σ → Prop}
  {measure : σ → Nat} {dist : ι → σ → Nat} {n : Nat}

theorem Helped.persists (h : Helped ρ n party Q help measure dist)
    (hnever : ∀ m, n ≤ m → ¬Q (ρ.state m)) {m : Nat} (hm : n ≤ m) {i : ι}
    (hi : help i (ρ.state m))
    (hlow : ∀ k, m ≤ k → measure (ρ.state m) ≤ measure (ρ.state k)) :
    ∀ k, m ≤ k → help i (ρ.state k) ∧ measure (ρ.state k) ≤ measure (ρ.state m) ∧
      dist i (ρ.state k) ≤ dist i (ρ.state m) := by
  intro k hk
  induction hk with
  | refl => exact ⟨hi, Nat.le_refl _, Nat.le_refl _⟩
  | @step k hk ih =>
      replace hk : m ≤ k := hk
      obtain ⟨hhelp, hmeasure, hdist⟩ := ih
      have hnk : n ≤ k := Nat.le_trans hm hk
      have hlow' := hlow (k + 1) (by omega)
      rcases h.step k hnk (hnever k hnk) i hhelp with hlt | hq | ⟨hle, hhelp', hdist', -⟩
      · omega
      · exact absurd hq (hnever (k + 1) (by omega))
      · exact ⟨hhelp', Nat.le_trans hle hmeasure, Nat.le_trans hdist' hdist⟩

theorem Helped.falls (h : Helped ρ n party Q help measure dist)
    (hnever : ∀ m, n ≤ m → ¬Q (ρ.state m)) {m : Nat}
    (hm : n ≤ m) {i : ι} (hi : help i (ρ.state m)) :
    ∃ k, m ≤ k ∧ measure (ρ.state k) < measure (ρ.state m) := by
  induction hd : dist i (ρ.state m) using Nat.strongRecOn generalizing m with
  | ind d ih =>
      by_contra hnot
      have hlow : ∀ k, m ≤ k → measure (ρ.state m) ≤ measure (ρ.state k) :=
        fun k hk => Nat.le_of_not_lt fun hlt => hnot ⟨k, hk, hlt⟩
      have hpersists := h.persists hnever hm hi hlow
      obtain ⟨k, hk, hmoves⟩ := h.moves i m hm fun k hk =>
        ⟨hnever k (Nat.le_trans hm hk), (hpersists k hk).1⟩
      obtain ⟨hhelp, hmeasure, hdist⟩ := hpersists k hk
      have hnk : n ≤ k := Nat.le_trans hm hk
      rcases h.step k hnk (hnever k hnk) i hhelp with hlt | hq | ⟨hle, hhelp', -, hnearer⟩
      · exact hnot ⟨k + 1, by omega, by omega⟩
      · exact hnever (k + 1) (by omega) hq
      · have hcloser := hnearer hmoves
        obtain ⟨l, hl, hlt⟩ := ih (dist i (ρ.state (k + 1))) (by omega) (by omega) hhelp' rfl
        exact hnot ⟨l, by omega, by omega⟩

/-- The rule of the helpful party. -/
theorem Helped.eventually (h : Helped ρ n party Q help measure dist) :
    ρ.Eventually n Q := by
  by_contra hnot
  have hnever : ∀ m, n ≤ m → ¬Q (ρ.state m) := fun m hm hq => hnot ⟨m, hm, hq⟩
  -- the measure cannot fall for ever
  have hfalls : ∀ k m, n ≤ m → measure (ρ.state m) = k → False := by
    intro k
    induction k using Nat.strongRecOn with
    | ind k ih =>
        intro m hm hk
        obtain ⟨i, hi⟩ := h.exists_help m hm (hnever m hm)
        obtain ⟨l, hl, hlt⟩ := h.falls hnever hm hi
        exact ih (measure (ρ.state l)) (by omega) l (by omega) rfl
  exact hfalls _ n (Nat.le_refl n) rfl

end Run

/-! ## Runs that come to rest -/

/-- The states along a list of actions, the last one for ever after. -/
def follow (M : Machine σ α) : σ → List α → Nat → σ
  | s, [], _ => s
  | s, _ :: _, 0 => s
  | s, a :: as, n + 1 =>
      match M.step s a with
      | some s' => M.follow s' as n
      | none => s

theorem follow_zero (s : σ) (as : List α) : M.follow s as 0 = s := by
  cases as <;> rfl

theorem follow_step {as : List α} {s s' : σ} {idle : α}
    (hrun : M.runWhen (fun _ _ => True) s as = some s')
    (hidle : M.step s' idle = some s') (n : Nat) :
    M.step (M.follow s as n) (as.getD n idle) = some (M.follow s as (n + 1)) := by
  induction as generalizing s n with
  | nil =>
      rw [runWhen, Option.some.injEq] at hrun
      rw [hrun]
      exact hidle
  | cons a as ih =>
      rw [runWhen, if_pos trivial] at hrun
      split at hrun
      · next mid hmid =>
          cases n with
          | zero =>
              have hnext : M.follow s (a :: as) 1 = mid := by
                rw [follow, hmid]
                exact follow_zero mid as
              rw [hnext]
              exact hmid
          | succ n =>
              have hhere : ∀ k, M.follow s (a :: as) (k + 1) = M.follow mid as k := by
                intro k
                rw [follow, hmid]
              rw [hhere, hhere]
              exact ih hrun n
      · cases hrun

theorem follow_rest {as : List α} {s s' : σ}
    (hrun : M.runWhen (fun _ _ => True) s as = some s') {n : Nat} (hn : as.length ≤ n) :
    M.follow s as n = s' := by
  induction as generalizing s n with
  | nil =>
      rw [runWhen, Option.some.injEq] at hrun
      exact hrun
  | cons a as ih =>
      rw [runWhen, if_pos trivial] at hrun
      split at hrun
      · next mid hmid =>
          cases n with
          | zero => exact absurd hn (Nat.not_succ_le_zero _)
          | succ n =>
              rw [follow, hmid]
              exact ih hrun (Nat.le_of_succ_le_succ hn)
      · cases hrun

/-- A closed run, continued by an idle step for ever. -/
def Run.thenIdle {as : List α} {s : σ} (idle : α) (hrun : M.run as = some s)
    (hidle : M.step s idle = some s) : M.Run where
  state := M.follow M.init as
  act n := as.getD n idle
  start := follow_zero _ _
  next := follow_step hrun hidle

theorem Run.thenIdle_state {as : List α} {s : σ} {idle : α} {hrun : M.run as = some s}
    {hidle : M.step s idle = some s} {n : Nat} (hn : as.length ≤ n) :
    (Run.thenIdle idle hrun hidle).state n = s := follow_rest hrun hn

theorem Run.always_thenIdle {as : List α} {s : σ} {idle : α} {hrun : M.run as = some s}
    {hidle : M.step s idle = some s} {n : Nat} {P : σ → Prop}
    (hsteps : ∀ m, m < as.length → n ≤ m → P (M.follow M.init as m)) (hend : P s) :
    (Run.thenIdle idle hrun hidle).Always n P := by
  intro m hm
  by_cases hlt : m < as.length
  · exact hsteps m hlt hm
  · rw [Run.thenIdle_state (Nat.le_of_not_lt hlt)]
    exact hend

theorem Run.fair_thenIdle {as : List α} {s : σ} {idle : α} {hrun : M.run as = some s}
    {hidle : M.step s idle = some s} {party : α → Prop} (hrest : ¬M.Enabled party s) :
    (Run.thenIdle idle hrun hidle).Fair party := by
  intro n henabled
  have hend := henabled (max n as.length) (Nat.le_max_left _ _)
  rw [Run.thenIdle_state (Nat.le_max_right _ _)] at hend
  exact absurd hend hrest

theorem Run.stronglyFair_thenIdle {as : List α} {s : σ} {idle : α} {hrun : M.run as = some s}
    {hidle : M.step s idle = some s} {party : α → Prop} (hrest : ¬M.Enabled party s) :
    (Run.thenIdle idle hrun hidle).StronglyFair party := by
  intro n henabled
  obtain ⟨m, hm, hend⟩ := henabled (max n as.length) (Nat.le_max_left _ _)
  rw [Run.thenIdle_state (Nat.le_trans (Nat.le_max_right _ _) hm)] at hend
  exact absurd hend hrest

theorem Run.ends_thenIdle {as : List α} {s : σ} {idle : α} {hrun : M.run as = some s}
    {hidle : M.step s idle = some s} {busy : σ → Prop} (hrest : ¬busy s) :
    (Run.thenIdle idle hrun hidle).Ends busy := by
  intro n _
  refine ⟨max n as.length, Nat.le_max_left _ _, ?_⟩
  rw [Run.thenIdle_state (Nat.le_max_right _ _)]
  exact hrest

theorem Run.meets_thenIdle {as : List α} {s : σ} {idle : α} {hrun : M.run as = some s}
    {hidle : M.step s idle = some s} {ok : σ → α → Prop}
    (hsteps : ∀ m, m < as.length → ok (M.follow M.init as m) (as.getD m idle))
    (hend : ok s idle) (m : Nat) :
    ok ((Run.thenIdle idle hrun hidle).state m) ((Run.thenIdle idle hrun hidle).act m) := by
  by_cases hlt : m < as.length
  · exact hsteps m hlt
  · have hact : (Run.thenIdle idle hrun hidle).act m = idle := by
      show as.getD m idle = idle
      rw [List.getD_eq_getElem?_getD, List.getElem?_eq_none (Nat.le_of_not_lt hlt)]
      rfl
    rw [Run.thenIdle_state (Nat.le_of_not_lt hlt), hact]
    exact hend

end Machine

end Interleave
