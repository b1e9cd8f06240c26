import ThreadPool.Lib.Snapshot
import ThreadPool.Numa.Conservation

/-!
# What `NumaThreadPool::TaskCount` returns

`TaskCount` locks one node after the other, reads the length of its queue and
adds it up. This file puts a thread that calls it beside the pool: a step is
a step of the pool or the critical section of `TaskCount` on its next node.
The calls that `Stop` and the monitor make are the same loop, written out in
the pool's own machine.

The lengths at every moment of the call are kept beside it, so that what it
returns can be compared with them.
-/

namespace ThreadPool.Numa

open Interleave Machine Reading

/-! ## A call of `TaskCount` beside the pool -/

/-- `total_tasks`, and the node the loop has got to. -/
structure Counting where
  node : Nat := 0
  totalTasks : Nat := 0
  deriving DecidableEq, Repr

/-- The pool, the last call of `TaskCount`, and the lengths at each moment from
its first step to its return, which no step of the code reads. -/
structure Counted where
  pool : State
  call : Option Counting := none
  moments : List (List Nat) := []
  deriving DecidableEq, Repr

inductive CountAction where
  | pool (a : Action)
  /-- some thread calls `TaskCount` -/
  | call
  /-- the call's next critical section -/
  | count
  deriving DecidableEq, Repr

/-- The critical section of `TaskCount` on its next node. -/
def taskCountStep (s : State) (c : Counting) : Option Counting :=
  match s.nodes[c.node]? with
  | none => none
  | some nd =>
      if s.tasksMutexFree c.node then
        some { node := c.node + 1, totalTasks := c.totalTasks + nd.tasks.length }
      else none

/-- The value `TaskCount` has returned. -/
def Counted.returned (s : Counted) : Option Nat :=
  match s.call with
  | none => none
  | some c => if c.node < s.pool.nodes.length then none else some c.totalTasks

def countedStep (cfg : Config) (s : Counted) : CountAction → Option Counted
  | .pool a =>
      (step cfg s.pool a).map fun p =>
        { s with
          pool := p
          moments := if s.returned = none then s.moments ++ [p.lengths] else s.moments }
  | .call => some { s with call := some {}, moments := [s.pool.lengths] }
  | .count =>
      match s.call with
      | none => none
      | some c => (taskCountStep s.pool c).map fun c => { s with call := some c }

/-- A pool, and a thread that calls `TaskCount` now and then. -/
def counted (cfg : Config) : Machine Counted CountAction where
  init := { pool := (pool cfg).init }
  step := countedStep cfg

/-! ## What changes a queue -/

/-- The node whose queue a step changes, if it changes one. -/
def State.alters (s : State) : Action → Option Nat
  | .enqueue k _ =>
      match s.calls[k]? with
      | some c => if c.pc = .push then some c.nodeNum.toNat else none
      | none => none
  | .worker j _ =>
      match s.workers[j]? with
      | some w =>
          if w.native.pc = .pop ∧ (s.node w.native.nodeNum).tasks ≠ [] then
            some w.native.nodeNum
          else none
      | none => none
  | .control _ _ =>
      match s.control with
      | .stop _ (.tasks n) => if (s.node n).tasks ≠ [] then some n else none
      | _ => none
  | _ => none

theorem lengths_set {s s' : State} {n : Nat} {nd : NodeData}
    (h : s'.nodes = s.nodes.set n nd) :
    s'.lengths = s.lengths.set n nd.tasks.length := by
  rw [State.lengths, h, List.map_set]
  rfl

theorem lengths_set_same {s s' : State} {n : Nat} {nd nd' : NodeData}
    (hnd : s.nodes[n]? = some nd) (h : s'.nodes = s.nodes.set n nd')
    (htasks : nd'.tasks.length = nd.tasks.length) : s'.lengths = s.lengths := by
  rw [lengths_set h, htasks]
  refine set_self ?_
  rw [State.lengths, List.getElem?_map, hnd]
  rfl

theorem lengths_pushWorker (s : State) (n : Nat) : (pushWorker s n).lengths = s.lengths := by
  refine List.ext_getElem? fun k => ?_
  simp only [State.lengths, pushWorker, List.getElem?_map, List.getElem?_modify]
  cases s.nodes[k]? with
  | none => rfl
  | some nd => by_cases hk : n = k <;> simp [hk]

theorem Move.lengths {cfg : Config} {s s' : State} {a : Action} (h : Move cfg s a s') :
    s'.lengths = s.lengths ∨
      ∃ n x, s.alters a = some n ∧ s'.lengths = s.lengths.set n x := by
  cases h with
  | @pushes k pick c nd hc hpc hnd hfree =>
      right
      exact ⟨c.nodeNum.toNat, _, by simp [State.alters, hc, hpc], lengths_set rfl⟩
  | @loops j throws w sh nd nd' pc fl hw hnd hstep =>
      generalize hpc : w.native.pc = pc₀ at hstep
      cases hstep with
      | pops t rest hfree htasks =>
          right
          refine ⟨w.native.nodeNum, _, ?_, lengths_set rfl⟩
          simp [State.alters, hw, hpc, node_eq hnd, htasks]
      | _ => exact Or.inl (lengths_set_same hnd rfl rfl)
  | @clearTasks _ _ p n nd hc hnd hfree =>
      by_cases hnil : nd.tasks = []
      · exact Or.inl (lengths_set_same hnd rfl (by rw [hnil]))
      · right
        exact ⟨n, _, by simp [State.alters, hc, node_eq hnd, hnil], lengths_set rfl⟩
  | pushesSlot | expandPushes => exact Or.inl (lengths_pushWorker s _)
  | _ => exact Or.inl rfl

/-! ## The law -/

/-- The reading a call is. -/
def Counted.reading (s : Counted) (c : Counting) : Reading Nat :=
  ⟨s.pool.lengths, c.node, c.totalTasks, s.moments⟩

/-- The queue of a node still to be counted changes only while the nodes that
have been counted hold as many tasks as were counted on them. -/
def Undisturbed (s : Counted) : CountAction → Prop
  | .pool a =>
      ∀ n ∈ s.pool.alters a, ∀ c ∈ s.call, c.node ≤ n →
        (s.pool.lengths.take c.node).sum = c.totalTasks
  | .call | .count => True

instance (s : Counted) (a : CountAction) : Decidable (Undisturbed s a) :=
  match a with
  | .pool a => inferInstanceAs (Decidable (∀ n ∈ s.pool.alters a, ∀ c ∈ s.call, _ → _))
  | .call | .count => inferInstanceAs (Decidable True)

theorem length_lengths (s : State) : s.lengths.length = s.nodes.length := List.length_map _

/-- The pool a call is made on is reached by steps of the pool alone. -/
theorem pool_of_reachable {cfg : Config} {s : Counted} (hr : (counted cfg).Reachable s) :
    (pool cfg).Reachable s.pool := by
  refine hr.invariant (P := fun s : Counted => (pool cfg).Reachable s.pool)
    Relation.ReflTransGen.refl fun s a s' _ hs hstep => ?_
  cases a with
  | pool a =>
      obtain ⟨p, hp, rfl⟩ := Option.map_eq_some_iff.mp hstep
      exact hs.step trivial hp
  | call =>
      cases hstep
      exact hs
  | count =>
      simp only [counted, countedStep] at hstep
      split at hstep
      · cases hstep
      · obtain ⟨c, -, rfl⟩ := Option.map_eq_some_iff.mp hstep
        exact hs

theorem explained_of_pool {cfg : Config} {s : Counted} {p : State} {a : Action}
    {c : Counting} (hc : s.call = some c) (hs : (s.reading c).Explained)
    (hok : Undisturbed s (.pool a)) (hmove : Move cfg s.pool a p) :
    Explained ⟨p.lengths, c.node, c.totalTasks,
      if s.returned = none then s.moments ++ [p.lengths] else s.moments⟩ := by
  by_cases hlt : c.node < s.pool.nodes.length
  · have hopen : s.returned = none := by simp only [Counted.returned, hc, if_pos hlt]
    rw [if_pos hopen]
    rcases hmove.lengths with hsame | ⟨n, x, halters, hset⟩
    · rw [hsame]
      exact hs.change (Or.inl rfl)
    · rw [hset]
      exact hs.set x fun hle => hok n halters c hc hle
  · have hreturned : s.returned ≠ none := by simp [Counted.returned, hc, hlt]
    rw [if_neg hreturned]
    have hlen : p.lengths.length ≤ c.node := by
      rcases hmove.lengths with hsame | ⟨n, x, -, hset⟩
      · rw [hsame, length_lengths]
        omega
      · rw [hset, List.length_set, length_lengths]
        omega
    have hdone : s.pool.lengths.length ≤ c.node := by
      rw [length_lengths]
      omega
    obtain ⟨m, hm, hsum⟩ := hs.total hdone
    exact ⟨m, hm, by rw [List.drop_eq_nil_of_le hlen, List.sum_nil, add_zero]; exact hsum⟩

theorem explained_of_reachableWhen {cfg : Config} {s : Counted}
    (hr : (counted cfg).ReachableWhen Undisturbed s) :
    ∀ c ∈ s.call, (s.reading c).Explained := by
  refine hr.invariant (P := fun s => ∀ c ∈ s.call, (s.reading c).Explained)
    (fun c hc => (by cases hc)) fun s a s' hr hs hok hstep => ?_
  cases a with
  | pool a =>
      obtain ⟨p, hp, rfl⟩ := Option.map_eq_some_iff.mp hstep
      exact fun c hc => explained_of_pool hc (hs c hc) hok
        (move_of_step (pool_of_reachable hr.reachable) hp)
  | call =>
      cases hstep
      rintro c ⟨⟩
      exact explained_start s.pool.lengths
  | count =>
      simp only [counted, countedStep] at hstep
      split at hstep
      · cases hstep
      · next c hc =>
          obtain ⟨c', hc', rfl⟩ := Option.map_eq_some_iff.mp hstep
          rintro _ ⟨⟩
          unfold taskCountStep at hc'
          split at hc'
          · cases hc'
          · next nd hnd =>
              split at hc'
              · cases hc'
                refine (hs c hc).next ?_
                simp only [Counted.reading, State.lengths, List.getElem?_map, hnd]
                rfl
              · cases hc'

/-- What `TaskCount` returns is the number of queued tasks at some moment of
the call. -/
def TrueTotal (s : Counted) : Prop :=
  ∀ v ∈ s.returned, (∃ m ∈ s.moments, m.sum = v) ∧
    (v = 0 → ∃ m ∈ s.moments, ∀ l ∈ m, l = 0)

/-- In the runs in which no node's queue changes before it is counted unless
the nodes counted before it still hold what was counted on them, `TaskCount`
returns a true total. -/
theorem task_count_true {cfg : Config} {s : Counted}
    (hr : (counted cfg).ReachableWhen Undisturbed s) : TrueTotal s := by
  intro v hv
  have hsum : ∃ m ∈ s.moments, m.sum = v := by
    unfold Counted.returned at hv
    split at hv
    · cases hv
    · next c hc =>
        split at hv
        · cases hv
        · next hdone =>
            cases hv
            refine (explained_of_reachableWhen hr c hc).total ?_
            rw [Counted.reading, length_lengths]
            exact Nat.not_lt.mp hdone
  refine ⟨hsum, fun hzero => ?_⟩
  obtain ⟨m, hm, hmsum⟩ := hsum
  exact ⟨m, hm, List.sum_eq_zero_iff_forall_eq_nat.mp (hmsum.trans hzero)⟩

/-- One task is queued on node 1. `TaskCount` finds nothing on node 0, a second
task is pushed there, the first is taken from node 1, and `TaskCount` finds
nothing there either. -/
theorem total_never_held :
    ¬∀ (cfg : Config) (s : Counted), (counted cfg).Reachable s → TrueTotal s := by
  intro hall
  obtain ⟨s, hr, hreturned, hmoments⟩ := exists_of_run (counted (.ofHardware 2 2))
    ((starting ++ enqueuing 0 1 true ++ entering 1).map .pool ++ [.call, .count] ++
      (enqueuing 1 0 true ++ works 1 11).map .pool ++ [.count])
    (fun s => s.returned = some 0 ∧ ∀ m ∈ s.moments, m.sum ≠ 0) (by decide +kernel)
  obtain ⟨⟨m, hm, hsum⟩, -⟩ := hall _ s hr 0 hreturned
  exact hmoments m hm hsum

/-- A task is pushed behind the count, on node 0: the total is that of the
moment the call began. -/
theorem task_count_true_run : ∃ s : Counted, s.returned = some 1 ∧
    s.pool.lengths.sum = 2 ∧ ∃ m ∈ s.moments, m.sum = 1 := by
  obtain ⟨s, hr, hreturned, hnow⟩ := exists_of_runWhen (counted (.ofHardware 2 2))
    Undisturbed
    ((starting ++ enqueuing 0 1 true).map .pool ++ [.call, .count] ++
      (enqueuing 1 0 true).map .pool ++ [.count])
    (fun s => s.returned = some 1 ∧ s.pool.lengths.sum = 2) (by decide +kernel)
  exact ⟨s, hreturned, hnow, (task_count_true hr 1 hreturned).1⟩

end ThreadPool.Numa
