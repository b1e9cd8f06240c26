import Mathlib.Data.List.GetD
import ThreadPool.Lib.Loop
import ThreadPool.Numa.Binding

/-!
# The CPUs a binding names

`BindThreadToNumaNode` copies the CPU mask of a node, as wide as libnuma makes
it, into a `cpu_set_t`, which is `CPU_SETSIZE` bits wide. `CPU_SET` ignores a
CPU that the set has no bit for, and nothing else looks at the width: a CPU of
the node from `CPU_SETSIZE` up is left out of the binding, and the binding
reports success all the same.
-/

namespace ThreadPool

/-- `struct bitmask` of libnuma. -/
structure Bitmask where
  bits : List Bool
  deriving DecidableEq, Repr

def Bitmask.size (mask : Bitmask) : Nat := mask.bits.length

/-- `numa_bitmask_isbitset`: no bit is set outside the mask. -/
def numaBitmaskIsbitset (mask : Bitmask) (n : Nat) : Bool := mask.bits.getD n false

/-- `CPU_SETSIZE`. -/
abbrev cpuSetsize : Nat := 1024

/-- `cpu_set_t`. -/
abbrev CpuSet := BitVec cpuSetsize

/-- `CPU_ZERO`. -/
def cpuZero : CpuSet := BitVec.ofNat cpuSetsize 0

/-- `CPU_SET`. -/
def cpuSet (cpu : Nat) (cpuset : CpuSet) : CpuSet :=
  if cpu < cpuSetsize then cpuset ||| BitVec.twoPow cpuSetsize cpu else cpuset

/-- `CPU_ISSET`. -/
def cpuIsset (cpu : Nat) (cpuset : CpuSet) : Bool := cpuset.getLsbD cpu

/-- The set that is passed: the loop over the bits of the mask. -/
def Bitmask.toCpuSet (cpumask : Bitmask) : CpuSet :=
  Loop.count cpumask.size
    (fun i cpuset =>
      if numaBitmaskIsbitset cpumask i then cpuSet i cpuset else cpuset) cpuZero

/-- What came of a binding: the thread and the CPUs that
`pthread_setaffinity_np` was called with, if it was called, and how
`BindThreadToNumaNode` returned. -/
structure Binding where
  asked : Option (Nat × CpuSet)
  result : Except Exn Unit
  deriving DecidableEq, Repr

/-- `numa::BindThreadToNumaNode` for a given thread, where libnuma writes
`cpumask` for the node. -/
def Bitmask.bindThreadToNumaNode (cpumask : Bitmask) (numaNodeCount : Nat) (os : Libnuma)
    (thread : Nat) (node : Int) : Binding :=
  if isNumaNodeAvailable numaNodeCount os node then
    if os.nodeToCpus ≠ 0 then
      ⟨none, .error (.runtimeError ("Failed to get CPUs for NUMA node" ++ toString node))⟩
    else
      let cpuset := cpumask.toCpuSet
      if os.setAffinity ≠ 0 then
        ⟨some (thread, cpuset),
          .error (.runtimeError ("Failed to set thread affinity: " ++ os.strerror))⟩
      else ⟨some (thread, cpuset), .ok ()⟩
  else
    ⟨none, .error (.runtimeError ("NUMA node" ++ toString node ++ " is not available"))⟩

/-- The binding without its CPUs, which is all that the workers see of it. -/
theorem bindThreadToNumaNode_eq (cpumask : Bitmask) (numaNodeCount : Nat) (os : Libnuma)
    (bound : Affinities) (thread : Nat) (node : Int) :
    ThreadPool.bindThreadToNumaNode numaNodeCount os bound thread node =
      (cpumask.bindThreadToNumaNode numaNodeCount os thread node).result.map
        fun _ => bound ++ [(thread, node)] := by
  unfold ThreadPool.bindThreadToNumaNode Bitmask.bindThreadToNumaNode
  split
  · split
    · rfl
    · split <;> rfl
  · rfl

/-! ## The set -/

theorem cpuIsset_cpuZero (i : Nat) : cpuIsset i cpuZero = false := BitVec.getLsbD_zero

theorem cpuIsset_cpuSet (i cpu : Nat) (cpuset : CpuSet) :
    cpuIsset i (cpuSet cpu cpuset) =
      (cpuIsset i cpuset || decide (i = cpu ∧ cpu < cpuSetsize)) := by
  unfold cpuIsset cpuSet
  split
  · next hcpu =>
      rw [BitVec.getLsbD_or, BitVec.getLsbD_twoPow]
      simp only [hcpu, decide_true, Bool.true_and, and_true, eq_comm]
  · next hcpu => simp only [hcpu, and_false, decide_false, Bool.or_false]

theorem lt_size_of_isbitset {mask : Bitmask} {i : Nat}
    (h : numaBitmaskIsbitset mask i = true) : i < mask.size := by
  by_contra hi
  rw [numaBitmaskIsbitset, List.getD_eq_default _ _ (Nat.le_of_not_lt hi)] at h
  cases h

theorem cpuIsset_toCpuSet (cpumask : Bitmask) (i : Nat) :
    cpuIsset i cpumask.toCpuSet =
      (decide (i < cpuSetsize) && numaBitmaskIsbitset cpumask i) := by
  have hloop : ∀ i, cpuIsset i cpumask.toCpuSet = true ↔
      i < cpumask.size ∧ i < cpuSetsize ∧ numaBitmaskIsbitset cpumask i = true := by
    refine Loop.count_invariant
      (fun n (cpuset : CpuSet) => ∀ i, cpuIsset i cpuset = true ↔
        i < n ∧ i < cpuSetsize ∧ numaBitmaskIsbitset cpumask i = true) ?_ ?_
    · intro i
      simp only [cpuIsset_cpuZero, Nat.not_lt_zero, false_and, Bool.false_eq_true]
    · intro n cpuset _ hcpuset i
      split
      · next hset =>
          rw [cpuIsset_cpuSet, Bool.or_eq_true, hcpuset, decide_eq_true_iff]
          constructor
          · rintro (⟨hi, hw, hbit⟩ | ⟨rfl, hw⟩)
            · exact ⟨Nat.lt_succ_of_lt hi, hw, hbit⟩
            · exact ⟨Nat.lt_succ_self _, hw, hset⟩
          · rintro ⟨hi, hw, hbit⟩
            rcases Nat.lt_succ_iff_lt_or_eq.mp hi with hlt | rfl
            · exact .inl ⟨hlt, hw, hbit⟩
            · exact .inr ⟨rfl, hw⟩
      · next hset =>
          rw [hcpuset]
          constructor
          · rintro ⟨hi, hw, hbit⟩
            exact ⟨Nat.lt_succ_of_lt hi, hw, hbit⟩
          · rintro ⟨hi, hw, hbit⟩
            refine ⟨Nat.lt_of_le_of_ne (Nat.le_of_lt_succ hi) ?_, hw, hbit⟩
            rintro rfl
            exact hset hbit
  rw [Bool.eq_iff_iff, hloop, Bool.and_eq_true, decide_eq_true_iff]
  exact ⟨fun h => h.2, fun h => ⟨lt_size_of_isbitset h.2, h⟩⟩

/-! ## What a binding is meant to ask for -/

/-- The set has the CPUs of the mask, and no other. -/
def Bitmask.Copied (cpumask : Bitmask) (cpuset : CpuSet) : Prop :=
  ∀ i, cpuIsset i cpuset = true ↔ numaBitmaskIsbitset cpumask i = true

/-- A `cpu_set_t` has a bit for every CPU of the mask. -/
def Bitmask.Narrow (cpumask : Bitmask) : Prop :=
  ∀ i, numaBitmaskIsbitset cpumask i = true → i < cpuSetsize

theorem copied_toCpuSet_iff (cpumask : Bitmask) :
    cpumask.Copied cpumask.toCpuSet ↔ cpumask.Narrow := by
  constructor
  · intro hcopied i hbit
    have hset := (hcopied i).mpr hbit
    rw [cpuIsset_toCpuSet, Bool.and_eq_true, decide_eq_true_iff] at hset
    exact hset.1
  · intro hnarrow i
    rw [cpuIsset_toCpuSet, Bool.and_eq_true, decide_eq_true_iff]
    exact ⟨fun h => h.2, fun h => ⟨hnarrow i h, h⟩⟩

/-- `pthread_setaffinity_np` is called for an available node whose mask
libnuma has, and then with the thread and the copy of the mask. -/
theorem asked_bindThreadToNumaNode (cpumask : Bitmask) (numaNodeCount : Nat) (os : Libnuma)
    (thread : Nat) (node : Int) :
    (cpumask.bindThreadToNumaNode numaNodeCount os thread node).asked =
      if isNumaNodeAvailable numaNodeCount os node = true ∧ os.nodeToCpus = 0 then
        some (thread, cpumask.toCpuSet)
      else none := by
  unfold Bitmask.bindThreadToNumaNode
  split
  · next havailable =>
      split
      · next hcpus => rw [if_neg fun h => hcpus h.2]
      · next hcpus =>
          rw [if_pos (And.intro havailable (not_not.mp hcpus))]
          split <;> rfl
  · next havailable => rw [if_neg fun h => havailable h.1]

/-- Binding a thread to an available node whose mask libnuma has asks for the
CPUs of the node, no more and no less, exactly if none of them is numbered
`CPU_SETSIZE` or above. -/
theorem binding_exact_iff (cpumask : Bitmask) (numaNodeCount : Nat) (os : Libnuma)
    (thread : Nat) (node : Int) :
    ((cpumask.bindThreadToNumaNode numaNodeCount os thread node).asked.isSome = true ↔
        isNumaNodeAvailable numaNodeCount os node = true ∧ os.nodeToCpus = 0) ∧
      ∀ asked ∈ (cpumask.bindThreadToNumaNode numaNodeCount os thread node).asked,
        asked.1 = thread ∧ (cpumask.Copied asked.2 ↔ cpumask.Narrow) := by
  rw [asked_bindThreadToNumaNode]
  split
  · next h =>
      refine ⟨⟨fun _ => h, fun _ => rfl⟩, ?_⟩
      rintro asked hasked
      obtain rfl := Option.mem_some_iff.mp hasked
      exact ⟨rfl, copied_toCpuSet_iff cpumask⟩
  · next h =>
      refine ⟨⟨fun hsome => absurd hsome Bool.false_ne_true, fun h' => absurd h' h⟩, ?_⟩
      rintro asked hasked
      cases hasked

/-- A mask of 2048 bits with CPUs 0 and 1024: the binding succeeds, and asks
for CPU 0 alone. -/
theorem binding_drops_cpu_1024 :
    let cpumask : Bitmask :=
      ⟨true :: (List.replicate 1023 false ++ true :: List.replicate 1023 false)⟩
    let binding := cpumask.bindThreadToNumaNode 1 {} 7 0
    isNumaNodeAvailable 1 {} 0 = true ∧ binding.result = .ok () ∧
      ∃ cpuset, binding.asked = some (7, cpuset) ∧ cpuIsset 0 cpuset = true ∧
        numaBitmaskIsbitset cpumask 1024 = true ∧ cpuIsset 1024 cpuset = false ∧
        ¬ cpumask.Copied cpuset := by
  intro cpumask binding
  have hzero : numaBitmaskIsbitset cpumask 0 = true := rfl
  have hbit : numaBitmaskIsbitset cpumask 1024 = true := by
    show List.getD (true :: (List.replicate 1023 false ++ _)) (1023 + 1) false = true
    rw [List.getD_cons_succ,
      List.getD_append_right _ _ _ _ (Nat.le_of_eq List.length_replicate),
      List.length_replicate]
    rfl
  have hdropped : cpuIsset 1024 cpumask.toCpuSet = false := by
    rw [cpuIsset_toCpuSet]
    rfl
  refine ⟨by decide, rfl, cpumask.toCpuSet, rfl, ?_, hbit, hdropped, ?_⟩
  · rw [cpuIsset_toCpuSet, hzero]
    rfl
  · intro hcopied
    rw [(hcopied 1024).mpr hbit] at hdropped
    cases hdropped

end ThreadPool
