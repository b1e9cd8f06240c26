import Mathlib.Data.Finset.Lattice.Fold
import Mathlib.Order.Lattice.Nat
import ThreadPool.Lib.Loop
import ThreadPool.Numa.Binding

/-!
# Which nodes there are

Node numbers need not be consecutive. `IsNumaNodeOnline` bounds a number by
how many nodes are configured, while `GetNumaNodeMask` runs up to the highest
number that is; a comment in `NumaNodeCount` still has the other bound. The
two agree when every node that counts is numbered below the count.
-/

namespace ThreadPool

/-- The nodes of a machine, as libnuma knows them. -/
structure Topology where
  configured : Finset Nat
  allowed : Nat → Bool
  size : Nat → Int

namespace Topology

variable (t : Topology)

def numaNumConfiguredNodes : Nat := t.configured.card

def numaMaxNode : Nat := t.configured.sup id

/-- `numa_node_size64`: a node that is not configured is an error. -/
def numaNodeSize64 (node : Nat) : Int := if node ∈ t.configured then t.size node else -1

/-- What libnuma answers about one node. -/
def answers (node : Int) : Libnuma where
  memsAllowed := t.allowed node.toNat
  nodeSize := t.numaNodeSize64 node.toNat

/-- `numa::NumaNodeCount`. -/
def numaNodeCount : Nat := t.numaNumConfiguredNodes

/-- `numa::IsNumaNodeAvailable` on this machine. -/
def isNumaNodeAvailable (node : Int) : Bool :=
  ThreadPool.isNumaNodeAvailable t.numaNodeCount (t.answers node) node

/-- `numa::GetNumaNodeMask`. -/
def getNumaNodeMask : List Bool :=
  let maxNode := t.numaMaxNode
  let mask := List.replicate (maxNode + 1) false
  Loop.fill (maxNode + 1) (fun node => t.isNumaNodeAvailable node) mask

/-! ## What they are meant to say -/

/-- Configured, allowed, and with memory. -/
def Available (node : Nat) : Prop :=
  node ∈ t.configured ∧ t.allowed node = true ∧ 0 < t.size node

instance (node : Nat) : Decidable (t.Available node) := inferInstanceAs (Decidable (_ ∧ _))

/-- The test holds of the nodes that are available, and of no other number. -/
def TestRight : Prop :=
  ∀ node : Int, t.isNumaNodeAvailable node = true ↔ ∃ n : Nat, node = n ∧ t.Available n

/-- The mask marks the nodes that are available, and no other. -/
def MaskRight : Prop :=
  ∀ n : Nat, t.getNumaNodeMask[n]? = some true ↔ t.Available n

/-- No node that is available has a number from the count up. -/
def Compact : Prop :=
  ∀ n ∈ t.configured, t.allowed n = true → 0 < t.size n → n < t.configured.card

variable {t}

/-- The test with a bound of its own: the nodes below the bound, and those
that are available. -/
theorem available_below_iff {bound : Nat} {node : Int} :
    ThreadPool.isNumaNodeAvailable bound (t.answers node) node = true ↔
      ∃ n : Nat, node = n ∧ n < bound ∧ t.Available n := by
  have hanswers : ∀ n : Nat, (t.answers n).memsAllowed = true ∧ 0 < (t.answers n).nodeSize ↔
      t.Available n := by
    intro n
    rw [answers, Int.toNat_natCast, numaNodeSize64, Available]
    by_cases hn : n ∈ t.configured
    · simp [hn]
    · simp [hn]
  rw [ThreadPool.isNumaNodeAvailable, isNumaNodeOnline]
  constructor
  · intro h
    by_cases hout : node < 0 ∨ node ≥ bound
    · rw [if_pos hout, if_neg Bool.false_ne_true] at h
      cases h
    · obtain ⟨n, rfl⟩ := Int.eq_ofNat_of_zero_le (a := node) (by omega)
      rw [if_neg hout] at h
      refine ⟨n, rfl, by omega, (hanswers n).mp ?_⟩
      simpa using h
  · rintro ⟨n, rfl, hlt, havail⟩
    obtain ⟨hmem, hsize⟩ := (hanswers n).mpr havail
    have hin : ¬((n : Int) < 0 ∨ (n : Int) ≥ bound) := by omega
    rw [if_neg hin, if_pos hmem, if_neg (Int.not_le.mpr hsize)]

theorem isNumaNodeAvailable_iff {node : Int} :
    t.isNumaNodeAvailable node = true ↔
      ∃ n : Nat, node = n ∧ n < t.configured.card ∧ t.Available n :=
  available_below_iff

theorem Available.le_numaMaxNode {n : Nat} (h : t.Available n) : n ≤ t.numaMaxNode :=
  Finset.le_sup (f := id) h.1

/-- The mask marks what the test finds. -/
theorem getNumaNodeMask_iff {n : Nat} :
    t.getNumaNodeMask[n]? = some true ↔ n < t.configured.card ∧ t.Available n := by
  have htest : t.isNumaNodeAvailable n = true ↔ n < t.configured.card ∧ t.Available n := by
    rw [isNumaNodeAvailable_iff]
    constructor
    · rintro ⟨m, hm, h⟩
      rwa [Int.ofNat_inj.mp hm]
    · exact fun h => ⟨n, rfl, h⟩
  rw [getNumaNodeMask, Loop.getElem?_fill (List.length_replicate.ge)]
  by_cases hn : n < t.numaMaxNode + 1
  · rw [if_pos hn, Option.some_inj, htest]
  · rw [if_neg hn, List.getElem?_eq_none (by rw [List.length_replicate]; omega)]
    refine ⟨fun h => (by cases h), fun h => absurd h.2.le_numaMaxNode (by omega)⟩

theorem testRight_iff : t.TestRight ↔ t.Compact := by
  constructor
  · intro h n hn hallowed hsize
    obtain ⟨m, hm, hlt, -⟩ :=
      isNumaNodeAvailable_iff.mp ((h n).mpr ⟨n, rfl, hn, hallowed, hsize⟩)
    rwa [Int.ofNat_inj.mp hm]
  · intro h node
    rw [isNumaNodeAvailable_iff]
    constructor
    · exact fun ⟨n, hn, _, havail⟩ => ⟨n, hn, havail⟩
    · exact fun ⟨n, hn, havail⟩ => ⟨n, hn, h n havail.1 havail.2.1 havail.2.2, havail⟩

theorem maskRight_iff : t.MaskRight ↔ t.Compact := by
  constructor
  · intro h n hn hallowed hsize
    exact (getNumaNodeMask_iff.mp ((h n).mpr ⟨hn, hallowed, hsize⟩)).1
  · intro h n
    rw [getNumaNodeMask_iff]
    exact ⟨And.right, fun havail => ⟨h n havail.1 havail.2.1 havail.2.2, havail⟩⟩

/-- With the bound of the comment the test would be right on every machine. -/
theorem available_below_numaMaxNode (node : Int) :
    ThreadPool.isNumaNodeAvailable (t.numaMaxNode + 1) (t.answers node) node = true ↔
      ∃ n : Nat, node = n ∧ t.Available n := by
  rw [available_below_iff]
  constructor
  · exact fun ⟨n, hn, _, havail⟩ => ⟨n, hn, havail⟩
  · exact fun ⟨n, hn, havail⟩ => ⟨n, hn, Nat.lt_succ_of_le havail.le_numaMaxNode, havail⟩

/-- Numbers without gaps are below the count. -/
theorem compact_of_dense (h : t.configured = Finset.range t.configured.card) :
    t.Compact := by
  intro n hn _ _
  rw [h] at hn
  exact Finset.mem_range.mp hn

/-- The mask and the test are right on exactly the machines where no node
that is available has a number from the count of the nodes up. -/
theorem availability_right_iff (t : Topology) :
    t.MaskRight ∧ t.TestRight ↔ t.Compact := by
  rw [maskRight_iff, testRight_iff, and_self]

/-- Nodes 0 and 2, both with memory. -/
theorem second_node_missed : ¬∀ t : Topology, t.MaskRight ∧ t.TestRight := by
  intro hall
  obtain ⟨-, htest⟩ := hall ⟨{0, 2}, fun _ => true, fun _ => 1⟩
  have htwo := (htest 2).mpr ⟨2, rfl, by decide⟩
  exact absurd htwo (by decide)

end Topology

end ThreadPool
