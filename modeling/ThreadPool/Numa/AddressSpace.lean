import Mathlib.Order.Interval.Finset.Nat
import Mathlib.Order.Lattice.Nat
import ThreadPool.Lib.Ledger
import ThreadPool.Lib.Machine
import ThreadPool.Numa.Migration

/-!
# Memory that is handed out

The allocators, `FreeMemory` and `MigrateMemoryToNode` of `congzhi::numa`,
called in any order. An allocator asks libnuma for whole pages, while
`FreeMemory` passes on the size it is given. That fits: what is unmapped are
the pages that the range reaches into.

What libnuma does to the memory is a parameter (`NumaMemory`), and what its
manual says of it is a hypothesis (`NumaMemory.Documented`): an allocation
answers with a null pointer, or with pages that nobody has, and there are no
pages for a size of zero. Zero is what a size wraps to in `RoundUpToPageSize`,
so an allocator whose size wraps throws, and nobody holds a block that is
smaller than it was asked for.
-/

namespace ThreadPool

open Interleave Relation Machine Rounding Paging

/-- Where the pages of a range are to be. -/
inductive Placement where
  | onNode (node : Int)
  | interleaved
  deriving DecidableEq, Repr

/-- A block that an allocator returned: its address, the size it was asked for,
and where it was asked to be last. -/
structure Block where
  ptr : BitVec 64
  size : BitVec 64
  placement : Placement
  deriving DecidableEq, Repr

def Block.pages (p : Nat) (b : Block) : Finset Nat := touched p b.ptr.toNat b.size.toNat

/-! ## libnuma -/

/-- The memory functions of libnuma over whatever it keeps: what it has mapped,
where it was asked to put the pages, and what a call answers and leaves. -/
structure NumaMemory (μ : Type) where
  init : μ
  mapped : μ → Finset Nat
  placement : μ → Nat → Placement
  numaAllocOnnode : μ → BitVec 64 → Int → BitVec 64 × μ
  numaAllocInterleaved : μ → BitVec 64 → BitVec 64 × μ
  numaFree : μ → BitVec 64 → BitVec 64 → μ
  numaTonodeMemory : μ → BitVec 64 → BitVec 64 → Int → μ

variable {μ : Type}

/-- What the manual says of an allocation of `len` bytes that answers `r`: a null
pointer where it fails, as it does for no bytes, and else the start of pages
that were not mapped, are mapped now, and are to be where they were asked for.
What was mapped stays where it is. -/
structure NumaMemory.Allocates (numa : NumaMemory μ) (p : Nat) (m : μ) (len : BitVec 64)
    (placement : Placement) (r : BitVec 64 × μ) : Prop where
  empty : len = 0#64 → r.1 = 0#64
  fails : r.1 = 0#64 → numa.mapped r.2 = numa.mapped m
  aligned : p ∣ r.1.toNat
  fresh : r.1 ≠ 0#64 → Disjoint (touched p r.1.toNat len.toNat) (numa.mapped m)
  mapped : r.1 ≠ 0#64 → numa.mapped r.2 = numa.mapped m ∪ touched p r.1.toNat len.toNat
  placed : r.1 ≠ 0#64 → ∀ q ∈ touched p r.1.toNat len.toNat, numa.placement r.2 q = placement
  kept : ∀ q ∈ numa.mapped m, numa.placement r.2 q = numa.placement m q

/-- What the manual says of the functions: at first nothing is mapped; the
allocators; `numa_free` of a range of mapped memory, from the start of a page,
unmaps the pages the range reaches into; and `numa_tonode_memory` puts them on
a node. -/
structure NumaMemory.Documented (numa : NumaMemory μ) (p : Nat) : Prop where
  init : numa.mapped numa.init = ∅
  onnode : ∀ m len node,
    numa.Allocates p m len (.onNode node) (numa.numaAllocOnnode m len node)
  interleaved : ∀ m len, numa.Allocates p m len .interleaved (numa.numaAllocInterleaved m len)
  free : ∀ m (ptr size : BitVec 64), p ∣ ptr.toNat → size ≠ 0#64 →
    touched p ptr.toNat size.toNat ⊆ numa.mapped m →
    numa.mapped (numa.numaFree m ptr size) =
      numa.mapped m \ touched p ptr.toNat size.toNat ∧
    ∀ q ∈ numa.mapped (numa.numaFree m ptr size),
      numa.placement (numa.numaFree m ptr size) q = numa.placement m q
  tonode : ∀ m (ptr size : BitVec 64) node, p ∣ ptr.toNat →
    touched p ptr.toNat size.toNat ⊆ numa.mapped m →
    numa.mapped (numa.numaTonodeMemory m ptr size node) = numa.mapped m ∧
    ∀ q ∈ numa.mapped m, numa.placement (numa.numaTonodeMemory m ptr size node) q =
      if q ∈ touched p ptr.toNat size.toNat then .onNode node else numa.placement m q

/-! ## The process -/

/-- What libnuma keeps, and the blocks that callers hold. -/
structure AddressSpace (μ : Type) where
  mem : μ
  live : Finset Block := ∅

/-- A call of one of the functions; `ptr` is what an allocator of libnuma
answers it. -/
inductive MemoryCall where
  | allocateMemoryOnNode (os : Libnuma) (ptr size : BitVec 64) (node : Int)
  | allocateMemoryInterleaved (ptr size : BitVec 64)
  | freeMemory (ptr size : BitVec 64)
  | migrateMemoryToNode (os : Libnuma) (ptr size : BitVec 64) (node : Int)

/-- `numa::FreeMemory`: the call of `numa_free`, if it makes one. -/
def freeMemory (ptr size : BitVec 64) : Option (BitVec 64 × BitVec 64) :=
  if ptr ≠ 0#64 then some (ptr, size) else none

/-- After a request for `size` bytes, which has asked libnuma if it got so far.
Its caller holds the block it returns. -/
def AddressSpace.allocated (s : AddressSpace μ) (ptr size : BitVec 64) (placement : Placement)
    (a : Allocation) (alloc : BitVec 64 → BitVec 64 × μ) : Option (AddressSpace μ) :=
  match a.asked with
  | none => some s
  | some len =>
      if (alloc len).1 = ptr then
        some
          { mem := (alloc len).2
            live :=
              match a.result with
              | .ok r => insert ⟨r, size, placement⟩ s.live
              | .error _ => s.live }
      else none

/-- The block with another placement, if it is the one at `ptr`. -/
def Block.movedTo (ptr : BitVec 64) (node : Int) (b : Block) : Block :=
  if b.ptr = ptr then { b with placement := .onNode node } else b

def memoryStep (numa : NumaMemory μ) (numaNodeCount : Nat) (page : PageSize)
    (s : AddressSpace μ) : MemoryCall → Option (AddressSpace μ)
  | .allocateMemoryOnNode os ptr size node =>
      s.allocated ptr size (.onNode node)
        (ThreadPool.allocateMemoryOnNode numaNodeCount os page ptr size node)
        fun len => numa.numaAllocOnnode s.mem len node
  | .allocateMemoryInterleaved ptr size =>
      s.allocated ptr size .interleaved
        (ThreadPool.allocateMemoryInterleaved page ptr size)
        fun len => numa.numaAllocInterleaved s.mem len
  | .freeMemory ptr size =>
      match ThreadPool.freeMemory ptr size with
      | none => some s
      | some (ptr, size) =>
          some
            { mem := numa.numaFree s.mem ptr size
              live := s.live.filter fun b => b.ptr ≠ ptr }
  | .migrateMemoryToNode os ptr size node =>
      match (ThreadPool.migrateMemoryToNode numaNodeCount os page ptr size node).moved with
      | none => some s
      | some m =>
          some
            { mem := numa.numaTonodeMemory s.mem m.ptr m.length m.node
              live := s.live.image (Block.movedTo m.ptr m.node) }

/-- The process, as far as its memory comes from here. -/
def memory (numa : NumaMemory μ) (numaNodeCount : Nat) (page : PageSize) :
    Machine (AddressSpace μ) MemoryCall where
  init := { mem := numa.init }
  step := memoryStep numa numaNodeCount page

/-- A caller passes a null pointer, or a block that it holds with the size it
asked for; any size of as many pages does. -/
def Owns (page : PageSize) (s : AddressSpace μ) : MemoryCall → Prop
  | .freeMemory ptr size | .migrateMemoryToNode _ ptr size _ =>
      ptr = 0#64 ∨ ∃ b ∈ s.live, b.ptr = ptr ∧
        size.toNat ⌈/⌉ page.res.toNat = b.size.toNat ⌈/⌉ page.res.toNat
  | _ => True

instance (page : PageSize) (s : AddressSpace μ) (a : MemoryCall) :
    Decidable (Owns page s a) := by
  cases a <;> unfold Owns <;> infer_instance

/-! ## Requests -/

/-- An allocator that has asked returns what libnuma answered, if that is not
null, and has asked for the size rounded up. -/
structure Allocation.Answered (page : PageSize) (ptr size : BitVec 64) (a : Allocation) :
    Prop where
  granted : ∀ len r, a.asked = some len → a.result = .ok r →
    r = ptr ∧ ptr ≠ 0#64 ∧ roundUpToPageSize page size = .ok len
  refused : ∀ len e, a.asked = some len → a.result = .error e → ptr = 0#64

theorem ask_answered {page : PageSize} {ptr size rounded : BitVec 64} {failure : String}
    (h : roundUpToPageSize page size = .ok rounded) :
    (ask rounded ptr failure).Answered page ptr size := by
  constructor
  · intro len r hasked hresult
    simp only [ask, Option.some.injEq] at hasked hresult
    subst hasked
    split at hresult
    · cases hresult
    · next hptr =>
        injection hresult with hr
        exact ⟨hr.symm, hptr, h⟩
  · intro len e _ hresult
    simp only [ask] at hresult
    split at hresult
    · assumption
    · cases hresult

theorem answered_of_not_asked {page : PageSize} {ptr size : BitVec 64}
    {result : Except Exn (BitVec 64)} :
    (⟨none, result⟩ : Allocation).Answered page ptr size :=
  ⟨fun _ _ h => (by cases h), fun _ _ h => (by cases h)⟩

theorem allocateMemoryOnNode_answered {numaNodeCount : Nat} {os : Libnuma} {page : PageSize}
    {ptr size : BitVec 64} {node : Int} :
    (allocateMemoryOnNode numaNodeCount os page ptr size node).Answered page ptr size := by
  unfold allocateMemoryOnNode
  split
  · split
    · exact answered_of_not_asked
    · next h => exact ask_answered h
  · exact answered_of_not_asked

theorem allocateMemoryInterleaved_answered {page : PageSize} {ptr size : BitVec 64} :
    (allocateMemoryInterleaved page ptr size).Answered page ptr size := by
  unfold allocateMemoryInterleaved
  split
  · exact answered_of_not_asked
  · next h => exact ask_answered h

section Page

variable {k : Nat} {page : PageSize}

theorem toNat_res (hpage : page.res = 2 ^ k) : page.res.toNat = 2 ^ k := by
  rw [hpage, show (2 : Int) ^ k = ((2 ^ k : Nat) : Int) by push_cast; rfl, Int.toNat_natCast]

theorem roundUpToPageSize_ceil (hpage : page.res = 2 ^ k) (hk : k ≤ 62) {size len : BitVec 64}
    (h : roundUpToPageSize page size = .ok len) (hlen : len ≠ 0#64) :
    0 < size.toNat ∧ len.toNat = ceil (2 ^ k) size.toNat := by
  cases hrej : sizeRejected size with
  | true =>
      rw [roundUpToPageSize_rejected hrej] at h
      cases h
  | false =>
      have hpos : 0 < size.toNat := by
        by_contra hzero
        have hrej' := sizeRejected_iff.mpr (Or.inr (Nat.eq_zero_of_not_pos hzero))
        rw [hrej] at hrej'
        cases hrej'
      rw [roundUpToPageSize_accepted hpage hrej] at h
      injection h with h
      rcases Nat.lt_or_ge (2 ^ 64) (size.toNat + 2 ^ k) with hwraps | hfits
      · -- the sum wraps, so nothing is left of it
        have hzero := toNat_roundUp_wraps (toNat_pageSize hpage hk) hwraps
        rw [h] at hzero
        exact absurd (BitVec.eq_of_toNat_eq hzero) hlen
      · rw [← h]
        exact ⟨hpos, toNat_roundUp (toNat_pageSize hpage hk) hfits⟩

/-! ## What every call keeps -/

/-- A block starts at a page and is not empty. -/
structure Block.Whole (p : Nat) (b : Block) : Prop where
  ptr : b.ptr ≠ 0#64
  aligned : p ∣ b.ptr.toNat
  size : 0 < b.size.toNat

/-- What is mapped are the pages of the blocks that callers hold, each page
belongs to one of them and is to be where the block was asked to be last. -/
structure AddressSpace.Kept (numa : NumaMemory μ) (p : Nat) (s : AddressSpace μ) : Prop where
  exact : Ledger.Exact (Block.pages p) Block.placement (numa.mapped s.mem)
    (numa.placement s.mem) s.live
  whole : ∀ b ∈ s.live, b.Whole p

variable {numa : NumaMemory μ} {p : Nat} {s : AddressSpace μ}

theorem AddressSpace.Kept.eq_of_ptr (hp : 0 < p) (hs : s.Kept numa p) {b c : Block}
    (hb : b ∈ s.live) (hc : c ∈ s.live) (h : b.ptr = c.ptr) : b = c := by
  have hfirst : ∀ d ∈ s.live, d.ptr = c.ptr → (c.ptr.toNat + 0) / p ∈ d.pages p := by
    intro d hd hptr
    rw [← hptr]
    exact byte_touched hp (hs.whole d hd).size
  exact hs.exact.owner_unique hb hc (hfirst b hb h) (hfirst c hc rfl)

theorem AddressSpace.Kept.refused (hs : s.Kept numa p) {len : BitVec 64}
    {placement : Placement} {r : BitVec 64 × μ}
    (halloc : numa.Allocates p s.mem len placement r) (hnull : r.1 = 0#64) :
    ({ s with mem := r.2 } : AddressSpace μ).Kept numa p := by
  refine ⟨?_, hs.whole⟩
  rw [halloc.fails hnull]
  exact hs.exact.congr halloc.kept

/-- A request is granted pages that nobody has, and they are the pages of the
block. -/
theorem AddressSpace.Kept.granted (hpage : page.res = 2 ^ k) (hk : k ≤ 62)
    (hs : s.Kept numa (2 ^ k)) {size len : BitVec 64} {placement : Placement}
    {r : BitVec 64 × μ} (halloc : numa.Allocates (2 ^ k) s.mem len placement r)
    (hptr : r.1 ≠ 0#64) (hround : roundUpToPageSize page size = .ok len) :
    ({ mem := r.2, live := insert ⟨r.1, size, placement⟩ s.live } : AddressSpace μ).Kept
      numa (2 ^ k) := by
  have hlen : len ≠ 0#64 := fun h => hptr (halloc.empty h)
  obtain ⟨hpos, hceil⟩ := roundUpToPageSize_ceil hpage hk hround hlen
  have hpages : touched (2 ^ k) r.1.toNat len.toNat =
      Block.pages (2 ^ k) ⟨r.1, size, placement⟩ := by
    rw [hceil]
    exact touched_ceil (Nat.two_pow_pos k) halloc.aligned
  have hfresh := halloc.fresh hptr
  have hplaced := halloc.placed hptr
  rw [hpages] at hfresh hplaced
  constructor
  · rw [halloc.mapped hptr, hpages]
    refine (hs.exact.give hfresh).congr fun q hq => ?_
    by_cases hin : q ∈ Block.pages (2 ^ k) ⟨r.1, size, placement⟩
    · rw [if_pos hin]
      exact hplaced q hin
    · rw [if_neg hin]
      exact halloc.kept q ((Finset.mem_union.mp hq).resolve_right hin)
  · intro b hb
    rcases Finset.mem_insert.mp hb with rfl | hb
    · exact ⟨hptr, halloc.aligned, hpos⟩
    · exact hs.whole b hb

theorem AddressSpace.Kept.allocated (hpage : page.res = 2 ^ k) (hk : k ≤ 62)
    (hs : s.Kept numa (2 ^ k)) {a : Allocation} {ptr size : BitVec 64} {placement : Placement}
    (ha : a.Answered page ptr size) {alloc : BitVec 64 → BitVec 64 × μ}
    (halloc : ∀ len, numa.Allocates (2 ^ k) s.mem len placement (alloc len))
    {s' : AddressSpace μ} (hstep : s.allocated ptr size placement a alloc = some s') :
    s'.Kept numa (2 ^ k) := by
  unfold AddressSpace.allocated at hstep
  split at hstep
  · rw [Option.some.injEq] at hstep
    rw [← hstep]
    exact hs
  · next len hasked =>
      split at hstep
      · next hanswer =>
          rw [Option.some.injEq] at hstep
          rw [← hstep]
          cases hresult : a.result with
          | ok r =>
              obtain ⟨rfl, hptr, hround⟩ := ha.granted len r hasked hresult
              rw [← hanswer] at hptr ⊢
              exact hs.granted hpage hk (halloc len) hptr hround
          | error e =>
              exact hs.refused (halloc len) (hanswer.trans (ha.refused len e hasked hresult))
      · cases hstep

theorem Block.pages_of_count {b : Block} (hp : 0 < p) (hb : b.Whole p) {size : BitVec 64}
    (hcount : size.toNat ⌈/⌉ p = b.size.toNat ⌈/⌉ p) :
    touched p b.ptr.toNat size.toNat = b.pages p := by
  rw [Block.pages, touched_of_dvd hp hb.aligned, touched_of_dvd hp hb.aligned, hcount]

/-- A block that is freed with a size of as many pages is unmapped, and nothing
else is. -/
theorem AddressSpace.Kept.freed (hnuma : numa.Documented p) (hp : 0 < p) (hs : s.Kept numa p)
    {b : Block} (hb : b ∈ s.live) {size : BitVec 64}
    (hcount : size.toNat ⌈/⌉ p = b.size.toNat ⌈/⌉ p) :
    ({ mem := numa.numaFree s.mem b.ptr size
       live := s.live.filter fun c => c.ptr ≠ b.ptr } : AddressSpace μ).Kept numa p := by
  have hwhole := hs.whole b hb
  have hlive : (s.live.filter fun c => c.ptr ≠ b.ptr) = s.live.erase b := by
    ext c
    rw [Finset.mem_filter, Finset.mem_erase]
    constructor
    · rintro ⟨hc, hne⟩
      exact ⟨fun h => hne (congrArg Block.ptr h), hc⟩
    · rintro ⟨hne, hc⟩
      exact ⟨hc, fun h => hne (hs.eq_of_ptr hp hc hb h)⟩
  have hsize : size ≠ 0#64 := by
    rintro rfl
    have hzero : b.size.toNat ⌈/⌉ p = 0 := by
      rw [← hcount]
      exact zero_ceilDiv p
    have hle : b.size.toNat ≤ p * (b.size.toNat ⌈/⌉ p) := le_smul_ceilDiv hp
    rw [hzero, Nat.mul_zero] at hle
    exact absurd hwhole.size (Nat.not_lt.mpr hle)
  have hpages := Block.pages_of_count hp hwhole hcount
  obtain ⟨hmapped, hplaced⟩ := hnuma.free s.mem b.ptr size hwhole.aligned hsize
    (hpages ▸ hs.exact.subset hb)
  constructor
  · show Ledger.Exact _ _ (numa.mapped (numa.numaFree s.mem b.ptr size)) _ _
    rw [hmapped] at hplaced ⊢
    rw [hpages] at hplaced ⊢
    rw [hlive]
    exact (hs.exact.takeBack hb).congr hplaced
  · intro c hc
    exact hs.whole c (Finset.mem_of_mem_filter c hc)

theorem AddressSpace.Kept.moved (hnuma : numa.Documented p) (hp : 0 < p) (hs : s.Kept numa p)
    {b : Block} (hb : b ∈ s.live) {size : BitVec 64} {node : Int}
    (hcount : size.toNat ⌈/⌉ p = b.size.toNat ⌈/⌉ p) :
    ({ mem := numa.numaTonodeMemory s.mem b.ptr size node
       live := s.live.image (Block.movedTo b.ptr node) } : AddressSpace μ).Kept numa p := by
  have hwhole := hs.whole b hb
  have hsame : b.movedTo b.ptr node = { b with placement := .onNode node } := if_pos rfl
  have hothers : (s.live.erase b).image (Block.movedTo b.ptr node) = s.live.erase b := by
    refine (Finset.image_congr fun c hc => ?_).trans Finset.image_id
    obtain ⟨hne, hc⟩ := Finset.mem_erase.mp hc
    exact if_neg fun h => hne (hs.eq_of_ptr hp hc hb h)
  have hlive : s.live.image (Block.movedTo b.ptr node) =
      insert { b with placement := .onNode node } (s.live.erase b) := by
    rw [← hsame, ← hothers, ← Finset.image_insert, Finset.insert_erase hb]
  have hpages := Block.pages_of_count hp hwhole hcount
  obtain ⟨hmapped, hplaced⟩ := hnuma.tonode s.mem b.ptr size node hwhole.aligned
    (hpages ▸ hs.exact.subset hb)
  rw [hpages] at hplaced
  rw [hlive]
  constructor
  · rw [hmapped]
    exact (hs.exact.remark (c := { b with placement := .onNode node }) hb rfl).congr hplaced
  · intro c hc
    rcases Finset.mem_insert.mp hc with rfl | hc
    · exact ⟨hwhole.ptr, hwhole.aligned, hwhole.size⟩
    · exact hs.whole c (Finset.mem_of_mem_erase hc)

theorem AddressSpace.Kept.step {numaNodeCount : Nat} (hnuma : numa.Documented (2 ^ k))
    (hpage : page.res = 2 ^ k) (hk : 1 ≤ k ∧ k ≤ 62) {s s' : AddressSpace μ} {a : MemoryCall}
    (hs : s.Kept numa (2 ^ k)) (ha : Owns page s a)
    (hstep : memoryStep numa numaNodeCount page s a = some s') : s'.Kept numa (2 ^ k) := by
  have hp : 0 < 2 ^ k := Nat.two_pow_pos k
  have hres := toNat_res hpage
  cases a with
  | allocateMemoryOnNode os ptr size node =>
      exact hs.allocated hpage hk.2 allocateMemoryOnNode_answered
        (fun len => hnuma.onnode s.mem len node) hstep
  | allocateMemoryInterleaved ptr size =>
      exact hs.allocated hpage hk.2 allocateMemoryInterleaved_answered
        (fun len => hnuma.interleaved s.mem len) hstep
  | freeMemory ptr size =>
      simp only [Owns, hres] at ha
      simp only [memoryStep, ThreadPool.freeMemory] at hstep
      by_cases hptr : ptr = 0#64
      · simp only [hptr, ne_eq, not_true_eq_false, if_false, Option.some.injEq] at hstep
        rw [← hstep]
        exact hs
      · obtain ⟨b, hb, rfl, hcount⟩ := ha.resolve_left hptr
        simp only [hptr, ne_eq, not_false_eq_true, if_true, Option.some.injEq] at hstep
        rw [← hstep]
        exact hs.freed hnuma hp hb hcount
  | migrateMemoryToNode os ptr size node =>
      simp only [Owns, hres] at ha
      simp only [memoryStep] at hstep
      split at hstep
      · rw [Option.some.injEq] at hstep
        rw [← hstep]
        exact hs
      · next m hmoved =>
          have hmovable : Movable numaNodeCount os (2 ^ k) ptr size node := by
            by_contra hnot
            obtain ⟨e, he⟩ := migrateMemoryToNode_throws hpage hk hnot
            rw [he] at hmoved
            cases hmoved
          rw [migrateMemoryToNode_moves hpage hk hmovable, Option.some.injEq] at hmoved
          obtain ⟨b, hb, rfl, hcount⟩ := ha.resolve_left hmovable.2.1
          rw [Option.some.injEq, ← hmoved] at hstep
          rw [← hstep]
          exact hs.moved hnuma hp hb hcount

theorem kept_of_reachableWhen {numaNodeCount : Nat} (hnuma : numa.Documented (2 ^ k))
    (hpage : page.res = 2 ^ k) (hk : 1 ≤ k ∧ k ≤ 62) {s : AddressSpace μ}
    (hr : (memory numa numaNodeCount page).ReachableWhen (Owns page) s) :
    s.Kept numa (2 ^ k) := by
  refine hr.invariant (P := AddressSpace.Kept numa (2 ^ k)) ?_
    fun _ _ _ _ hs ha hstep => hs.step hnuma hpage hk ha hstep
  refine ⟨⟨hnuma.init, ?_, ?_⟩, ?_⟩
  · exact fun b hb => absurd hb (Finset.notMem_empty b)
  · exact fun b hb => absurd hb (Finset.notMem_empty b)
  · exact fun b hb => absurd hb (Finset.notMem_empty b)

/-- Let libnuma do what its manual says. However the functions are called, by
callers that free and move only what they hold: what is mapped are the pages of
the blocks that are held, and no page belongs to two of them. Every byte that a
block was asked for is there, and every page of it is to be where it was asked
to be last. A block can be moved, with the size it was asked for, exactly where
that is a multiple of the page and the node is available. -/
theorem memory_exact {numaNodeCount : Nat} (hnuma : numa.Documented (2 ^ k))
    (hpage : page.res = 2 ^ k) (hk : 1 ≤ k ∧ k ≤ 62) {s : AddressSpace μ}
    (hr : (memory numa numaNodeCount page).ReachableWhen (Owns page) s) :
    numa.mapped s.mem = s.live.biUnion (Block.pages (2 ^ k)) ∧
    (∀ b ∈ s.live, ∀ c ∈ s.live, b ≠ c → Disjoint (b.pages (2 ^ k)) (c.pages (2 ^ k))) ∧
    ∀ b ∈ s.live,
      (∀ i < b.size.toNat, (b.ptr.toNat + i) / 2 ^ k ∈ numa.mapped s.mem) ∧
      (∀ q ∈ b.pages (2 ^ k), numa.placement s.mem q = b.placement) ∧
      ∀ os node, ((migrateMemoryToNode numaNodeCount os page b.ptr b.size node).result =
          .ok () ↔
        isNumaNodeAvailable numaNodeCount os node = true ∧ 2 ^ k ∣ b.size.toNat) := by
  have hs := kept_of_reachableWhen hnuma hpage hk hr
  refine ⟨hs.exact.covers, fun b hb c hc hne => hs.exact.disjoint hb hc hne, fun b hb =>
    ⟨fun i hi => ?_, hs.exact.marked b hb, fun os node => ?_⟩⟩
  · exact hs.exact.subset hb (byte_touched (Nat.two_pow_pos k) hi)
  · obtain ⟨hptr, haligned, hpos⟩ := hs.whole b hb
    constructor
    · intro hok
      by_contra hnot
      have hthrows : ¬Movable numaNodeCount os (2 ^ k) b.ptr b.size node :=
        fun h => hnot ⟨h.1, h.2.2.2.2⟩
      obtain ⟨e, he⟩ := migrateMemoryToNode_throws hpage hk hthrows
      rw [he] at hok
      cases hok
    · rintro ⟨havail, hsize⟩
      rw [migrateMemoryToNode_moves hpage hk ⟨havail, hptr, haligned, hpos, hsize⟩]

end Page

/-! ## A libnuma that does what its manual says -/

/-- What is mapped, and where it is to be. -/
structure Mapping where
  mapped : Finset Nat := ∅
  placement : Nat → Placement := fun _ => .interleaved

/-- The first page behind all that is mapped. -/
def Mapping.next (m : Mapping) : Nat := max 16 (m.mapped.sup Nat.succ)

def Mapping.put (m : Mapping) (pages : Finset Nat) (placement : Placement) : Nat → Placement :=
  fun q => if q ∈ pages then placement else m.placement q

/-- Pages of 4096 bytes behind all that is mapped, while there are some. -/
def Mapping.alloc (m : Mapping) (len : BitVec 64) (placement : Placement) :
    BitVec 64 × Mapping :=
  if len ≠ 0#64 ∧ 4096 * m.next + len.toNat < 2 ^ 64 then
    let pages := touched 4096 (4096 * m.next) len.toNat
    (BitVec.ofNat 64 (4096 * m.next), ⟨m.mapped ∪ pages, m.put pages placement⟩)
  else (0#64, m)

def bumpMemory : NumaMemory Mapping where
  init := {}
  mapped := Mapping.mapped
  placement := Mapping.placement
  numaAllocOnnode := fun m len node => m.alloc len (.onNode node)
  numaAllocInterleaved := fun m len => m.alloc len .interleaved
  numaFree := fun m ptr size =>
    { m with mapped := m.mapped \ touched 4096 ptr.toNat size.toNat }
  numaTonodeMemory := fun m ptr size node =>
    { m with placement := m.put (touched 4096 ptr.toNat size.toNat) (.onNode node) }

theorem Mapping.next_fresh (m : Mapping) (len : Nat) :
    Disjoint (touched 4096 (4096 * m.next) len) m.mapped := by
  rw [Finset.disjoint_left]
  intro q hq hmapped
  have hbehind : q < m.next :=
    Nat.lt_of_lt_of_le (Finset.le_sup (f := Nat.succ) hmapped) (Nat.le_max_right 16 _)
  rw [touched, Finset.mem_Ico, Nat.mul_div_cancel_left _ (by decide)] at hq
  exact absurd hq.1 (Nat.not_le.mpr hbehind)

theorem Mapping.alloc_allocates (m : Mapping) (len : BitVec 64) (placement : Placement) :
    bumpMemory.Allocates 4096 m len placement (m.alloc len placement) := by
  unfold Mapping.alloc
  split
  · next h =>
      have hbase : (BitVec.ofNat 64 (4096 * m.next)).toNat = 4096 * m.next := by
        rw [BitVec.toNat_ofNat, Nat.mod_eq_of_lt (by omega)]
      have hfirst : 16 ≤ m.next := Nat.le_max_left 16 _
      have hptr : BitVec.ofNat 64 (4096 * m.next) ≠ 0#64 := by
        intro hzero
        rw [hzero, BitVec.toNat_zero] at hbase
        omega
      have hfresh := m.next_fresh len.toNat
      refine ⟨fun hlen => absurd hlen h.1, fun hzero => absurd hzero hptr, ?_, fun _ => ?_,
        fun _ => ?_, fun _ q hq => ?_, fun q hq => ?_⟩
      · show 4096 ∣ (BitVec.ofNat 64 (4096 * m.next)).toNat
        rw [hbase]
        exact Nat.dvd_mul_right 4096 m.next
      · show Disjoint (touched 4096 (BitVec.ofNat 64 (4096 * m.next)).toNat _) m.mapped
        rw [hbase]
        exact hfresh
      · show m.mapped ∪ _ = m.mapped ∪ touched 4096 (BitVec.ofNat 64 (4096 * m.next)).toNat _
        rw [hbase]
      · simp only [hbase] at hq
        exact if_pos hq
      · exact if_neg fun hin => Finset.disjoint_left.mp hfresh hin hq
  · exact ⟨fun _ => rfl, fun _ => rfl, Nat.dvd_zero _, fun h => absurd rfl h,
      fun h => absurd rfl h, fun h => absurd rfl h, fun _ _ => rfl⟩

theorem bumpMemory_documented : bumpMemory.Documented (2 ^ 12) where
  init := rfl
  onnode := fun m len node => m.alloc_allocates len (.onNode node)
  interleaved := fun m len => m.alloc_allocates len .interleaved
  free := fun _ _ _ _ _ _ => ⟨rfl, fun _ _ => rfl⟩
  tonode := fun _ _ _ _ _ _ => ⟨rfl, fun _ _ => rfl⟩

/-- Two blocks, the one on a node and of a page and two bytes, the other
interleaved; a third is refused, as its size wraps. The second is moved, and the
first is freed. -/
def borrowing : List MemoryCall :=
  [.allocateMemoryOnNode {} 0x10000#64 4098#64 0,
    .allocateMemoryInterleaved 0x12000#64 8192#64,
    .allocateMemoryInterleaved 0#64 0xFFFFFFFFFFFFFFFE#64,
    .migrateMemoryToNode {} 0x12000#64 8192#64 1, .freeMemory 0x10000#64 4098#64]

/-- The law applied to what these calls leave. -/
theorem memory_exact_run : ∃ s : AddressSpace Mapping,
    s.live = {⟨0x12000#64, 8192#64, .onNode 1⟩} ∧ s.mem.mapped = {18, 19} ∧
      s.mem.mapped = s.live.biUnion (Block.pages (2 ^ 12)) ∧
      (∀ b ∈ s.live, ∀ c ∈ s.live, b ≠ c →
        Disjoint (b.pages (2 ^ 12)) (c.pages (2 ^ 12))) ∧
      ∀ b ∈ s.live,
        (∀ i < b.size.toNat, (b.ptr.toNat + i) / 2 ^ 12 ∈ s.mem.mapped) ∧
        (∀ q ∈ b.pages (2 ^ 12), s.mem.placement q = b.placement) ∧
        ∀ os node, ((migrateMemoryToNode 2 os {} b.ptr b.size node).result = .ok () ↔
          isNumaNodeAvailable 2 os node = true ∧ 2 ^ 12 ∣ b.size.toNat) := by
  obtain ⟨s, hr, hlive, hmapped⟩ := exists_of_runWhen (memory bumpMemory 2 {}) (Owns {})
    borrowing (fun s => s.live = {⟨0x12000#64, 8192#64, .onNode 1⟩} ∧ s.mem.mapped = {18, 19})
    (by decide +kernel)
  exact ⟨s, hlive, hmapped,
    memory_exact (k := 12) bumpMemory_documented rfl (by decide) hr⟩

end ThreadPool
