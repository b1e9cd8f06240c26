import ThreadPool.Numa.Memory

/-!
# Moving memory to a node

`MigrateMemoryToNode` rounds the size before it tests that pointer and size
are multiples of the page, and what it hands to `numa_tonode_memory` is the
rounded size. The rounding has a guard of its own, which throws on odd sizes;
no multiple of a page is odd, and a multiple is rounded to itself, the
largest one included. So what is moved is what the caller named.
-/

namespace ThreadPool

open Rounding

/-- The arguments of a call of `numa_tonode_memory`. -/
structure PageMove where
  ptr : BitVec 64
  length : BitVec 64
  node : Int
  deriving DecidableEq, Repr

/-- What came of a migration: the call made of libnuma, if one was, and
whether the function returned. -/
structure Migration where
  moved : Option PageMove
  result : Except Exn Unit
  deriving DecidableEq, Repr

/-- `numa::MigrateMemoryToNode`. -/
def migrateMemoryToNode (numaNodeCount : Nat) (os : Libnuma) (page : PageSize)
    (ptr size : BitVec 64) (node : Int) : Migration :=
  if isNumaNodeAvailable numaNodeCount os node then
    if ptr = 0#64 then ⟨none, .error (.invalidArgument "Pointer cannot be null")⟩
    else
      match roundUpToPageSize page size with
      | .error e => ⟨none, .error e⟩
      | .ok rounded =>
          if page.res ≤ 0 then
            ⟨none, .error (.runtimeError ("Failed to get page size: " ++ page.strerror))⟩
          else if ptr % BitVec.ofInt 64 page.res ≠ 0#64 then
            ⟨none, .error (.invalidArgument
              "Pointer is not page-aligned (required for migration)")⟩
          else if size % BitVec.ofInt 64 page.res ≠ 0#64 then
            ⟨none, .error (.invalidArgument
              "Size is not a multiple of page size (required for migration)")⟩
          else ⟨some ⟨ptr, rounded, node⟩, .ok ()⟩
  else ⟨none, .error (.runtimeError ("NUMA node " ++ toString node ++ " is not available"))⟩

/-- A range of whole pages, and a node to move it to. -/
def Movable (numaNodeCount : Nat) (os : Libnuma) (p : Nat) (ptr size : BitVec 64)
    (node : Int) : Prop :=
  isNumaNodeAvailable numaNodeCount os node = true ∧ ptr ≠ 0#64 ∧ p ∣ ptr.toNat ∧
    0 < size.toNat ∧ p ∣ size.toNat

section Page

variable {k : Nat} {page : PageSize}

theorem mod_pageSize_iff (hpage : page.res = 2 ^ k) (hk : k ≤ 62) {x : BitVec 64} :
    x % BitVec.ofInt 64 page.res = 0#64 ↔ 2 ^ k ∣ x.toNat := by
  rw [← BitVec.toNat_inj, BitVec.toNat_umod, toNat_pageSize hpage hk,
    Nat.dvd_iff_mod_eq_zero]
  rfl

theorem multiple_accepted (hk : 1 ≤ k) {size : BitVec 64} (hpos : 0 < size.toNat)
    (hsize : 2 ^ k ∣ size.toNat) : sizeRejected size = false := by
  have heven : 2 ∣ size.toNat := (dvd_pow_self 2 (by omega)).trans hsize
  rw [← Bool.not_eq_true, sizeRejected_iff]
  omega

theorem multiple_fits (hk : k ≤ 62) {size : BitVec 64} (hsize : 2 ^ k ∣ size.toNat) :
    size.toNat + 2 ^ k ≤ 2 ^ 64 := by
  have hpos : 0 < 2 ^ k := Nat.two_pow_pos k
  have hdvd : 2 ^ k ∣ 2 ^ 64 := Nat.pow_dvd_pow 2 (by omega)
  have hle : 2 ^ k ≤ 2 ^ 64 := Nat.le_of_dvd (Nat.two_pow_pos 64) hdvd
  refine (ceil_lt_iff hpos hdvd hle).mp ?_
  rw [ceil_of_dvd hpos hsize]
  exact size.isLt

/-- Multiples are rounded to themselves. -/
theorem roundUpToPageSize_multiple (hpage : page.res = 2 ^ k) (hk : 1 ≤ k ∧ k ≤ 62)
    {size : BitVec 64} (hpos : 0 < size.toNat) (hsize : 2 ^ k ∣ size.toNat) :
    roundUpToPageSize page size = .ok size := by
  obtain ⟨r, hr, hceil⟩ := roundUpToPageSize_fits hpage hk.2
    (multiple_accepted hk.1 hpos hsize) (multiple_fits hk.2 hsize)
  rw [ceil_of_dvd (Nat.two_pow_pos k) hsize] at hceil
  rw [hr, BitVec.eq_of_toNat_eq hceil]

theorem migrateMemoryToNode_moves (hpage : page.res = 2 ^ k) (hk : 1 ≤ k ∧ k ≤ 62)
    {numaNodeCount : Nat} {os : Libnuma} {ptr size : BitVec 64} {node : Int}
    (h : Movable numaNodeCount os (2 ^ k) ptr size node) :
    migrateMemoryToNode numaNodeCount os page ptr size node =
      ⟨some ⟨ptr, size, node⟩, .ok ()⟩ := by
  obtain ⟨havail, hptr, halign, hpos, hsize⟩ := h
  have hres : ¬page.res ≤ 0 := by
    rw [hpage]
    exact Int.not_le.mpr (Int.pow_pos (by decide))
  rw [migrateMemoryToNode, if_pos havail, if_neg hptr,
    roundUpToPageSize_multiple hpage hk hpos hsize]
  simp only [if_neg hres, (mod_pageSize_iff hpage hk.2).mpr halign,
    (mod_pageSize_iff hpage hk.2).mpr hsize, ne_eq, not_true_eq_false, if_false]

theorem migrateMemoryToNode_throws (hpage : page.res = 2 ^ k) (hk : 1 ≤ k ∧ k ≤ 62)
    {numaNodeCount : Nat} {os : Libnuma} {ptr size : BitVec 64} {node : Int}
    (h : ¬Movable numaNodeCount os (2 ^ k) ptr size node) :
    ∃ e, migrateMemoryToNode numaNodeCount os page ptr size node = ⟨none, .error e⟩ := by
  unfold migrateMemoryToNode
  split
  · next havail =>
      split
      · exact ⟨_, rfl⟩
      · next hptr =>
          split
          · exact ⟨_, rfl⟩
          · next rounded hround =>
              split
              · exact ⟨_, rfl⟩
              · split
                · exact ⟨_, rfl⟩
                · next halign =>
                    split
                    · exact ⟨_, rfl⟩
                    · next hmul =>
                        rw [ne_eq, not_not, mod_pageSize_iff hpage hk.2] at halign hmul
                        refine absurd ⟨havail, hptr, halign, ?_, hmul⟩ h
                        rw [Nat.pos_iff_ne_zero]
                        intro hzero
                        rw [roundUpToPageSize_rejected
                          (sizeRejected_iff.mpr (Or.inr hzero))] at hround
                        cases hround
  · exact ⟨_, rfl⟩

/-- The call is made exactly for a range of whole pages and a node that is
available, with the caller's own pointer, size and node; otherwise the
function throws, and nothing is moved. -/
theorem migrateMemoryToNode_exact (hpage : page.res = 2 ^ k) (hk : 1 ≤ k ∧ k ≤ 62)
    (numaNodeCount : Nat) (os : Libnuma) (ptr size : BitVec 64) (node : Int) :
    ((∃ call, (migrateMemoryToNode numaNodeCount os page ptr size node).moved = some call) ↔
      Movable numaNodeCount os (2 ^ k) ptr size node) ∧
    (∀ call, (migrateMemoryToNode numaNodeCount os page ptr size node).moved = some call →
      call = ⟨ptr, size, node⟩) ∧
    (¬Movable numaNodeCount os (2 ^ k) ptr size node →
      ∃ e, migrateMemoryToNode numaNodeCount os page ptr size node = ⟨none, .error e⟩) := by
  refine ⟨⟨?_, fun h => ?_⟩, ?_, migrateMemoryToNode_throws hpage hk⟩
  · rintro ⟨call, hcall⟩
    by_contra hnot
    obtain ⟨e, he⟩ := migrateMemoryToNode_throws hpage hk hnot
    rw [he] at hcall
    cases hcall
  · exact ⟨_, congrArg Migration.moved (migrateMemoryToNode_moves hpage hk h)⟩
  · intro call hcall
    by_cases h : Movable numaNodeCount os (2 ^ k) ptr size node
    · rw [migrateMemoryToNode_moves hpage hk h] at hcall
      exact (Option.some.inj hcall).symm
    · obtain ⟨e, he⟩ := migrateMemoryToNode_throws hpage hk h
      rw [he] at hcall
      cases hcall

/-- The largest multiple of a page of 4096 bytes, on a node that is there. -/
theorem migrateMemoryToNode_exact_last :
    ∃ call, (migrateMemoryToNode 1 {} {} 4096#64 0xFFFFFFFFFFFFF000#64 0).moved =
      some call :=
  (migrateMemoryToNode_exact (k := 12) rfl (by decide) 1 {} _ _ 0).1.mpr
    ⟨by decide, by decide, by decide, by decide, by decide⟩

end Page

end ThreadPool
