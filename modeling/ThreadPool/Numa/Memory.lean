import ThreadPool.Lib.Rounding
import ThreadPool.Numa.Binding

/-!
# Sizes of allocations

`RoundUpToPageSize` and the two allocators of `congzhi::numa` that call it.
A `size_t` is a word of 64 bits. What the system answers is an argument, as
in the rest of `congzhi::numa`, and the size an allocator asks of libnuma is
part of its result.

The guard of `RoundUpToPageSize` is meant to test the top bit. In C++ `!=`
binds tighter than `&`, so what it masks the size with is the truth value of
`size_t(1) << 63 != 0`, which is one: it throws on odd sizes, and lets the
sizes with the top bit through.
-/

namespace ThreadPool

open Rounding

/-- What `sysconf(_SC_PAGESIZE)` returns, and the text of `errno`. -/
structure PageSize where
  res : Int := 4096
  strerror : String := "Invalid argument"
  deriving DecidableEq, Repr

/-- The guard, as the source's precedences have it. -/
def sizeRejected (size : BitVec 64) : Bool :=
  size &&& (if (1#64 <<< (8 * 8 - 1)) ≠ 0#64 then 1#64 else 0#64) ≠ 0#64 || size = 0#64

/-- `numa::RoundUpToPageSize`. -/
def roundUpToPageSize (page : PageSize) (size : BitVec 64) : Except Exn (BitVec 64) :=
  if sizeRejected size then
    .error (.invalidArgument "Size cannot be negative or zero.")
  else if page.res ≤ 0 then
    .error (.runtimeError ("Failed to get page size: " ++ page.strerror))
  else
    let pageSize := BitVec.ofInt 64 page.res
    .ok ((size + pageSize - 1#64) &&& ~~~(pageSize - 1#64))

/-- What came of a request for memory: the bytes asked of libnuma, if it was
asked, and the pointer or the exception. -/
structure Allocation where
  asked : Option (BitVec 64)
  result : Except Exn (BitVec 64)
  deriving DecidableEq, Repr

/-- Ask libnuma, which answers with the pointer `ptr`. -/
def ask (rounded ptr : BitVec 64) (failure : String) : Allocation where
  asked := some rounded
  result := if ptr = 0#64 then .error (.runtimeError failure) else .ok ptr

/-- `numa::AllocateMemoryOnNode`; `ptr` is what `numa_alloc_onnode` returns. -/
def allocateMemoryOnNode (numaNodeCount : Nat) (os : Libnuma) (page : PageSize)
    (ptr size : BitVec 64) (node : Int) : Allocation :=
  if isNumaNodeAvailable numaNodeCount os node then
    match roundUpToPageSize page size with
    | .error e => ⟨none, .error e⟩
    | .ok rounded =>
        ask rounded ptr ("Failed to allocate memory on NUMA node " ++ toString node)
  else ⟨none, .error (.runtimeError ("NUMA node" ++ toString node ++ " is not available"))⟩

/-- `numa::AllocateMemoryInterleaved`; `ptr` is what `numa_alloc_interleaved`
returns. -/
def allocateMemoryInterleaved (page : PageSize) (ptr size : BitVec 64) : Allocation :=
  match roundUpToPageSize page size with
  | .error e => ⟨none, .error e⟩
  | .ok rounded => ask rounded ptr "Failed to allocate interleaved memory on NUMA nodes."

/-! ## What the allocators ask for -/

theorem allocateMemoryOnNode_asked {numaNodeCount : Nat} {os : Libnuma} {node : Int}
    (havail : isNumaNodeAvailable numaNodeCount os node = true) (page : PageSize)
    (ptr size : BitVec 64) :
    (allocateMemoryOnNode numaNodeCount os page ptr size node).asked =
      (roundUpToPageSize page size).toOption := by
  rw [allocateMemoryOnNode, if_pos havail]
  cases roundUpToPageSize page size <;> rfl

theorem allocateMemoryInterleaved_asked (page : PageSize) (ptr size : BitVec 64) :
    (allocateMemoryInterleaved page ptr size).asked =
      (roundUpToPageSize page size).toOption := by
  rw [allocateMemoryInterleaved]
  cases roundUpToPageSize page size <;> rfl

/-! ## The guard and the rounding -/

/-- The guard throws on the odd sizes and on zero. -/
theorem sizeRejected_iff {size : BitVec 64} :
    sizeRejected size = true ↔ size.toNat % 2 = 1 ∨ size.toNat = 0 := by
  have hmask : (1#64 <<< (8 * 8 - 1)) ≠ 0#64 := by decide
  have hodd : size &&& 1#64 ≠ 0#64 ↔ size.toNat % 2 = 1 := by
    rw [ne_eq, ← BitVec.toNat_inj, BitVec.toNat_and]
    simp [Nat.and_one_is_mod]
  have hzero : size = 0#64 ↔ size.toNat = 0 := by
    rw [← BitVec.toNat_inj]
    rfl
  rw [sizeRejected, if_pos hmask, Bool.or_eq_true, decide_eq_true_iff, decide_eq_true_iff,
    hodd, hzero]

section Page

variable {k : Nat} {page : PageSize}

theorem toNat_pageSize (hpage : page.res = 2 ^ k) (hk : k ≤ 62) :
    (BitVec.ofInt 64 page.res).toNat = 2 ^ k := by
  have hlt : 2 ^ k < 2 ^ 64 := Nat.pow_lt_pow_right Nat.one_lt_two (by omega)
  have hcast : page.res = ((2 ^ k : Nat) : Int) := by rw [hpage]; push_cast; rfl
  rw [hcast, BitVec.ofInt_natCast, BitVec.toNat_ofNat, Nat.mod_eq_of_lt hlt]

theorem roundUpToPageSize_rejected {size : BitVec 64} (h : sizeRejected size = true) :
    roundUpToPageSize page size =
      .error (.invalidArgument "Size cannot be negative or zero.") := by
  rw [roundUpToPageSize, if_pos h]

theorem roundUpToPageSize_accepted {size : BitVec 64} (hpage : page.res = 2 ^ k)
    (h : sizeRejected size = false) :
    roundUpToPageSize page size = .ok ((size + BitVec.ofInt 64 page.res - 1#64) &&&
      ~~~(BitVec.ofInt 64 page.res - 1#64)) := by
  have hpos : 0 < page.res := by
    rw [hpage]
    exact Int.pow_pos (by decide)
  rw [roundUpToPageSize, h, if_neg Bool.false_ne_true, if_neg (by omega)]

/-- What comes of an accepted size that fits: its ceiling. -/
theorem roundUpToPageSize_fits {size : BitVec 64} (hpage : page.res = 2 ^ k) (hk : k ≤ 62)
    (h : sizeRejected size = false) (hfits : size.toNat + 2 ^ k ≤ 2 ^ 64) :
    ∃ r, roundUpToPageSize page size = .ok r ∧ r.toNat = ceil (2 ^ k) size.toNat :=
  ⟨_, roundUpToPageSize_accepted hpage h,
    toNat_roundUp (toNat_pageSize hpage hk) hfits⟩

/-- What comes of an accepted size that does not fit: less than the size. -/
theorem roundUpToPageSize_wraps {size : BitVec 64} (hpage : page.res = 2 ^ k) (hk : k ≤ 62)
    (h : sizeRejected size = false) (hwraps : 2 ^ 64 < size.toNat + 2 ^ k) :
    ∃ r, roundUpToPageSize page size = .ok r ∧ r.toNat < size.toNat :=
  ⟨_, roundUpToPageSize_accepted hpage h,
    toNat_roundUp_lt (toNat_pageSize hpage hk) hwraps⟩

/-! ## On the valid range -/

/-- What came out is the least multiple of `p` that is no less than `size`. -/
def RoundsUp (p : Nat) (size : BitVec 64) (rounded : Option (BitVec 64)) : Prop :=
  ∃ r ∈ rounded, IsLeast {m : Nat | p ∣ m ∧ size.toNat ≤ m} r.toNat

theorem roundsUp_iff {size : BitVec 64} (hpage : page.res = 2 ^ k) (hk : k ≤ 62)
    (hpos : 0 < size.toNat) (hlt : size.toNat < 2 ^ 63) :
    RoundsUp (2 ^ k) size (roundUpToPageSize page size).toOption ↔
      size.toNat % 2 = 0 := by
  have hp : 2 ^ k ≤ 2 ^ 62 := Nat.pow_le_pow_right Nat.two_pos hk
  cases hrej : sizeRejected size with
  | true =>
      have hodd := sizeRejected_iff.mp hrej
      rw [roundUpToPageSize_rejected hrej]
      constructor
      · rintro ⟨r, hr, -⟩
        cases hr
      · intro heven
        omega
  | false =>
      have hnot : ¬(size.toNat % 2 = 1 ∨ size.toNat = 0) := by
        rw [← sizeRejected_iff, hrej]
        exact Bool.false_ne_true
      obtain ⟨r, hr, hceil⟩ := roundUpToPageSize_fits hpage hk hrej (by omega)
      rw [hr]
      refine ⟨fun _ => by omega, fun _ => ⟨r, rfl, ?_⟩⟩
      rw [hceil]
      exact isLeast_ceil (Nat.two_pow_pos k) size.toNat

/-- On the sizes below `2 ^ 63` rounding works, and the allocators ask for
what it gives, exactly where the size is even. -/
theorem roundUpToPageSize_works (hpage : page.res = 2 ^ k) (hk : 1 ≤ k ∧ k ≤ 62)
    {size : BitVec 64} (hpos : 0 < size.toNat) (hlt : size.toNat < 2 ^ 63) :
    (RoundsUp (2 ^ k) size (roundUpToPageSize page size).toOption ↔
      size.toNat % 2 = 0) ∧
    (∀ numaNodeCount os ptr node, isNumaNodeAvailable numaNodeCount os node = true →
      (RoundsUp (2 ^ k) size
        (allocateMemoryOnNode numaNodeCount os page ptr size node).asked ↔
          size.toNat % 2 = 0)) ∧
    ∀ ptr, RoundsUp (2 ^ k) size (allocateMemoryInterleaved page ptr size).asked ↔
      size.toNat % 2 = 0 := by
  have hiff := roundsUp_iff hpage hk.2 hpos hlt
  refine ⟨hiff, fun numaNodeCount os ptr node havail => ?_, fun ptr => ?_⟩
  · rw [allocateMemoryOnNode_asked havail]
    exact hiff
  · rw [allocateMemoryInterleaved_asked]
    exact hiff

/-- A page and a byte. -/
theorem odd_size_rejected :
    ¬∀ (k : Nat) (page : PageSize) (size : BitVec 64), 1 ≤ k ∧ k ≤ 62 →
      page.res = 2 ^ k → 0 < size.toNat → size.toNat < 2 ^ 63 →
      RoundsUp (2 ^ k) size (roundUpToPageSize page size).toOption := by
  intro hall
  obtain ⟨r, hr, -⟩ :=
    hall 12 {} 4097#64 (by decide) (by decide) (by decide) (by decide)
  cases hr

/-- A page and two bytes are two pages. -/
theorem roundUpToPageSize_works_even :
    RoundsUp 4096 4098#64 (roundUpToPageSize {} 4098#64).toOption :=
  (roundUpToPageSize_works (k := 12) rfl (by decide) (by decide) (by decide)).1.mpr
    (by decide)

/-! ## Beyond it -/

/-- A result is a multiple of `p` close above the size, and a size that no
multiple below `2 ^ 64` reaches is rejected. -/
def NeverWraps (p : Nat) (size : BitVec 64) (res : Except Exn (BitVec 64)) : Prop :=
  (∀ r, res = .ok r →
    r.toNat % p = 0 ∧ size.toNat ≤ r.toNat ∧ r.toNat < size.toNat + p) ∧
  ((∀ m < 2 ^ 64, p ∣ m → m < size.toNat) →
    ∃ what, res = .error (.invalidArgument what))

/-- The sizes whose rounding is right, or is not done. -/
def Roundable (p : Nat) (size : BitVec 64) : Prop :=
  size.toNat % 2 = 1 ∨ size.toNat + p ≤ 2 ^ 64

instance (p : Nat) (size : BitVec 64) : Decidable (Roundable p size) :=
  inferInstanceAs (Decidable (_ ∨ _))

theorem short_of_not_roundable {size : BitVec 64} (hpage : page.res = 2 ^ k) (hk : k ≤ 62)
    (h : ¬Roundable (2 ^ k) size) :
    ∃ r, roundUpToPageSize page size = .ok r ∧ r.toNat < size.toNat := by
  have hp : 2 ^ k ≤ 2 ^ 62 := Nat.pow_le_pow_right Nat.two_pos hk
  rw [Roundable, not_or, Nat.not_le] at h
  have hrej : sizeRejected size = false := by
    rw [← Bool.not_eq_true, sizeRejected_iff]
    omega
  exact roundUpToPageSize_wraps hpage hk hrej h.2

theorem neverWraps_iff {size : BitVec 64} (hpage : page.res = 2 ^ k) (hk : k ≤ 62) :
    NeverWraps (2 ^ k) size (roundUpToPageSize page size) ↔ Roundable (2 ^ k) size := by
  have hpos : 0 < 2 ^ k := Nat.two_pow_pos k
  have hdvd : 2 ^ k ∣ 2 ^ 64 := Nat.pow_dvd_pow 2 (by omega)
  constructor
  · intro h
    by_contra hnot
    obtain ⟨r, hr, hlt⟩ := short_of_not_roundable hpage hk hnot
    exact Nat.not_le_of_lt hlt (h.1 r hr).2.1
  · intro h
    cases hrej : sizeRejected size with
    | true =>
        rw [roundUpToPageSize_rejected hrej]
        exact ⟨fun r hr => (by cases hr), fun _ => ⟨_, rfl⟩⟩
    | false =>
        have hnot : ¬(size.toNat % 2 = 1 ∨ size.toNat = 0) := by
          rw [← sizeRejected_iff, hrej]
          exact Bool.false_ne_true
        have hfits : size.toNat + 2 ^ k ≤ 2 ^ 64 :=
          h.resolve_left fun hodd => hnot (Or.inl hodd)
        obtain ⟨r, hr, hceil⟩ := roundUpToPageSize_fits hpage hk hrej hfits
        have hleast := isLeast_ceil hpos size.toNat
        rw [hr]
        refine ⟨fun r' hr' => ?_, fun hnone => ?_⟩
        · cases hr'
          rw [hceil]
          exact ⟨Nat.mod_eq_zero_of_dvd hleast.1.1, hleast.1.2, ceil_lt_add hpos _⟩
        · have hlt : ceil (2 ^ k) size.toNat < 2 ^ 64 :=
            (ceil_lt_iff hpos hdvd (Nat.le_of_dvd (Nat.two_pow_pos 64) hdvd)).mpr hfits
          exact absurd (hnone _ hlt hleast.1.1) (Nat.not_lt.mpr hleast.1.2)

/-- What an allocator asks for, when it asks for what the rounding gives. -/
theorem asked_iff {size : BitVec 64} (hpage : page.res = 2 ^ k) (hk : k ≤ 62) :
    (∀ b ∈ (roundUpToPageSize page size).toOption, size.toNat ≤ b.toNat) ↔
      Roundable (2 ^ k) size := by
  constructor
  · intro h
    by_contra hnot
    obtain ⟨r, hr, hlt⟩ := short_of_not_roundable hpage hk hnot
    rw [hr] at h
    exact Nat.not_le_of_lt hlt (h r rfl)
  · intro h b hb
    have hlaw := (neverWraps_iff hpage hk).mpr h
    cases hres : roundUpToPageSize page size with
    | error e =>
        rw [hres] at hb
        cases hb
    | ok r =>
        rw [hres] at hb
        exact (hlaw.1 b (hres.trans (congrArg Except.ok (Option.some.inj hb)))).2.1

/-- Rounding is right on the sizes whose multiple fits, and no allocator asks
for less than it was asked for, exactly where the size is odd, so rejected,
or `p` below `2 ^ 64`. The guard rejects a size with the top bit set only
where it is odd. -/
theorem rounding_never_wraps (hpage : page.res = 2 ^ k) (hk : 1 ≤ k ∧ k ≤ 62)
    (size : BitVec 64) :
    (NeverWraps (2 ^ k) size (roundUpToPageSize page size) ↔ Roundable (2 ^ k) size) ∧
    (∀ numaNodeCount os ptr node, isNumaNodeAvailable numaNodeCount os node = true →
      ((∀ b ∈ (allocateMemoryOnNode numaNodeCount os page ptr size node).asked,
        size.toNat ≤ b.toNat) ↔ Roundable (2 ^ k) size)) ∧
    (∀ ptr, (∀ b ∈ (allocateMemoryInterleaved page ptr size).asked,
        size.toNat ≤ b.toNat) ↔ Roundable (2 ^ k) size) ∧
    (2 ^ 63 ≤ size.toNat →
      ((∃ what, roundUpToPageSize page size = .error (.invalidArgument what)) ↔
        size.toNat % 2 = 1)) := by
  have hasked : (∀ b ∈ (roundUpToPageSize page size).toOption, size.toNat ≤ b.toNat) ↔
      Roundable (2 ^ k) size := asked_iff hpage hk.2
  refine ⟨neverWraps_iff hpage hk.2, fun numaNodeCount os ptr node havail => ?_,
    fun ptr => ?_, fun htop => ⟨fun ⟨what, h⟩ => ?_, fun hodd => ?_⟩⟩
  · rw [allocateMemoryOnNode_asked havail]
    exact hasked
  · rw [allocateMemoryInterleaved_asked]
    exact hasked
  · have hrej : sizeRejected size = true := by
      by_contra hrej
      rw [Bool.not_eq_true] at hrej
      rw [roundUpToPageSize_accepted hpage hrej] at h
      cases h
    exact (sizeRejected_iff.mp hrej).resolve_right (by omega)
  · exact ⟨_, roundUpToPageSize_rejected (sizeRejected_iff.mpr (Or.inl hodd))⟩

/-- The largest even size is rounded up to nothing. -/
theorem size_wraps_to_zero :
    ¬∀ (k : Nat) (page : PageSize) (size : BitVec 64), 1 ≤ k ∧ k ≤ 62 →
      page.res = 2 ^ k → NeverWraps (2 ^ k) size (roundUpToPageSize page size) := by
  intro hall
  have h := hall 12 {} 0xFFFFFFFFFFFFFFFE#64 (by decide) (by decide)
  have hle := (h.1 0#64 (by decide)).2.1
  exact absurd hle (by decide)

/-- The last page but one is rounded up to the last. -/
theorem rounding_never_wraps_last :
    NeverWraps 4096 0xFFFFFFFFFFFFEFFE#64 (roundUpToPageSize {} 0xFFFFFFFFFFFFEFFE#64) :=
  (rounding_never_wraps (k := 12) rfl (by decide) _).1.mpr (by decide)

end Page

end ThreadPool
