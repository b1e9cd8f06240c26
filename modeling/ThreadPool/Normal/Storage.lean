import ThreadPool.Lib.Storage
import ThreadPool.Normal.Shrinking
import ThreadPool.Normal.Slots

/-!
# The storage under the workers

`WorkerLoop` keeps `auto& worker = workers_[worker_index]` to its end, a
reference into the storage of the vector, and reads through it without
`worker_mutex_`. The constructor reserves `min_threads_` elements, which is
what `Start` pushes back. `ExpandThreads` pushes back more: the first element
past `min_threads_` moves the vector to a larger storage, while the workers go
on reading from the old one.
-/

namespace ThreadPool.Normal

open Interleave Machine

/-- A pool with the storage of `workers_`, and for every worker thread, by its
`pthread_self`, how often the vector had moved when the thread took its
reference. -/
structure Stored where
  pool : State := {}
  storage : Storage
  refs : Nat → Nat := fun _ => 0

/-- The worker thread whose registration check the step is. -/
def State.registering (s : State) : Action → Option Nat
  | .worker j _ =>
      match s.workers[j]? with
      | some w => if w.native.pc = .registration then some w.native.self else none
      | none => none
  | _ => none

namespace Stored

/-- `workers_` grows by `push_back` only, and `clear` keeps the storage. -/
def storageAfter (grow : Nat → Nat) (s : Stored) (s' : State) : Storage :=
  s.storage.pushes grow s.pool.workers.length
    (s'.workers.length - s.pool.workers.length)

/-- A worker thread that has found its slot takes a reference to it. That is
after it has left `worker_mutex_`, but until it has set `is_valid` nothing is
appended: `ExpandThreads` finds a slot that is not valid. -/
def refsAfter (s : Stored) (a : Action) (self : Nat) : Nat :=
  if s.pool.registering a = some self then s.storage.moves else s.refs self

def step (cfg : Config) (grow : Nat → Nat) (s : Stored) (a : Action) : Option Stored :=
  (Normal.step cfg s.pool a).map fun s' =>
    { pool := s', storage := s.storageAfter grow s', refs := s.refsAfter a }

end Stored

/-- The pool with its storage, as the constructor leaves it. -/
def storedPool (cfg : Config) (grow : Nat → Nat) : Machine Stored Action where
  init := { storage := { capacity := cfg.minThreads } }
  step := Stored.step cfg grow

/-! ## What the references need -/

/-- Some thread is in `WorkerLoop`, with its reference. -/
def Bound (s : State) : Prop := ∃ w ∈ s.workers, w.inside = true

instance (s : State) : Decidable (Bound s) :=
  inferInstanceAs (Decidable (∃ w ∈ s.workers, _))

/-- The step moves the elements of the vector while some `WorkerLoop` refers
to one. -/
def Relocates (s s' : Stored) : Prop :=
  s.storage.moves < s'.storage.moves ∧ Bound s.pool

instance (s s' : Stored) : Decidable (Relocates s s') :=
  inferInstanceAs (Decidable (_ ∧ _))

/-- Every thread in `WorkerLoop` refers into the storage that the vector has
now. -/
def Anchored (s : Stored) : Prop :=
  ∀ w ∈ s.pool.workers, w.inside = true → s.refs w.native.self = s.storage.moves

/-- How many elements the append loop of `ExpandThreads` pushes back: as many
as it needs, as the vector may have, and as there are threads to be had. It is
reached where every slot is valid. -/
def State.appends (cfg : Config) (s : State) : Action → Nat
  | .monitor creates _ =>
      match s.monitorThread with
      | some ⟨_, .expandLock need⟩ =>
          if ∀ w ∈ s.workers, w.flags.isValid = true then
            min (min need (cfg.maxThreads - s.workers.length)) creates.avail
          else 0
      | _ => 0
  | _ => 0

/-- While some thread is in `WorkerLoop`, `ExpandThreads` appends no more than
the storage has room for. -/
def HasRoom (cfg : Config) (s : Stored) (a : Action) : Prop :=
  Bound s.pool → s.pool.workers.length + s.pool.appends cfg a ≤ s.storage.capacity

instance (cfg : Config) (s : Stored) (a : Action) : Decidable (HasRoom cfg s a) :=
  inferInstanceAs (Decidable (_ → _))

/-! ## How the vector grows -/

/-- The step is the section of `Start`. -/
def Creating (s : State) (a : Action) : Prop :=
  ∃ creates timedOut, a = .control creates timedOut ∧ s.control = .start .create

/-- The step is the section of `ExpandThreads`. -/
def Expanding (s : State) (a : Action) : Prop :=
  ∃ creates waitFails m need, a = .monitor creates waitFails ∧ s.monitorThread = some m ∧
    m.pc = .expandLock need

theorem appends_of_not_expanding {cfg : Config} {s : State} {a : Action}
    (h : ¬Expanding s a) : s.appends cfg a = 0 := by
  unfold State.appends
  split
  · next creates waitFails =>
      split
      · next property need hm => exact absurd ⟨creates, waitFails, _, need, rfl, hm, rfl⟩ h
      · rfl
  · rfl

theorem Move.length_le {cfg : Config} {s s' : State} {a : Action} (h : Move cfg s a s') :
    s'.workers.length ≤ s.workers.length ∨ Creating s a ∨ Expanding s a := by
  cases h with
  | notifies | registers | loops | ends | spurious | joined | destroyJoined | marks
  | expandThrows =>
      exact .inl (Nat.le_of_eq List.length_set)
  | notifiesAll | shrinkNotifies => exact .inl (Nat.le_of_eq (length_notifyAll _))
  | startFails _ _ hc | startUnmonitored _ hc | starts hc =>
      exact .inr (.inl ⟨_, _, rfl, hc⟩)
  | expands n hm hpc => exact .inr (.inr ⟨_, _, _, _, rfl, hm, hpc⟩)
  | cleared => exact .inl (Nat.zero_le _)
  | _ => exact .inl (Nat.le_refl _)

theorem expandSection_length {cfg : Config} {s : State} {creates : Creates} {need : Nat}
    (hstarted : ∀ w ∈ s.workers, w.property.Started) :
    (expandSection cfg need ⟨s.workers, s.nextHandle, creates, 0, none⟩).workers.length =
      s.workers.length +
        if ∀ w ∈ s.workers, w.flags.isValid = true then
          min (min need (cfg.maxThreads - s.workers.length)) creates.avail
        else 0 := by
  rcases expandSection_outcome cfg need ⟨s.workers, s.nextHandle, creates, 0, none⟩ rfl
      hstarted with ⟨i, w, -, hw, hinvalid, hthrow⟩ | ⟨henough, happends⟩
  · have hsome : ¬∀ w ∈ s.workers, w.flags.isValid = true := fun hvalid => by
      rw [hvalid w (List.mem_of_getElem? hw)] at hinvalid
      cases hinvalid
    rw [hthrow, if_neg hsome]
    exact List.length_set
  · rw [happends]
    obtain ⟨hcreated, -⟩ := appendSlots_eq cfg need (List.range need)
      ⟨s.workers, s.nextHandle, creates, 0, none⟩ rfl
      (by rw [List.length_range]; exact Nat.le_of_eq (Nat.zero_add _))
    obtain ⟨n, hworkers, -, hn⟩ := appendSlots_appends cfg need (List.range need)
      ⟨s.workers, s.nextHandle, creates, 0, none⟩
    rw [hcreated, List.length_range] at hn
    rw [hworkers, List.length_append, freshWorkers_length, ← Nat.add_left_cancel hn]
    dsimp only
    split
    · rfl
    · next hinvalid =>
        rcases henough with hzero | hvalid
        · rw [Nat.le_zero.mp hzero, Nat.zero_min, Nat.zero_min]
        · exact absurd hvalid hinvalid

/-- While a thread is in `WorkerLoop` the vector grows by what `ExpandThreads`
appends. -/
theorem length_of_step {cfg : Config} {s s' : State} {a : Action}
    (hr : (pool cfg).Reachable s) (hstep : step cfg s a = some s') (hbound : Bound s) :
    s'.workers.length - s.workers.length = s.appends cfg a := by
  by_cases hexpanding : Expanding s a
  · obtain ⟨creates, waitFails, m, need, rfl, hm, hpc⟩ := hexpanding
    simp only [step, monitorStep, hm, hpc] at hstep
    split at hstep
    · next hfree =>
        obtain rfl := Option.some.inj hstep
        obtain ⟨property, pc⟩ := m
        obtain rfl := hpc
        simp only [State.monitorGoto, State.appends, hm,
          expandSection_length ((wired_of_reachable hr).started hfree),
          Nat.add_sub_cancel_left]
    · cases hstep
  · rw [appends_of_not_expanding hexpanding]
    rcases (move_of_step hr hstep).length_le with hle | ⟨_, _, -, hc⟩ | hexp
    · exact Nat.sub_eq_zero_of_le hle
    · obtain ⟨w, hw, -⟩ := hbound
      rw [(sized_of_reachable hr).empty hc] at hw
      cases hw
    · exact absurd hexp hexpanding

/-! ## Who holds a reference -/

theorem LoopStep.inside {sh sh' : Shared} {free throws : Bool} {self : Nat}
    {pc pc' : WorkerPc} {fl fl' : Flags}
    (h : LoopStep sh free self throws pc fl sh' pc' fl') : pc.inside = true := by
  cases h with
  | passes hpc | sleeps hpc => rcases hpc with rfl | rfl <;> rfl
  | _ => rfl

/-- The thread `self` is in `WorkerLoop`. -/
def Inside (s : State) (self : Nat) : Prop :=
  ∃ w ∈ s.workers, w.native.self = self ∧ w.inside = true

theorem Move.inside_of_mem {cfg : Config} {s s' : State} {a : Action} (h : Move cfg s a s')
    {w' : Worker} (hw' : w' ∈ s'.workers) (hin : w'.inside = true) :
    Inside s w'.native.self ∨ s.registering a = some w'.native.self := by
  have hset : ∀ {i : Nat} {w v : Worker}, s.workers[i]? = some w →
      w' ∈ s.workers.set i v → v.native.self = w.native.self →
      (v.inside = true → w.inside = true) → Inside s w'.native.self := by
    intro i w v hw hmem hself hinside
    rcases List.mem_or_eq_of_mem_set hmem with hother | rfl
    · exact ⟨w', hother, rfl, hin⟩
    · exact ⟨w, List.mem_of_getElem? hw, hself.symm, hinside hin⟩
  have hwoken : w' ∈ notifyAll s.workers → Inside s w'.native.self := by
    intro hmem
    obtain ⟨w, hw, ⟨-, rfl⟩ | ⟨hblocked, rfl⟩⟩ := mem_notifyAll hmem
    · exact ⟨w', hw, rfl, hin⟩
    · exact ⟨w, hw, rfl, by rw [Worker.inside, hblocked]; rfl⟩
  cases h with
  | registers hw hpc =>
      rcases List.mem_or_eq_of_mem_set hw' with hmem | rfl
      · exact .inl ⟨w', hmem, rfl, hin⟩
      · refine .inr ?_
        rw [State.registering, hw]
        exact if_pos hpc
  | loops hw hloop => exact .inl (hset hw hw' rfl fun _ => hloop.inside)
  | ends hw => exact .inl (hset hw hw' rfl nofun)
  | notifies _ _ hw hblocked | spurious hw hblocked =>
      refine .inl (hset hw hw' rfl fun _ => ?_)
      rw [Worker.inside, hblocked]
      rfl
  | joined _ hw | destroyJoined _ hw | marks _ _ hw | expandThrows _ _ _ hw =>
      exact .inl (hset hw hw' rfl id)
  | notifiesAll | shrinkNotifies => exact .inl (hwoken hw')
  | startFails | startUnmonitored | starts | expands =>
      rcases List.mem_append.mp hw' with hmem | hfresh
      · exact .inl ⟨w', hmem, rfl, hin⟩
      · obtain ⟨k, rfl⟩ := mem_freshWorkers hfresh
        cases hin
  | cleared => cases hw'
  | _ => exact .inl ⟨w', hw', rfl, hin⟩

/-! ## Runs -/

theorem storedPool_step {cfg : Config} {grow : Nat → Nat} {s s' : Stored} {a : Action}
    (hstep : (storedPool cfg grow).step s a = some s') :
    step cfg s.pool a = some s'.pool ∧ s'.storage = s.storageAfter grow s'.pool ∧
      s'.refs = s.refsAfter a := by
  obtain ⟨p, hp, rfl⟩ := Option.map_eq_some_iff.mp hstep
  exact ⟨hp, rfl, rfl⟩

/-- The storage changes nothing for the pool. -/
theorem reachable_pool {cfg : Config} {grow : Nat → Nat} {s : Stored}
    (hr : (storedPool cfg grow).Reachable s) : (pool cfg).Reachable s.pool :=
  Reachable.invariant (P := fun s : Stored => (pool cfg).Reachable s.pool) hr
    Relation.ReflTransGen.refl
    fun _ _ _ _ hs hstep => ReachableWhen.step hs trivial (storedPool_step hstep).1

theorem length_le_capacity {cfg : Config} {grow : Nat → Nat} (hgrow : ∀ n, n < grow n)
    {s : Stored} (hr : (storedPool cfg grow).Reachable s) :
    s.pool.workers.length ≤ s.storage.capacity := by
  refine Reachable.invariant
    (P := fun s : Stored => s.pool.workers.length ≤ s.storage.capacity) hr
    (Nat.zero_le _) fun s a s' _ hs hstep => ?_
  have hroom := Storage.le_capacity_pushes hgrow
    (k := s'.pool.workers.length - s.pool.workers.length) hs
  rw [(storedPool_step hstep).2.1, Stored.storageAfter]
  omega

/-- Where the storage grows from `min_threads_` to `max_threads_` at once, the
elements are moved at most once in the life of a pool. -/
theorem moves_le_one {cfg : Config} {grow : Nat → Nat} (hgrow : ∀ n, n < grow n)
    (hlarge : cfg.maxThreads ≤ grow cfg.minThreads) {s : Stored}
    (hr : (storedPool cfg grow).Reachable s) : s.storage.moves ≤ 1 := by
  have hstorage : s.storage = { capacity := cfg.minThreads } ∨
      s.storage.moves = 1 ∧ cfg.maxThreads ≤ s.storage.capacity := by
    refine Reachable.invariant (P := fun s : Stored =>
      s.storage = { capacity := cfg.minThreads } ∨
        s.storage.moves = 1 ∧ cfg.maxThreads ≤ s.storage.capacity) hr (.inl rfl)
      fun s a s' hr hs hstep => ?_
    have hlen := length_le_capacity hgrow hr
    have hsized := (sized_of_reachable (reachable_pool hr)).length_le
    have hsized' := (sized_of_reachable (reachable_pool (ReachableWhen.step hr trivial
      hstep))).length_le
    rw [(storedPool_step hstep).2.1, Stored.storageAfter]
    rcases hs with hreserved | ⟨hmoved, hroom⟩
    · rw [hreserved] at hlen ⊢
      rw [Storage.pushes_eq hlen (by dsimp only; omega)]
      split
      · exact .inl rfl
      · exact .inr ⟨rfl, hlarge⟩
    · rw [Storage.pushes_of_le (by omega)]
      exact .inr ⟨hmoved, hroom⟩
  rcases hstorage with hreserved | ⟨hmoved, -⟩
  · rw [hreserved]
    exact Nat.zero_le _
  · exact Nat.le_of_eq hmoved

/-- A step moves the elements under a thread in `WorkerLoop` exactly if the
storage has no room for what it appends. -/
theorem relocates_iff {cfg : Config} {grow : Nat → Nat} (hgrow : ∀ n, n < grow n)
    {s s' : Stored} {a : Action} (hr : (storedPool cfg grow).Reachable s)
    (hstep : (storedPool cfg grow).step s a = some s') :
    Relocates s s' ↔ ¬HasRoom cfg s a := by
  obtain ⟨hpool, hstorage, -⟩ := storedPool_step hstep
  unfold Relocates HasRoom
  rw [Classical.not_imp, and_comm, Nat.not_le]
  refine and_congr_right fun hbound => ?_
  rw [hstorage, Stored.storageAfter,
    Storage.moves_lt_pushes_iff hgrow (length_le_capacity hgrow hr),
    length_of_step (reachable_pool hr) hpool hbound]

theorem storageAfter_of_le {grow : Nat → Nat} {s : Stored} {s' : State}
    (h : s'.workers.length ≤ s.pool.workers.length) :
    s.storageAfter grow s' = s.storage := by
  rw [Stored.storageAfter, Nat.sub_eq_zero_of_le h]
  rfl

/-- A thread that registers finds the elements where they stay. -/
theorem storage_of_registering {cfg : Config} {grow : Nat → Nat} {s s' : Stored}
    {a : Action} {self : Nat} (hr : (storedPool cfg grow).Reachable s)
    (hstep : (storedPool cfg grow).step s a = some s')
    (hregistering : s.pool.registering a = some self) : s'.storage = s.storage := by
  obtain ⟨hpool, hstorage, -⟩ := storedPool_step hstep
  rw [hstorage]
  rcases (move_of_step (reachable_pool hr) hpool).length_le with
    hle | ⟨_, _, rfl, -⟩ | ⟨_, _, _, _, rfl, -⟩
  · exact storageAfter_of_le hle
  · cases hregistering
  · cases hregistering

/-- A step that does not move the elements under a thread in `WorkerLoop`
leaves every reference good. -/
theorem anchored_of_step {cfg : Config} {grow : Nat → Nat} {s s' : Stored} {a : Action}
    (hr : (storedPool cfg grow).Reachable s) (hs : Anchored s) (hstay : ¬Relocates s s')
    (hstep : (storedPool cfg grow).step s a = some s') : Anchored s' := by
  obtain ⟨hpool, hstorage, hrefs⟩ := storedPool_step hstep
  have hle : s.storage.moves ≤ s'.storage.moves := by
    rw [hstorage]
    exact Storage.moves_le_pushes
  intro w' hw' hin
  rw [hrefs, Stored.refsAfter]
  split
  · next hregistering => rw [storage_of_registering hr hstep hregistering]
  · next hother =>
      rcases (move_of_step (reachable_pool hr) hpool).inside_of_mem hw' hin with
        ⟨w, hw, hself, hinside⟩ | hregistering
      · rw [← hself, hs w hw hinside]
        exact Nat.le_antisymm hle
          (Nat.le_of_not_lt fun hlt => hstay ⟨hlt, w, hw, hinside⟩)
      · exact absurd hregistering hother

/-- A step that moves them leaves the reference of that thread behind. -/
theorem not_anchored_of_relocates {cfg : Config} {grow : Nat → Nat} {s s' : Stored}
    {a : Action} (hr : (storedPool cfg grow).Reachable s) (hs : Anchored s)
    (hrelocates : Relocates s s') (hstep : (storedPool cfg grow).step s a = some s') :
    ¬Anchored s' := by
  obtain ⟨hmoves, w, hw, hinside⟩ := hrelocates
  obtain ⟨hpool, hstorage, hrefs⟩ := storedPool_step hstep
  have hgrown : s.pool.workers.length < s'.pool.workers.length := by
    by_contra hle
    rw [hstorage, storageAfter_of_le (Nat.le_of_not_lt hle)] at hmoves
    exact Nat.lt_irrefl _ hmoves
  have hkept : w ∈ s'.pool.workers := by
    cases (move_of_step (reachable_pool hr) hpool).threads
        (wired_of_reachable (reachable_pool hr)) with
    | kept hlen => exact absurd hlen (Nat.ne_of_gt hgrown)
    | grown n happended =>
        rw [happended]
        exact List.mem_append_left _ hw
    | gone hgone =>
        rw [hgone] at hgrown
        cases hgrown
  have hregistering : s.pool.registering a ≠ some w.native.self := fun hregistering => by
    rw [storage_of_registering hr hstep hregistering] at hmoves
    exact Nat.lt_irrefl _ hmoves
  intro hs'
  have hgood := hs' w hkept hinside
  rw [hrefs, Stored.refsAfter, if_neg hregistering, hs w hw hinside] at hgood
  exact Nat.ne_of_lt hmoves hgood

/-- In the runs in which the storage has room for what `ExpandThreads` appends,
every reference is good. A step of any run moves the elements under a thread in
`WorkerLoop` exactly if there is no room, and where all references were good
that is what makes one bad. -/
theorem references_hold {cfg : Config} {grow : Nat → Nat} (hgrow : ∀ n, n < grow n) :
    (∀ s, (storedPool cfg grow).ReachableWhen (HasRoom cfg) s → Anchored s) ∧
      ∀ s a s', (storedPool cfg grow).Reachable s →
        (storedPool cfg grow).step s a = some s' →
          (Relocates s s' ↔ ¬HasRoom cfg s a) ∧
            (Anchored s → (Anchored s' ↔ HasRoom cfg s a)) := by
  constructor
  · intro s hr
    refine hr.invariant (fun _ hw => absurd hw List.not_mem_nil)
      fun s a s' hr hs hroom hstep => anchored_of_step hr.reachable hs ?_ hstep
    rw [relocates_iff hgrow hr.reachable hstep]
    exact not_not_intro hroom
  · intro s a s' hr hstep
    have hiff := relocates_iff hgrow hr hstep
    refine ⟨hiff, fun hs => ⟨fun hs' => ?_, fun hroom => ?_⟩⟩
    · by_contra hroom
      exact not_anchored_of_relocates hr hs (hiff.mpr hroom) hstep hs'
    · exact anchored_of_step hr hs (fun hrelocates => hiff.mp hrelocates hroom) hstep

/-- Seven tasks from call number `k` on, of which the worker takes the first. -/
def crowding (k : Nat) : List Action :=
  (List.range' k 7).flatMap (fun k => enqueuing k true) ++ works 0 11

/-- The worker is busy, six tasks wait behind it, and the monitor appends a
second worker: one element has filled the storage that was reserved. -/
theorem storage_moved_under_worker :
    ¬∀ (cfg : Config) (s s' : Stored) (a : Action),
      (storedPool cfg Storage.doubled).Reachable s →
        (storedPool cfg Storage.doubled).step s a = some s' → ¬Relocates s s' := by
  intro hall
  obtain ⟨s, hr, s', hstep, hrelocates⟩ := exists_of_run
    (storedPool (.ofHardware 1) Storage.doubled)
    (starting 2 ++ crowding 0 ++ monitors 6)
    (fun s => ∃ s' ∈ (storedPool (.ofHardware 1) Storage.doubled).step s
      (.monitor { avail := 1 } false), Relocates s s')
    (by decide +kernel)
  exact hall _ s s' _ hr hstep hrelocates

/-- The only worker is lost to a task that throws, before a pass of the monitor
appends a second one, and the pool is stopped. The storage has room for two by
now, and it keeps it when the pool is started and crowded again. -/
def regrowing : List Action :=
  starting 2 ++ crowding 0 ++ .worker 0 true :: works 0 1 ++ monitors 7 ++ works 1 9 ++
    .stop .immediate :: controls 4 ++ monitors 4 ++ controls 4 ++ works 1 9 ++ controls 11 ++
    starting 2 ++ crowding 7 ++ monitors 6

/-- The law applied there: `ExpandThreads` appends a worker while the other one
is busy, and nothing moves. -/
theorem references_hold_run : ∃ s s' : Stored,
    Bound s.pool ∧ s.pool.appends (.ofHardware 1) (.monitor { avail := 1 } false) = 1 ∧
      (s.pool.workers.length = 1 ∧ s'.pool.workers.length = 2) ∧
      Anchored s ∧ ¬Relocates s s' ∧ Anchored s' := by
  obtain ⟨s, hr, hbound, happends, hlen, hroom, s', hstep, hlen'⟩ := exists_of_runWhen
    (storedPool (.ofHardware 1) Storage.doubled) (HasRoom (.ofHardware 1)) regrowing
    (fun s => Bound s.pool ∧
      s.pool.appends (.ofHardware 1) (.monitor { avail := 1 } false) = 1 ∧
      s.pool.workers.length = 1 ∧
      HasRoom (.ofHardware 1) s (.monitor { avail := 1 } false) ∧
      ∃ s' ∈ (storedPool (.ofHardware 1) Storage.doubled).step s
        (.monitor { avail := 1 } false), s'.pool.workers.length = 2)
    (by decide +kernel)
  have hanchored := (references_hold Storage.lt_doubled).1 s hr
  obtain ⟨hrelocates, hkeeps⟩ :=
    (references_hold Storage.lt_doubled).2 s _ s' hr.reachable hstep
  exact ⟨s, s', hbound, happends, ⟨hlen, hlen'⟩, hanchored, fun h => hrelocates.mp h hroom,
    (hkeeps hanchored).mpr hroom⟩

end ThreadPool.Normal
