import ThreadPool.Normal.Accounting

/-!
# When `ExpandThreads` works

`ExpandThreads` first restarts the slots that are not valid. A slot is not
valid when its thread has left `WorkerLoop`, and the `Thread` of such a slot
is still `JOINABLE`, because nobody has joined it; so `Thread::Start` throws
and the reuse loop never succeeds. What is left is the append loop. It adds
as many threads as the counter asks for and the vector has room for, which
is right if the counter is, or if it is, by an accident of the arithmetic,
wrong by just so much that the same number comes out.
-/

namespace ThreadPool.Normal

open Interleave Machine

/-! ## The size of the vector -/

/-- The vector stays within `max_threads_`, and `Start` finds it empty. -/
structure Sized (cfg : Config) (s : State) : Prop where
  length_le : s.workers.length ≤ cfg.maxThreads
  empty : s.control = .start .create → s.workers = []

theorem Sized.frame {cfg : Config} {s s' : State} (hs : Sized cfg s)
    (hlen : s'.workers.length ≤ s.workers.length)
    (hc : s'.control = .start .create → s.control = .start .create) : Sized cfg s' where
  length_le := Nat.le_trans hlen hs.length_le
  empty := fun h => by
    rw [hs.empty (hc h), List.length_nil, Nat.le_zero] at hlen
    exact List.length_eq_zero_iff.mp hlen

theorem Hop.not_create {s : State} {c c' : Control} (h : Hop s c c') :
    c' ≠ .start .create := by
  cases h <;> nofun

theorem Sized.fill {cfg : Config} {s s' : State} {n handle : Nat} (hs : Sized cfg s)
    (hc : s.control = .start .create) (hn : n ≤ cfg.minThreads)
    (hws : s'.workers = s.workers ++ freshWorkers s.workers.length handle n)
    (hc' : s'.control ≠ .start .create) : Sized cfg s' where
  length_le := by
    rw [hws, hs.empty hc, List.nil_append, freshWorkers_length]
    exact Nat.le_trans hn cfg.min_le_max
  empty := fun h => absurd h hc'

theorem Move.sized {cfg : Config} {s s' : State} {a : Action} (hwired : Wired s)
    (hs : Sized cfg s) (h : Move cfg s a s') : Sized cfg s' := by
  cases h with
  | notifies | registers | loops | ends | spurious | marks | expandThrows =>
      exact hs.frame (by simp [State.put, State.monitorGoto]) id
  | hop hhop => exact hs.frame (Nat.le_refl _) fun h => absurd h hhop.not_create
  | storeRunning hc =>
      refine ⟨hs.length_le, fun _ => hwired.resting (by rw [hc]; rfl) ?_⟩
      exact hwired.running_at hc rfl
  | startFails n e hc _ hn => exact hs.fill hc hn rfl (by simp)
  | startUnmonitored e hc => exact hs.fill hc (Nat.le_refl _) rfl (by simp)
  | starts hc => exact hs.fill hc (Nat.le_refl _) rfl (by simp)
  | notifiesAll => exact hs.frame (by simp [notifyAll]) (by simp)
  | shrinkNotifies => exact hs.frame (by simp [notifyAll, State.monitorGoto]) id
  | joined | destroyJoined => exact hs.frame (by simp) (by simp)
  | cleared => exact hs.frame (by simp) (by simp)
  | callsStart | callsStop | clearMonitoring | joinsMonitor | clearRunning | resetCount
  | clearTasks => exact hs.frame (Nat.le_refl _) (by simp [State.goto])
  | expands n hm hpc hfree hlen =>
      refine ⟨?_, fun hc => ?_⟩
      · simp only [State.monitorGoto, List.length_append, freshWorkers_length]
        exact hlen hs.length_le
      · -- `Start` creates nothing while a monitor is alive
        have hended := hwired.unmonitored (Or.inr (by
          rw [show s.control = _ from hc]; rfl)) _ hm
        rw [hpc] at hended
        cases hended
  | _ => exact hs.frame (Nat.le_refl _) id

theorem sized_of_reachable {cfg : Config} {s : State} (hr : (pool cfg).Reachable s) :
    Sized cfg s :=
  hr.invariant ⟨Nat.zero_le _, nofun⟩ fun _ _ _ hr hs hstep =>
    (move_of_step hr hstep).sized (wired_of_reachable hr) hs

/-- In a pool that is running no slot's `Thread` can be started. -/
theorem Wired.started_of_running {s : State} (hs : Wired s)
    (hrun : s.sh.running = true) : ∀ w ∈ s.workers, w.property.Started := by
  intro w hw
  rcases hs.property w hw with hstarted | ⟨hholds, -⟩
  · exact hstarted
  · have hstopped : s.control.runningIs = some false := by
      revert hholds
      cases s.control with
      | idle _ | start _ => exact fun h => by cases h
      | stop p pc => cases pc <;> intro h <;> first | rfl | cases h
    rw [hs.runFlag false hstopped] at hrun
    cases hrun

/-! ## What `ExpandThreads` promises -/

/-- Every thread is in its loop or over. -/
def Quiescent (s : State) : Prop :=
  ∀ w ∈ s.workers, w.inLoop = true ∨ w.native.pc.isEnded = true

instance (s : State) : Decidable (Quiescent s) :=
  inferInstanceAs (Decidable (∀ w ∈ s.workers, _ ∨ _))

/-- With `c` workers running, `ExpandThreads` does not throw, starts as many
threads as bring them to `min(2 * c, max_threads_)`, keeps the vector within
`max_threads_`, and appends only when every slot that was not valid has been
given a new thread. -/
structure Expands (cfg : Config) (s : State) (sp : Spawn) (c : Nat) : Prop where
  exn : sp.exn = none
  created : sp.created = min (2 * c) cfg.maxThreads - c
  length_le : sp.workers.length ≤ cfg.maxThreads
  reused : s.workers.length < sp.workers.length →
    ∀ (i : Nat) (w : Worker), s.workers[i]? = some w → w.flags.isValid = false →
      ∃ w' : Worker, sp.workers[i]? = some w' ∧ s.nextHandle ≤ w'.native.self

/-- How many threads are added, by the count. -/
theorem expandNeed_eq (cfg : Config) (n : Nat) :
    expandNeed cfg n =
      if min n (cfg.maxThreads - n) = 0 then none
      else some (min n (cfg.maxThreads - n)) := by
  have htarget : (if n * expandFactor < cfg.maxThreads then n * expandFactor
      else cfg.maxThreads) - n = min n (cfg.maxThreads - n) := by
    rw [expandFactor]
    split <;> omega
  unfold expandNeed
  by_cases hfull : cfg.maxThreads ≤ n
  · rw [if_pos hfull, if_pos (by omega)]
  · rw [if_neg hfull]
    simp only [htarget, Nat.le_zero]

/-- `ExpandThreads` is its section, also where it returns before it. -/
theorem expandThreads_eq {cfg : Config} {s : State} (creates : Creates)
    (hstarted : ∀ w ∈ s.workers, w.property.Started) :
    expandThreads cfg s creates =
      expandSection cfg
        (min s.sh.validThreadCount (cfg.maxThreads - s.sh.validThreadCount))
        ⟨s.workers, s.nextHandle, creates, 0, none⟩ := by
  rw [expandThreads, expandNeed_eq]
  split
  · next need hnone =>
      split at hnone
      · next hzero => rw [hzero, expandSection_zero cfg rfl hstarted]
      · cases hnone
  · next need hsome =>
      split at hsome
      · cases hsome
      · rw [Option.some.inj hsome]

theorem step_expandThreads {cfg : Config} {s : State} {m : Monitor} {creates : Creates}
    {waitFails : Bool} {need : Nat} (hm : s.monitorThread = some m) (hpc : m.pc = .expandLoad)
    (hfree : s.workerMutexFree = true)
    (hneed : expandNeed cfg s.sh.validThreadCount = some need) :
    ∃ s₁ s₂, (pool cfg).step s (.monitor creates waitFails) = some s₁ ∧
      (pool cfg).step s₁ (.monitor creates waitFails) = some s₂ ∧
      s₂.workers = (expandThreads cfg s creates).workers ∧
      s₂.nextHandle = (expandThreads cfg s creates).nextHandle ∧
      ∃ m', s₂.monitorThread = some m' ∧
        (m'.pc = .adjust ↔ (expandThreads cfg s creates).exn = none) := by
  have hfree' : (s.monitorGoto m (.expandLock need)).workerMutexFree = true := by
    simp only [State.workerMutexFree, State.monitorGoto, Bool.and_eq_true] at hfree ⊢
    exact ⟨hfree.1, rfl⟩
  have hcall : expandThreads cfg s creates =
      expandSection cfg need ⟨s.workers, s.nextHandle, creates, 0, none⟩ := by
    rw [expandThreads, hneed]
  rw [hcall]
  generalize hsp : expandSection cfg need ⟨s.workers, s.nextHandle, creates, 0, none⟩ = sp
  refine ⟨s.monitorGoto m (.expandLock need),
    { s with workers := sp.workers, nextHandle := sp.nextHandle }.monitorGoto m
      (if sp.exn.isNone then .adjust else .entry), ?_, ?_, rfl, rfl, _, rfl, ?_⟩
  · simp only [pool, step, monitorStep, hm, hpc, hneed]
  · rw [← hsp]
    exact if_pos hfree'
  · cases sp.exn <;> simp

theorem Worker.booked_of_inLoop {w : Worker} (h : w.inLoop = true) :
    w.booked = true := by
  unfold Worker.inLoop at h
  unfold Worker.booked WorkerPc.booked WorkerPc.counted
  cases hpc : w.native.pc <;> rw [hpc] at h <;> first | rfl | cases h

theorem booked_eq_length {s : State} (hflagged : Flagged s) (hquiet : Quiescent s)
    (hvalid : ∀ w ∈ s.workers, w.flags.isValid = true) :
    s.census Worker.booked = s.workers.length := by
  refine List.countP_eq_length.mpr fun w hw => ?_
  have hset := (hflagged w hw).1.symm.trans (hvalid w hw)
  rcases hquiet w hw with hin | hended
  · exact Worker.booked_of_inLoop hin
  · unfold Worker.booked WorkerPc.booked
    cases hpc : w.native.pc with
    | ended threw =>
        rw [hpc] at hset
        cases threw <;> first | rfl | cases hset
    | _ =>
        rw [hpc] at hended
        cases hended

/-- Where all slots are valid the append loop makes the threads that are
needed, as far as there is room. -/
theorem expandSection_valid {cfg : Config} {s : State} {creates : Creates} {need : Nat}
    (hstarted : ∀ w ∈ s.workers, w.property.Started)
    (hvalid : ∀ w ∈ s.workers, w.flags.isValid = true)
    (hlen : s.workers.length ≤ cfg.maxThreads) (havail : need ≤ creates.avail) :
    (expandSection cfg need ⟨s.workers, s.nextHandle, creates, 0, none⟩).exn = none ∧
      (expandSection cfg need ⟨s.workers, s.nextHandle, creates, 0, none⟩).created =
        min need (cfg.maxThreads - s.workers.length) ∧
      (expandSection cfg need ⟨s.workers, s.nextHandle, creates, 0, none⟩).workers.length ≤
        cfg.maxThreads := by
  rcases expandSection_outcome cfg need ⟨s.workers, s.nextHandle, creates, 0, none⟩ rfl
      hstarted with ⟨i, w, -, hw, hinvalid, -⟩ | ⟨-, happends⟩
  · rw [hvalid w (List.mem_of_getElem? hw)] at hinvalid
    cases hinvalid
  · rw [happends]
    obtain ⟨hcreated, hexn⟩ := appendSlots_eq cfg need (List.range need)
      ⟨s.workers, s.nextHandle, creates, 0, none⟩ rfl
      (by rw [List.length_range]; exact Nat.le_of_eq (Nat.zero_add _))
    rw [List.length_range] at hcreated hexn
    dsimp only at hcreated
    exact ⟨hexn havail, by omega, appendSlots_length_le cfg need _ _ hlen⟩

/-- Where some slot is not valid and a thread is needed, the section throws. -/
theorem expandSection_invalid {cfg : Config} {s : State} (creates : Creates)
    (need : Nat) (hstarted : ∀ w ∈ s.workers, w.property.Started) (hneed : 0 < need)
    (hinvalid : ¬∀ w ∈ s.workers, w.flags.isValid = true) :
    (expandSection cfg need ⟨s.workers, s.nextHandle, creates, 0, none⟩).exn ≠ none := by
  rcases expandSection_outcome cfg need ⟨s.workers, s.nextHandle, creates, 0, none⟩ rfl
      hstarted with ⟨i, w, -, -, -, hthrow⟩ | ⟨henough, -⟩
  · rw [hthrow]
    simp
  · rcases henough with hle | hall
    · exact absurd hle (by simp only; omega)
    · exact absurd hall hinvalid

/-- `ExpandThreads` keeps its promise exactly where all slots are valid and
the number of threads it comes to add, by the counter and by the room in the
vector, is the number that the workers running ask for. Where every thread is
in its loop or over, the counter is the size of the vector, and then it must
be the number of workers running or complement it to `max_threads_`. -/
theorem expandThreads_works {cfg : Config} {s : State} {creates : Creates}
    (hr : (pool cfg).Reachable s) (hrun : s.sh.running = true)
    (havail : cfg.maxThreads ≤ creates.avail) :
    (∀ c, 0 < c → c < cfg.maxThreads →
      (Expands cfg s (expandThreads cfg s creates) c ↔
        (∀ w ∈ s.workers, w.flags.isValid = true) ∧
          min (min s.sh.validThreadCount (cfg.maxThreads - s.sh.validThreadCount))
            (cfg.maxThreads - s.workers.length) = min c (cfg.maxThreads - c))) ∧
    (Quiescent s → 0 < s.census Worker.inLoop → s.census Worker.inLoop < cfg.maxThreads →
      (Expands cfg s (expandThreads cfg s creates) (s.census Worker.inLoop) ↔
        (∀ w ∈ s.workers, w.flags.isValid = true) ∧
          (s.sh.validThreadCount = s.census Worker.inLoop ∨
            s.sh.validThreadCount + s.census Worker.inLoop = cfg.maxThreads))) := by
  have hwired := wired_of_reachable hr
  have hstarted := hwired.started_of_running hrun
  have hlen := (sized_of_reachable hr).length_le
  have hexpands : ∀ c, 0 < c → c < cfg.maxThreads →
      (Expands cfg s (expandThreads cfg s creates) c ↔
        (∀ w ∈ s.workers, w.flags.isValid = true) ∧
          min (min s.sh.validThreadCount (cfg.maxThreads - s.sh.validThreadCount))
            (cfg.maxThreads - s.workers.length) = min c (cfg.maxThreads - c)) := by
    intro c hpos hlt
    rw [expandThreads_eq creates hstarted]
    by_cases hvalid : ∀ w ∈ s.workers, w.flags.isValid = true
    · obtain ⟨hexn, hcreated, hlen'⟩ :=
        @expandSection_valid cfg s creates _ hstarted hvalid hlen
          (show min s.sh.validThreadCount (cfg.maxThreads - s.sh.validThreadCount) ≤ _ by
            omega)
      constructor
      · intro h
        have hmade := h.created
        rw [hcreated] at hmade
        exact ⟨hvalid, by omega⟩
      · rintro ⟨-, heq⟩
        refine ⟨hexn, by rw [hcreated]; omega, hlen', fun _ i w hw hinvalid => ?_⟩
        rw [hvalid w (List.mem_of_getElem? hw)] at hinvalid
        cases hinvalid
    · refine ⟨fun h => ?_, fun h => absurd h.1 hvalid⟩
      rcases Nat.eq_zero_or_pos
          (min s.sh.validThreadCount (cfg.maxThreads - s.sh.validThreadCount)) with
        hzero | hneed
      · -- it returns at once, although a thread is asked for
        have hmade := h.created
        rw [hzero, expandSection_zero cfg rfl hstarted] at hmade
        simp only at hmade
        omega
      · exact absurd h.exn (expandSection_invalid creates _ hstarted hneed hvalid)
  refine ⟨hexpands, fun hquiet hpos hlt => ?_⟩
  rw [hexpands _ hpos hlt]
  refine and_congr_right fun hvalid => ?_
  have hcount : s.sh.validThreadCount = s.workers.length := by
    rw [← booked_eq_length (flagged_of_reachable hr) hquiet hvalid]
    rcases tallied_of_reachable hr with ⟨p, hc⟩ | heq
    · rw [hwired.running_at hc rfl] at hrun
      cases hrun
    · exact heq
  rw [hcount]
  omega

/-- A worker marked by `ShrinkThreads` has ended, and its slot is the first to
be restarted. -/
theorem expandThreads_throws :
    ¬∀ (cfg : Config) (s : State) (creates : Creates), (pool cfg).Reachable s →
      s.sh.running = true → Quiescent s → 0 < s.census Worker.inLoop →
      s.census Worker.inLoop < cfg.maxThreads → cfg.maxThreads ≤ creates.avail →
      Expands cfg s (expandThreads cfg s creates) (s.census Worker.inLoop) := by
  intro hall
  obtain ⟨s, hr, hrun, hquiet, hcount, hthrow⟩ := exists_of_run (pool (.ofHardware 1))
    (growing ++ shrinking ++ works 0 9)
    (fun s => s.sh.running = true ∧ Quiescent s ∧ s.census Worker.inLoop = 1 ∧
      (expandThreads (.ofHardware 1) s { avail := 2 }).exn ≠ none)
    (by decide +kernel)
  exact hthrow (hall _ s { avail := 2 } hr hrun hquiet (by omega)
    (by rw [hcount]; decide) (by decide)).exn

/-- The only worker waits, and `ExpandThreads` adds a second. -/
theorem expandThreads_works_run : ∃ s : State,
    Expands (.ofHardware 1) s (expandThreads (.ofHardware 1) s ⟨2, ""⟩) 1 := by
  obtain ⟨s, hr, hrun, hquiet, hcount, hvalid, htrue⟩ :=
    exists_of_run (pool (.ofHardware 1))
      (starting 2 ++ works 0 9)
      (fun s => s.sh.running = true ∧ Quiescent s ∧ s.census Worker.inLoop = 1 ∧
        (∀ w ∈ s.workers, w.flags.isValid = true) ∧ s.sh.validThreadCount = 1)
      (by decide +kernel)
  have havail : (Config.ofHardware 1).maxThreads ≤ (⟨2, ""⟩ : Creates).avail := by decide
  have hworks := ((expandThreads_works hr hrun havail).2 hquiet (by omega)
    (by rw [hcount]; decide)).mpr ⟨hvalid, Or.inl (by rw [htrue, hcount])⟩
  rw [hcount] at hworks
  exact ⟨s, hworks⟩

end ThreadPool.Normal
