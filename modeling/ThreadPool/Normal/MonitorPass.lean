import ThreadPool.Normal.Expansion

/-!
# What a pass of the monitor makes

The monitor is woken when the queue is long for the workers there are. The
pass that follows asks more before it makes a worker: the count must be below
`max_threads_` and not zero, and `ExpandThreads` must find a slot for it. The
slot is the first one that is not valid, and its `Thread` must not count as
running; only if all are valid is there a new slot, if there is room.

The pass is the monitor's own steps with nobody in between, from any state.
-/

namespace ThreadPool.Normal

open Interleave Machine

/-! ## The creations of `ExpandThreads`, whatever the slots -/

/-- A `Thread` that `Thread::Start` does not refuse. -/
def startable (p : ThreadProperty) : Bool :=
  p.threadState = .terminated || p.threadState = .invalid

/-- Where `ExpandThreads` would put the first thread it makes, there can be
one: the first slot that is not valid can be restarted, or all are valid and
there is room. -/
def expandable (cfg : Config) (ws : List Worker) : Bool :=
  match ws.find? fun w => !w.flags.isValid with
  | some w => startable w.property
  | none => ws.length < cfg.maxThreads

theorem startThread_cases (sp : Spawn) (p : ThreadProperty) (i : Nat) :
    if startable p = true ∧ 0 < sp.creates.avail then
      ∃ p' nat, startThread sp p i = .ok (p', nat)
    else ∃ e, startThread sp p i = .error e := by
  unfold startThread ThreadProperty.start startable Creates.pthreadCreate
  cases p.threadState <;> by_cases havail : sp.creates.avail = 0 <;>
    simp [havail, Nat.pos_of_ne_zero]

/-- As many handles are given out as threads are made, and none is unmade. -/
structure Makes (sp sp' : Spawn) : Prop where
  handles : sp'.nextHandle + sp.created = sp.nextHandle + sp'.created
  created_le : sp.created ≤ sp'.created

theorem Makes.refl (sp : Spawn) : Makes sp sp := ⟨rfl, Nat.le_refl _⟩

theorem Makes.trans {sp₁ sp₂ sp₃ : Spawn} (h₁ : Makes sp₁ sp₂) (h₂ : Makes sp₂ sp₃) :
    Makes sp₁ sp₃ := by
  obtain ⟨hhandles₁, hle₁⟩ := h₁
  obtain ⟨hhandles₂, hle₂⟩ := h₂
  exact ⟨by omega, by omega⟩

theorem Appends.makes {sp sp' : Spawn} (h : Appends sp sp') : Makes sp sp' := by
  obtain ⟨m, -, hhandles, hcreated⟩ := h
  exact ⟨by omega, by omega⟩

theorem reuseSlot_makes (need : Nat) (sp : Spawn) (i : Nat) :
    Makes sp (reuseSlot need sp i) := by
  unfold reuseSlot
  split
  · split
    · dsimp only
      split
      · exact ⟨rfl, Nat.le_refl _⟩
      · exact ⟨by simp only [Spawn.advance]; omega, Nat.le_succ _⟩
    · exact Makes.refl sp
  · exact Makes.refl sp

theorem reuseSlots_makes (need : Nat) (l : List Nat) (sp : Spawn) :
    Makes sp (l.foldl (reuseSlot need) sp) := by
  induction l generalizing sp with
  | nil => exact Makes.refl sp
  | cons i l ih => exact (reuseSlot_makes need sp i).trans (ih _)

theorem expandSection_makes (cfg : Config) (need : Nat) (sp : Spawn) :
    Makes sp (expandSection cfg need sp) :=
  (reuseSlots_makes need _ sp).trans (appendSlots_appends cfg need _ _).makes

/-- A round of the reuse loop that comes to a slot that is not valid makes a
thread or ends the section. -/
theorem reuseSlot_invalid {need i : Nat} {sp : Spawn} {w : Worker} (hexn : sp.exn = none)
    (hw : sp.workers[i]? = some w) (hneed : sp.created < need)
    (hinvalid : w.flags.isValid = false) :
    if startable w.property = true ∧ 0 < sp.creates.avail then
      sp.created < (reuseSlot need sp i).created
    else (reuseSlot need sp i).created = sp.created ∧
      ∃ e, (reuseSlot need sp i).exn = some e := by
  have hstart := startThread_cases sp w.property i
  simp only [reuseSlot, hexn, hw, hneed, hinvalid, and_self, if_true]
  split at hstart
  · next hmade =>
      obtain ⟨p', nat, hok⟩ := hstart
      rw [if_pos hmade, hok]
      exact Nat.lt_succ_self _
  · next hnot =>
      obtain ⟨e, herror⟩ := hstart
      rw [if_neg hnot, herror]
      exact ⟨rfl, e, rfl⟩

/-- The reuse loop over the first `n` slots makes nothing of valid slots, and
what it makes of the first one that is not decides. -/
theorem reuseSlots_first {need : Nat} {sp : Spawn} (hneed : 0 < need)
    (hexn : sp.exn = none) (hzero : sp.created = 0) (n : Nat) (hn : n ≤ sp.workers.length) :
    match (sp.workers.take n).find? fun w => !w.flags.isValid with
    | none => (List.range n).foldl (reuseSlot need) sp = sp
    | some w =>
        if startable w.property = true ∧ 0 < sp.creates.avail then
          0 < ((List.range n).foldl (reuseSlot need) sp).created
        else ((List.range n).foldl (reuseSlot need) sp).created = 0 ∧
          ∃ e, ((List.range n).foldl (reuseSlot need) sp).exn = some e := by
  induction n with
  | zero => rfl
  | succ n ih =>
      have hget := List.getElem?_eq_getElem (Nat.lt_of_succ_le hn)
      have hprev := ih (Nat.le_of_succ_le hn)
      rw [List.range_succ, List.foldl_append, List.foldl_cons, List.foldl_nil,
        List.take_add_one, hget, Option.toList_some, List.find?_append]
      generalize (sp.workers.take n).find? (fun w => !w.flags.isValid) = first at hprev
      cases first with
      | some w =>
          rw [Option.some_or]
          dsimp only at hprev ⊢
          split at hprev
          · next hmade =>
              rw [if_pos hmade]
              exact hprev.trans_le (reuseSlot_makes need _ n).created_le
          · next hnot =>
              obtain ⟨hnone, e, hthrows⟩ := hprev
              rw [if_neg hnot, reuseSlot_stuck hthrows]
              exact ⟨hnone, e, hthrows⟩
      | none =>
          rw [Option.none_or, hprev]
          cases hvalid : sp.workers[n].flags.isValid with
          | true =>
              simp [reuseSlot, hexn, hget, hvalid]
          | false =>
              have hround := reuseSlot_invalid hexn hget (hzero ▸ hneed) hvalid
              rw [hzero] at hround
              simpa [hvalid] using hround

theorem appendSlots_created_pos (cfg : Config) {need : Nat} {sp : Spawn} (x : Nat)
    (l : List Nat) (hneed : 0 < need) (hexn : sp.exn = none) (hzero : sp.created = 0) :
    0 < ((x :: l).foldl (fun sp _ => appendSlot cfg need sp) sp).created ↔
      sp.workers.length < cfg.maxThreads ∧ 0 < sp.creates.avail := by
  by_cases hroom : sp.workers.length < cfg.maxThreads
  · have hround : appendSlot cfg need sp = appendWorker sp :=
      if_pos ⟨hzero ▸ hneed, hroom⟩
    rw [List.foldl_cons, hround, appendWorker_eq hexn]
    by_cases havail : sp.creates.avail = 0
    · rw [if_pos havail, appendSlots_stuck cfg need l rfl, havail]
      simp [hzero]
    · rw [if_neg havail]
      have hkept := (appendSlots_appends cfg need l
        (sp.advance (sp.workers ++ [freshWorker sp.workers.length sp.nextHandle]))).makes
      exact iff_of_true (Nat.lt_of_lt_of_le (Nat.succ_pos _) hkept.created_le)
        ⟨hroom, Nat.pos_of_ne_zero havail⟩
  · have hround : appendSlot cfg need sp = sp := if_neg fun h => hroom h.2
    rw [List.foldl_fixed' (fun _ => hround)]
    exact iff_of_false (by omega) fun h => hroom h.1

/-- The section of `ExpandThreads` makes a thread where there is a slot for it
and `pthread_create` succeeds. -/
theorem expandSection_created_pos (cfg : Config) {need : Nat} {sp : Spawn}
    (hneed : 0 < need) (hexn : sp.exn = none) (hzero : sp.created = 0) :
    0 < (expandSection cfg need sp).created ↔
      expandable cfg sp.workers = true ∧ 0 < sp.creates.avail := by
  have hfirst := reuseSlots_first hneed hexn hzero sp.workers.length (Nat.le_refl _)
  rw [List.take_length] at hfirst
  unfold expandSection expandable
  generalize sp.workers.find? (fun w => !w.flags.isValid) = first at hfirst
  cases first with
  | none =>
      dsimp only at hfirst ⊢
      obtain ⟨k, rfl⟩ := Nat.exists_eq_succ_of_ne_zero hneed.ne'
      rw [hfirst, List.range_succ_eq_map, decide_eq_true_iff]
      exact appendSlots_created_pos cfg 0 _ hneed hexn hzero
  | some w =>
      dsimp only at hfirst ⊢
      split at hfirst
      · next hmade =>
          have hkept := (appendSlots_appends cfg need (List.range need)
            ((List.range sp.workers.length).foldl (reuseSlot need) sp)).makes
          exact iff_of_true (hfirst.trans_le hkept.created_le) hmade
      · next hnot =>
          obtain ⟨hnone, e, hthrows⟩ := hfirst
          rw [appendSlots_stuck cfg need _ hthrows, hnone]
          exact iff_of_false (Nat.lt_irrefl 0) hnot

/-! ## The pass -/

/-- The monitor is past what a pass does to the threads. -/
def MonitorPc.passed : MonitorPc → Bool
  | .adjust | .waitFor | .entry | .ended => true
  | _ => false

def State.passed (s : State) : Bool := s.monitorThread.all fun m => m.pc.passed

/-- Whether a creation succeeds, at the step that makes it. -/
def State.creation (s : State) : Action → Option Bool
  | .monitor creates _ =>
      s.monitorThread.bind fun m =>
        match m.pc with
        | .expandLock _ => some (0 < creates.avail)
        | _ => none
  | _ => none

/-- A step of the monitor thread. -/
def Action.isMonitor : Action → Bool
  | .monitor _ _ => true
  | _ => false

/-- The monitor's steps up to the end of its pass; the first creation, if there
is one, succeeds or not as `made` says. -/
def Passing (made : Bool) (s : State) (a : Action) : Prop :=
  a.isMonitor = true ∧ s.passed = false ∧ ∀ b ∈ s.creation a, b = made

instance (made : Bool) (s : State) (a : Action) : Decidable (Passing made s a) :=
  inferInstanceAs (Decidable (_ ∧ _ ∧ _))

/-- What a pass over a pool with `taskCount` tasks and `threadCount` threads
knows at its program points. -/
def MonitorPc.found (cfg : Config) (taskCount threadCount : Nat) : MonitorPc → Prop
  | .countThreads n => n = taskCount
  | .expandLock need => expandNeed cfg threadCount = some need
  | pc => pc.passed = false

/-- The members of a slot on which a pass depends. -/
def Worker.slot (w : Worker) : Bool × ThreadProperty × Bool :=
  (w.flags.isValid, w.property, w.native.pc = .window)

theorem expandable_congr (cfg : Config) {ws ws' : List Worker}
    (h : ws'.map Worker.slot = ws.map Worker.slot) : expandable cfg ws' = expandable cfg ws := by
  have hlen : ws'.length = ws.length := by simpa using congrArg List.length h
  have hfind := congrArg (List.find? fun x : Bool × ThreadProperty × Bool => !x.1) h
  rw [List.find?_map, List.find?_map] at hfind
  have hpred : ((fun x : Bool × ThreadProperty × Bool => !x.1) ∘ Worker.slot) =
      fun w : Worker => !w.flags.isValid := rfl
  rw [hpred] at hfind
  unfold expandable
  generalize ws'.find? (fun w => !w.flags.isValid) = first' at hfind
  generalize ws.find? (fun w => !w.flags.isValid) = first at hfind
  cases first' with
  | none =>
      cases first with
      | none => rw [hlen]
      | some w => cases hfind
  | some w' =>
      cases first with
      | none => cases hfind
      | some w => exact congrArg (fun x => startable x.2.1) (Option.some.inj hfind)

theorem globalMutexFree_eq (s : State) :
    s.globalMutexFree = (s.workers.map Worker.slot).all fun x => !x.2.2 := by
  rw [State.globalMutexFree, List.all_map]
  congr 1
  funext w
  simp [Worker.slot]

/-- Up to its creations a pass leaves everything as it was that it depends on. -/
structure Searching (cfg : Config) (s₀ s : State) : Prop where
  members : s.sh = s₀.sh
  handles : s.nextHandle = s₀.nextHandle
  slots : s.workers.map Worker.slot = s₀.workers.map Worker.slot
  control : s.control = s₀.control
  found : ∃ m, s.monitorThread = some m ∧
    m.pc.found cfg s₀.sh.tasks.length s₀.sh.validThreadCount

/-- What a pass that begins in `s₀` comes to: it makes a thread where the count
is below the maximum and not zero, there is a slot, and the creation
succeeds. -/
def PassOutcome (cfg : Config) (s₀ : State) (made : Bool) (s : State) : Prop :=
  s₀.nextHandle < s.nextHandle ↔
    (0 < s₀.sh.validThreadCount ∧ s₀.sh.validThreadCount < cfg.maxThreads ∧
      expandable cfg s₀.workers = true) ∧ made = true

theorem Searching.goto {cfg : Config} {s₀ s : State} (hs : Searching cfg s₀ s) (m : Monitor)
    {pc : MonitorPc} (hfound : pc.found cfg s₀.sh.tasks.length s₀.sh.validThreadCount) :
    Searching cfg s₀ (s.monitorGoto m pc) :=
  ⟨hs.members, hs.handles, hs.slots, hs.control, _, rfl, hfound⟩

theorem slots_put {s : State} {i : Nat} {w : Worker} (hw : s.workers[i]? = some w) (b : Bool) :
    (s.put i { w with flags.shouldExit := b }).workers.map Worker.slot =
      s.workers.map Worker.slot :=
  map_set_same hw rfl

theorem slots_notifyAll (ws : List Worker) :
    (notifyAll ws).map Worker.slot = ws.map Worker.slot := by
  rw [notifyAll, List.map_map]
  refine List.map_congr_left fun w _ => ?_
  simp only [Function.comp_apply]
  split
  · next hblocked => simp [Worker.slot, hblocked]
  · rfl

/-- How many steps the pass still takes before its creations, at most. -/
def MonitorPc.rank (slots : Nat) : MonitorPc → Nat
  | .testMonitoring => slots + 12
  | .testRunning => slots + 11
  | .shrinkLoad => slots + 10
  | .shrinkNow _ => slots + 9
  | .shrinkLock _ _ => slots + 8
  | .shrinkMark _ _ _ i => slots - i + 7
  | .shrinkNotify => 6
  | .countTasks => 5
  | .countThreads _ => 4
  | .expandLoad => 3
  | .expandLock _ => 2
  | _ => 0

def State.rank (s : State) : Nat :=
  match s.monitorThread with
  | some m => m.pc.rank s.workers.length
  | none => 0

theorem rank_eq {s : State} {m : Monitor} (hm : s.monitorThread = some m) :
    s.rank = m.pc.rank s.workers.length := by rw [State.rank, hm]

theorem outcome_expands {cfg : Config} {s₀ s : State} {m : Monitor} {creates : Creates}
    {need : Nat} {pc : MonitorPc} (hs : Searching cfg s₀ s)
    (hneed : expandNeed cfg s₀.sh.validThreadCount = some need) :
    PassOutcome cfg s₀ (0 < creates.avail)
      ({ s with
        workers := (expandSection cfg need
          ⟨s.workers, s.nextHandle, creates, 0, none⟩).workers
        nextHandle := (expandSection cfg need
          ⟨s.workers, s.nextHandle, creates, 0, none⟩).nextHandle }.monitorGoto m pc) := by
  rw [expandNeed_eq] at hneed
  split at hneed
  · cases hneed
  · next hpos =>
      rw [Option.some.injEq] at hneed
      have hpositive : 0 < need := by omega
      have hcreated := @expandSection_created_pos cfg need
        ⟨s.workers, s.nextHandle, creates, 0, none⟩ hpositive rfl rfl
      have hhandles := (expandSection_makes cfg need
        ⟨s.workers, s.nextHandle, creates, 0, none⟩).handles
      dsimp only at hcreated hhandles
      have hgrown : s₀.nextHandle < (expandSection cfg need
            ⟨s.workers, s.nextHandle, creates, 0, none⟩).nextHandle ↔
          0 < (expandSection cfg need
            ⟨s.workers, s.nextHandle, creates, 0, none⟩).created := by
        rw [← hs.handles]
        omega
      rw [PassOutcome, State.monitorGoto, hgrown, hcreated, expandable_congr cfg hs.slots,
        decide_eq_true_iff]
      have hroom : 0 < s₀.sh.validThreadCount ∧ s₀.sh.validThreadCount < cfg.maxThreads := by
        omega
      rw [and_iff_right hroom.1, and_iff_right hroom.2]

theorem MonitorHop.searching {cfg : Config} {s : State} {pc pc' : MonitorPc}
    (h : MonitorHop cfg s pc pc') (hmonitoring : s.sh.monitoring = true)
    (hrunning : s.sh.running = true)
    (hload : s.sh.validThreadCount * expandThreshold < s.sh.tasks.length)
    (hfound : pc.found cfg s.sh.tasks.length s.sh.validThreadCount) :
    (pc'.found cfg s.sh.tasks.length s.sh.validThreadCount ∧
      pc'.rank s.workers.length < pc.rank s.workers.length) ∨
      (pc' = .adjust ∧ expandNeed cfg s.sh.validThreadCount = none) := by
  cases h with
  | monitoring | running | shrink | readClock | lock | countTasks =>
      exact Or.inl ⟨rfl, Nat.lt_succ_self _⟩
  | unmonitoring hmon => cases hmon.symm.trans hmonitoring
  | notRunning hrun => cases hrun.symm.trans hrunning
  | noShrink =>
      refine Or.inl ⟨rfl, ?_⟩
      simp only [MonitorPc.rank]
      omega
  | passOver hw =>
      obtain ⟨hlt, -⟩ := List.getElem?_eq_some_iff.mp hw
      refine Or.inl ⟨rfl, ?_⟩
      simp only [MonitorPc.rank]
      omega
  | marksDone =>
      refine Or.inl ⟨rfl, ?_⟩
      simp only [MonitorPc.rank]
      omega
  | mayExpand => exact Or.inl ⟨rfl, Nat.lt_succ_self _⟩
  | @mayNotExpand n hn =>
      obtain rfl : n = s.sh.tasks.length := hfound
      exact absurd hload hn.not_gt
  | noExpand hneed => exact Or.inr ⟨rfl, hneed⟩
  | expand hneed => exact Or.inl ⟨hneed, Nat.lt_succ_self _⟩
  | adjust | wake | waitThrows => cases hfound

theorem outcome_adjust {cfg : Config} {s₀ s : State} {m : Monitor} {made : Bool}
    (hs : Searching cfg s₀ s) (hneed : expandNeed cfg s₀.sh.validThreadCount = none) :
    PassOutcome cfg s₀ made (s.monitorGoto m .adjust) := by
  rw [expandNeed_eq] at hneed
  have hfull : ¬(0 < s₀.sh.validThreadCount ∧ s₀.sh.validThreadCount < cfg.maxThreads) := by
    split at hneed
    · omega
    · cases hneed
  refine iff_of_false ?_ fun h => hfull ⟨h.1.1, h.1.2.1⟩
  exact (Nat.le_of_eq hs.handles).not_gt

theorem Searching.creates {cfg : Config} {s₀ s s' : State} {creates : Creates}
    {waitFails made : Bool} {m : Monitor} {need : Nat} (hs : Searching cfg s₀ s)
    (hm : s.monitorThread = some m) (hpc : m.pc = .expandLock need)
    (hok : ∀ b ∈ s.creation (.monitor creates waitFails), b = made)
    (hstep : monitorStep cfg s creates waitFails = some s') :
    s'.passed = true ∧ PassOutcome cfg s₀ made s' := by
  obtain ⟨m', hm', hfound⟩ := hs.found
  obtain rfl := Option.some.inj (hm.symm.trans hm')
  rw [hpc] at hfound
  have hmade : decide (0 < creates.avail) = made :=
    hok _ (by simp [State.creation, hm, hpc])
  simp only [monitorStep, hm, hpc] at hstep
  split at hstep
  · rw [Option.some.injEq] at hstep
    subst hstep
    refine ⟨?_, hmade ▸ outcome_expands hs hfound⟩
    simp only [State.passed, State.monitorGoto, Option.all_some]
    split <;> rfl
  · cases hstep

/-- A step of the pass takes it further, or ends it with the outcome. -/
theorem Searching.step {cfg : Config} {s₀ s s' : State} {creates : Creates}
    {waitFails made : Bool}
    (hmonitoring : s₀.sh.monitoring = true) (hrunning : s₀.sh.running = true)
    (hload : s₀.sh.validThreadCount * expandThreshold < s₀.sh.tasks.length)
    (hs : Searching cfg s₀ s) (hok : ∀ b ∈ s.creation (.monitor creates waitFails), b = made)
    (hstep : monitorStep cfg s creates waitFails = some s') :
    (Searching cfg s₀ s' ∧ s'.rank < s.rank) ∨
      (s'.passed = true ∧ PassOutcome cfg s₀ made s') := by
  obtain ⟨m, hm, hfound⟩ := hs.found
  by_cases hlock : ∃ need, m.pc = .expandLock need
  · obtain ⟨need, hpc⟩ := hlock
    exact Or.inr (hs.creates hm hpc hok hstep)
  · rw [rank_eq hm]
    have helsewhere (m' : Monitor) (need : Nat) (hm' : s.monitorThread = some m') :
        m'.pc ≠ .expandLock need := by
      obtain rfl := Option.some.inj (hm.symm.trans hm')
      exact fun hpc => hlock ⟨need, hpc⟩
    cases monitorStep_cases (fun _ _ hm' hpc => absurd hpc (helsewhere _ _ hm')) hstep with
    | monitorHop hm' hhop =>
        obtain rfl := Option.some.inj (hm.symm.trans hm')
        have hnext := hhop.searching (by rw [hs.members]; exact hmonitoring)
          (by rw [hs.members]; exact hrunning) (by rw [hs.members]; exact hload)
          (by rw [hs.members]; exact hfound)
        rw [hs.members] at hnext
        rcases hnext with ⟨hfound', hlt⟩ | ⟨rfl, hneed⟩
        · exact Or.inl ⟨hs.goto m hfound', hlt⟩
        · exact Or.inr ⟨rfl, outcome_adjust hs hneed⟩
    | @marks _ _ m' need now removed i w hm' hpc hw =>
        obtain rfl := Option.some.inj (hm.symm.trans hm')
        obtain ⟨hlt, -⟩ := List.getElem?_eq_some_iff.mp hw
        refine Or.inl ⟨⟨hs.members, hs.handles, ?_, hs.control, _, rfl, rfl⟩, ?_⟩
        · exact (slots_put hw true).trans hs.slots
        · rw [hpc]
          simp only [State.rank, State.monitorGoto, State.put, List.length_set, MonitorPc.rank]
          omega
    | shrinkNotifies hm' hpc =>
        obtain rfl := Option.some.inj (hm.symm.trans hm')
        refine Or.inl ⟨⟨hs.members, hs.handles, ?_, hs.control, _, rfl, rfl⟩, ?_⟩
        · exact (slots_notifyAll s.workers).trans hs.slots
        · rw [hpc]
          exact Nat.lt_succ_self _
    | expandThrows hm' hpc => exact absurd hpc (helsewhere _ _ hm')
    | expands _ hm' hpc => exact absurd hpc (helsewhere _ _ hm')
    | monitorEnds hm' hpc =>
        obtain rfl := Option.some.inj (hm.symm.trans hm')
        rw [hpc] at hfound
        cases hfound

theorem Searching.enabled {cfg : Config} {s₀ s : State} (hs : Searching cfg s₀ s)
    (hglobal : s₀.globalMutexFree = true) (hworker : s₀.control.holdsWorkerMutex = false)
    (creates : Creates) (waitFails : Bool) :
    ∃ s', monitorStep cfg s creates waitFails = some s' := by
  obtain ⟨m, hm, hfound⟩ := hs.found
  have hfree : s.globalMutexFree = true := by
    rw [globalMutexFree_eq, hs.slots, ← globalMutexFree_eq]
    exact hglobal
  have hunlocked : m.pc.holdsWorkerMutex = false → s.workerMutexFree = true := by
    intro hpc
    rw [State.workerMutexFree, hs.control, hworker, hm, Option.any_some, hpc]
    rfl
  generalize hpc : m.pc = pc at hfound hunlocked
  cases pc with
  | adjust | waitFor | entry | ended => cases hfound
  | shrinkLock | expandLock =>
      simp only [monitorStep, hm, hpc, if_pos (hunlocked rfl)]
      exact ⟨_, rfl⟩
  | countTasks =>
      simp only [monitorStep, hm, hpc, if_pos hfree]
      exact ⟨_, rfl⟩
  | shrinkMark need now removed i =>
      simp only [monitorStep, hm, hpc]
      split
      · exact ⟨_, rfl⟩
      · split
        · split <;> exact ⟨_, rfl⟩
        · exact ⟨_, rfl⟩
  | _ =>
      simp only [monitorStep, hm, hpc]
      exact ⟨_, rfl⟩

theorem Searching.not_passed {cfg : Config} {s₀ s : State} (hs : Searching cfg s₀ s) :
    s.passed = false := by
  obtain ⟨m, hm, hfound⟩ := hs.found
  rw [State.passed, hm, Option.all_some]
  generalize m.pc = pc at hfound
  cases pc <;> first | rfl | cases hfound

theorem step_wakes {cfg : Config} {s t : State} {m : Monitor} {creates : Creates}
    {waitFails : Bool} (hm : s.monitorThread = some m) (hpc : m.pc = .waitFor)
    (hwakes : s.wakes = true)
    (hwake : (pool cfg).step s (.monitor creates waitFails) = some t) :
    t = s.monitorGoto m .testMonitoring := by
  simp only [pool, step, monitorStep, hm, hpc, hwakes, Bool.not_true, Bool.false_and,
    Bool.false_eq_true, if_false, Option.some.injEq] at hwake
  exact hwake.symm

/-- Where the wait's predicate holds of a pool that runs and is monitored, the
pass that follows, if nobody comes between, makes a thread exactly where the
count is below the maximum and not zero, `ExpandThreads` finds a slot for it,
and the creation succeeds; and the pass comes to its end if nobody holds the
mutexes. -/
theorem monitor_pass {cfg : Config} {s t : State} {m : Monitor} {creates : Creates}
    {waitFails : Bool} (hm : s.monitorThread = some m) (hpc : m.pc = .waitFor)
    (hrunning : s.sh.running = true) (hmonitoring : s.sh.monitoring = true)
    (hwakes : s.wakes = true)
    (hwake : (pool cfg).step s (.monitor creates waitFails) = some t)
    (made : Bool) :
    (∀ s', (pool cfg).LeadsWhen (Passing made) t s' → s'.passed = true →
      (s.nextHandle < s'.nextHandle ↔
        (0 < s.sh.validThreadCount ∧ s.sh.validThreadCount < cfg.maxThreads ∧
          expandable cfg s.workers = true) ∧ made = true)) ∧
    (s.globalMutexFree = true → s.control.holdsWorkerMutex = false →
      ∃ s', (pool cfg).LeadsWhen (Passing made) t s' ∧ s'.passed = true) := by
  have hload : s.sh.validThreadCount * expandThreshold < s.sh.tasks.length := by
    simpa [State.wakes, hrunning, hmonitoring] using hwakes
  have hstart : Searching cfg s t := by
    rw [step_wakes hm hpc hwakes hwake]
    exact ⟨rfl, rfl, rfl, rfl, _, rfl, rfl⟩
  constructor
  · intro s' hrun hpassed
    have hpass : Searching cfg s s' ∨ (s'.passed = true ∧ PassOutcome cfg s made s') := by
      refine hrun.keeps (P := fun t => Searching cfg s t ∨ (t.passed = true ∧
        PassOutcome cfg s made t)) (Or.inl hstart) fun t a t' ht hok hstep => ?_
      obtain ⟨hmonitor, hnot, hanswer⟩ := hok
      rcases ht with ht | ⟨hover, -⟩
      · cases a with
        | monitor creates waitFails =>
            exact (ht.step hmonitoring hrunning hload hanswer hstep).imp_left And.left
        | _ => cases hmonitor
      · rw [hnot] at hover
        cases hover
    rcases hpass with hs | ⟨-, hout⟩
    · rw [hs.not_passed] at hpassed
      cases hpassed
    · exact hout
  · intro hglobal hworker
    let creates : Creates := { avail := if made then 1 else 0 }
    have hanswer : ∀ t : State, ∀ b ∈ t.creation (.monitor creates false), b = made := by
      intro t b hb
      obtain ⟨m', -, hb⟩ := Option.bind_eq_some_iff.mp hb
      split at hb
      · obtain rfl := Option.some.inj hb
        cases made <;> rfl
      · cases hb
    refine exists_leads_of_rank State.rank (fun t hs => ?_) hstart
    obtain ⟨t', hstep⟩ := hs.enabled hglobal hworker creates false
    refine ⟨.monitor creates false, t', ⟨rfl, hs.not_passed, hanswer t⟩, hstep, ?_⟩
    rcases hs.step hmonitoring hrunning hload (hanswer t) hstep with hfurther | ⟨hover, -⟩
    · exact Or.inr hfurther
    · exact Or.inl hover

end ThreadPool.Normal
