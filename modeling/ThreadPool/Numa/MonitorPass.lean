import ThreadPool.Numa.Expansion
import ThreadPool.Numa.TaskCount

/-!
# What a pass of the monitor makes

The wait of the monitor asks for the tasks of all nodes and the threads in
their loops; the pass asks each node for its own tasks and its own
`thread_count`, which counts something else. So the two agree only as far as
some node is loaded by itself, has a worker and room for another.

The pass is the monitor's own steps with nobody in between, from any state.
-/

namespace ThreadPool.Numa

open Interleave Machine

/-- The monitor is past what a pass does to the threads. -/
def MonitorPc.passed : MonitorPc → Bool
  | .adjust _ | .waitFor | .entry | .ended => true
  | _ => false

def State.passed (s : State) : Bool := s.monitorThread.all fun m => m.pc.passed

/-- The monitor's steps up to the end of its pass; the first creation of all,
if there is one, succeeds or not as `made` says. As long as there was none, the
next handle is the one it was when the pass began. -/
def Passing (made : Bool) (handle : Nat) (s : State) (a : Action) : Prop :=
  a.isMonitor = true ∧ s.passed = false ∧
    (s.nextHandle = handle → ∀ b ∈ s.firstCreation a, b = made)

instance (made : Bool) (handle : Nat) (s : State) (a : Action) :
    Decidable (Passing made handle s a) := inferInstanceAs (Decidable (_ ∧ _ ∧ _))

/-- The node is loaded for its own workers, has some, and may have more. -/
structure NodeData.Growable (cfg : Config) (nd : NodeData) : Prop where
  load : nd.threadCount * expandThreshold < nd.tasks.length
  pos : 0 < nd.threadCount
  room : nd.threadCount < cfg.maxThreadsPerNode

/-- Some node is. -/
def Growable (cfg : Config) (nodes : List NodeData) : Prop :=
  ∃ n < cfg.numaNodeCount, ∃ nd, nodes[n]? = some nd ∧ nd.Growable cfg

/-- None of the first `n` nodes is. -/
def NoneBelow (cfg : Config) (nodes : List NodeData) (n : Nat) : Prop :=
  ∀ k < n, ∀ nd, nodes[k]? = some nd → ¬nd.Growable cfg

theorem NoneBelow.succ {cfg : Config} {nodes : List NodeData} {n : Nat}
    (h : NoneBelow cfg nodes n) (hn : ∀ nd, nodes[n]? = some nd → ¬nd.Growable cfg) :
    NoneBelow cfg nodes (n + 1) := by
  intro k hk nd hnd
  rcases Nat.lt_succ_iff_lt_or_eq.mp hk with hlt | rfl
  · exact h k hlt nd hnd
  · exact hn nd hnd

/-- What a pass that has made no thread yet knows at its program points. -/
def MonitorPc.found (cfg : Config) (nodes : List NodeData) : MonitorPc → Prop
  | .testMonitoring | .testRunning => True
  | .nodeLock n => n ≤ cfg.numaNodeCount ∧ NoneBelow cfg nodes n
  | .nodeTest n => n < cfg.numaNodeCount ∧ NoneBelow cfg nodes n
  | .expandLoad n => n < cfg.numaNodeCount ∧ NoneBelow cfg nodes n ∧
      ∀ nd, nodes[n]? = some nd → nd.threadCount * expandThreshold < nd.tasks.length
  | .expandStart _ need k => k = 0 ∧ 0 < need ∧ Growable cfg nodes
  | .shrinkLoad n | .shrinkNow n _ | .shrinkLock n _ _ | .shrinkMark n _ _ _ _
  | .shrinkNotify n => n < cfg.numaNodeCount ∧ NoneBelow cfg nodes (n + 1)
  | .expandPush _ _ _ | .adjust _ | .waitFor | .entry | .ended => False

/-- As long as it has made none, it leaves everything as it was that it depends
on. -/
structure Searching (cfg : Config) (s₀ s : State) : Prop where
  members : s.sh = s₀.sh
  nodes : s.nodes = s₀.nodes
  handles : s.nextHandle = s₀.nextHandle
  pushed : s.pushed = s₀.pushed
  control : s.control = s₀.control
  windows : (∀ w ∈ s₀.workers, w.native.pc ≠ .window) →
    ∀ w ∈ s.workers, w.native.pc ≠ .window
  found : ∃ m, s.monitorThread = some m ∧ m.pc.found cfg s₀.nodes

theorem Searching.goto {cfg : Config} {s₀ s : State} (hs : Searching cfg s₀ s) (m : Monitor)
    {pc : MonitorPc} (hfound : pc.found cfg s₀.nodes) :
    Searching cfg s₀ (s.monitorGoto m pc) :=
  ⟨hs.members, hs.nodes, hs.handles, hs.pushed, hs.control, hs.windows, _, rfl, hfound⟩

/-- How many steps the pass still takes before its first creation, at most. -/
def MonitorPc.ahead (cfg : Config) (slots : Nat) : MonitorPc → Nat
  | .testMonitoring => (cfg.numaNodeCount + 1) * (slots + 12) + 2
  | .testRunning => (cfg.numaNodeCount + 1) * (slots + 12) + 1
  | .nodeLock n => (cfg.numaNodeCount + 1 - n) * (slots + 12)
  | .nodeTest n => (cfg.numaNodeCount - n) * (slots + 12) + slots + 11
  | .expandLoad n => (cfg.numaNodeCount - n) * (slots + 12) + 10
  | .expandStart n _ _ => (cfg.numaNodeCount - n) * (slots + 12) + 9
  | .shrinkLoad n => (cfg.numaNodeCount - n) * (slots + 12) + slots + 10
  | .shrinkNow n _ => (cfg.numaNodeCount - n) * (slots + 12) + slots + 9
  | .shrinkLock n _ _ => (cfg.numaNodeCount - n) * (slots + 12) + slots + 8
  | .shrinkMark n _ _ _ i => (cfg.numaNodeCount - n) * (slots + 12) + (slots - i) + 7
  | .shrinkNotify n => (cfg.numaNodeCount - n) * (slots + 12) + 6
  | _ => 0

def State.ahead (cfg : Config) (s : State) : Nat :=
  match s.monitorThread with
  | some m => m.pc.ahead cfg s.pushed
  | none => 0

theorem ahead_eq {cfg : Config} {s : State} {m : Monitor} (hm : s.monitorThread = some m) :
    s.ahead cfg = m.pc.ahead cfg s.pushed := by rw [State.ahead, hm]

/-- It has made one, if the state it began with let it. -/
def Made (cfg : Config) (s₀ : State) (made : Bool) (s : State) : Prop :=
  s₀.nextHandle < s.nextHandle ∧ Growable cfg s₀.nodes ∧ made = true

/-- It has made none, and not for want of trying. -/
def Unmade (cfg : Config) (s₀ : State) (made : Bool) (s : State) : Prop :=
  s.nextHandle = s₀.nextHandle ∧ ¬(Growable cfg s₀.nodes ∧ made = true)

theorem expandNeed_some {cfg : Config} {c need : Nat} (h : expandNeed cfg c = some need) :
    0 < c ∧ c < cfg.maxThreadsPerNode ∧ 0 < need := by
  by_cases hroom : c < cfg.maxThreadsPerNode
  · rw [expandNeed_eq hroom] at h
    split at h
    · cases h
    · rw [Option.some.injEq] at h
      omega
  · rw [expandNeed, if_pos (by omega)] at h
    cases h

theorem expandNeed_none {cfg : Config} {c : Nat} (h : expandNeed cfg c = none) :
    ¬(0 < c ∧ c < cfg.maxThreadsPerNode) := by
  rintro ⟨hpos, hroom⟩
  rw [expandNeed_eq hroom, if_neg hpos.ne'] at h
  cases h

/-- A hop takes the pass further, or ends it with no node grown, or stands at a
creation. -/
theorem MonitorHop.searching {cfg : Config} {s : State} {pc pc' : MonitorPc}
    (h : MonitorHop cfg s pc pc') (hmonitoring : s.sh.monitoring = true)
    (hrunning : s.sh.running = true) (hfound : pc.found cfg s.nodes) :
    (pc'.found cfg s.nodes ∧ pc'.ahead cfg s.pushed < pc.ahead cfg s.pushed) ∨
      (pc'.passed = true ∧ ¬Growable cfg s.nodes) ∨
      ∃ n need k, pc = .expandStart n need k := by
  cases h with
  | monitoring => exact Or.inl ⟨trivial, Nat.lt_succ_self _⟩
  | unmonitoring hmon => cases hmon.symm.trans hmonitoring
  | running =>
      exact Or.inl ⟨⟨Nat.zero_le _, fun _ h => absurd h (Nat.not_lt_zero _)⟩,
        Nat.lt_succ_self _⟩
  | notRunning hrun => cases hrun.symm.trans hrunning
  | @nodeLock n hn =>
      have hsplit : cfg.numaNodeCount + 1 - n = cfg.numaNodeCount - n + 1 := by omega
      refine Or.inl ⟨⟨hn, hfound.2⟩, ?_⟩
      simp only [MonitorPc.ahead]
      rw [hsplit, Nat.succ_mul]
      omega
  | nodesDone hn =>
      refine Or.inr (Or.inl ⟨rfl, ?_⟩)
      rintro ⟨k, hk, nd, hnd, hgrow⟩
      exact hfound.2 k (hk.trans_le hn) nd hnd hgrow
  | mayExpand hnd hload =>
      obtain ⟨hlt, hnone⟩ := hfound
      refine Or.inl ⟨⟨hlt, hnone, fun nd hnd' => ?_⟩, by simp only [MonitorPc.ahead]; omega⟩
      obtain rfl := Option.some.inj (hnd.symm.trans hnd')
      exact hload
  | mayShrink hnd hload =>
      obtain ⟨hlt, hnone⟩ := hfound
      refine Or.inl ⟨⟨hlt, hnone.succ fun nd hnd' hgrow => ?_⟩, Nat.lt_succ_self _⟩
      obtain rfl := Option.some.inj (hnd.symm.trans hnd')
      exact hgrow.load.not_ge hload
  | noExpand hnd hneed =>
      obtain ⟨hlt, hnone, -⟩ := hfound
      refine Or.inl ⟨⟨hlt, hnone.succ fun nd hnd' hgrow => ?_⟩, ?_⟩
      · obtain rfl := Option.some.inj (hnd.symm.trans hnd')
        exact expandNeed_none hneed ⟨hgrow.pos, hgrow.room⟩
      · simp only [MonitorPc.ahead, Nat.add_sub_add_right]
        omega
  | expand hnd hneed =>
      obtain ⟨hlt, -, hload⟩ := hfound
      obtain ⟨hpos, hroom, hsome⟩ := expandNeed_some hneed
      exact Or.inl ⟨⟨rfl, hsome, _, hlt, _, hnd, hload _ hnd, hpos, hroom⟩,
        Nat.lt_succ_self _⟩
  | expandThrows | expanded => exact Or.inr (Or.inr ⟨_, _, _, rfl⟩)
  | noShrink =>
      refine Or.inl ⟨hfound, ?_⟩
      simp only [MonitorPc.ahead, Nat.add_sub_add_right]
      omega
  | shrink | readClock | lock => exact Or.inl ⟨hfound, Nat.lt_succ_self _⟩
  | passOver hw =>
      have hlt := (getElem?_of_slot hw).1
      refine Or.inl ⟨hfound, ?_⟩
      simp only [MonitorPc.ahead]
      omega
  | marksDone =>
      refine Or.inl ⟨hfound, ?_⟩
      simp only [MonitorPc.ahead]
      omega
  | adjust | adjusted | wake | waitThrows => cases hfound

theorem Searching.creates {cfg : Config} {s₀ s s' : State} {creates : Creates}
    {waitFails made : Bool} {m : Monitor} {n need k : Nat} (hs : Searching cfg s₀ s)
    (hm : s.monitorThread = some m) (hpc : m.pc = .expandStart n need k)
    (hok : ∀ b ∈ s.firstCreation (.monitor creates waitFails), b = made)
    (hstep : monitorStep cfg s creates waitFails = some s') :
    Made cfg s₀ made s' ∨ (s'.passed = true ∧ Unmade cfg s₀ made s') := by
  obtain ⟨m', hm', hfound⟩ := hs.found
  obtain rfl := Option.some.inj (hm.symm.trans hm')
  rw [hpc] at hfound
  obtain ⟨rfl, hneed, hgrow⟩ := hfound
  have hmade : decide (0 < creates.avail) = made :=
    hok _ (by simp [State.firstCreation, hm, hpc])
  simp only [monitorStep, hm, hpc, if_pos hneed, startWorker_eq] at hstep
  by_cases havail : creates.avail = 0
  · rw [if_pos havail, Option.some.injEq] at hstep
    subst hstep
    refine Or.inr ⟨rfl, hs.handles, fun h => ?_⟩
    rw [← hmade, decide_eq_true_iff] at h
    omega
  · rw [if_neg havail, Option.some.injEq] at hstep
    subst hstep
    refine Or.inl ⟨?_, hgrow, ?_⟩
    · exact Nat.lt_of_lt_of_eq (Nat.lt_succ_self _) (congrArg Nat.succ hs.handles.symm)
    · rw [← hmade, decide_eq_true_iff]
      exact Nat.pos_of_ne_zero havail

theorem lt_pushed_of_marks {cfg : Config} {s t : State} {creates : Creates}
    {waitFails : Bool} {m : Monitor} {n need now removed removed' i : Nat}
    (hm : s.monitorThread = some m)
    (hpc : m.pc = .shrinkMark n need now removed i)
    (hstep : monitorStep cfg s creates waitFails =
      some (t.monitorGoto m (.shrinkMark n need now removed' (i + 1)))) : i < s.pushed := by
  by_contra hge
  have hslot : s.slot i = none := if_neg hge
  simp only [monitorStep, hm, hpc, hslot, Option.some.injEq] at hstep
  cases congrArg (fun u : State => u.monitorThread.map Monitor.pc) hstep

/-- A step takes the pass further, or makes the first thread, or ends the pass
without one. -/
theorem Searching.step {cfg : Config} {s₀ s s' : State} {creates : Creates}
    {waitFails made : Bool}
    (hmonitoring : s₀.sh.monitoring = true) (hrunning : s₀.sh.running = true)
    (hs : Searching cfg s₀ s) (hok : ∀ b ∈ s.firstCreation (.monitor creates waitFails), b = made)
    (hstep : monitorStep cfg s creates waitFails = some s') :
    (Searching cfg s₀ s' ∧ s'.ahead cfg < s.ahead cfg) ∨ Made cfg s₀ made s' ∨
      (s'.passed = true ∧ Unmade cfg s₀ made s') := by
  obtain ⟨m, hm, hfound⟩ := hs.found
  rw [ahead_eq hm]
  cases monitorStep_cases hstep with
  | monitorHop hm' hhop =>
      obtain rfl := Option.some.inj (hm.symm.trans hm')
      rw [← hs.nodes] at hfound
      rcases hhop.searching (by rw [hs.members]; exact hmonitoring)
        (by rw [hs.members]; exact hrunning) hfound with
        ⟨hfound', hlt⟩ | ⟨hpassed, hnone⟩ | ⟨n, need, k, hpc⟩
      · rw [hs.nodes] at hfound'
        exact Or.inl ⟨hs.goto m hfound', hlt⟩
      · rw [hs.nodes] at hnone
        exact Or.inr (Or.inr ⟨hpassed, hs.handles, fun h => hnone h.1⟩)
      · exact Or.inr (hs.creates hm hpc hok hstep)
  | expandSpawns hm' hpc =>
      exact Or.inr (hs.creates hm' hpc hok hstep)
  | @marks _ _ m' n need now removed i w hm' hpc hw =>
      obtain rfl := Option.some.inj (hm.symm.trans hm')
      have hlt := lt_pushed_of_marks hm hpc hstep
      rw [hpc] at hfound ⊢
      refine Or.inl ⟨⟨hs.members, hs.nodes, hs.handles, hs.pushed, hs.control, ?_, _, rfl,
        hfound⟩, ?_⟩
      · exact fun hwindows => forall_mem_set (hs.windows hwindows)
          (hs.windows hwindows w (List.mem_of_getElem? hw))
      · simp only [State.ahead, State.monitorGoto, State.put, MonitorPc.ahead]
        omega
  | shrinkNotifies hm' hpc =>
      obtain rfl := Option.some.inj (hm.symm.trans hm')
      rw [hpc] at hfound ⊢
      refine Or.inl ⟨⟨hs.members, hs.nodes, hs.handles, hs.pushed, hs.control, ?_, _, rfl,
        hfound⟩, ?_⟩
      · intro hwindows
        exact forall_mem_notifyAll (hs.windows hwindows) fun w _ _ => by simp [Worker.goto]
      · simp only [State.ahead, State.monitorGoto, MonitorPc.ahead, Nat.add_sub_add_right]
        omega
  | expandPushes hm' hpc | monitorEnds hm' hpc =>
      obtain rfl := Option.some.inj (hm.symm.trans hm')
      rw [hpc] at hfound
      cases hfound
  | callHop hcall => cases hcall
  | workerHop hworker => cases hworker

theorem nextHandle_le {cfg : Config} {s s' : State} {creates : Creates} {waitFails : Bool}
    (hstep : monitorStep cfg s creates waitFails = some s') : s.nextHandle ≤ s'.nextHandle := by
  cases monitorStep_cases hstep with
  | expandSpawns => exact Nat.le_succ _
  | _ => exact Nat.le_refl _

theorem Searching.enabled {cfg : Config} {s₀ s : State} (hs : Searching cfg s₀ s)
    (hnodes : cfg.numaNodeCount ≤ s₀.nodes.length)
    (hwindows : ∀ w ∈ s₀.workers, w.native.pc ≠ .window)
    (hglobal : s₀.control.holdsGlobalMutex = false) (creates : Creates) (waitFails : Bool) :
    ∃ s', monitorStep cfg s creates waitFails = some s' := by
  obtain ⟨m, hm, hfound⟩ := hs.found
  have hnode : ∀ n < cfg.numaNodeCount, ∃ nd, s.nodes[n]? = some nd := fun n hn =>
    ⟨_, List.getElem?_eq_getElem (by rw [hs.nodes]; omega)⟩
  have hopen : ∀ n, m.pc.node? ≠ some n → s.tasksMutexFree n = true := by
    intro n hpc
    have hnone : ∀ w ∈ s.workers, w.inWindow n = false := fun w hw => by
      simp [Worker.inWindow, hs.windows hwindows w hw]
    simpa [State.tasksMutexFree, hm, hpc] using hnone
  have hunlocked : m.pc.holdsGlobalMutex = false → s.globalMutexFree = true := by
    intro hpc
    simp [State.globalMutexFree, hs.control, hglobal, hm, hpc]
  generalize hpc : m.pc = pc at hfound hopen hunlocked
  cases pc with
  | expandPush | adjust | waitFor | entry | ended => cases hfound
  | nodeLock n =>
      simp only [monitorStep, hm, hpc, if_pos (hopen n (by simp [MonitorPc.node?]))]
      split <;> exact ⟨_, rfl⟩
  | nodeTest n | expandLoad n | shrinkLoad n =>
      obtain ⟨nd, hnd⟩ := hnode n hfound.1
      simp only [monitorStep, hm, hpc, hnd]
      exact ⟨_, rfl⟩
  | expandStart n need k =>
      simp only [monitorStep, hm, hpc, startWorker_eq]
      split_ifs <;> exact ⟨_, rfl⟩
  | shrinkLock =>
      simp only [monitorStep, hm, hpc, if_pos (hunlocked rfl)]
      exact ⟨_, rfl⟩
  | shrinkMark n need now removed i =>
      simp only [monitorStep, hm, hpc]
      split
      · exact ⟨_, rfl⟩
      · split
        · split <;> exact ⟨_, rfl⟩
        · exact ⟨_, rfl⟩
  | _ =>
      simp only [monitorStep, hm, hpc]
      exact ⟨_, rfl⟩

theorem Searching.not_passed {cfg : Config} {s₀ s : State} (hs : Searching cfg s₀ s) :
    s.passed = false := by
  obtain ⟨m, hm, hfound⟩ := hs.found
  rw [State.passed, hm, Option.all_some]
  generalize m.pc = pc at hfound
  cases pc <;> first | rfl | cases hfound

theorem step_wakes {cfg : Config} {s t : State} {m : Monitor} {creates : Creates}
    {waitFails : Bool} (hm : s.monitorThread = some m) (hpc : m.pc = .waitFor)
    (hwakes : s.wakes = true)
    (hwake : (pool cfg).step s (.monitor creates waitFails) = some t) :
    t = s.monitorGoto m .testMonitoring := by
  simp only [pool, step, monitorStep, hm, hpc, hwakes, Bool.not_true, Bool.false_and,
    Bool.false_eq_true, if_false, Option.some.injEq] at hwake
  exact hwake.symm

/-- The pass that follows the wait, if nobody comes between, makes a thread
exactly where some node is loaded for its own workers, has some and may have
more, and the first creation succeeds; and the pass comes to its end or makes
one if nobody holds the mutexes. -/
theorem monitor_pass {cfg : Config} {s t : State} {m : Monitor} {creates : Creates}
    {waitFails : Bool} (hm : s.monitorThread = some m) (hpc : m.pc = .waitFor)
    (hrunning : s.sh.running = true) (hmonitoring : s.sh.monitoring = true)
    (hwakes : s.wakes = true)
    (hwake : (pool cfg).step s (.monitor creates waitFails) = some t) (made : Bool) :
    (∀ s', (pool cfg).LeadsWhen (Passing made s.nextHandle) t s' → s'.passed = true →
      (s.nextHandle < s'.nextHandle ↔ Growable cfg s.nodes ∧ made = true)) ∧
    (cfg.numaNodeCount ≤ s.nodes.length → (∀ w ∈ s.workers, w.native.pc ≠ .window) →
      s.control.holdsGlobalMutex = false →
      ∃ s', (pool cfg).LeadsWhen (Passing made s.nextHandle) t s' ∧
        (s'.passed = true ∨ s.nextHandle < s'.nextHandle)) := by
  have hstart : Searching cfg s t := by
    rw [step_wakes hm hpc hwakes hwake]
    exact ⟨rfl, rfl, rfl, rfl, rfl, fun h => h, _, rfl, trivial⟩
  constructor
  · intro s' hrun hpassed
    have hpass : Searching cfg s s' ∨ Made cfg s made s' ∨
        (s'.passed = true ∧ Unmade cfg s made s') := by
      refine hrun.keeps (P := fun t => Searching cfg s t ∨ Made cfg s made t ∨
        (t.passed = true ∧ Unmade cfg s made t)) (Or.inl hstart) fun t a t' ht hok hstep => ?_
      obtain ⟨hmonitor, hnot, hanswer⟩ := hok
      obtain ⟨creates, waitFails, rfl⟩ : ∃ creates waitFails, a = .monitor creates waitFails := by
        cases a <;> first | exact ⟨_, _, rfl⟩ | cases hmonitor
      rcases ht with ht | ⟨hlt, hmade⟩ | ⟨hover, -⟩
      · exact (ht.step hmonitoring hrunning (hanswer ht.handles) hstep).imp_left And.left
      · exact Or.inr (Or.inl ⟨hlt.trans_le (nextHandle_le hstep), hmade⟩)
      · rw [hnot] at hover
        cases hover
    rcases hpass with hs | ⟨hlt, hmade⟩ | ⟨-, hsame, hnot⟩
    · rw [hs.not_passed] at hpassed
      cases hpassed
    · exact iff_of_true hlt hmade
    · exact iff_of_false (Nat.le_of_eq hsame).not_gt hnot
  · intro hnodes hwindows hglobal
    let creates : Creates := { avail := if made then 1 else 0 }
    refine exists_leads_of_rank (State.ahead cfg) (fun t hs => ?_) hstart
    obtain ⟨t', hstep⟩ := hs.enabled hnodes hwindows hglobal creates false
    refine ⟨.monitor creates false, t',
      ⟨rfl, hs.not_passed, fun _ _ => eq_of_firstCreation⟩, hstep, ?_⟩
    rcases hs.step hmonitoring hrunning (fun _ => eq_of_firstCreation) hstep with
      hfurther | ⟨hlt, -⟩ | ⟨hover, -⟩
    · exact Or.inr hfurther
    · exact Or.inl (Or.inr hlt)
    · exact Or.inl (Or.inl hover)

end ThreadPool.Numa
