import ThreadPool.Numa.Moves

/-!
# The wiring of `NumaThreadPool` is kept

Every move keeps `Wired`, so every reachable state has it and `Move` is what
a step of the pool is. What is particular to this pool is the worker that
has been started and not pushed. `Start` and the monitor both make such
workers, but never at the same time: no monitor is alive while `Start` is in
its loops, since it was joined by the last `Stop` or never came to be.
-/

namespace ThreadPool.Numa

open Interleave

/-! ## Who creates -/

/-- A pool whose monitor is alive is running, and the controlling thread is
not creating workers. -/
theorem Wired.of_monitor {cfg : Config} {s : State} {m : Monitor} (hs : Wired cfg s)
    (hm : s.monitorThread = some m) (halive : m.pc ≠ .ended) :
    s.sh.running = true ∧ s.control.unmonitored = false := by
  constructor
  · rw [← Bool.not_eq_false]
    exact fun hrun => halive (hs.unmonitored (Or.inl hrun) m hm)
  · rw [← Bool.not_eq_true]
    exact fun hun => halive (hs.unmonitored (Or.inr hun) m hm)

theorem Control.not_pushing {c : Control} (h : c.unmonitored = false) :
    c.pushing = false := by
  cases c with
  | idle _ | stop _ _ => rfl
  | start pc => cases pc <;> first | rfl | cases h

theorem Wired.pending_of_monitor {cfg : Config} {s : State} {m : Monitor}
    (hs : Wired cfg s) (hm : s.monitorThread = some m) (halive : m.pc ≠ .ended) :
    s.pending = m.pc.pushing := by
  rw [State.pending, Control.not_pushing (hs.of_monitor hm halive).2, hm]
  rfl

theorem Wired.slot_of_monitor {cfg : Config} {s : State} {m : Monitor}
    (hs : Wired cfg s) (hm : s.monitorThread = some m) (halive : m.pc ≠ .ended)
    (hpushing : m.pc.pushing = false) (i : Nat) : s.slot i = s.workers[i]? := by
  have hlen := hs.pushed
  rw [hs.pending_of_monitor hm halive, hpushing, if_neg Bool.false_ne_true,
    Nat.add_zero] at hlen
  unfold State.slot
  split
  · rfl
  · next hge => rw [List.getElem?_eq_none (by omega)]

theorem Wired.monitor_not_pushing {cfg : Config} {s : State} (hs : Wired cfg s)
    (hquiet : s.sh.running = false ∨ s.control.unmonitored = true) :
    (s.monitorThread.any fun m => m.pc.pushing) = false := by
  cases hm : s.monitorThread with
  | none => rfl
  | some m =>
      rw [Option.any_some, hs.unmonitored hquiet m hm]
      rfl

theorem Wired.pending_of_control {cfg : Config} {s : State} (hs : Wired cfg s)
    (hquiet : s.sh.running = false ∨ s.control.unmonitored = true) :
    s.pending = s.control.pushing := by
  rw [State.pending, hs.monitor_not_pushing hquiet, Bool.or_false]

theorem Wired.not_closing {cfg : Config} {s : State} (hs : Wired cfg s)
    (hrun : s.sh.running = true) :
    s.control.holdsGlobalMutex = false ∧ s.control.joinsNext = none ∧
      s.control.clearedUpTo = 0 ∧ s.control.emptying = false := by
  have hflag := hs.runFlag
  generalize s.control = c at hflag
  cases c with
  | idle _ | start _ => exact ⟨rfl, rfl, rfl, rfl⟩
  | stop p pc =>
      cases pc <;> first
        | exact ⟨rfl, rfl, rfl, rfl⟩
        | (have hno := hflag false rfl; rw [hrun] at hno; cases hno)

/-! ## Frames -/

theorem Wired.frame {cfg : Config} {s s' : State} (hs : Wired cfg s)
    (hworkers : s'.workers = s.workers) (hpushed : s'.pushed = s.pushed)
    (hcontrol : s'.control = s.control) (hmonitor : s'.monitorThread = s.monitorThread)
    (hrunning : s'.sh.running = s.sh.running)
    (hnodes : s'.nodes.length = s.nodes.length) :
    Wired cfg s' := by
  constructor
  · rw [hworkers]
    exact hs.index
  · rw [hworkers]
    exact hs.handle
  · rw [hworkers, hcontrol]
    exact hs.property
  · rw [hworkers, hcontrol]
    exact hs.joining
  · rw [hworkers, hcontrol]
    exact hs.cleared
  · rw [hworkers, hcontrol]
    exact hs.emptied
  · rw [hworkers, hpushed, State.pending, hcontrol, hmonitor]
    exact hs.pushed
  · rw [hcontrol, hrunning]
    exact hs.runFlag
  · rw [hworkers, hcontrol, hrunning]
    exact hs.resting
  · rw [hmonitor]
    exact hs.monitor
  · rw [hmonitor, hcontrol, hrunning]
    exact hs.unmonitored
  · rw [hnodes]
    exact hs.nodes

theorem Wired.put {cfg : Config} {s : State} {j : Nat} {w : Worker} (hs : Wired cfg s)
    (hw : s.workers[j]? = some w) (w' : Worker) (hindex : w'.native.index = w.native.index)
    (hhandle : w'.property.threadHandle = w'.native.self)
    (hproperty : w.property.Started → w'.property.Started)
    (hended : w.native.pc.isEnded = true →
      w'.native.pc.isEnded = true ∧ w'.property = w.property) :
    Wired cfg (s.put j w') := by
  constructor
  · exact forall_getElem?_set hs.index (hindex.trans (hs.index j w hw))
  · exact forall_mem_set hs.handle hhandle
  · refine forall_mem_set hs.property ?_
    rcases hs.property w (List.mem_of_getElem? hw) with hstarted | ⟨hholds, hover, hterm⟩
    · exact Or.inl (hproperty hstarted)
    · obtain ⟨hover', hprop⟩ := hended hover
      exact Or.inr ⟨hholds, hover', by rw [hprop]; exact hterm⟩
  · intro i v hc hv
    rw [State.put, List.getElem?_set] at hv
    split at hv
    · next hij =>
        subst hij
        split at hv
        · rw [Option.some.injEq] at hv
          rw [← hv]
          exact hproperty (hs.joining j w hc hw)
        · cases hv
    · exact hs.joining i v hc hv
  · refine forall_getElem?_set hs.cleared fun hlt => ?_
    exact (hended (hs.cleared j w hw hlt)).1
  · intro hc
    have hnil := hs.emptied hc
    rw [hnil] at hw
    cases hw
  · rw [State.put, List.length_set]
    exact hs.pushed
  · exact hs.runFlag
  · intro hrest hrun
    have hnil := hs.resting hrest hrun
    rw [hnil] at hw
    cases hw
  · exact hs.monitor
  · exact hs.unmonitored
  · exact hs.nodes

theorem Wired.monitorStep {cfg : Config} {s : State} {m : Monitor} (hs : Wired cfg s)
    (hm : s.monitorThread = some m) (m' : Monitor) (halive : m.pc ≠ .ended)
    (hproperty : m.property.Started → m'.property.Started)
    (hpushing : m'.pc.pushing = m.pc.pushing) :
    Wired cfg { s with monitorThread := some m' } := by
  have hstarted : m.property.Started := by
    rcases hs.monitor m hm with hstarted | ⟨-, hended⟩
    · exact hstarted
    · exact absurd hended halive
  refine { hs with pushed := ?_, monitor := fun m₁ hm₁ => ?_, unmonitored := fun hquiet => ?_ }
  · have hlen := hs.pushed
    rw [State.pending, hm] at hlen
    rw [State.pending, Option.any_some, hpushing]
    exact hlen
  · rw [Option.some.injEq] at hm₁
    rw [← hm₁]
    exact Or.inl (hproperty hstarted)
  · exact absurd (hs.unmonitored hquiet m hm) halive

theorem Wired.goto {cfg : Config} {s : State} (hs : Wired cfg s) (sh : Shared) (c : Control)
    (hholds : s.control.holdsGlobalMutex = true → c.holdsGlobalMutex = true)
    (hjoining : ∀ i w, c.joinsNext = some i → s.workers[i]? = some w → w.property.Started)
    (hcleared : ∀ j w, s.workers[j]? = some w → j < c.clearedUpTo →
      w.native.pc.isEnded = true)
    (hemptied : c.emptying = true → s.workers = [])
    (hpushing : c.pushing = s.control.pushing)
    (hrunFlag : ∀ b, c.runningIs = some b → sh.running = b)
    (hresting : c.resting = true → sh.running = false → s.workers = [])
    (hunmonitored : sh.running = false ∨ c.unmonitored = true →
      ∀ m, s.monitorThread = some m → m.pc = .ended) :
    Wired cfg { s with sh := sh, control := c } where
  index := hs.index
  handle := hs.handle
  property := fun w hw => (hs.property w hw).imp_right fun h => ⟨hholds h.1, h.2⟩
  joining := hjoining
  cleared := hcleared
  emptied := hemptied
  pushed := by
    rw [State.pending, hpushing]
    exact hs.pushed
  runFlag := hrunFlag
  resting := hresting
  monitor := hs.monitor
  unmonitored := hunmonitored
  nodes := hs.nodes

theorem Wired.goto_plain {cfg : Config} {s : State} (hs : Wired cfg s) (sh : Shared)
    (c : Control) (hjoins : c.joinsNext = none) (hcleared : c.clearedUpTo = 0)
    (hemptying : c.emptying = false) (hpushing : c.pushing = s.control.pushing)
    (hholds : s.control.holdsGlobalMutex = true → c.holdsGlobalMutex = true)
    (hrunFlag : ∀ b, c.runningIs = some b → sh.running = b)
    (hresting : c.resting = true → sh.running = false → s.workers = [])
    (hunmonitored : sh.running = false ∨ c.unmonitored = true →
      ∀ m, s.monitorThread = some m → m.pc = .ended) :
    Wired cfg { s with sh := sh, control := c } := by
  refine hs.goto sh c hholds ?_ ?_ ?_ hpushing hrunFlag hresting hunmonitored
  · rw [hjoins]
    exact fun _ _ h => by cases h
  · rw [hcleared]
    exact fun _ _ _ h => absurd h (Nat.not_lt_zero _)
  · rw [hemptying]
    exact fun h => by cases h

theorem Wired.of_empty {cfg : Config} {s : State} (hnil : s.workers = [])
    (hpushed : s.pushed = 0) (hpending : s.pending = false)
    (hrunFlag : ∀ b, s.control.runningIs = some b → s.sh.running = b)
    (hmonitor : ∀ m, s.monitorThread = some m →
      m.property.Started ∨ m.property.isJoinable = false ∧ m.pc = .ended)
    (hunmonitored : s.sh.running = false ∨ s.control.unmonitored = true →
      ∀ m, s.monitorThread = some m → m.pc = .ended)
    (hnodes : s.nodes.length = cfg.numaNodeCount) : Wired cfg s where
  index := by simp [hnil]
  handle := by simp [hnil]
  property := by simp [hnil]
  joining := by simp [hnil]
  cleared := by simp [hnil]
  emptied := fun _ => hnil
  pushed := by rw [hnil, hpushed, hpending]; rfl
  runFlag := hrunFlag
  resting := fun _ _ => hnil
  monitor := hmonitor
  unmonitored := hunmonitored
  nodes := hnodes

/-! ## The controlling thread -/

theorem Wired.hop {cfg : Config} {s : State} {c : Control} (hs : Wired cfg s)
    (hhop : Hop cfg s s.control c) : Wired cfg (s.goto c) := by
  have hrun := hs.runFlag
  have hrest := hs.resting
  have hunmon := hs.unmonitored
  have hcleared := hs.cleared
  have hemptied := hs.emptied
  have hplain := hs.goto_plain s.sh c
  have hgoto := hs.goto s.sh c
  have hpending := @Wired.pending_of_control cfg s hs
  generalize hc : s.control = c₀
    at hhop hrun hrest hunmon hcleared hemptied hplain hgoto hpending
  have hquiet : c.unmonitored = false → s.sh.running = false ∨ c.unmonitored = true →
      ∀ m, s.monitorThread = some m → m.pc = .ended := fun hno hor => by
    rw [hno] at hor
    exact hunmon (Or.inl (hor.resolve_right (by simp)))
  cases hhop with
  | alreadyRunning | notRunning =>
      exact hplain rfl rfl rfl rfl (fun h => by cases h) (fun _ h => by cases h) hrest
        (hquiet rfl)
  | mayStart hrunning =>
      refine hplain rfl rfl rfl rfl (fun h => by cases h) (fun b h => ?_) hrest (hquiet rfl)
      rw [Control.runningIs, Option.some.injEq] at h
      rw [← h, hrunning]
  | mayStop hrunning =>
      refine hplain rfl rfl rfl rfl (fun h => by cases h) (fun b h => ?_) (fun h => by cases h)
        (hquiet rfl)
      rw [Control.runningIs, Option.some.injEq] at h
      rw [← h, hrunning]
  | spawnFails | joinMonitorThrows =>
      refine hplain rfl rfl rfl rfl (fun h => by cases h) (fun _ h => by cases h)
        (fun _ hstopped => ?_) (hquiet rfl)
      rw [hrun true rfl] at hstopped
      cases hstopped
  | nodeDone | nodesDone =>
      exact hplain rfl rfl rfl rfl (fun h => by cases h) hrun (fun h => by cases h) hunmon
  | notifyMonitor | joinMonitor | notified | counts | waitsNot | taskCount | waits | waited
  | lock =>
      exact hplain rfl rfl rfl rfl (fun h => by cases h) hrun (fun h => by cases h)
        (hquiet rfl)
  | skips | joinsDone =>
      exact hplain rfl rfl rfl rfl (fun _ => rfl) hrun (fun h => by cases h) (hquiet rfl)
  | noMonitor hnone =>
      refine hplain rfl rfl rfl rfl (fun h => by cases h) hrun (fun h => by cases h)
        fun _ m hm => ?_
      rcases hs.monitor m hm with hstarted | ⟨-, hended⟩
      · have hjoinable := hstarted.isJoinable
        rw [hnone m hm] at hjoinable
        cases hjoinable
      · exact hended
  | joins hw hvalid hjoinable =>
      obtain ⟨-, hw⟩ := getElem?_of_slot hw
      refine hgoto (fun _ => rfl) (fun i v hi hv => ?_)
        (fun _ _ _ h => absurd h (Nat.not_lt_zero _)) (fun h => by cases h) rfl hrun
        (fun h => by cases h) (hquiet rfl)
      rw [Control.joinsNext, Option.some.injEq] at hi
      rw [← hi, hw, Option.some.injEq] at hv
      subst hv
      rcases hs.property _ (List.mem_of_getElem? hw) with hstarted | ⟨-, -, hterm⟩
      · exact hstarted
      · rw [ThreadProperty.isJoinable, hterm] at hjoinable
        cases hjoinable
  | @destroys p i w hw hjoinable =>
      obtain ⟨-, hw⟩ := getElem?_of_slot hw
      refine hgoto (fun _ => rfl) (fun _ _ h => by cases h) (fun j v hv hj => ?_)
        (fun h => by cases h) rfl hrun (fun h => by cases h) (hquiet rfl)
      rcases Nat.lt_succ_iff_lt_or_eq.mp hj with hlt | rfl
      · exact hcleared j v hv hlt
      · rw [hw, Option.some.injEq] at hv
        subst hv
        rcases hs.property _ (List.mem_of_getElem? hw) with hstarted | ⟨-, hended, -⟩
        · rw [hstarted.isJoinable] at hjoinable
          cases hjoinable
        · exact hended
  | destroyJoins =>
      exact hgoto (fun _ => rfl) (fun _ _ h => by cases h) hcleared (fun h => by cases h) rfl
        hrun (fun h => by cases h) (hquiet rfl)
  | returns =>
      have hnil := hemptied rfl
      have hstopped := hrun false rfl
      have hnone : s.pending = false := hpending (Or.inl hstopped)
      have hlen := hs.pushed
      rw [hnil, hnone] at hlen
      refine Wired.of_empty hnil hlen.symm ?_ (fun _ h => by cases h) hs.monitor
        (fun _ => hunmon (Or.inl hstopped)) hs.nodes
      rw [State.pending, hc] at hnone
      exact hnone

/-! ## Workers -/

theorem LoopStep.not_ended {sh sh' : Shared} {nd nd' : NodeData} {free throws : Bool}
    {agent : Agent} {pc pc' : WorkerPc} {fl fl' : Flags}
    (h : LoopStep sh nd free agent throws pc fl sh' nd' pc' fl') :
    pc.isEnded = false ∧ pc'.isEnded = false := by
  cases h with
  | passes hpc | sleeps hpc => rcases hpc with rfl | rfl <;> exact ⟨rfl, rfl⟩
  | _ => exact ⟨rfl, rfl⟩

theorem LoopStep.running_eq {sh sh' : Shared} {nd nd' : NodeData} {free throws : Bool}
    {agent : Agent} {pc pc' : WorkerPc} {fl fl' : Flags}
    (h : LoopStep sh nd free agent throws pc fl sh' nd' pc' fl') :
    sh'.running = sh.running := by
  cases h <;> rfl

theorem WorkerHop.same {cfg : Config} {s : State} {w w' : Worker}
    (h : WorkerHop cfg s w w') :
    w'.native.index = w.native.index ∧ w'.native.self = w.native.self ∧
      w'.numaNode = w.numaNode ∧ w'.property.threadHandle = w.property.threadHandle := by
  cases h <;> exact ⟨rfl, rfl, rfl, rfl⟩

theorem WorkerHop.started {cfg : Config} {s : State} {w w' : Worker}
    (h : WorkerHop cfg s w w') (hw : w.property.Started) : w'.property.Started := by
  cases h with
  | ends => exact hw.threadEntry
  | _ => exact hw

theorem WorkerHop.not_ended {cfg : Config} {s : State} {w w' : Worker}
    (h : WorkerHop cfg s w w') : w.native.pc.isEnded = false := by
  cases h with
  | registers hpc | leaves hpc | noNode hpc | readsNode _ hpc | bindFails hpc | unbound hpc
  | ends _ hpc | spurious hpc =>
      rw [hpc]
      rfl

theorem Worker.blocked_of_asleepOn {w : Worker} {n : Nat} (h : w.asleepOn n = true) :
    w.native.nodeNum = n ∧ w.native.pc = .blocked false := by
  simpa only [Worker.asleepOn, Bool.and_eq_true, decide_eq_true_eq] using h

theorem notifyAll_getElem? {n : Nat} {ws : List Worker} {j : Nat} {w' : Worker}
    (h : (notifyAll n ws)[j]? = some w') :
    ∃ w, ws[j]? = some w ∧ ((w.asleepOn n = false ∧ w' = w) ∨
      (w.asleepOn n = true ∧ w' = w.goto (.blocked true))) := by
  rw [notifyAll, List.getElem?_map, Option.map_eq_some_iff] at h
  obtain ⟨w, hw, rfl⟩ := h
  refine ⟨w, hw, ?_⟩
  split
  · next hasleep => exact Or.inr ⟨hasleep, rfl⟩
  · next hawake => exact Or.inl ⟨by simpa using hawake, rfl⟩

theorem mem_notifyAll {n : Nat} {ws : List Worker} {w' : Worker}
    (h : w' ∈ notifyAll n ws) :
    ∃ w ∈ ws, (w.asleepOn n = false ∧ w' = w) ∨
      (w.asleepOn n = true ∧ w' = w.goto (.blocked true)) := by
  obtain ⟨j, hj⟩ := List.mem_iff_getElem?.mp h
  obtain ⟨w, hw, hw'⟩ := notifyAll_getElem? hj
  exact ⟨w, List.mem_of_getElem? hw, hw'⟩

theorem forall_mem_notifyAll {P : Worker → Prop} {n : Nat} {ws : List Worker}
    (h : ∀ w ∈ ws, P w)
    (hwoken : ∀ w ∈ ws, w.asleepOn n = true → P (w.goto (.blocked true))) :
    ∀ w ∈ notifyAll n ws, P w := by
  intro w' hw'
  obtain ⟨w, hw, ⟨-, rfl⟩ | ⟨hasleep, rfl⟩⟩ := mem_notifyAll hw'
  · exact h _ hw
  · exact hwoken w hw hasleep

theorem length_notifyAll (n : Nat) (ws : List Worker) :
    (notifyAll n ws).length = ws.length := List.length_map _

theorem notifyAll_eq_nil {n : Nat} {ws : List Worker} (h : ws = []) :
    notifyAll n ws = [] := by
  rw [h]
  rfl

theorem Wired.notifyAll {cfg : Config} {s : State} (hs : Wired cfg s) (n : Nat) :
    Wired cfg { s with workers := Numa.notifyAll n s.workers } := by
  refine { hs with index := ?_, handle := ?_, property := ?_, joining := ?_, cleared := ?_,
                   emptied := ?_, pushed := ?_, resting := ?_ }
  · intro j w' h
    obtain ⟨w, hw, ⟨-, rfl⟩ | ⟨-, rfl⟩⟩ := notifyAll_getElem? h
    · exact hs.index j _ hw
    · exact hs.index j w hw
  · intro w' h
    obtain ⟨w, hw, ⟨-, rfl⟩ | ⟨-, rfl⟩⟩ := mem_notifyAll h
    · exact hs.handle _ hw
    · exact hs.handle w hw
  · intro w' hmem
    obtain ⟨w, hw, ⟨-, rfl⟩ | ⟨hasleep, rfl⟩⟩ := mem_notifyAll hmem
    · exact hs.property _ hw
    · have hblocked := (Worker.blocked_of_asleepOn hasleep).2
      have hstarted := hs.started_of_not_ended hw (by rw [hblocked]; rfl)
      exact Or.inl hstarted
  · intro i w' hc h
    obtain ⟨w, hw, ⟨-, rfl⟩ | ⟨-, rfl⟩⟩ := notifyAll_getElem? h
    · exact hs.joining i _ hc hw
    · exact hs.joining i w hc hw
  · intro j w' h hj
    obtain ⟨w, hw, ⟨-, rfl⟩ | ⟨hasleep, rfl⟩⟩ := notifyAll_getElem? h
    · exact hs.cleared j _ hw hj
    · have hended := hs.cleared j w hw hj
      rw [(Worker.blocked_of_asleepOn hasleep).2] at hended
      cases hended
  · exact fun hc => notifyAll_eq_nil (hs.emptied hc)
  · rw [length_notifyAll]
    exact hs.pushed
  · exact fun hrest hrun => notifyAll_eq_nil (hs.resting hrest hrun)

/-! ## Creating workers -/

theorem Wired.append {cfg : Config} {s : State} (hs : Wired cfg s) (n : Nat)
    (hrun : s.sh.running = true) (hpending : s.pending = false) :
    (∀ j (w : Worker), (s.spawn n).workers[j]? = some w → w.native.index = j) ∧
      (∀ w ∈ (s.spawn n).workers, w.property.threadHandle = w.native.self) ∧
      (∀ w ∈ (s.spawn n).workers, w.property.Started) ∧
      (s.spawn n).workers.length = s.pushed + 1 := by
  have hlen := hs.pushed
  rw [hpending] at hlen
  have hheld := (hs.not_closing hrun).1
  refine ⟨?_, ?_, ?_, ?_⟩
  · refine forall_getElem?_append hs.index fun k w hk => ?_
    cases k with
    | zero =>
        rw [List.getElem?_cons_zero, Option.some.injEq] at hk
        rw [← hk, hlen]
        rfl
    | succ k => cases hk
  · intro w hw
    rcases List.mem_append.mp hw with hold | hnew
    · exact hs.handle w hold
    · rw [List.mem_singleton.mp hnew]
      rfl
  · intro w hw
    rcases List.mem_append.mp hw with hold | hnew
    · rcases hs.property w hold with hstarted | ⟨hholds, -⟩
      · exact hstarted
      · rw [hheld] at hholds
        cases hholds
    · rw [List.mem_singleton.mp hnew]
      exact ⟨rfl, rfl⟩
  · rw [State.spawn, List.length_append, hlen]
    rfl

theorem Wired.spawns {cfg : Config} {s : State} {n i : Nat} (hs : Wired cfg s)
    (hc : s.control = .start (.spawn n i)) :
    Wired cfg ((s.spawn n).goto (.start (.push n i))) := by
  have hrun := hs.running_at hc rfl
  have hquiet : s.sh.running = false ∨ s.control.unmonitored = true :=
    Or.inr (by rw [hc]; rfl)
  have hpending := hs.pending_of_control hquiet
  rw [hc] at hpending
  obtain ⟨hindex, hhandle, hstarted, hlen⟩ := hs.append n hrun hpending
  exact {
    index := hindex
    handle := hhandle
    property := fun w hw => Or.inl (hstarted w hw)
    joining := fun _ _ h => by cases h
    cleared := fun _ _ _ h => absurd h (Nat.not_lt_zero _)
    emptied := fun h => by cases h
    pushed := hlen
    runFlag := fun _ h => hrun.trans (Option.some.inj h)
    resting := fun h => by cases h
    monitor := hs.monitor
    unmonitored := fun _ => hs.unmonitored hquiet
    nodes := hs.nodes }

theorem Wired.expandSpawns {cfg : Config} {s : State} {m : Monitor} {n need k : Nat}
    (hs : Wired cfg s) (hm : s.monitorThread = some m)
    (hpc : m.pc = .expandStart n need k) :
    Wired cfg ((s.spawn n).monitorGoto m (.expandPush n need k)) := by
  have halive : m.pc ≠ .ended := by rw [hpc]; simp
  obtain ⟨hrun, hmonitored⟩ := hs.of_monitor hm halive
  have hpending := hs.pending_of_monitor hm halive
  rw [hpc] at hpending
  obtain ⟨hindex, hhandle, hstarted, hlen⟩ := hs.append n hrun hpending
  obtain ⟨-, hjoins, hcleared, hemptying⟩ := hs.not_closing hrun
  exact {
    index := hindex
    handle := hhandle
    property := fun w hw => Or.inl (hstarted w hw)
    joining := fun i w h => by
      rw [show s.control.joinsNext = some i from h] at hjoins
      cases hjoins
    cleared := fun j w _ h => by
      have hlt : j < s.control.clearedUpTo := h
      rw [hcleared] at hlt
      exact absurd hlt (Nat.not_lt_zero _)
    emptied := fun h => by
      rw [show s.control.emptying = true from h] at hemptying
      cases hemptying
    pushed := by
      rw [State.pending, State.monitorGoto, hlen, Option.any_some, MonitorPc.pushing,
        Bool.or_true]
      rfl
    runFlag := hs.runFlag
    resting := fun _ h => by
      rw [show s.sh.running = false from h] at hrun
      cases hrun
    monitor := fun m' hm' => by
      rw [← Option.some.inj hm']
      exact Or.inl ((hs.monitor m hm).resolve_right fun h => halive h.2)
    unmonitored := fun h => by
      rcases h with h | h
      · rw [show s.sh.running = false from h] at hrun
        cases hrun
      · rw [show s.control.unmonitored = true from h] at hmonitored
        cases hmonitored
    nodes := hs.nodes }

theorem Wired.push {cfg : Config} {s : State} (hs : Wired cfg s) (n : Nat)
    (hpending : s.pending = true) : s.workers.length = (pushWorker s n).pushed := by
  have hlen := hs.pushed
  rw [hpending] at hlen
  exact hlen

theorem length_pushWorker_nodes (s : State) (n : Nat) :
    (pushWorker s n).nodes.length = s.nodes.length := by
  rw [pushWorker, List.length_modify]

theorem Wired.pushesSlot {cfg : Config} {s : State} {n i : Nat} (hs : Wired cfg s)
    (hc : s.control = .start (.push n i)) :
    Wired cfg ((pushWorker s n).goto (.start (.spawn n (i + 1)))) := by
  have hrun := hs.running_at hc rfl
  have hquiet : s.sh.running = false ∨ s.control.unmonitored = true :=
    Or.inr (by rw [hc]; rfl)
  have hpending := hs.pending_of_control hquiet
  rw [hc] at hpending
  have hlen := hs.push n hpending
  exact {
    index := hs.index
    handle := hs.handle
    property := fun w hw => (hs.property w hw).imp_right fun h => by
      rw [hc] at h
      cases h.1
    joining := fun _ _ h => by cases h
    cleared := fun _ _ _ h => absurd h (Nat.not_lt_zero _)
    emptied := fun h => by cases h
    pushed := by
      have hnone : ((pushWorker s n).goto (.start (.spawn n (i + 1)))).pending = false :=
        hs.monitor_not_pushing hquiet
      rw [hnone]
      exact hlen
    runFlag := fun _ h => hrun.trans (Option.some.inj h)
    resting := fun h => by cases h
    monitor := hs.monitor
    unmonitored := fun _ => hs.unmonitored hquiet
    nodes := (length_pushWorker_nodes s n).trans hs.nodes }

theorem Wired.expandPushes {cfg : Config} {s : State} {m : Monitor} {n need k : Nat}
    (hs : Wired cfg s) (hm : s.monitorThread = some m)
    (hpc : m.pc = .expandPush n need k) :
    Wired cfg ((pushWorker s n).monitorGoto m (.expandStart n need (k + 1))) := by
  have halive : m.pc ≠ .ended := by rw [hpc]; simp
  obtain ⟨hrun, hmonitored⟩ := hs.of_monitor hm halive
  have hpending := hs.pending_of_monitor hm halive
  rw [hpc] at hpending
  have hlen := hs.push n hpending
  exact {
    index := hs.index
    handle := hs.handle
    property := hs.property
    joining := hs.joining
    cleared := hs.cleared
    emptied := hs.emptied
    pushed := by
      have hnone : ((pushWorker s n).monitorGoto m
          (.expandStart n need (k + 1))).pending = false := by
        rw [State.pending]
        exact (Bool.or_false _).trans (Control.not_pushing hmonitored)
      rw [hnone]
      exact hlen
    runFlag := hs.runFlag
    resting := hs.resting
    monitor := fun m' hm' => by
      rw [← Option.some.inj hm']
      exact Or.inl ((hs.monitor m hm).resolve_right fun h => halive h.2)
    unmonitored := fun h => absurd (hs.unmonitored h m hm) halive
    nodes := (length_pushWorker_nodes s n).trans hs.nodes }

/-! ## Every move -/

theorem Wired.setMonitor {cfg : Config} {s : State} (hs : Wired cfg s)
    (hc : s.control = .start .monitor) (m : Monitor) (o : Outcome) (next : Nat)
    (hm : m.property.Started ∨ m.property.isJoinable = false ∧ m.pc = .ended)
    (hpushing : m.pc.pushing = false) :
    Wired cfg { s with monitorThread := some m, nextHandle := next, control := .idle o } := by
  have hrun := hs.running_at hc rfl
  have hquiet : s.sh.running = false ∨ s.control.unmonitored = true :=
    Or.inr (by rw [hc]; rfl)
  have hlen := hs.pushed
  rw [hs.pending_of_control hquiet, hc] at hlen
  exact {
    index := hs.index
    handle := hs.handle
    property := fun w hw => (hs.property w hw).imp_right fun h => by
      rw [hc] at h
      cases h.1
    joining := fun _ _ h => by cases h
    cleared := fun _ _ _ h => absurd h (Nat.not_lt_zero _)
    emptied := fun h => by cases h
    pushed := by
      rw [State.pending, Option.any_some, hpushing]
      exact hlen
    runFlag := fun _ h => by cases h
    resting := fun _ h => by
      rw [show s.sh.running = false from h] at hrun
      cases hrun
    monitor := fun m' hm' => by
      rw [← Option.some.inj hm']
      exact hm
    unmonitored := fun h => by
      rcases h with h | h
      · rw [show s.sh.running = false from h] at hrun
        cases hrun
      · cases h
    nodes := hs.nodes }

theorem Wired.dropMonitor {cfg : Config} {s : State} (hs : Wired cfg s)
    (hover : ∀ m, s.monitorThread = some m → m.pc = .ended) :
    Wired cfg { s with monitorThread := none } := by
  refine { hs with pushed := ?_, monitor := fun _ hm => ?_, unmonitored := fun _ _ hm => ?_ }
  · have hlen := hs.pushed
    have hnone : (s.monitorThread.any fun m => m.pc.pushing) = false := by
      cases hm : s.monitorThread with
      | none => rfl
      | some m =>
          rw [Option.any_some, hover m hm]
          rfl
    rw [State.pending, hnone] at hlen
    exact hlen
  · cases hm
  · cases hm

theorem Wired.running_at_join {cfg : Config} {s : State} {p : ShutdownPolicy} {pc : StopPc}
    {i : Nat} (hs : Wired cfg s) (hc : s.control = .stop p (.joining i) ∧ pc = .join (i + 1) ∨
      s.control = .stop p (.clearJoining i) ∧ pc = .clear (i + 1)) :
    s.sh.running = false := by
  rcases hc with ⟨hc, -⟩ | ⟨hc, -⟩ <;> exact hs.running_at hc rfl

theorem Wired.join {cfg : Config} {s : State} {p : ShutdownPolicy} {pc : StopPc} {i : Nat}
    {w : Worker} (hs : Wired cfg s)
    (hc : s.control = .stop p (.joining i) ∧ pc = .join (i + 1) ∨
      s.control = .stop p (.clearJoining i) ∧ pc = .clear (i + 1))
    (hw : s.workers[i]? = some w) (hended : w.native.pc.isEnded = true) :
    Wired cfg ((s.put i w.joined).goto (.stop p pc)) := by
  have hrun := hs.running_at_join hc
  have hpending := hs.pending_of_control (Or.inl hrun)
  have hlen := hs.pushed
  rw [hpending] at hlen
  have hmonitor := hs.monitor_not_pushing (Or.inl hrun)
  have hholds : (Control.stop p pc).holdsGlobalMutex = true := by
    rcases hc with ⟨-, rfl⟩ | ⟨-, rfl⟩ <;> rfl
  exact {
    index := forall_getElem?_set hs.index (hs.index i w hw)
    handle := forall_mem_set hs.handle (hs.handle w (List.mem_of_getElem? hw))
    property := forall_mem_set
      (fun v hv => (hs.property v hv).imp_right fun h => ⟨hholds, h.2⟩)
      (Or.inr ⟨hholds, hended, rfl⟩)
    joining := fun _ _ h => by rcases hc with ⟨-, rfl⟩ | ⟨-, rfl⟩ <;> cases h
    cleared := by
      refine forall_getElem?_set (fun j v hv hj => ?_) fun _ => hended
      rcases hc with ⟨-, rfl⟩ | ⟨hc, rfl⟩
      · exact absurd hj (Nat.not_lt_zero _)
      · rcases Nat.lt_succ_iff_lt_or_eq.mp hj with hlt | rfl
        · exact hs.cleared j v hv (by rw [hc]; exact hlt)
        · rw [hw, Option.some.injEq] at hv
          rw [← hv]
          exact hended
    emptied := fun h => by rcases hc with ⟨-, rfl⟩ | ⟨-, rfl⟩ <;> cases h
    pushed := by
      have hnone : ((s.put i w.joined).goto (.stop p pc)).pending = false := hmonitor
      rw [hnone, State.goto, State.put, List.length_set, hlen]
      rcases hc with ⟨hc, -⟩ | ⟨hc, -⟩ <;> rw [hc] <;> rfl
    runFlag := fun b h => by
      rcases hc with ⟨-, rfl⟩ | ⟨-, rfl⟩ <;> exact hrun.trans (Option.some.inj h)
    resting := fun h => by rcases hc with ⟨-, rfl⟩ | ⟨-, rfl⟩ <;> cases h
    monitor := hs.monitor
    unmonitored := fun _ => hs.unmonitored (Or.inl hrun)
    nodes := hs.nodes }

theorem MonitorHop.same {cfg : Config} {s : State} {pc pc' : MonitorPc}
    (h : MonitorHop cfg s pc pc') : pc ≠ .ended ∧ pc'.pushing = pc.pushing := by
  cases h <;> exact ⟨by simp, rfl⟩

/-- Every move keeps the wiring. -/
theorem Move.wired {cfg : Config} {s s' : State} {a : Action} (hs : Wired cfg s)
    (h : Move cfg s a s') : Wired cfg s' := by
  cases h with
  | tick | call | callOn | callHop | notifiesNobody =>
      exact hs.frame rfl rfl rfl rfl rfl rfl
  | pushes => exact hs.frame rfl rfl rfl rfl rfl (List.length_set ..)
  | @notifies _ _ _ w _ _ hw hasleep =>
      have hblocked := (Worker.blocked_of_asleepOn hasleep).2
      exact (hs.put hw (w.goto (.blocked true)) rfl (hs.handle w (List.mem_of_getElem? hw)) id
        (by rw [hblocked]; intro h; cases h)).frame rfl rfl rfl rfl rfl rfl
  | @workerHop _ _ w w' _ hw hhop =>
      obtain ⟨hindex, hself, -, hhandle⟩ := hhop.same
      refine hs.put hw w' hindex ?_ hhop.started ?_
      · rw [hhandle, hself]
        exact hs.handle w (List.mem_of_getElem? hw)
      · rw [hhop.not_ended]
        intro h
        cases h
  | @binds _ _ w hw hpc =>
      exact (hs.put hw (w.goto .setValid) rfl (hs.handle w (List.mem_of_getElem? hw)) id
        (by rw [hpc]; intro h; cases h)).frame rfl rfl rfl rfl rfl rfl
  | @loops j throws w sh nd nd' pc fl hw hnd hstep =>
      exact (hs.put hw ({ w with flags := fl }.goto pc) rfl
        (hs.handle w (List.mem_of_getElem? hw)) id
        (by rw [hstep.not_ended.1]; intro h; cases h)).frame rfl rfl rfl rfl hstep.running_eq
          (List.length_set ..)
  | callsStart hc | callsStop _ hc =>
      refine hs.goto_plain s.sh _ rfl rfl rfl (by rw [hc]; rfl) (by rw [hc]; intro h; cases h)
        (fun _ h => by cases h) (fun _ => hs.resting (by rw [hc]; rfl)) ?_
      exact fun h => hs.unmonitored (h.imp_right fun h => by cases h)
  | hop hhop => exact hs.hop hhop
  | storeRunning hc =>
      refine hs.goto_plain _ _ rfl rfl rfl (by rw [hc]; rfl) (by rw [hc]; intro h; cases h)
        (fun _ h => Option.some.inj h) (fun h => by cases h) ?_
      exact fun _ => hs.unmonitored (Or.inl (hs.running_at hc rfl))
  | spawns hc => exact hs.spawns hc
  | pushesSlot hc => exact hs.pushesSlot hc
  | storeMonitoring hc =>
      have hrun := hs.running_at hc rfl
      refine hs.goto_plain _ _ rfl rfl rfl (by rw [hc]; rfl) (by rw [hc]; intro h; cases h)
        (fun _ h => hrun.trans (Option.some.inj h)) (fun h => by cases h) ?_
      exact fun _ => hs.unmonitored (Or.inr (by rw [hc]; rfl))
  | startUnmonitored e hc =>
      exact hs.setMonitor hc _ _ s.nextHandle (Or.inr ⟨rfl, rfl⟩) rfl
  | starts hc => exact hs.setMonitor hc _ _ _ (Or.inl ⟨rfl, rfl⟩) rfl
  | clearMonitoring hc =>
      have hrun := hs.running_at hc rfl
      refine hs.goto_plain _ _ rfl rfl rfl (by rw [hc]; rfl) (by rw [hc]; intro h; cases h)
        (fun _ h => hrun.trans (Option.some.inj h)) (fun h => by cases h) ?_
      exact fun h => hs.unmonitored (h.imp_right fun h => by cases h)
  | @joinsMonitor _ _ p m hc hm hended =>
      have hrun := hs.running_at hc rfl
      have hover : ∀ m', s.monitorThread = some m' → m'.pc = .ended := fun m' hm' => by
        rw [hm, Option.some.injEq] at hm'
        rw [← hm']
        exact hended
      have hplain := hs.goto_plain s.sh (.stop p .running) rfl rfl rfl (by rw [hc]; rfl)
        (by rw [hc]; intro h; cases h) (fun _ h => hrun.trans (Option.some.inj h))
        (fun h => by cases h) fun _ => hover
      exact hplain.dropMonitor hover
  | clearRunning hc =>
      refine hs.goto_plain _ _ rfl rfl rfl (by rw [hc]; rfl) (by rw [hc]; intro h; cases h)
        (fun _ h => Option.some.inj h) (fun h => by cases h) ?_
      exact fun _ => hs.unmonitored (Or.inr (by rw [hc]; rfl))
  | @notifiesAll _ _ p n hc =>
      have hrun := hs.running_at hc rfl
      refine (hs.notifyAll n).goto_plain s.sh _ rfl rfl rfl (by rw [hc]; rfl)
        (by rw [hc]; intro h; cases h) (fun _ h => hrun.trans (Option.some.inj h))
        (fun h => by cases h) ?_
      exact fun _ => hs.unmonitored (Or.inl hrun)
  | @setsExit _ _ p i w hc hw =>
      have hrun := hs.running_at hc rfl
      have hput := hs.put hw { w with flags.shouldExit := true } rfl
        (hs.handle w (List.mem_of_getElem? hw)) id fun h => ⟨h, rfl⟩
      refine hput.goto s.sh _ (fun _ => rfl) (fun j v hj => hput.joining j v ?_)
        (fun _ _ _ h => absurd h (Nat.not_lt_zero _)) (fun h => by cases h)
        (by rw [State.put, hc]; rfl) (fun _ h => hrun.trans (Option.some.inj h))
        (fun h => by cases h) fun _ => hs.unmonitored (Or.inl hrun)
      rw [State.put, hc]
      exact hj
  | joined hc hw hended => exact hs.join hc hw hended
  | cleared hc hi =>
      have hrun := hs.running_at hc rfl
      exact Wired.of_empty rfl rfl (hs.monitor_not_pushing (Or.inl hrun))
        (fun _ h => hrun.trans (Option.some.inj h)) hs.monitor
        (fun _ => hs.unmonitored (Or.inl hrun)) hs.nodes
  | resetCount hc =>
      have hrun := hs.running_at hc rfl
      refine hs.goto _ _ (fun _ => rfl) (fun _ _ h => by cases h)
        (fun _ _ _ h => absurd h (Nat.not_lt_zero _)) (fun _ => hs.emptied (by rw [hc]; rfl))
        (by rw [hc]; rfl) (fun _ h => hrun.trans (Option.some.inj h)) (fun h => by cases h) ?_
      exact fun _ => hs.unmonitored (Or.inl hrun)
  | @clearTasks _ _ p n nd hc hnd =>
      have hrun := hs.running_at hc rfl
      have hgoto := hs.goto s.sh (.stop p (.tasks (n + 1))) (fun _ => rfl)
        (fun _ _ h => by cases h)
        (fun _ _ _ h => absurd h (Nat.not_lt_zero _)) (fun _ => hs.emptied (by rw [hc]; rfl))
        (by rw [hc]; rfl) (fun _ h => hrun.trans (Option.some.inj h)) (fun h => by cases h)
        (fun _ => hs.unmonitored (Or.inl hrun))
      exact hgoto.frame rfl rfl rfl rfl rfl (List.length_set ..)
  | monitorHop hm hhop =>
      exact hs.monitorStep hm _ hhop.same.1 id hhop.same.2
  | expandSpawns hm hpc => exact hs.expandSpawns hm hpc
  | expandPushes hm hpc => exact hs.expandPushes hm hpc
  | @marks _ _ m _ _ _ _ _ w hm hpc hw =>
      have hput := hs.put hw { w with flags.shouldExit := true } rfl
        (hs.handle w (List.mem_of_getElem? hw)) id fun h => ⟨h, rfl⟩
      exact hput.monitorStep hm _ (by rw [hpc]; simp) id (by rw [hpc]; rfl)
  | @shrinkNotifies _ _ m n hm hpc =>
      exact (hs.notifyAll n).monitorStep hm _ (by rw [hpc]; simp) id (by rw [hpc]; rfl)
  | @monitorEnds _ _ m hm hpc =>
      exact hs.monitorStep hm _ (by rw [hpc]; simp) (fun h => h.threadEntry)
        (by rw [hpc]; rfl)

/-- When `workers_.clear()` is through, every thread has ended. -/
theorem Wired.ended_of_clear {cfg : Config} {s : State} {p : ShutdownPolicy} {i : Nat}
    (hs : Wired cfg s) (hc : s.control = .stop p (.clear i)) (hi : s.slot i = none) :
    ∀ w ∈ s.workers, w.native.pc.isEnded = true := by
  intro w hw
  obtain ⟨j, hj⟩ := List.mem_iff_getElem?.mp hw
  have hpushed := hs.pushed
  rw [hs.pending_of_control (Or.inl (hs.running_at hc rfl)), hc] at hpushed
  have hlen : s.workers.length = s.pushed := hpushed
  have hlt := (List.getElem?_eq_some_iff.mp hj).1
  refine hs.cleared j w hj ?_
  rw [hc]
  refine Nat.lt_of_not_le fun hle => ?_
  have hij : i ≤ j := hle
  rw [State.slot, if_pos (by omega), List.getElem?_eq_none_iff] at hi
  omega

theorem Move.running_cases {cfg : Config} {s s' : State} {a : Action} (hs : Wired cfg s)
    (h : Move cfg s a s') (hrun : s'.sh.running = true) :
    s.sh.running = true ∨ s'.workers = [] := by
  cases h with
  | loops _ _ hstep => exact Or.inl (hstep.running_eq.symm.trans hrun)
  | storeRunning hc =>
      exact Or.inr (hs.resting (by rw [hc]; rfl) (hs.running_at hc rfl))
  | clearRunning => cases hrun
  | _ => exact Or.inl hrun

/-! ## Whose step it was -/

theorem workerGoto_elsewhere (s : State) {i j : Nat} (hij : i ≠ j) (pc : WorkerPc) :
    (s.workerGoto i pc).workers[j]? = s.workers[j]? := by
  rw [State.workerGoto, List.getElem?_modify_ne _ _ hij]

theorem slot_ne {s : State} {i j : Nat} {v w : Worker} (hv : s.workers[i]? = some v)
    (hw : s.workers[j]? = some w) (hpc : w.native.pc ≠ v.native.pc) : i ≠ j := by
  rintro rfl
  rw [hv, Option.some.injEq] at hw
  exact hpc (by rw [hw])

theorem workerStep_elsewhere {cfg : Config} {s s' : State} {i j : Nat} {throws : Bool}
    (hwired : Wired cfg s) (hij : i ≠ j) (hstep : workerStep cfg s i throws = some s') :
    s'.workers[j]? = s.workers[j]? := by
  unfold workerStep at hstep
  split at hstep
  · cases hstep
  · next w hw =>
      have hindex := hwired.index i w hw
      split at hstep
      · split at hstep
        · rw [Option.some.injEq] at hstep
          rw [← hstep, workerGoto_elsewhere _ hij]
        · cases hstep
      · split at hstep
        · cases hstep
        · split at hstep
          · rw [Option.some.injEq] at hstep
            rw [← hstep, workerGoto_elsewhere _ hij]
          · rw [Option.some.injEq] at hstep
            rw [← hstep, List.getElem?_modify_ne _ _ hij]
      · split at hstep
        · cases hstep
        · rw [Option.some.injEq] at hstep
          rw [← hstep, workerGoto_elsewhere _ hij, State.setFlags, hindex,
            List.getElem?_modify_ne _ _ hij]
      · rw [Option.some.injEq] at hstep
        rw [← hstep, List.getElem?_modify_ne _ _ hij]
      · cases hstep
      · unfold boundStep at hstep
        split at hstep
        · split at hstep
          · cases hstep
          · rw [Option.some.injEq] at hstep
            rw [← hstep, workerGoto_elsewhere _ hij, State.setFlags, State.setNode, hindex,
              List.getElem?_modify_ne _ _ hij]
        · cases hstep

theorem action_of_moved {cfg : Config} {s s' : State} {a : Action} {j : Nat}
    {w : Worker} (hwired : Wired cfg s) (ha : a.isWorker = true)
    (hw : s.workers[j]? = some w) (hbind : w.native.pc ≠ .bind)
    (hblocked : w.native.pc ≠ .blocked false) (hstep : step cfg s a = some s')
    (hmoved : s'.workers[j]? ≠ some w) :
    ∃ throws, a = .worker j throws := by
  cases a with
  | worker i throws =>
      by_cases hij : i = j
      · exact ⟨throws, by rw [hij]⟩
      · rw [workerStep_elsewhere hwired hij hstep] at hmoved
        exact absurd hw hmoved
  | bind i os =>
      exfalso
      simp only [step, bindStep] at hstep
      split at hstep
      · cases hstep
      · next v hv =>
          split at hstep
          · next hpc =>
              have hij : i ≠ j := slot_ne hv hw (by rw [hpc]; exact hbind)
              split at hstep
              · cases hstep
              · split at hstep
                · rw [Option.some.injEq] at hstep
                  rw [← hstep, workerGoto_elsewhere _ hij] at hmoved
                  exact hmoved hw
                · rw [Option.some.injEq] at hstep
                  rw [← hstep, workerGoto_elsewhere _ hij] at hmoved
                  exact hmoved hw
          · cases hstep
  | spurious i =>
      exfalso
      simp only [step, spuriousStep] at hstep
      split at hstep
      · cases hstep
      · next v hv =>
          split at hstep
          · next hpc =>
              have hij : i ≠ j := slot_ne hv hw (by rw [hpc]; exact hblocked)
              rw [Option.some.injEq] at hstep
              rw [← hstep, workerGoto_elsewhere _ hij] at hmoved
              exact hmoved hw
          · cases hstep
  | _ => cases ha

theorem action_of_hop {cfg : Config} {s : State} {a : Action} {j : Nat} {w w' : Worker}
    (hwired : Wired cfg s) (ha : a.isWorker = true) (hw : s.workers[j]? = some w)
    (hbind : w.native.pc ≠ .bind) (hblocked : w.native.pc ≠ .blocked false)
    (hstep : step cfg s a = some (s.put j w')) (hmoved : w'.native.pc ≠ w.native.pc) :
    ∃ throws, a = .worker j throws := by
  refine action_of_moved hwired ha hw hbind hblocked hstep fun h => ?_
  rw [getElem?_put hw, Option.some.injEq] at h
  exact hmoved (by rw [h])

theorem workerStep_gives_up {cfg : Config} {s s' : State} {j : Nat} {throws : Bool}
    {w : Worker} (hwired : Wired cfg s) (hw : s.workers[j]? = some w)
    (hpc : w.native.pc = .unbound ∨ w.native.pc = .readNode ∧
      (w.numaNode < 0 ∨ w.numaNode ≥ cfg.numaNodeCount))
    (hstep : step cfg s (.worker j throws) = some s') :
    ∃ w', s'.workers = s.workers.set j w' ∧ w'.native.pc = .entry false := by
  have hindex := hwired.index j w hw
  rcases hpc with hpc | ⟨hpc, hrange⟩
  · simp only [step, workerStep, hw, hpc, hindex] at hstep
    split at hstep
    · cases hstep
    · rw [Option.some.injEq, setFlags_workerGoto_eq hw] at hstep
      exact ⟨_, by rw [← hstep]; rfl, rfl⟩
  · simp only [step, workerStep, hw, hpc, hindex] at hstep
    split at hstep
    · cases hstep
    · next slot hslot =>
        have hself := (getElem?_of_slot hslot).2
        rw [hw, Option.some.injEq] at hself
        rw [← hself, if_pos hrange, Option.some.injEq, workerGoto_eq hw] at hstep
        exact ⟨_, by rw [← hstep]; rfl, rfl⟩

/-! ## All runs -/

theorem wired_of_reachable {cfg : Config} {s : State} (hr : (pool cfg).Reachable s) :
    Wired cfg s :=
  hr.invariant
    (Wired.of_empty rfl rfl rfl (fun _ h => by cases h) (fun _ h => by cases h)
      (fun _ _ h => by cases h) List.length_replicate)
    fun _ _ _ _ hs hstep => (step_cases hs hstep).wired hs

/-- What a step of the pool is. -/
theorem move_of_step {cfg : Config} {s s' : State} {a : Action}
    (hr : (pool cfg).Reachable s) (hstep : (pool cfg).step s a = some s') :
    Move cfg s a s' := step_cases (wired_of_reachable hr) hstep

end ThreadPool.Numa
