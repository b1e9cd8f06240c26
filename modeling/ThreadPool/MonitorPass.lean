import ThreadPool.Normal.MonitorPass
import ThreadPool.Numa.MonitorPass

/-!
# What the monitor is woken for

`AdjustCheckInterval` and the predicate of the wait want the monitor to come
round soon when the queue is long. But the predicate does not ask whether the
pass can do anything about it. Where it cannot, the predicate holds again
when the pass is over, the wait does not block, and the next pass is like the
last.
-/

namespace ThreadPool

open Interleave Machine

/-- From any state in which the monitor of a running pool waits and the
predicate holds, the next pass makes a worker exactly where it finds room for
one, and the first creation succeeds. -/
theorem monitor_wakes_for_work (cfg : Normal.Config) (numaCfg : Numa.Config) (made : Bool) :
    (∀ s t m creates waitFails, s.monitorThread = some m → m.pc = .waitFor →
      s.sh.running = true → s.sh.monitoring = true → s.wakes = true →
      (Normal.pool cfg).step s (.monitor creates waitFails) = some t →
      (∀ s', (Normal.pool cfg).LeadsWhen (Normal.Passing made) t s' → s'.passed = true →
        (s.nextHandle < s'.nextHandle ↔
          (0 < s.sh.validThreadCount ∧ s.sh.validThreadCount < cfg.maxThreads ∧
            Normal.expandable cfg s.workers = true) ∧ made = true)) ∧
      (s.globalMutexFree = true → s.control.holdsWorkerMutex = false →
        ∃ s', (Normal.pool cfg).LeadsWhen (Normal.Passing made) t s' ∧ s'.passed = true)) ∧
    ∀ s t m creates waitFails, s.monitorThread = some m → m.pc = .waitFor →
      s.sh.running = true → s.sh.monitoring = true → s.wakes = true →
      (Numa.pool numaCfg).step s (.monitor creates waitFails) = some t →
      (∀ s', (Numa.pool numaCfg).LeadsWhen (Numa.Passing made s.nextHandle) t s' →
        s'.passed = true →
        (s.nextHandle < s'.nextHandle ↔ Numa.Growable numaCfg s.nodes ∧ made = true)) ∧
      (numaCfg.numaNodeCount ≤ s.nodes.length →
        (∀ w ∈ s.workers, w.native.pc ≠ .window) → s.control.holdsGlobalMutex = false →
        ∃ s', (Numa.pool numaCfg).LeadsWhen (Numa.Passing made s.nextHandle) t s' ∧
          (s'.passed = true ∨ s.nextHandle < s'.nextHandle)) := by
  constructor
  · intro s t m creates waitFails hm hpc hrunning hmonitoring hwakes hwake
    exact Normal.monitor_pass hm hpc hrunning hmonitoring hwakes hwake made
  · intro s t m creates waitFails hm hpc hrunning hmonitoring hwakes hwake
    exact Numa.monitor_pass hm hpc hrunning hmonitoring hwakes hwake made

/-- At the cap: there are as many workers as there may be, and more than five
tasks for each. -/
theorem monitor_spins :
    (¬∀ cfg s t m creates waitFails, (Normal.pool cfg).Reachable s → s.monitorThread = some m →
      m.pc = .waitFor → s.sh.running = true → s.sh.monitoring = true → s.wakes = true →
      (Normal.pool cfg).step s (.monitor creates waitFails) = some t →
      ∀ s', (Normal.pool cfg).LeadsWhen (Normal.Passing true) t s' → s'.passed = true →
        s.nextHandle < s'.nextHandle) ∧
    ¬∀ cfg s t m creates waitFails, (Numa.pool cfg).Reachable s → s.monitorThread = some m →
      m.pc = .waitFor → s.sh.running = true → s.sh.monitoring = true → s.wakes = true →
      (Numa.pool cfg).step s (.monitor creates waitFails) = some t →
      ∀ s', (Numa.pool cfg).LeadsWhen (Numa.Passing true s.nextHandle) t s' →
        s'.passed = true → s.nextHandle < s'.nextHandle := by
  constructor
  · intro hall
    obtain ⟨s, hr, hpc, hrunning, hmonitoring, hwakes, hhandle, hnext⟩ :=
      exists_of_run (Normal.pool (.ofHardware 1))
        (Normal.starting 2 ++ (List.range 11).flatMap (fun k => Normal.enqueuing k true) ++
          Normal.works 0 3 ++ Normal.monitors 8 ++ Normal.works 1 3)
        (fun s => s.monitorThread.map Normal.Monitor.pc = some .waitFor ∧
          s.sh.running = true ∧ s.sh.monitoring = true ∧ s.wakes = true ∧ s.nextHandle = 3 ∧
          ((Normal.pool (.ofHardware 1)).step s (.monitor { avail := 1 } false)).any (fun t =>
            ((Normal.pool (.ofHardware 1)).runWhen (Normal.Passing true) t
              (Normal.monitors 12)).any (fun s' => s'.passed = true ∧ s'.nextHandle = 3)) = true)
        (by decide +kernel)
    obtain ⟨m, hm, hpc⟩ := Option.map_eq_some_iff.mp hpc
    obtain ⟨t, hwake, hpass⟩ := (Option.any_eq_true _ _).mp hnext
    obtain ⟨s', hrun, hover, hsame⟩ := exists_leads_of_runWhen _ _ _ hpass
    have hlt := hall _ s t m _ _ hr hm hpc hrunning hmonitoring hwakes hwake s' hrun hover
    omega
  · intro hall
    obtain ⟨s, hr, hpc, hrunning, hmonitoring, hwakes, hhandle, hnext⟩ :=
      exists_of_run (Numa.pool (.ofHardware 1 1))
        (.start :: Numa.controls 8 ++
          (List.range 11).flatMap (fun k => Numa.enqueuing k 0 true) ++ Numa.monitors 11 ++
          Numa.entering 0 ++ Numa.works 0 2 ++ Numa.entering 1 ++ Numa.works 1 2)
        (fun s => s.monitorThread.map Numa.Monitor.pc = some .waitFor ∧
          s.sh.running = true ∧ s.sh.monitoring = true ∧ s.wakes = true ∧ s.nextHandle = 3 ∧
          ((Numa.pool (.ofHardware 1 1)).step s (.monitor { avail := 1 } false)).any (fun t =>
            ((Numa.pool (.ofHardware 1 1)).runWhen (Numa.Passing true 3) t
              (Numa.monitors 6)).any (fun s' => s'.passed = true ∧ s'.nextHandle = 3)) = true)
        (by decide +kernel)
    obtain ⟨m, hm, hpc⟩ := Option.map_eq_some_iff.mp hpc
    obtain ⟨t, hwake, hpass⟩ := (Option.any_eq_true _ _).mp hnext
    obtain ⟨s', hrun, hover, hsame⟩ := exists_leads_of_runWhen _ _ _ hpass
    rw [← hhandle] at hrun
    have hlt := hall _ s t m _ _ hr hm hpc hrunning hmonitoring hwakes hwake s' hrun hover
    omega

/-- Six tasks for one worker, in each of the pools: the pass adds another. -/
theorem monitor_wakes_for_work_run :
    (∃ s s' : Normal.State, s.wakes = true ∧ s'.passed = true ∧
      s.nextHandle < s'.nextHandle) ∧
    ∃ s s' : Numa.State, s.wakes = true ∧ s'.passed = true ∧ s.nextHandle < s'.nextHandle := by
  constructor
  · obtain ⟨s, hr, hpc, hrunning, hmonitoring, hwakes, hroom, hnext⟩ :=
      exists_of_run (Normal.pool (.ofHardware 1))
        (Normal.starting 2 ++ Normal.works 0 3 ++ Normal.monitors 6 ++
          (List.range 6).flatMap (fun k => Normal.enqueuing k true))
        (fun s => s.monitorThread.map Normal.Monitor.pc = some .waitFor ∧
          s.sh.running = true ∧ s.sh.monitoring = true ∧ s.wakes = true ∧
          (s.sh.validThreadCount = 1 ∧ Normal.expandable (.ofHardware 1) s.workers = true) ∧
          ((Normal.pool (.ofHardware 1)).step s (.monitor { avail := 1 } false)).any (fun t =>
            ((Normal.pool (.ofHardware 1)).runWhen (Normal.Passing true) t
              (Normal.monitors 7)).any (fun s' => s'.passed = true)) = true)
        (by decide +kernel)
    obtain ⟨m, hm, hpc⟩ := Option.map_eq_some_iff.mp hpc
    obtain ⟨t, hwake, hpass⟩ := (Option.any_eq_true _ _).mp hnext
    obtain ⟨s', hrun, hover⟩ := exists_leads_of_runWhen _ _ _ hpass
    have hiff := ((monitor_wakes_for_work _ (.ofHardware 1 1) true).1 s t m _ _ hm hpc hrunning
      hmonitoring hwakes hwake).1 s' hrun hover
    rw [hroom.1] at hiff
    exact ⟨s, s', hwakes, hover, hiff.mpr ⟨⟨Nat.one_pos, by decide, hroom.2⟩, rfl⟩⟩
  · obtain ⟨s, hr, hpc, hrunning, hmonitoring, hwakes, hnodes, hnext⟩ :=
      exists_of_run (Numa.pool (.ofHardware 1 1))
        (.start :: Numa.controls 8 ++ Numa.entering 0 ++ Numa.works 0 2 ++ Numa.monitors 8 ++
          (List.range 6).flatMap (fun k => Numa.enqueuing k 0 true))
        (fun s => s.monitorThread.map Numa.Monitor.pc = some .waitFor ∧
          s.sh.running = true ∧ s.sh.monitoring = true ∧ s.wakes = true ∧
          (s.nodes.map (fun nd => (nd.threadCount, nd.tasks.length)) = [(1, 6)] ∧
            s.nextHandle = 2) ∧
          ((Numa.pool (.ofHardware 1 1)).step s (.monitor { avail := 1 } false)).any (fun t =>
            ((Numa.pool (.ofHardware 1 1)).runWhen (Numa.Passing true 2) t
              (Numa.monitors 9)).any (fun s' => s'.passed = true)) = true)
        (by decide +kernel)
    obtain ⟨m, hm, hpc⟩ := Option.map_eq_some_iff.mp hpc
    obtain ⟨t, hwake, hpass⟩ := (Option.any_eq_true _ _).mp hnext
    obtain ⟨s', hrun, hover⟩ := exists_leads_of_runWhen _ _ _ hpass
    rw [← hnodes.2] at hrun
    obtain ⟨nd, hnds, hnd⟩ := List.map_eq_singleton_iff.mp hnodes.1
    obtain ⟨hcount, hlen⟩ := Prod.mk.inj hnd
    have hgrow : nd.Growable (.ofHardware 1 1) :=
      ⟨by rw [hcount, hlen]; decide, by rw [hcount]; decide, by rw [hcount]; decide⟩
    exact ⟨s, s', hwakes, hover, (((monitor_wakes_for_work (.ofHardware 1) _ true).2 s t m _ _ hm
      hpc hrunning hmonitoring hwakes hwake).1 s' hrun hover).mpr
      ⟨⟨0, by decide, nd, by rw [hnds]; rfl, hgrow⟩, rfl⟩⟩

end ThreadPool
