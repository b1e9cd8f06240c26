import ThreadPool.Normal.Shutdown
import ThreadPool.Numa.Shutdown

/-!
# `Stop` and the mutex it joins under

Both pools join their workers while they hold the mutex a worker registers
under: `worker_mutex_` in `NormalThreadPool`, `global_mutex_` in
`NumaThreadPool`. Whether that closes a cycle depends on one moment alone,
the one in which `Stop` takes the mutex. If every worker has been through
its registration by then, nobody will ask for the mutex that `Stop` waits
for. If somebody has not, `Stop` keeps the mutex for good.
-/

namespace ThreadPool

open Interleave Machine

/-- Neither pool deadlocks itself in the runs whose `Stop`s take the mutex
after every registration; and a `Stop` that takes it before one never gives
it back. -/
theorem stop_not_deadlocked (cfg : Normal.Config) (numaCfg : Numa.Config) :
    ((∀ s, (Normal.pool cfg).ReachableWhen Normal.LockRegistered s →
        ¬Normal.Deadlocked s) ∧
      ∀ s a s' s'', (Normal.pool cfg).Reachable s → ¬Normal.LockRegistered s a →
        (Normal.pool cfg).step s a = some s' → (Normal.pool cfg).Leads s' s'' →
        s''.control.holdsWorkerMutex = true) ∧
    (∀ s, (Numa.pool numaCfg).ReachableWhen Numa.LockRegistered s →
        ¬Numa.Deadlocked s) ∧
      ∀ s a s' s'', (Numa.pool numaCfg).Reachable s → ¬Numa.LockRegistered s a →
        (Numa.pool numaCfg).step s a = some s' → (Numa.pool numaCfg).Leads s' s'' →
        s''.control.holdsGlobalMutex = true := by
  refine ⟨⟨?_, ?_⟩, ?_, ?_⟩
  · intro s hr
    exact Normal.not_deadlocked hr
  · intro s a s' s'' hr hnot hstep hrun
    exact Normal.jammed_of_lock hr hnot hstep hrun
  · intro s hr
    exact Numa.not_deadlocked hr
  · intro s a s' s'' hr hnot hstep hrun
    exact Numa.jammed_of_lock hr hnot hstep hrun

/-- `Stop` comes before the first step of the workers. The join it waits in
is the explicit one in `NormalThreadPool`; in `NumaThreadPool` the slot is not
valid yet, and it is the one of `~Thread`. -/
theorem stop_deadlocks :
    (¬∀ cfg s, (Normal.pool cfg).Reachable s → ¬Normal.Deadlocked s) ∧
      ¬∀ cfg s, (Numa.pool cfg).Reachable s → ¬Numa.Deadlocked s := by
  constructor
  · intro hall
    obtain ⟨s, hr, hc, hpcs⟩ := exists_of_run (Normal.pool (.ofHardware 1))
      (Normal.starting 2 ++ Normal.stopping .immediate ++ Normal.controls 5)
      (fun s => s.control = .stop .immediate (.joining 0) ∧
        s.workers.map (fun w => w.native.pc) = [.registration])
      (by decide +kernel)
    obtain ⟨w, hw, hpc⟩ := List.map_eq_singleton_iff.mp hpcs
    refine hall _ s hr ⟨by rw [hc]; rfl, _, 0, w, .inl hc, ?_, hpc⟩
    rw [hw]
    rfl
  · intro hall
    obtain ⟨s, hr, hc, hpcs⟩ := exists_of_run (Numa.pool (.ofHardware 2 2))
      (Numa.starting ++ Numa.stopping .immediate ++ Numa.controls 10)
      (fun s => s.control = .stop .immediate (.clearJoining 0) ∧
        s.workers.map (fun w => w.native.pc) = [.registration, .registration])
      (by decide +kernel)
    obtain ⟨w, ws, hw, hpc, -⟩ := List.map_eq_cons_iff.mp hpcs
    refine hall _ s hr ⟨by rw [hc]; rfl, _, 0, w, .inr hc, ?_, hpc⟩
    rw [hw]
    rfl

/-- `Stop` waits for a worker that has registered, in each of the pools. -/
theorem stop_not_deadlocked_run :
    (∃ s : Normal.State, s.control = .stop .immediate (.joining 0) ∧
      ¬Normal.Deadlocked s) ∧
    ∃ s : Numa.State, s.control = .stop .immediate (.joining 0) ∧
      ¬Numa.Deadlocked s := by
  constructor
  · obtain ⟨s, hr, hc⟩ := exists_of_runWhen (Normal.pool (.ofHardware 1))
      Normal.LockRegistered
      (Normal.starting 2 ++ Normal.works 0 1 ++ Normal.stopping .immediate ++
        Normal.controls 5)
      (fun s => s.control = .stop .immediate (.joining 0))
      (by decide +kernel)
    exact ⟨s, hc, (stop_not_deadlocked _ (.ofHardware 2 2)).1.1 s hr⟩
  · obtain ⟨s, hr, hc⟩ := exists_of_runWhen (Numa.pool (.ofHardware 2 2))
      Numa.LockRegistered
      (Numa.starting ++ (Numa.entering 0 ++ Numa.works 0 1) ++ Numa.works 1 1 ++
        Numa.stopping .immediate ++ Numa.controls 8)
      (fun s => s.control = .stop .immediate (.joining 0))
      (by decide +kernel)
    exact ⟨s, hc, (stop_not_deadlocked (.ofHardware 1) _).2.1 s hr⟩

end ThreadPool
