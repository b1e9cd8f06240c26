import ThreadPool.Normal.Dequeues
import ThreadPool.Numa.Dequeues

/-!
# How many tasks are dequeued after the flag

`Stop` stores `running_ = false` long before it joins, and workers go on in
the meantime. Both pools bound what they do: a worker comes back to the loop
condition after each task, and finds the flag down. `NormalThreadPool` tests
it nowhere else, so a worker in its wait may still pop; `NumaThreadPool` tests
it again behind the wait. The bound is the same.
-/

namespace ThreadPool

open Interleave Machine

/-- From any moment at which `running_` is false to the next store of true,
in either pool: each thread dequeues one task at most, all of them no more
than `workers_.size()`, and none if `Stop` has come to clear the queues. -/
theorem dequeues_bounded (cfg : Normal.Config) (numaCfg : Numa.Config) :
    (∀ s s', (Normal.pool cfg).Reachable s → s.sh.running = false →
      (Normal.pool cfg).LeadsWhen Normal.Halted s s' →
      (∀ self, s'.dequeues (· = self) ≤ s.dequeues (· = self) + 1) ∧
        s'.dequeues (fun _ => true) ≤ s.dequeues (fun _ => true) + s.workers.length ∧
        ∀ p, s.control = .stop p .tasks →
          s'.dequeues (fun _ => true) ≤ s.dequeues (fun _ => true)) ∧
    ∀ s s', (Numa.pool numaCfg).Reachable s → s.sh.running = false →
      (Numa.pool numaCfg).LeadsWhen Numa.Halted s s' →
      (∀ self, s'.dequeues (· = self) ≤ s.dequeues (· = self) + 1) ∧
        s'.dequeues (fun _ => true) ≤ s.dequeues (fun _ => true) + s.pushed ∧
        ∀ p n, s.control = .stop p (.tasks n) →
          s'.dequeues (fun _ => true) ≤ s.dequeues (fun _ => true) := by
  constructor
  · intro s s' hr _ hrun
    exact Normal.dequeues_halted hr hrun
  · intro s s' hr hhalted hrun
    exact Numa.dequeues_halted hr hhalted hrun

/-- Two tasks are queued. The flag falls while the only worker has passed its
last test: it takes one of them, and leaves the other. -/
theorem dequeues_bounded_run :
    (∃ s s' : Normal.State, s.sh.running = false ∧ s.dequeues (fun _ => true) = 0 ∧
      s'.dequeues (fun _ => true) = 1 ∧ s'.sh.tasks.length = 1 ∧
      s'.dequeues (fun _ => true) ≤ s.dequeues (fun _ => true) + s.workers.length) ∧
    ∃ s s' : Numa.State, s.sh.running = false ∧ s.dequeues (fun _ => true) = 0 ∧
      s'.dequeues (fun _ => true) = 1 ∧
      s'.dequeues (fun _ => true) ≤ s.dequeues (fun _ => true) + s.pushed := by
  constructor
  · obtain ⟨s, hr, hhalted, hnone, hnext⟩ := exists_of_run (Normal.pool (.ofHardware 1))
      (Normal.starting 2 ++ Normal.enqueuing 0 true ++ Normal.enqueuing 1 true ++
        Normal.works 0 7 ++ Normal.stopping .immediate ++ Normal.controls 1)
      (fun s => s.sh.running = false ∧ s.dequeues (fun _ => true) = 0 ∧
        ((Normal.pool (.ofHardware 1)).runWhen Normal.Halted s (Normal.works 0 11)).any
          (fun s' => s'.dequeues (fun _ => true) = 1 ∧ s'.sh.tasks.length = 1) = true)
      (by decide +kernel)
    obtain ⟨s', hrun, hone, hleft⟩ := exists_leads_of_runWhen _ _ _ hnext
    exact ⟨s, s', hhalted, hnone, hone, hleft,
      ((dequeues_bounded _ (.ofHardware 1 1)).1 s s' hr hhalted hrun).2.1⟩
  · obtain ⟨s, hr, hhalted, hnone, hnext⟩ := exists_of_run (Numa.pool (.ofHardware 1 1))
      (.start :: Numa.controls 8 ++ Numa.enqueuing 0 0 true ++ Numa.enqueuing 1 0 true ++
        Numa.entering 0 ++ Numa.works 0 9 ++ Numa.stopping .immediate ++ Numa.controls 1)
      (fun s => s.sh.running = false ∧ s.dequeues (fun _ => true) = 0 ∧
        ((Numa.pool (.ofHardware 1 1)).runWhen Numa.Halted s (Numa.works 0 8)).any
          (fun s' => s'.dequeues (fun _ => true) = 1) = true)
      (by decide +kernel)
    obtain ⟨s', hrun, hone⟩ := exists_leads_of_runWhen _ _ _ hnext
    exact ⟨s, s', hhalted, hnone, hone,
      ((dequeues_bounded (.ofHardware 1) _).2 s s' hr hhalted hrun).2.1⟩

end ThreadPool
