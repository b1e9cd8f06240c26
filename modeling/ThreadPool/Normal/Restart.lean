import ThreadPool.Normal.Slots
import ThreadPool.Normal.Conservation

/-!
# What `Stop` leaves behind

`Stop` overwrites `valid_thread_count_` with zero, and every worker that
leaves its loop takes one from it. A decrement after the reset would wrap
the counter. None comes: a thread decrements before it ends, `Stop` resets
after it has joined every thread, and no thread that is not over is ever
lost from the vector (`Move.threads`). That holds however the threads came
to their end, by an exception of a task or, for the monitor, of `ExpandThreads`
or of its own timed wait.
-/

namespace ThreadPool.Normal

open Interleave Machine

/-! ## The monitor -/

/-- `Stop` has stored `monitoring_ = false`. -/
def Control.unmonitoring : Control → Bool
  | .stop _ .test | .stop _ .monitoring => false
  | .stop _ _ => true
  | _ => false

/-- Once `Stop` has stored the flag, it stays. -/
def Unmonitoring (s : State) : Prop := s.control.unmonitoring = true → s.sh.monitoring = false

theorem LoopStep.monitoring_eq {sh sh' : Shared} {free throws : Bool} {self : Nat}
    {pc pc' : WorkerPc} {fl fl' : Flags}
    (h : LoopStep sh free self throws pc fl sh' pc' fl') :
    sh'.monitoring = sh.monitoring := by
  cases h <;> rfl

theorem Hop.unmonitoring {s : State} {c c' : Control} (h : Hop s c c')
    (hc : c'.unmonitoring = true) : c.unmonitoring = true := by
  cases h <;> first | rfl | cases hc

theorem Move.unmonitoring {cfg : Config} {s s' : State} {a : Action}
    (hs : Unmonitoring s) (h : Move cfg s a s') : Unmonitoring s' := by
  intro hc
  cases h with
  | loops _ hstep => exact hstep.monitoring_eq.trans (hs hc)
  | hop hhop => exact hs (hhop.unmonitoring hc)
  | clearMonitoring => rfl
  | joinsMonitor hold | clearRunning hold | notifiesAll hold | joined hold
  | destroyJoined hold | cleared hold | resetCount hold =>
      exact hs (by rw [hold]; rfl)
  | _ => first | exact hs hc | cases hc

theorem unmonitoring_of_reachable {cfg : Config} {s : State}
    (hr : (pool cfg).Reachable s) :
    Unmonitoring s :=
  hr.invariant (fun hc => by cases hc) fun _ _ _ hr hs hstep =>
    (move_of_step hr hstep).unmonitoring hs

theorem Move.monitor_kept {cfg : Config} {s s' : State} {a : Action} {m : Monitor}
    (hwired : Wired s) (hm : s.monitorThread = some m) (halive : m.pc ≠ .ended)
    (h : Move cfg s a s') :
    ∃ m', s'.monitorThread = some m' ∧
      m'.property.threadHandle = m.property.threadHandle := by
  have hsame : ∀ m₁, s.monitorThread = some m₁ →
      m₁.property.threadHandle = m.property.threadHandle := fun m₁ hm₁ => by
    rw [hm, Option.some.injEq] at hm₁
    rw [hm₁]
  cases h with
  | startUnmonitored _ hc | starts hc =>
      exact absurd (hwired.unmonitored (Or.inr (by rw [hc]; rfl)) m hm) halive
  | joinsMonitor _ hm' hended =>
      rw [hm, Option.some.injEq] at hm'
      rw [hm'] at halive
      exact absurd hended halive
  | monitorHop hm' | marks hm' | shrinkNotifies hm' | expandThrows hm' | expands _ hm'
  | monitorEnds hm' =>
      have hkept := hsame _ hm'
      exact ⟨_, rfl, hkept⟩
  | _ => exact ⟨m, hm, rfl⟩

/-! ## A pool that is shut -/

/-- No thread of the pool is alive, the flags are down and the counter is
zero. -/
structure Shut (s : State) : Prop where
  workers : s.workers = []
  count : s.sh.validThreadCount = 0
  running : s.sh.running = false
  monitoring : s.sh.monitoring = false
  monitor : ∀ m, s.monitorThread = some m → m.pc = .ended

/-- Between calls, or in a `Stop` that is going to throw. -/
def Control.shut : Control → Bool
  | .idle _ | .stop _ .test => true
  | _ => false

theorem Hop.shut {s : State} {c c' : Control} (h : Hop s c c')
    (hrun : s.sh.running = false) (hc : c.shut = true) : c'.shut = true := by
  cases h with
  | mayStop hrunning =>
      rw [hrun] at hrunning
      cases hrunning
  | _ => first | rfl | cases hc

theorem Move.shut {cfg : Config} {s s' : State} {a : Action} (hs : Shut s)
    (hc : s.control.shut = true) (ha : a ≠ .start) (h : Move cfg s a s') :
    Shut s' ∧ s'.control.shut = true := by
  have hnobody : ∀ (j : Nat) w, s.workers[j]? ≠ some w := by simp [hs.workers]
  have hended := hs.monitor
  cases h with
  | notifies _ _ hw | registers hw | loops hw | ends hw | spurious hw | joined _ hw
  | destroyJoined _ hw | marks _ _ hw | expandThrows _ _ _ hw =>
      exact absurd hw (hnobody _ _)
  | callsStart => exact absurd rfl ha
  | callsStop =>
      exact ⟨⟨hs.workers, hs.count, hs.running, hs.monitoring, hs.monitor⟩, rfl⟩
  | hop hhop =>
      exact ⟨⟨hs.workers, hs.count, hs.running, hs.monitoring, hs.monitor⟩,
        hhop.shut hs.running hc⟩
  | storeRunning h | startFails _ _ h | startUnmonitored _ h | starts h | clearMonitoring h
  | joinsMonitor h | clearRunning h | notifiesAll h | cleared h | resetCount h
  | clearTasks h =>
      rw [h] at hc
      cases hc
  | monitorHop hm hhop => exact absurd (hended _ hm) hhop.not_ended
  | shrinkNotifies hm hpc | expands _ hm hpc | monitorEnds hm hpc =>
      rw [hended _ hm] at hpc
      cases hpc
  | _ => exact ⟨⟨hs.workers, hs.count, hs.running, hs.monitoring, hs.monitor⟩, hc⟩

theorem shut_of_leads {cfg : Config} {s s' : State} (hr : (pool cfg).Reachable s)
    (hs : Shut s) (hc : s.control.shut = true)
    (hrun : (pool cfg).LeadsWhen (fun _ a => a ≠ .start) s s') : Shut s' :=
  (hrun.stable (P := fun s => Shut s ∧ s.control.shut = true) hr ⟨hs, hc⟩
    fun _ _ _ hr hs ha hstep => (move_of_step hr hstep).shut hs.1 hs.2 ha).1

/-- `Stop` shuts the pool. -/
theorem shut_of_returns {cfg : Config} {s s' : State} {p : ShutdownPolicy} {pc : StopPc}
    {a : Action} (hr : (pool cfg).Reachable s) (hc : s.control = .stop p pc)
    (hstep : (pool cfg).step s a = some s') (hret : s'.control = .idle .returned) :
    s'.sh.tasks = [] ∧ Shut s' := by
  obtain ⟨rfl, rfl⟩ := (move_of_step hr hstep).returns hc hret
  have hwired := wired_of_reachable hr
  have hnil : s.workers = [] := hwired.emptied p (Or.inr hc)
  have hstopped : s.sh.running = false := hwired.running_at hc rfl
  have hunmonitored : s.sh.monitoring = false :=
    unmonitoring_of_reachable hr (by rw [hc]; rfl)
  have hzero : s.sh.validThreadCount = 0 := by
    rcases tallied_of_reachable hr with ⟨q, hq⟩ | htally
    · rw [hc] at hq
      cases hq
    · rw [State.census, hnil] at htally
      exact htally
  exact ⟨rfl, hnil, hzero, hstopped, hunmonitored, hwired.unmonitored (Or.inl hstopped)⟩

/-- Where `Stop` returns the pool is as it was constructed: no task, no worker
and no monitor, the flags down and the counter zero, and so it stays until
the next `Start`. The threads that are gone have ended: no step takes one
that is not over out of the pool. -/
theorem stop_resets {cfg : Config} :
    (∀ s p pc a s', (pool cfg).Reachable s → s.control = .stop p pc →
      (pool cfg).step s a = some s' → s'.control = .idle .returned →
      s'.sh.tasks = [] ∧ Shut s' ∧
        ∀ s'', (pool cfg).LeadsWhen (fun _ a => a ≠ .start) s' s'' →
          s''.sh.validThreadCount = s'.sh.validThreadCount) ∧
    ∀ s a s', (pool cfg).Reachable s → (pool cfg).step s a = some s' →
      (∀ w ∈ s.workers, w.native.pc.isEnded = false →
        ∃ w' ∈ s'.workers, w'.native.self = w.native.self) ∧
      ∀ m, s.monitorThread = some m → m.pc ≠ .ended →
        ∃ m', s'.monitorThread = some m' ∧
          m'.property.threadHandle = m.property.threadHandle := by
  refine ⟨?_, ?_⟩
  · intro s p pc a s' hr hc hstep hret
    obtain ⟨htasks, hshut⟩ := shut_of_returns hr hc hstep hret
    refine ⟨htasks, hshut, fun s'' hrun => ?_⟩
    have hstill := shut_of_leads (ReachableWhen.step hr trivial hstep) hshut
      (by rw [hret]; rfl) hrun
    rw [hstill.count, hshut.count]
  · intro s a s' hr hstep
    have hwired := wired_of_reachable hr
    have hmove := move_of_step hr hstep
    refine ⟨fun w hw hover => ?_, fun m hm halive => ?_⟩
    · obtain ⟨j, hj⟩ := List.mem_iff_getElem?.mp hw
      obtain ⟨w', hw', hsame⟩ := (hmove.threads hwired).thread hj hover
      exact ⟨w', List.mem_of_getElem? hw', hsame.self⟩
    · exact hmove.monitor_kept hwired hm halive

/-- The worker died of its task and the monitor of its timed wait; a second task
is queued and the counter stays one until `Stop` resets it. -/
theorem stop_resets_run : ∃ s s' : State, s.sh.tasks = [⟨1, true⟩] ∧
    (pool (.ofHardware 1)).step s (.control {} false) = some s' ∧
      s'.sh.tasks = [] ∧ Shut s' := by
  obtain ⟨s, hr, htasks, hc, hret⟩ := exists_of_run (pool (.ofHardware 1))
    (starting 2 ++ enqueuing 0 true ++ enqueuing 1 true ++ works 0 11 ++
      [.worker 0 true, .worker 0 false] ++ monitors 6 ++
      [.monitor {} true, .monitor {} false, .stop .immediate] ++ controls 15)
    (fun s => s.sh.tasks = [⟨1, true⟩] ∧ s.control = .stop .immediate .tasks ∧
      ((pool (.ofHardware 1)).step s (.control {} false)).map State.control =
        some (.idle .returned))
    (by decide +kernel)
  obtain ⟨s', hstep, hidle⟩ := Option.map_eq_some_iff.mp hret
  have hshut :=
    stop_resets.1 s .immediate .tasks (.control {} false) s' hr hc hstep hidle
  exact ⟨s, s', htasks, hstep, hshut.1, hshut.2.1⟩

end ThreadPool.Normal
