import ThreadPool.Normal.Wakeup

/-!
# A pool without workers

`ExpandThreads` multiplies. From a counter at zero it computes a target of
zero and returns, so a running pool that has lost its last worker, or had
none to begin with, never gets another one, unless the monitor had computed a
need before the counter got there and still waits for `worker_mutex_`. The
monitor goes round and adds nothing, `Enqueue` goes on accepting, and
`Stop(WaitForAll)` waits for a queue that nobody empties.

A pool can be so from the start, on a machine whose hardware concurrency is
reported as zero, and it can come to be so: two passes of `ShrinkThreads`
may mark the two workers there are.
-/

namespace ThreadPool.Normal

open Interleave Relation Machine

/-- Outside `Start` and `Stop`, or in a `Stop(WaitForAll)` that has not got
past its waiting loop. -/
def Control.waiting : Control → Bool
  | .idle _ | .start .test => true
  | .stop .waitForAll pc =>
      match pc with
      | .test | .monitoring | .notifyMonitor | .joinMonitor | .joiningMonitor | .running
      | .notifyAll | .wait => true
      | _ => false
  | _ => false

theorem Control.policy_of_waiting {p : ShutdownPolicy} {pc : StopPc}
    (h : (Control.stop p pc).waiting = true) : p = .waitForAll := by
  cases p with
  | waitForAll => rfl
  | waitForTimeout | immediate => cases h

/-- Every thread is back from `WorkerLoop`, the counter says so, the monitor
has not decided to add any, and tasks are queued. The pool is running, or a
`Stop(WaitForAll)` has cleared the flag and is not past its waiting loop. -/
structure Extinct (s : State) : Prop where
  gone : ∀ w ∈ s.workers, w.live = false
  count : s.sh.validThreadCount = 0
  monitor : ∀ m, s.monitorThread = some m → ∀ need, m.pc ≠ .expandLock need
  control : s.control.waiting = true
  running : s.control.runningIs = none → s.sh.running = true
  queued : s.sh.tasks ≠ []

/-- The steps other than a call of `Stop` that does not wait for all. -/
def Waits (_ : State) (a : Action) : Prop :=
  ∀ p, a = .stop p → p = .waitForAll

instance (s : State) (a : Action) : Decidable (Waits s a) :=
  match a with
  | .stop .waitForAll => isTrue fun _ h => (Action.stop.inj h).symm
  | .stop .waitForTimeout => isFalse fun h => nomatch h _ rfl
  | .stop .immediate => isFalse fun h => nomatch h _ rfl
  | .tick _ | .call _ | .enqueue _ _ | .start | .control _ _ | .worker _ _ | .spurious _
  | .monitor _ _ => isTrue nofun

theorem expandNeed_zero (cfg : Config) : expandNeed cfg 0 = none := by
  unfold expandNeed
  split
  · rfl
  · simp

theorem LoopStep.live {sh sh' : Shared} {free throws : Bool} {w : Worker} {pc' : WorkerPc}
    {fl' : Flags}
    (h : LoopStep sh free w.native.self throws w.native.pc w.flags sh' pc' fl') :
    w.live = true := by
  have hlive := Worker.live.eq_1 w
  generalize w.native.pc = pc at h hlive
  cases h with
  | passes hpc | sleeps hpc => rcases hpc with rfl | rfl <;> exact hlive
  | _ => exact hlive

/-- What a step leaves of an extinct pool: the same, with what was queued
still queued and nothing taken. -/
structure Idles (s s' : State) : Prop where
  extinct : Extinct s'
  tasks : s.sh.tasks <+: s'.sh.tasks
  taken : taken s'.sh.hist = taken s.sh.hist
  workers : s'.workers.length = s.workers.length

theorem Extinct.idles {s s' : State} (hs : Extinct s)
    (hsh : s'.sh.tasks = s.sh.tasks ∧ s'.sh.validThreadCount = s.sh.validThreadCount ∧
      s'.sh.hist = s.sh.hist)
    (hlen : s'.workers.length = s.workers.length)
    (hworkers : ∀ w ∈ s'.workers, w.live = false)
    (hmonitor : ∀ m, s'.monitorThread = some m → ∀ need, m.pc ≠ .expandLock need)
    (hcontrol : s'.control.waiting = true)
    (hrunning : s'.control.runningIs = none → s'.sh.running = true) : Idles s s' := by
  obtain ⟨htasks, hcount, hhist⟩ := hsh
  refine ⟨⟨hworkers, hcount.trans hs.count, hmonitor, hcontrol, hrunning, ?_⟩, ?_, ?_, hlen⟩
  · rw [htasks]
    exact hs.queued
  · exact htasks ▸ List.prefix_rfl
  · rw [hhist]

theorem Extinct.live_false {s : State} (hs : Extinct s) {j : Nat} {w : Worker}
    (hw : s.workers[j]? = some w) (hlive : w.live = true) : False := by
  rw [hs.gone w (List.mem_of_getElem? hw)] at hlive
  cases hlive

/-- The controlling thread, on its own. -/
theorem Extinct.hop {s : State} {c : Control} (hwired : Wired s) (hs : Extinct s)
    (h : Hop s s.control c) :
    c.waiting = true ∧ (c.runningIs = none → s.sh.running = true) := by
  have hcontrol := hs.control
  have hrunning := hs.running
  have hflag := hwired.runFlag
  generalize s.control = c₀ at h hcontrol hrunning hflag
  cases h with
  | alreadyRunning hrun => exact ⟨rfl, fun _ => hrun⟩
  | mayStart hrun | notRunning hrun =>
      rw [hrunning rfl] at hrun
      cases hrun
  | mayStop | notifyMonitor | joinMonitor | noMonitor =>
      obtain rfl := Control.policy_of_waiting hcontrol
      exact ⟨rfl, nofun⟩
  | joinMonitorThrows => exact ⟨rfl, fun _ => hflag true rfl⟩
  | waits => exact ⟨hcontrol, nofun⟩
  | waited hdone => exact absurd (hdone (Control.policy_of_waiting hcontrol)) hs.queued
  | lock | joins | skips | joinsDone | destroys | destroyJoins =>
      obtain rfl := Control.policy_of_waiting hcontrol
      cases hcontrol

theorem Move.idles {cfg : Config} {s s' : State} {a : Action} (hwired : Wired s)
    (hs : Extinct s) (hok : Waits s a) (h : Move cfg s a s') : Idles s s' := by
  have hcontrol := hs.control
  cases h with
  | pushes hc hpc hfree =>
      refine ⟨⟨hs.gone, hs.count, hs.monitor, hs.control, hs.running, ?_⟩,
        List.prefix_append _ _, ?_, rfl⟩
      · simp
      · simp [WorkEvent.taken?]
  | notifies _ _ hw hpc | registers hw hpc | spurious hw hpc =>
      exact (hs.live_false hw (by simp [Worker.live, hpc])).elim
  | loops hw hstep => exact (hs.live_false hw hstep.live).elim
  | ends hw hpc =>
      exact hs.idles ⟨rfl, rfl, rfl⟩ (List.length_set ..)
        (forall_mem_set hs.gone rfl) hs.monitor hs.control hs.running
  | callsStart hc =>
      rw [hc] at hcontrol
      exact hs.idles ⟨rfl, rfl, rfl⟩ rfl hs.gone hs.monitor rfl
        fun _ => hs.running (by rw [hc]; rfl)
  | callsStop p hc =>
      rw [hok p rfl]
      exact hs.idles ⟨rfl, rfl, rfl⟩ rfl hs.gone hs.monitor rfl
        fun _ => hs.running (by rw [hc]; rfl)
  | hop hhop =>
      obtain ⟨hwaiting, hrunning⟩ := hs.hop hwired hhop
      exact hs.idles ⟨rfl, rfl, rfl⟩ rfl hs.gone hs.monitor hwaiting hrunning
  | @clearMonitoring _ _ p hc =>
      rw [hc] at hcontrol
      obtain rfl := Control.policy_of_waiting hcontrol
      exact hs.idles ⟨rfl, rfl, rfl⟩ rfl hs.gone hs.monitor rfl fun h => by cases h
  | @joinsMonitor _ _ p m hc =>
      rw [hc] at hcontrol
      obtain rfl := Control.policy_of_waiting hcontrol
      exact hs.idles ⟨rfl, rfl, rfl⟩ rfl hs.gone (fun m h => by cases h) rfl fun h => by cases h
  | @clearRunning _ _ p hc =>
      rw [hc] at hcontrol
      obtain rfl := Control.policy_of_waiting hcontrol
      exact hs.idles ⟨rfl, rfl, rfl⟩ rfl hs.gone hs.monitor rfl fun h => by cases h
  | @notifiesAll _ _ p hc =>
      rw [hc] at hcontrol
      obtain rfl := Control.policy_of_waiting hcontrol
      refine hs.idles ⟨rfl, rfl, rfl⟩ (length_notifyAll _) ?_ hs.monitor rfl fun h => by cases h
      exact forall_mem_notifyAll hs.gone fun w hw hpc => by
        have hover := hs.gone w hw
        simp [Worker.live, hpc] at hover
  | storeRunning hc | startFails _ _ hc | startUnmonitored _ hc | starts hc =>
      rw [hc] at hcontrol
      cases hcontrol
  | joined hc | destroyJoined hc | cleared hc | resetCount hc | clearTasks hc =>
      rw [hc] at hcontrol
      obtain rfl := Control.policy_of_waiting hcontrol
      cases hcontrol
  | monitorHop hm hhop =>
      refine hs.idles ⟨rfl, rfl, rfl⟩ rfl hs.gone ?_ hs.control hs.running
      rintro m' hm' need hpc
      have hm'' := Option.some.inj hm'
      subst hm''
      have hpc' : _ = MonitorPc.expandLock need := hpc
      subst hpc'
      generalize hpc₀ : Monitor.pc _ = pc₀ at hhop
      cases hhop with
      | expand hneed =>
          rw [hs.count, expandNeed_zero] at hneed
          cases hneed
  | marks hm hpc hw =>
      have hover := hs.gone _ (List.mem_of_getElem? hw)
      refine hs.idles ⟨rfl, rfl, rfl⟩ (List.length_set ..)
        (forall_mem_set hs.gone hover) ?_ hs.control hs.running
      rintro m' hm' need hpc
      rw [← Option.some.inj hm'] at hpc
      cases hpc
  | shrinkNotifies hm hpc =>
      refine hs.idles ⟨rfl, rfl, rfl⟩ (length_notifyAll _) ?_ ?_ hs.control hs.running
      · exact forall_mem_notifyAll hs.gone fun w hw hpc => by
          have hover := hs.gone w hw
          simp [Worker.live, hpc] at hover
      · rintro m' hm' need hpc
        rw [← Option.some.inj hm'] at hpc
        cases hpc
  | expandThrows hm hpc | expands _ hm hpc => exact absurd hpc (hs.monitor _ hm _)
  | monitorEnds hm hpc =>
      refine hs.idles ⟨rfl, rfl, rfl⟩ rfl hs.gone ?_ hs.control hs.running
      rintro m' hm' need hpc
      rw [← Option.some.inj hm'] at hpc
      cases hpc
  | _ => exact hs.idles ⟨rfl, rfl, rfl⟩ rfl hs.gone hs.monitor hs.control hs.running

/-- Two passes of the monitor mark the two workers of a pool for one
processor. Both leave, and then a task is queued. -/
def dyingOut : List Action :=
  growing ++ shrinking ++ enqueuing 7 true ++ works 0 4 ++ monitors 11 ++ works 0 6 ++
    works 1 9 ++ enqueuing 8 true

end ThreadPool.Normal
