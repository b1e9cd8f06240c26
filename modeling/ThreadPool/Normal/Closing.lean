import ThreadPool.Normal.MonitorPass
import ThreadPool.Normal.Progress
import ThreadPool.Normal.Restart
import ThreadPool.Normal.Shutdown

/-!
# `Stop` returns

A `Stop` can fail to return in three ways that the code allows. Its broadcast
can come while a worker is about to block, and the worker sleeps for good
(`BroadcastFree`). It can take `worker_mutex_` before a worker has registered,
and waits for a thread that waits for it (`LockRegistered`). And the waiting
loop of its policy may never end. A task may block besides, and `Stop` joins its
worker. This file says that there is nothing else: in a fair run without the
first two in which every called task ends, a `Stop` that gets past its waiting
loop returns, whatever the callers of `Enqueue` and the monitor do, and
`ShutdownPolicy::Immediate` has no such loop.

`Stop` joins the monitor while the pool still runs, and the monitor takes
`global_mutex_` on its way out. Workers that are woken in vain take that mutex
again and again, so weak fairness is not enough for the monitor. It is enough
for the workers, because one that holds the mutex gives it back in its next
step, and there is never more than one (`Exclusive`).
-/

namespace ThreadPool.Normal

open Interleave Machine

/-! ## `global_mutex_` is given back -/

/-- Holds `global_mutex_`, about to block. -/
def Worker.inWindow (w : Worker) : Bool := w.native.pc = .window

/-- At most one worker stands between a false predicate and blocking. -/
def Exclusive (s : State) : Prop := s.census Worker.inWindow ≤ 1

theorem LoopStep.window {sh sh' : Shared} {free throws : Bool} {self : Nat}
    {pc pc' : WorkerPc} {fl fl' : Flags}
    (h : LoopStep sh free self throws pc fl sh' pc' fl') (hpc' : pc' = .window) :
    free = true := by
  cases h with
  | sleeps _ hfree => exact hfree
  | _ => cases hpc'

theorem Exclusive.of_set {s s' : State} {i : Nat} {v v' : Worker} (hs : Exclusive s)
    (hv : s.workers[i]? = some v) (hworkers : s'.workers = s.workers.set i v')
    (hpc : v'.native.pc = .window → v.native.pc = .window) : Exclusive s' := by
  have hle := countP_set_le (p := Worker.inWindow) (b := v') hv
    (by simpa [Worker.inWindow] using hpc)
  rw [← hworkers] at hle
  exact Nat.le_trans hle hs

theorem Exclusive.of_notifyAll {s s' : State} (hs : Exclusive s)
    (hworkers : s'.workers = notifyAll s.workers) : Exclusive s' := by
  unfold Exclusive State.census
  rw [hworkers, countP_notifyAll fun w hblocked => by
    simp [Worker.inWindow, Worker.goto, hblocked]]
  exact hs

theorem Exclusive.of_append {s s' : State} {n : Nat} (hs : Exclusive s)
    (hworkers : s'.workers = s.workers ++ freshWorkers s.workers.length s.nextHandle n) :
    Exclusive s' := by
  unfold Exclusive State.census
  rw [hworkers, List.countP_append, countP_fresh n fun _ => rfl]
  exact hs

theorem Move.exclusive {cfg : Config} {s s' : State} {a : Action} (hs : Exclusive s)
    (h : Move cfg s a s') : Exclusive s' := by
  cases h with
  | notifies _ _ hw | registers hw | ends hw | spurious hw => exact hs.of_set hw rfl nofun
  | @loops j throws w sh pc fl hw hstep =>
      by_cases hpc : pc = .window
      · have hnone : s.census Worker.inWindow = 0 := by
          refine List.countP_eq_zero.mpr fun v hv => ?_
          have hout := globalMutexFree_iff.mp (hstep.window hpc) v hv
          simpa [Worker.inWindow] using hout
        have hadd : (s.workers.set j ({ w with flags := fl }.goto pc)).countP
            Worker.inWindow + tally Worker.inWindow w =
          s.census Worker.inWindow + tally Worker.inWindow ({ w with flags := fl }.goto pc) :=
            countP_set_add hw
        have hle : tally Worker.inWindow ({ w with flags := fl }.goto pc) ≤ 1 := by
          unfold tally
          split <;> omega
        show (s.workers.set j _).countP Worker.inWindow ≤ 1
        omega
      · exact hs.of_set hw rfl fun h => absurd h hpc
  | joined _ hw | destroyJoined _ hw | marks _ _ hw | expandThrows _ _ _ hw =>
      exact hs.of_set hw rfl id
  | startFails n | expands n => exact hs.of_append rfl
  | startUnmonitored | starts => exact hs.of_append rfl
  | notifiesAll | shrinkNotifies => exact hs.of_notifyAll rfl
  | cleared => exact Nat.zero_le 1
  | _ => exact hs

theorem exclusive_of_reachable {cfg : Config} {s : State} (hr : (pool cfg).Reachable s) :
    Exclusive s :=
  hr.invariant (Nat.zero_le 1) fun _ _ _ hr hs hstep => (move_of_step hr hstep).exclusive hs

theorem Move.frees {cfg : Config} {s s' : State} {a : Action} {j : Nat} {w : Worker}
    (hs : Exclusive s) (hw : s.workers[j]? = some w) (hpc : w.native.pc = .window)
    (hact : a.worker? = some j) (h : Move cfg s a s') : s'.globalMutexFree = true := by
  have hsame : ∀ {i : Nat} {v : Worker}, s.workers[i]? = some v → i = j → v = w := by
    rintro i v hv rfl
    rw [hw, Option.some.injEq] at hv
    exact hv.symm
  cases h with
  | registers hv hpc' | ends hv hpc' =>
      rw [hsame hv (Option.some.inj hact), hpc] at hpc'
      cases hpc'
  | @loops i throws v sh pc fl hv hstep =>
      obtain rfl := Option.some.inj hact
      rw [hsame hv rfl, hpc] at hstep
      have hblocks : pc = .blocked false := by
        cases hstep with
        | blocks => rfl
        | passes hwait | sleeps hwait => rcases hwait with hwait | hwait <;> cases hwait
      refine globalMutexFree_iff.mpr fun u hu hwindow => ?_
      obtain ⟨k, hk⟩ := List.mem_iff_getElem?.mp hu
      rcases getElem?_set_cases hk with ⟨-, rfl⟩ | ⟨hne, hold⟩
      · rw [show _ = pc from rfl, hblocks] at hwindow
        cases hwindow
      · exact hne (eq_of_countP_le_one (p := Worker.inWindow) hs hold hw
          (decide_eq_true hwindow) (decide_eq_true hpc))
  | _ => cases hact

section Liveness

variable {cfg : Config} {ρ : (pool cfg).Run} {n : Nat}

/-- In a fair run `global_mutex_` is free again and again. -/
theorem eventually_free (hworkers : ∀ j, ρ.Fair fun a => a.worker? = some j) :
    ρ.Eventually n fun s => s.globalMutexFree = true := by
  have hhelped : Run.Helped ρ n (fun j a => a.worker? = some j)
      (fun s => s.globalMutexFree = true)
      (fun j s => ∃ w, s.workers[j]? = some w ∧ w.native.pc = .window)
      (fun _ => 0) fun _ _ => 0 := by
    constructor
    · intro m _ hheld
      obtain ⟨w, hw, hpc⟩ : ∃ w ∈ (ρ.state m).workers, w.native.pc = .window := by
        simpa [State.globalMutexFree] using hheld
      obtain ⟨j, hj⟩ := List.mem_iff_getElem?.mp hw
      exact ⟨j, w, hj, hpc⟩
    · refine fun j m hm hstay => hworkers j m fun k hk => ?_
      obtain ⟨-, w, hw, hpc⟩ := hstay k hk
      have hstep := @step_window cfg _ _ _ (wired_of_reachable (ρ.reachable k)) hw hpc
      exact ⟨.worker j false, rfl, Option.isSome_iff_exists.mpr ⟨_, hstep⟩⟩
    · rintro m - - j ⟨w, hw, hpc⟩
      have hr := ρ.reachable m
      have hmove := move_of_step hr (ρ.next m)
      by_cases hact : (ρ.act m).worker? = some j
      · exact Or.inr (Or.inl (hmove.frees (exclusive_of_reachable hr) hw hpc hact))
      · obtain ⟨w', hw', hpc'⟩ := hmove.pc_kept (wired_of_reachable hr) hw hact
          (by rw [hpc]; simp) (by rw [hpc]; rfl)
        exact Or.inr (Or.inr ⟨Nat.le_refl _, ⟨w', hw', hpc'.trans hpc⟩, Nat.le_refl _,
          fun h => absurd h hact⟩)
  exact hhelped.eventually

end Liveness

/-! ## What `Stop` has before it -/

/-- How far `Stop` is from its return, for a vector of at most `n` slots. -/
def StopPc.left (n : Nat) : StopPc → Nat
  | .test => 4 * n + 15
  | .monitoring => 4 * n + 14
  | .notifyMonitor => 4 * n + 13
  | .joinMonitor => 4 * n + 12
  | .joiningMonitor => 4 * n + 11
  | .running => 4 * n + 10
  | .notifyAll => 4 * n + 9
  | .wait => 4 * n + 8
  | .lock => 4 * n + 7
  | .join i => 2 * (n - i) + 2 * n + 6
  | .joining i => 2 * (n - i) + 2 * n + 5
  | .clear i => 2 * (n - i) + 4
  | .clearJoining i => 2 * (n - i) + 3
  | .count => 2
  | .tasks => 1

/-- Past the waiting loop. -/
def StopPc.past : StopPc → Bool
  | .lock | .join _ | .joining _ | .clear _ | .clearJoining _ | .count | .tasks => true
  | _ => false

/-- In a `Stop` that is not going to throw, and whose waiting loop, if it is
still to come, is not one. -/
def Closing (s : State) : Prop :=
  ∃ p pc, s.control = .stop p pc ∧ (pc = .test → s.sh.running = true) ∧
    (p = .immediate ∨ pc.past = true)

/-- The thread that `Stop` waits for is not over. -/
def State.awaits (s : State) : Bool :=
  match s.control with
  | .stop _ .joiningMonitor => s.monitorThread.any fun m => m.pc ≠ .ended
  | .stop _ (.joining i) | .stop _ (.clearJoining i) =>
      s.workers[i]?.any fun w => !w.native.pc.isEnded
  | _ => false

/-- What is left for `Stop`, and one for the thread it waits for. -/
def State.ahead (n : Nat) (s : State) : Nat :=
  match s.control with
  | .stop _ pc => 2 * pc.left n + if s.awaits then 1 else 0
  | _ => 0

theorem ahead_le {n : Nat} {s : State} {p : ShutdownPolicy} {pc : StopPc}
    (hc : s.control = .stop p pc) :
    2 * pc.left n ≤ s.ahead n ∧ s.ahead n ≤ 2 * pc.left n + 1 := by
  rw [State.ahead, hc]
  dsimp only
  split <;> omega

/-- Where `Stop` joins a thread, there is one, and it can be joined. -/
structure Joins (s : State) : Prop where
  monitor : ∀ p, s.control = .stop p .joiningMonitor →
    ∃ m, s.monitorThread = some m ∧ m.property.Started
  slot : ∀ p i, s.control = .stop p (.joining i) ∨ s.control = .stop p (.clearJoining i) →
    i < s.workers.length

theorem Joins.exists_slot {s : State} (hs : Joins s) {p : ShutdownPolicy} {i : Nat}
    (hc : s.control = .stop p (.joining i) ∨ s.control = .stop p (.clearJoining i)) :
    ∃ w, s.workers[i]? = some w :=
  ⟨_, List.getElem?_eq_getElem (hs.slot p i hc)⟩

theorem Joins.frame {s s' : State} (hs : Joins s) (hlen : s.workers.length ≤ s'.workers.length)
    (hmonitor : ∀ m, s.monitorThread = some m → m.property.Started →
      ∃ m', s'.monitorThread = some m' ∧ m'.property.Started)
    (hc : s'.control = s.control) : Joins s' := by
  constructor
  · intro p hp
    obtain ⟨m, hm, hstarted⟩ := hs.monitor p (by rw [← hc, hp])
    exact hmonitor m hm hstarted
  · intro p i hp
    rw [hc] at hp
    exact Nat.lt_of_lt_of_le (hs.slot p i hp) hlen

/-- Not inside a join. -/
def Control.joinless : Control → Bool
  | .stop _ .joiningMonitor | .stop _ (.joining _) | .stop _ (.clearJoining _) => false
  | _ => true

theorem Joins.of_joinless {s : State} (h : s.control.joinless = true) : Joins s := by
  constructor
  · intro p hc
    rw [hc] at h
    cases h
  · rintro p i (hc | hc) <;> rw [hc] at h <;> cases h

theorem joins_of_hop {s : State} {c c' : Control} (hwired : Wired s) (h : Hop s c c') :
    Joins (s.goto c') := by
  cases h with
  | @joinMonitor p m hm hjoin =>
      refine ⟨fun _ _ => ⟨m, hm, (hwired.monitor m hm).resolve_right fun h => ?_⟩, ?_⟩
      · rw [hjoin] at h
        cases h.1
      · rintro q i (hc | hc) <;> cases hc
  | joins hw | destroyJoins hw =>
      refine ⟨nofun, ?_⟩
      rintro q i (hc | hc) <;> cases hc
      exact (List.getElem?_eq_some_iff.mp hw).1
  | _ => exact .of_joinless rfl

theorem Move.joins {cfg : Config} {s s' : State} {a : Action} (hwired : Wired s)
    (hs : Joins s) (h : Move cfg s a s') : Joins s' := by
  have hsame : ∀ {m m' : Monitor}, s.monitorThread = some m → s.monitorThread = some m' →
      m = m' := by
    intro m m' hm hm'
    rw [hm, Option.some.injEq] at hm'
    exact hm'
  cases h with
  | notifies | registers | loops | ends | spurious =>
      exact hs.frame (by simp [State.put]) (fun m hm hst => ⟨m, hm, hst⟩) rfl
  | callsStart | callsStop | storeRunning | startFails | startUnmonitored | starts
  | clearMonitoring | joinsMonitor | clearRunning | notifiesAll | joined | destroyJoined
  | cleared | resetCount | clearTasks => exact .of_joinless rfl
  | hop hhop => exact joins_of_hop hwired hhop
  | monitorHop hm | marks hm | shrinkNotifies hm | expandThrows hm | expands _ hm =>
      exact hs.frame (by simp [State.put, State.monitorGoto, length_notifyAll])
        (fun m hm' hst => ⟨_, rfl, by rw [hsame hm hm']; exact hst⟩) rfl
  | monitorEnds hm =>
      refine hs.frame (Nat.le_refl _) (fun m hm' hst => ⟨_, rfl, ?_⟩) rfl
      rw [hsame hm hm']
      exact hst.threadEntry
  | _ => exact hs.frame (Nat.le_refl _) (fun m hm hst => ⟨m, hm, hst⟩) rfl

theorem joins_of_reachable {cfg : Config} {s : State} (hr : (pool cfg).Reachable s) :
    Joins s :=
  hr.invariant (.of_joinless rfl) fun _ _ _ hr hs hstep =>
    (move_of_step hr hstep).joins (wired_of_reachable hr) hs

theorem stopStep_nearer {n : Nat} {s s' : State} {p : ShutdownPolicy} {pc : StopPc}
    {timedOut : Bool} (hwired : Wired s) (hjoins : Joins s) (hlen : s.workers.length ≤ n)
    (hc : s.control = .stop p pc) (htest : pc = .test → s.sh.running = true)
    (hwait : p = .immediate ∨ pc.past = true) (h : stopStep s p timedOut pc = some s') :
    s'.control = .idle .returned ∨
      ∃ pc', s'.control = .stop p pc' ∧ pc'.left n < pc.left n ∧ pc' ≠ .test ∧
        (p = .immediate ∨ pc'.past = true) := by
  have hslot : ∀ {i : Nat} {w : Worker}, s.workers[i]? = some w → i < n := fun hw =>
    Nat.lt_of_lt_of_le (List.getElem?_eq_some_iff.mp hw).1 hlen
  have himmediate : pc.past = false → p = .immediate := fun hpast =>
    hwait.resolve_right (by rw [hpast]; exact Bool.false_ne_true)
  cases pc with
  | test =>
      simp only [stopStep, htest rfl, if_true, Option.some.injEq] at h
      subst h
      exact Or.inr ⟨_, rfl, by simp [StopPc.left], by simp, Or.inl (himmediate rfl)⟩
  | monitoring | notifyMonitor | running | notifyAll =>
      simp only [stopStep, Option.some.injEq] at h
      subst h
      exact Or.inr ⟨_, rfl, by simp [StopPc.left], by simp, Or.inl (himmediate rfl)⟩
  | joinMonitor =>
      simp only [stopStep, Option.some.injEq] at h
      subst h
      refine Or.inr ⟨_, rfl, ?_, ?_, Or.inl (himmediate rfl)⟩ <;>
        split <;> simp [StopPc.left]
  | joiningMonitor =>
      obtain ⟨m, hm, hstarted⟩ := hjoins.monitor p hc
      simp only [stopStep, hm, hstarted.joinEnter] at h
      split at h
      · rw [Option.some.injEq] at h
        subst h
        exact Or.inr ⟨_, rfl, by simp [StopPc.left], by simp,
          Or.inl (himmediate rfl)⟩
      · cases h
  | wait =>
      have hp := himmediate rfl
      simp only [stopStep, if_pos hp, Option.some.injEq] at h
      subst h
      exact Or.inr ⟨_, rfl, by simp [StopPc.left], by simp, Or.inl hp⟩
  | lock =>
      simp only [stopStep] at h
      split at h
      · rw [Option.some.injEq] at h
        subst h
        exact Or.inr ⟨_, rfl, by simp [StopPc.left]; omega, by simp, Or.inr rfl⟩
      · cases h
  | join i =>
      simp only [stopStep] at h
      split at h
      · rw [Option.some.injEq] at h
        subst h
        exact Or.inr ⟨_, rfl, by simp [StopPc.left]; omega, by simp, Or.inr rfl⟩
      · next w hw =>
          have hi := hslot hw
          rw [Option.some.injEq] at h
          split at h
          · subst h
            exact Or.inr ⟨_, rfl, by simp [StopPc.left], by simp, Or.inr rfl⟩
          · subst h
            exact Or.inr ⟨_, rfl, by simp [StopPc.left]; omega, by simp, Or.inr rfl⟩
  | joining i =>
      simp only [stopStep] at h
      split at h
      · cases h
      · next w hw =>
          have hi := hslot hw
          rw [(hwired.joining p i w hc hw).joinEnter] at h
          dsimp only at h
          split at h
          · rw [Option.some.injEq] at h
            subst h
            exact Or.inr ⟨_, rfl, by simp [StopPc.left]; omega, by simp, Or.inr rfl⟩
          · cases h
  | clear i =>
      simp only [stopStep] at h
      split at h
      · rw [Option.some.injEq] at h
        subst h
        exact Or.inr ⟨_, rfl, by simp [StopPc.left], by simp, Or.inr rfl⟩
      · next w hw =>
          have hi := hslot hw
          split at h
          · rw [Option.some.injEq] at h
            subst h
            exact Or.inr ⟨_, rfl, by simp [StopPc.left]; omega, by simp, Or.inr rfl⟩
          · rw [Option.some.injEq] at h
            subst h
            exact Or.inr ⟨_, rfl, by simp [StopPc.left], by simp, Or.inr rfl⟩
          · cases h
  | clearJoining i =>
      simp only [stopStep] at h
      split at h
      · cases h
      · next w hw =>
          have hi := hslot hw
          split at h
          · rw [Option.some.injEq] at h
            subst h
            exact Or.inr ⟨_, rfl, by simp [StopPc.left]; omega, by simp, Or.inr rfl⟩
          · cases h
  | count =>
      simp only [stopStep, Option.some.injEq] at h
      subst h
      exact Or.inr ⟨_, rfl, by simp [StopPc.left], by simp, Or.inr rfl⟩
  | tasks =>
      simp only [stopStep] at h
      split at h
      · rw [Option.some.injEq] at h
        subst h
        exact Or.inl rfl
      · cases h

theorem exists_stopStep {s : State} {p : ShutdownPolicy} {pc : StopPc} (hwired : Wired s)
    (hjoins : Joins s) (hc : s.control = .stop p pc) (hwait : p = .immediate ∨ pc.past = true)
    (hawaits : s.awaits = false) : ∃ s', stopStep s p false pc = some s' := by
  simp only [State.awaits, hc] at hawaits
  cases pc with
  | joiningMonitor =>
      obtain ⟨m, hm, hstarted⟩ := hjoins.monitor p hc
      have hended : m.pc = .ended := by simpa [hm] using hawaits
      simp [stopStep, hm, hstarted.joinEnter, hended]
  | wait =>
      have himmediate : p = .immediate := hwait.resolve_right Bool.false_ne_true
      simp [stopStep, himmediate]
  | lock =>
      have hended := hwired.unmonitored (Or.inl (hwired.running_at hc rfl))
      have hfree : s.workerMutexFree = true := by
        rw [State.workerMutexFree, hc]
        cases hm : s.monitorThread with
        | none => rfl
        | some m => simp [Control.holdsWorkerMutex, hended m hm, MonitorPc.holdsWorkerMutex]
      simp [stopStep, hfree]
  | join i => cases hw : s.workers[i]? <;> simp [stopStep, hw]
  | joining i =>
      obtain ⟨w, hw⟩ := hjoins.exists_slot (Or.inl hc)
      have hstarted := hwired.joining p i w hc hw
      have hended : w.native.pc.isEnded = true := by simpa [hw] using hawaits
      simp [stopStep, hw, hstarted.joinEnter, hended]
  | clear i =>
      cases hw : s.workers[i]? with
      | none => simp [stopStep, hw]
      | some w =>
          rcases hwired.property w (List.mem_of_getElem? hw) with hstarted | ⟨-, -, hover⟩
          · simp [stopStep, hw, ThreadProperty.cleanup_eq, hstarted.isJoinable, hstarted.2]
          · simp [stopStep, hw, ThreadProperty.cleanup_eq, ThreadProperty.isJoinable, hover]
  | clearJoining i =>
      obtain ⟨w, hw⟩ := hjoins.exists_slot (Or.inr hc)
      have hended : w.native.pc.isEnded = true := by simpa [hw] using hawaits
      simp [stopStep, hw, hended]
  | tasks => simp [stopStep, State.globalMutexFree, hwired.emptied p (Or.inr hc)]
  | test | monitoring | notifyMonitor | joinMonitor | running | notifyAll | count =>
      exact ⟨_, rfl⟩

/-! ## What the threads it joins have before them -/

/-- How far the monitor is from its end once it has been told to leave, for a
vector of at most `n` slots. -/
def MonitorPc.left (n : Nat) : MonitorPc → Nat
  | .testRunning => n + 14
  | .shrinkLoad => n + 13
  | .shrinkNow _ => n + 12
  | .shrinkLock _ _ => n + 11
  | .shrinkMark _ _ _ i => (n - i) + 10
  | .shrinkNotify => 9
  | .countTasks => 8
  | .countThreads _ => 7
  | .expandLoad => 6
  | .expandLock _ => 5
  | .adjust => 4
  | .waitFor => 3
  | .testMonitoring => 2
  | .entry => 1
  | .ended => 0

/-- How far a worker is from its end in a pool that is not running. -/
def WorkerPc.left : WorkerPc → Nat
  | .registration | .window | .blocked false => 16
  | .setValid => 15
  | .fetchAdd => 14
  | .setIdle => 13
  | .setIdleTime => 12
  | .wait | .blocked true => 11
  | .clearIdle => 10
  | .pop => 9
  | .holding _ => 8
  | .running _ => 7
  | .testExit => 6
  | .testRunning => 5
  | .clearValid => 4
  | .exitIdle => 3
  | .fetchSub => 2
  | .entry _ => 1
  | .ended _ => 0

theorem MonitorHop.nearer {cfg : Config} {n : Nat} {s : State} {pc pc' : MonitorPc}
    (hmon : s.sh.monitoring = false) (hlen : s.workers.length ≤ n)
    (h : MonitorHop cfg s pc pc') : pc'.left n < pc.left n := by
  cases h with
  | monitoring hmonitoring =>
      rw [hmon] at hmonitoring
      cases hmonitoring
  | passOver hw =>
      have hi := (List.getElem?_eq_some_iff.mp hw).1
      show (n - (_ + 1)) + 10 < (n - _) + 10
      omega
  | _ => simp [MonitorPc.left]

theorem Move.monitor_nearer {cfg : Config} {n : Nat} {s s' : State} {a : Action}
    {m : Monitor} (hmon : s.sh.monitoring = false) (hlen : s.workers.length ≤ n)
    (hm : s.monitorThread = some m) (hact : a.isMonitor = true) (h : Move cfg s a s') :
    ∃ m', s'.monitorThread = some m' ∧ m'.pc.left n < m.pc.left n := by
  have hsame : ∀ {m'}, s.monitorThread = some m' → m' = m := by
    intro m' hm'
    rw [hm, Option.some.injEq] at hm'
    exact hm'.symm
  cases h with
  | monitorHop hm' hhop =>
      rw [hsame hm'] at hhop ⊢
      exact ⟨_, rfl, hhop.nearer hmon hlen⟩
  | @marks _ _ m' need now removed i w hm' hpc hw =>
      have hi := (List.getElem?_eq_some_iff.mp hw).1
      rw [← hsame hm', hpc]
      refine ⟨_, rfl, ?_⟩
      show (n - (i + 1)) + 10 < (n - i) + 10
      omega
  | shrinkNotifies hm' hpc | expandThrows hm' hpc | monitorEnds hm' hpc =>
      rw [← hsame hm', hpc]
      exact ⟨_, rfl, by simp [MonitorPc.left]⟩
  | expands _ hm' hpc _ _ hnext =>
      rw [← hsame hm', hpc]
      refine ⟨_, rfl, ?_⟩
      rcases hnext with rfl | rfl <;> simp [MonitorPc.left]
  | _ => cases hact

theorem LoopStep.nearer {sh sh' : Shared} {free throws : Bool} {self : Nat}
    {pc pc' : WorkerPc} {fl fl' : Flags}
    (h : LoopStep sh free self throws pc fl sh' pc' fl') (hrun : sh.running = false)
    (hpc : pc ≠ .window) : pc'.left < pc.left := by
  cases h with
  | goesOn hrunning =>
      rw [hrun] at hrunning
      cases hrunning
  | sleeps _ _ hpred =>
      have hrunning := (waitPredicate_false hpred).2.2
      rw [hrun] at hrunning
      cases hrunning
  | blocks => exact absurd rfl hpc
  | passes hwait => rcases hwait with rfl | rfl <;> decide
  | _ => simp [WorkerPc.left]

theorem LoopStep.not_over {sh sh' : Shared} {free throws : Bool} {self : Nat}
    {pc pc' : WorkerPc} {fl fl' : Flags}
    (h : LoopStep sh free self throws pc fl sh' pc' fl') : pc.isEnded = false := by
  cases h with
  | passes hwait | sleeps hwait => rcases hwait with rfl | rfl <;> rfl
  | _ => rfl

theorem Move.worker_nearer {cfg : Config} {s s' : State} {a : Action} {j : Nat}
    {w : Worker} (hrun : s.sh.running = false) (hw : s.workers[j]? = some w)
    (hawake : w.drowsy = false) (hregistered : w.native.pc ≠ .registration)
    (hact : a.worker? = some j) (h : Move cfg s a s') :
    ∃ w', s'.workers[j]? = some w' ∧ w'.native.pc.left < w.native.pc.left := by
  have hlt := (List.getElem?_eq_some_iff.mp hw).1
  have hput : ∀ w' : Worker, (s.workers.set j w')[j]? = some w' := fun _ =>
    List.getElem?_set_self hlt
  have hsame : ∀ {i : Nat} {v : Worker}, s.workers[i]? = some v → i = j → v = w := by
    rintro i v hv rfl
    rw [hw, Option.some.injEq] at hv
    exact hv.symm
  cases h with
  | registers hv hpc =>
      rw [hsame hv (Option.some.inj hact)] at hpc
      exact absurd hpc hregistered
  | @loops i _ v _ _ _ hv hstep =>
      obtain rfl := Option.some.inj hact
      rw [hsame hv rfl] at hstep ⊢
      refine ⟨_, hput _, hstep.nearer hrun fun hpc => ?_⟩
      simp [Worker.drowsy, hpc] at hawake
  | @ends i _ _ v hv hpc =>
      obtain rfl := Option.some.inj hact
      rw [hsame hv rfl] at hpc ⊢
      refine ⟨_, hput _, ?_⟩
      rw [hpc]
      exact Nat.one_pos
  | _ => cases hact

/-! ## What a step of somebody else leaves alone -/

theorem Move.control_kept {cfg : Config} {s s' : State} {a : Action} {p : ShutdownPolicy}
    {pc : StopPc} (hc : s.control = .stop p pc) (hact : a.isControl = false)
    (h : Move cfg s a s') : s'.control = s.control := by
  cases h with
  | callsStart hidle | callsStop _ hidle =>
      rw [hc] at hidle
      cases hidle
  | _ => first | rfl | cases hact

theorem Move.monitor_same {cfg : Config} {s s' : State} {a : Action}
    (hact : a.isControl = false) (hact' : a.isMonitor = false) (h : Move cfg s a s') :
    s'.monitorThread = s.monitorThread := by
  cases h with
  | monitorHop | marks | shrinkNotifies | expandThrows | expands | monitorEnds => cases hact'
  | _ => first | rfl | cases hact

theorem Move.monitor_over {cfg : Config} {s s' : State} {a : Action} {m : Monitor}
    (hm : s.monitorThread = some m) (hover : m.pc = .ended) (hact : a.isControl = false)
    (h : Move cfg s a s') : s'.monitorThread = some m := by
  have hsame : ∀ {m'}, s.monitorThread = some m' → m'.pc = .ended := by
    intro m' hm'
    rw [hm, Option.some.injEq] at hm'
    rw [← hm', hover]
  cases h with
  | monitorHop hm' hhop => exact absurd (hsame hm') hhop.not_ended
  | marks hm' hpc | shrinkNotifies hm' hpc | expandThrows hm' hpc | expands _ hm' hpc
  | monitorEnds hm' hpc =>
      rw [hsame hm'] at hpc
      cases hpc
  | _ => first | exact hm | cases hact

theorem Move.worker_over {cfg : Config} {s s' : State} {a : Action} {j : Nat} {w : Worker}
    (hw : s.workers[j]? = some w) (hover : w.native.pc.isEnded = true)
    (hact : a.isControl = false) (h : Move cfg s a s') :
    ∃ w', s'.workers[j]? = some w' ∧ w'.native.pc.isEnded = true := by
  have hlt := (List.getElem?_eq_some_iff.mp hw).1
  have hset : ∀ (i : Nat) (v v' : Worker), s.workers[i]? = some v →
      (v.native.pc.isEnded = true → v'.native.pc.isEnded = true) →
      ∃ w', (s.workers.set i v')[j]? = some w' ∧ w'.native.pc.isEnded = true := by
    intro i v v' hv hpc
    by_cases hij : i = j
    · subst hij
      rw [hw, Option.some.injEq] at hv
      subst hv
      exact ⟨v', List.getElem?_set_self hlt, hpc hover⟩
    · exact ⟨w, by rw [List.getElem?_set_ne hij, hw], hover⟩
  have happend : ∀ ws : List Worker,
      ∃ w', (s.workers ++ ws)[j]? = some w' ∧ w'.native.pc.isEnded = true :=
    fun ws => ⟨w, by rw [List.getElem?_append_left hlt, hw], hover⟩
  cases h with
  | notifies _ _ hv hblocked | spurious hv hblocked =>
      refine hset _ _ _ hv fun h => ?_
      rw [hblocked] at h
      cases h
  | registers hv hpc | ends hv hpc =>
      refine hset _ _ _ hv fun h => ?_
      rw [hpc] at h
      cases h
  | loops hv hstep =>
      refine hset _ _ _ hv fun h => ?_
      rw [hstep.not_over] at h
      cases h
  | marks _ _ hv | expandThrows _ _ _ hv => exact hset _ _ _ hv id
  | expands => exact happend _
  | shrinkNotifies =>
      refine ⟨w, ?_, hover⟩
      show (notifyAll s.workers)[j]? = some w
      rw [notifyAll, List.getElem?_map, hw, Option.map_some, if_neg]
      intro hblocked
      rw [hblocked] at hover
      cases hover
  | _ => first | exact ⟨w, hw, hover⟩ | cases hact

/-- If `Stop` waits for nobody, it does not come to wait by a step of somebody
else. -/
theorem Move.awaits_kept {cfg : Config} {s s' : State} {a : Action} {p : ShutdownPolicy}
    {pc : StopPc} (hjoins : Joins s) (hc : s.control = .stop p pc)
    (hact : a.isControl = false) (hawaits : s.awaits = false) (h : Move cfg s a s') :
    s'.awaits = false := by
  rw [State.awaits, hc] at hawaits
  rw [State.awaits, h.control_kept hc hact, hc]
  have hslot : ∀ {i : Nat}, (∃ w, s.workers[i]? = some w) →
      (s.workers[i]?.any fun w => !w.native.pc.isEnded) = false →
      (s'.workers[i]?.any fun w => !w.native.pc.isEnded) = false := by
    rintro i ⟨w, hw⟩ hnone
    have hover : w.native.pc.isEnded = true := by simpa [hw] using hnone
    obtain ⟨w', hw', hover'⟩ := h.worker_over hw hover hact
    simp [hw', hover']
  cases pc with
  | joiningMonitor =>
      obtain ⟨m, hm, -⟩ := hjoins.monitor p hc
      have hover : m.pc = .ended := by simpa [hm] using hawaits
      simp [h.monitor_over hm hover hact, hover]
  | joining i => exact hslot (hjoins.exists_slot (Or.inl hc)) hawaits
  | clearJoining i => exact hslot (hjoins.exists_slot (Or.inr hc)) hawaits
  | _ => rfl

/-! ## Who brings `Stop` to its return -/

/-- The controlling thread, or the thread it waits for. -/
inductive Closer where
  | control
  | monitor
  | worker (j : Nat)

def Closer.party : Closer → Action → Prop
  | .control, a => a.isControl = true
  | .monitor, a => a.isMonitor = true
  | .worker j, a => a.worker? = some j

def Closer.helps : Closer → State → Prop
  | .control, s => s.awaits = false
  | .monitor, s => s.awaits = true ∧ ∃ p, s.control = .stop p .joiningMonitor
  | .worker j, s => s.awaits = true ∧
      ∃ p, s.control = .stop p (.joining j) ∨ s.control = .stop p (.clearJoining j)

def Closer.toGo (n : Nat) : Closer → State → Nat
  | .control, _ => 0
  | .monitor, s => s.monitorThread.elim 0 fun m => m.pc.left n
  | .worker j, s => s.workers[j]?.elim 0 fun w => w.native.pc.left

theorem exists_closer (s : State) : ∃ i : Closer, i.helps s := by
  cases hawaits : s.awaits with
  | false => exact ⟨.control, hawaits⟩
  | true =>
      have hwaits := hawaits
      unfold State.awaits at hwaits
      split at hwaits
      · next p hc => exact ⟨.monitor, hawaits, p, hc⟩
      · next p i hc => exact ⟨.worker i, hawaits, p, Or.inl hc⟩
      · next p i hc => exact ⟨.worker i, hawaits, p, Or.inr hc⟩
      · cases hwaits

theorem ahead_eq {n : Nat} {s : State} {p : ShutdownPolicy} {pc : StopPc}
    (hc : s.control = .stop p pc) :
    s.ahead n = 2 * pc.left n + if s.awaits then 1 else 0 := by
  rw [State.ahead, hc]

theorem awaits_monitor {s : State} {p : ShutdownPolicy} {m : Monitor}
    (hc : s.control = .stop p .joiningMonitor) (hm : s.monitorThread = some m) :
    s.awaits = true ↔ m.pc ≠ .ended := by
  rw [State.awaits, hc, hm]
  simp

theorem awaits_worker {s : State} {p : ShutdownPolicy} {j : Nat} {w : Worker}
    (hc : s.control = .stop p (.joining j) ∨ s.control = .stop p (.clearJoining j))
    (hw : s.workers[j]? = some w) : s.awaits = true ↔ w.native.pc.isEnded = false := by
  rcases hc with hc | hc <;> simp [State.awaits, hc, hw]

theorem Move.monitor_closes {cfg : Config} {n : Nat} {s s' : State} {a : Action}
    {p : ShutdownPolicy} (hjoins : Joins s) (hmon : s.sh.monitoring = false)
    (hlen : s.workers.length ≤ n) (hc : s.control = .stop p .joiningMonitor)
    (hawaits : s.awaits = true) (hact : a.isControl = false) (h : Move cfg s a s') :
    s'.awaits = false ∨ s'.awaits = true ∧
      Closer.monitor.toGo n s' ≤ Closer.monitor.toGo n s ∧
      (a.isMonitor = true → Closer.monitor.toGo n s' < Closer.monitor.toGo n s) := by
  obtain ⟨m, hm, -⟩ := hjoins.monitor p hc
  have hc' := (h.control_kept hc hact).trans hc
  cases hmoves : a.isMonitor with
  | true =>
      obtain ⟨m', hm', hlt⟩ := h.monitor_nearer hmon hlen hm hmoves
      cases hawaits' : s'.awaits with
      | false => exact Or.inl rfl
      | true =>
          refine Or.inr ⟨rfl, ?_⟩
          simp only [Closer.toGo, hm, hm', Option.elim_some]
          exact ⟨Nat.le_of_lt hlt, fun _ => hlt⟩
  | false =>
      have hsame := h.monitor_same hact hmoves
      refine Or.inr ⟨?_, ?_, nofun⟩
      · rw [awaits_monitor hc' (hsame.trans hm)]
        exact (awaits_monitor hc hm).mp hawaits
      · rw [Closer.toGo, Closer.toGo, hsame]

theorem Move.worker_closes {cfg : Config} {n : Nat} {s s' : State} {a : Action}
    {p : ShutdownPolicy} {j : Nat} (hwired : Wired s) (hjoins : Joins s)
    (hdrowsy : NoneDrowsy s) (hregistered : AllRegistered s)
    (hc : s.control = .stop p (.joining j) ∨ s.control = .stop p (.clearJoining j))
    (hawaits : s.awaits = true) (hact : a.isControl = false) (h : Move cfg s a s') :
    s'.awaits = false ∨ s'.awaits = true ∧
      (Closer.worker j).toGo n s' ≤ (Closer.worker j).toGo n s ∧
      (a.worker? = some j → (Closer.worker j).toGo n s' < (Closer.worker j).toGo n s) := by
  obtain ⟨w, hw⟩ := hjoins.exists_slot hc
  have hmem := List.mem_of_getElem? hw
  have hover := (awaits_worker hc hw).mp hawaits
  have hc' : s'.control = .stop p (.joining j) ∨ s'.control = .stop p (.clearJoining j) := by
    rcases hc with hc | hc
    · exact Or.inl ((h.control_kept hc hact).trans hc)
    · exact Or.inr ((h.control_kept hc hact).trans hc)
  have hawake := hdrowsy (by rcases hc with hc | hc <;> rw [hc] <;> rfl) w hmem
  have hreg := hregistered (by rcases hc with hc | hc <;> rw [hc] <;> rfl) w hmem
  have hrun := hwired.stopped (by rcases hc with hc | hc <;> rw [hc] <;> rfl)
  by_cases hmoves : a.worker? = some j
  · obtain ⟨w', hw', hlt⟩ := h.worker_nearer hrun hw hawake hreg hmoves
    cases hawaits' : s'.awaits with
    | false => exact Or.inl rfl
    | true =>
        refine Or.inr ⟨rfl, ?_⟩
        simp only [Closer.toGo, hw, hw', Option.elim_some]
        exact ⟨Nat.le_of_lt hlt, fun _ => hlt⟩
  · have hblocked : w.native.pc ≠ .blocked false := by
      intro hpc
      simp [Worker.drowsy, hpc] at hawake
    obtain ⟨w', hw', hpc⟩ := h.pc_kept hwired hw hmoves hblocked hover
    refine Or.inr ⟨?_, ?_, fun hm => absurd hm hmoves⟩
    · rw [awaits_worker hc' hw', hpc]
      exact hover
    · simp [Closer.toGo, hw, hw', hpc]

theorem Move.running_same {cfg : Config} {s s' : State} {a : Action}
    (hact : a.isControl = false) (h : Move cfg s a s') :
    s'.sh.running = s.sh.running := by
  cases h with
  | loops _ hstep => exact hstep.running_eq
  | _ => first | rfl | cases hact

theorem control_closes {cfg : Config} {s s' : State} {a : Action}
    (hr : (pool cfg).Reachable s) (hs : Closing s) (hact : a.isControl = true)
    (hstep : (pool cfg).step s a = some s') :
    s'.control = .idle .returned ∨
      Closing s' ∧ s'.ahead cfg.maxThreads < s.ahead cfg.maxThreads := by
  obtain ⟨p, pc, hc, htest, hwait⟩ := hs
  obtain ⟨creates, timedOut, rfl⟩ := Action.isControl_iff.mp hact
  have hstop : stopStep s p timedOut pc = some s' := by
    rw [← hstep]
    show _ = controlStep cfg s creates timedOut
    rw [controlStep, hc]
  rcases stopStep_nearer (wired_of_reachable hr) (joins_of_reachable hr)
    (sized_of_reachable hr).length_le hc htest hwait hstop with hret | ⟨pc', hc', hlt, hnot, hwait'⟩
  · exact Or.inl hret
  · refine Or.inr ⟨⟨p, pc', hc', fun h => absurd h hnot, hwait'⟩, ?_⟩
    have hbefore := (ahead_le (n := cfg.maxThreads) hc).1
    have hafter := (ahead_le (n := cfg.maxThreads) hc').2
    omega

theorem Closing.step {cfg : Config} {s s' : State} {a : Action}
    (hr : (pool cfg).Reachable s) (hs : Closing s)
    (hstep : (pool cfg).step s a = some s') :
    s'.control = .idle .returned ∨ Closing s' := by
  cases hact : a.isControl with
  | true => exact (control_closes hr hs hact hstep).imp id And.left
  | false =>
      obtain ⟨p, pc, hc, htest, hwait⟩ := hs
      have hmove := move_of_step hr hstep
      refine Or.inr ⟨p, pc, (hmove.control_kept hc hact).trans hc, fun h => ?_, hwait⟩
      rw [hmove.running_same hact, htest h]

theorem Closer.step {cfg : Config} {s s' : State} {a : Action}
    (hr : (pool cfg).Reachable s) (hs : Closing s) (hdrowsy : NoneDrowsy s)
    (hregistered : AllRegistered s) {i : Closer} (hi : i.helps s)
    (hstep : (pool cfg).step s a = some s') :
    s'.ahead cfg.maxThreads < s.ahead cfg.maxThreads ∨ s'.control = .idle .returned ∨
      s'.ahead cfg.maxThreads ≤ s.ahead cfg.maxThreads ∧ i.helps s' ∧
        i.toGo cfg.maxThreads s' ≤ i.toGo cfg.maxThreads s ∧
        (i.party a → i.toGo cfg.maxThreads s' < i.toGo cfg.maxThreads s) := by
  cases hact : a.isControl with
  | true =>
      rcases control_closes hr hs hact hstep with hret | ⟨-, hlt⟩
      · exact Or.inr (Or.inl hret)
      · exact Or.inl hlt
  | false =>
      obtain ⟨p, pc, hc, -, -⟩ := hs
      have hmove := move_of_step hr hstep
      have hjoins := joins_of_reachable hr
      have hc' := (hmove.control_kept hc hact).trans hc
      have hends : s.awaits = true → s'.awaits = false →
          s'.ahead cfg.maxThreads < s.ahead cfg.maxThreads := by
        intro hawaits hawaits'
        rw [ahead_eq hc, ahead_eq hc', hawaits, hawaits']
        exact Nat.lt_succ_self _
      have hsame : s'.awaits = s.awaits →
          s'.ahead cfg.maxThreads ≤ s.ahead cfg.maxThreads := by
        intro hawaits
        rw [ahead_eq hc, ahead_eq hc', hawaits]
      cases i with
      | control =>
          have hawaits' := hmove.awaits_kept hjoins hc hact hi
          refine Or.inr (Or.inr ⟨hsame (hawaits'.trans (Eq.symm hi)), hawaits',
            Nat.le_refl _, fun h => ?_⟩)
          rw [show a.isControl = true from h] at hact
          cases hact
      | monitor =>
          obtain ⟨hawaits, q, hq⟩ := hi
          have hmon := unmonitoring_of_reachable hr (by rw [hq]; rfl)
          rcases hmove.monitor_closes hjoins hmon (sized_of_reachable hr).length_le hq hawaits
            hact with hover | ⟨hawaits', hle, hlt⟩
          · exact Or.inl (hends hawaits hover)
          · exact Or.inr (Or.inr ⟨hsame (hawaits'.trans hawaits.symm),
              ⟨hawaits', q, (hmove.control_kept hq hact).trans hq⟩, hle, hlt⟩)
      | worker j =>
          obtain ⟨hawaits, q, hq⟩ := hi
          rcases hmove.worker_closes (n := cfg.maxThreads) (wired_of_reachable hr) hjoins
            hdrowsy hregistered hq hawaits hact with hover | ⟨hawaits', hle, hlt⟩
          · exact Or.inl (hends hawaits hover)
          · refine Or.inr (Or.inr ⟨hsame (hawaits'.trans hawaits.symm), ⟨hawaits', q, ?_⟩,
              hle, hlt⟩)
            rcases hq with hq | hq
            · exact Or.inl ((hmove.control_kept hq hact).trans hq)
            · exact Or.inr ((hmove.control_kept hq hact).trans hq)

/-! ## They can move -/

theorem exists_monitorStep (cfg : Config) {s : State} {p : ShutdownPolicy} {m : Monitor}
    (hc : s.control = .stop p .joiningMonitor) (hm : s.monitorThread = some m)
    (halive : m.pc ≠ .ended) (hfree : s.globalMutexFree = true) :
    ∃ s', monitorStep cfg s {} false = some s' := by
  have hmutex : m.pc.holdsWorkerMutex = false → s.workerMutexFree = true := by
    intro hout
    simp [State.workerMutexFree, hc, hm, hout, Control.holdsWorkerMutex]
  cases hpc : m.pc with
  | ended => exact absurd hpc halive
  | shrinkLock need now | expandLock need =>
      simp [monitorStep, hm, hpc, hmutex (by rw [hpc]; rfl)]
  | shrinkMark need now removed i =>
      simp only [monitorStep, hm, hpc]
      split
      · exact ⟨_, rfl⟩
      · split
        · split <;> exact ⟨_, rfl⟩
        · exact ⟨_, rfl⟩
  | countTasks | adjust => simp [monitorStep, hm, hpc, hfree]
  | _ => simp [monitorStep, hm, hpc]

theorem exists_workerStep_of_awake {s : State} {j : Nat} {w : Worker} (hwired : Wired s)
    (hw : s.workers[j]? = some w) (hregistered : w.native.pc ≠ .registration)
    (hawake : w.native.pc ≠ .blocked false) (hover : w.native.pc.isEnded = false)
    (hfree : s.globalMutexFree = true) : ∃ s', workerStep s j false = some s' := by
  have hindex := hwired.index j w hw
  cases hpc : w.native.pc with
  | registration => exact absurd hpc hregistered
  | ended threw =>
      rw [hpc] at hover
      cases hover
  | entry threw => simp [workerStep, hw, hpc]
  | blocked signalled =>
      cases signalled with
      | false => exact absurd hpc hawake
      | true => simp [workerStep, boundStep, workerLoop, evaluate, hw, hpc, hindex, hfree]
  | holding task =>
      cases task with
      | none => simp [workerStep, boundStep, workerLoop, hw, hpc, hindex]
      | some t =>
          cases hcall : t.callable <;>
            simp [workerStep, boundStep, workerLoop, hw, hpc, hindex, hcall]
  | pop =>
      cases htasks : s.sh.tasks <;>
        simp [workerStep, boundStep, workerLoop, hw, hpc, hindex, hfree, htasks]
  | wait => simp [workerStep, boundStep, workerLoop, evaluate, hw, hpc, hindex, hfree]
  | _ => simp [workerStep, boundStep, workerLoop, hw, hpc, hindex]

theorem noneDrowsy_of_reachableWhen {cfg : Config} {s : State}
    (hr : (pool cfg).ReachableWhen BroadcastFree s) : NoneDrowsy s :=
  hr.invariant nofun fun _ _ _ hr hs hok hstep =>
    (move_of_step hr.reachable hstep).noneDrowsy (wired_of_reachable hr.reachable) hok hs

theorem allRegistered_of_reachableWhen {cfg : Config} {s : State}
    (hr : (pool cfg).ReachableWhen LockRegistered s) : AllRegistered s :=
  hr.invariant nofun fun _ _ _ hr hs hok hstep =>
    (move_of_step hr.reachable hstep).allRegistered hok hs

section Liveness

variable {cfg : Config} {ρ : (pool cfg).Run} {n : Nat}

/-- A closing pool is closed in the end. -/
theorem eventually_returned (hcontrol : ρ.Fair fun a => a.isControl = true)
    (hworkers : ∀ j, ρ.Fair fun a => a.worker? = some j)
    (hmonitor : ρ.StronglyFair fun a => a.isMonitor = true)
    (hbroadcast : ∀ m, BroadcastFree (ρ.state m) (ρ.act m))
    (hlock : ∀ m, LockRegistered (ρ.state m) (ρ.act m)) (hs : Closing (ρ.state n)) :
    ρ.Eventually n fun s => s.control = .idle .returned := by
  by_contra hnot
  have hnever : ∀ m, n ≤ m → (ρ.state m).control ≠ .idle .returned :=
    fun m hm hret => hnot ⟨m, hm, hret⟩
  have hclosing : ρ.Always n Closing := by
    intro m hm
    induction hm with
    | refl => exact hs
    | @step m hm ih =>
        exact (ih.step (ρ.reachable m) (ρ.next m)).resolve_left
          (hnever _ (Nat.le_succ_of_le hm))
  have hdrowsy := fun m => noneDrowsy_of_reachableWhen (ρ.reachableWhen hbroadcast m)
  have hregistered := fun m => allRegistered_of_reachableWhen (ρ.reachableWhen hlock m)
  have hhelped : Run.Helped ρ n Closer.party (fun s => s.control = .idle .returned)
      Closer.helps (State.ahead cfg.maxThreads) (Closer.toGo cfg.maxThreads) := by
    constructor
    · exact fun m _ _ => exists_closer _
    · intro i m hm hstay
      cases i with
      | control =>
          refine hcontrol m fun k hk => ?_
          obtain ⟨p, pc, hc, -, hwait⟩ := hclosing k (Nat.le_trans hm hk)
          obtain ⟨s', hs'⟩ := exists_stopStep (wired_of_reachable (ρ.reachable k))
            (joins_of_reachable (ρ.reachable k)) hc hwait (hstay k hk).2
          refine ⟨.control {} false, rfl, ?_⟩
          show (controlStep cfg _ {} false).isSome = true
          rw [controlStep, hc]
          exact Option.isSome_iff_exists.mpr ⟨s', hs'⟩
      | monitor =>
          refine hmonitor m fun k hk => ?_
          -- the mutex comes free again, and the monitor is still being joined
          obtain ⟨l, hl, hfree⟩ := eventually_free (n := k) hworkers
          obtain ⟨-, hawaits, p, hc⟩ := hstay l (Nat.le_trans hk hl)
          obtain ⟨v, hv, -⟩ := (joins_of_reachable (ρ.reachable l)).monitor p hc
          obtain ⟨s', hs'⟩ := exists_monitorStep cfg hc hv
            ((awaits_monitor hc hv).mp hawaits) hfree
          exact ⟨l, hl, .monitor {} false, rfl, Option.isSome_iff_exists.mpr ⟨s', hs'⟩⟩
      | worker j =>
          refine hworkers j m fun k hk => ?_
          obtain ⟨-, hawaits, p, hc⟩ := hstay k hk
          have hnotified : (ρ.state k).control.notified = true := by
            rcases hc with hc | hc <;> rw [hc] <;> rfl
          obtain ⟨w, hw⟩ := (joins_of_reachable (ρ.reachable k)).exists_slot hc
          have hmem := List.mem_of_getElem? hw
          have hawake := hdrowsy k hnotified
          have hfree : (ρ.state k).globalMutexFree = true := by
            refine globalMutexFree_iff.mpr fun v hv hpc => ?_
            have hout := hawake v hv
            simp [Worker.drowsy, hpc] at hout
          obtain ⟨s', hs'⟩ := exists_workerStep_of_awake
            (wired_of_reachable (ρ.reachable k)) hw
            (hregistered k (by rcases hc with hc | hc <;> rw [hc] <;> rfl) w hmem)
            (fun hpc => by
              have hout := hawake w hmem
              simp [Worker.drowsy, hpc] at hout)
            ((awaits_worker hc hw).mp hawaits) hfree
          exact ⟨.worker j false, rfl, Option.isSome_iff_exists.mpr ⟨s', hs'⟩⟩
    · exact fun m hm _ i hi => Closer.step (ρ.reachable m) (hclosing m hm) (hdrowsy m)
        (hregistered m) hi (ρ.next m)
  exact hnot hhelped.eventually

/-- `Stop` returns. Take a run that is fair to the controlling thread, and to the
workers outside their tasks, and strongly fair to the monitor; in which every
called task ends, no broadcast of `Stop` comes while a worker is about to block
and `Stop` never takes `worker_mutex_` before all workers have registered. A
`Stop` that finds the pool running returns if its policy is `Immediate`, and
otherwise if it gets past its waiting loop. -/
theorem stop_terminates (hcontrol : ρ.Fair fun a => a.isControl = true)
    (hworkers : ∀ j, ρ.FairOutside (InTask j) fun a => a.worker? = some j)
    (htasks : ∀ j, ρ.Ends (InTask j))
    (hmonitor : ρ.StronglyFair fun a => a.isMonitor = true)
    (hbroadcast : ∀ m, BroadcastFree (ρ.state m) (ρ.act m))
    (hlock : ∀ m, LockRegistered (ρ.state m) (ρ.act m)) {p : ShutdownPolicy}
    (hc : (ρ.state n).control = .stop p .test) (hrun : (ρ.state n).sh.running = true)
    (hwait : p = .immediate ∨ ρ.Eventually n fun s => s.control = .stop p .lock) :
    ρ.Eventually n fun s => s.control = .idle .returned := by
  have hfair := fair_worker hworkers htasks
  rcases hwait with rfl | ⟨m, hm, hlocks⟩
  · exact eventually_returned hcontrol hfair hmonitor hbroadcast hlock
      ⟨.immediate, .test, hc, fun _ => hrun, Or.inl rfl⟩
  · obtain ⟨k, hk, hret⟩ := eventually_returned hcontrol hfair hmonitor hbroadcast hlock
      (n := m) ⟨p, .lock, hlocks, nofun, Or.inr rfl⟩
    exact ⟨k, Nat.le_trans hm hk, hret⟩

end Liveness

theorem not_enabled_of_shut (cfg : Config) {s : State} (hworkers : s.workers = [])
    (hmonitor : s.monitorThread = none) (hidle : s.control = .idle .returned) :
    ¬(pool cfg).Enabled (fun a => a.isControl = true) s ∧
      (∀ j, ¬(pool cfg).Enabled (fun a => a.worker? = some j) s) ∧
      ¬(pool cfg).Enabled (fun a => a.isMonitor = true) s := by
  refine ⟨?_, ?_, ?_⟩
  · rintro ⟨a, ha, hsome⟩
    obtain ⟨creates, timedOut, rfl⟩ := Action.isControl_iff.mp ha
    simp [pool, step, controlStep, hidle] at hsome
  · rintro j ⟨a, ha, hsome⟩
    cases a with
    | worker i throws => simp [pool, step, workerStep, hworkers] at hsome
    | _ => cases ha
  · rintro ⟨a, ha, hsome⟩
    cases a with
    | monitor creates waitFails => simp [pool, step, monitorStep, hmonitor] at hsome
    | _ => cases ha

/-- The only worker sleeps when `Stop` comes. -/
def stoppedAsleep : List Action :=
  starting 2 ++ works 0 9 ++ stopping .immediate ++ controls 5 ++ works 0 10 ++ controls 6

/-- The law applied to that run, from the call of `Stop` on. -/
theorem stop_terminates_run : ∃ ρ : (pool (.ofHardware 1)).Run,
    (ρ.state 14).control = .stop .immediate .test ∧
      ρ.Eventually 14 fun s => s.control = .idle .returned := by
  have hend : ((pool (.ofHardware 1)).run stoppedAsleep).any (fun s =>
      decide (s.workers = [] ∧ s.monitorThread = none ∧ s.control = .idle .returned)) =
        true := by decide +kernel
  obtain ⟨s, hrun, hs⟩ := (Option.any_eq_true _ _).mp hend
  obtain ⟨hworkers, hmonitor, hidle⟩ := of_decide_eq_true hs
  obtain ⟨hrestC, hrestW, hrestM⟩ :=
    not_enabled_of_shut (.ofHardware 1) hworkers hmonitor hidle
  let ρ : (pool (.ofHardware 1)).Run := .thenIdle (.tick 0) hrun rfl
  have hstate : ρ.state 14 = (pool (.ofHardware 1)).follow {} stoppedAsleep 14 := rfl
  have hcalled : (ρ.state 14).control = .stop .immediate .test ∧
      (ρ.state 14).sh.running = true := by
    rw [hstate]
    decide +kernel
  exact ⟨ρ, hcalled.1, stop_terminates (Run.fair_thenIdle hrestC)
    (fun j => (Run.fair_thenIdle (hrestW j)).outside)
    (fun j => Run.ends_thenIdle fun ⟨w, t, hw, _⟩ => by rw [hworkers] at hw; cases hw)
    (Run.stronglyFair_thenIdle hrestM)
    (Run.meets_thenIdle (by decide +kernel) nofun)
    (Run.meets_thenIdle (by decide +kernel) nofun) hcalled.1 hcalled.2 (Or.inl rfl)⟩

end ThreadPool.Normal
