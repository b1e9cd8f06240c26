import ThreadPool.Normal.Wakeup

/-!
# What `Stop` can miss

`Stop` stores `running_ = false` and broadcasts without `global_mutex_`,
waits for the queue to drain with the same flag already telling the workers
to leave, and joins them holding the mutex they register under. Each of
these is right in most runs and wrong in some. This file says in which: for
each it gives the run that goes wrong and the condition on the steps under
which none does.

The conditions are about the state a step of `Stop` or a push is taken in.
That they are enough is an invariant of the runs that meet them.
-/

namespace ThreadPool.Normal

open Interleave Machine

theorem Action.isControl_iff {a : Action} :
    a.isControl = true ↔ ∃ creates timedOut, a = .control creates timedOut := by
  cases a <;> simp [Action.isControl]

/-! ## A wake-up lost at the broadcast -/

/-- `Stop` has stored `running_ = false` and has made its broadcast. -/
def Control.notified : Control → Bool
  | .stop _ .wait | .stop _ .lock | .stop _ (.join _) | .stop _ (.joining _)
  | .stop _ (.clear _) | .stop _ (.clearJoining _) | .stop _ .count
  | .stop _ .tasks => true
  | _ => false

def Control.notifying : Control → Bool
  | .stop _ .notifyAll => true
  | _ => false

theorem Control.notifying_iff {c : Control} :
    c.notifying = true ↔ ∃ p, c = .stop p .notifyAll := by
  constructor
  · intro h
    cases c with
    | idle _ | start _ => cases h
    | stop p pc => cases pc <;> first | exact ⟨p, rfl⟩ | cases h
  · rintro ⟨p, rfl⟩
    rfl

/-- Between a false predicate and a signal: about to block, or blocked. -/
def Worker.drowsy (w : Worker) : Bool :=
  match w.native.pc with
  | .window | .blocked false => true
  | _ => false

theorem Worker.drowsy_eq_false {w : Worker} (hwindow : w.native.pc ≠ .window)
    (hblocked : w.native.pc ≠ .blocked false) : w.drowsy = false := by
  unfold Worker.drowsy
  split
  · next hpc => exact absurd hpc hwindow
  · next hpc => exact absurd hpc hblocked
  · rfl

/-- The broadcast of `Stop` is made while nobody is about to block, that is,
while `global_mutex_` could be had. -/
def BroadcastFree (s : State) (a : Action) : Prop :=
  a.isControl = true → s.control.notifying = true → s.globalMutexFree = true

instance (s : State) (a : Action) : Decidable (BroadcastFree s a) :=
  inferInstanceAs (Decidable (_ → _))

/-- After the broadcast nobody is on the way into an unsignalled sleep. -/
def NoneDrowsy (s : State) : Prop :=
  s.control.notified = true → ∀ w ∈ s.workers, w.drowsy = false

theorem Control.runningIs_of_notified {c : Control} (h : c.notified = true) :
    c.runningIs = some false := by
  cases c with
  | idle _ | start _ => cases h
  | stop p pc => cases pc <;> first | rfl | cases h

theorem Wired.stopped {s : State} (hs : Wired s) (h : s.control.notified = true) :
    s.sh.running = false := hs.runFlag false (Control.runningIs_of_notified h)

theorem LoopStep.not_drowsy {sh sh' : Shared} {free throws : Bool} {w : Worker}
    {pc' : WorkerPc} {fl' : Flags}
    (h : LoopStep sh free w.native.self throws w.native.pc w.flags sh' pc' fl')
    (hrun : sh.running = false) (hw : w.drowsy = false) :
    ({ w with flags := fl' }.goto pc').drowsy = false := by
  unfold Worker.drowsy at hw
  generalize w.native.pc = pc at h hw
  cases h with
  | sleeps _ _ hpred =>
      have hrunning := (waitPredicate_false hpred).2.2
      rw [hrun] at hrunning
      cases hrunning
  | blocks => cases hw
  | _ => rfl

theorem Hop.notified {s : State} {c c' : Control} (h : Hop s c c')
    (hn : c'.notified = true) : c.notified = true := by
  cases h <;> first | rfl | cases hn

theorem Move.noneDrowsy {cfg : Config} {s s' : State} {a : Action} (hwired : Wired s)
    (hok : BroadcastFree s a) (hs : NoneDrowsy s) (h : Move cfg s a s') :
    NoneDrowsy s' := by
  intro hn
  cases h with
  | notifies _ _ hw hblocked | spurious hw hblocked =>
      exact forall_mem_set (hs hn) rfl
  | registers hw hpc | ends hw hpc => exact forall_mem_set (hs hn) rfl
  | loops hw hstep =>
      exact forall_mem_set (hs hn)
        (hstep.not_drowsy (hwired.stopped hn) (hs hn _ (List.mem_of_getElem? hw)))
  | hop hhop => exact hs (hhop.notified hn)
  | notifiesAll hc =>
      intro w' hw'
      have hfree := globalMutexFree_iff.mp (hok rfl (by rw [hc]; rfl))
      obtain ⟨w, hw, ⟨hawake, rfl⟩ | ⟨-, rfl⟩⟩ := mem_notifyAll hw'
      · exact Worker.drowsy_eq_false (hfree _ hw) hawake
      · rfl
  | joined hc hw | destroyJoined hc hw =>
      have hall := hs (by rw [hc]; rfl)
      have hold := hall _ (List.mem_of_getElem? hw)
      exact forall_mem_set hall hold
  | cleared => exact fun _ hw => absurd hw List.not_mem_nil
  | resetCount hc => exact hs (by rw [hc]; rfl)
  | monitorHop hm hhop => exact hs hn
  | marks hm hpc hw | expandThrows hm hpc _ hw =>
      have hold := hs hn _ (List.mem_of_getElem? hw)
      exact forall_mem_set (hs hn) hold
  | shrinkNotifies hm hpc | expands _ hm hpc =>
      have hrun := hwired.running_of_monitor hm (by simp [hpc])
      rw [hwired.stopped hn] at hrun
      cases hrun
  | _ => first | exact hs hn | cases hn

theorem step_window {cfg : Config} {s : State} {j : Nat} {w : Worker} (hs : Wired s)
    (hw : s.workers[j]? = some w) (hpc : w.native.pc = .window) :
    (pool cfg).step s (.worker j false) = some (s.put j (w.goto (.blocked false))) := by
  have hbound := boundStep_eq hw (hs.index j w hw)
    (show workerLoop s.sh s.globalMutexFree w.native.self false w.native.pc w.flags =
      some (s.sh, .blocked false, w.flags) by rw [hpc]; rfl)
  simp only [pool, step, workerStep, hw, hpc]
  exact hbound

/-- No wake-up is lost at shutdown in the runs whose broadcasts come while
nobody is about to block; and from any other broadcast one step of a worker
loses one. -/
theorem signalled_after_broadcast {cfg : Config} :
    (∀ s, (pool cfg).ReachableWhen BroadcastFree s → s.control.notified = true →
      ∀ w ∈ s.workers, w.asleep = false) ∧
    ∀ s a s', (pool cfg).Reachable s → ¬BroadcastFree s a →
      (pool cfg).step s a = some s' →
      ∃ b s'', (pool cfg).step s' b = some s'' ∧ s''.control.notified = true ∧
        ∃ w ∈ s''.workers, w.asleep = true := by
  constructor
  · intro s hr hn w hw
    have hnone : NoneDrowsy s :=
      ReachableWhen.invariant hr (fun h => by cases h) fun _ _ _ hr hs hok hstep =>
        (move_of_step hr.reachable hstep).noneDrowsy (wired_of_reachable hr.reachable)
          hok hs
    have hawake := hnone hn w hw
    unfold Worker.drowsy at hawake
    unfold Worker.asleep
    split at hawake
    · cases hawake
    · cases hawake
    · next hblocked => simpa using hblocked
  · intro s a s' hr hbad hstep
    simp only [BroadcastFree, Classical.not_imp] at hbad
    obtain ⟨hcontrol, hnotifying, hheld⟩ := hbad
    obtain ⟨p, hc⟩ := Control.notifying_iff.mp hnotifying
    obtain ⟨w, hw, hpc⟩ : ∃ w ∈ s.workers, w.native.pc = .window := by
      simpa [State.globalMutexFree] using hheld
    obtain ⟨j, hj⟩ := List.mem_iff_getElem?.mp hw
    obtain ⟨creates, timedOut, rfl⟩ := Action.isControl_iff.mp hcontrol
    have hs' : s' = { s with workers := notifyAll s.workers, control := .stop p .wait } := by
      simpa [pool, step, controlStep, hc, stopStep] using hstep.symm
    have hj' : s'.workers[j]? = some w := by
      rw [hs', notifyAll, List.getElem?_map, hj]
      simp [hpc]
    have hwired := wired_of_reachable (ReachableWhen.step hr trivial hstep)
    refine ⟨_, s'.put j (w.goto (.blocked false)), step_window hwired hj' hpc, ?_, ?_⟩
    · rw [hs']
      rfl
    · exact ⟨_, List.mem_set (List.getElem?_eq_some_iff.mp hj').1 _, rfl⟩

/-- A worker blocks right after the broadcast. -/
theorem wakeup_lost_at_shutdown :
    ¬∀ (cfg : Config) (s : State), (pool cfg).Reachable s →
      s.control.notified = true → ∀ w ∈ s.workers, w.asleep = false := by
  intro hall
  obtain ⟨s, hr, hn, w, hw, hasleep⟩ := exists_of_run (pool (.ofHardware 1))
    (starting 2 ++ works 0 8 ++ stopping .immediate ++ controls 2 ++ works 0 1)
    (fun s => s.control.notified = true ∧ ∃ w ∈ s.workers, w.asleep = true)
    (by decide +kernel)
  rw [hall _ s hr hn w hw] at hasleep
  cases hasleep

/-- The same worker is blocked before the broadcast, and is signalled. -/
theorem signalled_after_broadcast_run : ∃ s : State,
    s.control = .stop .immediate .wait ∧
      s.workers.map (fun w => w.native.pc) = [.blocked true] ∧
      ∀ w ∈ s.workers, w.asleep = false := by
  obtain ⟨s, hr, hc, hpcs⟩ := exists_of_runWhen (pool (.ofHardware 1)) BroadcastFree
    (starting 2 ++ works 0 9 ++ stopping .immediate ++ controls 2)
    (fun s => s.control = .stop .immediate .wait ∧
      s.workers.map (fun w => w.native.pc) = [.blocked true])
    (by decide +kernel)
  exact ⟨s, hc, hpcs, signalled_after_broadcast.1 s hr (by rw [hc]; rfl)⟩

/-! ## Joining a worker that waits for the mutex

A worker registers under `worker_mutex_`, which `Stop` keeps from its
`lock` to its return. A worker that had not come to register by then cannot
do so any more, and `Stop` waits for its end. -/

def Control.locking : Control → Bool
  | .stop _ .lock => true
  | _ => false

/-- `Stop` waits for the end of a worker that waits for the mutex `Stop`
holds. -/
def Deadlocked (s : State) : Prop :=
  s.control.holdsWorkerMutex = true ∧
    ∃ p i w, (s.control = .stop p (.joining i) ∨ s.control = .stop p (.clearJoining i)) ∧
      s.workers[i]? = some w ∧ w.native.pc = .registration

/-- When `Stop` takes `worker_mutex_` every worker has been through its
registration. -/
def LockRegistered (s : State) (a : Action) : Prop :=
  a.isControl = true → s.control.locking = true →
    ∀ w ∈ s.workers, w.native.pc ≠ .registration

instance (s : State) (a : Action) : Decidable (LockRegistered s a) :=
  inferInstanceAs (Decidable (_ → _ → ∀ w ∈ s.workers, _))

/-- Nobody is to register while `Stop` holds the mutex. -/
def AllRegistered (s : State) : Prop :=
  s.control.holdsWorkerMutex = true → ∀ w ∈ s.workers, w.native.pc ≠ .registration

theorem Hop.holds {s : State} {c c' : Control} (h : Hop s c c')
    (hholds : c'.holdsWorkerMutex = true) :
    c.holdsWorkerMutex = true ∨ c.locking = true := by
  cases h <;> first | exact Or.inl rfl | exact Or.inr rfl | cases hholds

theorem Move.allRegistered {cfg : Config} {s s' : State} {a : Action}
    (hok : LockRegistered s a) (hs : AllRegistered s) (h : Move cfg s a s') :
    AllRegistered s' := by
  intro hholds
  cases h with
  | notifies _ _ hw | registers hw | ends hw | spurious hw =>
      exact forall_mem_set (hs hholds) (by simp [Worker.goto])
  | loops hw hstep => exact forall_mem_set (hs hholds) hstep.not_registration.2
  | hop hhop =>
      rcases hhop.holds hholds with hheld | hlocking
      · exact hs hheld
      · exact hok rfl hlocking
  | joined hc hw | destroyJoined hc hw =>
      have hall := hs (by rw [hc]; rfl)
      have hold := hall _ (List.mem_of_getElem? hw)
      exact forall_mem_set hall hold
  | cleared => exact fun _ hw => absurd hw List.not_mem_nil
  | resetCount hc => exact hs (by rw [hc]; rfl)
  | marks hm hpc hw | expandThrows hm hpc _ hw =>
      have hold := hs hholds _ (List.mem_of_getElem? hw)
      exact forall_mem_set (hs hholds) hold
  | shrinkNotifies =>
      exact forall_mem_notifyAll (hs hholds) fun w _ _ => by simp [Worker.goto]
  | expands _ hm hpc hfree =>
      rw [State.workerMutexFree, show s.control.holdsWorkerMutex = true from hholds] at hfree
      simp at hfree
  | monitorHop | monitorEnds => exact hs hholds
  | _ => first | exact hs hholds | cases hholds

/-- In the runs in which `Stop` takes the mutex after every registration it
never waits for a worker that waits for it. -/
theorem not_deadlocked {cfg : Config} {s : State}
    (hr : (pool cfg).ReachableWhen LockRegistered s) : ¬Deadlocked s := by
  have hall : AllRegistered s :=
    ReachableWhen.invariant hr (fun h => by cases h) fun _ _ _ hr hs hok hstep =>
      (move_of_step hr.reachable hstep).allRegistered hok hs
  rintro ⟨hholds, p, i, w, hc, hw, hpc⟩
  exact hall hholds w (List.mem_of_getElem? hw) hpc

/-! Where the condition fails, `Stop` is lost: it cannot get past the worker
that waits for it, which is not over, and the worker cannot get past the
mutex. -/

/-- `Stop` is joining its workers. -/
def Control.joins : Control → Bool
  | .stop _ (.join _) | .stop _ (.joining _) | .stop _ (.clear _)
  | .stop _ (.clearJoining _) => true
  | _ => false

/-- `Stop` is joining, and somebody has yet to register. -/
def Jammed (s : State) : Prop :=
  s.control.joins = true ∧ ∃ w ∈ s.workers, w.native.pc = .registration

theorem Control.holds_of_joins {c : Control} (h : c.joins = true) :
    c.holdsWorkerMutex = true := by
  cases c with
  | idle _ | start _ => cases h
  | stop p pc => cases pc <;> first | rfl | cases h

theorem Hop.still_joins {s : State} {c c' : Control} (h : Hop s c c')
    (hc : c.joins = true) :
    c'.joins = true := by
  cases h <;> first | rfl | cases hc

theorem Move.jammed {cfg : Config} {s s' : State} {a : Action} (hwired : Wired s)
    (hs : Jammed s) (h : Move cfg s a s') : Jammed s' := by
  obtain ⟨hjoins, hsome⟩ := hs
  have hheld := Control.holds_of_joins hjoins
  cases h with
  | notifies _ _ hw hpc | ends hw hpc | spurious hw hpc =>
      refine ⟨hjoins, exists_mem_set hsome hw fun h => ?_⟩
      rw [hpc] at h
      cases h
  | registers _ _ hfree | expands _ _ _ hfree =>
      rw [State.workerMutexFree, hheld] at hfree
      simp at hfree
  | loops hw hstep =>
      exact ⟨hjoins, exists_mem_set hsome hw fun h => absurd h hstep.not_registration.1⟩
  | hop hhop => exact ⟨hhop.still_joins hjoins, hsome⟩
  | joined hc hw | destroyJoined hc hw =>
      exact ⟨rfl, exists_mem_set hsome hw id⟩
  | cleared hc =>
      obtain ⟨w, hw, hpc⟩ := hsome
      have hended := hwired.ended_of_clear hc w hw
      rw [hpc] at hended
      cases hended
  | marks _ _ hw | expandThrows _ _ _ hw => exact ⟨hjoins, exists_mem_set hsome hw id⟩
  | shrinkNotifies =>
      obtain ⟨w, hw, hpc⟩ := hsome
      exact ⟨hjoins, w, List.mem_map.mpr ⟨w, hw, if_neg (by rw [hpc]; simp)⟩, hpc⟩
  | callsStart hc | callsStop _ hc | storeRunning hc | startFails _ _ hc
  | startUnmonitored _ hc | starts hc | clearMonitoring hc | joinsMonitor hc
  | clearRunning hc | notifiesAll hc | resetCount hc | clearTasks hc =>
      rw [hc] at hjoins
      cases hjoins
  | _ => exact ⟨hjoins, hsome⟩

/-- If somebody has yet to register when `Stop` takes the mutex, `Stop` never
gives it back. -/
theorem jammed_of_lock {cfg : Config} {s s' s'' : State} {a : Action}
    (hr : (pool cfg).Reachable s) (hnot : ¬LockRegistered s a)
    (hstep : (pool cfg).step s a = some s') (hrun : (pool cfg).Leads s' s'') :
    s''.control.holdsWorkerMutex = true := by
  have hr' := ReachableWhen.step hr trivial hstep
  have hjammed : Jammed s' := by
    simp only [LockRegistered, not_forall, not_not] at hnot
    obtain ⟨hctl, hlocking, w, hw, hpc⟩ := hnot
    cases a with
    | control creates timedOut =>
        cases hc : s.control with
        | idle _ | start _ =>
            rw [hc] at hlocking
            cases hlocking
        | stop p pc =>
            rw [hc] at hlocking
            cases pc with
            | lock =>
                simp only [pool, step, controlStep, hc, stopStep] at hstep
                split at hstep
                · rw [Option.some.injEq] at hstep
                  rw [← hstep]
                  exact ⟨rfl, w, hw, hpc⟩
                · cases hstep
            | _ => cases hlocking
    | _ => cases hctl
  have hstill := hrun.stable hr' hjammed fun _ _ _ hr hs hstep =>
    (move_of_step hr hstep).jammed (wired_of_reachable hr) hs
  exact Control.holds_of_joins hstill.1

end ThreadPool.Normal
