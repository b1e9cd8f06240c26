import ThreadPool.Numa.Wired

/-!
# Joining a worker that waits for `global_mutex_`

A worker registers under `global_mutex_`, which `Stop` keeps from its join
loop to its return. The explicit `Join` passes over a worker that has not
come to register, since its slot is not valid yet; but `workers_.clear()`
then destroys its `Thread`, and `~Thread` joins it.
-/

namespace ThreadPool.Numa

open Interleave Machine

def Control.locking : Control → Bool
  | .stop _ .lock => true
  | _ => false

/-- `Stop` waits for the end of a worker that waits for the mutex `Stop`
holds. -/
def Deadlocked (s : State) : Prop :=
  s.control.holdsGlobalMutex = true ∧
    ∃ p i w, (s.control = .stop p (.joining i) ∨ s.control = .stop p (.clearJoining i)) ∧
      s.workers[i]? = some w ∧ w.native.pc = .registration

/-- When `Stop` takes `global_mutex_` every worker has been through its
registration. -/
def LockRegistered (s : State) (a : Action) : Prop :=
  a.isControl = true → s.control.locking = true →
    ∀ w ∈ s.workers, w.native.pc ≠ .registration

instance (s : State) (a : Action) : Decidable (LockRegistered s a) :=
  inferInstanceAs (Decidable (_ → _ → ∀ w ∈ s.workers, _))

/-- Nobody is to register while `Stop` holds the mutex. -/
def AllRegistered (s : State) : Prop :=
  s.control.holdsGlobalMutex = true → ∀ w ∈ s.workers, w.native.pc ≠ .registration

theorem Hop.holds {cfg : Config} {s : State} {c c' : Control} (h : Hop cfg s c c')
    (hholds : c'.holdsGlobalMutex = true) :
    c.holdsGlobalMutex = true ∨ c.locking = true := by
  cases h <;> first | exact Or.inl rfl | exact Or.inr rfl | cases hholds

theorem WorkerHop.not_registration {cfg : Config} {s : State} {w w' : Worker}
    (h : WorkerHop cfg s w w') : w'.native.pc ≠ .registration := by
  cases h <;> simp [Worker.goto]

theorem LoopStep.not_registration {sh sh' : Shared} {nd nd' : NodeData}
    {free throws : Bool} {agent : Agent} {pc pc' : WorkerPc} {fl fl' : Flags}
    (h : LoopStep sh nd free agent throws pc fl sh' nd' pc' fl') :
    pc ≠ .registration ∧ pc' ≠ .registration := by
  cases h with
  | passes hpc | sleeps hpc => rcases hpc with rfl | rfl <;> exact ⟨nofun, nofun⟩
  | _ => exact ⟨nofun, nofun⟩

theorem Move.allRegistered {cfg : Config} {s s' : State} {a : Action}
    (hwired : Wired cfg s) (hok : LockRegistered s a) (hs : AllRegistered s)
    (h : Move cfg s a s') :
    AllRegistered s' := by
  intro hholds
  cases h with
  | notifies | binds => exact forall_mem_set (hs hholds) (by simp [Worker.goto])
  | workerHop _ _ hhop => exact forall_mem_set (hs hholds) hhop.not_registration
  | loops _ _ hstep => exact forall_mem_set (hs hholds) hstep.not_registration.2
  | hop hhop =>
      rcases hhop.holds hholds with hheld | hlocking
      · exact hs hheld
      · exact hok rfl hlocking
  | setsExit hc hw =>
      have hall := hs (by rw [hc]; rfl)
      have hold := hall _ (List.mem_of_getElem? hw)
      exact forall_mem_set hall hold
  | joined hc hw =>
      have hall := hs (by rcases hc with ⟨hc, -⟩ | ⟨hc, -⟩ <;> rw [hc] <;> rfl)
      have hold := hall _ (List.mem_of_getElem? hw)
      exact forall_mem_set hall hold
  | cleared => exact fun _ hw => absurd hw List.not_mem_nil
  | resetCount hc | clearTasks hc => exact hs (by rw [hc]; rfl)
  | marks _ _ hw =>
      have hold := hs hholds _ (List.mem_of_getElem? hw)
      exact forall_mem_set (hs hholds) hold
  | shrinkNotifies =>
      exact forall_mem_notifyAll (hs hholds) fun w _ _ => by simp [Worker.goto]
  | expandSpawns hm hpc =>
      have hrun := (hwired.of_monitor hm (by rw [hpc]; simp)).1
      have hfree := (hwired.not_closing hrun).1
      rw [show s.control.holdsGlobalMutex = true from hholds] at hfree
      cases hfree
  | monitorHop | monitorEnds | expandPushes => exact hs hholds
  | _ => first | exact hs hholds | cases hholds

/-- In the runs in which `Stop` takes the mutex after every registration it
never waits for a worker that waits for it. -/
theorem not_deadlocked {cfg : Config} {s : State}
    (hr : (pool cfg).ReachableWhen LockRegistered s) : ¬Deadlocked s := by
  have hall : AllRegistered s :=
    ReachableWhen.invariant hr (fun h => by cases h) fun _ _ _ hr hs hok hstep =>
      (move_of_step hr.reachable hstep).allRegistered (wired_of_reachable hr.reachable) hok hs
  rintro ⟨hholds, p, i, w, hc, hw, hpc⟩
  exact hall hholds w (List.mem_of_getElem? hw) hpc

/-! Where the condition fails, `Stop` is lost: it cannot get past the worker
that waits for it, which is not over, and the worker cannot get past the
mutex. -/

/-- `Stop` is joining its workers. -/
def Control.joins : Control → Bool
  | .stop _ (.join _) | .stop _ (.setExit _) | .stop _ (.joining _) | .stop _ (.clear _)
  | .stop _ (.clearJoining _) => true
  | _ => false

/-- `Stop` is joining, and somebody has yet to register. -/
def Jammed (s : State) : Prop :=
  s.control.joins = true ∧ ∃ w ∈ s.workers, w.native.pc = .registration

theorem Control.holds_of_joins {c : Control} (h : c.joins = true) :
    c.holdsGlobalMutex = true := by
  cases c with
  | idle _ | start _ => cases h
  | stop p pc => cases pc <;> first | rfl | cases h

theorem Hop.still_joins {cfg : Config} {s : State} {c c' : Control} (h : Hop cfg s c c')
    (hc : c.joins = true) : c'.joins = true := by
  cases h <;> first | rfl | cases hc

theorem WorkerHop.not_registration_of_held {cfg : Config} {s : State} {w w' : Worker}
    (h : WorkerHop cfg s w w') (hheld : s.control.holdsGlobalMutex = true) :
    w.native.pc ≠ .registration := by
  cases h with
  | registers _ hfree | leaves _ hfree =>
      rw [State.globalMutexFree, hheld] at hfree
      simp at hfree
  | noNode hpc | readsNode _ hpc | bindFails hpc | unbound hpc | ends _ hpc | spurious hpc =>
      rw [hpc]
      simp

theorem Move.jammed {cfg : Config} {s s' : State} {a : Action} (hwired : Wired cfg s)
    (hs : Jammed s) (h : Move cfg s a s') : Jammed s' := by
  obtain ⟨hjoins, hsome⟩ := hs
  have hheld := Control.holds_of_joins hjoins
  cases h with
  | notifies _ _ hw hasleep =>
      refine ⟨hjoins, exists_mem_set hsome hw fun h => ?_⟩
      rw [(Worker.blocked_of_asleepOn hasleep).2] at h
      cases h
  | workerHop _ hw hhop =>
      exact ⟨hjoins, exists_mem_set hsome hw fun h =>
        absurd h (hhop.not_registration_of_held hheld)⟩
  | binds hw hpc =>
      refine ⟨hjoins, exists_mem_set hsome hw fun h => ?_⟩
      rw [hpc] at h
      cases h
  | loops hw _ hstep =>
      exact ⟨hjoins, exists_mem_set hsome hw fun h => absurd h hstep.not_registration.1⟩
  | hop hhop => exact ⟨hhop.still_joins hjoins, hsome⟩
  | setsExit _ hw => exact ⟨rfl, exists_mem_set hsome hw id⟩
  | joined hc hw =>
      refine ⟨?_, exists_mem_set hsome hw id⟩
      rcases hc with ⟨-, rfl⟩ | ⟨-, rfl⟩ <;> rfl
  | cleared hc hi =>
      obtain ⟨w, hw, hpc⟩ := hsome
      have hended := hwired.ended_of_clear hc hi w hw
      rw [hpc] at hended
      cases hended
  | marks _ _ hw => exact ⟨hjoins, exists_mem_set hsome hw id⟩
  | shrinkNotifies =>
      obtain ⟨w, hw, hpc⟩ := hsome
      refine ⟨hjoins, w, List.mem_map.mpr ⟨w, hw, if_neg ?_⟩, hpc⟩
      simp [Worker.asleepOn, hpc]
  | expandSpawns =>
      obtain ⟨w, hw, hpc⟩ := hsome
      exact ⟨hjoins, w, List.mem_append_left _ hw, hpc⟩
  | callsStart hc | callsStop _ hc | storeRunning hc | spawns hc | pushesSlot hc
  | storeMonitoring hc | startUnmonitored _ hc | starts hc | clearMonitoring hc
  | joinsMonitor hc | clearRunning hc | notifiesAll hc | resetCount hc | clearTasks hc =>
      rw [hc] at hjoins
      cases hjoins
  | _ => exact ⟨hjoins, hsome⟩

/-- If somebody has yet to register when `Stop` takes the mutex, `Stop` never
gives it back. -/
theorem jammed_of_lock {cfg : Config} {s s' s'' : State} {a : Action}
    (hr : (pool cfg).Reachable s) (hnot : ¬LockRegistered s a)
    (hstep : (pool cfg).step s a = some s') (hrun : (pool cfg).Leads s' s'') :
    s''.control.holdsGlobalMutex = true := by
  have hr' := ReachableWhen.step hr trivial hstep
  have hjammed : Jammed s' := by
    simp only [LockRegistered, not_forall, not_not] at hnot
    obtain ⟨hctl, hlocking, w, hw, hpc⟩ := hnot
    cases a with
    | control creates timedOut =>
        cases hc : s.control with
        | idle _ | start _ =>
            rw [hc] at hlocking
            cases hlocking
        | stop p pc =>
            rw [hc] at hlocking
            cases pc with
            | lock =>
                simp only [pool, step, controlStep, hc, stopStep] at hstep
                split at hstep
                · rw [Option.some.injEq] at hstep
                  rw [← hstep]
                  exact ⟨rfl, w, hw, hpc⟩
                · cases hstep
            | _ => cases hlocking
    | _ => cases hctl
  have hstill := hrun.stable hr' hjammed fun _ _ _ hr hs hstep =>
    (move_of_step hr hstep).jammed (wired_of_reachable hr) hs
  exact Control.holds_of_joins hstill.1

end ThreadPool.Numa
