import ThreadPool.Normal.Conservation
import ThreadPool.Normal.Shutdown

/-!
# What is left in the queue when `running_` is false

The flag that tells `Stop`'s callers that the pool is closing is also the
loop condition of every worker. Once it is false a worker that is past the
test and short of its pop attempt takes at most one more task, and no other
worker takes any. So the workers that are `pending` when the flag falls are
all the pops there will be, and whether the queue empties is a matter of
counting tasks against them.

One lemma says that (`Move.backlog`): while the flag is false a move leaves
queue and pending workers as they are, or takes one of each, or is a push,
or is `Stop`'s own clear. Two laws follow from it, each for the runs in which
no push and no `Stop` upsets the count: `Stop(WaitForAll)` is never left
waiting for a queue that nobody can empty, and it discards no task. And each
with its converse, since a count that is upset stays so.
-/

namespace ThreadPool.Normal

open Interleave Machine

/-- Past the loop condition and yet to make the pop attempt. -/
def Worker.pending (w : Worker) : Bool :=
  match w.native.pc with
  | .setIdle | .setIdleTime | .wait | .window | .blocked _ | .clearIdle | .pop => true
  | _ => false

theorem Worker.not_pending_of_ended {w : Worker} (h : w.native.pc.isEnded = true) :
    w.pending = false := by
  unfold Worker.pending
  cases hpc : w.native.pc <;> rw [hpc] at h <;> first | rfl | cases h

/-- The task a step pushes, if it pushes one. -/
def State.pushes (s : State) : Action → Option Task
  | .enqueue k _ =>
      match s.calls[k]? with
      | some c => if c.pc = .push then some c.task else none
      | none => none
  | _ => none

/-- What a move does to the queue and to the pending workers while `running_`
is false. -/
inductive Backlog (s : State) (a : Action) (s' : State) : Prop where
  | same (htasks : s'.sh.tasks = s.sh.tasks)
      (hpending : s'.census Worker.pending = s.census Worker.pending)
  | pops (htasks : s'.sh.tasks = s.sh.tasks.tail)
      (hpending : s.census Worker.pending = s'.census Worker.pending + 1)
  | pushes (t : Task) (hpush : s.pushes a = some t)
      (htasks : s'.sh.tasks = s.sh.tasks ++ [t])
      (hpending : s'.census Worker.pending = s.census Worker.pending)
  | clears {p : ShutdownPolicy} (hc : s.control = .stop p .tasks) (htasks : s'.sh.tasks = [])
      (hdiscarded : discarded s'.sh.hist = discarded s.sh.hist ++ s.sh.tasks)

/-- While `running_` is false a thread in the loop can only stop being
pending, and takes a task if there is one. -/
theorem LoopStep.backlog {sh sh' : Shared} {free throws : Bool} {w : Worker}
    {pc' : WorkerPc} {fl' : Flags}
    (h : LoopStep sh free w.native.self throws w.native.pc w.flags sh' pc' fl')
    (hrun : sh.running = false) :
    (sh'.tasks = sh.tasks ∧ ({ w with flags := fl' }.goto pc').pending = w.pending) ∨
      (sh'.tasks = sh.tasks.tail ∧ w.pending = true ∧
        ({ w with flags := fl' }.goto pc').pending = false) := by
  have hpending := Worker.pending.eq_1 w
  generalize w.native.pc = pc at h hpending
  cases h with
  | goesOn hrunning =>
      rw [hrun] at hrunning
      cases hrunning
  | passes hwait | sleeps hwait =>
      rcases hwait with rfl | rfl <;> exact Or.inl ⟨rfl, hpending.symm⟩
  | misses hfree htasks => exact Or.inr ⟨by rw [htasks]; rfl, hpending, rfl⟩
  | pops t rest hfree htasks => exact Or.inr ⟨by rw [htasks]; rfl, hpending, rfl⟩
  | _ => exact Or.inl ⟨rfl, hpending.symm⟩

theorem Move.backlog {cfg : Config} {s s' : State} {a : Action} (hwired : Wired s)
    (hrun : s.sh.running = false) (h : Move cfg s a s') : Backlog s a s' := by
  cases h with
  | @pushes k pick c hc hpc =>
      exact .pushes c.task (by simp [State.pushes, hc, hpc]) rfl rfl
  | notifies _ _ hw hblocked | spurious hw hblocked =>
      exact .same rfl (census_put_same hw (by simp [Worker.pending, Worker.goto, hblocked]))
  | registers hw hpc | ends hw hpc =>
      exact .same rfl (census_put_same hw (by simp [Worker.pending, Worker.goto, hpc]))
  | @loops j throws w sh pc fl hw hstep =>
      rcases hstep.backlog hrun with ⟨htasks, hsame⟩ | ⟨htasks, hold, hnew⟩
      · exact .same htasks (census_put_same hw hsame)
      · exact .pops htasks (census_put_lose hw _ hold hnew)
  | startFails _ _ hc | startUnmonitored _ hc | starts hc =>
      rw [hwired.running_at hc rfl] at hrun
      cases hrun
  | notifiesAll | shrinkNotifies =>
      exact .same rfl (countP_notifyAll
        (fun w hblocked => by simp [Worker.pending, Worker.goto, hblocked]) _)
  | joined _ hw | destroyJoined _ hw | marks _ _ hw | expandThrows _ _ _ hw =>
      exact .same rfl (census_put_same hw rfl)
  | cleared hc =>
      have hnone : ∀ w ∈ s.workers, ¬w.pending = true := by
        intro w hw hpending
        rw [Worker.not_pending_of_ended (hwired.ended_of_clear hc w hw)] at hpending
        cases hpending
      exact .same rfl (List.countP_eq_zero.mpr hnone).symm
  | clearTasks hc => exact .clears hc rfl (readings_discard _ _).2.2.2.2.2.2
  | expands _ hm hpc =>
      rw [hwired.running_of_monitor hm (by simp [hpc])] at hrun
      cases hrun
  | _ => exact .same rfl rfl

theorem step_pushes {cfg : Config} {s s' : State} {a : Action} {t : Task}
    (h : s.pushes a = some t) (hstep : step cfg s a = some s') :
    s'.sh.tasks = s.sh.tasks ++ [t] ∧ s'.workers = s.workers ∧ s'.control = s.control ∧
      s'.sh.running = s.sh.running := by
  unfold State.pushes at h
  split at h
  · next k pick =>
      split at h
      · next c hc =>
          split at h
          · next hpc =>
              rw [Option.some.injEq] at h
              simp only [step, enqueueStep, hc, hpc] at hstep
              split at hstep
              · rw [Option.some.injEq] at hstep
                rw [← hstep, ← h]
                exact ⟨rfl, rfl, rfl, rfl⟩
              · cases hstep
          · cases h
      · cases h
  · cases h

/-! ## `Stop(WaitForAll)` waiting for nobody -/

/-- `Stop(WaitForAll)` is about to store `running_ = false`. -/
def Control.closing : Control → Bool
  | .stop p .running => p = .waitForAll
  | _ => false

theorem Control.closing_iff {c : Control} :
    c.closing = true ↔ ∃ p, c = .stop p .running ∧ p = .waitForAll := by
  constructor
  · intro h
    cases c with
    | idle _ | start _ => cases h
    | stop p pc => cases pc <;> first | exact ⟨p, rfl, of_decide_eq_true h⟩ | cases h
  · rintro ⟨p, rfl, rfl⟩
    rfl

/-- It has stored it, and has not seen the queue empty. -/
def Control.draining : Control → Bool
  | .stop p .notifyAll | .stop p .wait => p = .waitForAll
  | _ => false

/-- `Stop(WaitForAll)` waits for tasks that nobody can take any more. -/
def Stuck (s : State) : Prop :=
  s.control = .stop .waitForAll .wait ∧ s.sh.tasks ≠ [] ∧
    ∀ w ∈ s.workers, w.live = false

/-- There are no more tasks than pending workers when `Stop(WaitForAll)`
stores the flag, and still none too many after a push that comes while it
drains. -/
def Drainable (s : State) (a : Action) : Prop :=
  (a.isControl = true → s.control.closing = true →
    s.sh.tasks.length ≤ s.census Worker.pending) ∧
  (s.control.draining = true → (s.pushes a).isSome = true →
    s.sh.tasks.length < s.census Worker.pending)

instance (s : State) (a : Action) : Decidable (Drainable s a) :=
  inferInstanceAs (Decidable ((_ → _ → _) ∧ (_ → _ → _)))

/-- Every queued task has a pending worker. -/
def Drains (s : State) : Prop :=
  s.control.draining = true → s.sh.tasks.length ≤ s.census Worker.pending

theorem Control.runningIs_of_draining {c : Control} (h : c.draining = true) :
    c.runningIs = some false := by
  cases c with
  | idle _ | start _ => cases h
  | stop p pc => cases pc <;> first | rfl | cases h

theorem Hop.draining {s : State} {c c' : Control} (h : Hop s c c')
    (hd : c'.draining = true) : c.draining = true := by
  cases h <;> first | exact hd | cases hd

theorem Move.draining {cfg : Config} {s s' : State} {a : Action} (h : Move cfg s a s')
    (hd : s'.control.draining = true) :
    s.control.draining = true ∨
      (a.isControl = true ∧ s.control.closing = true ∧ s'.sh.tasks = s.sh.tasks ∧
        s'.workers = s.workers) := by
  cases h with
  | hop hhop => exact Or.inl (hhop.draining hd)
  | clearRunning hc => exact Or.inr ⟨rfl, by rw [hc]; exact hd, rfl, rfl⟩
  | notifiesAll hc => exact Or.inl (by rw [hc]; exact hd)
  | _ => first | exact Or.inl hd | cases hd

theorem Move.drains {cfg : Config} {s s' : State} {a : Action} (hwired : Wired s)
    (hok : Drainable s a) (hs : Drains s) (h : Move cfg s a s') : Drains s' := by
  intro hd
  rcases h.draining hd with hold | ⟨hcontrol, hclosing, htasks, hworkers⟩
  · have hle := hs hold
    cases h.backlog hwired (hwired.runFlag false (Control.runningIs_of_draining hold)) with
    | same htasks hpending =>
        rw [htasks, hpending]
        exact hle
    | pops htasks hpending =>
        rw [htasks, List.length_tail]
        omega
    | pushes t hpush htasks hpending =>
        have hlt := hok.2 hold (by rw [hpush]; rfl)
        rw [htasks, List.length_append, List.length_singleton, hpending]
        omega
    | clears _ htasks =>
        rw [htasks]
        exact Nat.zero_le _
  · rw [htasks, State.census, hworkers]
    exact hok.1 hcontrol hclosing

theorem Worker.live_of_pending {w : Worker} (h : w.pending = true) : w.live = true := by
  unfold Worker.pending at h
  unfold Worker.live
  cases hpc : w.native.pc <;> rw [hpc] at h <;> first | rfl | cases h

/-- In the runs in which the tasks never outnumber the pending workers,
`Stop(WaitForAll)` is never stuck. -/
theorem not_stuck {cfg : Config} {s : State}
    (hr : (pool cfg).ReachableWhen Drainable s) : ¬Stuck s := by
  have hdrains : Drains s :=
    ReachableWhen.invariant hr (fun h => by cases h) fun _ _ _ hr hs hok hstep =>
      (move_of_step hr.reachable hstep).drains (wired_of_reachable hr.reachable) hok hs
  rintro ⟨hc, htasks, hgone⟩
  have hle := hdrains (by rw [hc]; rfl)
  have hpos : 0 < s.census Worker.pending :=
    Nat.lt_of_lt_of_le (List.length_pos_iff.mpr htasks) hle
  obtain ⟨w, hw, hpending⟩ := List.countP_pos_iff.mp hpos
  have hlive := Worker.live_of_pending hpending
  rw [hgone w hw] at hlive
  cases hlive

/-! Where the condition fails there is a task too many, and there is from then
on: each pop takes a task and a pending worker. -/

/-- `Stop(WaitForAll)` drains, and the tasks outnumber the pending workers. -/
def Overfull (s : State) : Prop :=
  s.control.draining = true ∧ s.census Worker.pending < s.sh.tasks.length

theorem Hop.still_draining {s : State} {c c' : Control} (h : Hop s c c')
    (hd : c.draining = true) (htasks : s.sh.tasks ≠ []) : c'.draining = true := by
  cases h with
  | waits => exact hd
  | waited hdone => exact absurd (hdone (of_decide_eq_true hd)) htasks
  | _ => cases hd

theorem Move.still_draining {cfg : Config} {s s' : State} {a : Action}
    (h : Move cfg s a s') (hd : s.control.draining = true) (htasks : s.sh.tasks ≠ []) :
    s'.control.draining = true := by
  cases h with
  | hop hhop => exact hhop.still_draining hd htasks
  | notifiesAll hc =>
      rw [hc] at hd
      exact hd
  | callsStart hc | callsStop _ hc | storeRunning hc | startFails _ _ hc
  | startUnmonitored _ hc | starts hc | clearMonitoring hc | joinsMonitor hc
  | clearRunning hc | joined hc | destroyJoined hc | cleared hc | resetCount hc
  | clearTasks hc =>
      rw [hc] at hd
      cases hd
  | _ => exact hd

theorem Move.overfull {cfg : Config} {s s' : State} {a : Action} (hwired : Wired s)
    (hs : Overfull s) (h : Move cfg s a s') : Overfull s' := by
  obtain ⟨hd, hlt⟩ := hs
  have htasks : s.sh.tasks ≠ [] := List.ne_nil_of_length_pos (by omega)
  have hd' := h.still_draining hd htasks
  refine ⟨hd', ?_⟩
  cases h.backlog hwired (hwired.runFlag false (Control.runningIs_of_draining hd)) with
  | same htasks hpending =>
      rw [htasks, hpending]
      exact hlt
  | pops htasks hpending =>
      rw [htasks, List.length_tail]
      omega
  | pushes t _ htasks hpending =>
      rw [htasks, List.length_append, hpending]
      omega
  | clears hc =>
      rw [hc] at hd
      cases hd

/-- A step that does not meet the condition makes one task too many. -/
theorem overfull_of_step {cfg : Config} {s s' : State} {a : Action}
    (hnot : ¬Drainable s a) (hstep : step cfg s a = some s') : Overfull s' := by
  simp only [Drainable, not_and_or, Classical.not_imp, Nat.not_le, Nat.not_lt] at hnot
  rcases hnot with ⟨hcontrol, hclosing, hlt⟩ | ⟨hd, hpush, hle⟩
  · obtain ⟨creates, timedOut, rfl⟩ := Action.isControl_iff.mp hcontrol
    obtain ⟨p, hc, hp⟩ := Control.closing_iff.mp hclosing
    simp only [step, controlStep, hc, stopStep, Option.some.injEq] at hstep
    rw [← hstep]
    exact ⟨decide_eq_true hp, hlt⟩
  · obtain ⟨t, ht⟩ := Option.isSome_iff_exists.mp hpush
    obtain ⟨htasks, hworkers, hc, -⟩ := step_pushes ht hstep
    refine ⟨by rw [hc]; exact hd, ?_⟩
    rw [State.census, hworkers, htasks, List.length_append]
    exact Nat.lt_succ_of_le hle

/-- `Stop(WaitForAll)` is never stuck in the runs in which the tasks never
outnumber the pending workers; and once they do, it never gets to the end of
its loop, and never sees the queue empty. -/
theorem never_stuck {cfg : Config} :
    (∀ s, (pool cfg).ReachableWhen Drainable s → ¬Stuck s) ∧
      ∀ s a s' s'', (pool cfg).Reachable s → ¬Drainable s a →
        (pool cfg).step s a = some s' → (pool cfg).Leads s' s'' →
        s''.control.draining = true ∧ s''.sh.tasks ≠ [] := by
  refine ⟨fun s hr => not_stuck hr, fun s a s' s'' hr hnot hstep hrun => ?_⟩
  have hover :=
    hrun.stable (ReachableWhen.step hr trivial hstep) (overfull_of_step hnot hstep)
      fun _ _ _ hr hs hstep => (move_of_step hr hstep).overfull (wired_of_reachable hr) hs
  exact ⟨hover.1, List.ne_nil_of_length_pos (Nat.zero_lt_of_lt hover.2)⟩

/-- The only worker is busy with the first of two tasks when the flag falls. -/
theorem stuck_draining :
    ¬∀ cfg : Config, 0 < cfg.minThreads →
      ∀ s, (pool cfg).ReachableWhen Returning s → ¬Stuck s := by
  intro hall
  obtain ⟨s, hr, hstuck⟩ := exists_of_runWhen (pool (.ofHardware 1)) Returning
    (starting 2 ++ enqueuing 0 true ++ enqueuing 1 true ++ works 0 11 ++
      stopping .waitForAll ++ controls 2 ++ works 0 6)
    (fun s => s.control = .stop .waitForAll .wait ∧ s.sh.tasks ≠ [] ∧
      ∀ w ∈ s.workers, w.live = false)
    (by decide +kernel)
  exact hall _ (by decide) s hr hstuck

/-- A task is queued, and the only worker is past its test, when the flag falls.
It takes the task, and leaves behind it. -/
theorem never_stuck_run : ∃ s s' : State,
    s.control = .stop .waitForAll .wait ∧ s.sh.tasks = [⟨0, true⟩] ∧ ¬Stuck s ∧
      s'.control = .stop .waitForAll .wait ∧ finished s'.sh.hist = [⟨0, true⟩] ∧
      (∀ w ∈ s'.workers, w.live = false) ∧ ¬Stuck s' := by
  obtain ⟨s, hr, hc, htasks, hnext⟩ := exists_of_runWhen (pool (.ofHardware 1)) Drainable
    (starting 2 ++ enqueuing 0 true ++ works 0 7 ++ stopping .waitForAll ++ controls 2)
    (fun s => s.control = .stop .waitForAll .wait ∧ s.sh.tasks = [⟨0, true⟩] ∧
      (((pool (.ofHardware 1)).runWhen Drainable s (works 0 11)).any fun s' =>
        decide (s'.control = .stop .waitForAll .wait ∧
          finished s'.sh.hist = [⟨0, true⟩] ∧ ∀ w ∈ s'.workers, w.live = false)) = true)
    (by decide +kernel)
  obtain ⟨s', hrun, hc', hfinished, hgone⟩ := exists_leads_of_runWhen _ _ _ hnext
  exact ⟨s, s', hc, htasks, never_stuck.1 s hr, hc', hfinished, hgone,
    never_stuck.1 s' (hr.trans hrun)⟩

/-! ## Tasks lost to `Stop(WaitForAll)` -/

/-- Between the store of `running_ = false` and the end of the waiting loop. -/
def Control.awaiting : Control → Bool
  | .stop _ .notifyAll | .stop _ .wait => true
  | _ => false

/-- `running_` is false and nobody waits for the queue to empty any more:
`Stop` is past its waiting loop, or has returned. -/
def State.late (s : State) : Bool := !s.sh.running && !s.control.awaiting

/-- The controlling thread calls `Stop` with another policy. -/
def Action.abandons : Action → Bool
  | .stop p => p ≠ .waitForAll
  | _ => false

/-- Every `Stop` is a `Stop(WaitForAll)`, and a task that is pushed late finds
a pending worker more than there are tasks before it. -/
def Retained (s : State) (a : Action) : Prop :=
  a.abandons = false ∧
    (s.late = true → (s.pushes a).any Task.callable = true →
      s.sh.tasks.length < s.census Worker.pending)

instance (s : State) (a : Action) : Decidable (Retained s a) :=
  inferInstanceAs (Decidable (_ ∧ (_ → _ → _)))

/-- What is left in the queue late, other than empty tasks, will be taken. -/
def Fits (tasks : List Task) (n : Nat) : Prop :=
  ∀ i t, tasks[i]? = some t → t.callable = true → i < n

/-- The law of the runs in which every late task is retained. -/
structure Keeps (s : State) : Prop where
  policy : ∀ p pc, s.control = .stop p pc → p = .waitForAll
  fits : s.late = true → Fits s.sh.tasks (s.census Worker.pending)
  discarded : ∀ t ∈ discarded s.sh.hist, t.callable = false

theorem Fits.nil (n : Nat) : Fits [] n := nofun

theorem Fits.tail {tasks : List Task} {n : Nat} (h : Fits tasks (n + 1)) :
    Fits tasks.tail n := by
  intro i t hi hcall
  rw [List.getElem?_tail] at hi
  have hlt := h (i + 1) t hi hcall
  omega

theorem Fits.concat {tasks : List Task} {n : Nat} {t : Task} (h : Fits tasks n)
    (ht : t.callable = true → tasks.length < n) : Fits (tasks ++ [t]) n := by
  refine forall_getElem?_append h fun k u hu => ?_
  cases k with
  | zero =>
      rw [List.getElem?_cons_zero, Option.some.injEq] at hu
      rw [← hu]
      exact ht
  | succ k => cases hu

/-- Only `Stop` with another policy leaves its waiting loop while tasks are
queued. -/
theorem Hop.late {s : State} {c c' : Control} (h : Hop s c c')
    (hpolicy : ∀ p pc, c = .stop p pc → p = .waitForAll)
    (hc' : c'.awaiting = false) : c.awaiting = false ∨ s.sh.tasks = [] := by
  cases h with
  | waits => cases hc'
  | waited hdone => exact Or.inr (hdone (hpolicy _ _ rfl))
  | _ => exact Or.inl rfl

/-- Late is where `Stop(WaitForAll)` has seen the queue empty, and it lasts
until the next `Start`. -/
theorem Move.late {cfg : Config} {s s' : State} {a : Action}
    (hpolicy : ∀ p pc, s.control = .stop p pc → p = .waitForAll)
    (h : Move cfg s a s') (hlate : s'.late = true) :
    s.late = true ∨ s'.sh.tasks = [] := by
  simp only [State.late, Bool.and_eq_true, Bool.not_eq_true'] at hlate ⊢
  obtain ⟨hrun, hc'⟩ := hlate
  cases h with
  | hop hhop =>
      exact (hhop.late hpolicy hc').imp_left fun hc => ⟨hrun, hc⟩
  | loops _ hstep => exact Or.inl ⟨hstep.running_eq.symm.trans hrun, hc'⟩
  | storeRunning => cases hrun
  | clearRunning | notifiesAll => cases hc'
  | callsStart hc | callsStop _ hc | startFails _ _ hc | startUnmonitored _ hc | starts hc
  | clearMonitoring hc | joinsMonitor hc | joined hc | destroyJoined hc | cleared hc
  | resetCount hc | clearTasks hc =>
      exact Or.inl ⟨hrun, by rw [hc]; rfl⟩
  | _ => exact Or.inl ⟨hrun, hc'⟩

theorem Hop.policy {s : State} {c c' : Control} (h : Hop s c c')
    (hpolicy : ∀ p pc, c = .stop p pc → p = .waitForAll) :
    ∀ p pc, c' = .stop p pc → p = .waitForAll := by
  intro p pc hc'
  cases h <;> cases hc' <;> exact hpolicy _ _ rfl

theorem Move.policy {cfg : Config} {s s' : State} {a : Action} (hok : Retained s a)
    (hpolicy : ∀ p pc, s.control = .stop p pc → p = .waitForAll)
    (h : Move cfg s a s') : ∀ p pc, s'.control = .stop p pc → p = .waitForAll := by
  intro p pc hc'
  cases h with
  | hop hhop => exact hhop.policy hpolicy p pc hc'
  | callsStop q =>
      cases hc'
      simpa [Action.abandons] using hok.1
  | clearMonitoring hc | joinsMonitor hc | clearRunning hc | notifiesAll hc | joined hc
  | destroyJoined hc | cleared hc | resetCount hc =>
      cases hc'
      exact hpolicy _ _ hc
  | _ => first | exact hpolicy p pc hc' | cases hc'

theorem LoopStep.discarded_eq {sh sh' : Shared} {free throws : Bool} {self : Nat}
    {pc pc' : WorkerPc} {fl fl' : Flags}
    (h : LoopStep sh free self throws pc fl sh' pc' fl') :
    discarded sh'.hist = discarded sh.hist := by
  cases h <;> simp [WorkEvent.discarded?]

/-- Only `Stop`'s clear discards, and it discards what is queued. -/
theorem Move.discarded {cfg : Config} {s s' : State} {a : Action}
    (h : Move cfg s a s') :
    discarded s'.sh.hist = discarded s.sh.hist ∨
      (discarded s'.sh.hist = discarded s.sh.hist ++ s.sh.tasks ∧
        ∃ p, s.control = .stop p .tasks) := by
  cases h with
  | pushes => exact Or.inl (by simp [WorkEvent.discarded?])
  | loops _ hstep => exact Or.inl hstep.discarded_eq
  | clearTasks hc =>
      exact Or.inr ⟨(readings_discard _ _).2.2.2.2.2.2, _, hc⟩
  | _ => exact Or.inl rfl

theorem Move.keeps {cfg : Config} {s s' : State} {a : Action} (hwired : Wired s)
    (hok : Retained s a) (hs : Keeps s) (h : Move cfg s a s') : Keeps s' := by
  refine ⟨h.policy hok hs.policy, fun hlate => ?_, fun t ht => ?_⟩
  · rcases h.late hs.policy hlate with hold | hnil
    · have hfits := hs.fits hold
      have hrun : s.sh.running = false := by
        simp only [State.late, Bool.and_eq_true, Bool.not_eq_true'] at hold
        exact hold.1
      cases h.backlog hwired hrun with
      | same htasks hpending =>
          rw [htasks, hpending]
          exact hfits
      | pops htasks hpending =>
          rw [hpending] at hfits
          rw [htasks]
          exact hfits.tail
      | pushes t hpush htasks hpending =>
          rw [htasks, hpending]
          exact hfits.concat fun hcall => hok.2 hold (by rw [hpush]; exact hcall)
      | clears _ htasks =>
          rw [htasks]
          exact Fits.nil _
    · rw [hnil]
      exact Fits.nil _
  · rcases h.discarded with hsame | ⟨hmore, p, hc⟩
    · exact hs.discarded t (hsame ▸ ht)
    · rw [hmore] at ht
      rcases List.mem_append.mp ht with hold | hqueued
      · exact hs.discarded t hold
      · -- by now there are no workers, so nothing fits that could be called
        have hnil := hwired.emptied p (Or.inr hc)
        have hlate : s.late = true := by
          rw [State.late, hwired.running_at hc rfl, hc]
          rfl
        obtain ⟨i, hi⟩ := List.mem_iff_getElem?.mp hqueued
        have hfits := hs.fits hlate i t hi
        rw [State.census, hnil] at hfits
        rw [← Bool.not_eq_true]
        exact fun hcall => absurd (hfits hcall) (Nat.not_lt_zero i)

theorem keeps_of_reachableWhen {cfg : Config} {s : State}
    (hr : (pool cfg).ReachableWhen Retained s) : Keeps s :=
  hr.invariant ⟨nofun, fun _ => Fits.nil _, nofun⟩ fun _ _ _ hr hs hok hstep =>
    (move_of_step hr.reachable hstep).keeps (wired_of_reachable hr.reachable) hok hs

/-- In the runs in which every late task is retained, `Stop(WaitForAll)`
discards nothing but empty tasks, and where it has returned every other
accepted task has been started, once, and none is left. -/
theorem settled_of_retained {cfg : Config} {s : State}
    (hr : (pool cfg).ReachableWhen Retained s) :
    (∀ t ∈ discarded s.sh.hist, t.callable = false) ∧
      (s.sh.running = false → s.control.resting = true →
        ∀ t ∈ accepted s.sh.hist, t.callable = true →
          t ∉ s.sh.tasks ∧ (started s.sh.hist).count t = 1) := by
  have hkeeps := keeps_of_reachableWhen hr
  refine ⟨hkeeps.discarded, fun hrun hrest t ht hcall => ?_⟩
  have hnil := (wired_of_reachable hr.reachable).resting hrest hrun
  have hlate : s.late = true := by
    rw [State.late, hrun]
    cases hc : s.control with
    | idle _ | start _ => rfl
    | stop p pc => rw [hc] at hrest; cases pc <;> first | rfl | cases hrest
  have hqueued : t ∉ s.sh.tasks := by
    intro hmem
    obtain ⟨i, hi⟩ := List.mem_iff_getElem?.mp hmem
    have hfits := hkeeps.fits hlate i t hi hcall
    rw [State.census, hnil] at hfits
    exact absurd hfits (Nat.not_lt_zero i)
  refine ⟨hqueued, ?_⟩
  have hlaw := lawful_of_reachable hr.reachable
  have hcount : (accepted s.sh.hist).count t = 1 :=
    Nat.le_antisymm (hlaw.accepted_count_le t) (List.count_pos_iff.mpr ht)
  have hdropped : (dropped s.sh.hist).count t = 0 := by
    refine List.count_eq_zero.mpr fun hmem => ?_
    rw [(tested_of_reachable hr.reachable).dropped t hmem] at hcall
    cases hcall
  have hdiscarded : (discarded s.sh.hist).count t = 0 := by
    refine List.count_eq_zero.mpr fun hmem => ?_
    rw [hkeeps.discarded t hmem] at hcall
    cases hcall
  have hbalance := hlaw.balance t
  simp only [State.queue, inHands_held, hnil, List.countP_nil] at hbalance
  rw [hcount, hdropped, hdiscarded, List.count_eq_zero.mpr hqueued] at hbalance
  omega

/-! A late push that does not meet the condition loses its task: there are as
many tasks before it as will be taken, so it stays where it is until it is
discarded or the pool is started again. -/

/-- `Start` stores `running_ = true`. -/
def Reopens (s : State) (a : Action) : Prop :=
  a.isControl = true ∧ s.control = .start .store

/-- `t` is discarded, or will not be taken while `running_` is false. -/
def Doomed (t : Task) (s : State) : Prop :=
  s.sh.running = false ∧
    (t ∈ discarded s.sh.hist ∨
      ∃ i, s.sh.tasks[i]? = some t ∧ s.census Worker.pending ≤ i)

theorem Move.still_stopped {cfg : Config} {s s' : State} {a : Action}
    (h : Move cfg s a s') (hrun : s.sh.running = false) (hshut : ¬Reopens s a) :
    s'.sh.running = false := by
  rw [← Bool.not_eq_true]
  intro hrun'
  rcases h.running_cases hrun' with hold | ⟨hcontrol, hc, -⟩
  · rw [hrun] at hold
    cases hold
  · exact hshut ⟨hcontrol, hc⟩

theorem Move.doomed {cfg : Config} {s s' : State} {a : Action} {t : Task}
    (hwired : Wired s) (hshut : ¬Reopens s a) (hs : Doomed t s) (h : Move cfg s a s') :
    Doomed t s' := by
  obtain ⟨hrun, hlost⟩ := hs
  refine ⟨h.still_stopped hrun hshut, ?_⟩
  rcases hlost with hgone | ⟨i, hi, hle⟩
  · refine Or.inl ?_
    rcases h.discarded with hsame | ⟨hmore, -⟩
    · rw [hsame]
      exact hgone
    · rw [hmore]
      exact List.mem_append_left _ hgone
  · cases h.backlog hwired hrun with
    | same htasks hpending =>
        refine Or.inr ⟨i, by rw [htasks]; exact hi, ?_⟩
        rw [hpending]
        exact hle
    | pops htasks hpending =>
        obtain ⟨i, rfl⟩ : ∃ k, i = k + 1 := ⟨i - 1, by omega⟩
        refine Or.inr ⟨i, ?_, by omega⟩
        rw [htasks, List.getElem?_tail]
        exact hi
    | pushes u _ htasks hpending =>
        refine Or.inr ⟨i, ?_, by rw [hpending]; exact hle⟩
        rw [htasks, List.getElem?_append_left (List.getElem?_eq_some_iff.mp hi).1]
        exact hi
    | clears _ _ hdiscarded =>
        refine Or.inl ?_
        rw [hdiscarded]
        exact List.mem_append_right _ (List.mem_of_getElem? hi)

/-- Nothing is lost in the runs in which every late task is retained; and a
task that is pushed late behind as many as there are pending workers is
discarded, or in the queue still, until the pool is started again. -/
theorem nothing_lost {cfg : Config} :
    (∀ s, (pool cfg).ReachableWhen Retained s →
      (∀ t ∈ discarded s.sh.hist, t.callable = false) ∧
        (s.sh.running = false → s.control.resting = true →
          ∀ t ∈ accepted s.sh.hist, t.callable = true →
            t ∉ s.sh.tasks ∧ (started s.sh.hist).count t = 1)) ∧
      ∀ s a s' s'' t, (pool cfg).Reachable s → s.late = true → s.pushes a = some t →
        s.census Worker.pending ≤ s.sh.tasks.length →
        (pool cfg).step s a = some s' →
        (pool cfg).LeadsWhen (fun s a => ¬Reopens s a) s' s'' →
        t ∈ discarded s''.sh.hist ∨ t ∈ s''.sh.tasks := by
  refine ⟨fun s hr => settled_of_retained hr, ?_⟩
  intro s a s' s'' t hr hlate hpush hfull hstep hrun
  simp only [State.late, Bool.and_eq_true, Bool.not_eq_true'] at hlate
  obtain ⟨htasks, hworkers, -, hrunning⟩ := step_pushes hpush hstep
  have hdoomed : Doomed t s' := by
    refine ⟨hrunning.trans hlate.1, Or.inr ⟨s.sh.tasks.length, ?_, ?_⟩⟩
    · rw [htasks, List.getElem?_concat_length]
    · rw [State.census, hworkers]
      exact hfull
  have hstill := hrun.stable (ReachableWhen.step hr trivial hstep) hdoomed
    fun _ _ _ hr hs hok hstep =>
      (move_of_step hr hstep).doomed (wired_of_reachable hr) hok hs
  rcases hstill.2 with hgone | ⟨i, hi, -⟩
  · exact Or.inl hgone
  · exact Or.inr (List.mem_of_getElem? hi)

/-- The runs whose every `Stop` is a `Stop(WaitForAll)`. -/
def Patient (_ : State) (a : Action) : Prop := a.abandons = false

instance (s : State) (a : Action) : Decidable (Patient s a) :=
  inferInstanceAs (Decidable (_ = _))

/-- A call tests `running_` before `Stop` begins and pushes when `Stop` has
seen the queue empty. The call returns and its task is discarded. -/
theorem task_lost :
    ¬∀ (cfg : Config) (s : State), (pool cfg).ReachableWhen Patient s →
      (∀ c ∈ s.calls, c.pc = .returned) →
      (∀ t ∈ discarded s.sh.hist, t.callable = false) ∧
        (s.sh.running = false → s.control.resting = true →
          ∀ t ∈ accepted s.sh.hist, t.callable = true →
            t ∉ s.sh.tasks ∧ (started s.sh.hist).count t = 1) := by
  intro hall
  obtain ⟨s, hr, hcalls, t, ht, hcall⟩ :=
    exists_of_runWhen (pool (.ofHardware 1)) Patient
      (starting 2 ++ works 0 4 ++ [.call true, .enqueue 0 none] ++ stopping .waitForAll ++
        controls 3 ++ works 0 5 ++ List.replicate 3 (.enqueue 0 none) ++ controls 8)
      (fun s => (∀ c ∈ s.calls, c.pc = .returned) ∧
        ∃ t ∈ discarded s.sh.hist, t.callable = true)
      (by decide +kernel)
  rw [(hall _ s hr hcalls).1 t ht] at hcall
  cases hcall

/-- The same push, while the worker has yet to make a pop attempt. -/
theorem nothing_lost_run : ∃ s : State,
    s.control = .idle .returned ∧ s.sh.running = false ∧
      accepted s.sh.hist = [⟨0, true⟩] ∧
      (∀ t ∈ discarded s.sh.hist, t.callable = false) ∧
      (s.sh.running = false → s.control.resting = true →
        ∀ t ∈ accepted s.sh.hist, t.callable = true →
          t ∉ s.sh.tasks ∧ (started s.sh.hist).count t = 1) := by
  obtain ⟨s, hr, hc, hrun, hacc⟩ := exists_of_runWhen (pool (.ofHardware 1)) Retained
    (starting 2 ++ works 0 5 ++ [.call true, .enqueue 0 none] ++ stopping .waitForAll ++
      controls 3 ++ List.replicate 3 (.enqueue 0 none) ++ works 0 13 ++
      controls 8)
    (fun s => s.control = .idle .returned ∧ s.sh.running = false ∧
      accepted s.sh.hist = [⟨0, true⟩])
    (by decide +kernel)
  exact ⟨s, hc, hrun, hacc, nothing_lost.1 s hr⟩

end ThreadPool.Normal
