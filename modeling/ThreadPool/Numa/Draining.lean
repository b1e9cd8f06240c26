import ThreadPool.Numa.Locality
import ThreadPool.Numa.Headcount

/-!
# What is left on a node when `running_` is false

A worker of `NumaThreadPool` tests `running_` a second time behind its wait
and leaves without popping. So when `Stop` clears the flag, only the workers
that are already past the second test will make another pop attempt, and
each of them one, on its own node. Whether a node's queue empties is a
matter of counting, node by node, as it is for `NormalThreadPool`; there are
only fewer workers to count.
-/

namespace ThreadPool.Numa

open Interleave Machine

/-! ## Pop attempts to come -/

/-- Past both tests behind the wait, and short of the pop attempt. -/
def WorkerPc.pending : WorkerPc → Bool
  | .clearIdle | .pop => true
  | _ => false

/-- The worker is about to make a pop attempt on node `n`. -/
def Worker.pendingOn (n : Nat) (w : Worker) : Bool :=
  w.native.nodeNum = n && w.native.pc.pending

theorem Worker.not_pendingOn {w : Worker} (h : w.native.pc.pending = false) (n : Nat) :
    w.pendingOn n = false := by
  rw [Worker.pendingOn, h, Bool.and_false]

theorem WorkerPc.not_pending_of_ended {pc : WorkerPc} (h : pc.isEnded = true) :
    pc.pending = false := by
  cases pc <;> first | rfl | cases h

/-- The task a step pushes, if it pushes one, and on which node. -/
def State.pushes (s : State) : Action → Option (Nat × Task)
  | .enqueue k _ =>
      match s.calls[k]? with
      | some c => if c.pc = .push then some (c.nodeNum.toNat, c.task) else none
      | none => none
  | _ => none

/-- What a move does to a node's queue and to its pending workers while
`running_` is false. -/
inductive Backlog (n : Nat) (s : State) (a : Action) (s' : State) : Prop where
  | same (htasks : (s'.node n).tasks = (s.node n).tasks)
      (hpending : s'.census (Worker.pendingOn n) = s.census (Worker.pendingOn n))
  | pops (htasks : (s'.node n).tasks = (s.node n).tasks.tail)
      (hpending : s.census (Worker.pendingOn n) = s'.census (Worker.pendingOn n) + 1)
  | pushes (t : Task) (hpush : s.pushes a = some (n, t))
      (htasks : (s'.node n).tasks = (s.node n).tasks ++ [t])
      (hpending : s'.census (Worker.pendingOn n) = s.census (Worker.pendingOn n))
  | clears {p : ShutdownPolicy} (hc : s.control = .stop p (.tasks n))
      (htasks : (s'.node n).tasks = [])

/-- While `running_` is false a thread in the loop can only stop being
pending, and takes a task if there is one. -/
theorem LoopStep.backlog {sh sh' : Shared} {nd nd' : NodeData} {free throws : Bool}
    {agent : Agent} {pc pc' : WorkerPc} {fl fl' : Flags}
    (h : LoopStep sh nd free agent throws pc fl sh' nd' pc' fl')
    (hrun : sh.running = false) :
    (nd'.tasks = nd.tasks ∧ pc'.pending = pc.pending) ∨
      (nd'.tasks = nd.tasks.tail ∧ pc.pending = true ∧ pc'.pending = false) := by
  cases h with
  | goesOn hrunning | stillRunning hrunning =>
      rw [hrun] at hrunning
      cases hrunning
  | passes hpc | sleeps hpc => rcases hpc with rfl | rfl <;> exact Or.inl ⟨rfl, rfl⟩
  | misses hfree htasks => exact Or.inr ⟨by rw [htasks]; rfl, rfl, rfl⟩
  | pops t rest hfree htasks => exact Or.inr ⟨by rw [htasks]; rfl, rfl, rfl⟩
  | _ => exact Or.inl ⟨rfl, rfl⟩

theorem WorkerHop.not_pending {cfg : Config} {s : State} {w w' : Worker}
    (h : WorkerHop cfg s w w') :
    w.native.pc.pending = false ∧ w'.native.pc.pending = false := by
  cases h with
  | registers hpc | leaves hpc | noNode hpc | readsNode _ hpc | bindFails hpc | unbound hpc
  | ends _ hpc | spurious hpc =>
      rw [hpc]
      exact ⟨rfl, rfl⟩

theorem census_notifyAll_pending (m n : Nat) (s : State) :
    (notifyAll m s.workers).countP (Worker.pendingOn n) = s.census (Worker.pendingOn n) := by
  refine countP_notifyAll (fun w hasleep => ?_) s.workers
  have hblocked := (Worker.blocked_of_asleepOn hasleep).2
  simp [Worker.pendingOn, Worker.goto, hblocked, WorkerPc.pending]

theorem Move.backlog {cfg : Config} {s s' : State} {a : Action} (hwired : Wired cfg s)
    (hrun : s.sh.running = false) (h : Move cfg s a s') (n : Nat) :
    Backlog n s a s' := by
  cases h with
  | @pushes k pick c nd hc hpc hnd =>
      by_cases hn : c.nodeNum.toNat = n
      · refine .pushes c.task (by simp [State.pushes, hc, hpc, hn]) ?_ rfl
        rw [node_set hnd rfl, if_pos hn, ← hn, node_eq hnd]
      · refine .same ?_ rfl
        rw [node_set hnd rfl, if_neg hn]
  | notifies _ _ hw hasleep =>
      have hblocked := (Worker.blocked_of_asleepOn hasleep).2
      refine .same rfl (census_put_same hw ?_)
      rw [Worker.not_pendingOn rfl, Worker.not_pendingOn (by rw [hblocked]; rfl)]
  | workerHop _ hw hhop =>
      refine .same rfl (census_put_same hw ?_)
      rw [Worker.not_pendingOn hhop.not_pending.2, Worker.not_pendingOn hhop.not_pending.1]
  | binds hw hpc =>
      refine .same rfl (census_put_same hw ?_)
      rw [Worker.not_pendingOn rfl, Worker.not_pendingOn (by rw [hpc]; rfl)]
  | @loops j throws w sh nd nd' pc fl hw hnd hstep =>
      have hset := node_set (t := State.put
        { s with sh := sh, nodes := s.nodes.set w.native.nodeNum nd' } j
        ({ w with flags := fl }.goto pc)) hnd rfl n
      by_cases hn : w.native.nodeNum = n
      · rw [if_pos hn] at hset
        rw [hn] at hnd
        rcases hstep.backlog hrun with ⟨htasks, hsame⟩ | ⟨htasks, hold, hnew⟩
        · refine .same (by rw [hset, htasks, node_eq hnd]) (census_put_same hw ?_)
          rw [Worker.pendingOn, Worker.pendingOn, ← hsame]
          rfl
        · refine .pops (by rw [hset, htasks, node_eq hnd]) (census_put_lose hw _ ?_ ?_)
          · simp only [Worker.pendingOn, hold, hn, decide_true, Bool.and_true]
          · exact Worker.not_pendingOn hnew n
      · rw [if_neg hn] at hset
        refine .same (by rw [hset]) (census_put_same hw ?_)
        simp only [Worker.pendingOn, Worker.goto, hn, decide_false, Bool.false_and]
  | storeRunning | resetCount => exact .same rfl rfl
  | spawns hc | pushesSlot hc =>
      rw [hwired.running_at hc rfl] at hrun
      cases hrun
  | notifiesAll | shrinkNotifies => exact .same rfl (census_notifyAll_pending _ n s)
  | setsExit _ hw | joined _ hw | marks _ _ hw =>
      exact .same rfl (census_put_same hw rfl)
  | cleared hc hi =>
      have hnone : s.census (Worker.pendingOn n) = 0 := by
        refine List.countP_eq_zero.mpr fun w hw => ?_
        have hended := hwired.ended_of_clear hc hi w hw
        rw [Worker.not_pendingOn (WorkerPc.not_pending_of_ended hended)]
        simp
      exact .same rfl hnone.symm
  | @clearTasks _ _ p m nd hc hnd =>
      by_cases hn : m = n
      · refine .clears (p := p) (hn ▸ hc) ?_
        have hset := node_set (t := (s.setNode m { nd with
            tasks := []
            hist := nd.hist ++ nd.tasks.map WorkEvent.discard }).goto
          (.stop p (.tasks (m + 1)))) hnd rfl n
        rw [hset, if_pos hn]
      · refine .same ?_ rfl
        rw [node_set hnd rfl, if_neg hn]
  | expandSpawns hm hpc | expandPushes hm hpc =>
      rw [(hwired.of_monitor hm (by rw [hpc]; simp)).1] at hrun
      cases hrun
  | _ => exact .same rfl rfl

theorem step_pushes {cfg : Config} {s s' : State} {a : Action} {n : Nat} {t : Task}
    (h : s.pushes a = some (n, t)) (hstep : step cfg s a = some s') :
    (s'.node n).tasks = (s.node n).tasks ++ [t] ∧ s'.workers = s.workers ∧
      s'.control = s.control := by
  unfold State.pushes at h
  split at h
  · next k pick =>
      split at h
      · next c hc =>
          split at h
          · next hpc =>
              rw [Option.some.injEq, Prod.mk.injEq] at h
              obtain ⟨rfl, rfl⟩ := h
              simp only [step, enqueueStep, hc, hpc] at hstep
              split at hstep
              · cases hstep
              · next nd hnd =>
                  split at hstep
                  · rw [Option.some.injEq] at hstep
                    rw [← hstep, node_set hnd rfl, if_pos rfl, node_eq hnd]
                    exact ⟨rfl, rfl, rfl⟩
                  · cases hstep
          · cases h
      · cases h
  · cases h

theorem length_of_node {s : State} {n : Nat} (h : (s.node n).tasks ≠ []) :
    n < s.nodes.length := by
  refine Nat.lt_of_not_le fun hle => h ?_
  rw [State.node, List.getElem?_eq_none hle]
  rfl

/-! ## `Stop(WaitForAll)` waiting for nobody -/

/-- `Stop(WaitForAll)` is about to store `running_ = false`. -/
def Control.closing : Control → Bool
  | .stop p .running => p = .waitForAll
  | _ => false

/-- It has stored it, and has not seen all queues empty. -/
def Control.draining : Control → Bool
  | .stop p (.notifyAll _) | .stop p .wait | .stop p (.taskCount _ _) => p = .waitForAll
  | _ => false

/-- It waits for `TaskCount() == 0`. -/
def Control.waiting : Control → Bool
  | .stop p .wait | .stop p (.taskCount _ _) => p = .waitForAll
  | _ => false

/-- Its `TaskCount` is past node `n` and has found nothing so far. -/
def Control.passed (n : Nat) : Control → Bool
  | .stop _ (.taskCount k total) => n < k && total = 0
  | _ => false

/-- `Stop(WaitForAll)` waits for a task of a node whose workers will take none
any more. -/
def Stuck (s : State) : Prop :=
  s.control.waiting = true ∧ ∃ n < s.nodes.length, (s.node n).tasks ≠ [] ∧
    ∀ w ∈ s.workers, w.pendingOn n = false

/-- No node has more tasks than pending workers when `Stop(WaitForAll)` stores
the flag, and none has too many after a push that comes while it drains. -/
def Drainable (s : State) (a : Action) : Prop :=
  (a.isControl = true → s.control.closing = true → ∀ n < s.nodes.length,
    (s.node n).tasks.length ≤ s.census (Worker.pendingOn n)) ∧
  (s.control.draining = true → ∀ p ∈ s.pushes a,
    (s.node p.1).tasks.length < s.census (Worker.pendingOn p.1))

instance (s : State) (a : Action) : Decidable (Drainable s a) :=
  inferInstanceAs (Decidable ((_ → _ → ∀ n < s.nodes.length, _ ≤ _) ∧
    (_ → ∀ p ∈ s.pushes a, _ < _)))

/-- Every queued task has a pending worker on its node. -/
def Drains (s : State) : Prop :=
  s.control.draining = true → ∀ n,
    (s.node n).tasks.length ≤ s.census (Worker.pendingOn n)

theorem Control.runningIs_of_draining {c : Control} (h : c.draining = true) :
    c.runningIs = some false := by
  cases c with
  | idle _ | start _ => cases h
  | stop p pc => cases pc <;> first | rfl | cases h

theorem Control.draining_of_waiting {c : Control} (h : c.waiting = true) :
    c.draining = true := by
  cases c with
  | idle _ | start _ => cases h
  | stop p pc => cases pc <;> first | exact h | cases h

theorem Control.closing_iff {c : Control} :
    c.closing = true ↔ c = .stop .waitForAll .running := by
  constructor
  · intro h
    cases c with
    | idle _ | start _ => cases h
    | stop p pc =>
        cases pc with
        | running =>
            have hp : p = .waitForAll := of_decide_eq_true h
            rw [hp]
        | _ => cases h
  · rintro rfl
    rfl

theorem Hop.draining {cfg : Config} {s : State} {c c' : Control} (h : Hop cfg s c c')
    (hd : c'.draining = true) : c.draining = true := by
  cases h <;> first | exact hd | cases hd

theorem Move.draining {cfg : Config} {s s' : State} {a : Action} (h : Move cfg s a s')
    (hd : s'.control.draining = true) :
    s.control.draining = true ∨
      (a.isControl = true ∧ s.control.closing = true ∧ s'.nodes = s.nodes ∧
        s'.workers = s.workers) := by
  cases h with
  | hop hhop => exact Or.inl (hhop.draining hd)
  | clearRunning hc => exact Or.inr ⟨rfl, by rw [hc]; exact hd, rfl, rfl⟩
  | notifiesAll hc => exact Or.inl (by rw [hc]; exact hd)
  | joined hc => rcases hc with ⟨-, rfl⟩ | ⟨-, rfl⟩ <;> cases hd
  | _ => first | exact Or.inl hd | cases hd

theorem Move.drains {cfg : Config} {s s' : State} {a : Action} (hwired : Wired cfg s)
    (hok : Drainable s a) (hs : Drains s) (h : Move cfg s a s') : Drains s' := by
  intro hd n
  rcases h.draining hd with hold | ⟨hcontrol, hclosing, hnodes, hworkers⟩
  · have hle := hs hold n
    have hrun : s.sh.running = false :=
      hwired.runFlag false (Control.runningIs_of_draining hold)
    cases h.backlog hwired hrun n with
    | same htasks hpending =>
        rw [htasks, hpending]
        exact hle
    | pops htasks hpending =>
        rw [htasks, List.length_tail]
        omega
    | pushes t hpush htasks hpending =>
        have hlt : (s.node n).tasks.length < s.census (Worker.pendingOn n) :=
          hok.2 hold (n, t) hpush
        rw [htasks, List.length_append, List.length_singleton, hpending]
        exact hlt
    | clears _ htasks =>
        rw [htasks]
        exact Nat.zero_le _
  · rw [node_frame hnodes, State.census, hworkers]
    by_cases hnil : (s.node n).tasks = []
    · rw [hnil]
      exact Nat.zero_le _
    · exact hok.1 hcontrol hclosing n (length_of_node hnil)

/-- In the runs in which no node's tasks ever outnumber its pending workers,
`Stop(WaitForAll)` is never stuck. -/
theorem not_stuck {cfg : Config} {s : State}
    (hr : (pool cfg).ReachableWhen Drainable s) : ¬Stuck s := by
  have hdrains : Drains s :=
    ReachableWhen.invariant hr (fun h => by cases h) fun _ _ _ hr hs hok hstep =>
      (move_of_step hr.reachable hstep).drains (wired_of_reachable hr.reachable) hok hs
  rintro ⟨hc, n, -, htasks, hgone⟩
  have hle := hdrains (Control.draining_of_waiting hc) n
  have hpos : 0 < s.census (Worker.pendingOn n) :=
    Nat.lt_of_lt_of_le (List.length_pos_iff.mpr htasks) hle
  obtain ⟨w, hw, hpending⟩ := List.countP_pos_iff.mp hpos
  rw [hgone w hw] at hpending
  cases hpending

/-! Where the condition fails on a node there is a task too many on it, and
there is from then on. `Stop(WaitForAll)` sees it, unless the `TaskCount` it
is in went past the node before. -/

/-- `Stop(WaitForAll)` drains, the tasks of node `n` outnumber its pending
workers, and they have not been missed. -/
def Overfull (n : Nat) (s : State) : Prop :=
  s.control.draining = true ∧ s.control.passed n = false ∧
    s.census (Worker.pendingOn n) < (s.node n).tasks.length

theorem node_eq_some {s : State} {n : Nat} {nd : NodeData} (hnd : s.nodes[n]? = some nd) :
    nd = s.node n := (node_eq hnd).symm

/-- `TaskCount` does not come to zero while a node it has yet to pass has a
task. -/
theorem Hop.still_draining {cfg : Config} {s : State} {c c' : Control} {n : Nat}
    (h : Hop cfg s c c') (hd : c.draining = true) (hpassed : c.passed n = false)
    (htasks : (s.node n).tasks ≠ []) : c'.draining = true ∧ c'.passed n = false := by
  have hlt := length_of_node htasks
  cases h with
  | notified | waits => exact ⟨hd, rfl⟩
  | counts => exact ⟨hd, by simp [Control.passed]⟩
  | waitsNot hp =>
      rw [hp] at hd
      cases hd
  | @taskCount p k total nd hnd =>
      refine ⟨hd, ?_⟩
      have hlen : k = n → nd.tasks.length ≠ 0 := by
        rintro rfl
        rw [node_eq_some hnd]
        exact fun h => htasks (List.length_eq_zero_iff.mp h)
      simp only [Control.passed, Bool.and_eq_false_iff, decide_eq_false_iff_not] at hpassed ⊢
      omega
  | waited hn hdone =>
      have hzero := hdone (of_decide_eq_true hd)
      simp only [Control.passed, Bool.and_eq_false_iff, decide_eq_false_iff_not] at hpassed
      omega
  | _ => cases hd

theorem Move.still_draining {cfg : Config} {s s' : State} {a : Action} {n : Nat}
    (h : Move cfg s a s') (hd : s.control.draining = true)
    (hpassed : s.control.passed n = false) (htasks : (s.node n).tasks ≠ []) :
    s'.control.draining = true ∧ s'.control.passed n = false := by
  cases h with
  | hop hhop => exact hhop.still_draining hd hpassed htasks
  | notifiesAll hc =>
      rw [hc] at hd
      exact ⟨hd, rfl⟩
  | callsStart hc | callsStop _ hc | storeRunning hc | spawns hc | pushesSlot hc
  | storeMonitoring hc | startUnmonitored _ hc | starts hc | clearMonitoring hc
  | joinsMonitor hc | clearRunning hc | setsExit hc | cleared hc | resetCount hc
  | clearTasks hc =>
      rw [hc] at hd
      cases hd
  | joined hc =>
      rcases hc with ⟨hc, -⟩ | ⟨hc, -⟩ <;> rw [hc] at hd <;> cases hd
  | _ => exact ⟨hd, hpassed⟩

theorem Move.overfull {cfg : Config} {s s' : State} {a : Action} {n : Nat}
    (hwired : Wired cfg s) (hs : Overfull n s) (h : Move cfg s a s') :
    Overfull n s' := by
  obtain ⟨hd, hpassed, hlt⟩ := hs
  have htasks : (s.node n).tasks ≠ [] := List.ne_nil_of_length_pos (by omega)
  have hrun : s.sh.running = false :=
    hwired.runFlag false (Control.runningIs_of_draining hd)
  obtain ⟨hd', hpassed'⟩ := h.still_draining hd hpassed htasks
  refine ⟨hd', hpassed', ?_⟩
  cases h.backlog hwired hrun n with
  | same htasks hpending =>
      rw [htasks, hpending]
      exact hlt
  | pops htasks hpending =>
      rw [htasks, List.length_tail]
      omega
  | pushes t _ htasks hpending =>
      rw [htasks, List.length_append, hpending]
      omega
  | clears hc =>
      rw [hc] at hd
      cases hd

theorem outnumbered_of_step {cfg : Config} {s s' : State} {a : Action}
    (hnot : ¬Drainable s a) (hstep : step cfg s a = some s') :
    s'.control.draining = true ∧
      ∃ n, s'.census (Worker.pendingOn n) < (s'.node n).tasks.length := by
  simp only [Drainable, not_and_or, Classical.not_imp, not_forall, Nat.not_le,
    Nat.not_lt] at hnot
  rcases hnot with ⟨hcontrol, hclosing, n, -, hlt⟩ | ⟨hd, ⟨n, t⟩, hpush, hle⟩
  · cases a with
    | control creates timedOut =>
        have hc := Control.closing_iff.mp hclosing
        simp only [step, controlStep, hc, stopStep, Option.some.injEq] at hstep
        rw [← hstep]
        exact ⟨rfl, n, hlt⟩
    | _ => cases hcontrol
  · obtain ⟨htasks, hworkers, hc⟩ := step_pushes hpush hstep
    refine ⟨by rw [hc]; exact hd, n, ?_⟩
    rw [State.census, hworkers, htasks, List.length_append]
    exact Nat.lt_succ_of_le hle

/-- `Stop(WaitForAll)` is never stuck in the runs in which no node's tasks
outnumber its pending workers. Once those of a node do, and unless the
`TaskCount` of that moment has gone past the node, it never gets to the end of
its loop and never sees the node's queue empty. -/
theorem drains_every_node {cfg : Config} :
    (∀ s, (pool cfg).ReachableWhen Drainable s → ¬Stuck s) ∧
      ∀ s a s', (pool cfg).Reachable s → ¬Drainable s a →
        (pool cfg).step s a = some s' →
        ∃ n, (s'.node n).tasks ≠ [] ∧ (s'.control.passed n = false →
          ∀ s'', (pool cfg).Leads s' s'' →
            s''.control.draining = true ∧ (s''.node n).tasks ≠ []) := by
  refine ⟨fun s hr => not_stuck hr, fun s a s' hr hnot hstep => ?_⟩
  obtain ⟨hd, n, hlt⟩ := outnumbered_of_step hnot hstep
  refine ⟨n, List.ne_nil_of_length_pos (Nat.zero_lt_of_lt hlt), fun hpassed s'' hrun => ?_⟩
  have hover : Overfull n s'' :=
    hrun.stable (ReachableWhen.step hr trivial hstep) ⟨hd, hpassed, hlt⟩
      fun _ _ _ hr hs hstep => (move_of_step hr hstep).overfull (wired_of_reachable hr) hs
  exact ⟨hover.1, List.ne_nil_of_length_pos (Nat.zero_lt_of_lt hover.2.2)⟩

/-- Both nodes have a worker that has registered. That of the first is busy
with the first of two tasks when the flag falls, and leaves behind it. -/
theorem node_left_undrained :
    ¬∀ (cfg : Config) (s : State), (pool cfg).ReachableWhen Returning s →
      (∀ n < cfg.numaNodeCount, ∃ w ∈ s.workers, w.numaNode = n ∧
        w.native.pc.bound = true) → ¬Stuck s := by
  intro hall
  obtain ⟨s, hr, hregistered, hstuck⟩ :=
    exists_of_runWhen (pool (.ofHardware 2 2)) Returning
      (starting ++ entering 0 ++ entering 1 ++ enqueuing 0 0 true ++ enqueuing 1 0 true ++
        works 0 11 ++ works 1 7 ++ stopping .waitForAll ++ controls 4 ++ works 0 4)
      (fun s => (∀ n < (Config.ofHardware 2 2).numaNodeCount, ∃ w ∈ s.workers,
          w.numaNode = n ∧ w.native.pc.bound = true) ∧
        s.control.waiting = true ∧ ∃ n < s.nodes.length, (s.node n).tasks ≠ [] ∧
          ∀ w ∈ s.workers, w.pendingOn n = false)
      (by decide +kernel)
  exact hall _ s hr hregistered hstuck

/-- A task is queued on the first node, and the node's worker is past both its
tests, when the flag falls. It takes the task, and leaves behind it. -/
theorem drains_every_node_run : ∃ s s' : State,
    s.control.waiting = true ∧ (s.node 0).tasks = [⟨0, true⟩] ∧ ¬Stuck s ∧
      s'.control.waiting = true ∧ finished (s'.node 0).hist = [⟨0, true⟩] ∧
      (∀ n < s'.nodes.length, ∀ w ∈ s'.workers, w.pendingOn n = false) ∧ ¬Stuck s' := by
  obtain ⟨s, hr, hc, htasks, hnext⟩ := exists_of_runWhen (pool (.ofHardware 2 2)) Drainable
    (starting ++ entering 0 ++ entering 1 ++ enqueuing 0 0 true ++ works 0 9 ++
      works 1 7 ++ stopping .waitForAll ++ controls 4)
    (fun s => s.control.waiting = true ∧ (s.node 0).tasks = [⟨0, true⟩] ∧
      (((pool (.ofHardware 2 2)).runWhen Drainable s (works 0 10)).any fun s' =>
        decide (s'.control.waiting = true ∧ finished (s'.node 0).hist = [⟨0, true⟩] ∧
          ∀ n < s'.nodes.length, ∀ w ∈ s'.workers, w.pendingOn n = false)) = true)
    (by decide +kernel)
  obtain ⟨s', hrun, hc', hfinished, hgone⟩ := exists_leads_of_runWhen _ _ _ hnext
  exact ⟨s, s', hc, htasks, drains_every_node.1 s hr, hc', hfinished, hgone,
    drains_every_node.1 s' (hr.trans hrun)⟩

end ThreadPool.Numa
