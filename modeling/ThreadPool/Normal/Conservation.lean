import ThreadPool.Normal.Wired

/-!
# Where the tasks are

`NormalThreadPool` is a work queue. `State.queue` forgets everything but
`tasks_`, what the workers hold and run, and the history, and every move of
the pool is then one move of the contract or none. A worker decides to
proceed in one critical section and pops in the next; what the contract sees
of that is the pop.

Two facts about the pool make the simulation go through. A task is known by
the `Enqueue` call that brought it, so a call that has yet to push brings a
new one (`Numbered`). And `workers_.clear()` only destroys slots whose
thread has ended, so nothing that was held disappears with them (`Wired`).
-/

namespace ThreadPool.Normal

open Interleave Relation Machine

/-! ## The queue behind a state -/

/-- The task a worker has popped and not yet looked at. -/
def Worker.held (w : Worker) : Option (Nat × Task) :=
  match w.native.pc with
  | .holding (some t) => some (w.native.self, t)
  | _ => none

/-- The task a worker is calling. -/
def Worker.busy (w : Worker) : Option (Nat × Task) :=
  match w.native.pc with
  | .running t => some (w.native.self, t)
  | _ => none

def State.queue (s : State) : WorkQueue Nat Task where
  queue := s.sh.tasks
  held := gather Worker.held s.workers
  busy := gather Worker.busy s.workers
  hist := s.sh.hist

theorem Worker.hands_of_ended {w : Worker} (h : w.native.pc.isEnded = true) :
    w.held = none ∧ w.busy = none := by
  unfold Worker.held Worker.busy
  cases hpc : w.native.pc <;> rw [hpc] at h <;> first | exact ⟨rfl, rfl⟩ | cases h

/-- A step of the loop, seen as a work queue. -/
theorem LoopStep.queue {s : State} {j : Nat} {throws : Bool} {w : Worker} {sh : Shared}
    {pc : WorkerPc} {fl : Flags} (hw : s.workers[j]? = some w)
    (hstep : LoopStep s.sh s.globalMutexFree w.native.self throws w.native.pc w.flags
      sh pc fl) :
    ({ s with sh := sh }.put j ({ w with flags := fl }.goto pc)).queue = s.queue ∨
      WorkQueue.Step s.queue
        ({ s with sh := sh }.put j ({ w with flags := fl }.goto pc)).queue := by
  have hheld := Worker.held.eq_1 w
  have hbusy := Worker.busy.eq_1 w
  generalize hpc : w.native.pc = pc₀ at hstep hheld hbusy
  cases hstep with
  | pops t rest hfree htasks =>
      refine Or.inr ?_
      simp only [State.queue, State.put, Worker.goto]
      rw [gather_set_gain Worker.held hw hheld rfl,
        gather_set_same Worker.busy hw (by exact hbusy.symm)]
      exact .take _ t rest htasks
  | starts t hcall =>
      refine Or.inr ?_
      simp only [State.queue, State.put, Worker.goto]
      rw [gather_set_gain Worker.busy hw hbusy rfl]
      exact .start _ t _ (gather_set_lose Worker.held hw hheld rfl)
  | drops t hcall =>
      refine Or.inr ?_
      simp only [State.queue, State.put, Worker.goto]
      rw [gather_set_same Worker.busy hw (by exact hbusy.symm)]
      exact .drop _ t _ (gather_set_lose Worker.held hw hheld rfl)
  | returns t hthrows =>
      refine Or.inr ?_
      simp only [State.queue, State.put, Worker.goto]
      rw [gather_set_same Worker.held hw (by exact hheld.symm)]
      exact .finish _ t _ (gather_set_lose Worker.busy hw hbusy rfl)
  | throws t hthrows =>
      refine Or.inr ?_
      simp only [State.queue, State.put, Worker.goto]
      rw [gather_set_same Worker.held hw (by exact hheld.symm)]
      exact .finish _ t _ (gather_set_lose Worker.busy hw hbusy rfl)
  | passes hwait | sleeps hwait =>
      refine Or.inl ?_
      simp only [State.queue, State.put, Worker.goto]
      rcases hwait with rfl | rfl <;>
        rw [gather_set_same Worker.held hw (by exact hheld.symm),
          gather_set_same Worker.busy hw (by exact hbusy.symm)]
  | _ =>
      refine Or.inl ?_
      simp only [State.queue, State.put, Worker.goto]
      rw [gather_set_same Worker.held hw (by exact hheld.symm),
        gather_set_same Worker.busy hw (by exact hbusy.symm)]

/-! ## The calls -/

/-- A task is known by its call, and comes with it once. -/
structure Numbered (s : State) : Prop where
  id : ∀ k (c : Call), s.calls[k]? = some c → c.task.id = k
  pending : ∀ c ∈ s.calls, c.pc = .test ∨ c.pc = .push → c.task ∉ accepted s.sh.hist
  known : ∀ t ∈ accepted s.sh.hist, t.id < s.calls.length

theorem Numbered.frame {s s' : State} (hs : Numbered s) (hcalls : s'.calls = s.calls)
    (hacc : accepted s'.sh.hist = accepted s.sh.hist) : Numbered s' where
  id := by rw [hcalls]; exact hs.id
  pending := by rw [hcalls, hacc]; exact hs.pending
  known := by rw [hcalls, hacc]; exact hs.known

theorem Numbered.callGoto {s : State} {k : Nat} {c : Call} (hs : Numbered s)
    (hc : s.calls[k]? = some c) (pc : CallPc)
    (hpc : pc = .test ∨ pc = .push → c.pc = .test ∨ c.pc = .push) :
    Numbered { s with calls := s.calls.set k { c with pc := pc } } where
  id := forall_getElem?_set hs.id (hs.id k c hc)
  pending := forall_mem_set hs.pending fun h =>
    hs.pending c (List.mem_of_getElem? hc) (hpc h)
  known := by rw [List.length_set]; exact hs.known

theorem Numbered.push {s s' : State} {k : Nat} {c : Call} (hs : Numbered s)
    (hc : s.calls[k]? = some c)
    (hcalls : s'.calls = s.calls.set k { c with pc := .notify })
    (hhist : s'.sh.hist = s.sh.hist ++ [.accept c.task]) : Numbered s' := by
  have hacc : accepted s'.sh.hist = accepted s.sh.hist ++ [c.task] := by
    rw [hhist, accepted_concat]
    rfl
  constructor
  · rw [hcalls]
    exact forall_getElem?_set hs.id (hs.id k c hc)
  · intro d hd hpc
    rw [hacc, List.mem_append, List.mem_singleton]
    obtain ⟨i, hi⟩ := List.mem_iff_getElem?.mp hd
    rw [hcalls, List.getElem?_set] at hi
    split at hi
    · split at hi
      · rw [Option.some.injEq] at hi
        rw [← hi] at hpc
        simp at hpc
      · cases hi
    · next hki =>
        rintro (hold | heq)
        · exact hs.pending d (List.mem_of_getElem? hi) hpc hold
        · have hid := hs.id i d hi
          rw [heq, hs.id k c hc] at hid
          exact hki hid
  · intro t ht
    rw [hcalls, List.length_set]
    rw [hacc, List.mem_append, List.mem_singleton] at ht
    rcases ht with hold | rfl
    · exact hs.known t hold
    · rw [hs.id k c hc]
      exact (List.getElem?_eq_some_iff.mp hc).1

/-- Only a push is an acceptance. -/
theorem LoopStep.accepted_eq {sh sh' : Shared} {free throws : Bool} {self : Nat}
    {pc pc' : WorkerPc} {fl fl' : Flags}
    (h : LoopStep sh free self throws pc fl sh' pc' fl') :
    accepted sh'.hist = accepted sh.hist := by
  cases h <;> simp [WorkEvent.accepted?]

theorem Move.numbered {cfg : Config} {s s' : State} {a : Action} (hs : Numbered s)
    (h : Move cfg s a s') : Numbered s' := by
  cases h with
  | call callable =>
      constructor
      · refine forall_getElem?_append hs.id fun k c hk => ?_
        cases k with
        | zero =>
            rw [List.getElem?_cons_zero, Option.some.injEq] at hk
            rw [← hk]
            rfl
        | succ k => cases hk
      · intro c hc hpc hacc
        rcases List.mem_append.mp hc with hold | hnew
        · exact hs.pending c hold hpc hacc
        · rw [List.mem_singleton] at hnew
          have hlt := hs.known _ hacc
          rw [hnew] at hlt
          exact absurd hlt (Nat.lt_irrefl _)
      · intro t ht
        have hlt := hs.known t ht
        rw [List.length_append]
        exact Nat.lt_add_right _ hlt
  | rejected hc hpc => exact hs.callGoto hc _ (by simp)
  | accepted hc hpc => exact hs.callGoto hc _ (by simp [hpc])
  | pushes hc hpc => exact hs.push hc rfl rfl
  | notifies hc hpc => exact (hs.callGoto hc .hint (by simp)).frame rfl rfl
  | notifiesNobody hc hpc => exact hs.callGoto hc _ (by simp)
  | hints hc hpc => exact hs.callGoto hc _ (by simp)
  | loops hw hstep => exact hs.frame rfl hstep.accepted_eq
  | clearTasks hc => exact hs.frame rfl (readings_discard _ _).1
  | _ => exact hs.frame rfl rfl

theorem numbered_of_reachable {cfg : Config} {s : State}
    (hr : (pool cfg).Reachable s) : Numbered s :=
  hr.invariant ⟨nofun, nofun, nofun⟩ fun _ _ _ hr hs hstep =>
    (move_of_step hr hstep).numbered hs

/-! ## The pool refines the contract -/

theorem gather_put {s : State} {j : Nat} {w w' : Worker} (hw : s.workers[j]? = some w)
    (hheld : w'.held = w.held) (hbusy : w'.busy = w.busy) :
    (s.put j w').queue = s.queue := by
  simp only [State.queue, State.put]
  rw [gather_set_same Worker.held hw hheld, gather_set_same Worker.busy hw hbusy]

theorem gather_append_fresh {ws : List Worker} {index handle n : Nat} :
    gather Worker.held (ws ++ freshWorkers index handle n) = gather Worker.held ws ∧
      gather Worker.busy (ws ++ freshWorkers index handle n) =
        gather Worker.busy ws := by
  have hnone : ∀ w ∈ freshWorkers index handle n, w.held = none ∧ w.busy = none := by
    intro w hw
    obtain ⟨k, rfl⟩ := mem_freshWorkers hw
    exact ⟨rfl, rfl⟩
  rw [gather_append, gather_append, gather_eq_zero fun w hw => (hnone w hw).1,
    gather_eq_zero fun w hw => (hnone w hw).2, add_zero, add_zero]
  exact ⟨rfl, rfl⟩

theorem gather_notifyAll (ws : List Worker) :
    gather Worker.held (notifyAll ws) = gather Worker.held ws ∧
      gather Worker.busy (notifyAll ws) = gather Worker.busy ws := by
  have hsame : ∀ w : Worker,
      Worker.held (if w.native.pc = .blocked false then
        { w with native.pc := .blocked true } else w) = w.held ∧
      Worker.busy (if w.native.pc = .blocked false then
        { w with native.pc := .blocked true } else w) = w.busy := by
    intro w
    split
    · next hpc => simp [Worker.held, Worker.busy, hpc]
    · exact ⟨rfl, rfl⟩
  rw [notifyAll, gather_map, gather_map]
  constructor
  · exact congrArg (gather · ws) (funext fun w => (hsame w).1)
  · exact congrArg (gather · ws) (funext fun w => (hsame w).2)

/-- Every move of the pool is a move of the contract, or none. -/
theorem Move.queue {cfg : Config} {s s' : State} {a : Action} (hwired : Wired s)
    (hnum : Numbered s) (h : Move cfg s a s') :
    s'.queue = s.queue ∨ WorkQueue.Step s.queue s'.queue := by
  cases h with
  | pushes hc hpc hfree =>
      exact Or.inr (.accept _
        (hnum.pending _ (List.mem_of_getElem? hc) (Or.inr hpc)))
  | notifies hc hpc hw hblocked =>
      exact Or.inl (gather_put hw (by simp [Worker.held, Worker.goto, hblocked])
        (by simp [Worker.busy, Worker.goto, hblocked]))
  | registers hw hpc =>
      exact Or.inl (gather_put hw (by simp [Worker.held, Worker.goto, hpc])
        (by simp [Worker.busy, Worker.goto, hpc]))
  | loops hw hstep => exact hstep.queue hw
  | ends hw hpc =>
      exact Or.inl (gather_put hw (by simp [Worker.held, Worker.goto, hpc])
        (by simp [Worker.busy, Worker.goto, hpc]))
  | spurious hw hblocked =>
      exact Or.inl (gather_put hw (by simp [Worker.held, Worker.goto, hblocked])
        (by simp [Worker.busy, Worker.goto, hblocked]))
  | startFails | startUnmonitored | starts | expands =>
      refine Or.inl ?_
      simp only [State.queue, State.monitorGoto, gather_append_fresh]
  | notifiesAll | shrinkNotifies =>
      refine Or.inl ?_
      simp only [State.queue, State.monitorGoto, gather_notifyAll]
  | joined hc hw hended => exact Or.inl (gather_put hw rfl rfl)
  | destroyJoined hc hw hended => exact Or.inl (gather_put hw rfl rfl)
  | marks hm hpc hw => exact Or.inl (gather_put hw rfl rfl)
  | expandThrows hm hpc hfree hw => exact Or.inl (gather_put hw rfl rfl)
  | cleared hc =>
      have hhands : ∀ w ∈ s.workers, w.held = none ∧ w.busy = none :=
        fun w hw => Worker.hands_of_ended (hwired.ended_of_clear hc w hw)
      refine Or.inl ?_
      simp only [State.queue]
      rw [gather_eq_zero fun w hw => (hhands w hw).1,
        gather_eq_zero fun w hw => (hhands w hw).2]
      rfl
  | clearTasks hc hfree => exact Or.inr .clear
  | _ => exact Or.inl rfl

theorem steps_queue {cfg : Config} {s : State} (hr : (pool cfg).Reachable s) :
    ReflTransGen WorkQueue.Step WorkQueue.empty s.queue :=
  hr.simulates State.queue fun s a s' hr _ hstep => by
    rcases (move_of_step hr.reachable hstep).queue (wired_of_reachable hr.reachable)
        (numbered_of_reachable hr.reachable) with hsame | hmove
    · rw [hsame]
    · exact .single hmove

theorem lawful_of_reachable {cfg : Config} {s : State} (hr : (pool cfg).Reachable s) :
    s.queue.Lawful :=
  WorkQueue.lawful_of_steps (steps_queue hr) WorkQueue.lawful_empty

/-! ## The laws -/

theorem LoopStep.tested {sh sh' : Shared} {free throws : Bool} {self : Nat}
    {pc pc' : WorkerPc} {fl fl' : Flags}
    (h : LoopStep sh free self throws pc fl sh' pc' fl') (htested : Tested sh.hist) :
    Tested sh'.hist := by
  cases h with
  | pops | returns | throws => exact htested.concat nofun nofun
  | starts t hcall =>
      refine htested.concat nofun fun u hu => ?_
      rw [← Option.some.inj hu]
      exact hcall
  | drops t hcall =>
      refine htested.concat (fun u hu => ?_) nofun
      rw [← Option.some.inj hu]
      exact hcall
  | _ => exact htested

theorem Move.tested {cfg : Config} {s s' : State} {a : Action}
    (h : Move cfg s a s') (htested : Tested s.sh.hist) : Tested s'.sh.hist := by
  cases h with
  | pushes => exact htested.concat nofun nofun
  | loops hw hstep => exact hstep.tested htested
  | clearTasks => exact htested.discard _
  | _ => exact htested

theorem tested_of_reachable {cfg : Config} {s : State} (hr : (pool cfg).Reachable s) :
    Tested s.sh.hist :=
  hr.invariant tested_nil fun _ _ _ hr htested hstep =>
    (move_of_step hr hstep).tested htested

theorem inHands_held (ws : List Worker) (t : Task) :
    WorkQueue.inHands (gather Worker.held ws) t =
      ws.countP fun w => w.native.pc = .holding (some t) := by
  rw [WorkQueue.inHands_gather]
  congr 1
  funext w
  unfold Worker.held
  split
  · next u hpc => simp [hpc]
  · next hpc => simpa using fun h => hpc t h

/-- What became of a task by the time `Stop` is back: it was called once and
that call ended, or it was discarded uncalled, or it was nothing to call and
a worker put it away. -/
def Settled (h : List Event) (t : Task) : Prop :=
  (started h).count t = 1 ∧ (finished h).count t = 1 ∧ (discarded h).count t = 0 ∨
    (started h).count t = 0 ∧ (finished h).count t = 0 ∧ (discarded h).count t = 1 ∨
    t.callable = false ∧ (started h).count t = 0 ∧ (dropped h).count t = 1

theorem settled_of_quiet {q : WorkQueue Nat Task} (hq : q.Lawful)
    (htested : Tested q.hist) (hqueue : q.queue = []) (hheld : q.held = 0)
    (hbusy : q.busy = 0) : ∀ t ∈ accepted q.hist, Settled q.hist t := by
  intro t ht
  have hbalance := hq.balance t
  have hcount : (accepted q.hist).count t = 1 :=
    Nat.le_antisymm (hq.accepted_count_le t) (List.count_pos_iff.mpr ht)
  have hstarted := hq.startedCount t
  rw [hcount, hqueue, hheld, List.count_nil, WorkQueue.inHands_zero] at hbalance
  rw [hbusy, WorkQueue.inHands_zero] at hstarted
  by_cases hdrop : (dropped q.hist).count t = 0
  · by_cases hdiscard : (discarded q.hist).count t = 0
    · exact Or.inl ⟨by omega, by omega, hdiscard⟩
    · exact Or.inr (Or.inl ⟨by omega, by omega, by omega⟩)
  · have hmem := List.count_pos_iff.mp (Nat.pos_of_ne_zero hdrop)
    exact Or.inr (Or.inr ⟨htested.dropped t hmem, by omega, by omega⟩)

/-- The only way `Stop` returns is by emptying `tasks_`. -/
theorem Move.returns {cfg : Config} {s s' : State} {a : Action} {p : ShutdownPolicy}
    {pc : StopPc} (h : Move cfg s a s') (hc : s.control = .stop p pc)
    (hidle : s'.control = .idle .returned) : pc = .tasks ∧
      s' = { s with
        sh.tasks := []
        sh.hist := s.sh.hist ++ s.sh.tasks.map WorkEvent.discard
        control := .idle .returned } := by
  cases h with
  | clearTasks hc' =>
      rw [hc'] at hc
      injection hc with _ hpc
      exact ⟨hpc.symm, rfl⟩
  | hop hhop =>
      rw [hc] at hhop
      rw [State.goto] at hidle
      dsimp only at hidle
      subst hidle
      cases hhop
  | callsStart hc' | callsStop _ hc' | storeRunning hc' | startFails _ _ hc'
  | startUnmonitored _ hc' | starts hc' =>
      rw [hc'] at hc
      cases hc
  | _ =>
      first
        | cases hidle
        | (rw [show s.control = _ from hidle] at hc; cases hc)

/-- Conservation and order. A task that is not empty and was pushed is in
one place; what left the queue, followed by what is in it, is what was
pushed, in that order; and where `Stop` returns, under any policy, every
task pushed so far is settled. -/
theorem task_conservation {cfg : Config} {s : State} (hr : (pool cfg).Reachable s) :
    (∀ t ∈ accepted s.sh.hist, t.callable = true →
      s.sh.tasks.count t +
        s.workers.countP (fun w => w.native.pc = .holding (some t)) +
        (started s.sh.hist).count t + (discarded s.sh.hist).count t = 1) ∧
      left s.sh.hist ++ s.sh.tasks = accepted s.sh.hist ∧
      (taken s.sh.hist).Sublist (accepted s.sh.hist) ∧
      ∀ p pc a s', s.control = .stop p pc → (pool cfg).step s a = some s' →
        s'.control = .idle .returned →
        ∀ t ∈ accepted s'.sh.hist, Settled s'.sh.hist t := by
  have hlaw := lawful_of_reachable hr
  have htested := tested_of_reachable hr
  refine ⟨fun t ht hcall => ?_, hlaw.order, hlaw.taken_sublist, ?_⟩
  · have hplace := one_place hlaw htested ht hcall
    simp only [State.queue, inHands_held] at hplace
    exact hplace
  · intro p pc a s' hc hstep hidle
    have hr' := ReachableWhen.step hr trivial hstep
    obtain ⟨rfl, hs'⟩ := (move_of_step hr hstep).returns hc hidle
    have hnil : s'.workers = [] := by
      rw [hs', ← (wired_of_reachable hr).emptied p (Or.inr hc)]
    refine settled_of_quiet (lawful_of_reachable hr') (tested_of_reachable hr')
      (by rw [hs']; rfl)
      ?_ ?_
    · simp only [State.queue, hnil]
      rfl
    · simp only [State.queue, hnil]
      rfl

/-- One of two tasks has been called when `Stop` comes, and the other is left
for its clear. -/
theorem task_conservation_run : ∃ s : State,
    s.control = .stop .immediate .tasks ∧ s.sh.tasks = [⟨1, true⟩] ∧
      ((∀ t ∈ accepted s.sh.hist, t.callable = true →
        s.sh.tasks.count t +
          s.workers.countP (fun w => w.native.pc = .holding (some t)) +
          (started s.sh.hist).count t + (discarded s.sh.hist).count t = 1) ∧
        left s.sh.hist ++ s.sh.tasks = accepted s.sh.hist ∧
        (taken s.sh.hist).Sublist (accepted s.sh.hist) ∧
        ∀ p pc a s', s.control = .stop p pc →
          (pool (.ofHardware 1)).step s a = some s' →
          s'.control = .idle .returned →
          ∀ t ∈ accepted s'.sh.hist, Settled s'.sh.hist t) := by
  obtain ⟨s, hr, hc, htasks⟩ := exists_of_run (pool (.ofHardware 1))
    (starting 2 ++ enqueuing 0 true ++ enqueuing 1 true ++ works 0 11 ++
      stopping .immediate ++ controls 4 ++ works 0 7 ++ controls 6)
    (fun s => s.control = .stop .immediate .tasks ∧ s.sh.tasks = [⟨1, true⟩])
    (by decide +kernel)
  exact ⟨s, hc, htasks, task_conservation hr⟩

end ThreadPool.Normal
