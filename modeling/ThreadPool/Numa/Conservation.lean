import ThreadPool.Lib.WorkQueue
import ThreadPool.Numa.Wired

/-!
# Where the tasks of a node are

Every node of a `NumaThreadPool` is a work queue of its own. `queueOf n`
forgets everything but the node's tasks and history and what the workers of
the node have in their hands, and every move of the pool is, for every node,
one move of the contract or none.

That tasks do not cross over is a matter of the calls: a task is known by
the call that brought it (`Numbered`), and the call knows its node.
-/

namespace ThreadPool.Numa

open Interleave Relation Machine

/-! ## The queue behind a node -/

/-- Node `n`. -/
def State.node (s : State) (n : Nat) : NodeData := s.nodes[n]?.getD {}

theorem node_eq {s : State} {n : Nat} {nd : NodeData} (hnd : s.nodes[n]? = some nd) :
    s.node n = nd := by
  rw [State.node, hnd]
  rfl

theorem node_set {s t : State} {m : Nat} {nd nd' : NodeData}
    (hnd : s.nodes[m]? = some nd) (hnodes : t.nodes = s.nodes.set m nd') (n : Nat) :
    t.node n = if m = n then nd' else s.node n := by
  obtain ⟨hlt, -⟩ := List.getElem?_eq_some_iff.mp hnd
  rw [State.node, State.node, hnodes, List.getElem?_set]
  by_cases hmn : m = n
  · rw [if_pos hmn, if_pos hmn, if_pos hlt]
    rfl
  · rw [if_neg hmn, if_neg hmn]

theorem node_frame {s s' : State} (hnodes : s'.nodes = s.nodes) (n : Nat) :
    s'.node n = s.node n := by
  rw [State.node, State.node, hnodes]

theorem node_init (cfg : Config) (n : Nat) : (pool cfg).init.node n = {} := by
  simp only [State.node, pool, List.getElem?_replicate]
  split <;> rfl

/-- The thread, and the node its slot names. -/
def Worker.agent (w : Worker) : Agent := ⟨w.native.self, w.numaNode⟩

/-- The task a worker of node `n` has popped and not yet looked at. -/
def Worker.heldOn (n : Nat) (w : Worker) : Option (Agent × Task) :=
  match w.native.pc with
  | .holding (some t) => if w.native.nodeNum = n then some (w.agent, t) else none
  | _ => none

/-- The task a worker of node `n` is calling. -/
def Worker.busyOn (n : Nat) (w : Worker) : Option (Agent × Task) :=
  match w.native.pc with
  | .running t => if w.native.nodeNum = n then some (w.agent, t) else none
  | _ => none

def queueOf (n : Nat) (nd : NodeData) (ws : List Worker) : WorkQueue Agent Task where
  queue := nd.tasks
  held := gather (Worker.heldOn n) ws
  busy := gather (Worker.busyOn n) ws
  hist := nd.hist

def State.queue (s : State) (n : Nat) : WorkQueue Agent Task := queueOf n (s.node n) s.workers

/-- The points at which a thread may have a task in its hands. -/
def WorkerPc.handsFull : WorkerPc → Bool
  | .holding (some _) | .running _ => true
  | _ => false

theorem Worker.hands_empty {w : Worker} (h : w.native.pc.handsFull = false) (n : Nat) :
    w.heldOn n = none ∧ w.busyOn n = none := by
  unfold Worker.heldOn Worker.busyOn
  cases hpc : w.native.pc with
  | holding task =>
      cases task with
      | none => exact ⟨rfl, rfl⟩
      | some t =>
          rw [hpc] at h
          cases h
  | running t =>
      rw [hpc] at h
      cases h
  | _ => exact ⟨rfl, rfl⟩

theorem Worker.hands_elsewhere {w : Worker} {n : Nat} (h : w.native.nodeNum ≠ n) :
    w.heldOn n = none ∧ w.busyOn n = none := by
  unfold Worker.heldOn Worker.busyOn
  constructor <;> split <;> first | rfl | rw [if_neg h]

theorem queueOf_set {n : Nat} {nd : NodeData} {ws : List Worker} {j : Nat}
    {w w' : Worker} (hw : ws[j]? = some w) (hheld : w'.heldOn n = w.heldOn n)
    (hbusy : w'.busyOn n = w.busyOn n) :
    queueOf n nd (ws.set j w') = queueOf n nd ws := by
  rw [queueOf, gather_set_same (Worker.heldOn n) hw hheld,
    gather_set_same (Worker.busyOn n) hw hbusy, queueOf]

theorem queueOf_set_empty {n : Nat} {nd : NodeData} {ws : List Worker} {j : Nat}
    {w w' : Worker} (hw : ws[j]? = some w) (hbefore : w.native.pc.handsFull = false)
    (hafter : w'.native.pc.handsFull = false) :
    queueOf n nd (ws.set j w') = queueOf n nd ws := by
  obtain ⟨hheld, hbusy⟩ := Worker.hands_empty hbefore n
  obtain ⟨hheld', hbusy'⟩ := Worker.hands_empty hafter n
  exact queueOf_set hw (hheld'.trans hheld.symm) (hbusy'.trans hbusy.symm)

theorem LoopStep.queueOf {sh sh' : Shared} {nd nd' : NodeData} {free throws : Bool}
    {ws : List Worker} {j : Nat} {w : Worker} {pc : WorkerPc} {fl : Flags}
    (hw : ws[j]? = some w)
    (hstep : LoopStep sh nd free w.agent throws w.native.pc w.flags sh' nd' pc fl) :
    Numa.queueOf w.native.nodeNum nd' (ws.set j ({ w with flags := fl }.goto pc)) =
        Numa.queueOf w.native.nodeNum nd ws ∨
      WorkQueue.Step (Numa.queueOf w.native.nodeNum nd ws)
        (Numa.queueOf w.native.nodeNum nd' (ws.set j ({ w with flags := fl }.goto pc))) := by
  have hheld : ∀ t, w.native.pc = .holding (some t) →
      w.heldOn w.native.nodeNum = some (w.agent, t) ∧ w.busyOn w.native.nodeNum = none :=
    fun t hpc => by simp [Worker.heldOn, Worker.busyOn, hpc]
  have hbusy : ∀ t, w.native.pc = .running t →
      w.busyOn w.native.nodeNum = some (w.agent, t) ∧ w.heldOn w.native.nodeNum = none :=
    fun t hpc => by simp [Worker.heldOn, Worker.busyOn, hpc]
  have hidle := @queueOf_set_empty w.native.nodeNum nd ws j w
    ({ w with flags := fl }.goto pc) hw
  have hempty := @Worker.hands_empty w
  have hafter := @Worker.hands_empty ({ w with flags := fl }.goto pc)
  generalize hpc : w.native.pc = pc₀ at hstep hheld hbusy hidle hempty
  cases hstep with
  | pops t rest hfree htasks =>
      refine Or.inr ?_
      obtain ⟨hnoHeld, hnoBusy⟩ := hempty rfl w.native.nodeNum
      have hnew : ({ w with flags := w.flags }.goto (.holding (some t))).heldOn
          w.native.nodeNum = some (w.agent, t) := by
        simp [Worker.heldOn, Worker.goto, Worker.agent]
      simp only [Numa.queueOf]
      rw [gather_set_gain _ hw hnoHeld hnew, gather_set_same _ hw (by exact hnoBusy.symm)]
      exact .take _ t rest htasks
  | starts t hcall =>
      refine Or.inr ?_
      obtain ⟨hold, hnoBusy⟩ := hheld t rfl
      have hnew : ({ w with flags := w.flags }.goto (.running t)).busyOn
          w.native.nodeNum = some (w.agent, t) := by
        simp [Worker.busyOn, Worker.goto, Worker.agent]
      simp only [Numa.queueOf]
      rw [gather_set_gain (Worker.busyOn _) hw hnoBusy hnew]
      exact .start _ t _ (gather_set_lose (Worker.heldOn _) hw hold rfl)
  | drops t hcall =>
      refine Or.inr ?_
      obtain ⟨hold, hnoBusy⟩ := hheld t rfl
      simp only [Numa.queueOf]
      rw [gather_set_same (Worker.busyOn _) hw (by exact hnoBusy.symm)]
      exact .drop _ t _ (gather_set_lose (Worker.heldOn _) hw hold rfl)
  | returns t hthrows | throws t hthrows =>
      refine Or.inr ?_
      obtain ⟨hold, hnoHeld⟩ := hbusy t rfl
      simp only [Numa.queueOf]
      rw [gather_set_same (Worker.heldOn _) hw (by exact hnoHeld.symm)]
      exact .finish _ t _ (gather_set_lose (Worker.busyOn _) hw hold rfl)
  | passes hwait | sleeps hwait =>
      rcases hwait with rfl | rfl <;> exact Or.inl (hidle rfl rfl)
  | _ => exact Or.inl (hidle rfl rfl)

/-! ## The calls -/

/-- Past the push. -/
def CallPc.pushed : CallPc → Bool
  | .notify | .returned => true
  | _ => false

/-- A task is known by its call, and accepted on the node that call knows. -/
structure Numbered (s : State) : Prop where
  id : ∀ k (c : Call), s.calls[k]? = some c → c.task.id = k
  known : ∀ n, ∀ t ∈ accepted (s.node n).hist, ∃ c, s.calls[t.id]? = some c ∧ c.task = t ∧
    c.nodeNum.toNat = n ∧ c.pc.pushed = true

theorem Numbered.fresh {s : State} {k : Nat} {c : Call} (hs : Numbered s)
    (hc : s.calls[k]? = some c) (hpc : c.pc.pushed = false) (n : Nat) :
    c.task ∉ accepted (s.node n).hist := by
  intro hacc
  obtain ⟨c', hc', -, -, hpushed⟩ := hs.known n c.task hacc
  rw [hs.id k c hc, hc, Option.some.injEq] at hc'
  rw [← hc', hpc] at hpushed
  cases hpushed

theorem Numbered.same_node {s : State} {m n : Nat} {t : Task} (hs : Numbered s)
    (hm : t ∈ accepted (s.node m).hist) (hn : t ∈ accepted (s.node n).hist) :
    m = n := by
  obtain ⟨c, hc, -, hnode, -⟩ := hs.known m t hm
  obtain ⟨c', hc', -, hnode', -⟩ := hs.known n t hn
  rw [hc, Option.some.injEq] at hc'
  rw [← hnode, ← hnode', hc']

theorem Numbered.frame {s s' : State} (hs : Numbered s) (hcalls : s'.calls = s.calls)
    (hacc : ∀ n, accepted (s'.node n).hist = accepted (s.node n).hist) :
    Numbered s' where
  id := by rw [hcalls]; exact hs.id
  known := fun n t ht => by
    rw [hacc] at ht
    rw [hcalls]
    exact hs.known n t ht

theorem Numbered.callGoto {s s' : State} {k : Nat} {c c' : Call} (hs : Numbered s)
    (hc : s.calls[k]? = some c) (hcalls : s'.calls = s.calls.set k c')
    (hnodes : s'.nodes = s.nodes) (htask : c'.task = c.task)
    (hpushed : c.pc.pushed = true → c'.nodeNum = c.nodeNum ∧ c'.pc.pushed = true) :
    Numbered s' := by
  obtain ⟨hlt, -⟩ := List.getElem?_eq_some_iff.mp hc
  constructor
  · rw [hcalls]
    exact forall_getElem?_set hs.id (by rw [htask]; exact hs.id k c hc)
  · intro n t ht
    rw [node_frame hnodes] at ht
    obtain ⟨d, hd, hdt, hnode, hpast⟩ := hs.known n t ht
    rw [hcalls, List.getElem?_set]
    by_cases hk : k = t.id
    · rw [← hk, hc, Option.some.injEq] at hd
      subst hd
      obtain ⟨hsame, hpast'⟩ := hpushed hpast
      rw [if_pos hk, if_pos hlt]
      exact ⟨c', rfl, htask.trans hdt, by rw [hsame]; exact hnode, hpast'⟩
    · rw [if_neg hk]
      exact ⟨d, hd, hdt, hnode, hpast⟩

theorem CallHop.pushed {cfg : Config} {s : State} {c c' : Call} (h : CallHop cfg s c c') :
    c'.task = c.task ∧ c.pc.pushed = false := by
  cases h with
  | rejected hpc | accepted hpc | lost _ hpc | located _ hpc | outOfRange hpc | inRange _ hpc
  | rejectedOn hpc | acceptedOn hpc =>
      rw [hpc]
      exact ⟨rfl, rfl⟩

theorem Numbered.call {s s' : State} {c : Call} (hs : Numbered s)
    (hcalls : s'.calls = s.calls ++ [c]) (hnodes : s'.nodes = s.nodes)
    (hid : c.task.id = s.calls.length) : Numbered s' := by
  constructor
  · rw [hcalls]
    refine forall_getElem?_append hs.id fun k d hk => ?_
    cases k with
    | zero =>
        rw [List.getElem?_cons_zero, Option.some.injEq] at hk
        rw [← hk, hid]
        rfl
    | succ k => cases hk
  · intro n t ht
    rw [node_frame hnodes] at ht
    obtain ⟨d, hd, hrest⟩ := hs.known n t ht
    refine ⟨d, ?_, hrest⟩
    rw [hcalls, List.getElem?_append_left (List.getElem?_eq_some_iff.mp hd).1]
    exact hd

theorem Numbered.push {s s' : State} {k : Nat} {c : Call} {nd : NodeData} (hs : Numbered s)
    (hc : s.calls[k]? = some c) (hnd : s.nodes[c.nodeNum.toNat]? = some nd)
    (hcalls : s'.calls = s.calls.set k (c.goto .notify))
    (hnodes : s'.nodes = s.nodes.set c.nodeNum.toNat { nd with
      tasks := nd.tasks ++ [c.task]
      hist := nd.hist ++ [WorkEvent.accept c.task] }) : Numbered s' := by
  obtain ⟨hlt, -⟩ := List.getElem?_eq_some_iff.mp hc
  have hgoto : Numbered { s with calls := s.calls.set k (c.goto .notify) } :=
    hs.callGoto hc rfl rfl rfl fun _ => ⟨rfl, rfl⟩
  constructor
  · rw [hcalls]
    exact hgoto.id
  · intro n t ht
    rw [hcalls]
    rw [node_set hnd hnodes] at ht
    split at ht
    · next hn =>
        rw [accepted_concat] at ht
        rcases List.mem_append.mp ht with hold | hnew
        · rw [← node_eq hnd] at hold
          have hknown := hgoto.known _ t hold
          rw [hn] at hknown
          exact hknown
        · rw [WorkEvent.accepted?, Option.toList_some, List.mem_singleton] at hnew
          subst hnew
          rw [hs.id k c hc, List.getElem?_set_self hlt]
          exact ⟨_, rfl, rfl, hn, rfl⟩
    · exact hgoto.known n t ht

/-- Only a push is an acceptance. -/
theorem LoopStep.accepted_eq {sh sh' : Shared} {nd nd' : NodeData} {free throws : Bool}
    {agent : Agent} {pc pc' : WorkerPc} {fl fl' : Flags}
    (h : LoopStep sh nd free agent throws pc fl sh' nd' pc' fl') :
    accepted nd'.hist = accepted nd.hist := by
  cases h <;> simp [WorkEvent.accepted?]

theorem hist_pushWorker (s : State) (m n : Nat) :
    ((pushWorker s m).node n).hist = (s.node n).hist ∧
      ((pushWorker s m).node n).tasks = (s.node n).tasks := by
  simp only [State.node, pushWorker, List.getElem?_modify]
  cases s.nodes[n]? with
  | none => exact ⟨rfl, rfl⟩
  | some nd =>
      simp only [Option.getD_some]
      split <;> exact ⟨rfl, rfl⟩

theorem Move.numbered {cfg : Config} {s s' : State} {a : Action} (hs : Numbered s)
    (h : Move cfg s a s') : Numbered s' := by
  cases h with
  | call | callOn => exact hs.call rfl rfl rfl
  | callHop _ hc hhop =>
      obtain ⟨htask, hpc⟩ := hhop.pushed
      refine hs.callGoto hc rfl rfl htask fun h => ?_
      rw [hpc] at h
      cases h
  | pushes hc hpc hnd => exact hs.push hc hnd rfl rfl
  | notifies hc | notifiesNobody hc =>
      exact hs.callGoto hc rfl rfl rfl fun _ => ⟨rfl, rfl⟩
  | loops hw hnd hstep =>
      refine hs.frame rfl fun n => ?_
      rw [node_set hnd rfl]
      split
      · next hn => rw [hstep.accepted_eq, ← hn, node_eq hnd]
      · rfl
  | pushesSlot | expandPushes =>
      exact hs.frame rfl fun n => congrArg accepted (hist_pushWorker s _ n).1
  | clearTasks hc hnd =>
      refine hs.frame rfl fun n => ?_
      rw [node_set hnd rfl]
      split
      · next hn => rw [(readings_discard _ _).1, ← hn, node_eq hnd]
      · rfl
  | _ => exact hs.frame rfl fun _ => rfl

theorem numbered_of_reachable {cfg : Config} {s : State} (hr : (pool cfg).Reachable s) :
    Numbered s := by
  refine hr.invariant ⟨nofun, fun n t ht => ?_⟩ fun _ _ _ hr hs hstep =>
    (move_of_step hr hstep).numbered hs
  rw [node_init] at ht
  cases ht

/-! ## Every node refines the contract -/

theorem WorkerHop.hands {cfg : Config} {s : State} {w w' : Worker}
    (h : WorkerHop cfg s w w') :
    w.native.pc.handsFull = false ∧ w'.native.pc.handsFull = false := by
  cases h with
  | registers hpc | leaves hpc | noNode hpc | readsNode _ hpc | bindFails hpc | unbound hpc
  | ends _ hpc | spurious hpc =>
      rw [hpc]
      exact ⟨rfl, rfl⟩

theorem queueOf_append {n : Nat} {nd : NodeData} {ws : List Worker}
    (m index handle : Nat) :
    queueOf n nd (ws ++ [freshWorker m index handle]) = queueOf n nd ws := by
  rw [queueOf, gather_append, gather_append, queueOf]
  exact congrArg₂ (WorkQueue.mk nd.tasks · · nd.hist) (add_zero _) (add_zero _)

theorem queueOf_notifyAll (n m : Nat) (nd : NodeData) (ws : List Worker) :
    queueOf n nd (notifyAll m ws) = queueOf n nd ws := by
  have hsame : ∀ w : Worker,
      Worker.heldOn n (if w.asleepOn m then { w with native.pc := .blocked true } else w) =
        w.heldOn n ∧
      Worker.busyOn n (if w.asleepOn m then { w with native.pc := .blocked true } else w) =
        w.busyOn n := by
    intro w
    split
    · next hasleep =>
        have hblocked := (Worker.blocked_of_asleepOn hasleep).2
        simp [Worker.heldOn, Worker.busyOn, hblocked]
    · exact ⟨rfl, rfl⟩
  rw [queueOf, notifyAll, gather_map, gather_map, queueOf]
  exact congrArg₂ (WorkQueue.mk nd.tasks · · nd.hist)
    (congrArg (gather · ws) (funext fun w => (hsame w).1))
    (congrArg (gather · ws) (funext fun w => (hsame w).2))

theorem queue_pushWorker (s : State) (m n : Nat) :
    (pushWorker s m).queue n = s.queue n := by
  obtain ⟨hhist, htasks⟩ := hist_pushWorker s m n
  rw [State.queue, queueOf, hhist, htasks]
  rfl

theorem WorkerPc.handsFull_of_ended {pc : WorkerPc} (h : pc.isEnded = true) :
    pc.handsFull = false := by
  cases pc <;> first | rfl | cases h

/-- Every move of the pool is for every node a move of the contract, or
none. -/
theorem Move.queue {cfg : Config} {s s' : State} {a : Action} (hwired : Wired cfg s)
    (hnum : Numbered s) (n : Nat) (h : Move cfg s a s') :
    s'.queue n = s.queue n ∨ WorkQueue.Step (s.queue n) (s'.queue n) := by
  cases h with
  | @pushes k pick c nd hc hpc hnd =>
      rw [State.queue, node_set hnd rfl]
      split
      · next hn =>
          refine Or.inr ?_
          rw [State.queue, ← hn, node_eq hnd]
          have hfresh := hnum.fresh hc (by rw [hpc]; rfl) c.nodeNum.toNat
          rw [node_eq hnd] at hfresh
          exact .accept c.task hfresh
      · exact Or.inl rfl
  | notifies _ _ hw hasleep =>
      have hblocked := (Worker.blocked_of_asleepOn hasleep).2
      exact Or.inl (queueOf_set_empty hw (by rw [hblocked]; rfl) rfl)
  | workerHop _ hw hhop => exact Or.inl (queueOf_set_empty hw hhop.hands.1 hhop.hands.2)
  | binds hw hpc => exact Or.inl (queueOf_set_empty hw (by rw [hpc]; rfl) rfl)
  | @loops j throws w sh nd nd' pc fl hw hnd hstep =>
      rw [State.queue, node_set hnd rfl]
      split
      · next hn =>
          rw [State.queue, ← hn, node_eq hnd]
          exact hstep.queueOf hw
      · next hn =>
          obtain ⟨hheld, hbusy⟩ := Worker.hands_elsewhere hn
          obtain ⟨hheld', hbusy'⟩ :=
            @Worker.hands_elsewhere ({ w with flags := fl }.goto pc) n hn
          exact Or.inl (queueOf_set hw (hheld'.trans hheld.symm) (hbusy'.trans hbusy.symm))
  | spawns | expandSpawns => exact Or.inl (queueOf_append _ _ _)
  | pushesSlot | expandPushes => exact Or.inl (queue_pushWorker _ _ _)
  | notifiesAll | shrinkNotifies => exact Or.inl (queueOf_notifyAll _ _ _ _)
  | setsExit _ hw | joined _ hw | marks _ _ hw => exact Or.inl (queueOf_set hw rfl rfl)
  | cleared hc hi =>
      have hhands : ∀ w ∈ s.workers, w.heldOn n = none ∧ w.busyOn n = none := fun w hw =>
        Worker.hands_empty (WorkerPc.handsFull_of_ended (hwired.ended_of_clear hc hi w hw)) n
      refine Or.inl ?_
      rw [State.queue, queueOf, State.queue, queueOf,
        gather_eq_zero fun w hw => (hhands w hw).1,
        gather_eq_zero fun w hw => (hhands w hw).2]
      rfl
  | @clearTasks creates timedOut p m nd hc hnd =>
      rw [State.queue, node_set hnd rfl]
      split
      · next hn =>
          rw [State.queue, ← hn, node_eq hnd]
          exact Or.inr .clear
      · exact Or.inl rfl
  | _ => exact Or.inl rfl

theorem steps_queue {cfg : Config} {s : State} (hr : (pool cfg).Reachable s) (n : Nat) :
    ReflTransGen WorkQueue.Step WorkQueue.empty (s.queue n) := by
  have hsteps := hr.simulates (State.queue · n) fun s a s' hr _ hstep => by
    rcases (move_of_step hr.reachable hstep).queue (wired_of_reachable hr.reachable)
        (numbered_of_reachable hr.reachable) n with hsame | hmove
    · rw [hsame]
    · exact .single hmove
  have hinit : (pool cfg).init.queue n = WorkQueue.empty := by
    rw [State.queue, node_init]
    rfl
  rwa [hinit] at hsteps

theorem lawful_of_reachable {cfg : Config} {s : State} (hr : (pool cfg).Reachable s)
    (n : Nat) : (s.queue n).Lawful :=
  WorkQueue.lawful_of_steps (steps_queue hr n) WorkQueue.lawful_empty

theorem hist_of_step {cfg : Config} {s s' : State} {a : Action} (hr : (pool cfg).Reachable s)
    (hstep : step cfg s a = some s') (n : Nat) : (s.node n).hist <+: (s'.node n).hist := by
  rcases (move_of_step hr hstep).queue (wired_of_reachable hr) (numbered_of_reachable hr) n with
    hsame | hmove
  · have hhist : (s'.node n).hist = (s.node n).hist := congrArg WorkQueue.hist hsame
    exact hhist ▸ List.prefix_rfl
  · exact hmove.hist_grows

theorem LoopStep.tested {sh sh' : Shared} {nd nd' : NodeData} {free throws : Bool}
    {agent : Agent} {pc pc' : WorkerPc} {fl fl' : Flags}
    (h : LoopStep sh nd free agent throws pc fl sh' nd' pc' fl')
    (htested : Tested nd.hist) :
    Tested nd'.hist := by
  cases h with
  | pops | returns | throws => exact htested.concat nofun nofun
  | starts t hcall =>
      refine htested.concat nofun fun u hu => ?_
      rw [← Option.some.inj hu]
      exact hcall
  | drops t hcall =>
      refine htested.concat (fun u hu => ?_) nofun
      rw [← Option.some.inj hu]
      exact hcall
  | _ => exact htested

theorem Move.tested {cfg : Config} {s s' : State} {a : Action} (n : Nat)
    (h : Move cfg s a s') (htested : Tested (s.node n).hist) :
    Tested (s'.node n).hist := by
  cases h with
  | pushes _ _ hnd =>
      rw [node_set hnd rfl]
      split
      · next hn =>
          rw [← hn, node_eq hnd] at htested
          exact htested.concat nofun nofun
      · exact htested
  | loops _ hnd hstep =>
      rw [node_set hnd rfl]
      split
      · next hn =>
          rw [← hn, node_eq hnd] at htested
          exact hstep.tested htested
      · exact htested
  | clearTasks _ hnd =>
      rw [node_set hnd rfl]
      split
      · next hn =>
          rw [← hn, node_eq hnd] at htested
          exact htested.discard _
      · exact htested
  | pushesSlot | expandPushes =>
      exact (congrArg Tested (hist_pushWorker s _ n).1).mpr htested
  | _ => exact htested

theorem tested_of_reachable {cfg : Config} {s : State} (hr : (pool cfg).Reachable s)
    (n : Nat) : Tested (s.node n).hist :=
  hr.invariant (by rw [node_init]; exact tested_nil) fun _ _ _ hr htested hstep =>
    (move_of_step hr hstep).tested n htested

theorem accepted_of_hands {cfg : Config} {s : State} {w : Worker} {t : Task}
    (hr : (pool cfg).Reachable s) (hw : w ∈ s.workers)
    (hpc : w.native.pc = .holding (some t) ∨ w.native.pc = .running t) :
    t ∈ accepted (s.node w.native.nodeNum).hist := by
  have hlaw := lawful_of_reachable hr w.native.nodeNum
  have htaken := hlaw.takenCount t
  have hstarted := hlaw.startedCount t
  refine hlaw.taken_sublist.subset (List.count_pos_iff.mp ?_)
  rcases hpc with hpc | hpc
  · have hhand : 0 < WorkQueue.inHands (s.queue w.native.nodeNum).held t := by
      rw [State.queue, queueOf, WorkQueue.inHands_gather]
      exact List.countP_pos_iff.mpr ⟨w, hw, by simp [Worker.heldOn, hpc]⟩
    omega
  · have hhand : 0 < WorkQueue.inHands (s.queue w.native.nodeNum).busy t := by
      rw [State.queue, queueOf, WorkQueue.inHands_gather]
      exact List.countP_pos_iff.mpr ⟨w, hw, by simp [Worker.busyOn, hpc]⟩
    omega

/-- Nobody but a worker of its node holds a task, so counting the holders of
the node counts all. -/
theorem inHands_held {cfg : Config} {s : State} {n : Nat} {t : Task}
    (hr : (pool cfg).Reachable s) (ht : t ∈ accepted (s.node n).hist) :
    WorkQueue.inHands (s.queue n).held t =
      s.workers.countP fun w => w.native.pc = .holding (some t) := by
  rw [State.queue, queueOf, WorkQueue.inHands_gather]
  refine List.countP_congr fun w hw => ?_
  unfold Worker.heldOn
  split
  · next u hpc =>
      split
      · simp [hpc]
      · next hn =>
          simp only [Option.map_none, hpc, decide_eq_true_eq, reduceCtorEq, false_iff]
          intro hsame
          injection hsame with hsame
          injection hsame with hsame
          subst hsame
          exact hn ((numbered_of_reachable hr).same_node
            (accepted_of_hands hr hw (Or.inl hpc)) ht)
  · next hpc => simpa using fun h => hpc t h

end ThreadPool.Numa
