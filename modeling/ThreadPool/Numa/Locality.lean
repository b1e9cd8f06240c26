import ThreadPool.Numa.Conservation

/-!
# Tasks stay on their node

What the pool is for: a task accepted for a node is taken by a thread that
has been bound to that node. The thread takes from the node whose number it
read from its slot, which is the node it asked to be bound to; and the
handle it passed was its own, because its index leads to the slot that holds
the thread itself, however the vector grew in the meantime (`Wired`).
-/

namespace ThreadPool.Numa

open Interleave Relation Machine

/-- Past the binding, and not out of `WorkerLoop`. -/
def WorkerPc.bound : WorkerPc → Bool
  | .registration | .readNode | .bind | .unbound | .entry _ | .ended _ => false
  | _ => true

/-- From the read of `numa_node` on, `node_num` is the slot's node; past the
binding, the thread is bound to it. -/
structure Worker.Placed (bound : Affinities) (w : Worker) : Prop where
  node : w.native.pc = .bind ∨ w.native.pc.bound = true → w.numaNode = w.native.nodeNum
  bound : w.native.pc.bound = true → (w.native.self, (w.native.nodeNum : Int)) ∈ bound

/-- A taker of a task of node `n` names that node, and is bound to it. -/
def Agent.Local (bound : Affinities) (n : Nat) (agent : Agent) : Prop :=
  agent.numaNode = n ∧ (agent.self, (n : Int)) ∈ bound

structure Located (s : State) : Prop where
  placed : ∀ w ∈ s.workers, w.Placed s.sh.bound
  taken : ∀ n agent t, WorkEvent.take agent t ∈ (s.node n).hist → agent.Local s.sh.bound n

theorem Worker.placed_of_outside {bound : Affinities} {w : Worker}
    (hbind : w.native.pc ≠ .bind) (hpc : w.native.pc.bound = false) :
    w.Placed bound where
  node := fun h => by
    rcases h with h | h
    · exact absurd h hbind
    · rw [hpc] at h
      cases h
  bound := fun h => by
    rw [hpc] at h
    cases h

theorem Worker.Placed.mono {bound : Affinities} {w : Worker} (hw : w.Placed bound)
    (x : Nat × Int) : w.Placed (bound ++ [x]) where
  node := hw.node
  bound := fun h => List.mem_append_left _ (hw.bound h)

theorem Worker.Placed.wake {bound : Affinities} {w : Worker} (hw : w.Placed bound)
    (hblocked : w.native.pc = .blocked false) :
    (w.goto (.blocked true)).Placed bound := by
  have hpc : w.native.pc.bound = true := by
    rw [hblocked]
    rfl
  exact ⟨fun _ => hw.node (Or.inr hpc), fun _ => hw.bound hpc⟩

theorem WorkerHop.placed {cfg : Config} {s : State} {w w' : Worker} {bound : Affinities}
    (h : WorkerHop cfg s w w') (hw : w.Placed bound) : w'.Placed bound := by
  cases h with
  | registers | leaves | noNode | bindFails | unbound | ends =>
      exact Worker.placed_of_outside (by simp [Worker.goto]) rfl
  | readsNode n _ hn =>
      exact ⟨fun _ => hn, fun h => by cases h⟩
  | spurious hblocked => exact hw.wake hblocked

theorem LoopStep.bound {sh sh' : Shared} {nd nd' : NodeData} {free throws : Bool}
    {agent : Agent} {pc pc' : WorkerPc} {fl fl' : Flags}
    (h : LoopStep sh nd free agent throws pc fl sh' nd' pc' fl') :
    pc.bound = true ∧ sh'.bound = sh.bound := by
  cases h with
  | passes hpc | sleeps hpc => rcases hpc with rfl | rfl <;> exact ⟨rfl, rfl⟩
  | _ => exact ⟨rfl, rfl⟩

theorem LoopStep.takes {sh sh' : Shared} {nd nd' : NodeData} {free throws : Bool}
    {agent agent' : Agent} {pc pc' : WorkerPc} {fl fl' : Flags} {t : Task}
    (h : LoopStep sh nd free agent throws pc fl sh' nd' pc' fl')
    (ht : WorkEvent.take agent' t ∈ nd'.hist) :
    WorkEvent.take agent' t ∈ nd.hist ∨ agent' = agent := by
  cases h with
  | pops u =>
      rcases List.mem_append.mp ht with hold | hnew
      · exact Or.inl hold
      · rw [List.mem_singleton] at hnew
        injection hnew with hagent
        exact Or.inr hagent
  | starts | drops | returns | throws =>
      rcases List.mem_append.mp ht with hold | hnew
      · exact Or.inl hold
      · rw [List.mem_singleton] at hnew
        cases hnew
  | _ => exact Or.inl ht

theorem Located.frame {s s' : State} (hs : Located s)
    (hbound : s'.sh.bound = s.sh.bound)
    (hhist : ∀ n, (s'.node n).hist = (s.node n).hist)
    (hworkers : ∀ w ∈ s'.workers, w.Placed s.sh.bound) : Located s' where
  placed := by rw [hbound]; exact hworkers
  taken := fun n agent t ht => by
    rw [hhist] at ht
    rw [hbound]
    exact hs.taken n agent t ht

theorem Located.notifyAll {s : State} (hs : Located s) (n : Nat) :
    ∀ w ∈ Numa.notifyAll n s.workers, w.Placed s.sh.bound := by
  refine forall_mem_notifyAll hs.placed fun w hw hasleep => ?_
  exact (hs.placed w hw).wake (Worker.blocked_of_asleepOn hasleep).2

theorem Move.located {cfg : Config} {s s' : State} {a : Action} (hs : Located s)
    (h : Move cfg s a s') : Located s' := by
  cases h with
  | pushes _ _ hnd =>
      refine ⟨hs.placed, fun n agent t ht => ?_⟩
      rw [node_set hnd rfl] at ht
      split at ht
      · next hn =>
          rcases List.mem_append.mp ht with hold | hnew
          · rw [← node_eq hnd, hn] at hold
            exact hs.taken n agent t hold
          · rw [List.mem_singleton] at hnew
            cases hnew
      · exact hs.taken n agent t ht
  | notifies _ _ hw hasleep =>
      exact hs.frame rfl (fun _ => rfl) (forall_mem_set hs.placed
        ((hs.placed _ (List.mem_of_getElem? hw)).wake (Worker.blocked_of_asleepOn hasleep).2))
  | workerHop _ hw hhop =>
      exact hs.frame rfl (fun _ => rfl)
        (forall_mem_set hs.placed (hhop.placed (hs.placed _ (List.mem_of_getElem? hw))))
  | binds hw hpc =>
      have hold := hs.placed _ (List.mem_of_getElem? hw)
      constructor
      · refine forall_mem_set (fun v hv => (hs.placed v hv).mono _) ?_
        exact ⟨fun _ => hold.node (Or.inl hpc), fun _ => List.mem_append_right _
          (List.mem_singleton.mpr rfl)⟩
      · intro n agent t ht
        obtain ⟨hnode, hbound⟩ := hs.taken n agent t ht
        exact ⟨hnode, List.mem_append_left _ hbound⟩
  | @loops j throws w sh nd nd' pc fl hw hnd hstep =>
      have hold := hs.placed _ (List.mem_of_getElem? hw)
      obtain ⟨hpc, hsame⟩ := hstep.bound
      have hnode := hold.node (Or.inr hpc)
      have hbound := hold.bound hpc
      have hplaced : ∀ v ∈ s.workers.set j ({ w with flags := fl }.goto pc),
          v.Placed s.sh.bound :=
        forall_mem_set hs.placed ⟨fun _ => hnode, fun _ => hbound⟩
      refine ⟨by rw [← hsame] at hplaced; exact hplaced, fun n agent t ht => ?_⟩
      rw [node_set hnd rfl] at ht
      rw [State.put, hsame]
      split at ht
      · next hn =>
          subst hn
          rcases hstep.takes ht with hin | rfl
          · rw [← node_eq hnd] at hin
            exact hs.taken _ agent t hin
          · exact ⟨hnode, hbound⟩
      · exact hs.taken n agent t ht
  | spawns | expandSpawns =>
      refine hs.frame rfl (fun _ => rfl) fun w hw => ?_
      rcases List.mem_append.mp hw with hold | hnew
      · exact hs.placed w hold
      · rw [List.mem_singleton.mp hnew]
        exact Worker.placed_of_outside (by simp [freshWorker]) rfl
  | pushesSlot | expandPushes =>
      exact hs.frame rfl (fun n => (hist_pushWorker s _ n).1) hs.placed
  | notifiesAll | shrinkNotifies => exact hs.frame rfl (fun _ => rfl) (hs.notifyAll _)
  | setsExit _ hw | joined _ hw | marks _ _ hw =>
      have hold := hs.placed _ (List.mem_of_getElem? hw)
      exact hs.frame rfl (fun _ => rfl) (forall_mem_set hs.placed ⟨hold.node, hold.bound⟩)
  | cleared => exact hs.frame rfl (fun _ => rfl) fun _ hw => absurd hw List.not_mem_nil
  | clearTasks _ hnd =>
      refine ⟨hs.placed, fun n agent t ht => ?_⟩
      rw [node_set hnd rfl] at ht
      split at ht
      · next hn =>
          rcases List.mem_append.mp ht with hold | hnew
          · rw [← node_eq hnd, hn] at hold
            exact hs.taken n agent t hold
          · obtain ⟨u, -, hu⟩ := List.mem_map.mp hnew
            cases hu
      · exact hs.taken n agent t ht
  | _ => exact hs.frame rfl (fun _ => rfl) hs.placed

theorem located_of_reachable {cfg : Config} {s : State} (hr : (pool cfg).Reachable s) :
    Located s := by
  refine hr.invariant ⟨fun _ hw => absurd hw List.not_mem_nil, fun n agent t ht => ?_⟩
    fun _ _ _ hr hs hstep => (move_of_step hr hstep).located hs
  rw [node_init] at ht
  cases ht

/-- Conservation, order and locality. A task that is not empty and was
accepted for node `n` is in one place; what left the node's queue, followed
by what is in it, is what was accepted for it, in that order; and whoever
took a task from it, or has a task of it in its hands, works on a slot of
node `n` with a thread bound to that node. -/
theorem tasks_stay_local {cfg : Config} {s : State} (hr : (pool cfg).Reachable s)
    (n : Nat) :
    (∀ t ∈ accepted (s.node n).hist, t.callable = true →
      (s.node n).tasks.count t +
        s.workers.countP (fun w => w.native.pc = .holding (some t)) +
        (started (s.node n).hist).count t + (discarded (s.node n).hist).count t = 1) ∧
      left (s.node n).hist ++ (s.node n).tasks = accepted (s.node n).hist ∧
      (taken (s.node n).hist).Sublist (accepted (s.node n).hist) ∧
      (∀ agent t, WorkEvent.take agent t ∈ (s.node n).hist → agent.Local s.sh.bound n) ∧
      ∀ w ∈ s.workers, ∀ t ∈ accepted (s.node n).hist,
        w.native.pc = .holding (some t) ∨ w.native.pc = .running t →
          w.agent.Local s.sh.bound n := by
  have hlaw := lawful_of_reachable hr n
  have hlocated := located_of_reachable hr
  refine ⟨fun t ht hcall => ?_, hlaw.order, hlaw.taken_sublist, hlocated.taken n,
    fun w hw t ht hpc => ?_⟩
  · have hplace := one_place hlaw (tested_of_reachable hr n) ht hcall
    rw [inHands_held hr ht] at hplace
    exact hplace
  · have hnode : w.native.nodeNum = n :=
      (numbered_of_reachable hr).same_node (accepted_of_hands hr hw hpc) ht
    have hbound : w.native.pc.bound = true := by
      rcases hpc with hpc | hpc <;> rw [hpc] <;> rfl
    have hplaced := hlocated.placed w hw
    subst hnode
    exact ⟨hplaced.node (Or.inr hbound), hplaced.bound hbound⟩

/-- A task for the second of two nodes, in the hands of that node's worker. -/
theorem tasks_stay_local_run : ∃ s : State,
    s.sh.bound = [(1, 1)] ∧
      (s.node 1).hist = [.accept ⟨0, true⟩, .take ⟨1, 1⟩ ⟨0, true⟩] ∧
      (∀ t ∈ accepted (s.node 1).hist, t.callable = true →
        (s.node 1).tasks.count t +
          s.workers.countP (fun w => w.native.pc = .holding (some t)) +
          (started (s.node 1).hist).count t + (discarded (s.node 1).hist).count t = 1) ∧
      left (s.node 1).hist ++ (s.node 1).tasks = accepted (s.node 1).hist ∧
      (taken (s.node 1).hist).Sublist (accepted (s.node 1).hist) ∧
      (∀ agent t, WorkEvent.take agent t ∈ (s.node 1).hist → agent.Local s.sh.bound 1) ∧
      ∀ w ∈ s.workers, ∀ t ∈ accepted (s.node 1).hist,
        w.native.pc = .holding (some t) ∨ w.native.pc = .running t →
          w.agent.Local s.sh.bound 1 := by
  obtain ⟨s, hr, hbound, hhist⟩ := exists_of_run (pool (.ofHardware 2 2))
    (starting ++ entering 1 ++ enqueuing 0 1 true ++ works 1 11)
    (fun s => s.sh.bound = [(1, 1)] ∧
      (s.node 1).hist = [.accept ⟨0, true⟩, .take ⟨1, 1⟩ ⟨0, true⟩])
    (by decide +kernel)
  exact ⟨s, hbound, hhist, tasks_stay_local hr 1⟩

end ThreadPool.Numa
