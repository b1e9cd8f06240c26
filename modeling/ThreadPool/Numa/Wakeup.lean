import ThreadPool.Lib.Wakeup
import ThreadPool.Numa.Locality
import ThreadPool.Numa.Headcount

/-!
# No wake-up is lost for a node's task

Each node refines the gate of `Lib.Wakeup` while the pool runs, except for
one thing. A worker that has been marked `should_exit` uses up a signal and
leaves without popping, so it must be counted among neither the sleepers nor
the awake, and a mark made on either breaks the law. What repairs it is the
broadcast `ShrinkThreadsOnNode` ends with: after it nobody is asleep. The
monitor keeps the node's `tasks_mutex` from before its first mark to its
broadcast, so nobody can find the predicate false in between, and no sleeper
is marked outside.
-/

namespace ThreadPool.Numa

open Interleave Relation Machine

/-! ## A worker between predicate and blocking -/

/-- Whoever has found the predicate false and still holds the mutex of its
node has the queue empty, is not marked, and has the mutex for itself. -/
structure Worker.Guarded (s : State) (w : Worker) : Prop where
  empty : (s.node w.native.nodeNum).tasks = []
  unmarked : s.sh.running = true → w.flags.shouldExit = false
  alone : ∀ m, s.monitorThread = some m → m.pc.node? ≠ some w.native.nodeNum

def WindowsGuarded (s : State) : Prop :=
  ∀ w ∈ s.workers, w.native.pc = .window → w.Guarded s

theorem Worker.Guarded.frame {s s' : State} {w : Worker} (hw : w.Guarded s)
    (htasks : (s'.node w.native.nodeNum).tasks = (s.node w.native.nodeNum).tasks)
    (hrun : s'.sh.running = true → s.sh.running = true)
    (hmonitor : ∀ m', s'.monitorThread = some m' →
      m'.pc.node? = none ∨ ∃ m, s.monitorThread = some m ∧ m'.pc.node? = m.pc.node?) :
    w.Guarded s' where
  empty := htasks.trans hw.empty
  unmarked := fun h => hw.unmarked (hrun h)
  alone := fun m' hm' => by
    rcases hmonitor m' hm' with hnone | ⟨m, hm, hsame⟩
    · rw [hnone]
      simp
    · rw [hsame]
      exact hw.alone m hm

theorem tasksMutexFree_iff {s : State} {n : Nat} :
    s.tasksMutexFree n = true ↔
      (∀ w ∈ s.workers, w.native.nodeNum = n → w.native.pc ≠ .window) ∧
        ∀ m, s.monitorThread = some m → m.pc.node? ≠ some n := by
  unfold State.tasksMutexFree
  cases s.monitorThread with
  | none => simp [Worker.inWindow, imp_iff_not_or]
  | some m => simp [Worker.inWindow, ← imp_iff_not_or]

theorem waitPredicate_false {sh : Shared} {nd : NodeData} {fl : Flags}
    (h : waitPredicate sh nd fl = false) :
    nd.tasks = [] ∧ fl.shouldExit = false ∧ sh.running = true := by
  simpa [waitPredicate, and_assoc] using h

theorem MonitorHop.node {cfg : Config} {s : State} {pc pc' : MonitorPc}
    (h : MonitorHop cfg s pc pc') :
    pc'.node? = none ∨ pc'.node? = pc.node? ∨
      ∃ n, pc'.node? = some n ∧ s.tasksMutexFree n = true := by
  cases h with
  | nodeLock _ hfree => exact Or.inr (Or.inr ⟨_, rfl, hfree⟩)
  | _ => first | exact Or.inl rfl | exact Or.inr (Or.inl rfl)

/-- A step of the loop leaves the queue alone, or has the node's mutex; and it
comes to a window by a false predicate. -/
theorem LoopStep.windows {sh sh' : Shared} {nd nd' : NodeData} {free throws : Bool}
    {agent : Agent} {pc pc' : WorkerPc} {fl fl' : Flags}
    (h : LoopStep sh nd free agent throws pc fl sh' nd' pc' fl') :
    (nd'.tasks = nd.tasks ∨ free = true) ∧
      (pc' = .window → free = true ∧ nd'.tasks = [] ∧ fl'.shouldExit = false) := by
  cases h with
  | pops t rest hfree => exact ⟨Or.inr hfree, fun h => by cases h⟩
  | sleeps hpc hfree hpred =>
      obtain ⟨htasks, hexit, -⟩ := waitPredicate_false hpred
      exact ⟨Or.inl rfl, fun _ => ⟨hfree, htasks, hexit⟩⟩
  | _ => exact ⟨Or.inl rfl, fun h => by cases h⟩

theorem LoopStep.running_same {sh sh' : Shared} {nd nd' : NodeData} {free throws : Bool}
    {agent : Agent} {pc pc' : WorkerPc} {fl fl' : Flags}
    (h : LoopStep sh nd free agent throws pc fl sh' nd' pc' fl')
    (hrun : sh'.running = true) : sh.running = true := h.running_eq ▸ hrun

theorem WindowsGuarded.frame {s s' : State} (hs : WindowsGuarded s)
    (hworkers : ∀ w' ∈ s'.workers, w'.native.pc = .window → w' ∈ s.workers)
    (htasks : ∀ n, (s'.node n).tasks = (s.node n).tasks)
    (hrun : s'.sh.running = true → s.sh.running = true)
    (hmonitor : ∀ m', s'.monitorThread = some m' →
      m'.pc.node? = none ∨ ∃ m, s.monitorThread = some m ∧ m'.pc.node? = m.pc.node?) :
    WindowsGuarded s' := fun w' hw' hwindow =>
  (hs w' (hworkers w' hw' hwindow) hwindow).frame (htasks _) hrun hmonitor

theorem mem_of_mem_set {ws : List Worker} {j : Nat} {v w' : Worker}
    (hnot : v.native.pc ≠ .window) (hw' : w' ∈ ws.set j v)
    (hwindow : w'.native.pc = .window) :
    w' ∈ ws := by
  rcases List.mem_or_eq_of_mem_set hw' with hmem | rfl
  · exact hmem
  · exact absurd hwindow hnot

theorem same_monitor {s : State} (m' : Monitor) (hm' : s.monitorThread = some m') :
    m'.pc.node? = none ∨ ∃ m, s.monitorThread = some m ∧ m'.pc.node? = m.pc.node? :=
  Or.inr ⟨m', hm', rfl⟩

theorem moved_monitor {s : State} {m : Monitor} {pc : MonitorPc}
    (hm : s.monitorThread = some m) (hpc : pc.node? = none ∨ pc.node? = m.pc.node?)
    (m' : Monitor) (hm' : some { m with pc := pc } = some m') :
    m'.pc.node? = none ∨ ∃ m, s.monitorThread = some m ∧ m'.pc.node? = m.pc.node? := by
  rw [← Option.some.inj hm']
  exact hpc.imp_right fun h => ⟨m, hm, h⟩

theorem mem_of_mem_spawn {ws : List Worker} {w : Worker} {m index handle : Nat}
    (hw : w ∈ ws ++ [freshWorker m index handle]) (hwindow : w.native.pc = .window) :
    w ∈ ws := by
  rcases List.mem_append.mp hw with hold | hnew
  · exact hold
  · rw [List.mem_singleton.mp hnew] at hwindow
    cases hwindow

theorem mem_of_mem_notifyAll {ws : List Worker} {w' : Worker} {m : Nat}
    (hw' : w' ∈ notifyAll m ws) (hwindow : w'.native.pc = .window) : w' ∈ ws := by
  obtain ⟨w, hw, ⟨-, rfl⟩ | ⟨-, rfl⟩⟩ := mem_notifyAll hw'
  · exact hw
  · cases hwindow

theorem WorkerHop.not_window {cfg : Config} {s : State} {w w' : Worker}
    (h : WorkerHop cfg s w w') : w'.native.pc ≠ .window := by
  cases h <;> exact fun h => by cases h

theorem Move.windowsGuarded {cfg : Config} {s s' : State} {a : Action}
    (hwired : Wired cfg s) (hlocated : Located s) (hs : WindowsGuarded s)
    (h : Move cfg s a s') :
    WindowsGuarded s' := by
  cases h with
  | @pushes k pick c nd hc hpc hnd hfree =>
      intro w hw hwindow
      have hother := (tasksMutexFree_iff.mp hfree).1 w hw
      refine (hs w hw hwindow).frame ?_ id same_monitor
      rw [node_set hnd rfl, if_neg fun hn => hother hn.symm hwindow]
  | notifies | binds =>
      exact hs.frame (fun _ => mem_of_mem_set (fun h => by cases h)) (fun _ => rfl) id
        same_monitor
  | workerHop _ _ hhop =>
      exact hs.frame (fun _ => mem_of_mem_set hhop.not_window) (fun _ => rfl) id same_monitor
  | @loops j throws w sh nd nd' pc fl hw hnd hstep =>
      have hset := node_set (t := State.put
        { s with sh := sh, nodes := s.nodes.set w.native.nodeNum nd' } j
        ({ w with flags := fl }.goto pc)) hnd rfl
      refine forall_mem_set (fun v hv hwindow => ?_) fun hwindow => ?_
      · refine (hs v hv hwindow).frame ?_ hstep.running_same same_monitor
        rw [hset]
        split
        · next hn =>
            rcases hstep.windows.1 with hsame | hfree
            · rw [hsame, ← hn, node_eq hnd]
            · exact absurd hwindow ((tasksMutexFree_iff.mp hfree).1 v hv hn.symm)
        · rfl
      · obtain ⟨hfree, htasks, hexit⟩ := hstep.windows.2 hwindow
        refine ⟨?_, fun _ => hexit, (tasksMutexFree_iff.mp hfree).2⟩
        have hself := hset w.native.nodeNum
        rw [if_pos rfl] at hself
        exact (congrArg NodeData.tasks hself).trans htasks
  | storeRunning hc =>
      have hnil := hwired.resting (by rw [hc]; rfl) (hwired.running_at hc rfl)
      intro w hw
      rw [show s.workers = [] from hnil] at hw
      cases hw
  | spawns => exact hs.frame (fun _ => mem_of_mem_spawn) (fun _ => rfl) id same_monitor
  | expandSpawns hm hpc =>
      exact hs.frame (fun _ => mem_of_mem_spawn) (fun _ => rfl) id
        (moved_monitor hm (Or.inr (by rw [hpc]; rfl)))
  | pushesSlot =>
      exact hs.frame (fun _ hw _ => hw) (fun n => (hist_pushWorker s _ n).2) id same_monitor
  | expandPushes hm hpc =>
      exact hs.frame (fun _ hw _ => hw) (fun n => (hist_pushWorker s _ n).2) id
        (moved_monitor hm (Or.inr (by rw [hpc]; rfl)))
  | startUnmonitored | starts =>
      refine hs.frame (fun _ hw _ => hw) (fun _ => rfl) id fun m' hm' => ?_
      rw [← Option.some.inj hm']
      exact Or.inl rfl
  | joinsMonitor =>
      exact hs.frame (fun _ hw _ => hw) (fun _ => rfl) id fun _ h => by cases h
  | clearRunning =>
      exact hs.frame (fun _ hw _ => hw) (fun _ => rfl) (fun h => by cases h) same_monitor
  | notifiesAll =>
      exact hs.frame (fun _ => mem_of_mem_notifyAll) (fun _ => rfl) id same_monitor
  | shrinkNotifies hm hpc =>
      exact hs.frame (fun _ => mem_of_mem_notifyAll) (fun _ => rfl) id
        (moved_monitor hm (Or.inl rfl))
  | setsExit hc hw =>
      have hrun := hwired.running_at hc rfl
      refine forall_mem_set (fun v hv hwindow => (hs v hv hwindow).frame rfl id same_monitor)
        fun hwindow => ?_
      obtain ⟨hempty, -, halone⟩ := hs _ (List.mem_of_getElem? hw) hwindow
      refine ⟨hempty, fun h => ?_, halone⟩
      rw [State.goto, State.put, hrun] at h
      cases h
  | joined _ hw =>
      refine forall_mem_set (fun v hv hwindow => (hs v hv hwindow).frame rfl id same_monitor)
        fun hwindow => ?_
      obtain ⟨hempty, hunmarked, halone⟩ := hs _ (List.mem_of_getElem? hw) hwindow
      exact ⟨hempty, hunmarked, halone⟩
  | cleared => exact fun _ hw => absurd hw List.not_mem_nil
  | @clearTasks _ _ p n nd hc hnd =>
      intro w hw hwindow
      have hold := hs w hw hwindow
      refine ⟨?_, hold.unmarked, hold.alone⟩
      rw [node_set hnd rfl]
      split
      · rfl
      · exact hold.empty
  | @monitorHop _ _ m pc hm hhop =>
      intro w hw hwindow
      have hold := hs w hw hwindow
      refine ⟨hold.empty, hold.unmarked, fun m' hm' => ?_⟩
      rw [← Option.some.inj hm']
      rcases hhop.node with hnone | hsame | ⟨n, hnode, hfree⟩
      · simp [hnone]
      · rw [show ({ m with pc := pc } : Monitor).pc.node? = m.pc.node? from hsame]
        exact hold.alone m hm
      · rw [show ({ m with pc := pc } : Monitor).pc.node? = some n from hnode]
        intro h
        exact (tasksMutexFree_iff.mp hfree).1 w hw (Option.some.inj h).symm hwindow
  | @marks _ _ m n need now removed i w hm hpc hw hneed hexp =>
      refine forall_mem_set (fun v hv hwindow => (hs v hv hwindow).frame rfl id
        (moved_monitor hm (Or.inr (by rw [hpc]; rfl)))) fun hwindow => ?_
      have hmem := List.mem_of_getElem? hw
      have hthread : w.native.pc = .window := hwindow
      have hnode := (hlocated.placed w hmem).node (Or.inr (by rw [hthread]; rfl))
      have halone := (hs w hmem hwindow).alone m hm
      simp only [Worker.expired, Bool.and_eq_true, decide_eq_true_eq] at hexp
      have hn : w.native.nodeNum = n := by omega
      rw [hpc, hn] at halone
      exact absurd rfl halone
  | monitorEnds =>
      refine hs.frame (fun _ hw _ => hw) (fun _ => rfl) id fun m' hm' => ?_
      rw [← Option.some.inj hm']
      exact Or.inl rfl
  | _ => exact hs.frame (fun _ hw _ => hw) (fun _ => rfl) id same_monitor

theorem windowsGuarded_of_reachable {cfg : Config} {s : State}
    (hr : (pool cfg).Reachable s) : WindowsGuarded s :=
  hr.invariant (fun _ hw => absurd hw List.not_mem_nil) fun _ _ _ hr hs hstep =>
    (move_of_step hr hstep).windowsGuarded (wired_of_reachable hr)
      (located_of_reachable hr) hs

/-! ## A node refines the gate -/

/-- Past the wait with a pop attempt on node `n` ahead: signalled or behind the
predicate and not marked, or past the second look at the mark. -/
def Worker.awakeOn (n : Nat) (w : Worker) : Bool :=
  w.native.nodeNum = n &&
    match w.native.pc with
    | .blocked true | .retestExit => !w.flags.shouldExit
    | .retestRunning | .clearIdle | .pop => true
    | _ => false

/-- Between push on node `n` and `NotifyOne`. -/
def Call.owesOn (n : Nat) (c : Call) : Bool := c.pc = .notify && c.nodeNum.toNat = n

def gateOf (n : Nat) (tasks : List Task) (ws : List Worker) (calls : List Call) : Gate where
  queued := tasks.length
  asleep := ws.countP (Worker.asleepOn n)
  awake := ws.countP (Worker.awakeOn n)
  owed := calls.countP (Call.owesOn n)

def State.gate (n : Nat) (s : State) : Gate := gateOf n (s.node n).tasks s.workers s.calls

/-- The law of a node: its gate is covered, and its sleepers are not marked. -/
structure Served (n : Nat) (s : State) : Prop where
  covered : (s.gate n).Covered
  unmarked : ∀ w ∈ s.workers, w.asleepOn n = true → w.flags.shouldExit = false

theorem Served.of_gate {n : Nat} {s s' : State} (hs : Served n s)
    (hgate : s'.gate n = s.gate n ∨ Gate.Step (s.gate n) (s'.gate n))
    (hunmarked : ∀ w ∈ s'.workers, w.asleepOn n = true → w.flags.shouldExit = false) :
    Served n s' where
  covered := by
    rcases hgate with hsame | hstep
    · rw [hsame]
      exact hs.covered
    · exact hstep.covered hs.covered
  unmarked := hunmarked

theorem Served.of_awake {n : Nat} {s : State}
    (h : ∀ w ∈ s.workers, w.asleepOn n = false) : Served n s where
  covered := fun hpos => by
    obtain ⟨w, hw, hasleep⟩ := List.countP_pos_iff.mp hpos
    rw [h w hw] at hasleep
    cases hasleep
  unmarked := fun w hw hasleep => by
    rw [h w hw] at hasleep
    cases hasleep

theorem Worker.asleepOn_eq {n : Nat} {w : Worker} (hn : w.native.nodeNum = n) :
    w.asleepOn n = decide (w.native.pc = .blocked false) := by
  rw [Worker.asleepOn, decide_eq_true hn, Bool.true_and]

theorem Worker.awakeOn_eq {n : Nat} {w : Worker} (hn : w.native.nodeNum = n) :
    w.awakeOn n = match w.native.pc with
      | .blocked true | .retestExit => !w.flags.shouldExit
      | .retestRunning | .clearIdle | .pop => true
      | _ => false := by
  rw [Worker.awakeOn, decide_eq_true hn, Bool.true_and]

theorem Worker.not_gated_elsewhere {n : Nat} {w : Worker} (hn : w.native.nodeNum ≠ n) :
    w.asleepOn n = false ∧ w.awakeOn n = false := by
  simp [Worker.asleepOn, Worker.awakeOn, hn]

/-- The program points at which a worker has a place in a gate. -/
def WorkerPc.gated : WorkerPc → Bool
  | .blocked _ | .retestExit | .retestRunning | .clearIdle | .pop => true
  | _ => false

theorem Worker.not_gated {w : Worker} (h : w.native.pc.gated = false) (n : Nat) :
    w.asleepOn n = false ∧ w.awakeOn n = false := by
  unfold Worker.asleepOn Worker.awakeOn
  cases hpc : w.native.pc with
  | blocked _ | retestExit | retestRunning | clearIdle | pop =>
      rw [hpc] at h
      cases h
  | _ => simp

theorem Worker.not_placed {n : Nat} {w : Worker}
    (h : w.native.nodeNum ≠ n ∨ w.native.pc.gated = false) :
    w.asleepOn n = false ∧ w.awakeOn n = false := by
  rcases h with hn | hpc
  · exact Worker.not_gated_elsewhere hn
  · exact Worker.not_gated hpc n

theorem gateOf_set {n : Nat} {tasks : List Task} {ws : List Worker} {calls : List Call}
    {j : Nat} {w w' : Worker} (hw : ws[j]? = some w)
    (hasleep : w'.asleepOn n = w.asleepOn n) (hawake : w'.awakeOn n = w.awakeOn n) :
    gateOf n tasks (ws.set j w') calls = gateOf n tasks ws calls := by
  rw [gateOf, countP_set_same hw hasleep, countP_set_same hw hawake, gateOf]

theorem gateOf_set_outside {n : Nat} {tasks : List Task} {ws : List Worker}
    {calls : List Call} {j : Nat} {w w' : Worker} (hw : ws[j]? = some w)
    (hbefore : w.asleepOn n = false ∧ w.awakeOn n = false)
    (hafter : w'.asleepOn n = false ∧ w'.awakeOn n = false) :
    gateOf n tasks (ws.set j w') calls = gateOf n tasks ws calls :=
  gateOf_set hw (hafter.1.trans hbefore.1.symm) (hafter.2.trans hbefore.2.symm)

theorem gateOf_signal {n : Nat} {ws : List Worker} {i : Nat} {w : Worker}
    (hw : ws[i]? = some w) (hasleep : w.asleepOn n = true)
    (hexit : w.flags.shouldExit = false) :
    ws.countP (Worker.asleepOn n) =
        (ws.set i (w.goto (.blocked true))).countP (Worker.asleepOn n) + 1 ∧
      (ws.set i (w.goto (.blocked true))).countP (Worker.awakeOn n) =
        ws.countP (Worker.awakeOn n) + 1 := by
  obtain ⟨hn, hblocked⟩ := Worker.blocked_of_asleepOn hasleep
  refine ⟨countP_set_lose hw _ hasleep ?_, countP_set_gain hw ?_ ?_⟩
  · simp [Worker.asleepOn, Worker.goto]
  · simp [Worker.awakeOn, hblocked]
  · simp [Worker.awakeOn, Worker.goto, hn, hexit]

/-- A step of the loop on node `n`, seen as the node's gate. -/
theorem LoopStep.gate {n : Nat} {s : State} {j : Nat} {throws free : Bool} {w : Worker}
    {sh : Shared} {nd' : NodeData} {pc : WorkerPc} {fl : Flags} {agent : Agent}
    (hrun : s.sh.running = true) (hs : WindowsGuarded s) (hw : s.workers[j]? = some w)
    (hn : w.native.nodeNum = n)
    (hstep : LoopStep s.sh (s.node n) free agent throws w.native.pc w.flags sh nd' pc fl) :
    gateOf n nd'.tasks (s.workers.set j ({ w with flags := fl }.goto pc)) s.calls = s.gate n ∨
      Gate.Step (s.gate n)
        (gateOf n nd'.tasks (s.workers.set j ({ w with flags := fl }.goto pc)) s.calls) := by
  have hasleep := Worker.asleepOn_eq hn
  have hawake := Worker.awakeOn_eq hn
  have hasleep' := Worker.asleepOn_eq (w := { w with flags := fl }.goto pc) hn
  have hawake' := Worker.awakeOn_eq (w := { w with flags := fl }.goto pc) hn
  have hwindow : w.native.pc = .window → (s.node n).tasks = [] := fun h =>
    hn ▸ (hs w (List.mem_of_getElem? hw) h).empty
  simp only [State.gate, gateOf]
  generalize hpc : w.native.pc = pc₀ at hstep hasleep hawake hwindow
  cases hstep with
  | passes hwait hfree hpred =>
      rw [countP_set_same hw
        (by rcases hwait with rfl | rfl <;> exact hasleep'.trans hasleep.symm)]
      rcases hwait with rfl | rfl
      · cases hexit : w.flags.shouldExit with
        | true =>
            rw [countP_set_same hw (by rw [hawake, hawake']; simp [Worker.goto, hexit])]
            exact Or.inl rfl
        | false =>
            rw [countP_set_gain hw hawake (by rw [hawake']; simp [Worker.goto, hexit])]
            exact Or.inr .arrive
      · rw [countP_set_same hw (by exact hawake'.trans hawake.symm)]
        exact Or.inl rfl
  | sleeps hwait hfree hpred =>
      obtain ⟨htasks, hexit, -⟩ := waitPredicate_false hpred
      rw [countP_set_same hw
        (by rcases hwait with rfl | rfl <;> exact hasleep'.trans hasleep.symm)]
      rcases hwait with rfl | rfl
      · rw [countP_set_same hw (by exact hawake'.trans hawake.symm)]
        exact Or.inl rfl
      · have hlose := countP_set_lose hw ({ w with flags := w.flags }.goto .window)
          (by rw [hawake, hexit]; rfl) hawake'
        rw [hlose, htasks]
        exact Or.inr .turnAway
  | blocks =>
      rw [countP_set_gain hw (by exact hasleep) (by exact hasleep'),
        countP_set_same hw (by exact hawake'.trans hawake.symm), hwindow rfl]
      exact Or.inr .sleep
  | remarked hexit | stillUnmarked hexit =>
      refine Or.inl ?_
      rw [countP_set_same hw (by exact hasleep'.trans hasleep.symm),
        countP_set_same hw (by rw [hawake, hexit, hawake']; rfl)]
  | stoppedWaiting hrunning =>
      rw [hrun] at hrunning
      cases hrunning
  | misses hfree htasks =>
      have hlose :=
        countP_set_lose hw ({ w with flags := w.flags }.goto (.holding none))
          hawake hawake'
      rw [countP_set_same hw (by exact hasleep'.trans hasleep.symm), hlose, htasks]
      exact Or.inr .turnAway
  | pops t rest hfree htasks =>
      have hlose :=
        countP_set_lose hw ({ w with flags := w.flags }.goto (.holding (some t)))
          hawake hawake'
      rw [countP_set_same hw (by exact hasleep'.trans hasleep.symm), hlose, htasks]
      exact Or.inr .take
  | _ =>
      refine Or.inl ?_
      rw [countP_set_same hw (by exact hasleep'.trans hasleep.symm),
        countP_set_same hw (by exact hawake'.trans hawake.symm)]

theorem gateOf_push {n k : Nat} {tasks tasks' : List Task} {ws : List Worker}
    {calls : List Call} {c : Call} {t : Task} (hc : calls[k]? = some c) (hpc : c.pc = .push)
    (htasks : tasks' = if c.nodeNum.toNat = n then tasks ++ [t] else tasks) :
    gateOf n tasks' ws (calls.set k (c.goto .notify)) = gateOf n tasks ws calls ∨
      Gate.Step (gateOf n tasks ws calls)
        (gateOf n tasks' ws (calls.set k (c.goto .notify))) := by
  have hnone : c.owesOn n = false := by simp [Call.owesOn, hpc]
  rw [htasks]
  simp only [gateOf]
  by_cases hn : c.nodeNum.toNat = n
  · rw [if_pos hn, countP_set_gain hc hnone (by simp [Call.owesOn, Call.goto, hn]),
      List.length_append]
    exact Or.inr .push
  · rw [if_neg hn, countP_set_same hc (by rw [hnone]; simp [Call.owesOn, Call.goto, hn])]
    exact Or.inl rfl

theorem gateOf_notify {n k i : Nat} {tasks : List Task} {ws : List Worker}
    {calls : List Call} {c : Call} {w : Worker} (hc : calls[k]? = some c)
    (hpc : c.pc = .notify) (hw : ws[i]? = some w)
    (hasleep : w.asleepOn c.nodeNum.toNat = true)
    (hunmarked : c.nodeNum.toNat = n → w.flags.shouldExit = false) :
    gateOf n tasks (ws.set i (w.goto (.blocked true))) (calls.set k (c.goto .returned)) =
        gateOf n tasks ws calls ∨
      Gate.Step (gateOf n tasks ws calls)
        (gateOf n tasks (ws.set i (w.goto (.blocked true)))
          (calls.set k (c.goto .returned))) := by
  by_cases hn : c.nodeNum.toNat = n
  · rw [hn] at hasleep
    obtain ⟨hsleepers, hawake⟩ := gateOf_signal hw hasleep (hunmarked hn)
    have howed := countP_set_lose hc (c.goto .returned)
      (show c.owesOn n = true by simp [Call.owesOn, hpc, hn])
      (by simp [Call.owesOn, Call.goto])
    simp only [gateOf]
    rw [hsleepers, hawake, howed]
    exact Or.inr .notify
  · have hother : w.native.nodeNum ≠ n := fun h =>
      hn ((Worker.blocked_of_asleepOn hasleep).1.symm.trans h)
    refine Or.inl ?_
    rw [gateOf_set_outside hw (Worker.not_gated_elsewhere hother)
      (Worker.not_gated_elsewhere (w := w.goto (.blocked true)) hother)]
    rw [gateOf, gateOf, countP_set_same hc (by simp [Call.owesOn, Call.goto, hn])]

theorem gateOf_notifyNobody {n k : Nat} {tasks : List Task} {ws : List Worker}
    {calls : List Call} {c : Call} (hc : calls[k]? = some c) (hpc : c.pc = .notify)
    (hnone : ∀ w ∈ ws, w.asleepOn c.nodeNum.toNat = false) :
    gateOf n tasks ws (calls.set k (c.goto .returned)) = gateOf n tasks ws calls ∨
      Gate.Step (gateOf n tasks ws calls)
        (gateOf n tasks ws (calls.set k (c.goto .returned))) := by
  simp only [gateOf]
  by_cases hn : c.nodeNum.toNat = n
  · have hasleep : ws.countP (Worker.asleepOn n) = 0 :=
      List.countP_eq_zero.mpr fun w hw => by simp [← hn, hnone w hw]
    have howed := countP_set_lose hc (c.goto .returned)
      (show c.owesOn n = true by simp [Call.owesOn, hpc, hn])
      (by simp [Call.owesOn, Call.goto])
    rw [hasleep, howed]
    exact Or.inr .notifyNobody
  · rw [countP_set_same hc (by simp [Call.owesOn, Call.goto, hn])]
    exact Or.inl rfl

theorem gateOf_rouse {n i : Nat} {tasks : List Task} {ws : List Worker}
    {calls : List Call} {w : Worker} (hw : ws[i]? = some w)
    (hblocked : w.native.pc = .blocked false)
    (hunmarked : w.asleepOn n = true → w.flags.shouldExit = false) :
    gateOf n tasks (ws.set i (w.goto (.blocked true))) calls = gateOf n tasks ws calls ∨
      Gate.Step (gateOf n tasks ws calls)
        (gateOf n tasks (ws.set i (w.goto (.blocked true))) calls) := by
  by_cases hn : w.native.nodeNum = n
  · have hasleep : w.asleepOn n = true := by simp [Worker.asleepOn, hn, hblocked]
    obtain ⟨hsleepers, hawake⟩ := gateOf_signal hw hasleep (hunmarked hasleep)
    simp only [gateOf]
    rw [hsleepers, hawake]
    exact Or.inr .rouse
  · exact Or.inl (gateOf_set_outside hw (Worker.not_gated_elsewhere hn)
      (Worker.not_gated_elsewhere (w := w.goto (.blocked true)) hn))

theorem LoopStep.sleeps_unmarked {s : State} {w : Worker} {throws free : Bool}
    {nd nd' : NodeData} {sh : Shared} {pc : WorkerPc} {fl : Flags} {agent : Agent}
    (hguarded : w.native.pc = .window → w.flags.shouldExit = false)
    (hstep : LoopStep s.sh nd free agent throws w.native.pc w.flags sh nd' pc fl)
    (hpc : pc = .blocked false) : fl.shouldExit = false := by
  generalize hpc₀ : w.native.pc = pc₀ at hstep hguarded
  cases hstep with
  | blocks => exact hguarded rfl
  | _ => cases hpc

theorem Served.set_outside {n j : Nat} {s s' : State} {w w' : Worker} (hs : Served n s)
    (hw : s.workers[j]? = some w) (hbefore : w.asleepOn n = false ∧ w.awakeOn n = false)
    (hafter : w'.asleepOn n = false ∧ w'.awakeOn n = false)
    (htasks : (s'.node n).tasks = (s.node n).tasks)
    (hworkers : s'.workers = s.workers.set j w') (hcalls : s'.calls = s.calls) :
    Served n s' := by
  refine hs.of_gate (Or.inl ?_) ?_
  · rw [State.gate, htasks, hworkers, hcalls]
    exact gateOf_set_outside hw hbefore hafter
  · rw [hworkers]
    refine forall_mem_set hs.unmarked fun hasleep => ?_
    rw [hafter.1] at hasleep
    cases hasleep

theorem CallHop.owes {cfg : Config} {s : State} {c c' : Call} (h : CallHop cfg s c c')
    (n : Nat) : c.owesOn n = false ∧ c'.owesOn n = false := by
  cases h with
  | rejected hpc | accepted hpc | lost _ hpc | located _ hpc | outOfRange hpc
  | inRange _ hpc | rejectedOn hpc | acceptedOn hpc =>
      simp [Call.owesOn, Call.goto, hpc]

/-! ## Marks -/

/-- The step is the marking of a worker of node `n`. -/
def State.marking (n : Nat) (s : State) : Action → Bool
  | .monitor _ _ => s.monitorThread.any fun m =>
      match m.pc with
      | .shrinkMark k need now removed i =>
          k = n && removed < need && (s.slot i).any (Worker.expired n now)
      | _ => false
  | _ => false

/-- A pass on node `n` has marked a worker, or is at its broadcast. -/
def MonitorPc.marked (n : Nat) : MonitorPc → Bool
  | .shrinkMark k _ _ removed _ => k = n && 0 < removed
  | .shrinkNotify k => k = n
  | _ => false

/-- A shrink pass on node `n` may be between its first mark and its
broadcast. -/
def Shrinking (n : Nat) (s : State) : Prop :=
  ∃ m, s.monitorThread = some m ∧ m.pc.marked n = true

/-- The law holds while the pool runs. -/
def Kept (n : Nat) (s : State) : Prop := s.sh.running = true → Served n s

theorem Worker.Placed.marked_elsewhere {bound : Affinities} {w : Worker} {n k now : Nat}
    (hplaced : w.Placed bound) (hexp : w.expired k now = true) (hkn : k ≠ n) :
    w.native.nodeNum ≠ n ∨ w.native.pc.gated = false := by
  by_cases hgated : w.native.pc.gated = true
  · refine Or.inl fun hn => hkn ?_
    have hbound : w.native.pc.bound = true := by
      cases hpc : w.native.pc <;> rw [hpc] at hgated <;> first | rfl | cases hgated
    have hnode := hplaced.node (Or.inr hbound)
    simp only [Worker.expired, Bool.and_eq_true, decide_eq_true_eq] at hexp
    omega
  · exact Or.inr (by simpa using hgated)

theorem WorkerHop.gated {cfg : Config} {s : State} {w w' : Worker}
    (h : WorkerHop cfg s w w') :
    w.native.pc.gated = false ∧ w'.native.pc.gated = false ∨
      w.native.pc = .blocked false ∧ w' = w.goto (.blocked true) := by
  cases h with
  | registers hpc | leaves hpc | noNode hpc | readsNode _ hpc | bindFails hpc | unbound hpc
  | ends _ hpc => exact Or.inl ⟨by rw [hpc]; rfl, rfl⟩
  | spurious hblocked => exact Or.inr ⟨hblocked, rfl⟩

theorem unmarked_signal {n : Nat} {s : State} {i : Nat} {w : Worker}
    (hs : ∀ w ∈ s.workers, w.asleepOn n = true → w.flags.shouldExit = false) :
    ∀ v ∈ s.workers.set i (w.goto (.blocked true)), v.asleepOn n = true →
      v.flags.shouldExit = false :=
  forall_mem_set hs fun hasleep => by simp [Worker.asleepOn, Worker.goto] at hasleep

theorem gateOf_append {n : Nat} {tasks : List Task} {ws : List Worker}
    {calls : List Call} {m index handle : Nat} :
    gateOf n tasks (ws ++ [freshWorker m index handle]) calls = gateOf n tasks ws calls := by
  obtain ⟨hasleep, hawake⟩ := Worker.not_gated (w := freshWorker m index handle) rfl n
  simp [gateOf, hasleep, hawake]

/-- A broadcast on node `m`, for node `n`. -/
theorem Served.notifyAll {n m : Nat} {s s' : State} (hs : m ≠ n → Served n s)
    (hnodes : s'.nodes = s.nodes) (hcalls : s'.calls = s.calls)
    (hworkers : s'.workers = Numa.notifyAll m s.workers) : Served n s' := by
  by_cases hmn : m = n
  · refine Served.of_awake fun w' hw' => ?_
    rw [hworkers] at hw'
    obtain ⟨w, -, ⟨hawake, rfl⟩ | ⟨-, rfl⟩⟩ := mem_notifyAll hw'
    · rw [← hmn]
      exact hawake
    · simp [Worker.asleepOn, Worker.goto]
  · have hother : ∀ w : Worker, w.asleepOn m = true →
        w.native.nodeNum ≠ n := fun w hasleep hn =>
      hmn ((Worker.blocked_of_asleepOn hasleep).1.symm.trans hn)
    have hold := hs hmn
    refine hold.of_gate (Or.inl ?_) fun w' hw' hasleep => ?_
    · have hsame : ∀ w : Worker, w.asleepOn m = true →
          (w.goto (.blocked true)).asleepOn n = w.asleepOn n ∧
            (w.goto (.blocked true)).awakeOn n = w.awakeOn n := fun w h => by
        obtain ⟨hasleep, hawake⟩ := Worker.not_gated_elsewhere (hother w h)
        rw [hasleep, hawake]
        exact Worker.not_gated_elsewhere (w := w.goto _) (hother w h)
      rw [State.gate, node_frame hnodes, hcalls, hworkers, State.gate, gateOf, gateOf,
        countP_notifyAll fun w h => (hsame w h).1, countP_notifyAll fun w h => (hsame w h).2]
    · rw [hworkers] at hw'
      obtain ⟨w, hw, ⟨-, rfl⟩ | ⟨-, rfl⟩⟩ := mem_notifyAll hw'
      · exact hold.unmarked _ hw hasleep
      · simp [Worker.asleepOn, Worker.goto] at hasleep

theorem Move.kept {cfg : Config} {n : Nat} {s s' : State} {a : Action}
    (hwired : Wired cfg s) (hlocated : Located s) (hguarded : WindowsGuarded s)
    (hs : Kept n s) (hok : s.marking n a = false) (h : Move cfg s a s') :
    Kept n s' := by
  intro hrun'
  cases h with
  | call | callOn =>
      have hold := hs hrun'
      refine hold.of_gate (Or.inl ?_) hold.unmarked
      simp [State.gate, gateOf, State.node, Call.owesOn]
  | callHop _ hc hhop =>
      have hold := hs hrun'
      obtain ⟨hbefore, hafter⟩ := hhop.owes n
      refine hold.of_gate (Or.inl ?_) hold.unmarked
      simp only [State.gate, gateOf]
      rw [countP_set_same hc (hafter.trans hbefore.symm)]
      rfl
  | @pushes k pick c nd hc hpc hnd =>
      have hold := hs hrun'
      refine hold.of_gate (gateOf_push (t := c.task) hc hpc ?_) hold.unmarked
      rw [node_set hnd rfl]
      split
      · next hn => rw [← hn, node_eq hnd]
      · rfl
  | notifies hc hpc hw hasleep =>
      have hold := hs hrun'
      refine hold.of_gate (gateOf_notify hc hpc hw hasleep fun hn => ?_)
        (unmarked_signal hold.unmarked)
      exact hold.unmarked _ (List.mem_of_getElem? hw) (hn ▸ hasleep)
  | notifiesNobody hc hpc hnone =>
      have hold := hs hrun'
      exact hold.of_gate (gateOf_notifyNobody hc hpc hnone) hold.unmarked
  | @workerHop _ j w w' _ hw hhop =>
      have hold := hs hrun'
      rcases hhop.gated with ⟨hbefore, hafter⟩ | ⟨hblocked, rfl⟩
      · exact hold.set_outside hw (Worker.not_gated hbefore n) (Worker.not_gated hafter n)
          rfl rfl rfl
      · exact hold.of_gate (gateOf_rouse hw hblocked (hold.unmarked w (List.mem_of_getElem? hw)))
          (unmarked_signal hold.unmarked)
  | binds hw hpc =>
      exact (hs hrun').set_outside hw (Worker.not_gated (by rw [hpc]; rfl) n)
        (Worker.not_gated rfl n) rfl rfl rfl
  | @loops j throws w sh nd nd' pc fl hw hnd hstep =>
      have hrun := hstep.running_same hrun'
      have hold := hs hrun
      have hset := node_set (t := State.put
        { s with sh := sh, nodes := s.nodes.set w.native.nodeNum nd' } j
        ({ w with flags := fl }.goto pc)) hnd rfl n
      by_cases hn : w.native.nodeNum = n
      · rw [if_pos hn] at hset
        rw [hn] at hnd
        rw [← node_eq hnd] at hstep
        refine hold.of_gate ?_ (forall_mem_set hold.unmarked fun hasleep => ?_)
        · rw [State.gate, hset]
          exact hstep.gate hrun hguarded hw hn
        · have hpc : pc = .blocked false := (Worker.blocked_of_asleepOn hasleep).2
          exact hstep.sleeps_unmarked (fun h =>
            (hguarded w (List.mem_of_getElem? hw) h).unmarked hrun) hpc
      · rw [if_neg hn] at hset
        exact hold.set_outside hw (Worker.not_gated_elsewhere hn)
          (Worker.not_gated_elsewhere (w := { w with flags := fl }.goto pc) hn)
          (congrArg NodeData.tasks hset) rfl rfl
  | storeRunning hc =>
      have hnil := hwired.resting (by rw [hc]; rfl) (hwired.running_at hc rfl)
      refine Served.of_awake fun w hw => ?_
      rw [show s.workers = [] from hnil] at hw
      cases hw
  | spawns | expandSpawns =>
      have hold := hs hrun'
      refine hold.of_gate (Or.inl gateOf_append) fun w hw hasleep => ?_
      rcases List.mem_append.mp hw with hmem | hnew
      · exact hold.unmarked w hmem hasleep
      · rw [List.mem_singleton.mp hnew]
        rfl
  | pushesSlot | expandPushes =>
      have hold := hs hrun'
      refine hold.of_gate (Or.inl ?_) hold.unmarked
      simp only [State.gate]
      exact congrArg (fun tasks => gateOf n tasks s.workers s.calls) (hist_pushWorker s _ n).2
  | clearRunning => cases hrun'
  | notifiesAll hc | setsExit hc | cleared hc | resetCount hc | clearTasks hc =>
      have hstopped : s.sh.running = false := hwired.running_at hc rfl
      have hrun : s.sh.running = true := hrun'
      rw [hstopped] at hrun
      cases hrun
  | joined hc =>
      have hrun : s.sh.running = true := hrun'
      rw [hwired.running_at_join hc] at hrun
      cases hrun
  | @marks _ _ m k need now removed i w hm hpc hw hneed hexp =>
      have hold := hs hrun'
      have hkn : k ≠ n := by
        rintro rfl
        have hslot := hwired.slot_of_monitor hm (by rw [hpc]; simp) (by rw [hpc]; rfl) i
        simp [State.marking, hm, hpc, hslot, hw, hneed, hexp] at hok
      have hplaced := hlocated.placed w (List.mem_of_getElem? hw)
      have helsewhere := hplaced.marked_elsewhere hexp hkn
      exact hold.set_outside hw (Worker.not_placed helsewhere)
        (Worker.not_placed (w := { w with flags.shouldExit := true }) helsewhere) rfl rfl rfl
  | shrinkNotifies =>
      exact Served.notifyAll (fun _ => hs hrun') rfl rfl rfl
  | _ =>
      have hold := hs hrun'
      exact hold.of_gate (Or.inl rfl) hold.unmarked

/-- A pass that has begun to mark comes to its broadcast. -/
theorem MonitorHop.marked {cfg : Config} {n : Nat} {s : State} {pc pc' : MonitorPc}
    (h : MonitorHop cfg s pc pc') (hpc : pc.marked n = true) : pc'.marked n = true := by
  cases h with
  | passOver => exact hpc
  | marksDone =>
      simp only [MonitorPc.marked, Bool.and_eq_true] at hpc
      exact hpc.1
  | _ => cases hpc

theorem shrinking_of_marking {cfg : Config} {n : Nat} {s s' : State} {a : Action}
    (hmark : s.marking n a = true) (hstep : step cfg s a = some s') :
    Shrinking n s' := by
  cases a with
  | monitor creates waitFails =>
      cases hm : s.monitorThread with
      | none => simp [State.marking, hm] at hmark
      | some m =>
          rw [State.marking, hm, Option.any_some] at hmark
          cases hpc : m.pc with
          | shrinkMark k need now removed i =>
              simp only [hpc, Bool.and_eq_true, decide_eq_true_eq] at hmark
              obtain ⟨⟨rfl, hneed⟩, hslot⟩ := hmark
              obtain ⟨w, hw, hexp⟩ := (Option.any_eq_true _ _).mp hslot
              simp only [step, monitorStep, hm, hpc, hw, if_pos hneed, if_pos hexp,
                Option.some.injEq] at hstep
              rw [← hstep]
              exact ⟨_, rfl, by simp [MonitorPc.marked]⟩
          | _ => simp [hpc] at hmark
  | _ => cases hmark

/-- A pass that has marked goes on, until its broadcast has woken all
sleepers. -/
theorem Move.shrinking {cfg : Config} {n : Nat} {s s' : State} {a : Action}
    (hwired : Wired cfg s) (hs : Shrinking n s) (h : Move cfg s a s') :
    Shrinking n s' ∨ Served n s' := by
  obtain ⟨m, hm, hpc⟩ := hs
  have halive : m.pc ≠ .ended := fun h => by
    rw [h] at hpc
    cases hpc
  have hsame : ∀ m', s.monitorThread = some m' → m' = m := fun m' hm' => by
    rw [hm, Option.some.injEq] at hm'
    exact hm'.symm
  cases h with
  | monitorHop hm' hhop =>
      rw [hsame _ hm'] at hhop
      exact Or.inl ⟨_, rfl, hhop.marked hpc⟩
  | marks hm' hpc' =>
      rw [hsame _ hm'] at hpc'
      rw [hpc', MonitorPc.marked, Bool.and_eq_true] at hpc
      exact Or.inl ⟨_, rfl, by simp only [MonitorPc.marked, hpc.1]; simp⟩
  | shrinkNotifies hm' hpc' =>
      rw [hsame _ hm'] at hpc'
      rw [hpc', MonitorPc.marked, decide_eq_true_eq] at hpc
      exact Or.inr (Served.notifyAll (s := s) (fun h => absurd hpc h) rfl rfl rfl)
  | startUnmonitored _ hc | starts hc =>
      exact absurd (hwired.unmonitored (Or.inr (by rw [hc]; rfl)) m hm) halive
  | joinsMonitor _ hm' hended =>
      rw [hsame _ hm'] at hended
      exact absurd hended halive
  | expandSpawns hm' hpc' | expandPushes hm' hpc' | monitorEnds hm' hpc' =>
      rw [hsame _ hm'] at hpc'
      rw [hpc'] at hpc
      cases hpc
  | _ => exact Or.inl ⟨m, hm, hpc⟩

theorem kept_of_reachable {cfg : Config} {s : State} (hr : (pool cfg).Reachable s)
    (n : Nat) :
    Shrinking n s ∨ Kept n s := by
  refine hr.invariant (P := fun s => Shrinking n s ∨ Kept n s) (Or.inr fun h => by cases h)
    fun s a s' hr hs hstep => ?_
  have hwired := wired_of_reachable hr
  have hmove := move_of_step hr hstep
  rcases hs with hshrinking | hkept
  · exact (hmove.shrinking hwired hshrinking).imp_right fun h _ => h
  · cases hmark : s.marking n a with
    | true => exact Or.inl (shrinking_of_marking hmark hstep)
    | false =>
        exact Or.inr (hmove.kept hwired (located_of_reachable hr)
          (windowsGuarded_of_reachable hr) hkept hmark)

/-- While the pool runs and a worker of node `n` sleeps unsignalled, every task
queued on the node has a worker on its way to it or a notification to come;
except between the first mark that a shrink pass makes on the node and its
broadcast. A state that is not in between is reached without a mark on the
node from one in which no such pass is under way. -/
theorem node_wakeup_not_lost {cfg : Config} (n : Nat) {s s' : State}
    (hr : (pool cfg).Reachable s) (hs : ¬Shrinking n s)
    (hrun : (pool cfg).LeadsWhen (fun s a => s.marking n a = false) s s')
    (hrunning : s'.sh.running = true) (hasleep : ∃ w ∈ s'.workers, w.asleepOn n = true) :
    (s'.node n).tasks.length ≤
      s'.workers.countP (Worker.awakeOn n) + s'.calls.countP (Call.owesOn n) := by
  have hkept : Kept n s' :=
    hrun.stable hr ((kept_of_reachable hr n).resolve_left hs) fun _ _ _ hr hs hok hstep =>
      (move_of_step hr hstep).kept (wired_of_reachable hr) (located_of_reachable hr)
        (windowsGuarded_of_reachable hr) hs hok
  obtain ⟨w, hw, hsleeps⟩ := hasleep
  exact (hkept hrunning).covered (List.countP_pos_iff.mpr ⟨w, hw, hsleeps⟩)

/-- Both workers of the first node slept; one has been woken for the first of
two tasks, and the notification for the second is still to come. -/
theorem node_wakeup_not_lost_run : ∃ s : State,
    (s.workers.map (fun w => w.native.pc)).take 2 = [.blocked true, .blocked false] ∧
      (s.node 0).tasks.length = 2 ∧ s.calls.map Call.pc = [.returned, .notify] ∧
      (s.node 0).tasks.length ≤
        s.workers.countP (Worker.awakeOn 0) + s.calls.countP (Call.owesOn 0) := by
  obtain ⟨s, hr, hpcs, htasks, hcalls, hquiet, hrunning, hasleep⟩ :=
    exists_of_run (pool (.ofHardware 4 2))
    (.start :: controls 15 ++ entering 0 ++ works 0 8 ++ entering 1 ++ works 1 8 ++
      .callOn 0 true :: List.replicate 3 (.enqueue 0 none) ++
      .callOn 0 true :: List.replicate 3 (.enqueue 1 none) ++ [.enqueue 0 (some 0)])
    (fun s => (s.workers.map (fun w => w.native.pc)).take 2 =
        [.blocked true, .blocked false] ∧
      (s.node 0).tasks.length = 2 ∧ s.calls.map Call.pc = [.returned, .notify] ∧
      (s.monitorThread.any fun m => m.pc.marked 0) = false ∧ s.sh.running = true ∧
      ∃ w ∈ s.workers, w.asleepOn 0 = true)
    (by decide +kernel)
  have hnot : ¬Shrinking 0 s := by
    rintro ⟨m, hm, hmarked⟩
    rw [hm, Option.any_some, hmarked] at hquiet
    cases hquiet
  exact ⟨s, hpcs, htasks, hcalls, node_wakeup_not_lost 0 hr hnot .refl hrunning hasleep⟩

end ThreadPool.Numa
