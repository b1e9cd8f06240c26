import ThreadPool.Basic
import ThreadPool.Lib.Machine
import ThreadPool.Numa.Binding

/-!
# `NumaThreadPool`, one step at a time

The machine of `NumaThreadPool`, drawn like that of `NormalThreadPool`: a
party has a program point, and a step takes it over one atomic access or one
critical section. The differences are those of the sources.

* There is a queue, a mutex, a condition variable and a counter for each
  node, and a worker uses those of the node its slot names.
* Slots are guarded by `global_mutex_`, and a thread is started before its
  slot is pushed. `workers` therefore lists every `Worker` there is, and
  `pushed` says how many of them are in `workers_`. The one behind them, if
  there is one, is the `new_worker` of the thread that is creating it.
* A worker reads its node, binds its thread to it, and tests `should_exit`
  and `running_` once more behind the wait.
* The monitor keeps the mutex of a node's queue while it expands or shrinks
  the node, and `ShrinkThreadsOnNode` takes `global_mutex_` on top of it.

Who holds a mutex is again said by the program points (`tasksMutexFree`,
`globalMutexFree`). Left out is what nothing modelled reads, as there.
-/

namespace ThreadPool.Numa

open Interleave

/-! ## The data -/

/-- What the member initialisers fix. -/
structure Config where
  numaNodeCount : Nat
  minThreadsPerNode : Nat
  maxThreadsPerNode : Nat
  min_le_max : minThreadsPerNode ≤ maxThreadsPerNode

def Config.ofHardware (hardwareConcurrency numaNodeCount : Nat) : Config where
  numaNodeCount := numaNodeCount
  minThreadsPerNode := hardwareConcurrency / numaNodeCount
  maxThreadsPerNode := hardwareConcurrency * 2 / numaNodeCount
  min_le_max := Nat.div_le_div_right (Nat.le_mul_of_pos_right _ Nat.two_pos)

def expandFactor : Nat := 2
def expandThreshold : Nat := 5

/-- In seconds. -/
def idleThreshold : Nat := 10

/-- Where a worker thread stands. -/
inductive WorkerPc where
  /-- about to lock `global_mutex_` and look for its slot -/
  | registration
  /-- about to bind the reference to its slot and to read `numa_node` -/
  | readNode
  | bind
  /-- in the handler of an exception of the binding -/
  | unbound
  /-- about to store `is_valid = true` -/
  | setValid
  | fetchAdd
  /-- about to read `should_exit` in the loop condition -/
  | testExit
  /-- about to read `running_` in the loop condition -/
  | testRunning
  | setIdle
  | setIdleTime
  /-- about to lock `tasks_mutex` and evaluate the wait predicate -/
  | wait
  /-- the predicate was false; holds `tasks_mutex`, about to block -/
  | window
  /-- inside `pthread_cond_wait` -/
  | blocked (signalled : Bool)
  /-- behind the wait, about to read `should_exit` again -/
  | retestExit
  | retestRunning
  | clearIdle
  | pop
  /-- past the pop, about to test whether it got a task to call -/
  | holding (task : Option Task)
  | running (task : Task)
  /-- past the loop, about to store `is_valid = false` -/
  | clearValid
  | exitIdle
  | fetchSub
  /-- back in `ThreadEntry`, out of `WorkerLoop` by return or by exception -/
  | entry (threw : Bool)
  | ended (threw : Bool)
  deriving DecidableEq, Repr

/-- The native thread behind a slot: the index its callable captured, its
`pthread_self`, its `node_num` once that has been found in range, and its
program point. -/
structure Native where
  index : Nat
  self : Nat
  nodeNum : Nat := 0
  pc : WorkerPc := .registration
  deriving DecidableEq, Repr

/-- `Worker`. -/
structure Worker where
  flags : Flags := {}
  numaNode : Int := -1
  property : ThreadProperty
  native : Native
  deriving DecidableEq, Repr

/-- Where the monitor thread stands. From `nodeTest` to the end of a node's
pass it holds that node's `tasks_mutex`. -/
inductive MonitorPc where
  | testMonitoring
  | testRunning
  /-- about to lock the `tasks_mutex` of node `n`, if there is such a node -/
  | nodeLock (n : Nat)
  | nodeTest (n : Nat)
  | expandLoad (n : Nat)
  /-- in the loop of `ExpandThreadsOnNode`, with `k` threads made -/
  | expandStart (n need k : Nat)
  /-- about to lock `global_mutex_` and push the worker just started -/
  | expandPush (n need k : Nat)
  | shrinkLoad (n : Nat)
  | shrinkNow (n need : Nat)
  | shrinkLock (n need now : Nat)
  /-- in the marking loop of `ShrinkThreadsOnNode`, at slot `i` -/
  | shrinkMark (n need now removed i : Nat)
  | shrinkNotify (n : Nat)
  /-- in the `TaskCount` of `AdjustCheckInterval`, at node `n` -/
  | adjust (n : Nat)
  | waitFor
  | entry
  | ended
  deriving DecidableEq, Repr

/-- The thread `monitor_thread_` points to. -/
structure Monitor where
  property : ThreadProperty
  pc : MonitorPc
  deriving DecidableEq, Repr

/-- Where a call of `Enqueue` or of `EnqueueToNumaNode` stands. -/
inductive CallPc where
  /-- the test at the head of `Enqueue` -/
  | test
  /-- about to ask which node it is on -/
  | locate
  /-- at the head of `EnqueueToNumaNode` -/
  | range
  | testNode
  | push
  | notify
  | returned
  | threw (e : Exn)
  deriving DecidableEq, Repr

/-- A call, with its `node_num`. -/
structure Call where
  task : Task
  nodeNum : Int := 0
  pc : CallPc := .test
  deriving DecidableEq, Repr

inductive StartPc where
  | test
  | store
  /-- in the loops, about to start worker `i` of node `n` -/
  | spawn (n i : Nat)
  /-- about to lock `global_mutex_` and push it -/
  | push (n i : Nat)
  | monitoring
  | monitor
  deriving DecidableEq, Repr

inductive StopPc where
  | test
  | monitoring
  | notifyMonitor
  | joinMonitor
  /-- inside `pthread_join` on the monitor -/
  | joiningMonitor
  | running
  /-- about to broadcast to the waiters of node `n` -/
  | notifyAll (n : Nat)
  /-- at the head of the policy's waiting loop -/
  | wait
  /-- in `TaskCount`, at node `n` -/
  | taskCount (n total : Nat)
  /-- about to lock `global_mutex_`, which it keeps to the end -/
  | lock
  /-- in the join loop, at slot `i` -/
  | join (i : Nat)
  | setExit (i : Nat)
  /-- inside `pthread_join` on the worker of slot `i` -/
  | joining (i : Nat)
  /-- in `workers_.clear()`, about to destroy slot `i` -/
  | clear (i : Nat)
  /-- in the `Join` of `~Thread` for slot `i` -/
  | clearJoining (i : Nat)
  | count
  /-- about to lock the `tasks_mutex` of node `n` and empty its queue -/
  | tasks (n : Nat)
  deriving DecidableEq, Repr

/-- Where the controlling thread stands; between calls, how the last one
ended. -/
inductive Control where
  | idle (last : Outcome)
  | start (pc : StartPc)
  | stop (policy : ShutdownPolicy) (pc : StopPc)
  deriving DecidableEq, Repr

/-- A worker thread, by its `pthread_self`, and the `numa_node` of the slot
it works on. -/
structure Agent where
  self : Nat
  numaNode : Int
  deriving DecidableEq, Repr

/-- What a task's history is made of. -/
abbrev Event := WorkEvent Agent Task

/-- `NumaNodeData`, and the history of the node's tasks, which no step
reads. -/
structure NodeData where
  tasks : List Task := []
  threadCount : Nat := 0
  hist : List Event := []
  deriving DecidableEq, Repr

/-- The members that are not a node's, the steady clock, and the affinities
of all threads. -/
structure Shared where
  validThreadCount : Nat := 0
  running : Bool := false
  monitoring : Bool := false
  clock : Nat := 0
  bound : Affinities := []
  deriving DecidableEq, Repr

structure State where
  sh : Shared := {}
  nodes : List NodeData := []
  workers : List Worker := []
  pushed : Nat := 0
  monitorThread : Option Monitor := none
  calls : List Call := []
  control : Control := .idle .returned
  nextHandle : Nat := 0
  deriving DecidableEq, Repr

/-! ## Who holds which mutex -/

def Control.holdsGlobalMutex : Control → Bool
  | .stop _ (.join _) | .stop _ (.setExit _) | .stop _ (.joining _) | .stop _ (.clear _)
  | .stop _ (.clearJoining _) | .stop _ .count | .stop _ (.tasks _) => true
  | _ => false

def MonitorPc.holdsGlobalMutex : MonitorPc → Bool
  | .shrinkMark .. | .shrinkNotify _ => true
  | _ => false

/-- The node whose `tasks_mutex` the monitor holds. -/
def MonitorPc.node? : MonitorPc → Option Nat
  | .nodeTest n | .expandLoad n | .expandStart n _ _ | .expandPush n _ _ | .shrinkLoad n
  | .shrinkNow n _ | .shrinkLock n _ _ | .shrinkMark n _ _ _ _ | .shrinkNotify n => some n
  | _ => none

/-- Between a false predicate and blocking on node `n`. -/
def Worker.inWindow (n : Nat) (w : Worker) : Bool :=
  w.native.nodeNum = n && w.native.pc = .window

namespace State

/-- Nobody is inside a section of `global_mutex_` that takes several steps. -/
def globalMutexFree (s : State) : Bool :=
  !s.control.holdsGlobalMutex &&
    !(s.monitorThread.any fun m => m.pc.holdsGlobalMutex)

/-- The same for the `tasks_mutex` of node `n`. -/
def tasksMutexFree (s : State) (n : Nat) : Bool :=
  (s.workers.all fun w => !w.inWindow n) &&
    !(s.monitorThread.any fun m => m.pc.node? = some n)

/-- `workers_[i]`, if `i < workers_.size()`. -/
def slot (s : State) (i : Nat) : Option Worker :=
  if i < s.pushed then s.workers[i]? else none

/-! ## Moving one party -/

def goto (s : State) (pc : Control) : State := { s with control := pc }

def workerGoto (s : State) (j : Nat) (pc : WorkerPc) : State :=
  { s with
    workers := s.workers.modify j fun w => { w with native.pc := pc } }

def setFlags (s : State) (i : Nat) (fl : Flags) : State :=
  { s with workers := s.workers.modify i fun w => { w with flags := fl } }

def setNode (s : State) (n : Nat) (nd : NodeData) : State :=
  { s with nodes := s.nodes.set n nd }

def callGoto (s : State) (k : Nat) (pc : CallPc) : State :=
  { s with calls := s.calls.modify k fun c => { c with pc := pc } }

def monitorGoto (s : State) (m : Monitor) (pc : MonitorPc) : State :=
  { s with monitorThread := some { m with pc := pc } }

end State

/-! ## `ConditionVariable` -/

/-- Blocked on the `tasks_cond` of node `n`, and not signalled. -/
def Worker.asleepOn (n : Nat) (w : Worker) : Bool :=
  w.native.nodeNum = n && w.native.pc = .blocked false

/-- A broadcast to the waiters of node `n`. -/
def notifyAll (n : Nat) (ws : List Worker) : List Worker :=
  ws.map fun w =>
    if w.asleepOn n then { w with native.pc := .blocked true } else w

/-- `NotifyOne` on node `n`: one blocked worker, whichever `pick` says, is
signalled; if none is blocked there is none to pick. -/
def notifyOne (n : Nat) (ws : List Worker) (pick : Option Nat) : Option (List Worker) :=
  match pick with
  | none => if ws.all fun w => !w.asleepOn n then some ws else none
  | some i =>
      match ws[i]? with
      | some w =>
          if w.asleepOn n then some (ws.set i { w with native.pc := .blocked true })
          else none
      | none => none

/-! ## `Enqueue` and `EnqueueToNumaNode` -/

/-- The part of `Enqueue` between its test and the call of
`EnqueueToNumaNode`. -/
def locateStep (cfg : Config) (s : State) (k : Nat) (cpu nodeOfCpu : Int)
    (strerror : String) : Option State :=
  match s.calls[k]? with
  | none => none
  | some c =>
      if c.pc = .locate then
        match getNodeCurrentThreadIsOn cpu nodeOfCpu strerror with
        | .error e => some (s.callGoto k (.threw e))
        | .ok node =>
            let nodeNum := if node < 0 ∨ node ≥ cfg.numaNodeCount then 0 else node
            some { s with
              calls := s.calls.set k { c with nodeNum := nodeNum, pc := .range } }
      else none

def enqueueStep (cfg : Config) (s : State) (k : Nat) (pick : Option Nat) : Option State :=
  match s.calls[k]? with
  | none => none
  | some c =>
      match c.pc with
      | .test =>
          some (s.callGoto k
            (if s.sh.running then .locate
             else .threw (.runtimeError "Thread pool is not running")))
      | .range =>
          some (s.callGoto k
            (if c.nodeNum < 0 ∨ c.nodeNum ≥ cfg.numaNodeCount then
               .threw (.outOfRange "Invalid NUMA node index")
             else .testNode))
      | .testNode =>
          some (s.callGoto k
            (if s.sh.running then .push
             else .threw (.runtimeError "Thread pool is not running")))
      | .push =>
          match s.nodes[c.nodeNum.toNat]? with
          | none => none
          | some nd =>
              if s.tasksMutexFree c.nodeNum.toNat then
                some ((s.setNode c.nodeNum.toNat { nd with
                  tasks := nd.tasks ++ [c.task]
                  hist := nd.hist ++ [WorkEvent.accept c.task] }).callGoto k .notify)
              else none
      | .notify =>
          match notifyOne c.nodeNum.toNat s.workers pick with
          | some ws => some ({ s with workers := ws }.callGoto k .returned)
          | none => none
      | .locate | .returned | .threw _ => none

/-! ## `WorkerLoop` -/

/-- The predicate of the wait. -/
def waitPredicate (sh : Shared) (nd : NodeData) (fl : Flags) : Bool :=
  !nd.tasks.isEmpty || fl.shouldExit || !sh.running

/-- Evaluate the predicate holding `tasks_mutex`. -/
def evaluate (sh : Shared) (nd : NodeData) (free : Bool) (fl : Flags) :
    Option (Shared × NodeData × WorkerPc × Flags) :=
  if free then
    some (sh, nd, if waitPredicate sh nd fl then .retestExit else .window, fl)
  else none

/-- The body of `WorkerLoop` once the thread is bound: one step of `agent` on
the shared members, on its node and on the flags of its slot. `free` says
whether the node's `tasks_mutex` can be had, `throws` whether the running
task ends by a `std::exception`. -/
def workerLoop (sh : Shared) (nd : NodeData) (free : Bool) (agent : Agent)
    (throws : Bool) :
    WorkerPc → Flags → Option (Shared × NodeData × WorkerPc × Flags)
  | .setValid, fl => some (sh, nd, .fetchAdd, { fl with isValid := true })
  | .fetchAdd, fl =>
      some ({ sh with validThreadCount := sh.validThreadCount + 1 }, nd, .testExit, fl)
  | .testExit, fl =>
      some (sh, nd, if fl.shouldExit then .clearValid else .testRunning, fl)
  | .testRunning, fl =>
      some (sh, nd, if sh.running then .setIdle else .clearValid, fl)
  | .setIdle, fl => some (sh, nd, .setIdleTime, { fl with isIdle := true })
  | .setIdleTime, fl => some (sh, nd, .wait, { fl with idleTimeStart := sh.clock })
  | .wait, fl => evaluate sh nd free fl
  | .window, fl => some (sh, nd, .blocked false, fl)
  | .blocked true, fl => evaluate sh nd free fl
  | .retestExit, fl =>
      some (sh, nd, if fl.shouldExit then .clearValid else .retestRunning, fl)
  | .retestRunning, fl =>
      some (sh, nd, if sh.running then .clearIdle else .clearValid, fl)
  | .clearIdle, fl => some (sh, nd, .pop, { fl with isIdle := false })
  | .pop, fl =>
      if free then
        match nd.tasks with
        | [] => some (sh, nd, .holding none, fl)
        | t :: rest =>
            some (sh, { nd with tasks := rest, hist := nd.hist ++ [.take agent t] },
              .holding (some t), fl)
      else none
  | .holding none, fl => some (sh, nd, .testExit, fl)
  | .holding (some t), fl =>
      if t.callable then
        some (sh, { nd with hist := nd.hist ++ [.start agent t] }, .running t, fl)
      else some (sh, { nd with hist := nd.hist ++ [.drop agent t] }, .testExit, fl)
  | .running t, fl =>
      some (sh, { nd with hist := nd.hist ++ [.finish agent t] },
        if throws then .entry true else .testExit, fl)
  | .clearValid, fl => some (sh, nd, .exitIdle, { fl with isValid := false })
  | .exitIdle, fl => some (sh, nd, .fetchSub, { fl with isIdle := false })
  | .fetchSub, fl =>
      some ({ sh with validThreadCount := ThreadPool.fetchSub sh.validThreadCount }, nd,
        .entry false, fl)
  | .registration, _ | .readNode, _ | .bind, _ | .unbound, _ | .blocked false, _
  | .entry _, _ | .ended _, _ => none

/-- A step of `WorkerLoop` behind the binding, by the thread stored at place
`j`: it works on the slot at the index it captured. -/
def boundStep (s : State) (j : Nat) (w : Worker) (throws : Bool) : Option State :=
  match s.slot w.native.index, s.nodes[w.native.nodeNum]? with
  | some slot, some nd =>
      match workerLoop s.sh nd (s.tasksMutexFree w.native.nodeNum)
          ⟨w.native.self, slot.numaNode⟩ throws w.native.pc slot.flags with
      | none => none
      | some (sh, nd, pc, fl) =>
          some ((({ s with sh := sh }.setNode w.native.nodeNum nd).setFlags
            w.native.index fl).workerGoto j pc)
  | _, _ => none

/-- One step of the worker thread stored at place `j`, other than the
binding. -/
def workerStep (cfg : Config) (s : State) (j : Nat) (throws : Bool) : Option State :=
  match s.workers[j]? with
  | none => none
  | some w =>
      match w.native.pc with
      | .registration =>
          if s.globalMutexFree then
            some (s.workerGoto j
              (if w.native.index < s.pushed then .readNode else .entry false))
          else none
      | .readNode =>
          match s.slot w.native.index with
          | none => none
          | some slot =>
              if slot.numaNode < 0 ∨ slot.numaNode ≥ cfg.numaNodeCount then
                some (s.workerGoto j (.entry false))
              else
                some { s with
                  workers := s.workers.modify j fun w =>
                    { w with
                      native.nodeNum := slot.numaNode.toNat
                      native.pc := .bind } }
      | .unbound =>
          match s.slot w.native.index with
          | none => none
          | some slot =>
              some ((s.setFlags w.native.index { slot.flags with
                isValid := false }).workerGoto j (.entry false))
      | .entry threw =>
          some { s with
            workers := s.workers.modify j fun w =>
              { w with
                property := w.property.threadEntry
                native.pc := .ended threw } }
      | .ended _ => none
      | _ => boundStep s j w throws

/-- The binding, for the worker thread stored at place `j`. A null handle
would be dereferenced, so it is no step. -/
def bindStep (cfg : Config) (s : State) (j : Nat) (os : Libnuma) : Option State :=
  match s.workers[j]? with
  | none => none
  | some w =>
      if w.native.pc = .bind then
        match (s.slot w.native.index).bind fun slot => slot.property.nativeHandle with
        | none => none
        | some thread =>
            match bindThreadToNumaNode cfg.numaNodeCount os s.sh.bound thread
                w.native.nodeNum with
            | .error _ => some (s.workerGoto j .unbound)
            | .ok bound => some ({ s with sh.bound := bound }.workerGoto j .setValid)
      else none

/-- A spurious wake-up of the worker thread stored at place `j`. -/
def spuriousStep (s : State) (j : Nat) : Option State :=
  match s.workers[j]? with
  | none => none
  | some w =>
      if w.native.pc = .blocked false then some (s.workerGoto j (.blocked true))
      else none

/-! ## Creating workers -/

/-- Make a worker for node `n` and start its thread with the index of the slot
it is going to have. -/
def startWorker (s : State) (creates : Creates) (n : Nat) : Except Exn State :=
  match ({} : ThreadProperty).start (creates.pthreadCreate s.nextHandle) with
  | .error e => .error e
  | .ok p =>
      .ok { s with
        workers := s.workers ++
          [{ numaNode := n, property := p,
             native := { index := s.pushed, self := s.nextHandle } }]
        nextHandle := s.nextHandle + 1 }

/-- Push the worker just made, and count it. -/
def pushWorker (s : State) (n : Nat) : State :=
  { s with
    pushed := s.pushed + 1
    nodes := s.nodes.modify n fun nd => { nd with threadCount := nd.threadCount + 1 } }

/-! ## The monitor -/

/-- How many threads `ExpandThreadsOnNode` decides to add; `none` where it
returns at once. Its four loads of `thread_count` agree, since the counter
has no other writer while the monitor runs. -/
def expandNeed (cfg : Config) (threadCount : Nat) : Option Nat :=
  if threadCount ≥ cfg.maxThreadsPerNode then none
  else
    let target :=
      if threadCount * expandFactor < cfg.maxThreadsPerNode then
        threadCount * expandFactor
      else cfg.maxThreadsPerNode
    if target - threadCount ≤ 0 then none else some (target - threadCount)

/-- How many threads `ShrinkThreadsOnNode` decides to remove; `none` where it
returns at once. -/
def shrinkNeed (cfg : Config) (threadCount : Nat) : Option Nat :=
  if threadCount ≤ cfg.minThreadsPerNode then none
  else if threadCount - cfg.minThreadsPerNode ≤ 0 then none
  else some (threadCount - cfg.minThreadsPerNode)

/-- Whether the marking loop for node `n` marks this slot. -/
def Worker.expired (n now : Nat) (w : Worker) : Bool :=
  w.flags.isValid && w.flags.isIdle && w.numaNode = n &&
    idleSeconds now w.flags > idleThreshold

/-- The length of each node's queue. -/
def State.lengths (s : State) : List Nat := s.nodes.map fun nd => nd.tasks.length

/-- The predicate the monitor gives to `WaitFor`. -/
def State.wakes (s : State) : Bool :=
  !s.sh.monitoring || !s.sh.running ||
    s.lengths.sum > s.sh.validThreadCount * expandThreshold

/-- One step of the monitor thread. `WaitFor` makes its timed wait where the
predicate is false; the exception of one that fails is not caught in
`MonitorLoop`. -/
def monitorStep (cfg : Config) (s : State) (creates : Creates) (waitFails : Bool) :
    Option State :=
  match s.monitorThread with
  | none => none
  | some m =>
      match m.pc with
      | .testMonitoring =>
          some (s.monitorGoto m (if s.sh.monitoring then .testRunning else .entry))
      | .testRunning =>
          some (s.monitorGoto m (if s.sh.running then .nodeLock 0 else .entry))
      | .nodeLock n =>
          if n < cfg.numaNodeCount then
            if s.tasksMutexFree n then some (s.monitorGoto m (.nodeTest n)) else none
          else some (s.monitorGoto m (.adjust 0))
      | .nodeTest n =>
          match s.nodes[n]? with
          | none => none
          | some nd =>
              some (s.monitorGoto m
                (if nd.tasks.length > nd.threadCount * expandThreshold then .expandLoad n
                 else .shrinkLoad n))
      | .expandLoad n =>
          match s.nodes[n]? with
          | none => none
          | some nd =>
              some (s.monitorGoto m
                (match expandNeed cfg nd.threadCount with
                 | none => .nodeLock (n + 1)
                 | some need => .expandStart n need 0))
      | .expandStart n need k =>
          if k < need then
            match startWorker s creates n with
            | .error _ => some (s.monitorGoto m .entry)
            | .ok s => some (s.monitorGoto m (.expandPush n need k))
          else some (s.monitorGoto m (.nodeLock (n + 1)))
      | .expandPush n need k =>
          if s.globalMutexFree then
            some ((pushWorker s n).monitorGoto m (.expandStart n need (k + 1)))
          else none
      | .shrinkLoad n =>
          match s.nodes[n]? with
          | none => none
          | some nd =>
              some (s.monitorGoto m
                (match shrinkNeed cfg nd.threadCount with
                 | none => .nodeLock (n + 1)
                 | some need => .shrinkNow n need))
      | .shrinkNow n need => some (s.monitorGoto m (.shrinkLock n need s.sh.clock))
      | .shrinkLock n need now =>
          if s.globalMutexFree then some (s.monitorGoto m (.shrinkMark n need now 0 0))
          else none
      | .shrinkMark n need now removed i =>
          match s.slot i with
          | none => some (s.monitorGoto m (.shrinkNotify n))
          | some w =>
              if removed < need then
                if w.expired n now then
                  some ((s.setFlags i { w.flags with shouldExit := true }).monitorGoto
                    m (.shrinkMark n need now (removed + 1) (i + 1)))
                else some (s.monitorGoto m (.shrinkMark n need now removed (i + 1)))
              else some (s.monitorGoto m (.shrinkNotify n))
      | .shrinkNotify n =>
          some ({ s with workers := notifyAll n s.workers }.monitorGoto m
            (.nodeLock (n + 1)))
      | .adjust n =>
          if n < s.nodes.length then
            if s.tasksMutexFree n then some (s.monitorGoto m (.adjust (n + 1))) else none
          else some (s.monitorGoto m .waitFor)
      | .waitFor =>
          some (s.monitorGoto m (if !s.wakes && waitFails then .entry else .testMonitoring))
      | .entry =>
          some (s.monitorGoto { m with property := m.property.threadEntry } .ended)
      | .ended => none

/-! ## `Start` and `Stop` -/

def startStep (cfg : Config) (s : State) (creates : Creates) :
    StartPc → Option State
  | .test =>
      some (s.goto
        (if s.sh.running then
           .idle (.threw (.runtimeError "Thread pool is already running"))
         else .start .store))
  | .store => some { s with sh.running := true, control := .start (.spawn 0 0) }
  | .spawn n i =>
      if n < cfg.numaNodeCount then
        if i < cfg.minThreadsPerNode then
          match startWorker s creates n with
          | .error e => some (s.goto (.idle (.threw e)))
          | .ok s => some (s.goto (.start (.push n i)))
        else some (s.goto (.start (.spawn (n + 1) 0)))
      else some (s.goto (.start .monitoring))
  | .push n i =>
      if s.globalMutexFree then
        some ((pushWorker s n).goto (.start (.spawn n (i + 1))))
      else none
  | .monitoring => some { s with sh.monitoring := true, control := .start .monitor }
  | .monitor =>
      match ({} : ThreadProperty).start (creates.pthreadCreate s.nextHandle) with
      | .error e =>
          some { s with
            monitorThread := some { property := {}, pc := .ended }
            control := .idle (.threw e) }
      | .ok p =>
          some { s with
            monitorThread := some { property := p, pc := .testMonitoring }
            nextHandle := s.nextHandle + 1
            control := .idle .returned }

/-- The waiting loop of `Stop`: whether a `TaskCount()` makes it go on.
`timedOut` says whether the deadline of `WaitForTimeout` has passed. -/
def stopWaits (policy : ShutdownPolicy) (taskCount : Nat) (timedOut : Bool) : Bool :=
  match policy with
  | .waitForAll => taskCount > 0
  | .waitForTimeout => taskCount > 0 && !timedOut
  | .immediate => false

def WorkerPc.isEnded : WorkerPc → Bool
  | .ended _ => true
  | _ => false

/-- The worker's thread has been joined. -/
def Worker.joined (w : Worker) : Worker := { w with property := w.property.joinLeave }

def stopStep (s : State) (policy : ShutdownPolicy) (timedOut : Bool) :
    StopPc → Option State
  | .test =>
      some (s.goto
        (if s.sh.running then .stop policy .monitoring
         else .idle (.threw (.runtimeError "Thread pool is not running"))))
  | .monitoring =>
      some { s with sh.monitoring := false, control := .stop policy .notifyMonitor }
  | .notifyMonitor => some (s.goto (.stop policy .joinMonitor))
  | .joinMonitor =>
      some (s.goto (.stop policy
        (if s.monitorThread.any fun m => m.property.isJoinable then .joiningMonitor
         else .running)))
  | .joiningMonitor =>
      match s.monitorThread with
      | none => none
      | some m =>
          match m.property.joinEnter with
          | .error e => some (s.goto (.idle (.threw e)))
          | .ok _ =>
              if m.pc = .ended then
                some { s with monitorThread := none, control := .stop policy .running }
              else none
  | .running =>
      some { s with sh.running := false, control := .stop policy (.notifyAll 0) }
  | .notifyAll n =>
      if n < s.nodes.length then
        some { s with
          workers := notifyAll n s.workers
          control := .stop policy (.notifyAll (n + 1)) }
      else some (s.goto (.stop policy .wait))
  | .wait =>
      some (s.goto (.stop policy
        (if policy = .immediate then .lock else .taskCount 0 0)))
  | .taskCount n total =>
      match s.nodes[n]? with
      | some nd =>
          if s.tasksMutexFree n then
            some (s.goto (.stop policy (.taskCount (n + 1) (total + nd.tasks.length))))
          else none
      | none =>
          some (s.goto (.stop policy
            (if stopWaits policy total timedOut then .wait else .lock)))
  | .lock => if s.globalMutexFree then some (s.goto (.stop policy (.join 0))) else none
  | .join i =>
      match s.slot i with
      | none => some (s.goto (.stop policy (.clear 0)))
      | some w =>
          some (s.goto (.stop policy
            (if w.flags.isValid && w.property.isJoinable then .setExit i
             else .join (i + 1))))
  | .setExit i =>
      match s.slot i with
      | none => none
      | some w =>
          some ((s.setFlags i { w.flags with shouldExit := true }).goto
            (.stop policy (.joining i)))
  | .joining i =>
      match s.slot i with
      | none => none
      | some w =>
          match w.property.joinEnter with
          | .error e => some (s.goto (.idle (.threw e)))
          | .ok _ =>
              if w.native.pc.isEnded then
                some { s with
                  workers := s.workers.set i w.joined
                  control := .stop policy (.join (i + 1)) }
              else none
  | .clear i =>
      match s.slot i with
      | none => some { s with workers := [], pushed := 0, control := .stop policy .count }
      | some w =>
          match w.property.cleanup with
          | none => some (s.goto (.stop policy (.clear (i + 1))))
          | some .join => some (s.goto (.stop policy (.clearJoining i)))
          | some _ => none
  | .clearJoining i =>
      match s.slot i with
      | none => none
      | some w =>
          if w.native.pc.isEnded then
            some { s with
              workers := s.workers.set i w.joined
              control := .stop policy (.clear (i + 1)) }
          else none
  | .count =>
      some { s with sh.validThreadCount := 0, control := .stop policy (.tasks 0) }
  | .tasks n =>
      match s.nodes[n]? with
      | some nd =>
          if s.tasksMutexFree n then
            some ((s.setNode n { nd with
              tasks := []
              hist := nd.hist ++ nd.tasks.map WorkEvent.discard }).goto
                (.stop policy (.tasks (n + 1))))
          else none
      | none => some (s.goto (.idle .returned))

def controlStep (cfg : Config) (s : State) (creates : Creates) (timedOut : Bool) :
    Option State :=
  match s.control with
  | .idle _ => none
  | .start pc => startStep cfg s creates pc
  | .stop policy pc => stopStep s policy timedOut pc

/-! ## The machine -/

/-- Who moves, and what the environment answers. -/
inductive Action where
  /-- the steady clock advances -/
  | tick (d : Nat)
  /-- some thread calls `Enqueue` -/
  | call (callable : Bool)
  /-- some thread calls `EnqueueToNumaNode` -/
  | callOn (nodeNum : Int) (callable : Bool)
  | locate (k : Nat) (cpu nodeOfCpu : Int) (strerror : String)
  | enqueue (k : Nat) (pick : Option Nat)
  /-- the controlling thread calls `Start` -/
  | start
  /-- the controlling thread calls `Stop` -/
  | stop (policy : ShutdownPolicy)
  | control (creates : Creates) (timedOut : Bool)
  | worker (j : Nat) (throws : Bool)
  | bind (j : Nat) (os : Libnuma)
  | spurious (j : Nat)
  /-- `waitFails`: `pthread_cond_timedwait` answers the monitor's timed wait with
  an error, as it does when the time asked for is not a valid one -/
  | monitor (creates : Creates) (waitFails : Bool)
  deriving DecidableEq, Repr

/-- A step of the controlling thread inside a call. -/
def Action.isControl : Action → Bool
  | .control _ _ => true
  | _ => false

/-- A task that ends by an exception. -/
def Action.throws : Action → Bool
  | .worker _ throws => throws
  | _ => false

def step (cfg : Config) (s : State) : Action → Option State
  | .tick d => some { s with sh.clock := s.sh.clock + d }
  | .call callable =>
      some { s with calls := s.calls ++ [{ task := ⟨s.calls.length, callable⟩ }] }
  | .callOn nodeNum callable =>
      some { s with
        calls := s.calls ++
          [{ task := ⟨s.calls.length, callable⟩, nodeNum := nodeNum, pc := .range }] }
  | .locate k cpu nodeOfCpu strerror => locateStep cfg s k cpu nodeOfCpu strerror
  | .enqueue k pick => enqueueStep cfg s k pick
  | .start =>
      match s.control with
      | .idle _ => some (s.goto (.start .test))
      | _ => none
  | .stop policy =>
      match s.control with
      | .idle _ => some (s.goto (.stop policy .test))
      | _ => none
  | .control creates timedOut => controlStep cfg s creates timedOut
  | .worker j throws => workerStep cfg s j throws
  | .bind j os => bindStep cfg s j os
  | .spurious j => spuriousStep s j
  | .monitor creates waitFails => monitorStep cfg s creates waitFails

/-- A pool as the constructor leaves it, and everything that can happen to
it. -/
def pool (cfg : Config) : Machine State Action where
  init := { nodes := List.replicate cfg.numaNodeCount {} }
  step := step cfg

/-- The runs in which no task throws. -/
def Returning (_ : State) (a : Action) : Prop := a.throws = false

instance (s : State) (a : Action) : Decidable (Returning s a) :=
  inferInstanceAs (Decidable (_ = _))

/-! ## Schedules

Stretches of runs on two nodes with a worker each, for the places where a
run is written down. -/

/-- The controlling thread alone; each creation it makes succeeds. -/
def controls (n : Nat) : List Action := List.replicate n (.control { avail := 1 } false)

/-- The worker thread at place `j` alone, its tasks returning. -/
def works (j n : Nat) : List Action := List.replicate n (.worker j false)

def starting : List Action := .start :: controls 11

/-- `Stop`, the monitor leaving its loop at once, until it is about to clear
`running_`. -/
def stopping (policy : ShutdownPolicy) : List Action :=
  .stop policy :: controls 4 ++ List.replicate 2 (.monitor {} false) ++ controls 1

/-- A worker registers, reads its node and is bound. -/
def entering (j : Nat) : List Action := works j 2 ++ [.bind j {}]

/-- `EnqueueToNumaNode` as call number `k`, waking nobody. -/
def enqueuing (k : Nat) (nodeNum : Int) (callable : Bool) : List Action :=
  .callOn nodeNum callable :: List.replicate 4 (.enqueue k none)

/-- The monitor thread alone; each creation it makes succeeds. -/
def monitors (n : Nat) : List Action := List.replicate n (.monitor { avail := 1 } false)

/-- On one hardware thread and one node: six tasks are queued before the worker
comes to register, and the monitor adds a second. -/
def growing : List Action :=
  .start :: controls 8 ++ (List.range 6).flatMap (fun k => enqueuing k 0 true) ++ monitors 11

/-- The first worker does the six tasks, both wait, and eleven seconds later a
pass of the monitor marks the first and wakes both. -/
def shrinking : List Action :=
  entering 0 ++ entering 1 ++ works 0 74 ++ works 1 8 ++ .tick 11000000000 :: monitors 11

end ThreadPool.Numa
