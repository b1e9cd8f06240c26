import ThreadPool.Lib.Census
import ThreadPool.Numa.Model

/-!
# What a step of `NumaThreadPool` can do

The step function is read once, into relations with one constructor for each
thing that can happen. Moves that change one party alone are grouped by the
party: `CallHop`, `WorkerHop` (a thread and its slot), `Hop` (the controlling
thread) and `MonitorHop`. `LoopStep` is the body of `WorkerLoop` behind the
binding, where a worker also changes its node and the shared members. `Move`
is everything.

`Wired` is what the reading needs of the state a step starts from: the
thread at place `j` captured index `j`, so its slot is its own; a slot's
handle is the thread's `pthread_self`; and the blocks `Stop` joins have been
started. That in turn needs the bookkeeping of `pushed`: at most one worker
waits to be pushed, because `Start` and the monitor do not create at the
same time.
-/

namespace ThreadPool.Numa

open Interleave

/-! ## The wiring of the pool -/

/-- How many slots `workers_.clear()` is past. -/
def Control.clearedUpTo : Control → Nat
  | .stop _ (.clear i) | .stop _ (.clearJoining i) => i
  | _ => 0

/-- What the controlling thread's program point says about `running_`. -/
def Control.runningIs : Control → Option Bool
  | .idle _ | .start .test | .stop _ .test => none
  | .start .store => some false
  | .start _ => some true
  | .stop _ .monitoring | .stop _ .notifyMonitor | .stop _ .joinMonitor
  | .stop _ .joiningMonitor | .stop _ .running => some true
  | .stop _ _ => some false

/-- The program points at which a pool that is not running has no workers. -/
def Control.resting : Control → Bool
  | .idle _ | .start .test | .start .store | .stop _ .test => true
  | _ => false

/-- The vector has been cleared, the queues are being emptied. -/
def Control.emptying : Control → Bool
  | .stop _ .count | .stop _ (.tasks _) => true
  | _ => false

/-- The program points at which no monitor thread is alive although the pool
counts as running. -/
def Control.unmonitored : Control → Bool
  | .start (.spawn _ _) | .start (.push _ _) | .start .monitoring | .start .monitor
  | .stop _ .running => true
  | _ => false

def Control.pushing : Control → Bool
  | .start (.push _ _) => true
  | _ => false

def MonitorPc.pushing : MonitorPc → Bool
  | .expandPush _ _ _ => true
  | _ => false

/-- Somebody has started a worker and has yet to push it. -/
def State.pending (s : State) : Bool :=
  s.control.pushing || s.monitorThread.any fun m => m.pc.pushing

/-- The slot `Stop` is about to join by an explicit `Join`. -/
def Control.joinsNext : Control → Option Nat
  | .stop _ (.setExit i) | .stop _ (.joining i) => some i
  | _ => none

/-- How slots, threads and program points hang together. -/
structure Wired (cfg : Config) (s : State) : Prop where
  index : ∀ j (w : Worker), s.workers[j]? = some w → w.native.index = j
  handle : ∀ w ∈ s.workers, w.property.threadHandle = w.native.self
  property : ∀ w ∈ s.workers, w.property.Started ∨
    (s.control.holdsGlobalMutex = true ∧ w.native.pc.isEnded = true ∧
      w.property.threadState = .terminated)
  joining : ∀ i (w : Worker), s.control.joinsNext = some i →
    s.workers[i]? = some w → w.property.Started
  cleared : ∀ j (w : Worker), s.workers[j]? = some w →
    j < s.control.clearedUpTo → w.native.pc.isEnded = true
  emptied : s.control.emptying = true → s.workers = []
  pushed : s.workers.length = s.pushed + if s.pending then 1 else 0
  runFlag : ∀ b, s.control.runningIs = some b → s.sh.running = b
  resting : s.control.resting = true → s.sh.running = false → s.workers = []
  monitor : ∀ m, s.monitorThread = some m →
    m.property.Started ∨ m.property.isJoinable = false ∧ m.pc = .ended
  unmonitored : s.sh.running = false ∨ s.control.unmonitored = true →
    ∀ m, s.monitorThread = some m → m.pc = .ended
  nodes : s.nodes.length = cfg.numaNodeCount

theorem Wired.running_at {cfg : Config} {s : State} {c : Control} {b : Bool}
    (hs : Wired cfg s) (hc : s.control = c) (h : c.runningIs = some b) :
    s.sh.running = b := by
  rw [← hc] at h
  exact hs.runFlag b h

/-! ## The body of `WorkerLoop` -/

/-- One step of a bound thread inside `WorkerLoop`. -/
inductive LoopStep (sh : Shared) (nd : NodeData) (free : Bool) (agent : Agent)
    (throws : Bool) :
    WorkerPc → Flags → Shared → NodeData → WorkerPc → Flags → Prop where
  | setValid {fl : Flags} :
      LoopStep sh nd free agent throws .setValid fl sh nd .fetchAdd
        { fl with isValid := true }
  | fetchAdd {fl : Flags} :
      LoopStep sh nd free agent throws .fetchAdd fl
        { sh with validThreadCount := sh.validThreadCount + 1 } nd .testExit fl
  | marked {fl : Flags} (hexit : fl.shouldExit = true) :
      LoopStep sh nd free agent throws .testExit fl sh nd .clearValid fl
  | unmarked {fl : Flags} (hexit : fl.shouldExit = false) :
      LoopStep sh nd free agent throws .testExit fl sh nd .testRunning fl
  | stopped {fl : Flags} (hrunning : sh.running = false) :
      LoopStep sh nd free agent throws .testRunning fl sh nd .clearValid fl
  | goesOn {fl : Flags} (hrunning : sh.running = true) :
      LoopStep sh nd free agent throws .testRunning fl sh nd .setIdle fl
  | setIdle {fl : Flags} :
      LoopStep sh nd free agent throws .setIdle fl sh nd .setIdleTime
        { fl with isIdle := true }
  | setIdleTime {fl : Flags} :
      LoopStep sh nd free agent throws .setIdleTime fl sh nd .wait
        { fl with idleTimeStart := sh.clock }
  | passes {pc : WorkerPc} {fl : Flags} (hpc : pc = .wait ∨ pc = .blocked true)
      (hfree : free = true) (hpred : waitPredicate sh nd fl = true) :
      LoopStep sh nd free agent throws pc fl sh nd .retestExit fl
  | sleeps {pc : WorkerPc} {fl : Flags} (hpc : pc = .wait ∨ pc = .blocked true)
      (hfree : free = true) (hpred : waitPredicate sh nd fl = false) :
      LoopStep sh nd free agent throws pc fl sh nd .window fl
  | blocks {fl : Flags} :
      LoopStep sh nd free agent throws .window fl sh nd (.blocked false) fl
  | remarked {fl : Flags} (hexit : fl.shouldExit = true) :
      LoopStep sh nd free agent throws .retestExit fl sh nd .clearValid fl
  | stillUnmarked {fl : Flags} (hexit : fl.shouldExit = false) :
      LoopStep sh nd free agent throws .retestExit fl sh nd .retestRunning fl
  | stoppedWaiting {fl : Flags} (hrunning : sh.running = false) :
      LoopStep sh nd free agent throws .retestRunning fl sh nd .clearValid fl
  | stillRunning {fl : Flags} (hrunning : sh.running = true) :
      LoopStep sh nd free agent throws .retestRunning fl sh nd .clearIdle fl
  | clearIdle {fl : Flags} :
      LoopStep sh nd free agent throws .clearIdle fl sh nd .pop { fl with isIdle := false }
  | misses {fl : Flags} (hfree : free = true) (htasks : nd.tasks = []) :
      LoopStep sh nd free agent throws .pop fl sh nd (.holding none) fl
  | pops {fl : Flags} (t : Task) (rest : List Task) (hfree : free = true)
      (htasks : nd.tasks = t :: rest) :
      LoopStep sh nd free agent throws .pop fl sh
        { nd with tasks := rest, hist := nd.hist ++ [.take agent t] }
        (.holding (some t)) fl
  | nothing {fl : Flags} :
      LoopStep sh nd free agent throws (.holding none) fl sh nd .testExit fl
  | starts {fl : Flags} (t : Task) (hcall : t.callable = true) :
      LoopStep sh nd free agent throws (.holding (some t)) fl sh
        { nd with hist := nd.hist ++ [.start agent t] } (.running t) fl
  | drops {fl : Flags} (t : Task) (hcall : t.callable = false) :
      LoopStep sh nd free agent throws (.holding (some t)) fl sh
        { nd with hist := nd.hist ++ [.drop agent t] } .testExit fl
  | returns {fl : Flags} (t : Task) (hthrows : throws = false) :
      LoopStep sh nd free agent throws (.running t) fl sh
        { nd with hist := nd.hist ++ [.finish agent t] } .testExit fl
  | throws {fl : Flags} (t : Task) (hthrows : throws = true) :
      LoopStep sh nd free agent throws (.running t) fl sh
        { nd with hist := nd.hist ++ [.finish agent t] } (.entry true) fl
  | clearValid {fl : Flags} :
      LoopStep sh nd free agent throws .clearValid fl sh nd .exitIdle
        { fl with isValid := false }
  | exitIdle {fl : Flags} :
      LoopStep sh nd free agent throws .exitIdle fl sh nd .fetchSub
        { fl with isIdle := false }
  | fetchSub {fl : Flags} :
      LoopStep sh nd free agent throws .fetchSub fl
        { sh with validThreadCount := ThreadPool.fetchSub sh.validThreadCount } nd
        (.entry false) fl

theorem evaluate_cases {sh sh' : Shared} {nd nd' : NodeData} {free throws : Bool}
    {agent : Agent} {pc pc' : WorkerPc} {fl fl' : Flags}
    (hpc : pc = .wait ∨ pc = .blocked true)
    (h : evaluate sh nd free fl = some (sh', nd', pc', fl')) :
    LoopStep sh nd free agent throws pc fl sh' nd' pc' fl' := by
  unfold evaluate at h
  split at h
  · next hfree =>
      simp only [Option.some.injEq, Prod.mk.injEq] at h
      obtain ⟨rfl, rfl, rfl, rfl⟩ := h
      split
      · next hpred => exact .passes hpc hfree hpred
      · next hpred => exact .sleeps hpc hfree (by simpa using hpred)
  · cases h

theorem workerLoop_cases {sh sh' : Shared} {nd nd' : NodeData} {free throws : Bool}
    {agent : Agent} {pc pc' : WorkerPc} {fl fl' : Flags}
    (h : workerLoop sh nd free agent throws pc fl = some (sh', nd', pc', fl')) :
    LoopStep sh nd free agent throws pc fl sh' nd' pc' fl' := by
  cases pc with
  | wait => exact evaluate_cases (Or.inl rfl) h
  | blocked signalled =>
      cases signalled with
      | true => exact evaluate_cases (Or.inr rfl) h
      | false => cases h
  | registration | readNode | bind | unbound | entry _ | ended _ => cases h
  | setValid | fetchAdd | setIdle | setIdleTime | window | clearIdle
  | clearValid | exitIdle | fetchSub =>
      simp only [workerLoop, Option.some.injEq, Prod.mk.injEq] at h
      obtain ⟨rfl, rfl, rfl, rfl⟩ := h
      constructor
  | testExit =>
      simp only [workerLoop, Option.some.injEq, Prod.mk.injEq] at h
      obtain ⟨rfl, rfl, rfl, rfl⟩ := h
      split
      · next hexit => exact .marked hexit
      · next hexit => exact .unmarked (by simpa using hexit)
  | testRunning =>
      simp only [workerLoop, Option.some.injEq, Prod.mk.injEq] at h
      obtain ⟨rfl, rfl, rfl, rfl⟩ := h
      split
      · next hrun => exact .goesOn hrun
      · next hrun => exact .stopped (by simpa using hrun)
  | retestExit =>
      simp only [workerLoop, Option.some.injEq, Prod.mk.injEq] at h
      obtain ⟨rfl, rfl, rfl, rfl⟩ := h
      split
      · next hexit => exact .remarked hexit
      · next hexit => exact .stillUnmarked (by simpa using hexit)
  | retestRunning =>
      simp only [workerLoop, Option.some.injEq, Prod.mk.injEq] at h
      obtain ⟨rfl, rfl, rfl, rfl⟩ := h
      split
      · next hrun => exact .stillRunning hrun
      · next hrun => exact .stoppedWaiting (by simpa using hrun)
  | pop =>
      simp only [workerLoop] at h
      split at h
      · next hfree =>
          split at h
          · next htasks =>
              simp only [Option.some.injEq, Prod.mk.injEq] at h
              obtain ⟨rfl, rfl, rfl, rfl⟩ := h
              exact .misses hfree htasks
          · next t rest htasks =>
              simp only [Option.some.injEq, Prod.mk.injEq] at h
              obtain ⟨rfl, rfl, rfl, rfl⟩ := h
              exact .pops t rest hfree htasks
      · cases h
  | holding task =>
      cases task with
      | none =>
          simp only [workerLoop, Option.some.injEq, Prod.mk.injEq] at h
          obtain ⟨rfl, rfl, rfl, rfl⟩ := h
          exact .nothing
      | some t =>
          simp only [workerLoop] at h
          split at h
          · next hcall =>
              simp only [Option.some.injEq, Prod.mk.injEq] at h
              obtain ⟨rfl, rfl, rfl, rfl⟩ := h
              exact .starts t hcall
          · next hcall =>
              simp only [Option.some.injEq, Prod.mk.injEq] at h
              obtain ⟨rfl, rfl, rfl, rfl⟩ := h
              exact .drops t (by simpa using hcall)
  | running t =>
      simp only [workerLoop, Option.some.injEq, Prod.mk.injEq] at h
      obtain ⟨rfl, rfl, rfl, rfl⟩ := h
      split
      · next hthrows => exact .throws t hthrows
      · next hthrows => exact .returns t (by simpa using hthrows)

/-! ## Moves of one party alone -/

/-- The state with another worker at place `j`. -/
def State.put (s : State) (j : Nat) (w : Worker) : State :=
  { s with workers := s.workers.set j w }

/-- A worker whose thread moved on. -/
def Worker.goto (w : Worker) (pc : WorkerPc) : Worker := { w with native.pc := pc }

/-- A call that moved on. -/
def Call.goto (c : Call) (pc : CallPc) : Call := { c with pc := pc }

/-- The moves of a call of `Enqueue` or `EnqueueToNumaNode` that change
nothing else. -/
inductive CallHop (cfg : Config) (s : State) (c : Call) : Call → Prop where
  | rejected (hpc : c.pc = .test) (hrunning : s.sh.running = false) :
      CallHop cfg s c (c.goto (.threw (.runtimeError "Thread pool is not running")))
  | accepted (hpc : c.pc = .test) (hrunning : s.sh.running = true) :
      CallHop cfg s c (c.goto .locate)
  | lost (e : Exn) (hpc : c.pc = .locate) : CallHop cfg s c (c.goto (.threw e))
  | located (n : Int) (hpc : c.pc = .locate) :
      CallHop cfg s c { c with nodeNum := n, pc := .range }
  | outOfRange (hpc : c.pc = .range)
      (hrange : c.nodeNum < 0 ∨ c.nodeNum ≥ cfg.numaNodeCount) :
      CallHop cfg s c (c.goto (.threw (.outOfRange "Invalid NUMA node index")))
  | inRange (n : Nat) (hpc : c.pc = .range) (hn : c.nodeNum = n)
      (hlt : n < cfg.numaNodeCount) : CallHop cfg s c (c.goto .testNode)
  | rejectedOn (hpc : c.pc = .testNode) (hrunning : s.sh.running = false) :
      CallHop cfg s c (c.goto (.threw (.runtimeError "Thread pool is not running")))
  | acceptedOn (hpc : c.pc = .testNode) (hrunning : s.sh.running = true) :
      CallHop cfg s c (c.goto .push)

/-- The moves of a worker thread that change nothing but its program point,
its `node_num` and its slot. -/
inductive WorkerHop (cfg : Config) (s : State) (w : Worker) : Worker → Prop where
  | registers (hpc : w.native.pc = .registration) (hfree : s.globalMutexFree = true)
      (hin : w.native.index < s.pushed) : WorkerHop cfg s w (w.goto .readNode)
  | leaves (hpc : w.native.pc = .registration) (hfree : s.globalMutexFree = true)
      (hout : s.pushed ≤ w.native.index) : WorkerHop cfg s w (w.goto (.entry false))
  | noNode (hpc : w.native.pc = .readNode)
      (hrange : w.numaNode < 0 ∨ w.numaNode ≥ cfg.numaNodeCount) :
      WorkerHop cfg s w (w.goto (.entry false))
  | readsNode (n : Nat) (hpc : w.native.pc = .readNode) (hn : w.numaNode = n)
      (hlt : n < cfg.numaNodeCount) :
      WorkerHop cfg s w ({ w with native.nodeNum := n }.goto .bind)
  | bindFails (hpc : w.native.pc = .bind) : WorkerHop cfg s w (w.goto .unbound)
  | unbound (hpc : w.native.pc = .unbound) :
      WorkerHop cfg s w ({ w with flags.isValid := false }.goto (.entry false))
  | ends (threw : Bool) (hpc : w.native.pc = .entry threw) :
      WorkerHop cfg s w ({ w with property := w.property.threadEntry }.goto (.ended threw))
  | spurious (hblocked : w.native.pc = .blocked false) :
      WorkerHop cfg s w (w.goto (.blocked true))

/-- The moves of the controlling thread that change nothing else. -/
inductive Hop (cfg : Config) (s : State) : Control → Control → Prop where
  | alreadyRunning (hrunning : s.sh.running = true) :
      Hop cfg s (.start .test)
        (.idle (.threw (.runtimeError "Thread pool is already running")))
  | mayStart (hrunning : s.sh.running = false) :
      Hop cfg s (.start .test) (.start .store)
  | spawnFails {n i : Nat} (e : Exn) (hn : n < cfg.numaNodeCount)
      (hi : i < cfg.minThreadsPerNode) :
      Hop cfg s (.start (.spawn n i)) (.idle (.threw e))
  | nodeDone {n i : Nat} (hn : n < cfg.numaNodeCount) (hi : cfg.minThreadsPerNode ≤ i) :
      Hop cfg s (.start (.spawn n i)) (.start (.spawn (n + 1) 0))
  | nodesDone {n i : Nat} (hn : cfg.numaNodeCount ≤ n) :
      Hop cfg s (.start (.spawn n i)) (.start .monitoring)
  | notRunning {p : ShutdownPolicy} (hrunning : s.sh.running = false) :
      Hop cfg s (.stop p .test)
        (.idle (.threw (.runtimeError "Thread pool is not running")))
  | mayStop {p : ShutdownPolicy} (hrunning : s.sh.running = true) :
      Hop cfg s (.stop p .test) (.stop p .monitoring)
  | notifyMonitor {p : ShutdownPolicy} :
      Hop cfg s (.stop p .notifyMonitor) (.stop p .joinMonitor)
  | joinMonitor {p : ShutdownPolicy} {m : Monitor}
      (hm : s.monitorThread = some m) (hjoin : m.property.isJoinable = true) :
      Hop cfg s (.stop p .joinMonitor) (.stop p .joiningMonitor)
  | noMonitor {p : ShutdownPolicy}
      (hm : ∀ m, s.monitorThread = some m → m.property.isJoinable = false) :
      Hop cfg s (.stop p .joinMonitor) (.stop p .running)
  | joinMonitorThrows {p : ShutdownPolicy} (e : Exn) :
      Hop cfg s (.stop p .joiningMonitor) (.idle (.threw e))
  | notified {p : ShutdownPolicy} {n : Nat} (hn : s.nodes.length ≤ n) :
      Hop cfg s (.stop p (.notifyAll n)) (.stop p .wait)
  | counts {p : ShutdownPolicy} (hp : p ≠ .immediate) :
      Hop cfg s (.stop p .wait) (.stop p (.taskCount 0 0))
  | waitsNot {p : ShutdownPolicy} (hp : p = .immediate) :
      Hop cfg s (.stop p .wait) (.stop p .lock)
  | taskCount {p : ShutdownPolicy} {n total : Nat} {nd : NodeData}
      (hnd : s.nodes[n]? = some nd) (hfree : s.tasksMutexFree n = true) :
      Hop cfg s (.stop p (.taskCount n total))
        (.stop p (.taskCount (n + 1) (total + nd.tasks.length)))
  | waits {p : ShutdownPolicy} {n total : Nat} (hn : s.nodes.length ≤ n) :
      Hop cfg s (.stop p (.taskCount n total)) (.stop p .wait)
  | waited {p : ShutdownPolicy} {n total : Nat} (hn : s.nodes.length ≤ n)
      (hdone : p = .waitForAll → total = 0) :
      Hop cfg s (.stop p (.taskCount n total)) (.stop p .lock)
  | lock {p : ShutdownPolicy} (hfree : s.globalMutexFree = true) :
      Hop cfg s (.stop p .lock) (.stop p (.join 0))
  | joins {p : ShutdownPolicy} {i : Nat} {w : Worker} (hw : s.slot i = some w)
      (hvalid : w.flags.isValid = true) (hjoin : w.property.isJoinable = true) :
      Hop cfg s (.stop p (.join i)) (.stop p (.setExit i))
  | skips {p : ShutdownPolicy} {i : Nat} {w : Worker} (hw : s.slot i = some w)
      (hnot : w.flags.isValid = false ∨ w.property.isJoinable = false) :
      Hop cfg s (.stop p (.join i)) (.stop p (.join (i + 1)))
  | joinsDone {p : ShutdownPolicy} {i : Nat} (hi : s.slot i = none) :
      Hop cfg s (.stop p (.join i)) (.stop p (.clear 0))
  | destroys {p : ShutdownPolicy} {i : Nat} {w : Worker} (hw : s.slot i = some w)
      (hjoin : w.property.isJoinable = false) :
      Hop cfg s (.stop p (.clear i)) (.stop p (.clear (i + 1)))
  | destroyJoins {p : ShutdownPolicy} {i : Nat} {w : Worker} (hw : s.slot i = some w)
      (hjoin : w.property.isJoinable = true) :
      Hop cfg s (.stop p (.clear i)) (.stop p (.clearJoining i))
  | returns {p : ShutdownPolicy} {n : Nat} (hn : s.nodes.length ≤ n) :
      Hop cfg s (.stop p (.tasks n)) (.idle .returned)

/-- The moves of the monitor thread that change nothing else. -/
inductive MonitorHop (cfg : Config) (s : State) : MonitorPc → MonitorPc → Prop where
  | monitoring (hmon : s.sh.monitoring = true) :
      MonitorHop cfg s .testMonitoring .testRunning
  | unmonitoring (hmon : s.sh.monitoring = false) :
      MonitorHop cfg s .testMonitoring .entry
  | running (hrunning : s.sh.running = true) :
      MonitorHop cfg s .testRunning (.nodeLock 0)
  | notRunning (hrunning : s.sh.running = false) :
      MonitorHop cfg s .testRunning .entry
  | nodeLock {n : Nat} (hn : n < cfg.numaNodeCount) (hfree : s.tasksMutexFree n = true) :
      MonitorHop cfg s (.nodeLock n) (.nodeTest n)
  | nodesDone {n : Nat} (hn : cfg.numaNodeCount ≤ n) :
      MonitorHop cfg s (.nodeLock n) (.adjust 0)
  | mayExpand {n : Nat} {nd : NodeData} (hnd : s.nodes[n]? = some nd)
      (hload : nd.threadCount * expandThreshold < nd.tasks.length) :
      MonitorHop cfg s (.nodeTest n) (.expandLoad n)
  | mayShrink {n : Nat} {nd : NodeData} (hnd : s.nodes[n]? = some nd)
      (hload : nd.tasks.length ≤ nd.threadCount * expandThreshold) :
      MonitorHop cfg s (.nodeTest n) (.shrinkLoad n)
  | noExpand {n : Nat} {nd : NodeData} (hnd : s.nodes[n]? = some nd)
      (hneed : expandNeed cfg nd.threadCount = none) :
      MonitorHop cfg s (.expandLoad n) (.nodeLock (n + 1))
  | expand {n need : Nat} {nd : NodeData} (hnd : s.nodes[n]? = some nd)
      (hneed : expandNeed cfg nd.threadCount = some need) :
      MonitorHop cfg s (.expandLoad n) (.expandStart n need 0)
  | expandThrows {n need k : Nat} (hk : k < need) :
      MonitorHop cfg s (.expandStart n need k) .entry
  | expanded {n need k : Nat} (hk : need ≤ k) :
      MonitorHop cfg s (.expandStart n need k) (.nodeLock (n + 1))
  | noShrink {n : Nat} {nd : NodeData} (hnd : s.nodes[n]? = some nd)
      (hcount : nd.threadCount ≤ cfg.minThreadsPerNode) :
      MonitorHop cfg s (.shrinkLoad n) (.nodeLock (n + 1))
  | shrink {n : Nat} {nd : NodeData} (hnd : s.nodes[n]? = some nd)
      (hcount : cfg.minThreadsPerNode < nd.threadCount) :
      MonitorHop cfg s (.shrinkLoad n)
        (.shrinkNow n (nd.threadCount - cfg.minThreadsPerNode))
  | readClock {n need : Nat} :
      MonitorHop cfg s (.shrinkNow n need) (.shrinkLock n need s.sh.clock)
  | lock {n need now : Nat} (hfree : s.globalMutexFree = true) :
      MonitorHop cfg s (.shrinkLock n need now) (.shrinkMark n need now 0 0)
  | passOver {n need now removed i : Nat} {w : Worker} (hw : s.slot i = some w)
      (hneed : removed < need) (hexp : w.expired n now = false) :
      MonitorHop cfg s (.shrinkMark n need now removed i)
        (.shrinkMark n need now removed (i + 1))
  | marksDone {n need now removed i : Nat} :
      MonitorHop cfg s (.shrinkMark n need now removed i) (.shrinkNotify n)
  | adjust {n : Nat} : MonitorHop cfg s (.adjust n) (.adjust (n + 1))
  | adjusted {n : Nat} : MonitorHop cfg s (.adjust n) .waitFor
  | wake : MonitorHop cfg s .waitFor .testMonitoring
  | waitThrows (hwakes : s.wakes = false) : MonitorHop cfg s .waitFor .entry

/-! ## All moves -/

/-- A step inside a call of `Enqueue` or `EnqueueToNumaNode`. -/
def Action.isCall : Action → Bool
  | .locate _ _ _ _ | .enqueue _ _ => true
  | _ => false

/-- A step of a worker thread. -/
def Action.isWorker : Action → Bool
  | .worker _ _ | .bind _ _ | .spurious _ => true
  | _ => false

/-- The worker that a successful `Thread::Start` leaves to be pushed. -/
def freshWorker (n index handle : Nat) : Worker where
  numaNode := n
  property := { threadHandle := handle, threadState := .joinable }
  native := { index := index, self := handle }

/-- The state with a started worker behind the others. -/
def State.spawn (s : State) (n : Nat) : State :=
  { s with
    workers := s.workers ++ [freshWorker n s.pushed s.nextHandle]
    nextHandle := s.nextHandle + 1 }

/-- Everything one step can do, given `Wired`. -/
inductive Move (cfg : Config) (s : State) : Action → State → Prop where
  | tick (d : Nat) : Move cfg s (.tick d) { s with sh.clock := s.sh.clock + d }
  | call (callable : Bool) :
      Move cfg s (.call callable)
        { s with calls := s.calls ++ [{ task := ⟨s.calls.length, callable⟩ }] }
  | callOn (nodeNum : Int) (callable : Bool) :
      Move cfg s (.callOn nodeNum callable)
        { s with
          calls := s.calls ++
            [{ task := ⟨s.calls.length, callable⟩, nodeNum := nodeNum, pc := .range }] }
  | callHop {a : Action} {k : Nat} {c c' : Call} (ha : a.isCall = true)
      (hc : s.calls[k]? = some c) (hhop : CallHop cfg s c c') :
      Move cfg s a { s with calls := s.calls.set k c' }
  | pushes {k : Nat} {pick : Option Nat} {c : Call} {nd : NodeData}
      (hc : s.calls[k]? = some c) (hpc : c.pc = .push)
      (hnd : s.nodes[c.nodeNum.toNat]? = some nd)
      (hfree : s.tasksMutexFree c.nodeNum.toNat = true) :
      Move cfg s (.enqueue k pick)
        { s with
          nodes := s.nodes.set c.nodeNum.toNat { nd with
            tasks := nd.tasks ++ [c.task]
            hist := nd.hist ++ [WorkEvent.accept c.task] }
          calls := s.calls.set k (c.goto .notify) }
  | notifies {k i : Nat} {c : Call} {w : Worker} (hc : s.calls[k]? = some c)
      (hpc : c.pc = .notify) (hw : s.workers[i]? = some w)
      (hasleep : w.asleepOn c.nodeNum.toNat = true) :
      Move cfg s (.enqueue k (some i))
        { s with
          workers := s.workers.set i (w.goto (.blocked true))
          calls := s.calls.set k (c.goto .returned) }
  | notifiesNobody {k : Nat} {c : Call} (hc : s.calls[k]? = some c)
      (hpc : c.pc = .notify)
      (hnone : ∀ w ∈ s.workers, w.asleepOn c.nodeNum.toNat = false) :
      Move cfg s (.enqueue k none)
        { s with calls := s.calls.set k (c.goto .returned) }
  | workerHop {a : Action} {j : Nat} {w w' : Worker} (ha : a.isWorker = true)
      (hw : s.workers[j]? = some w) (hhop : WorkerHop cfg s w w') :
      Move cfg s a (s.put j w')
  | binds {j : Nat} {os : Libnuma} {w : Worker} (hw : s.workers[j]? = some w)
      (hpc : w.native.pc = .bind) :
      Move cfg s (.bind j os)
        ({ s with
            sh.bound := s.sh.bound ++ [(w.native.self, (w.native.nodeNum : Int))] }.put j
          (w.goto .setValid))
  | loops {j : Nat} {throws : Bool} {w : Worker} {sh : Shared} {nd nd' : NodeData}
      {pc : WorkerPc} {fl : Flags} (hw : s.workers[j]? = some w)
      (hnd : s.nodes[w.native.nodeNum]? = some nd)
      (hstep : LoopStep s.sh nd (s.tasksMutexFree w.native.nodeNum)
        ⟨w.native.self, w.numaNode⟩ throws w.native.pc w.flags sh nd' pc fl) :
      Move cfg s (.worker j throws)
        ({ s with sh := sh, nodes := s.nodes.set w.native.nodeNum nd' }.put j
          ({ w with flags := fl }.goto pc))
  | callsStart {o : Outcome} (hc : s.control = .idle o) :
      Move cfg s .start (s.goto (.start .test))
  | callsStop {o : Outcome} (p : ShutdownPolicy) (hc : s.control = .idle o) :
      Move cfg s (.stop p) (s.goto (.stop p .test))
  | hop {creates : Creates} {timedOut : Bool} {c : Control}
      (hhop : Hop cfg s s.control c) :
      Move cfg s (.control creates timedOut) (s.goto c)
  | storeRunning {creates : Creates} {timedOut : Bool}
      (hc : s.control = .start .store) :
      Move cfg s (.control creates timedOut)
        { s with sh.running := true, control := .start (.spawn 0 0) }
  | spawns {creates : Creates} {timedOut : Bool} {n i : Nat}
      (hc : s.control = .start (.spawn n i)) (hn : n < cfg.numaNodeCount)
      (hi : i < cfg.minThreadsPerNode) :
      Move cfg s (.control creates timedOut) ((s.spawn n).goto (.start (.push n i)))
  | pushesSlot {creates : Creates} {timedOut : Bool} {n i : Nat}
      (hc : s.control = .start (.push n i)) (hfree : s.globalMutexFree = true) :
      Move cfg s (.control creates timedOut)
        ((pushWorker s n).goto (.start (.spawn n (i + 1))))
  | storeMonitoring {creates : Creates} {timedOut : Bool}
      (hc : s.control = .start .monitoring) :
      Move cfg s (.control creates timedOut)
        { s with sh.monitoring := true, control := .start .monitor }
  | startUnmonitored {creates : Creates} {timedOut : Bool} (e : Exn)
      (hc : s.control = .start .monitor) :
      Move cfg s (.control creates timedOut)
        { s with
          monitorThread := some { property := {}, pc := .ended }
          control := .idle (.threw e) }
  | starts {creates : Creates} {timedOut : Bool} (hc : s.control = .start .monitor) :
      Move cfg s (.control creates timedOut)
        { s with
          monitorThread := some
            { property := { threadHandle := s.nextHandle, threadState := .joinable }
              pc := .testMonitoring }
          nextHandle := s.nextHandle + 1
          control := .idle .returned }
  | clearMonitoring {creates : Creates} {timedOut : Bool} {p : ShutdownPolicy}
      (hc : s.control = .stop p .monitoring) :
      Move cfg s (.control creates timedOut)
        { s with sh.monitoring := false, control := .stop p .notifyMonitor }
  | joinsMonitor {creates : Creates} {timedOut : Bool} {p : ShutdownPolicy}
      {m : Monitor} (hc : s.control = .stop p .joiningMonitor)
      (hm : s.monitorThread = some m) (hended : m.pc = .ended) :
      Move cfg s (.control creates timedOut)
        { s with monitorThread := none, control := .stop p .running }
  | clearRunning {creates : Creates} {timedOut : Bool} {p : ShutdownPolicy}
      (hc : s.control = .stop p .running) :
      Move cfg s (.control creates timedOut)
        { s with sh.running := false, control := .stop p (.notifyAll 0) }
  | notifiesAll {creates : Creates} {timedOut : Bool} {p : ShutdownPolicy} {n : Nat}
      (hc : s.control = .stop p (.notifyAll n)) :
      Move cfg s (.control creates timedOut)
        { s with
          workers := notifyAll n s.workers
          control := .stop p (.notifyAll (n + 1)) }
  | setsExit {creates : Creates} {timedOut : Bool} {p : ShutdownPolicy} {i : Nat}
      {w : Worker} (hc : s.control = .stop p (.setExit i)) (hw : s.workers[i]? = some w) :
      Move cfg s (.control creates timedOut)
        ((s.put i { w with flags.shouldExit := true }).goto (.stop p (.joining i)))
  | joined {creates : Creates} {timedOut : Bool} {p : ShutdownPolicy} {i : Nat}
      {w : Worker} {pc : StopPc}
      (hc : s.control = .stop p (.joining i) ∧ pc = .join (i + 1) ∨
        s.control = .stop p (.clearJoining i) ∧ pc = .clear (i + 1))
      (hw : s.workers[i]? = some w) (hended : w.native.pc.isEnded = true) :
      Move cfg s (.control creates timedOut) ((s.put i w.joined).goto (.stop p pc))
  | cleared {creates : Creates} {timedOut : Bool} {p : ShutdownPolicy} {i : Nat}
      (hc : s.control = .stop p (.clear i)) (hi : s.slot i = none) :
      Move cfg s (.control creates timedOut)
        { s with workers := [], pushed := 0, control := .stop p .count }
  | resetCount {creates : Creates} {timedOut : Bool} {p : ShutdownPolicy}
      (hc : s.control = .stop p .count) :
      Move cfg s (.control creates timedOut)
        { s with sh.validThreadCount := 0, control := .stop p (.tasks 0) }
  | clearTasks {creates : Creates} {timedOut : Bool} {p : ShutdownPolicy} {n : Nat}
      {nd : NodeData} (hc : s.control = .stop p (.tasks n))
      (hnd : s.nodes[n]? = some nd) (hfree : s.tasksMutexFree n = true) :
      Move cfg s (.control creates timedOut)
        ((s.setNode n { nd with
            tasks := []
            hist := nd.hist ++ nd.tasks.map WorkEvent.discard }).goto
          (.stop p (.tasks (n + 1))))
  | monitorHop {creates : Creates} {waitFails : Bool} {m : Monitor} {pc : MonitorPc}
      (hm : s.monitorThread = some m) (hhop : MonitorHop cfg s m.pc pc) :
      Move cfg s (.monitor creates waitFails) (s.monitorGoto m pc)
  | expandSpawns {creates : Creates} {waitFails : Bool} {m : Monitor} {n need k : Nat}
      (hm : s.monitorThread = some m) (hpc : m.pc = .expandStart n need k)
      (hk : k < need) :
      Move cfg s (.monitor creates waitFails)
        ((s.spawn n).monitorGoto m (.expandPush n need k))
  | expandPushes {creates : Creates} {waitFails : Bool} {m : Monitor} {n need k : Nat}
      (hm : s.monitorThread = some m) (hpc : m.pc = .expandPush n need k)
      (hfree : s.globalMutexFree = true) :
      Move cfg s (.monitor creates waitFails)
        ((pushWorker s n).monitorGoto m (.expandStart n need (k + 1)))
  | marks {creates : Creates} {waitFails : Bool} {m : Monitor}
      {n need now removed i : Nat} {w : Worker} (hm : s.monitorThread = some m)
      (hpc : m.pc = .shrinkMark n need now removed i)
      (hw : s.workers[i]? = some w) (hneed : removed < need)
      (hexp : w.expired n now = true) :
      Move cfg s (.monitor creates waitFails)
        ((s.put i { w with flags.shouldExit := true }).monitorGoto m
          (.shrinkMark n need now (removed + 1) (i + 1)))
  | shrinkNotifies {creates : Creates} {waitFails : Bool} {m : Monitor} {n : Nat}
      (hm : s.monitorThread = some m) (hpc : m.pc = .shrinkNotify n) :
      Move cfg s (.monitor creates waitFails)
        ({ s with workers := notifyAll n s.workers }.monitorGoto m (.nodeLock (n + 1)))
  | monitorEnds {creates : Creates} {waitFails : Bool} {m : Monitor}
      (hm : s.monitorThread = some m) (hpc : m.pc = .entry) :
      Move cfg s (.monitor creates waitFails)
        (s.monitorGoto { m with property := m.property.threadEntry } .ended)

/-! ## Reading the step function -/

theorem getElem?_of_slot {s : State} {i : Nat} {w : Worker} (h : s.slot i = some w) :
    i < s.pushed ∧ s.workers[i]? = some w := by
  unfold State.slot at h
  split at h
  · next hlt => exact ⟨hlt, h⟩
  · cases h

theorem callGoto_eq {s : State} {k : Nat} {c : Call} {pc : CallPc}
    (hc : s.calls[k]? = some c) :
    s.callGoto k pc = { s with calls := s.calls.set k (c.goto pc) } := by
  rw [State.callGoto, modify_eq_set_of_getElem? hc]
  rfl

theorem workerGoto_eq {s : State} {j : Nat} {w : Worker} {pc : WorkerPc}
    (hw : s.workers[j]? = some w) : s.workerGoto j pc = s.put j (w.goto pc) := by
  rw [State.workerGoto, modify_eq_set_of_getElem? hw]
  rfl

theorem setFlags_eq {s : State} {i : Nat} {w : Worker} {fl : Flags}
    (hw : s.workers[i]? = some w) :
    s.setFlags i fl = s.put i { w with flags := fl } := by
  rw [State.setFlags, modify_eq_set_of_getElem? hw]
  rfl

theorem put_put {s : State} {j : Nat} (w w' : Worker) :
    (s.put j w).put j w' = s.put j w' := by
  simp [State.put]

theorem getElem?_put {s : State} {j : Nat} {w : Worker} (hw : s.workers[j]? = some w)
    (w' : Worker) : (s.put j w').workers[j]? = some w' := by
  obtain ⟨hlt, -⟩ := List.getElem?_eq_some_iff.mp hw
  simp [State.put, hlt]

theorem setFlags_workerGoto_eq {s : State} {j : Nat} {w : Worker}
    (hw : s.workers[j]? = some w) (fl : Flags) (pc : WorkerPc) :
    (s.setFlags j fl).workerGoto j pc = s.put j ({ w with flags := fl }.goto pc) := by
  rw [setFlags_eq hw, workerGoto_eq (getElem?_put hw _), put_put]

theorem notifyOne_cases {n : Nat} {ws ws' : List Worker} {pick : Option Nat}
    (h : notifyOne n ws pick = some ws') :
    (pick = none ∧ ws' = ws ∧ ∀ w ∈ ws, w.asleepOn n = false) ∨
      ∃ i w, pick = some i ∧ ws[i]? = some w ∧ w.asleepOn n = true ∧
        ws' = ws.set i (w.goto (.blocked true)) := by
  unfold notifyOne at h
  split at h
  · split at h
    · next hall =>
        rw [Option.some.injEq] at h
        exact Or.inl ⟨rfl, h.symm, by simpa using hall⟩
    · cases h
  · next i =>
      split at h
      · next w hw =>
          split at h
          · next hasleep =>
              rw [Option.some.injEq] at h
              exact Or.inr ⟨i, w, rfl, hw, hasleep, h.symm⟩
          · cases h
      · cases h

theorem locateStep_cases {cfg : Config} {s s' : State} {k : Nat} {cpu nodeOfCpu : Int}
    {strerror : String} (h : locateStep cfg s k cpu nodeOfCpu strerror = some s') :
    Move cfg s (.locate k cpu nodeOfCpu strerror) s' := by
  unfold locateStep at h
  split at h
  · cases h
  · next c hc =>
      split at h
      · next hpc =>
          split at h
          · next e _ =>
              rw [Option.some.injEq, callGoto_eq hc] at h
              subst h
              exact .callHop rfl hc (.lost e hpc)
          · next node _ =>
              rw [Option.some.injEq] at h
              subst h
              exact .callHop rfl hc (.located _ hpc)
      · cases h

theorem enqueueStep_cases {cfg : Config} {s s' : State} {k : Nat}
    {pick : Option Nat} (h : enqueueStep cfg s k pick = some s') :
    Move cfg s (.enqueue k pick) s' := by
  unfold enqueueStep at h
  split at h
  · cases h
  · next c hc =>
      split at h
      · next hpc =>
          rw [Option.some.injEq, callGoto_eq hc] at h
          subst h
          refine .callHop rfl hc ?_
          split
          · next hrun => exact .accepted hpc hrun
          · next hrun => exact .rejected hpc (by simpa using hrun)
      · next hpc =>
          rw [Option.some.injEq, callGoto_eq hc] at h
          subst h
          refine .callHop rfl hc ?_
          split
          · next hrange => exact .outOfRange hpc hrange
          · next hrange => exact .inRange c.nodeNum.toNat hpc (by omega) (by omega)
      · next hpc =>
          rw [Option.some.injEq, callGoto_eq hc] at h
          subst h
          refine .callHop rfl hc ?_
          split
          · next hrun => exact .acceptedOn hpc hrun
          · next hrun => exact .rejectedOn hpc (by simpa using hrun)
      · next hpc =>
          split at h
          · cases h
          · next nd hnd =>
              split at h
              · next hfree =>
                  rw [Option.some.injEq, callGoto_eq (by exact hc)] at h
                  subst h
                  exact .pushes hc hpc hnd hfree
              · cases h
      · next hpc =>
          split at h
          · next ws hws =>
              rw [Option.some.injEq, callGoto_eq (by exact hc)] at h
              subst h
              rcases notifyOne_cases hws with ⟨rfl, rfl, hnone⟩ |
                ⟨i, w, rfl, hw, hasleep, rfl⟩
              · exact .notifiesNobody hc hpc hnone
              · exact .notifies hc hpc hw hasleep
          · cases h
      all_goals cases h

theorem boundStep_cases {cfg : Config} {s s' : State} {j : Nat} {throws : Bool}
    {w : Worker} (hw : s.workers[j]? = some w) (hindex : w.native.index = j)
    (h : boundStep s j w throws = some s') : Move cfg s (.worker j throws) s' := by
  unfold boundStep at h
  rw [hindex] at h
  split at h
  · next slot nd hslot hnd =>
      obtain ⟨-, hslot⟩ := getElem?_of_slot hslot
      rw [hw, Option.some.injEq] at hslot
      subst hslot
      split at h
      · cases h
      · next sh nd' pc fl hloop =>
          rw [Option.some.injEq, setFlags_workerGoto_eq (by exact hw)] at h
          subst h
          exact .loops hw hnd (workerLoop_cases hloop)
  · cases h

theorem workerStep_cases {cfg : Config} {s s' : State} {j : Nat} {throws : Bool}
    (hs : Wired cfg s) (h : workerStep cfg s j throws = some s') :
    Move cfg s (.worker j throws) s' := by
  unfold workerStep at h
  split at h
  · cases h
  · next w hw =>
      have hindex := hs.index j w hw
      have hown : ∀ slot, s.slot w.native.index = some slot → slot = w := by
        intro slot hslot
        obtain ⟨-, hslot⟩ := getElem?_of_slot hslot
        rw [hindex, hw, Option.some.injEq] at hslot
        exact hslot.symm
      split at h
      · next hpc =>
          split at h
          · next hfree =>
              rw [Option.some.injEq, workerGoto_eq hw] at h
              subst h
              refine .workerHop rfl hw ?_
              split
              · next hin => exact .registers hpc hfree hin
              · next hout => exact .leaves hpc hfree (by omega)
          · cases h
      · next hpc =>
          split at h
          · cases h
          · next slot hslot =>
              obtain rfl := hown slot hslot
              split at h
              · next hrange =>
                  rw [Option.some.injEq, workerGoto_eq hw] at h
                  subst h
                  exact .workerHop rfl hw (.noNode hpc hrange)
              · next hrange =>
                  rw [Option.some.injEq, modify_eq_set_of_getElem? hw] at h
                  subst h
                  exact .workerHop rfl hw
                    (.readsNode slot.numaNode.toNat hpc (by omega) (by omega))
      · next hpc =>
          split at h
          · cases h
          · next slot hslot =>
              obtain rfl := hown slot hslot
              rw [Option.some.injEq, hindex, setFlags_workerGoto_eq hw] at h
              subst h
              exact .workerHop rfl hw (.unbound hpc)
      · next threw hpc =>
          rw [Option.some.injEq, modify_eq_set_of_getElem? hw] at h
          subst h
          exact .workerHop rfl hw (.ends threw hpc)
      · cases h
      · exact boundStep_cases hw hindex h

theorem Wired.started_of_not_ended {cfg : Config} {s : State} {w : Worker}
    (hs : Wired cfg s) (hw : w ∈ s.workers) (halive : w.native.pc.isEnded = false) :
    w.property.Started := by
  rcases hs.property w hw with hstarted | ⟨-, hended, -⟩
  · exact hstarted
  · rw [halive] at hended
    cases hended

theorem bindStep_cases {cfg : Config} {s s' : State} {j : Nat} {os : Libnuma}
    (hs : Wired cfg s) (h : bindStep cfg s j os = some s') :
    Move cfg s (.bind j os) s' := by
  unfold bindStep at h
  split at h
  · cases h
  · next w hw =>
      split at h
      · next hpc =>
          split at h
          · cases h
          · next thread hthread =>
              rw [Option.bind_eq_some_iff] at hthread
              obtain ⟨slot, hslot, hhandle⟩ := hthread
              obtain ⟨-, hslot⟩ := getElem?_of_slot hslot
              rw [hs.index j w hw, hw, Option.some.injEq] at hslot
              subst hslot
              have hmem := List.mem_of_getElem? hw
              have hstarted := hs.started_of_not_ended hmem (by rw [hpc]; rfl)
              rw [hstarted.nativeHandle, Option.some.injEq, hs.handle w hmem] at hhandle
              split at h
              · rw [Option.some.injEq, workerGoto_eq hw] at h
                subst h
                exact .workerHop rfl hw (.bindFails hpc)
              · next bound hbound =>
                  rw [Option.some.injEq, workerGoto_eq (by exact hw)] at h
                  rw [bound_of_bindThreadToNumaNode hbound, ← hhandle] at h
                  subst h
                  exact .binds hw hpc
      · cases h

theorem spuriousStep_cases {cfg : Config} {s s' : State} {j : Nat}
    (h : spuriousStep s j = some s') : Move cfg s (.spurious j) s' := by
  unfold spuriousStep at h
  split at h
  · cases h
  · next w hw =>
      split at h
      · next hblocked =>
          rw [Option.some.injEq, workerGoto_eq hw] at h
          subst h
          exact .workerHop rfl hw (.spurious hblocked)
      · cases h

theorem startWorker_eq (s : State) (creates : Creates) (n : Nat) :
    startWorker s creates n =
      if creates.avail = 0 then
        .error (.runtimeError ("pthread_create failed: " ++ creates.strerror))
      else .ok (s.spawn n) := by
  unfold startWorker
  simp only [ThreadProperty.start, Creates.pthreadCreate]
  by_cases havail : creates.avail = 0
  · simp only [havail, if_true]
  · simp only [havail, if_false]
    rfl

theorem startStep_cases {cfg : Config} {s s' : State} {creates : Creates}
    {timedOut : Bool} {pc : StartPc} (hc : s.control = .start pc)
    (h : startStep cfg s creates pc = some s') :
    Move cfg s (.control creates timedOut) s' := by
  cases pc with
  | test =>
      simp only [startStep, Option.some.injEq] at h
      subst h
      refine .hop ?_
      rw [hc]
      split
      · next hrun => exact .alreadyRunning hrun
      · next hrun => exact .mayStart (by simpa using hrun)
  | store =>
      simp only [startStep, Option.some.injEq] at h
      subst h
      exact .storeRunning hc
  | spawn n i =>
      simp only [startStep, startWorker_eq] at h
      split at h
      · next hn =>
          split at h
          · next hi =>
              split at h
              · next e _ =>
                  rw [Option.some.injEq] at h
                  subst h
                  exact .hop (by rw [hc]; exact .spawnFails e hn hi)
              · next heq =>
                  split at heq
                  · cases heq
                  · rw [Except.ok.injEq] at heq
                    rw [Option.some.injEq, ← heq] at h
                    subst h
                    exact .spawns hc hn hi
          · next hi =>
              rw [Option.some.injEq] at h
              subst h
              exact .hop (by rw [hc]; exact .nodeDone hn (by omega))
      · next hn =>
          rw [Option.some.injEq] at h
          subst h
          exact .hop (by rw [hc]; exact .nodesDone (by omega))
  | push n i =>
      simp only [startStep] at h
      split at h
      · next hfree =>
          rw [Option.some.injEq] at h
          subst h
          exact .pushesSlot hc hfree
      · cases h
  | monitoring =>
      simp only [startStep, Option.some.injEq] at h
      subst h
      exact .storeMonitoring hc
  | monitor =>
      simp only [startStep, ThreadProperty.start, Creates.pthreadCreate] at h
      by_cases havail : creates.avail = 0
      · simp only [havail, if_true, Option.some.injEq] at h
        subst h
        exact .startUnmonitored _ hc
      · simp only [havail, if_false, Option.some.injEq] at h
        subst h
        exact .starts hc

theorem joinMonitor_cases {cfg : Config} {s : State} {p : ShutdownPolicy} :
    Hop cfg s (.stop p .joinMonitor) (.stop p
      (if s.monitorThread.any fun m => m.property.isJoinable then .joiningMonitor
       else .running)) := by
  cases hm : s.monitorThread with
  | none => exact .noMonitor fun m hsome => by rw [hm] at hsome; cases hsome
  | some m =>
      rw [Option.any_some]
      split
      · next hjoin => exact .joinMonitor hm hjoin
      · next hjoin =>
          refine .noMonitor fun m' hsome => ?_
          rw [hm, Option.some.injEq] at hsome
          rw [← hsome]
          simpa using hjoin

theorem stopStep_cases {cfg : Config} {s s' : State} {creates : Creates}
    {timedOut : Bool} {p : ShutdownPolicy} {pc : StopPc} (hs : Wired cfg s)
    (hc : s.control = .stop p pc) (h : stopStep s p timedOut pc = some s') :
    Move cfg s (.control creates timedOut) s' := by
  cases pc with
  | test =>
      simp only [stopStep, Option.some.injEq] at h
      subst h
      refine .hop ?_
      rw [hc]
      split
      · next hrun => exact .mayStop hrun
      · next hrun => exact .notRunning (by simpa using hrun)
  | monitoring =>
      simp only [stopStep, Option.some.injEq] at h
      subst h
      exact .clearMonitoring hc
  | notifyMonitor =>
      simp only [stopStep, Option.some.injEq] at h
      subst h
      exact .hop (by rw [hc]; exact .notifyMonitor)
  | joinMonitor =>
      simp only [stopStep, Option.some.injEq] at h
      subst h
      exact .hop (by rw [hc]; exact joinMonitor_cases)
  | joiningMonitor =>
      simp only [stopStep] at h
      split at h
      · cases h
      · next m hm =>
          split at h
          · next e _ =>
              rw [Option.some.injEq] at h
              subst h
              exact .hop (by rw [hc]; exact .joinMonitorThrows e)
          · split at h
            · next hended =>
                rw [Option.some.injEq] at h
                subst h
                exact .joinsMonitor hc hm hended
            · cases h
  | running =>
      simp only [stopStep, Option.some.injEq] at h
      subst h
      exact .clearRunning hc
  | notifyAll n =>
      simp only [stopStep] at h
      split at h
      · rw [Option.some.injEq] at h
        subst h
        exact .notifiesAll hc
      · next hn =>
          rw [Option.some.injEq] at h
          subst h
          exact .hop (by rw [hc]; exact .notified (by omega))
  | wait =>
      simp only [stopStep, Option.some.injEq] at h
      subst h
      refine .hop ?_
      rw [hc]
      split
      · next hp => exact .waitsNot hp
      · next hp => exact .counts hp
  | taskCount n total =>
      simp only [stopStep] at h
      split at h
      · next nd hnd =>
          split at h
          · next hfree =>
              rw [Option.some.injEq] at h
              subst h
              exact .hop (by rw [hc]; exact .taskCount hnd hfree)
          · cases h
      · next hnone =>
          rw [Option.some.injEq] at h
          subst h
          refine .hop ?_
          rw [hc]
          have hn := List.getElem?_eq_none_iff.mp hnone
          split
          · exact .waits hn
          · next hdone =>
              refine .waited hn fun hall => ?_
              subst hall
              simpa [stopWaits] using hdone
  | lock =>
      simp only [stopStep] at h
      split at h
      · next hfree =>
          rw [Option.some.injEq] at h
          subst h
          exact .hop (by rw [hc]; exact .lock hfree)
      · cases h
  | join i =>
      simp only [stopStep] at h
      split at h
      · next hnone =>
          rw [Option.some.injEq] at h
          subst h
          exact .hop (by rw [hc]; exact .joinsDone hnone)
      · next w hw =>
          rw [Option.some.injEq] at h
          subst h
          refine .hop ?_
          rw [hc]
          split
          · next hjoin =>
              rw [Bool.and_eq_true] at hjoin
              exact .joins hw hjoin.1 hjoin.2
          · next hnot =>
              rw [Bool.not_eq_true, Bool.and_eq_false_iff] at hnot
              exact .skips hw hnot
  | setExit i =>
      simp only [stopStep] at h
      split at h
      · cases h
      · next w hw =>
          obtain ⟨-, hw⟩ := getElem?_of_slot hw
          rw [Option.some.injEq, setFlags_eq hw] at h
          subst h
          exact .setsExit hc hw
  | joining i =>
      simp only [stopStep] at h
      split at h
      · cases h
      · next w hw =>
          obtain ⟨-, hw⟩ := getElem?_of_slot hw
          rw [(hs.joining i w (by rw [hc]; rfl) hw).joinEnter] at h
          dsimp only at h
          split at h
          · next hended =>
              rw [Option.some.injEq] at h
              subst h
              exact .joined (Or.inl ⟨hc, rfl⟩) hw hended
          · cases h
  | clear i =>
      simp only [stopStep] at h
      split at h
      · next hnone =>
          rw [Option.some.injEq] at h
          subst h
          exact .cleared hc hnone
      · next w hw =>
          split at h
          · next hclean =>
              rw [Option.some.injEq] at h
              subst h
              rw [ThreadProperty.cleanup_eq] at hclean
              exact .hop (by rw [hc]; exact .destroys hw (by simpa using hclean))
          · next hclean =>
              rw [Option.some.injEq] at h
              subst h
              rw [ThreadProperty.cleanup_eq] at hclean
              refine .hop ?_
              rw [hc]
              refine .destroyJoins hw ?_
              split at hclean
              · next hjoin => exact hjoin
              · cases hclean
          · cases h
  | clearJoining i =>
      simp only [stopStep] at h
      split at h
      · cases h
      · next w hw =>
          obtain ⟨-, hw⟩ := getElem?_of_slot hw
          split at h
          · next hended =>
              rw [Option.some.injEq] at h
              subst h
              exact .joined (Or.inr ⟨hc, rfl⟩) hw hended
          · cases h
  | count =>
      simp only [stopStep, Option.some.injEq] at h
      subst h
      exact .resetCount hc
  | tasks n =>
      simp only [stopStep] at h
      split at h
      · next nd hnd =>
          split at h
          · next hfree =>
              rw [Option.some.injEq] at h
              subst h
              exact .clearTasks hc hnd hfree
          · cases h
      · next hnone =>
          rw [Option.some.injEq] at h
          subst h
          exact .hop (by rw [hc]; exact .returns (List.getElem?_eq_none_iff.mp hnone))

theorem monitorStep_cases {cfg : Config} {s s' : State} {creates : Creates} {waitFails : Bool}
    (h : monitorStep cfg s creates waitFails = some s') :
    Move cfg s (.monitor creates waitFails) s' := by
  unfold monitorStep at h
  split at h
  · cases h
  · next m hm =>
      have hops : ∀ {pc pc' : MonitorPc}, m.pc = pc → MonitorHop cfg s pc pc' →
          Move cfg s (.monitor creates waitFails) (s.monitorGoto m pc') :=
        fun hpc hhop => .monitorHop hm (by rw [hpc]; exact hhop)
      cases hpc : m.pc with
      | testMonitoring =>
          simp only [hpc, Option.some.injEq] at h
          subst h
          split
          · next hmon => exact hops hpc (.monitoring hmon)
          · next hmon => exact hops hpc (.unmonitoring (by simpa using hmon))
      | testRunning =>
          simp only [hpc, Option.some.injEq] at h
          subst h
          split
          · next hrun => exact hops hpc (.running hrun)
          · next hrun => exact hops hpc (.notRunning (by simpa using hrun))
      | nodeLock n =>
          simp only [hpc] at h
          split at h
          · next hn =>
              split at h
              · next hfree =>
                  rw [Option.some.injEq] at h
                  subst h
                  exact hops hpc (.nodeLock hn hfree)
              · cases h
          · next hn =>
              rw [Option.some.injEq] at h
              subst h
              exact hops hpc (.nodesDone (by omega))
      | nodeTest n =>
          simp only [hpc] at h
          split at h
          · cases h
          · next nd hnd =>
              rw [Option.some.injEq] at h
              subst h
              split
              · next hload => exact hops hpc (.mayExpand hnd hload)
              · next hload => exact hops hpc (.mayShrink hnd (by omega))
      | expandLoad n =>
          simp only [hpc] at h
          split at h
          · cases h
          · next nd hnd =>
              rw [Option.some.injEq] at h
              subst h
              split
              · next hneed => exact hops hpc (.noExpand hnd hneed)
              · next need hneed => exact hops hpc (.expand hnd hneed)
      | expandStart n need k =>
          simp only [hpc, startWorker_eq] at h
          split at h
          · next hk =>
              split at h
              · rw [Option.some.injEq] at h
                subst h
                exact hops hpc (.expandThrows hk)
              · next heq =>
                  split at heq
                  · cases heq
                  · rw [Except.ok.injEq] at heq
                    rw [Option.some.injEq, ← heq] at h
                    subst h
                    exact .expandSpawns hm hpc hk
          · next hk =>
              rw [Option.some.injEq] at h
              subst h
              exact hops hpc (.expanded (by omega))
      | expandPush n need k =>
          simp only [hpc] at h
          split at h
          · next hfree =>
              rw [Option.some.injEq] at h
              subst h
              exact .expandPushes hm hpc hfree
          · cases h
      | shrinkLoad n =>
          simp only [hpc] at h
          split at h
          · cases h
          · next nd hnd =>
              rw [Option.some.injEq] at h
              subst h
              unfold shrinkNeed
              by_cases hle : nd.threadCount ≤ cfg.minThreadsPerNode
              · rw [if_pos hle]
                exact hops hpc (.noShrink hnd hle)
              · rw [if_neg hle, if_neg (by omega)]
                exact hops hpc (.shrink hnd (by omega))
      | shrinkNow n need =>
          simp only [hpc, Option.some.injEq] at h
          subst h
          exact hops hpc .readClock
      | shrinkLock n need now =>
          simp only [hpc] at h
          split at h
          · next hfree =>
              rw [Option.some.injEq] at h
              subst h
              exact hops hpc (.lock hfree)
          · cases h
      | shrinkMark n need now removed i =>
          simp only [hpc] at h
          split at h
          · rw [Option.some.injEq] at h
            subst h
            exact hops hpc .marksDone
          · next w hslot =>
              obtain ⟨-, hw⟩ := getElem?_of_slot hslot
              split at h
              · next hneed =>
                  split at h
                  · next hexp =>
                      rw [Option.some.injEq, setFlags_eq hw] at h
                      subst h
                      exact .marks hm hpc hw hneed hexp
                  · next hexp =>
                      rw [Option.some.injEq] at h
                      subst h
                      exact hops hpc (.passOver hslot hneed (by simpa using hexp))
              · rw [Option.some.injEq] at h
                subst h
                exact hops hpc .marksDone
      | shrinkNotify n =>
          simp only [hpc, Option.some.injEq] at h
          subst h
          exact .shrinkNotifies hm hpc
      | adjust n =>
          simp only [hpc] at h
          split at h
          · split at h
            · rw [Option.some.injEq] at h
              subst h
              exact hops hpc .adjust
            · cases h
          · rw [Option.some.injEq] at h
            subst h
            exact hops hpc .adjusted
      | waitFor =>
          simp only [hpc, Option.some.injEq] at h
          subst h
          split
          · next hfails =>
              rw [Bool.and_eq_true, Bool.not_eq_true'] at hfails
              exact hops hpc (.waitThrows hfails.1)
          · exact hops hpc .wake
      | entry =>
          simp only [hpc, Option.some.injEq] at h
          subst h
          exact .monitorEnds hm hpc
      | ended =>
          simp only [hpc] at h
          cases h

/-- The step function, read. -/
theorem step_cases {cfg : Config} {s s' : State} {a : Action} (hs : Wired cfg s)
    (h : step cfg s a = some s') : Move cfg s a s' := by
  cases a with
  | tick d =>
      simp only [step, Option.some.injEq] at h
      subst h
      exact .tick d
  | call callable =>
      simp only [step, Option.some.injEq] at h
      subst h
      exact .call callable
  | callOn nodeNum callable =>
      simp only [step, Option.some.injEq] at h
      subst h
      exact .callOn nodeNum callable
  | locate k cpu nodeOfCpu strerror => exact locateStep_cases h
  | enqueue k pick => exact enqueueStep_cases h
  | start =>
      simp only [step] at h
      split at h
      · next o hc =>
          rw [Option.some.injEq] at h
          subst h
          exact .callsStart hc
      · cases h
  | stop p =>
      simp only [step] at h
      split at h
      · next o hc =>
          rw [Option.some.injEq] at h
          subst h
          exact .callsStop p hc
      · cases h
  | control creates timedOut =>
      simp only [step, controlStep] at h
      split at h
      · cases h
      · next pc hc => exact startStep_cases hc h
      · next p pc hc => exact stopStep_cases hs hc h
  | worker j throws => exact workerStep_cases hs h
  | bind j os => exact bindStep_cases hs h
  | spurious j => exact spuriousStep_cases h
  | monitor creates waitFails => exact monitorStep_cases h

end ThreadPool.Numa
