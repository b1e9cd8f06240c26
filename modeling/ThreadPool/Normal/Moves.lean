import ThreadPool.Lib.Census
import ThreadPool.Normal.Spawn

/-!
# What a step can do

The step function is read once, here, and turned into a relation with one
constructor for each thing that can happen: `LoopStep` for the body of
`WorkerLoop`, `Hop` and `MonitorHop` for the moves of the controlling and
the monitor thread that change nothing but their own program point, and
`Move` for everything. Every invariant of the pool is then a case analysis
on `Move`.

The reading needs three facts about the state a step starts from, which is
why `Wired` comes first: the thread in slot `j` captured index `j`, so the
slot it works on is its own; outside `Stop`'s closing phase every slot's
thread is in the state `Thread::Start` left it in, so the reuse loop of
`ExpandThreads` can only throw; and so is the one `Stop` is joining, so the
join does not throw. `Move` is derived from `Wired`, and `Wired` is then
shown to be kept by every `Move`.
-/

namespace ThreadPool.Normal

open Interleave

/-! ## The wiring of the pool -/

/-- How far the join loop of `Stop` has got, for a vector of `n` slots. -/
def Control.joinedUpTo (n : Nat) : Control → Nat
  | .stop _ (.join i) | .stop _ (.joining i) => i
  | .stop _ (.clear _) | .stop _ (.clearJoining _) | .stop _ .count
  | .stop _ .tasks => n
  | _ => 0

/-- What the controlling thread's program point says about `running_`. -/
def Control.runningIs : Control → Option Bool
  | .idle _ | .start .test | .stop _ .test => none
  | .start .store => some false
  | .start .create => some true
  | .stop _ .monitoring | .stop _ .notifyMonitor | .stop _ .joinMonitor
  | .stop _ .joiningMonitor | .stop _ .running => some true
  | .stop _ _ => some false

/-- The program points at which a pool that is not running has no workers. -/
def Control.resting : Control → Bool
  | .idle _ | .start .test | .start .store | .stop _ .test => true
  | _ => false

/-- The program points at which no monitor thread is alive although the pool
counts as running. -/
def Control.unmonitored : Control → Bool
  | .start .create | .stop _ .running => true
  | _ => false

/-- How slots, threads and program points hang together. -/
structure Wired (s : State) : Prop where
  index : ∀ j (w : Worker), s.workers[j]? = some w → w.native.index = j
  property : ∀ w ∈ s.workers, w.property.Started ∨
    (s.control.holdsWorkerMutex = true ∧ w.native.pc.isEnded = true ∧
      w.property.threadState = .terminated)
  joining : ∀ p i (w : Worker), s.control = .stop p (.joining i) →
    s.workers[i]? = some w → w.property.Started
  joined : ∀ j (w : Worker), s.workers[j]? = some w →
    j < s.control.joinedUpTo s.workers.length → w.native.pc.isEnded = true
  emptied : ∀ p, s.control = .stop p .count ∨ s.control = .stop p .tasks →
    s.workers = []
  runFlag : ∀ b, s.control.runningIs = some b → s.sh.running = b
  resting : s.control.resting = true → s.sh.running = false → s.workers = []
  monitor : ∀ m, s.monitorThread = some m →
    m.property.Started ∨ m.property.isJoinable = false ∧ m.pc = .ended
  unmonitored : s.sh.running = false ∨ s.control.unmonitored = true →
    ∀ m, s.monitorThread = some m → m.pc = .ended

theorem Wired.running_at {s : State} {c : Control} {b : Bool} (hs : Wired s)
    (hc : s.control = c) (h : c.runningIs = some b) : s.sh.running = b := by
  rw [← hc] at h
  exact hs.runFlag b h

/-- While nobody is joining, every slot's thread can be joined and cannot be
started. -/
theorem Wired.started {s : State} (hw : Wired s)
    (hfree : s.workerMutexFree = true) : ∀ w ∈ s.workers, w.property.Started := by
  intro w hmem
  rcases hw.property w hmem with hstarted | ⟨hholds, -⟩
  · exact hstarted
  · rw [State.workerMutexFree, hholds] at hfree
    simp at hfree

/-! ## The body of `WorkerLoop` -/

/-- One step of a thread inside `WorkerLoop`. -/
inductive LoopStep (sh : Shared) (free : Bool) (self : Nat) (throws : Bool) :
    WorkerPc → Flags → Shared → WorkerPc → Flags → Prop where
  | setValid {fl : Flags} :
      LoopStep sh free self throws .setValid fl sh .fetchAdd
        { fl with isValid := true }
  | fetchAdd {fl : Flags} :
      LoopStep sh free self throws .fetchAdd fl
        { sh with validThreadCount := sh.validThreadCount + 1 } .testExit fl
  | marked {fl : Flags} (hexit : fl.shouldExit = true) :
      LoopStep sh free self throws .testExit fl sh .clearValid fl
  | unmarked {fl : Flags} (hexit : fl.shouldExit = false) :
      LoopStep sh free self throws .testExit fl sh .testRunning fl
  | stopped {fl : Flags} (hrunning : sh.running = false) :
      LoopStep sh free self throws .testRunning fl sh .clearValid fl
  | goesOn {fl : Flags} (hrunning : sh.running = true) :
      LoopStep sh free self throws .testRunning fl sh .setIdle fl
  | setIdle {fl : Flags} :
      LoopStep sh free self throws .setIdle fl sh .setIdleTime
        { fl with isIdle := true }
  | setIdleTime {fl : Flags} :
      LoopStep sh free self throws .setIdleTime fl sh .wait
        { fl with idleTimeStart := sh.clock }
  | passes {pc : WorkerPc} {fl : Flags} (hpc : pc = .wait ∨ pc = .blocked true)
      (hfree : free = true) (hpred : waitPredicate sh fl = true) :
      LoopStep sh free self throws pc fl sh .clearIdle fl
  | sleeps {pc : WorkerPc} {fl : Flags} (hpc : pc = .wait ∨ pc = .blocked true)
      (hfree : free = true) (hpred : waitPredicate sh fl = false) :
      LoopStep sh free self throws pc fl sh .window fl
  | blocks {fl : Flags} :
      LoopStep sh free self throws .window fl sh (.blocked false) fl
  | clearIdle {fl : Flags} :
      LoopStep sh free self throws .clearIdle fl sh .pop { fl with isIdle := false }
  | misses {fl : Flags} (hfree : free = true) (htasks : sh.tasks = []) :
      LoopStep sh free self throws .pop fl sh (.holding none) fl
  | pops {fl : Flags} (t : Task) (rest : List Task) (hfree : free = true)
      (htasks : sh.tasks = t :: rest) :
      LoopStep sh free self throws .pop fl
        { sh with tasks := rest, hist := sh.hist ++ [.take self t] }
        (.holding (some t)) fl
  | nothing {fl : Flags} :
      LoopStep sh free self throws (.holding none) fl sh .testExit fl
  | starts {fl : Flags} (t : Task) (hcall : t.callable = true) :
      LoopStep sh free self throws (.holding (some t)) fl
        { sh with hist := sh.hist ++ [.start self t] } (.running t) fl
  | drops {fl : Flags} (t : Task) (hcall : t.callable = false) :
      LoopStep sh free self throws (.holding (some t)) fl
        { sh with hist := sh.hist ++ [.drop self t] } .testExit fl
  | returns {fl : Flags} (t : Task) (hthrows : throws = false) :
      LoopStep sh free self throws (.running t) fl
        { sh with hist := sh.hist ++ [.finish self t] } .testExit fl
  | throws {fl : Flags} (t : Task) (hthrows : throws = true) :
      LoopStep sh free self throws (.running t) fl
        { sh with hist := sh.hist ++ [.finish self t] } (.entry true) fl
  | clearValid {fl : Flags} :
      LoopStep sh free self throws .clearValid fl sh .exitIdle
        { fl with isValid := false }
  | exitIdle {fl : Flags} :
      LoopStep sh free self throws .exitIdle fl sh .fetchSub
        { fl with isIdle := false }
  | fetchSub {fl : Flags} :
      LoopStep sh free self throws .fetchSub fl
        { sh with validThreadCount := ThreadPool.fetchSub sh.validThreadCount }
        (.entry false) fl

theorem evaluate_cases {sh sh' : Shared} {free throws : Bool} {self : Nat}
    {pc pc' : WorkerPc} {fl fl' : Flags}
    (hpc : pc = .wait ∨ pc = .blocked true)
    (h : evaluate sh free fl = some (sh', pc', fl')) :
    LoopStep sh free self throws pc fl sh' pc' fl' := by
  unfold evaluate at h
  split at h
  · next hfree =>
      simp only [Option.some.injEq, Prod.mk.injEq] at h
      obtain ⟨rfl, rfl, rfl⟩ := h
      split
      · next hpred => exact .passes hpc hfree hpred
      · next hpred => exact .sleeps hpc hfree (by simpa using hpred)
  · cases h

theorem workerLoop_cases {sh sh' : Shared} {free throws : Bool} {self : Nat}
    {pc pc' : WorkerPc} {fl fl' : Flags}
    (h : workerLoop sh free self throws pc fl = some (sh', pc', fl')) :
    LoopStep sh free self throws pc fl sh' pc' fl' := by
  cases pc with
  | wait => exact evaluate_cases (Or.inl rfl) h
  | blocked signalled =>
      cases signalled with
      | true => exact evaluate_cases (Or.inr rfl) h
      | false => cases h
  | registration | entry _ | ended _ => cases h
  | setValid | fetchAdd | setIdle | setIdleTime | window | clearIdle
  | clearValid | exitIdle | fetchSub =>
      simp only [workerLoop, Option.some.injEq, Prod.mk.injEq] at h
      obtain ⟨rfl, rfl, rfl⟩ := h
      constructor
  | testExit =>
      simp only [workerLoop, Option.some.injEq, Prod.mk.injEq] at h
      obtain ⟨rfl, rfl, rfl⟩ := h
      split
      · next hexit => exact .marked hexit
      · next hexit => exact .unmarked (by simpa using hexit)
  | testRunning =>
      simp only [workerLoop, Option.some.injEq, Prod.mk.injEq] at h
      obtain ⟨rfl, rfl, rfl⟩ := h
      split
      · next hrun => exact .goesOn hrun
      · next hrun => exact .stopped (by simpa using hrun)
  | pop =>
      simp only [workerLoop] at h
      split at h
      · next hfree =>
          split at h
          · next htasks =>
              simp only [Option.some.injEq, Prod.mk.injEq] at h
              obtain ⟨rfl, rfl, rfl⟩ := h
              exact .misses hfree htasks
          · next t rest htasks =>
              simp only [Option.some.injEq, Prod.mk.injEq] at h
              obtain ⟨rfl, rfl, rfl⟩ := h
              exact .pops t rest hfree htasks
      · cases h
  | holding task =>
      cases task with
      | none =>
          simp only [workerLoop, Option.some.injEq, Prod.mk.injEq] at h
          obtain ⟨rfl, rfl, rfl⟩ := h
          exact .nothing
      | some t =>
          simp only [workerLoop] at h
          split at h
          · next hcall =>
              simp only [Option.some.injEq, Prod.mk.injEq] at h
              obtain ⟨rfl, rfl, rfl⟩ := h
              exact .starts t hcall
          · next hcall =>
              simp only [Option.some.injEq, Prod.mk.injEq] at h
              obtain ⟨rfl, rfl, rfl⟩ := h
              exact .drops t (by simpa using hcall)
  | running t =>
      simp only [workerLoop, Option.some.injEq, Prod.mk.injEq] at h
      obtain ⟨rfl, rfl, rfl⟩ := h
      split
      · next hthrows => exact .throws t hthrows
      · next hthrows => exact .returns t (by simpa using hthrows)

/-! ## Moves of a program point alone -/

/-- The moves of the controlling thread that change nothing else. -/
inductive Hop (s : State) : Control → Control → Prop where
  | alreadyRunning (hrunning : s.sh.running = true) :
      Hop s (.start .test)
        (.idle (.threw (.runtimeError "Thread pool is already running")))
  | mayStart (hrunning : s.sh.running = false) :
      Hop s (.start .test) (.start .store)
  | notRunning {p : ShutdownPolicy} (hrunning : s.sh.running = false) :
      Hop s (.stop p .test)
        (.idle (.threw (.runtimeError "Thread pool is not running")))
  | mayStop {p : ShutdownPolicy} (hrunning : s.sh.running = true) :
      Hop s (.stop p .test) (.stop p .monitoring)
  | notifyMonitor {p : ShutdownPolicy} :
      Hop s (.stop p .notifyMonitor) (.stop p .joinMonitor)
  | joinMonitor {p : ShutdownPolicy} {m : Monitor}
      (hm : s.monitorThread = some m) (hjoin : m.property.isJoinable = true) :
      Hop s (.stop p .joinMonitor) (.stop p .joiningMonitor)
  | noMonitor {p : ShutdownPolicy}
      (hm : ∀ m, s.monitorThread = some m → m.property.isJoinable = false) :
      Hop s (.stop p .joinMonitor) (.stop p .running)
  | joinMonitorThrows {p : ShutdownPolicy} (e : Exn) :
      Hop s (.stop p .joiningMonitor) (.idle (.threw e))
  | waits {p : ShutdownPolicy} : Hop s (.stop p .wait) (.stop p .wait)
  | waited {p : ShutdownPolicy} (hdone : p = .waitForAll → s.sh.tasks = []) :
      Hop s (.stop p .wait) (.stop p .lock)
  | lock {p : ShutdownPolicy} (hfree : s.workerMutexFree = true) :
      Hop s (.stop p .lock) (.stop p (.join 0))
  | joins {p : ShutdownPolicy} {i : Nat} {w : Worker}
      (hw : s.workers[i]? = some w) (hjoin : w.property.isJoinable = true) :
      Hop s (.stop p (.join i)) (.stop p (.joining i))
  | skips {p : ShutdownPolicy} {i : Nat} {w : Worker}
      (hw : s.workers[i]? = some w) (hjoin : w.property.isJoinable = false) :
      Hop s (.stop p (.join i)) (.stop p (.join (i + 1)))
  | joinsDone {p : ShutdownPolicy} {i : Nat} (hi : s.workers.length ≤ i) :
      Hop s (.stop p (.join i)) (.stop p (.clear 0))
  | destroys {p : ShutdownPolicy} {i : Nat} :
      Hop s (.stop p (.clear i)) (.stop p (.clear (i + 1)))
  | destroyJoins {p : ShutdownPolicy} {i : Nat} {w : Worker}
      (hw : s.workers[i]? = some w) (hjoin : w.property.isJoinable = true) :
      Hop s (.stop p (.clear i)) (.stop p (.clearJoining i))

/-- The moves of the monitor thread that change nothing else. -/
inductive MonitorHop (cfg : Config) (s : State) : MonitorPc → MonitorPc → Prop where
  | monitoring (hmon : s.sh.monitoring = true) :
      MonitorHop cfg s .testMonitoring .testRunning
  | unmonitoring (hmon : s.sh.monitoring = false) :
      MonitorHop cfg s .testMonitoring .entry
  | running (hrunning : s.sh.running = true) :
      MonitorHop cfg s .testRunning .shrinkLoad
  | notRunning (hrunning : s.sh.running = false) :
      MonitorHop cfg s .testRunning .entry
  | noShrink (hcount : s.sh.validThreadCount ≤ cfg.minThreads) :
      MonitorHop cfg s .shrinkLoad .countTasks
  | shrink (hcount : cfg.minThreads < s.sh.validThreadCount) :
      MonitorHop cfg s .shrinkLoad
        (.shrinkNow (s.sh.validThreadCount - cfg.minThreads))
  | readClock {need : Nat} :
      MonitorHop cfg s (.shrinkNow need) (.shrinkLock need s.sh.clock)
  | lock {need now : Nat} (hfree : s.workerMutexFree = true) :
      MonitorHop cfg s (.shrinkLock need now) (.shrinkMark need now 0 0)
  | passOver {need now removed i : Nat} {w : Worker}
      (hw : s.workers[i]? = some w) (hneed : removed < need)
      (hexp : Flags.expired now w.flags = false) :
      MonitorHop cfg s (.shrinkMark need now removed i)
        (.shrinkMark need now removed (i + 1))
  | marksDone {need now removed i : Nat} :
      MonitorHop cfg s (.shrinkMark need now removed i) .shrinkNotify
  | countTasks : MonitorHop cfg s .countTasks (.countThreads s.sh.tasks.length)
  | mayExpand {n : Nat} (hn : s.sh.validThreadCount * expandThreshold < n) :
      MonitorHop cfg s (.countThreads n) .expandLoad
  | mayNotExpand {n : Nat} (hn : n ≤ s.sh.validThreadCount * expandThreshold) :
      MonitorHop cfg s (.countThreads n) .adjust
  | noExpand (hneed : expandNeed cfg s.sh.validThreadCount = none) :
      MonitorHop cfg s .expandLoad .adjust
  | expand {need : Nat} (hneed : expandNeed cfg s.sh.validThreadCount = some need) :
      MonitorHop cfg s .expandLoad (.expandLock need)
  | adjust : MonitorHop cfg s .adjust .waitFor
  | wake : MonitorHop cfg s .waitFor .testMonitoring
  | waitThrows (hwakes : s.wakes = false) : MonitorHop cfg s .waitFor .entry

/-! ## All moves -/

/-- The state with another worker in slot `j`. -/
def State.put (s : State) (j : Nat) (w : Worker) : State :=
  { s with workers := s.workers.set j w }

/-- A worker whose thread moved on. -/
def Worker.goto (w : Worker) (pc : WorkerPc) : Worker := { w with native.pc := pc }

/-- Everything one step can do, given `Wired`. -/
inductive Move (cfg : Config) (s : State) : Action → State → Prop where
  | tick (d : Nat) : Move cfg s (.tick d) { s with sh.clock := s.sh.clock + d }
  | call (callable : Bool) :
      Move cfg s (.call callable)
        { s with calls := s.calls ++ [{ task := ⟨s.calls.length, callable⟩ }] }
  | rejected {k : Nat} {pick : Option Nat} {c : Call}
      (hc : s.calls[k]? = some c) (hpc : c.pc = .test)
      (hrunning : s.sh.running = false) :
      Move cfg s (.enqueue k pick)
        { s with
          calls := s.calls.set k { c with
            pc := .threw (.runtimeError "Thread pool is not running") } }
  | accepted {k : Nat} {pick : Option Nat} {c : Call}
      (hc : s.calls[k]? = some c) (hpc : c.pc = .test)
      (hrunning : s.sh.running = true) :
      Move cfg s (.enqueue k pick)
        { s with calls := s.calls.set k { c with pc := .push } }
  | pushes {k : Nat} {pick : Option Nat} {c : Call}
      (hc : s.calls[k]? = some c) (hpc : c.pc = .push)
      (hfree : s.globalMutexFree = true) :
      Move cfg s (.enqueue k pick)
        { s with
          sh.tasks := s.sh.tasks ++ [c.task]
          sh.hist := s.sh.hist ++ [WorkEvent.accept c.task]
          calls := s.calls.set k { c with pc := .notify } }
  | notifies {k i : Nat} {c : Call} {w : Worker} (hc : s.calls[k]? = some c)
      (hpc : c.pc = .notify) (hw : s.workers[i]? = some w)
      (hblocked : w.native.pc = .blocked false) :
      Move cfg s (.enqueue k (some i))
        { s with
          workers := s.workers.set i (w.goto (.blocked true))
          calls := s.calls.set k { c with pc := .hint } }
  | notifiesNobody {k : Nat} {c : Call} (hc : s.calls[k]? = some c)
      (hpc : c.pc = .notify) (hnone : ∀ w ∈ s.workers, w.native.pc ≠ .blocked false) :
      Move cfg s (.enqueue k none)
        { s with calls := s.calls.set k { c with pc := .hint } }
  | hints {k : Nat} {pick : Option Nat} {c : Call}
      (hc : s.calls[k]? = some c) (hpc : c.pc = .hint) :
      Move cfg s (.enqueue k pick)
        { s with calls := s.calls.set k { c with pc := .returned } }
  | registers {j : Nat} {throws : Bool} {w : Worker} (hw : s.workers[j]? = some w)
      (hpc : w.native.pc = .registration) (hfree : s.workerMutexFree = true) :
      Move cfg s (.worker j throws) (s.put j (w.goto .setValid))
  | loops {j : Nat} {throws : Bool} {w : Worker} {sh : Shared} {pc : WorkerPc}
      {fl : Flags} (hw : s.workers[j]? = some w)
      (hstep : LoopStep s.sh s.globalMutexFree w.native.self throws w.native.pc
        w.flags sh pc fl) :
      Move cfg s (.worker j throws)
        ({ s with sh := sh }.put j ({ w with flags := fl }.goto pc))
  | ends {j : Nat} {throws threw : Bool} {w : Worker} (hw : s.workers[j]? = some w)
      (hpc : w.native.pc = .entry threw) :
      Move cfg s (.worker j throws)
        (s.put j ({ w with property := w.property.threadEntry }.goto (.ended threw)))
  | spurious {j : Nat} {w : Worker} (hw : s.workers[j]? = some w)
      (hblocked : w.native.pc = .blocked false) :
      Move cfg s (.spurious j) (s.put j (w.goto (.blocked true)))
  | callsStart {o : Outcome} (hc : s.control = .idle o) :
      Move cfg s .start (s.goto (.start .test))
  | callsStop {o : Outcome} (p : ShutdownPolicy) (hc : s.control = .idle o) :
      Move cfg s (.stop p) (s.goto (.stop p .test))
  | hop {creates : Creates} {timedOut : Bool} {c : Control}
      (hhop : Hop s s.control c) :
      Move cfg s (.control creates timedOut) (s.goto c)
  | storeRunning {creates : Creates} {timedOut : Bool}
      (hc : s.control = .start .store) :
      Move cfg s (.control creates timedOut)
        { s with sh.running := true, control := .start .create }
  | startFails {creates : Creates} {timedOut : Bool} (n : Nat) (e : Exn)
      (hc : s.control = .start .create) (hfree : s.workerMutexFree = true)
      (hn : n ≤ cfg.minThreads) :
      Move cfg s (.control creates timedOut)
        { s with
          workers := s.workers ++ freshWorkers s.workers.length s.nextHandle n
          nextHandle := s.nextHandle + n
          control := .idle (.threw e) }
  | startUnmonitored {creates : Creates} {timedOut : Bool} (e : Exn)
      (hc : s.control = .start .create) (hfree : s.workerMutexFree = true) :
      Move cfg s (.control creates timedOut)
        { s with
          sh.monitoring := true
          workers := s.workers ++
            freshWorkers s.workers.length s.nextHandle cfg.minThreads
          nextHandle := s.nextHandle + cfg.minThreads
          monitorThread := some { property := {}, pc := .ended }
          control := .idle (.threw e) }
  | starts {creates : Creates} {timedOut : Bool}
      (hc : s.control = .start .create) (hfree : s.workerMutexFree = true) :
      Move cfg s (.control creates timedOut)
        { s with
          sh.monitoring := true
          workers := s.workers ++
            freshWorkers s.workers.length s.nextHandle cfg.minThreads
          nextHandle := s.nextHandle + cfg.minThreads + 1
          monitorThread := some
            { property :=
                { threadHandle := s.nextHandle + cfg.minThreads
                  threadState := .joinable }
              pc := .testMonitoring }
          control := .idle .returned }
  | clearMonitoring {creates : Creates} {timedOut : Bool} {p : ShutdownPolicy}
      (hc : s.control = .stop p .monitoring) :
      Move cfg s (.control creates timedOut)
        { s with sh.monitoring := false, control := .stop p .notifyMonitor }
  | joinsMonitor {creates : Creates} {timedOut : Bool} {p : ShutdownPolicy}
      {m : Monitor} (hc : s.control = .stop p .joiningMonitor)
      (hm : s.monitorThread = some m) (hended : m.pc = .ended) :
      Move cfg s (.control creates timedOut)
        { s with monitorThread := none, control := .stop p .running }
  | clearRunning {creates : Creates} {timedOut : Bool} {p : ShutdownPolicy}
      (hc : s.control = .stop p .running) :
      Move cfg s (.control creates timedOut)
        { s with sh.running := false, control := .stop p .notifyAll }
  | notifiesAll {creates : Creates} {timedOut : Bool} {p : ShutdownPolicy}
      (hc : s.control = .stop p .notifyAll) :
      Move cfg s (.control creates timedOut)
        { s with workers := notifyAll s.workers, control := .stop p .wait }
  | joined {creates : Creates} {timedOut : Bool} {p : ShutdownPolicy} {i : Nat}
      {w : Worker} (hc : s.control = .stop p (.joining i))
      (hw : s.workers[i]? = some w) (hended : w.native.pc.isEnded = true) :
      Move cfg s (.control creates timedOut)
        { s with
          workers := s.workers.set i w.joined
          control := .stop p (.join (i + 1)) }
  | destroyJoined {creates : Creates} {timedOut : Bool} {p : ShutdownPolicy}
      {i : Nat} {w : Worker} (hc : s.control = .stop p (.clearJoining i))
      (hw : s.workers[i]? = some w) (hended : w.native.pc.isEnded = true) :
      Move cfg s (.control creates timedOut)
        { s with
          workers := s.workers.set i { w with property := w.property.joinLeave }
          control := .stop p (.clear (i + 1)) }
  | cleared {creates : Creates} {timedOut : Bool} {p : ShutdownPolicy} {i : Nat}
      (hc : s.control = .stop p (.clear i)) :
      Move cfg s (.control creates timedOut)
        { s with workers := [], control := .stop p .count }
  | resetCount {creates : Creates} {timedOut : Bool} {p : ShutdownPolicy}
      (hc : s.control = .stop p .count) :
      Move cfg s (.control creates timedOut)
        { s with sh.validThreadCount := 0, control := .stop p .tasks }
  | clearTasks {creates : Creates} {timedOut : Bool} {p : ShutdownPolicy}
      (hc : s.control = .stop p .tasks) (hfree : s.globalMutexFree = true) :
      Move cfg s (.control creates timedOut)
        { s with
          sh.tasks := []
          sh.hist := s.sh.hist ++ s.sh.tasks.map WorkEvent.discard
          control := .idle .returned }
  | monitorHop {creates : Creates} {waitFails : Bool} {m : Monitor} {pc : MonitorPc}
      (hm : s.monitorThread = some m) (hhop : MonitorHop cfg s m.pc pc) :
      Move cfg s (.monitor creates waitFails) (s.monitorGoto m pc)
  | marks {creates : Creates} {waitFails : Bool} {m : Monitor}
      {need now removed i : Nat} {w : Worker} (hm : s.monitorThread = some m)
      (hpc : m.pc = .shrinkMark need now removed i)
      (hw : s.workers[i]? = some w) (hneed : removed < need)
      (hexp : Flags.expired now w.flags = true) :
      Move cfg s (.monitor creates waitFails)
        ((s.put i { w with flags.shouldExit := true }).monitorGoto m
          (.shrinkMark need now (removed + 1) (i + 1)))
  | shrinkNotifies {creates : Creates} {waitFails : Bool} {m : Monitor}
      (hm : s.monitorThread = some m) (hpc : m.pc = .shrinkNotify) :
      Move cfg s (.monitor creates waitFails)
        ({ s with workers := notifyAll s.workers }.monitorGoto m .countTasks)
  | expandThrows {creates : Creates} {waitFails : Bool} {m : Monitor} {need i : Nat}
      {w : Worker} (hm : s.monitorThread = some m) (hpc : m.pc = .expandLock need)
      (hfree : s.workerMutexFree = true) (hw : s.workers[i]? = some w)
      (hinvalid : w.flags.isValid = false) :
      Move cfg s (.monitor creates waitFails)
        ((s.put i { w with flags.shouldExit := false }).monitorGoto m .entry)
  | expands {creates : Creates} {waitFails : Bool} {m : Monitor} {need : Nat}
      {pc : MonitorPc} (n : Nat) (hm : s.monitorThread = some m)
      (hpc : m.pc = .expandLock need)
      (hfree : s.workerMutexFree = true)
      (hlen : s.workers.length ≤ cfg.maxThreads →
        s.workers.length + n ≤ cfg.maxThreads)
      (hnext : pc = .adjust ∨ pc = .entry) :
      Move cfg s (.monitor creates waitFails)
        ({ s with
            workers := s.workers ++ freshWorkers s.workers.length s.nextHandle n
            nextHandle := s.nextHandle + n }.monitorGoto m pc)
  | monitorEnds {creates : Creates} {waitFails : Bool} {m : Monitor}
      (hm : s.monitorThread = some m) (hpc : m.pc = .entry) :
      Move cfg s (.monitor creates waitFails)
        (s.monitorGoto { m with property := m.property.threadEntry } .ended)

/-! ## Reading the step function -/

theorem callGoto_eq {s : State} {k : Nat} {c : Call} {pc : CallPc}
    (hc : s.calls[k]? = some c) :
    s.callGoto k pc = { s with calls := s.calls.set k { c with pc := pc } } := by
  rw [State.callGoto, modify_eq_set_of_getElem? hc]

theorem workerGoto_eq {s : State} {j : Nat} {w : Worker} {pc : WorkerPc}
    (hw : s.workers[j]? = some w) : s.workerGoto j pc = s.put j (w.goto pc) := by
  rw [State.workerGoto, modify_eq_set_of_getElem? hw]
  rfl

theorem setFlags_eq {s : State} {i : Nat} {w : Worker} {fl : Flags}
    (hw : s.workers[i]? = some w) :
    s.setFlags i fl = s.put i { w with flags := fl } := by
  rw [State.setFlags, modify_eq_set_of_getElem? hw]
  rfl

theorem notifyOne_cases {ws ws' : List Worker} {pick : Option Nat}
    (h : notifyOne ws pick = some ws') :
    (pick = none ∧ ws' = ws ∧ ∀ w ∈ ws, w.native.pc ≠ .blocked false) ∨
      ∃ i w, pick = some i ∧ ws[i]? = some w ∧ w.native.pc = .blocked false ∧
        ws' = ws.set i (w.goto (.blocked true)) := by
  unfold notifyOne at h
  split at h
  · split at h
    · next hall =>
        rw [Option.some.injEq] at h
        exact Or.inl ⟨rfl, h.symm, by simpa using hall⟩
    · cases h
  · next i =>
      split at h
      · next w hw =>
          split at h
          · next hblocked =>
              rw [Option.some.injEq] at h
              exact Or.inr ⟨i, w, rfl, hw, hblocked, h.symm⟩
          · cases h
      · cases h

theorem enqueueStep_cases {cfg : Config} {s s' : State} {k : Nat}
    {pick : Option Nat} (h : enqueueStep s k pick = some s') :
    Move cfg s (.enqueue k pick) s' := by
  unfold enqueueStep at h
  split at h
  · cases h
  · next c hc =>
      split at h
      · next hpc =>
          rw [Option.some.injEq, callGoto_eq hc] at h
          subst h
          split
          · next hrun => exact .accepted hc hpc hrun
          · next hrun => exact .rejected hc hpc (by simpa using hrun)
      · next hpc =>
          split at h
          · next hfree =>
              rw [Option.some.injEq, callGoto_eq (by exact hc)] at h
              subst h
              exact .pushes hc hpc hfree
          · cases h
      · next hpc =>
          split at h
          · next ws hws =>
              rw [Option.some.injEq, callGoto_eq (by exact hc)] at h
              subst h
              rcases notifyOne_cases hws with ⟨rfl, rfl, hnone⟩ |
                ⟨i, w, rfl, hw, hblocked, rfl⟩
              · exact .notifiesNobody hc hpc hnone
              · exact .notifies hc hpc hw hblocked
          · cases h
      · next hpc =>
          rw [Option.some.injEq, callGoto_eq hc] at h
          subst h
          exact .hints hc hpc
      · cases h
      · cases h

theorem boundStep_eq {s : State} {j : Nat} {throws : Bool} {w : Worker} {sh : Shared}
    {pc : WorkerPc} {fl : Flags} (hw : s.workers[j]? = some w)
    (hindex : w.native.index = j)
    (hloop : workerLoop s.sh s.globalMutexFree w.native.self throws w.native.pc w.flags =
      some (sh, pc, fl)) :
    boundStep s j w throws =
      some ({ s with sh := sh }.put j ({ w with flags := fl }.goto pc)) := by
  obtain ⟨hlt, -⟩ := List.getElem?_eq_some_iff.mp hw
  unfold boundStep
  rw [hindex, hw]
  dsimp only
  rw [hloop]
  dsimp only
  rw [setFlags_eq (s := { s with sh := sh }) hw,
    workerGoto_eq (w := { w with flags := fl }) (by simp [State.put, hlt])]
  simp [State.put]

theorem boundStep_cases {cfg : Config} {s s' : State} {j : Nat} {throws : Bool}
    {w : Worker} (hw : s.workers[j]? = some w) (hindex : w.native.index = j)
    (h : boundStep s j w throws = some s') : Move cfg s (.worker j throws) s' := by
  cases hloop : workerLoop s.sh s.globalMutexFree w.native.self throws w.native.pc
      w.flags with
  | none =>
      unfold boundStep at h
      rw [hindex, hw] at h
      dsimp only at h
      rw [hloop] at h
      cases h
  | some result =>
      obtain ⟨sh, pc, fl⟩ := result
      rw [boundStep_eq hw hindex hloop, Option.some.injEq] at h
      subst h
      exact .loops hw (workerLoop_cases hloop)

theorem workerStep_cases {cfg : Config} {s s' : State} {j : Nat} {throws : Bool}
    (hs : Wired s) (h : workerStep s j throws = some s') :
    Move cfg s (.worker j throws) s' := by
  unfold workerStep at h
  split at h
  · cases h
  · next w hw =>
      have hindex := hs.index j w hw
      obtain ⟨hlt, -⟩ := List.getElem?_eq_some_iff.mp hw
      split at h
      · next hpc =>
          split at h
          · next hfree =>
              rw [hindex, if_pos hlt, Option.some.injEq, workerGoto_eq hw] at h
              subst h
              exact .registers hw hpc hfree
          · cases h
      · next threw hpc =>
          rw [Option.some.injEq, modify_eq_set_of_getElem? hw] at h
          subst h
          exact .ends hw hpc
      · cases h
      · exact boundStep_cases hw hindex h

theorem startSection_cases {cfg : Config} {s : State} {creates : Creates}
    {timedOut : Bool} (hc : s.control = .start .create)
    (hfree : s.workerMutexFree = true) :
    Move cfg s (.control creates timedOut) (startSection cfg s creates) := by
  have happ := startWorkers_appends (List.range cfg.minThreads)
    ⟨s.workers, s.nextHandle, creates, 0, none⟩
  have hle := startWorkers_created_le (List.range cfg.minThreads)
    ⟨s.workers, s.nextHandle, creates, 0, none⟩
  have hall := startWorkers_created (List.range cfg.minThreads)
    ⟨s.workers, s.nextHandle, creates, 0, none⟩
  unfold startSection
  generalize (List.range cfg.minThreads).foldl (fun sp _ => appendWorker sp)
    ⟨s.workers, s.nextHandle, creates, 0, none⟩ = sp at happ hle hall
  obtain ⟨n, hws, hnext, hcreated⟩ := happ
  dsimp only at hws hnext hcreated ⊢
  cases hexn : sp.exn with
  | some e =>
      dsimp only
      rw [hws, hnext]
      refine .startFails n e hc hfree ?_
      rw [List.length_range] at hle
      dsimp only at hle
      omega
  | none =>
      have hn : n = cfg.minThreads := by
        have hlen := hall hexn
        rw [List.length_range] at hlen
        dsimp only at hlen
        omega
      subst hn
      simp only [ThreadProperty.start, Creates.pthreadCreate]
      by_cases havail : sp.creates.avail = 0
      · simp only [havail, if_true]
        rw [hws, hnext]
        exact .startUnmonitored _ hc hfree
      · simp only [havail, if_false]
        rw [hws, hnext]
        exact .starts hc hfree

theorem stopStep_cases {cfg : Config} {s s' : State} {creates : Creates}
    {timedOut : Bool} {p : ShutdownPolicy} {pc : StopPc} (hs : Wired s)
    (hc : s.control = .stop p pc) (h : stopStep s p timedOut pc = some s') :
    Move cfg s (.control creates timedOut) s' := by
  cases pc with
  | test =>
      simp only [stopStep, Option.some.injEq] at h
      subst h
      split
      · next hrun => exact .hop (by rw [hc]; exact .mayStop hrun)
      · next hrun => exact .hop (by rw [hc]; exact .notRunning (by simpa using hrun))
  | monitoring =>
      simp only [stopStep, Option.some.injEq] at h
      subst h
      exact .clearMonitoring hc
  | notifyMonitor =>
      simp only [stopStep, Option.some.injEq] at h
      subst h
      exact .hop (by rw [hc]; exact .notifyMonitor)
  | joinMonitor =>
      simp only [stopStep, Option.some.injEq] at h
      subst h
      refine .hop ?_
      rw [hc]
      cases hm : s.monitorThread with
      | none => exact .noMonitor fun m hsome => by rw [hm] at hsome; cases hsome
      | some m =>
          simp only [Option.any_some]
          split
          · next hjoin => exact .joinMonitor hm hjoin
          · next hjoin =>
              refine .noMonitor fun m' hsome => ?_
              rw [hm, Option.some.injEq] at hsome
              rw [← hsome]
              simpa using hjoin
  | joiningMonitor =>
      simp only [stopStep] at h
      split at h
      · cases h
      · next m hm =>
          split at h
          · next e _ =>
              rw [Option.some.injEq] at h
              subst h
              exact .hop (by rw [hc]; exact .joinMonitorThrows e)
          · split at h
            · next hended =>
                rw [Option.some.injEq] at h
                subst h
                exact .joinsMonitor hc hm hended
            · cases h
  | running =>
      simp only [stopStep, Option.some.injEq] at h
      subst h
      exact .clearRunning hc
  | notifyAll =>
      simp only [stopStep, Option.some.injEq] at h
      subst h
      exact .notifiesAll hc
  | wait =>
      simp only [stopStep] at h
      split at h
      · next hp =>
          rw [Option.some.injEq] at h
          subst h
          refine .hop ?_
          rw [hc]
          exact .waited fun hall => by rw [hall] at hp; cases hp
      · split at h
        · rw [Option.some.injEq] at h
          subst h
          refine .hop ?_
          rw [hc]
          split
          · exact .waits
          · next hdone =>
              refine .waited fun hall => ?_
              subst hall
              simpa [stopWaits] using hdone
        · cases h
  | lock =>
      simp only [stopStep] at h
      split at h
      · next hfree =>
          rw [Option.some.injEq] at h
          subst h
          exact .hop (by rw [hc]; exact .lock hfree)
      · cases h
  | join i =>
      simp only [stopStep] at h
      split at h
      · next hnone =>
          rw [Option.some.injEq] at h
          subst h
          exact .hop (by
            rw [hc]; exact .joinsDone (List.getElem?_eq_none_iff.mp hnone))
      · next w hw =>
          rw [Option.some.injEq] at h
          subst h
          refine .hop ?_
          rw [hc]
          split
          · next hjoin => exact .joins hw hjoin
          · next hjoin => exact .skips hw (by simpa using hjoin)
  | joining i =>
      simp only [stopStep] at h
      split at h
      · cases h
      · next w hw =>
          rw [(hs.joining p i w hc hw).joinEnter] at h
          dsimp only at h
          split at h
          · next hended =>
              rw [Option.some.injEq] at h
              subst h
              exact .joined hc hw hended
          · cases h
  | clear i =>
      simp only [stopStep] at h
      split at h
      · rw [Option.some.injEq] at h
        subst h
        exact .cleared hc
      · next w hw =>
          split at h
          · rw [Option.some.injEq] at h
            subst h
            exact .hop (by rw [hc]; exact .destroys)
          · next hclean =>
              rw [Option.some.injEq] at h
              subst h
              refine .hop ?_
              rw [hc]
              refine .destroyJoins hw ?_
              rw [ThreadProperty.cleanup_eq] at hclean
              split at hclean
              · next hjoin => exact hjoin
              · cases hclean
          · cases h
  | clearJoining i =>
      simp only [stopStep] at h
      split at h
      · cases h
      · next w hw =>
          split at h
          · next hended =>
              rw [Option.some.injEq] at h
              subst h
              exact .destroyJoined hc hw hended
          · cases h
  | count =>
      simp only [stopStep, Option.some.injEq] at h
      subst h
      exact .resetCount hc
  | tasks =>
      simp only [stopStep] at h
      split at h
      · next hfree =>
          rw [Option.some.injEq] at h
          subst h
          exact .clearTasks hc hfree
      · cases h

theorem controlStep_cases {cfg : Config} {s s' : State} {creates : Creates}
    {timedOut : Bool} (hs : Wired s)
    (h : controlStep cfg s creates timedOut = some s') :
    Move cfg s (.control creates timedOut) s' := by
  unfold controlStep at h
  split at h
  · cases h
  · next pc hc =>
      cases pc with
      | test =>
          simp only [startStep, Option.some.injEq] at h
          subst h
          refine .hop ?_
          rw [hc]
          split
          · next hrun => exact .alreadyRunning hrun
          · next hrun => exact .mayStart (by simpa using hrun)
      | store =>
          simp only [startStep, Option.some.injEq] at h
          subst h
          exact .storeRunning hc
      | create =>
          simp only [startStep] at h
          split at h
          · next hfree =>
              rw [Option.some.injEq] at h
              subst h
              exact startSection_cases hc hfree
          · cases h
  · next p pc hc => exact stopStep_cases hs hc h

theorem expandLock_cases {cfg : Config} {s : State} {creates : Creates} {waitFails : Bool}
    {m : Monitor} {need : Nat} (hs : Wired s) (hm : s.monitorThread = some m)
    (hpc : m.pc = .expandLock need) (hfree : s.workerMutexFree = true) :
    Move cfg s (.monitor creates waitFails)
      ({ s with
          workers := (expandSection cfg need
            ⟨s.workers, s.nextHandle, creates, 0, none⟩).workers
          nextHandle := (expandSection cfg need
            ⟨s.workers, s.nextHandle, creates, 0, none⟩).nextHandle }.monitorGoto m
        (if (expandSection cfg need
            ⟨s.workers, s.nextHandle, creates, 0, none⟩).exn.isNone then .adjust
         else .entry)) := by
  rcases expandSection_outcome cfg need
      ⟨s.workers, s.nextHandle, creates, 0, none⟩ rfl
      (hs.started hfree) with ⟨i, w, -, hw, hinvalid, hthrow⟩ | ⟨-, happ⟩
  · rw [hthrow]
    exact .expandThrows hm hpc hfree hw hinvalid
  · rw [happ]
    have hlen := appendSlots_length_le cfg need (List.range need)
      ⟨s.workers, s.nextHandle, creates, 0, none⟩
    obtain ⟨n, hws, hnext, -⟩ := appendSlots_appends cfg need (List.range need)
      ⟨s.workers, s.nextHandle, creates, 0, none⟩
    rw [hws] at hlen ⊢
    rw [hnext]
    refine .expands n hm hpc hfree (fun h => ?_) ?_
    · simpa using hlen h
    · split
      · exact Or.inl rfl
      · exact Or.inr rfl

theorem monitorStep_cases {cfg : Config} {s s' : State} {creates : Creates} {waitFails : Bool}
    (hs : ∀ m need, s.monitorThread = some m → m.pc = .expandLock need → Wired s)
    (h : monitorStep cfg s creates waitFails = some s') :
    Move cfg s (.monitor creates waitFails) s' := by
  unfold monitorStep at h
  split at h
  · cases h
  · next m hm =>
      have hops : ∀ {pc pc' : MonitorPc}, m.pc = pc → MonitorHop cfg s pc pc' →
          Move cfg s (.monitor creates waitFails) (s.monitorGoto m pc') :=
        fun hpc hhop => .monitorHop hm (by rw [hpc]; exact hhop)
      cases hpc : m.pc with
      | testMonitoring =>
          simp only [hpc, Option.some.injEq] at h
          subst h
          split
          · next hmon => exact hops hpc (.monitoring hmon)
          · next hmon => exact hops hpc (.unmonitoring (by simpa using hmon))
      | testRunning =>
          simp only [hpc, Option.some.injEq] at h
          subst h
          split
          · next hrun => exact hops hpc (.running hrun)
          · next hrun => exact hops hpc (.notRunning (by simpa using hrun))
      | shrinkLoad =>
          simp only [hpc, Option.some.injEq] at h
          subst h
          unfold shrinkNeed
          by_cases hle : s.sh.validThreadCount ≤ cfg.minThreads
          · rw [if_pos hle]
            exact hops hpc (.noShrink hle)
          · rw [if_neg hle, if_neg (by omega)]
            exact hops hpc (.shrink (by omega))
      | shrinkNow need =>
          simp only [hpc, Option.some.injEq] at h
          subst h
          exact hops hpc .readClock
      | shrinkLock need now =>
          simp only [hpc] at h
          split at h
          · next hfree =>
              rw [Option.some.injEq] at h
              subst h
              exact hops hpc (.lock hfree)
          · cases h
      | shrinkMark need now removed i =>
          simp only [hpc] at h
          split at h
          · rw [Option.some.injEq] at h
            subst h
            exact hops hpc .marksDone
          · next w hw =>
              split at h
              · next hneed =>
                  split at h
                  · next hexp =>
                      rw [Option.some.injEq, setFlags_eq hw] at h
                      subst h
                      exact .marks hm hpc hw hneed hexp
                  · next hexp =>
                      rw [Option.some.injEq] at h
                      subst h
                      exact hops hpc (.passOver hw hneed (by simpa using hexp))
              · rw [Option.some.injEq] at h
                subst h
                exact hops hpc .marksDone
      | shrinkNotify =>
          simp only [hpc, Option.some.injEq] at h
          subst h
          exact .shrinkNotifies hm hpc
      | countTasks =>
          simp only [hpc] at h
          split at h
          · rw [Option.some.injEq] at h
            subst h
            exact hops hpc .countTasks
          · cases h
      | countThreads n =>
          simp only [hpc, Option.some.injEq] at h
          subst h
          split
          · next hn => exact hops hpc (.mayExpand hn)
          · next hn => exact hops hpc (.mayNotExpand (by omega))
      | expandLoad =>
          simp only [hpc, Option.some.injEq] at h
          subst h
          split
          · next hneed => exact hops hpc (.noExpand hneed)
          · next need hneed => exact hops hpc (.expand hneed)
      | expandLock need =>
          simp only [hpc] at h
          split at h
          · next hfree =>
              rw [Option.some.injEq] at h
              subst h
              exact expandLock_cases (hs m need hm hpc) hm hpc hfree
          · cases h
      | adjust =>
          simp only [hpc] at h
          split at h
          · rw [Option.some.injEq] at h
            subst h
            exact hops hpc .adjust
          · cases h
      | waitFor =>
          simp only [hpc, Option.some.injEq] at h
          subst h
          split
          · next hfails =>
              rw [Bool.and_eq_true, Bool.not_eq_true'] at hfails
              exact hops hpc (.waitThrows hfails.1)
          · exact hops hpc .wake
      | entry =>
          simp only [hpc, Option.some.injEq] at h
          subst h
          exact .monitorEnds hm hpc
      | ended =>
          simp only [hpc] at h
          cases h

theorem spuriousStep_cases {cfg : Config} {s s' : State} {j : Nat}
    (h : spuriousStep s j = some s') : Move cfg s (.spurious j) s' := by
  unfold spuriousStep at h
  split at h
  · cases h
  · next w hw =>
      split at h
      · next hblocked =>
          rw [Option.some.injEq, workerGoto_eq hw] at h
          subst h
          exact .spurious hw hblocked
      · cases h

/-- The step function, read. -/
theorem step_cases {cfg : Config} {s s' : State} {a : Action} (hs : Wired s)
    (h : step cfg s a = some s') : Move cfg s a s' := by
  cases a with
  | tick d =>
      simp only [step, Option.some.injEq] at h
      subst h
      exact .tick d
  | call callable =>
      simp only [step, Option.some.injEq] at h
      subst h
      exact .call callable
  | enqueue k pick => exact enqueueStep_cases h
  | start =>
      simp only [step] at h
      split at h
      · next o hc =>
          rw [Option.some.injEq] at h
          subst h
          exact .callsStart hc
      · cases h
  | stop p =>
      simp only [step] at h
      split at h
      · next o hc =>
          rw [Option.some.injEq] at h
          subst h
          exact .callsStop p hc
      · cases h
  | control creates timedOut => exact controlStep_cases hs h
  | worker j throws => exact workerStep_cases hs h
  | spurious j => exact spuriousStep_cases h
  | monitor creates waitFails => exact monitorStep_cases (fun _ _ _ _ => hs) h

end ThreadPool.Normal
