import ThreadPool.Basic
import ThreadPool.Lib.Machine

/-!
# `NormalThreadPool`, one step at a time

The pool as a machine. Its parties are the worker threads, the monitor
thread, any number of threads inside `Enqueue`, and the one controlling
thread that calls `Start` and `Stop`. Each party has a program point, named
after what the source does next there, and a step takes one party over one
atomic access or one critical section.

Two critical sections are not one step, because something else can happen
inside them. A worker that has found its wait predicate false still holds
`global_mutex_` until it blocks, so that point is a state of its own
(`window`). And `worker_mutex_` is held by `Stop` while it joins and by
`ShrinkThreads` while it marks. No field stores who holds a mutex: the
program points say it (`globalMutexFree`, `workerMutexFree`), and every
locked section asks.

A worker thread is stored in the slot whose `thread` started it, together
with the index its callable captured. The slot it works on is the one it
finds at that index.

What the model leaves out of the state is what nothing modelled reads:
`monitor_interval_` only bounds how long the monitor's timed wait may last,
and here it may last any time; `monitor_cond_` is notified for the same
wait.
-/

namespace ThreadPool.Normal

open Interleave

/-! ## The data -/

/-- The two bounds the constructor fixes. -/
structure Config where
  minThreads : Nat
  maxThreads : Nat
  min_le_max : minThreads ≤ maxThreads

/-- The bounds as the member initialisers compute them. -/
def Config.ofHardware (hardwareConcurrency : Nat) : Config where
  minThreads := hardwareConcurrency
  maxThreads := hardwareConcurrency * 2
  min_le_max := by omega

def expandFactor : Nat := 2
def expandThreshold : Nat := 5

/-- In seconds. -/
def idleThreshold : Nat := 10

/-- Where a worker thread stands. -/
inductive WorkerPc where
  /-- about to lock `worker_mutex_` and look for its slot -/
  | registration
  /-- about to store `is_valid = true` -/
  | setValid
  | fetchAdd
  /-- about to read `should_exit` in the loop condition -/
  | testExit
  /-- about to read `running_` in the loop condition -/
  | testRunning
  | setIdle
  | setIdleTime
  /-- about to lock `global_mutex_` and evaluate the wait predicate -/
  | wait
  /-- the predicate was false; holds `global_mutex_`, about to block -/
  | window
  /-- inside `pthread_cond_wait` -/
  | blocked (signalled : Bool)
  | clearIdle
  | pop
  /-- past the pop, about to test whether it got a task to call -/
  | holding (task : Option Task)
  | running (task : Task)
  /-- past the loop, about to store `is_valid = false` -/
  | clearValid
  | exitIdle
  | fetchSub
  /-- back in `ThreadEntry`, out of `WorkerLoop` by return or by exception -/
  | entry (threw : Bool)
  | ended (threw : Bool)
  deriving DecidableEq, Repr

/-- The native thread behind a slot: the index its callable captured, its
`pthread_self`, and its program point. -/
structure Native where
  index : Nat
  self : Nat
  pc : WorkerPc := .registration
  deriving DecidableEq, Repr

/-- `Worker`. -/
structure Worker where
  flags : Flags := {}
  property : ThreadProperty
  native : Native
  deriving DecidableEq, Repr

/-- Where the monitor thread stands. -/
inductive MonitorPc where
  | testMonitoring
  | testRunning
  | shrinkLoad
  | shrinkNow (need : Nat)
  | shrinkLock (need now : Nat)
  /-- in the marking loop of `ShrinkThreads`, at slot `i` -/
  | shrinkMark (need now removed i : Nat)
  | shrinkNotify
  | countTasks
  | countThreads (taskCount : Nat)
  | expandLoad
  | expandLock (need : Nat)
  | adjust
  | waitFor
  | entry
  | ended
  deriving DecidableEq, Repr

/-- The thread `monitor_thread_` points to. -/
structure Monitor where
  property : ThreadProperty
  pc : MonitorPc
  deriving DecidableEq, Repr

/-- Where a call of `Enqueue` stands. -/
inductive CallPc where
  | test
  | push
  | notify
  /-- reading the counts and notifying the monitor -/
  | hint
  | returned
  | threw (e : Exn)
  deriving DecidableEq, Repr

/-- A call of `Enqueue`. -/
structure Call where
  task : Task
  pc : CallPc := .test
  deriving DecidableEq, Repr

inductive StartPc where
  | test
  | store
  /-- about to lock `worker_mutex_` and create the threads -/
  | create
  deriving DecidableEq, Repr

inductive StopPc where
  | test
  | monitoring
  | notifyMonitor
  | joinMonitor
  /-- inside `pthread_join` on the monitor -/
  | joiningMonitor
  | running
  | notifyAll
  /-- in the policy's waiting loop -/
  | wait
  /-- about to lock `worker_mutex_`, which it keeps to the end -/
  | lock
  /-- in the join loop, at slot `i` -/
  | join (i : Nat)
  /-- inside `pthread_join` on the worker of slot `i` -/
  | joining (i : Nat)
  /-- in `workers_.clear()`, about to destroy slot `i` -/
  | clear (i : Nat)
  /-- in the `Join` of `~Thread` for slot `i` -/
  | clearJoining (i : Nat)
  | count
  /-- about to lock `global_mutex_` and empty `tasks_` -/
  | tasks
  deriving DecidableEq, Repr

/-- Where the controlling thread stands; between calls, how the last one
ended. -/
inductive Control where
  | idle (last : Outcome)
  | start (pc : StartPc)
  | stop (policy : ShutdownPolicy) (pc : StopPc)
  deriving DecidableEq, Repr

/-- What a task's history is made of. Agents are worker threads, by their
`pthread_self`. -/
abbrev Event := WorkEvent Nat Task

/-- The members every thread of the pool reads and writes, the steady clock,
and the history of the tasks, which no step reads. -/
structure Shared where
  validThreadCount : Nat := 0
  tasks : List Task := []
  running : Bool := false
  monitoring : Bool := false
  clock : Nat := 0
  hist : List Event := []
  deriving DecidableEq, Repr

structure State where
  sh : Shared := {}
  workers : List Worker := []
  monitorThread : Option Monitor := none
  calls : List Call := []
  control : Control := .idle .returned
  nextHandle : Nat := 0
  deriving DecidableEq, Repr

/-! ## Who holds which mutex -/

def Control.holdsWorkerMutex : Control → Bool
  | .stop _ (.join _) | .stop _ (.joining _) | .stop _ (.clear _)
  | .stop _ (.clearJoining _) | .stop _ .count | .stop _ .tasks => true
  | _ => false

def MonitorPc.holdsWorkerMutex : MonitorPc → Bool
  | .shrinkMark .. | .shrinkNotify => true
  | _ => false

namespace State

/-- Nobody is inside a section of `worker_mutex_` that takes several steps. -/
def workerMutexFree (s : State) : Bool :=
  !s.control.holdsWorkerMutex &&
    !(s.monitorThread.any fun m => m.pc.holdsWorkerMutex)

/-- No worker stands between a false predicate and blocking. -/
def globalMutexFree (s : State) : Bool :=
  s.workers.all fun w => w.native.pc ≠ .window

/-! ## Moving one party -/

def goto (s : State) (pc : Control) : State := { s with control := pc }

def workerGoto (s : State) (j : Nat) (pc : WorkerPc) : State :=
  { s with
    workers := s.workers.modify j fun w => { w with native.pc := pc } }

def setFlags (s : State) (i : Nat) (fl : Flags) : State :=
  { s with workers := s.workers.modify i fun w => { w with flags := fl } }

def callGoto (s : State) (k : Nat) (pc : CallPc) : State :=
  { s with calls := s.calls.modify k fun c => { c with pc := pc } }

def monitorGoto (s : State) (m : Monitor) (pc : MonitorPc) : State :=
  { s with monitorThread := some { m with pc := pc } }

end State

/-! ## `ConditionVariable` -/

/-- A broadcast: every blocked worker is signalled. -/
def notifyAll (ws : List Worker) : List Worker :=
  ws.map fun w =>
    if w.native.pc = .blocked false then { w with native.pc := .blocked true }
    else w

/-- `NotifyOne`: one blocked worker, whichever `pick` says, is signalled; if
none is blocked there is none to pick. -/
def notifyOne (ws : List Worker) (pick : Option Nat) : Option (List Worker) :=
  match pick with
  | none => if ws.all fun w => w.native.pc ≠ .blocked false then some ws else none
  | some i =>
      match ws[i]? with
      | some w =>
          if w.native.pc = .blocked false then
            some (ws.set i { w with native.pc := .blocked true })
          else none
      | none => none

/-! ## `Enqueue` -/

def enqueueStep (s : State) (k : Nat) (pick : Option Nat) : Option State :=
  match s.calls[k]? with
  | none => none
  | some c =>
      match c.pc with
      | .test =>
          some (s.callGoto k
            (if s.sh.running then .push
             else .threw (.runtimeError "Thread pool is not running")))
      | .push =>
          if s.globalMutexFree then
            some ({ s with
              sh.tasks := s.sh.tasks ++ [c.task]
              sh.hist := s.sh.hist ++ [WorkEvent.accept c.task] }.callGoto k .notify)
          else none
      | .notify =>
          match notifyOne s.workers pick with
          | some ws => some ({ s with workers := ws }.callGoto k .hint)
          | none => none
      | .hint => some (s.callGoto k .returned)
      | .returned | .threw _ => none

/-! ## `WorkerLoop` -/

/-- The predicate of the wait. -/
def waitPredicate (sh : Shared) (fl : Flags) : Bool :=
  !sh.tasks.isEmpty || fl.shouldExit || !sh.running

/-- Evaluate the predicate holding `global_mutex_`. -/
def evaluate (sh : Shared) (free : Bool) (fl : Flags) :
    Option (Shared × WorkerPc × Flags) :=
  if free then
    some (sh, if waitPredicate sh fl then .clearIdle else .window, fl)
  else none

/-- The body of `WorkerLoop` once the slot is found: one step of thread
`self` on the shared members and on the flags of the slot its reference is
bound to. `free` says whether `global_mutex_` can be had, `throws` whether
the running task ends by a `std::exception`. -/
def workerLoop (sh : Shared) (free : Bool) (self : Nat) (throws : Bool) :
    WorkerPc → Flags → Option (Shared × WorkerPc × Flags)
  | .setValid, fl => some (sh, .fetchAdd, { fl with isValid := true })
  | .fetchAdd, fl =>
      some ({ sh with validThreadCount := sh.validThreadCount + 1 }, .testExit, fl)
  | .testExit, fl =>
      some (sh, if fl.shouldExit then .clearValid else .testRunning, fl)
  | .testRunning, fl =>
      some (sh, if sh.running then .setIdle else .clearValid, fl)
  | .setIdle, fl => some (sh, .setIdleTime, { fl with isIdle := true })
  | .setIdleTime, fl => some (sh, .wait, { fl with idleTimeStart := sh.clock })
  | .wait, fl => evaluate sh free fl
  | .window, fl => some (sh, .blocked false, fl)
  | .blocked true, fl => evaluate sh free fl
  | .clearIdle, fl => some (sh, .pop, { fl with isIdle := false })
  | .pop, fl =>
      if free then
        match sh.tasks with
        | [] => some (sh, .holding none, fl)
        | t :: rest =>
            some ({ sh with tasks := rest, hist := sh.hist ++ [.take self t] },
              .holding (some t), fl)
      else none
  | .holding none, fl => some (sh, .testExit, fl)
  | .holding (some t), fl =>
      if t.callable then
        some ({ sh with hist := sh.hist ++ [.start self t] }, .running t, fl)
      else some ({ sh with hist := sh.hist ++ [.drop self t] }, .testExit, fl)
  | .running t, fl =>
      some ({ sh with hist := sh.hist ++ [.finish self t] },
        if throws then .entry true else .testExit, fl)
  | .clearValid, fl => some (sh, .exitIdle, { fl with isValid := false })
  | .exitIdle, fl => some (sh, .fetchSub, { fl with isIdle := false })
  | .fetchSub, fl =>
      some ({ sh with validThreadCount := ThreadPool.fetchSub sh.validThreadCount },
        .entry false, fl)
  | .registration, _ | .blocked false, _ | .entry _, _ | .ended _, _ => none

/-- A step of `WorkerLoop` behind the registration check, by the thread
stored in slot `j`: it works on the slot at the index it captured. -/
def boundStep (s : State) (j : Nat) (w : Worker) (throws : Bool) : Option State :=
  match s.workers[w.native.index]? with
  | none => none
  | some slot =>
      match workerLoop s.sh s.globalMutexFree w.native.self throws w.native.pc
          slot.flags with
      | none => none
      | some (sh, pc, fl) =>
          some (({ s with sh := sh }.setFlags w.native.index fl).workerGoto j pc)

/-- One step of the worker thread stored in slot `j`. -/
def workerStep (s : State) (j : Nat) (throws : Bool) : Option State :=
  match s.workers[j]? with
  | none => none
  | some w =>
      match w.native.pc with
      | .registration =>
          if s.workerMutexFree then
            some (s.workerGoto j
              (if w.native.index < s.workers.length then .setValid
               else .entry false))
          else none
      | .entry threw =>
          some { s with
            workers := s.workers.modify j fun w =>
              { w with
                property := w.property.threadEntry
                native.pc := .ended threw } }
      | .ended _ => none
      | _ => boundStep s j w throws

/-- A spurious wake-up of the worker thread stored in slot `j`. -/
def spuriousStep (s : State) (j : Nat) : Option State :=
  match s.workers[j]? with
  | none => none
  | some w =>
      if w.native.pc = .blocked false then some (s.workerGoto j (.blocked true))
      else none

/-! ## Creating threads -/

/-- The state of a section that creates threads: the vector, the handles
given out, how many creations are still to succeed, how many succeeded, and
the exception that ended the section. -/
structure Spawn where
  workers : List Worker
  nextHandle : Nat
  creates : Creates
  created : Nat := 0
  exn : Option Exn := none

/-- `thread.Start([this, index]() { WorkerLoop(index); })` on a property
block, and the native thread it creates. -/
def startThread (sp : Spawn) (p : ThreadProperty) (index : Nat) :
    Except Exn (ThreadProperty × Native) :=
  match p.start (sp.creates.pthreadCreate sp.nextHandle) with
  | .error e => .error e
  | .ok p' => .ok (p', { index := index, self := sp.nextHandle })

/-- A creation that succeeded. -/
def Spawn.advance (sp : Spawn) (ws : List Worker) : Spawn :=
  { sp with
    workers := ws
    nextHandle := sp.nextHandle + 1
    creates.avail := sp.creates.avail - 1
    created := sp.created + 1 }

/-- Make a worker, start its thread and push it back. -/
def appendWorker (sp : Spawn) : Spawn :=
  match sp.exn with
  | some _ => sp
  | none =>
      match startThread sp {} sp.workers.length with
      | .error e => { sp with exn := some e }
      | .ok (p, nat) =>
          sp.advance (sp.workers ++ [{ property := p, native := nat }])

/-! ## `ExpandThreads` -/

/-- How many threads `ExpandThreads` decides to add, from the count it
loads; `none` where it returns at once. -/
def expandNeed (cfg : Config) (currentThread : Nat) : Option Nat :=
  if currentThread ≥ cfg.maxThreads then none
  else
    let target :=
      if currentThread * expandFactor < cfg.maxThreads then
        currentThread * expandFactor
      else cfg.maxThreads
    if target - currentThread ≤ 0 then none else some (target - currentThread)

/-- One round of the reuse loop, at slot `i`. The loop's own bound on
`create_thread_count` is a test here, since the count never falls. -/
def reuseSlot (need : Nat) (sp : Spawn) (i : Nat) : Spawn :=
  match sp.exn, sp.workers[i]? with
  | none, some w =>
      if sp.created < need ∧ w.flags.isValid = false then
        let w := { w with flags.shouldExit := false }
        match startThread sp w.property i with
        | .error e =>
            { sp with workers := sp.workers.set i w, exn := some e }
        | .ok (p, nat) =>
            sp.advance (sp.workers.set i { w with property := p, native := nat })
      else sp
  | _, _ => sp

/-- One round of the append loop. -/
def appendSlot (cfg : Config) (need : Nat) (sp : Spawn) : Spawn :=
  if sp.created < need ∧ sp.workers.length < cfg.maxThreads then appendWorker sp
  else sp

/-- The section of `ExpandThreads` under `worker_mutex_`: the reuse loop over
the slots, then the append loop, which makes one thread a round and so needs
no more than `need` rounds. -/
def expandSection (cfg : Config) (need : Nat) (sp : Spawn) : Spawn :=
  let reused := (List.range sp.workers.length).foldl (reuseSlot need) sp
  (List.range need).foldl (fun sp _ => appendSlot cfg need sp) reused

/-- `ExpandThreads` as a whole, when nothing comes between its load and its
section. -/
def expandThreads (cfg : Config) (s : State) (creates : Creates) : Spawn :=
  let sp : Spawn := ⟨s.workers, s.nextHandle, creates, 0, none⟩
  match expandNeed cfg s.sh.validThreadCount with
  | none => sp
  | some need => expandSection cfg need sp

/-! ## `ShrinkThreads` and the monitor -/

/-- How many threads `ShrinkThreads` decides to remove; `none` where it
returns at once. -/
def shrinkNeed (cfg : Config) (currentThread : Nat) : Option Nat :=
  if currentThread ≤ cfg.minThreads then none
  else if currentThread - cfg.minThreads ≤ 0 then none
  else some (currentThread - cfg.minThreads)

/-- Whether the marking loop marks this slot. -/
def Flags.expired (now : Nat) (fl : Flags) : Bool :=
  fl.isValid && fl.isIdle && idleSeconds now fl ≥ idleThreshold

/-- The predicate the monitor gives to `WaitFor`. -/
def State.wakes (s : State) : Bool :=
  !s.sh.monitoring || !s.sh.running ||
    s.sh.tasks.length > s.sh.validThreadCount * expandThreshold

/-- One step of the monitor thread. `WaitFor` makes its timed wait where the
predicate is false; the exception of one that fails is not caught in
`MonitorLoop`. -/
def monitorStep (cfg : Config) (s : State) (creates : Creates) (waitFails : Bool) :
    Option State :=
  match s.monitorThread with
  | none => none
  | some m =>
      match m.pc with
      | .testMonitoring =>
          some (s.monitorGoto m (if s.sh.monitoring then .testRunning else .entry))
      | .testRunning =>
          some (s.monitorGoto m (if s.sh.running then .shrinkLoad else .entry))
      | .shrinkLoad =>
          some (s.monitorGoto m
            (match shrinkNeed cfg s.sh.validThreadCount with
             | none => .countTasks
             | some need => .shrinkNow need))
      | .shrinkNow need => some (s.monitorGoto m (.shrinkLock need s.sh.clock))
      | .shrinkLock need now =>
          if s.workerMutexFree then some (s.monitorGoto m (.shrinkMark need now 0 0))
          else none
      | .shrinkMark need now removed i =>
          match s.workers[i]? with
          | none => some (s.monitorGoto m .shrinkNotify)
          | some w =>
              if removed < need then
                if Flags.expired now w.flags then
                  some ((s.setFlags i { w.flags with shouldExit := true }).monitorGoto
                    m (.shrinkMark need now (removed + 1) (i + 1)))
                else some (s.monitorGoto m (.shrinkMark need now removed (i + 1)))
              else some (s.monitorGoto m .shrinkNotify)
      | .shrinkNotify =>
          some ({ s with workers := notifyAll s.workers }.monitorGoto m .countTasks)
      | .countTasks =>
          if s.globalMutexFree then
            some (s.monitorGoto m (.countThreads s.sh.tasks.length))
          else none
      | .countThreads taskCount =>
          some (s.monitorGoto m
            (if taskCount > s.sh.validThreadCount * expandThreshold then .expandLoad
             else .adjust))
      | .expandLoad =>
          some (s.monitorGoto m
            (match expandNeed cfg s.sh.validThreadCount with
             | none => .adjust
             | some need => .expandLock need))
      | .expandLock need =>
          if s.workerMutexFree then
            let sp := expandSection cfg need
              ⟨s.workers, s.nextHandle, creates, 0, none⟩
            some ({ s with
              workers := sp.workers
              nextHandle := sp.nextHandle }.monitorGoto m
                (if sp.exn.isNone then .adjust else .entry))
          else none
      | .adjust => if s.globalMutexFree then some (s.monitorGoto m .waitFor) else none
      | .waitFor =>
          some (s.monitorGoto m (if !s.wakes && waitFails then .entry else .testMonitoring))
      | .entry =>
          some (s.monitorGoto { m with property := m.property.threadEntry } .ended)
      | .ended => none

/-! ## `Start` and `Stop` -/

/-- The section of `Start` under `worker_mutex_`: `min_threads_` workers, then
the monitor. The `Thread` that `monitor_thread_` gives up here, if it holds
one, was never created, so its destructor has nothing to do. -/
def startSection (cfg : Config) (s : State) (creates : Creates) : State :=
  let sp := (List.range cfg.minThreads).foldl (fun sp _ => appendWorker sp)
    ⟨s.workers, s.nextHandle, creates, 0, none⟩
  let s := { s with workers := sp.workers, nextHandle := sp.nextHandle }
  match sp.exn with
  | some e => s.goto (.idle (.threw e))
  | none =>
      match ({} : ThreadProperty).start
          (sp.creates.pthreadCreate sp.nextHandle) with
      | .error e =>
          { s with
            sh.monitoring := true
            monitorThread := some { property := {}, pc := .ended }
            control := .idle (.threw e) }
      | .ok p =>
          { s with
            sh.monitoring := true
            monitorThread := some { property := p, pc := .testMonitoring }
            nextHandle := sp.nextHandle + 1
            control := .idle .returned }

def startStep (cfg : Config) (s : State) (creates : Creates) :
    StartPc → Option State
  | .test =>
      some (s.goto
        (if s.sh.running then
           .idle (.threw (.runtimeError "Thread pool is already running"))
         else .start .store))
  | .store => some { s with sh.running := true, control := .start .create }
  | .create => if s.workerMutexFree then some (startSection cfg s creates) else none

/-- The waiting loop of `Stop`: whether one look at `TaskCount()` ends it.
`timedOut` says whether the deadline of `WaitForTimeout` has passed. -/
def stopWaits (policy : ShutdownPolicy) (taskCount : Nat) (timedOut : Bool) : Bool :=
  match policy with
  | .waitForAll => taskCount > 0
  | .waitForTimeout => taskCount > 0 && !timedOut
  | .immediate => false

/-- The worker's thread has been joined: what `Stop` does to slot `i`. -/
def Worker.joined (w : Worker) : Worker :=
  { w with property := w.property.joinLeave, flags.shouldExit := true }

def WorkerPc.isEnded : WorkerPc → Bool
  | .ended _ => true
  | _ => false

def stopStep (s : State) (policy : ShutdownPolicy) (timedOut : Bool) :
    StopPc → Option State
  | .test =>
      some (s.goto
        (if s.sh.running then .stop policy .monitoring
         else .idle (.threw (.runtimeError "Thread pool is not running"))))
  | .monitoring =>
      some { s with sh.monitoring := false, control := .stop policy .notifyMonitor }
  | .notifyMonitor => some (s.goto (.stop policy .joinMonitor))
  | .joinMonitor =>
      some (s.goto (.stop policy
        (if s.monitorThread.any fun m => m.property.isJoinable then .joiningMonitor
         else .running)))
  | .joiningMonitor =>
      match s.monitorThread with
      | none => none
      | some m =>
          match m.property.joinEnter with
          | .error e => some (s.goto (.idle (.threw e)))
          | .ok _ =>
              if m.pc = .ended then
                some { s with monitorThread := none, control := .stop policy .running }
              else none
  | .running => some { s with sh.running := false, control := .stop policy .notifyAll }
  | .notifyAll =>
      some { s with workers := notifyAll s.workers, control := .stop policy .wait }
  | .wait =>
      if policy = .immediate then some (s.goto (.stop policy .lock))
      else if s.globalMutexFree then
        some (s.goto (.stop policy
          (if stopWaits policy s.sh.tasks.length timedOut then .wait else .lock)))
      else none
  | .lock => if s.workerMutexFree then some (s.goto (.stop policy (.join 0))) else none
  | .join i =>
      match s.workers[i]? with
      | none => some (s.goto (.stop policy (.clear 0)))
      | some w =>
          some (s.goto (.stop policy
            (if w.property.isJoinable then .joining i else .join (i + 1))))
  | .joining i =>
      match s.workers[i]? with
      | none => none
      | some w =>
          match w.property.joinEnter with
          | .error e => some (s.goto (.idle (.threw e)))
          | .ok _ =>
              if w.native.pc.isEnded then
                some { s with
                  workers := s.workers.set i w.joined
                  control := .stop policy (.join (i + 1)) }
              else none
  | .clear i =>
      match s.workers[i]? with
      | none => some { s with workers := [], control := .stop policy .count }
      | some w =>
          match w.property.cleanup with
          | none => some (s.goto (.stop policy (.clear (i + 1))))
          | some .join => some (s.goto (.stop policy (.clearJoining i)))
          | some _ => none
  | .clearJoining i =>
      match s.workers[i]? with
      | none => none
      | some w =>
          if w.native.pc.isEnded then
            some { s with
              workers := s.workers.set i { w with property := w.property.joinLeave }
              control := .stop policy (.clear (i + 1)) }
          else none
  | .count =>
      some { s with sh.validThreadCount := 0, control := .stop policy .tasks }
  | .tasks =>
      if s.globalMutexFree then
        some { s with
          sh.tasks := []
          sh.hist := s.sh.hist ++ s.sh.tasks.map WorkEvent.discard
          control := .idle .returned }
      else none

def controlStep (cfg : Config) (s : State) (creates : Creates) (timedOut : Bool) :
    Option State :=
  match s.control with
  | .idle _ => none
  | .start pc => startStep cfg s creates pc
  | .stop policy pc => stopStep s policy timedOut pc

/-! ## The machine -/

/-- Who moves, and what the environment answers. -/
inductive Action where
  /-- the steady clock advances -/
  | tick (d : Nat)
  /-- some thread calls `Enqueue` -/
  | call (callable : Bool)
  | enqueue (k : Nat) (pick : Option Nat)
  /-- the controlling thread calls `Start` -/
  | start
  /-- the controlling thread calls `Stop` -/
  | stop (policy : ShutdownPolicy)
  | control (creates : Creates) (timedOut : Bool)
  | worker (j : Nat) (throws : Bool)
  | spurious (j : Nat)
  /-- `waitFails`: `pthread_cond_timedwait` answers the monitor's timed wait with
  an error, as it does when the time asked for is not a valid one -/
  | monitor (creates : Creates) (waitFails : Bool)
  deriving DecidableEq, Repr

/-- A step of the controlling thread inside a call. -/
def Action.isControl : Action → Bool
  | .control _ _ => true
  | _ => false

/-- A task that ends by an exception. -/
def Action.throws : Action → Bool
  | .worker _ throws => throws
  | _ => false

def step (cfg : Config) (s : State) : Action → Option State
  | .tick d => some { s with sh.clock := s.sh.clock + d }
  | .call callable =>
      some { s with calls := s.calls ++ [{ task := ⟨s.calls.length, callable⟩ }] }
  | .enqueue k pick => enqueueStep s k pick
  | .start =>
      match s.control with
      | .idle _ => some (s.goto (.start .test))
      | _ => none
  | .stop policy =>
      match s.control with
      | .idle _ => some (s.goto (.stop policy .test))
      | _ => none
  | .control creates timedOut => controlStep cfg s creates timedOut
  | .worker j throws => workerStep s j throws
  | .spurious j => spuriousStep s j
  | .monitor creates waitFails => monitorStep cfg s creates waitFails

/-- A pool as the constructor leaves it, and everything that can happen to
it. -/
def pool (cfg : Config) : Machine State Action where
  init := {}
  step := step cfg

/-- The runs in which every task returns. -/
def Returning (_ : State) (a : Action) : Prop := a.throws = false

instance (s : State) (a : Action) : Decidable (Returning s a) :=
  inferInstanceAs (Decidable (_ = _))

/-! ## Schedules

Stretches of runs, for the places where a run is written down. -/

/-- The controlling thread alone. -/
def controls (n : Nat) : List Action := List.replicate n (.control {} false)

/-- The worker thread of slot `j` alone, its tasks returning. -/
def works (j n : Nat) : List Action := List.replicate n (.worker j false)

/-- The monitor thread alone; a section of its that creates makes one thread. -/
def monitors (n : Nat) : List Action := List.replicate n (.monitor { avail := 1 } false)

/-- `Start`, with as many creations succeeding as `creates` says. -/
def starting (creates : Nat) : List Action :=
  .start :: controls 2 ++ [.control { avail := creates } false]

/-- `Enqueue` as call number `k`, waking nobody, to its notification. -/
def enqueuing (k : Nat) (callable : Bool) : List Action :=
  .call callable :: List.replicate 3 (.enqueue k none)

/-- `Stop`, the monitor leaving its loop at once, until it is about to clear
`running_`. -/
def stopping (policy : ShutdownPolicy) : List Action :=
  .stop policy :: controls 4 ++ monitors 2 ++ controls 1

/-- On one hardware thread: the worker is busy and six tasks are queued
behind it, so a pass of the monitor adds a second worker, which does them
all. Both then wait. -/
def growing : List Action :=
  starting 2 ++ (List.range 7).flatMap (fun k => enqueuing k true) ++ works 0 11 ++
    monitors 9 ++ works 1 63 ++ works 0 7

/-- Ten seconds later a pass of the monitor marks the first worker and wakes
both. -/
def shrinking : List Action := .tick 10000000000 :: monitors 8

end ThreadPool.Normal
