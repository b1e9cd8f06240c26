import ThreadPool.Lib.Guard
import ThreadPool.Normal.Wired

/-!
# Any number of callers of `Start`

On a pool that is stopped any number of threads call `Start` at the same
time. Their calls interleave with one another and with everything the pool
consists of meanwhile: calls of `Enqueue`, and the workers and the monitor
as they come to be.

A single caller takes the section under `worker_mutex_` in one step, because
the `Thread` that `monitor_thread_` gives up was never created. With several
callers it may be the thread of a living monitor, and its destructor joins
it, in the middle of the section. So here the section is taken apart. Until
`monitor_thread_` has been assigned, `monitorThread` stays the monitor that
is being joined: nobody looks at the pointer in the meantime.

The flag is the guard of the call. It is tested, and set in a step of its
own.
-/

namespace ThreadPool.Normal.Starts

open Interleave Machine

/-! ## The machine -/

/-- Where a call of `Start` stands. -/
inductive CallPc where
  | test
  | store
  /-- about to lock `worker_mutex_` and make the workers; it keeps the mutex -/
  | create
  | monitoring
  /-- about to assign to `monitor_thread_` -/
  | assign
  /-- in the `Join` of `~Thread`, for the monitor that was there -/
  | dropping
  /-- about to start the thread of the monitor -/
  | monitor
  | ended (o : Outcome)
  deriving DecidableEq, Repr

/-- A call, and how far it has come with the guard, which no step reads. -/
structure Call where
  pc : CallPc := .test
  stage : Stage := .outside
  deriving DecidableEq, Repr

/-- The pool, the calls, and how many workers and monitors the calls have
made, which no step reads. -/
structure State where
  pool : Normal.State
  calls : List Call := []
  workersMade : Nat := 0
  monitorsMade : Nat := 0
  deriving DecidableEq, Repr

inductive Action where
  /-- somebody else moves: a worker, the monitor, `Enqueue`, the clock -/
  | party (a : Normal.Action)
  /-- somebody calls `Start` -/
  | call
  | start (k : Nat) (creates : Creates)
  deriving DecidableEq, Repr

def CallPc.holdsWorkerMutex : CallPc → Bool
  | .monitoring | .assign | .dropping | .monitor => true
  | _ => false

/-- No call is inside the section. -/
def State.callsOut (s : State) : Bool := s.calls.all fun c => !c.pc.holdsWorkerMutex

def State.put (s : State) (k : Nat) (c : Call) : State :=
  { s with calls := s.calls.set k c }

/-- The action of a party that takes `worker_mutex_`. -/
def locks (p : Normal.State) : Normal.Action → Bool
  | .worker j _ => p.workers[j]?.any fun w => w.native.pc = .registration
  | .monitor _ _ => p.monitorThread.any fun m =>
      match m.pc with
      | .shrinkLock .. | .expandLock .. => true
      | _ => false
  | _ => false

def partyStep (cfg : Config) (s : State) (a : Normal.Action) : Option State :=
  match a with
  | .start | .stop _ | .control _ _ => none
  | a =>
      if locks s.pool a ∧ s.callsOut = false then none
      else (Normal.step cfg s.pool a).map fun p => { s with pool := p }

def alreadyRunning : Exn := .runtimeError "Thread pool is already running"

/-- `monitor_thread_` points to a `Thread` without a thread. -/
def unstarted : Monitor := { property := {}, pc := .ended }

def callStep (cfg : Config) (s : State) (k : Nat) (creates : Creates) : Option State :=
  match s.calls[k]? with
  | none => none
  | some c =>
      match c.pc with
      | .test =>
          some (s.put k
            (if s.pool.sh.running then { c with pc := .ended (.threw alreadyRunning) }
             else { pc := .store, stage := .inside }))
      | .store =>
          some ({ s with pool.sh.running := true }.put k
            { pc := .create, stage := .through })
      | .create =>
          if s.pool.workerMutexFree ∧ s.callsOut then
            let sp := (List.range cfg.minThreads).foldl (fun sp _ => appendWorker sp)
              ⟨s.pool.workers, s.pool.nextHandle, creates, 0, none⟩
            some ({ s with
              pool.workers := sp.workers
              pool.nextHandle := sp.nextHandle
              workersMade := s.workersMade + sp.created }.put k
                { c with pc := match sp.exn with
                  | some e => .ended (.threw e)
                  | none => .monitoring })
          else none
      | .monitoring =>
          some ({ s with pool.sh.monitoring := true }.put k { c with pc := .assign })
      | .assign =>
          match s.pool.monitorThread.bind fun m => m.property.cleanup with
          | none =>
              some ({ s with pool.monitorThread := some unstarted }.put k
                { c with pc := .monitor })
          | some .join => some (s.put k { c with pc := .dropping })
          | some _ => none
      | .dropping =>
          match s.pool.monitorThread with
          | none => none
          | some m =>
              if m.pc = .ended then
                some ({ s with pool.monitorThread := some unstarted }.put k
                  { c with pc := .monitor })
              else none
      | .monitor =>
          match ({} : ThreadProperty).start
              (creates.pthreadCreate s.pool.nextHandle) with
          | .error e => some (s.put k { c with pc := .ended (.threw e) })
          | .ok p =>
              some ({ s with
                pool.monitorThread := some { property := p, pc := .testMonitoring }
                pool.nextHandle := s.pool.nextHandle + 1
                monitorsMade := s.monitorsMade + 1 }.put k
                  { c with pc := .ended .returned })
      | .ended _ => none

def step (cfg : Config) (s : State) : Action → Option State
  | .party a => partyStep cfg s a
  | .call => some { s with calls := s.calls ++ [{}] }
  | .start k creates => callStep cfg s k creates

/-- The pool is in `p`, and nobody has called `Start` yet. -/
def starts (cfg : Config) (p : Normal.State) : Machine State Action where
  init := { pool := p }
  step := step cfg

/-! ## What a step can do -/

/-- What somebody else than a caller of `Start` or `Stop` leaves as it was: the
flag, and a monitor that is over. -/
structure Frame (p p' : Normal.State) : Prop where
  running : p'.sh.running = p.sh.running
  control : p'.control = p.control
  monitor : (∀ m, p.monitorThread = some m → m.pc = .ended) →
    p'.monitorThread = p.monitorThread

theorem workerStep_frame {p p' : Normal.State} {j : Nat} {throws : Bool}
    (h : workerStep p j throws = some p') : Frame p p' := by
  unfold workerStep at h
  split at h
  · cases h
  · split at h
    · split at h
      · rw [Option.some.injEq] at h
        subst h
        exact ⟨rfl, rfl, fun _ => rfl⟩
      · cases h
    · rw [Option.some.injEq] at h
      subst h
      exact ⟨rfl, rfl, fun _ => rfl⟩
    · cases h
    · unfold boundStep at h
      split at h
      · cases h
      · split at h
        · cases h
        · next hloop =>
            rw [Option.some.injEq] at h
            subst h
            exact ⟨(workerLoop_cases hloop).running_eq, rfl, fun _ => rfl⟩

theorem monitorStep_shared {cfg : Config} {p p' : Normal.State} {creates : Creates}
    {waitFails : Bool} (h : monitorStep cfg p creates waitFails = some p') :
    p'.sh = p.sh ∧ p'.control = p.control := by
  unfold monitorStep at h
  split at h
  · cases h
  · split at h <;> repeat' split at h
    all_goals
      first
        | (rw [Option.some.injEq] at h
           subst h
           exact ⟨rfl, rfl⟩)
        | cases h

theorem monitorStep_ended {cfg : Config} {p : Normal.State} {m : Monitor}
    (hm : p.monitorThread = some m) (hpc : m.pc = .ended) (creates : Creates)
    (waitFails : Bool) :
    monitorStep cfg p creates waitFails = none := by
  simp only [monitorStep, hm, hpc]

theorem enqueueStep_frame {p p' : Normal.State} {k : Nat} {pick : Option Nat}
    (h : enqueueStep p k pick = some p') : Frame p p' := by
  unfold enqueueStep at h
  split at h
  · cases h
  · repeat' split at h
    all_goals
      first
        | (rw [Option.some.injEq] at h
           subst h
           exact ⟨rfl, rfl, fun _ => rfl⟩)
        | cases h

theorem spuriousStep_frame {p p' : Normal.State} {j : Nat}
    (h : spuriousStep p j = some p') : Frame p p' := by
  unfold spuriousStep at h
  split at h
  · cases h
  · split at h
    · rw [Option.some.injEq] at h
      subst h
      exact ⟨rfl, rfl, fun _ => rfl⟩
    · cases h

theorem partyStep_frame {cfg : Config} {s s' : State} {a : Normal.Action}
    (h : partyStep cfg s a = some s') :
    ∃ p, s' = { s with pool := p } ∧ Frame s.pool p := by
  unfold partyStep at h
  split at h
  · cases h
  · cases h
  · cases h
  · next hstart hstop hcontrol =>
    split at h
    · cases h
    · obtain ⟨p, hstep, rfl⟩ := Option.map_eq_some_iff.mp h
      refine ⟨p, rfl, ?_⟩
      cases a with
      | tick | call =>
          rw [Normal.step, Option.some.injEq] at hstep
          subst hstep
          exact ⟨rfl, rfl, fun _ => rfl⟩
      | enqueue => exact enqueueStep_frame hstep
      | worker => exact workerStep_frame hstep
      | spurious => exact spuriousStep_frame hstep
      | monitor creates waitFails =>
          obtain ⟨hsh, hcontrol⟩ := monitorStep_shared hstep
          refine ⟨by rw [hsh], hcontrol, fun hover => ?_⟩
          cases hm : s.pool.monitorThread with
          | none =>
              simp only [Normal.step, monitorStep, hm] at hstep
              cases hstep
          | some m =>
              rw [Normal.step, monitorStep_ended hm (hover m hm)] at hstep
              cases hstep
      | start => exact absurd rfl hstart
      | stop policy => exact absurd rfl (hstop policy)
      | control creates timedOut => exact absurd rfl (hcontrol creates timedOut)

/-- What `Thread::Start` throws where `pthread_create` fails. -/
def createFailed (creates : Creates) : Exn :=
  .runtimeError ("pthread_create failed: " ++ creates.strerror)

/-- A step of a call: the call behind it, and what has become of the rest. -/
inductive CallMove (cfg : Config) (s : State) (creates : Creates) (c : Call) :
    Call → State → Prop where
  | turnedAway (hpc : c.pc = .test) (hrun : s.pool.sh.running = true) :
      CallMove cfg s creates c { c with pc := .ended (.threw alreadyRunning) } s
  | passes (hpc : c.pc = .test) (hrun : s.pool.sh.running = false) :
      CallMove cfg s creates c { pc := .store, stage := .inside } s
  | stores (hpc : c.pc = .store) :
      CallMove cfg s creates c { pc := .create, stage := .through }
        { s with pool.sh.running := true }
  | creates {ws : List Worker} {n : Nat} (hpc : c.pc = .create)
      (hall : cfg.minThreads ≤ creates.avail) :
      CallMove cfg s creates c { c with pc := .monitoring }
        { s with
          pool.workers := ws
          pool.nextHandle := n
          workersMade := s.workersMade + cfg.minThreads }
  | createFails {ws : List Worker} {n made : Nat} (hpc : c.pc = .create)
      (hfew : creates.avail < cfg.minThreads) :
      CallMove cfg s creates c { c with pc := .ended (.threw (createFailed creates)) }
        { s with pool.workers := ws, pool.nextHandle := n, workersMade := made }
  | storesMonitoring (hpc : c.pc = .monitoring) :
      CallMove cfg s creates c { c with pc := .assign }
        { s with pool.sh.monitoring := true }
  | assigns (hpc : c.pc = .assign ∨ c.pc = .dropping) :
      CallMove cfg s creates c { c with pc := .monitor }
        { s with pool.monitorThread := some unstarted }
  | drops (hpc : c.pc = .assign) (hm : s.pool.monitorThread.isSome = true) :
      CallMove cfg s creates c { c with pc := .dropping } s
  | starts {m : Monitor} {n : Nat} (hpc : c.pc = .monitor) (havail : creates.avail ≠ 0) :
      CallMove cfg s creates c { c with pc := .ended .returned }
        { s with
          pool.monitorThread := some m
          pool.nextHandle := n
          monitorsMade := s.monitorsMade + 1 }
  | startFails (hpc : c.pc = .monitor) (hnone : creates.avail = 0) :
      CallMove cfg s creates c { c with pc := .ended (.threw (createFailed creates)) } s

theorem callStep_cases {cfg : Config} {s s' : State} {k : Nat} {creates : Creates}
    (h : callStep cfg s k creates = some s') :
    ∃ c c' t, s.calls[k]? = some c ∧ CallMove cfg s creates c c' t ∧
      s' = t.put k c' := by
  unfold callStep at h
  split at h
  · cases h
  · next c hc =>
      split at h
      · next hpc =>
          rw [Option.some.injEq] at h
          subst h
          refine ⟨c, _, s, hc, ?_, rfl⟩
          split
          · next hrun => exact .turnedAway hpc hrun
          · next hrun => exact .passes hpc (Bool.eq_false_iff.mpr hrun)
      · next hpc =>
          rw [Option.some.injEq] at h
          exact ⟨c, _, _, hc, .stores hpc, h.symm⟩
      · next hpc =>
          split at h
          · next hfree =>
              obtain ⟨-, hexn, -⟩ := startWorkers_eq (List.range cfg.minThreads)
                ⟨s.pool.workers, s.pool.nextHandle, creates, 0, none⟩ rfl
              have hmade := startWorkers_created (List.range cfg.minThreads)
                ⟨s.pool.workers, s.pool.nextHandle, creates, 0, none⟩
              dsimp only at h
              rw [Option.some.injEq] at h
              generalize (List.range cfg.minThreads).foldl (fun sp _ => appendWorker sp)
                ⟨s.pool.workers, s.pool.nextHandle, creates, 0, none⟩ = sp
                at h hexn hmade
              simp only [List.length_range, Nat.zero_add] at hexn hmade
              by_cases hall : cfg.minThreads ≤ creates.avail
              · rw [if_pos hall] at hexn
                rw [hexn, hmade hexn] at h
                exact ⟨c, _, _, hc, .creates hpc hall, h.symm⟩
              · rw [if_neg hall] at hexn
                rw [hexn] at h
                exact ⟨c, _, _, hc, .createFails hpc (Nat.not_le.mp hall), h.symm⟩
          · cases h
      · next hpc =>
          rw [Option.some.injEq] at h
          exact ⟨c, _, _, hc, .storesMonitoring hpc, h.symm⟩
      · next hpc =>
          split at h
          · rw [Option.some.injEq] at h
            exact ⟨c, _, _, hc, .assigns (Or.inl hpc), h.symm⟩
          · next hjoins =>
              obtain ⟨m, hm, -⟩ := Option.bind_eq_some_iff.mp hjoins
              rw [Option.some.injEq] at h
              exact ⟨c, _, _, hc, .drops hpc (by rw [hm]; rfl), h.symm⟩
          · cases h
      · next hpc =>
          split at h
          · cases h
          · split at h
            · rw [Option.some.injEq] at h
              exact ⟨c, _, _, hc, .assigns (Or.inr hpc), h.symm⟩
            · cases h
      · next hpc =>
          simp only [ThreadProperty.start, Creates.pthreadCreate] at h
          by_cases hnone : creates.avail = 0
          · simp only [hnone, if_true, Option.some.injEq] at h
            exact ⟨c, _, _, hc, .startFails hpc hnone, h.symm⟩
          · simp only [hnone, if_false, Option.some.injEq] at h
            exact ⟨c, _, _, hc, .starts hpc hnone, h.symm⟩
      · cases h

/-- Everything one step can do. -/
inductive Move (cfg : Config) (s : State) : Action → State → Prop where
  | party {a : Normal.Action} {p : Normal.State} (hframe : Frame s.pool p) :
      Move cfg s (.party a) { s with pool := p }
  | calls : Move cfg s .call { s with calls := s.calls ++ [{}] }
  | start {k : Nat} {creates : Creates} {c c' : Call} {t : State}
      (hc : s.calls[k]? = some c) (hmove : CallMove cfg s creates c c' t) :
      Move cfg s (.start k creates) (t.put k c')

theorem step_cases {cfg : Config} {s s' : State} {a : Action}
    (h : step cfg s a = some s') : Move cfg s a s' := by
  cases a with
  | party a =>
      obtain ⟨p, rfl, hframe⟩ := partyStep_frame h
      exact .party hframe
  | call =>
      rw [step, Option.some.injEq] at h
      subst h
      exact .calls
  | start k creates =>
      obtain ⟨c, c', t, hc, hmove, rfl⟩ := callStep_cases h
      exact .start hc hmove

theorem CallMove.calls {cfg : Config} {s t : State} {creates : Creates} {c c' : Call}
    (h : CallMove cfg s creates c c' t) : t.calls = s.calls := by
  cases h <;> rfl

/-! ## How far the calls have come -/

/-- Where a call stands says how far it has come, and of a call that has ended
how. -/
def Call.Staged (running : Bool) (c : Call) : Prop :=
  match c.pc with
  | .test => c.stage = .outside
  | .store => c.stage = .inside
  | .ended (.threw e) => running = true ∧
      (c.stage = .outside ∧ e = alreadyRunning ∨
        c.stage = .through ∧ ∃ creates, e = createFailed creates)
  | _ => running = true ∧ c.stage = .through

theorem Call.Staged.mono {r r' : Bool} {c : Call} (hc : c.Staged r)
    (hr : r = true → r' = true) : c.Staged r' := by
  unfold Staged at hc ⊢
  split at hc
  · exact hc
  · exact hc
  · exact ⟨hr hc.1, hc.2⟩
  · exact ⟨hr hc.1, hc.2⟩

theorem CallMove.running {cfg : Config} {s t : State} {creates : Creates} {c c' : Call}
    (h : CallMove cfg s creates c c' t) (hrun : s.pool.sh.running = true) :
    t.pool.sh.running = true := by
  cases h with
  | stores => rfl
  | _ => exact hrun

theorem CallMove.staged {cfg : Config} {s t : State} {creates : Creates} {c c' : Call}
    (h : CallMove cfg s creates c c' t) (hs : c.Staged s.pool.sh.running) :
    c'.Staged t.pool.sh.running := by
  obtain ⟨pc, st⟩ := c
  cases h with
  | turnedAway hpc hrun =>
      cases hpc
      exact ⟨hrun, Or.inl ⟨hs, rfl⟩⟩
  | passes => rfl
  | stores => exact ⟨rfl, rfl⟩
  | createFails hpc | startFails hpc =>
      cases hpc
      exact ⟨hs.1, Or.inr ⟨hs.2, _, rfl⟩⟩
  | assigns hpc => rcases hpc with hpc | hpc <;> cases hpc <;> exact hs
  | creates hpc | storesMonitoring hpc | drops hpc | starts hpc =>
      cases hpc
      exact hs

theorem Move.running {cfg : Config} {s s' : State} {a : Action} (h : Move cfg s a s')
    (hrun : s.pool.sh.running = true) : s'.pool.sh.running = true := by
  cases h with
  | party hframe => exact hframe.running.trans hrun
  | calls => exact hrun
  | start _ hmove => exact hmove.running hrun

theorem Move.staged {cfg : Config} {s s' : State} {a : Action} (h : Move cfg s a s')
    (hs : ∀ c ∈ s.calls, c.Staged s.pool.sh.running) :
    ∀ c ∈ s'.calls, c.Staged s'.pool.sh.running := by
  have hstays : ∀ c ∈ s.calls, c.Staged s'.pool.sh.running :=
    fun c hc => (hs c hc).mono h.running
  cases h with
  | party => exact hstays
  | calls => exact List.forall_mem_append.mpr ⟨hstays, List.forall_mem_singleton.mpr rfl⟩
  | start hc hmove =>
      rw [State.put, hmove.calls]
      exact forall_mem_set hstays (hmove.staged (hs _ (List.mem_of_getElem? hc)))

theorem staged_of_reachable {cfg : Config} {p : Normal.State} {s : State}
    (hr : (starts cfg p).Reachable s) : ∀ c ∈ s.calls, c.Staged s.pool.sh.running :=
  hr.invariant (P := fun s => ∀ c ∈ s.calls, c.Staged s.pool.sh.running) nofun
    fun _ _ _ _ hs hstep => (step_cases hstep).staged hs

end ThreadPool.Normal.Starts
