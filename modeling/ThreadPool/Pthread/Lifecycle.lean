import ThreadPool.Lib.Machine
import ThreadPool.Pthread.Thread

/-!
# Any number of `Thread` objects and one owner

A machine for the whole of `congzhi::Thread`. There are property blocks,
native threads and `Thread` objects, each known by its place in its list; an
object that has been destroyed leaves `none` behind. The owner executes one
operation after the other, and a step takes it over one locked section or
one pthread call, what `pthread_*` answers being part of the step. Between
any two of its steps native threads end: by finishing, which includes the
update at the end of `ThreadEntry`, or by being unwound without it.

A handle names its thread for good; that the system may use a `pthread_t`
again is left out, and so are the constructor that calls `Start` (it is one
after the other here), `Terminate` on macOS, and the block a moved-to object
is constructed with and drops unseen.
-/

namespace ThreadPool.Pthread

open Interleave

/-! ## The data -/

/-- `DetachState`, of which the attributes of a `Start` have one. -/
inductive DetachState where
  | joinable
  | detached
  deriving DecidableEq, Repr

/-- How far the function of a native thread has come. -/
inductive Run where
  | running
  /-- the callable returned or threw a `std::exception`, and `ThreadEntry` too
  is over -/
  | finished
  /-- unwound, by a cancellation or however else, before the update -/
  | unwound
  deriving DecidableEq, Repr

/-- A thread that `pthread_create` made: how it was created, the block its
`ThreadDataBase` points to, and how often it has been joined and detached. -/
structure Native where
  property : Nat
  created : DetachState
  run : Run := .running
  joins : Nat := 0
  detaches : Nat := 0
  deriving DecidableEq, Repr

/-- What a pthread call returns, and the text `strerror` has for it. -/
structure Answer where
  res : Int := 0
  strerror : String := ""
  deriving DecidableEq, Repr

def ESRCH : Int := 3
def EBUSY : Int := 16

/-- The four methods that release a thread. -/
inductive Method where
  | join
  | detach
  | cancel
  | terminate
  deriving DecidableEq, Repr

/-- Where a call of one of them stands. -/
inductive CallPc where
  /-- in front of the first section -/
  | enter (m : Method)
  | joining (handle : Nat)
  | joinLeave
  | detaching (handle : Nat)
  | detachLeave
  | cancelling (handle : Nat)
  /-- about to read `thread_state` without the lock -/
  | cancelRead (handle : Nat)
  | cancelJoining (handle : Nat)
  | cancelLeave
  | killing (handle : Nat)
  | terminateRead (handle : Nat)
  /-- in the loop of `pthread_tryjoin_np`, in round `i` -/
  | tryJoining (handle i : Nat)
  | terminateJoining (handle : Nat)
  | terminateLeave
  /-- `pthread_join` has said `ESRCH` -/
  | terminateDead (strerror : String)
  deriving DecidableEq, Repr

/-- What a step of a call comes to. -/
inductive Progress where
  | at (pc : CallPc)
  | ended (o : Outcome)
  deriving DecidableEq, Repr

/-- What `Cleanup` was called for. -/
inductive After where
  | destroyed
  /-- `operator=`, with the object assigned from -/
  | assigned (j : Nat)
  deriving DecidableEq, Repr

/-- Where the owner stands; between operations, how the last one ended. -/
inductive Owner where
  | idle (last : Outcome)
  /-- in a call on block `p` -/
  | calling (p : Nat) (pc : CallPc)
  /-- in front of the first section of `Cleanup` of object `i` -/
  | cleanup (i : Nat) (after : After)
  /-- in the call `Cleanup` has made -/
  | cleaning (i p : Nat) (pc : CallPc) (after : After)
  /-- behind `Cleanup` -/
  | leaving (i : Nat) (after : After)
  deriving DecidableEq, Repr

structure State where
  blocks : List ThreadProperty := []
  natives : List Native := []
  objects : List (Option Nat) := []
  owner : Owner := .idle .returned
  deriving DecidableEq, Repr

namespace State

/-- `property_` of object `i`. -/
def property (s : State) (i : Nat) : Option Nat := s.objects[i]?.join

/-- Whether a weak pointer to block `p` has expired. -/
def expired (s : State) (p : Nat) : Bool := !s.objects.contains (some p)

end State

/-! ## The pthread calls -/

/-- `pthread_join`: it does not return zero before the thread is over. -/
def pthreadJoin (ns : List Native) (handle : Nat) (answer : Answer) : Option (List Native) :=
  if answer.res = 0 then
    match ns[handle]? with
    | none => none
    | some n =>
        if n.run = .running then none
        else some (ns.set handle { n with joins := n.joins + 1 })
  else some ns

/-- `pthread_tryjoin_np`: the same, and `EBUSY` while the thread runs. -/
def pthreadTryjoin (ns : List Native) (handle : Nat) (answer : Answer) :
    Option (List Native) :=
  if answer.res = EBUSY then
    match ns[handle]? with
    | none => none
    | some n => if n.run = .running then some ns else none
  else pthreadJoin ns handle answer

def pthreadDetach (ns : List Native) (handle : Nat) (answer : Answer) : List Native :=
  if answer.res = 0 then ns.modify handle fun n => { n with detaches := n.detaches + 1 }
  else ns

/-! ## `Join`, `Detach`, `Cancel`, `Terminate` -/

def maxRetries : Nat := 10

/-- The first section. -/
def Method.firstSection (b : ThreadProperty) : Method → Except Exn Nat
  | .join => b.joinEnter
  | .detach => b.detachEnter
  | .cancel => b.cancelEnter
  | .terminate => b.terminateEnter

/-- Where it leads to: in front of the method's first pthread call. -/
def Method.next (handle : Nat) : Method → CallPc
  | .join => .joining handle
  | .detach => .detaching handle
  | .cancel => .cancelling handle
  | .terminate => .killing handle

/-- Behind a pthread call: on if it returned zero, else out by the exception. -/
def answered (answer : Answer) (next : CallPc) (what : String) : Progress :=
  if answer.res ≠ 0 then .ended (.threw (.runtimeError (what ++ answer.strerror)))
  else .at next

/-- One step of a call on the block `b`. -/
def callStep (ns : List Native) (b : ThreadProperty) (answer : Answer) :
    CallPc → Option (List Native × ThreadProperty × Progress)
  | .enter m =>
      some (ns, b,
        match m.firstSection b with
        | .error e => .ended (.threw e)
        | .ok handle => .at (m.next handle))
  | .joining handle =>
      (pthreadJoin ns handle answer).map fun ns =>
        (ns, b, answered answer .joinLeave "pthread_join failed: ")
  | .joinLeave => some (ns, b.joinLeave, .ended .returned)
  | .detaching handle =>
      some (pthreadDetach ns handle answer, b,
        answered answer .detachLeave "pthread_detach failed: ")
  | .detachLeave => some (ns, b.detachLeave, .ended .returned)
  | .cancelling handle =>
      some (ns, b, answered answer (.cancelRead handle) "pthread_cancel failed: ")
  | .cancelRead handle =>
      some (ns, b, .at (if b.threadState = .joinable then .cancelJoining handle
        else .cancelLeave))
  | .cancelJoining handle =>
      (pthreadJoin ns handle answer).map fun ns =>
        (ns, b, answered answer .cancelLeave "pthread_join after cancel failed: ")
  | .cancelLeave => some (ns, b.cancelLeave, .ended .returned)
  | .killing handle =>
      some (ns, b,
        if answer.res = ESRCH then .ended (.threw (.logicError "Thread already dead"))
        else answered answer (.terminateRead handle) "pthread_kill (SIGTERM) failed: ")
  | .terminateRead handle =>
      some (ns, b, .at (if b.threadState = .joinable then .tryJoining handle 0
        else .terminateLeave))
  | .tryJoining handle i =>
      if i < maxRetries then
        (pthreadTryjoin ns handle answer).map fun ns =>
          (ns, b, .at
            (if answer.res = 0 then .terminateLeave
             else if answer.res ≠ EBUSY then .terminateJoining handle
             else .tryJoining handle (i + 1)))
      else some (ns, b, .at (.terminateJoining handle))
  | .terminateJoining handle =>
      (pthreadJoin ns handle answer).map fun ns =>
        (ns, b,
          if answer.res = ESRCH then .at (.terminateDead answer.strerror)
          else answered answer .terminateLeave "pthread_join after SIGTERM failed: ")
  | .terminateLeave => some (ns, b.terminateLeave, .ended .returned)
  | .terminateDead strerror =>
      some (ns, b.terminateLeave,
        .ended (.threw (.runtimeError ("pthread_join after SIGTERM failed: " ++ strerror))))

/-! ## The owner -/

/-- The `switch` of `Cleanup`. -/
def dispatch : DtorAction → Method
  | .join => .join
  | .detach => .detach
  | .cancel => .cancel
  | .terminate => .terminate

/-- A step of a call on block `p`, in the state. -/
def advance (s : State) (p : Nat) (pc : CallPc) (answer : Answer) :
    Option (State × Progress) :=
  match s.blocks[p]? with
  | none => none
  | some b =>
      (callStep s.natives b answer pc).map fun (ns, b, progress) =>
        ({ s with natives := ns, blocks := s.blocks.set p b }, progress)

def ownerStep (s : State) (answer : Answer) : Option State :=
  match s.owner with
  | .idle _ => none
  | .calling p pc =>
      (advance s p pc answer).map fun (s, progress) =>
        { s with
          owner := match progress with
            | .at pc => .calling p pc
            | .ended o => .idle o }
  | .cleanup i after =>
      match s.property i with
      | none => none
      | some p =>
          match s.blocks[p]? with
          | none => none
          | some b =>
              some { s with
                owner := match b.cleanup with
                  | none => .leaving i after
                  | some action => .cleaning i p (.enter (dispatch action)) after }
  | .cleaning i p pc after =>
      -- an exception of the call is caught and dropped
      (advance s p pc answer).map fun (s, progress) =>
        { s with
          owner := match progress with
            | .at pc => .cleaning i p pc after
            | .ended _ => .leaving i after }
  | .leaving i .destroyed =>
      some { s with objects := s.objects.set i none, owner := .idle .returned }
  | .leaving i (.assigned j) =>
      match s.property j with
      | none => none
      | some p =>
          some { s with
            blocks := s.blocks ++ [{}]
            objects := (s.objects.set i (some p)).set j (some s.blocks.length)
            owner := .idle .returned }

/-- What the owner may begin. -/
inductive Op where
  | construct
  | start (i : Nat) (creates : Creates) (dtorAction : DtorAction) (attr : DetachState)
  | call (i : Nat) (m : Method)
  | moveConstruct (j : Nat)
  /-- object `i` is assigned from object `j` -/
  | moveAssign (i j : Nat)
  | swap (i j : Nat)
  | destroy (i : Nat)
  deriving DecidableEq, Repr

/-- The step by which an operation begins; it is the only one of those that
take no more than one locked section. -/
def operate (s : State) : Op → Option State
  | .construct =>
      some { s with
        blocks := s.blocks ++ [{}]
        objects := s.objects ++ [some s.blocks.length]
        owner := .idle .returned }
  | .start i creates dtorAction attr =>
      match s.property i with
      | none => none
      | some p =>
          match s.blocks[p]? with
          | none => none
          | some b =>
              match b.start (creates.pthreadCreate s.natives.length) dtorAction with
              | .error e => some { s with owner := .idle (.threw e) }
              | .ok b =>
                  some { s with
                    blocks := s.blocks.set p b
                    natives := s.natives ++ [{ property := p, created := attr }]
                    owner := .idle .returned }
  | .call i m => (s.property i).map fun p => { s with owner := .calling p (.enter m) }
  | .moveConstruct j =>
      (s.property j).map fun p =>
        { s with
          blocks := s.blocks ++ [{}]
          objects := s.objects.set j (some s.blocks.length) ++ [some p]
          owner := .idle .returned }
  | .moveAssign i j =>
      match s.property i, s.property j with
      | some _, some _ =>
          some { s with owner := if i = j then .idle .returned else .cleanup i (.assigned j) }
      | _, _ => none
  | .swap i j =>
      match s.property i, s.property j with
      | some p, some q =>
          some { s with
            objects := (s.objects.set i (some q)).set j (some p)
            owner := .idle .returned }
      | _, _ => none
  | .destroy i => (s.property i).map fun _ => { s with owner := .cleanup i .destroyed }

/-! ## The machine -/

inductive Action where
  | op (o : Op)
  /-- the owner's next step in the operation it is in -/
  | owner (answer : Answer)
  | finishes (handle : Nat)
  | unwinds (handle : Nat)
  deriving DecidableEq, Repr

/-- A callable ends, and `ThreadEntry` updates the block if it is still
there. -/
def finishStep (s : State) (handle : Nat) : Option State :=
  match s.natives[handle]? with
  | none => none
  | some n =>
      if n.run = .running then
        some { s with
          natives := s.natives.set handle { n with run := .finished }
          blocks :=
            if s.expired n.property then s.blocks
            else s.blocks.modify n.property ThreadProperty.threadEntry }
      else none

def unwindStep (s : State) (handle : Nat) : Option State :=
  match s.natives[handle]? with
  | none => none
  | some n =>
      if n.run = .running then
        some { s with natives := s.natives.set handle { n with run := .unwound } }
      else none

def step (s : State) : Action → Option State
  | .op o =>
      match s.owner with
      | .idle _ => operate s o
      | _ => none
  | .owner answer => ownerStep s answer
  | .finishes handle => finishStep s handle
  | .unwinds handle => unwindStep s handle

/-- A program without a `Thread`, and everything its owner can do. -/
def threads : Machine State Action where
  init := {}
  step := step

/-! ## Schedules -/

/-- The owner alone, in the operation it is in; each pthread call succeeds. -/
def proceeds (n : Nat) : List Action := List.replicate n (.owner {})

/-- `Start`, which succeeds. -/
def starts (i : Nat) (dtorAction : DtorAction) : Action :=
  .op (.start i { avail := 1 } dtorAction .joinable)

end ThreadPool.Pthread
