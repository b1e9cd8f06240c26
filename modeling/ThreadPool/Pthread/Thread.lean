/-!
# The thread wrapper, as the pools use it

`congzhi::Thread` keeps its state in a property block behind a mutex. Every
locked section of its methods is one function here, so that a method that
releases the lock around a pthread call (`Join`) is the sequence of its
sections, with the pthread call left to whoever interleaves them.

What the block records is what the owner did, not what the native thread
did: `ThreadEntry` turns `DETACHED` into `TERMINATED` when the callable
ends, but a `JOINABLE` block stays `JOINABLE` until somebody joins it. The
last lemmas of the file state that, and what it means for `Start`.
-/

namespace ThreadPool

/-- The exceptions the sources throw, with their texts. -/
inductive Exn where
  | logicError (what : String)
  | runtimeError (what : String)
  | outOfRange (what : String)
  | invalidArgument (what : String)
  deriving DecidableEq, Repr

/-- How a call ended. -/
inductive Outcome where
  | returned
  | threw (e : Exn)
  deriving DecidableEq, Repr

inductive ThreadState where
  | joinable
  | detached
  | terminated
  | invalid
  deriving DecidableEq, Repr

inductive DtorAction where
  | join
  | detach
  | cancel
  | terminate
  deriving DecidableEq, Repr

/-- `Thread::ThreadProperty`, less its mutex: the sections below are what the
mutex makes atomic. -/
structure ThreadProperty where
  threadHandle : Nat := 0
  threadState : ThreadState := .invalid
  dtorAction : DtorAction := .join
  isComplete : Bool := false
  deriving DecidableEq, Repr

/-- What `pthread_create` is going to answer: how many more calls succeed
before one fails, and the text `strerror` has for that failure. -/
structure Creates where
  avail : Nat := 0
  strerror : String := "Resource temporarily unavailable"
  deriving DecidableEq, Repr

/-- `pthread_create`, handing out `handle` where it succeeds. -/
def Creates.pthreadCreate (c : Creates) (handle : Nat) : Except String Nat :=
  if c.avail = 0 then .error c.strerror else .ok handle

namespace ThreadProperty

/-- `Thread::Start`, given what `pthread_create` answers. -/
def start (p : ThreadProperty) (create : Except String Nat)
    (dtorAction : DtorAction := .join) : Except Exn ThreadProperty :=
  match p.threadState with
  | .joinable | .detached => .error (.logicError "Thread is already running")
  | .terminated | .invalid =>
      match create with
      | .error e => .error (.runtimeError ("pthread_create failed: " ++ e))
      | .ok handle =>
          .ok { p with
            threadHandle := handle
            threadState := .joinable
            dtorAction := dtorAction }

/-- `Thread::IsJoinable`. -/
def isJoinable (p : ThreadProperty) : Bool := p.threadState = .joinable

/-- `Thread::NativeHandle`: the pointer to the handle, null unless the block
is `JOINABLE`. -/
def nativeHandle (p : ThreadProperty) : Option Nat :=
  if p.threadState = .joinable then some p.threadHandle else none

/-- The section of `Thread::Join` in front of `pthread_join`. -/
def joinEnter (p : ThreadProperty) : Except Exn Nat :=
  if p.threadState ≠ .joinable then .error (.logicError "Thread not joinable")
  else if p.dtorAction = .detach then
    .error (.logicError "Thread not joinable (DETACH dtor action)")
  else .ok p.threadHandle

/-- The section of `Thread::Join` after `pthread_join` returned. -/
def joinLeave (p : ThreadProperty) : ThreadProperty :=
  { p with threadState := .terminated }

/-- The section of `Thread::Detach` in front of `pthread_detach`. -/
def detachEnter (p : ThreadProperty) : Except Exn Nat :=
  if p.threadState ≠ .joinable then .error (.logicError "Thread not detachable")
  else .ok p.threadHandle

/-- The section of `Thread::Detach` after `pthread_detach` returned. -/
def detachLeave (p : ThreadProperty) : ThreadProperty :=
  { p with threadState := if p.isComplete then .terminated else .detached }

/-- The section of `Thread::Cancel` in front of `pthread_cancel`. -/
def cancelEnter (p : ThreadProperty) : Except Exn Nat :=
  if p.threadState ≠ .joinable ∧ p.threadState ≠ .detached then
    .error (.logicError "Thread not cancelable")
  else .ok p.threadHandle

/-- The last section of `Thread::Cancel`. -/
def cancelLeave (p : ThreadProperty) : ThreadProperty :=
  { p with threadState := .terminated }

/-- The section of `Thread::Terminate` in front of `pthread_kill`. -/
def terminateEnter (p : ThreadProperty) : Except Exn Nat :=
  if p.threadState ≠ .joinable ∧ p.threadState ≠ .detached then
    .error (.logicError "Thread not running, cannot terminate")
  else .ok p.threadHandle

/-- The last section of `Thread::Terminate`, wherever it is left. -/
def terminateLeave (p : ThreadProperty) : ThreadProperty :=
  { p with threadState := .terminated }

/-- `Thread::IsCompleteExecution`. -/
def isCompleteExecution (p : ThreadProperty) : Bool := p.isComplete

/-- The update at the end of `Thread::ThreadEntry`, once the callable has
returned or its `std::exception` has been caught. -/
def threadEntry (p : ThreadProperty) : ThreadProperty :=
  { p with
    threadState := if p.threadState = .detached then .terminated else p.threadState
    isComplete := true }

/-- The first section of `Thread::Cleanup`: which of the four operations the
destructor goes on to call, if any. -/
def cleanup (p : ThreadProperty) : Option DtorAction :=
  match p.threadState with
  | .terminated | .invalid | .detached => none
  | .joinable => some p.dtorAction

/-- The destructor acts on joinable blocks only. -/
theorem cleanup_eq (p : ThreadProperty) :
    p.cleanup = if p.isJoinable then some p.dtorAction else none := by
  unfold cleanup isJoinable
  cases p.threadState <;> rfl

/-- A block that `Start` has just set up with the default action, or that
has been through `ThreadEntry` since. -/
def Started (p : ThreadProperty) : Prop :=
  p.threadState = .joinable ∧ p.dtorAction = .join

theorem Started.threadEntry {p : ThreadProperty} (h : p.Started) :
    p.threadEntry.Started := by
  refine ⟨?_, h.2⟩
  rw [ThreadProperty.threadEntry, h.1]
  rfl

/-- A started block cannot be started again, whatever `pthread_create` would
answer and however long its thread has been over. -/
theorem Started.start_throws {p : ThreadProperty} (h : p.Started)
    (create : Except String Nat) :
    p.start create = .error (.logicError "Thread is already running") := by
  simp only [start, h.1]

theorem Started.isJoinable {p : ThreadProperty} (h : p.Started) :
    p.isJoinable = true := decide_eq_true h.1

theorem Started.joinEnter {p : ThreadProperty} (h : p.Started) :
    p.joinEnter = .ok p.threadHandle := by
  rw [ThreadProperty.joinEnter, if_neg (fun hn => hn h.1), h.2]
  rfl

theorem Started.nativeHandle {p : ThreadProperty} (h : p.Started) :
    p.nativeHandle = some p.threadHandle := if_pos h.1

end ThreadProperty

end ThreadPool
