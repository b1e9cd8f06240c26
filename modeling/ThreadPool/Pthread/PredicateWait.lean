import ThreadPool.Lib.Machine
import ThreadPool.Pthread.Deadline

/-!
# Timed waits for a predicate

`ConditionVariable::WaitUntil` with a predicate is a loop around the wait
with a deadline. The state the predicate reads belongs to the mutex: other
threads change it whenever they hold the mutex, which they can while the
caller waits. A step is what the caller does between two points where it can
be overtaken, or what another thread does. How a wait ends, by a signal, for
no reason, by the deadline or by an error, is up to whoever schedules, and so
is when the caller gets the mutex back.

Every evaluation of the predicate, every call of `TimedWait` that blocks and
every result of one is a line in a log.
-/

namespace ThreadPool

open Interleave

/-- Who holds the mutex. -/
inductive MutexHolder where
  | caller
  | other
  | nobody
  deriving DecidableEq, Repr

/-- Where the caller is: at the test of the loop, before the wait, in it, past
it with the mutex still to get, at the test after a timeout, or out. -/
inductive WaitPc where
  | test
  | wait
  | blocked
  | woken (res : Int)
  | retest
  | returned (status : WaitStatus)
  | threw (e : Exn)
  deriving DecidableEq, Repr

inductive WaitEvent where
  | evaluated (value held : Bool)
  | blocked (ts : Timespec)
  | waited (result : Except Exn WaitStatus)
  deriving DecidableEq, Repr

structure WaitState (σ : Type*) where
  pc : WaitPc := .test
  shared : σ
  holder : MutexHolder := .caller
  log : List WaitEvent := []
  deriving DecidableEq, Repr

inductive WaitAction (σ : Type*) where
  /-- The caller evaluates the predicate. -/
  | evaluate
  /-- The caller lets go of the mutex and blocks. -/
  | block
  /-- `pthread_cond_timedwait` returns `res` and has not blocked. -/
  | refuse (res : Int)
  /-- The wait is over. -/
  | wake (res : Int)
  /-- The caller gets the mutex, and `pthread_cond_timedwait` returns. -/
  | relock
  | otherLocks
  | otherWrites (shared : σ)
  | otherUnlocks
  deriving DecidableEq, Repr

/-- The caller's own steps, and not those by which a wait ends. -/
def WaitAction.byCaller {σ : Type*} : WaitAction σ → Bool
  | .evaluate | .block | .refuse _ => true
  | _ => false

namespace WaitState

variable {σ : Type*}

/-- Go on at `pc`, with a line in the log. -/
def record (s : WaitState σ) (pc : WaitPc) (e : WaitEvent) : WaitState σ :=
  { s with pc := pc, log := s.log ++ [e] }

/-- The caller's evaluation of the predicate. -/
def evaluation (pred : σ → Bool) (s : WaitState σ) : WaitEvent :=
  .evaluated (pred s.shared) (s.holder = .caller)

/-- What the loop makes of the result of `TimedWait`. -/
def afterWait : Except Exn WaitStatus → WaitPc
  | .ok .nontimeout => .test
  | .ok .timeout => .retest
  | .error e => .threw e

/-- `TimedWait` returns. -/
def waited (strerror : Int → String) (res : Int) (s : WaitState σ) : WaitState σ :=
  s.record (afterWait (timedWait strerror res)) (.waited (timedWait strerror res))

/-- One step of `WaitUntil` with a predicate, or of another thread. -/
def step (pred : σ → Bool) (strerror : Int → String) (absTime : Int) (s : WaitState σ) :
    WaitAction σ → Option (WaitState σ)
  | .evaluate =>
      match s.pc with
      | .test =>
          some (s.record (if pred s.shared then .returned .nontimeout else .wait)
            (s.evaluation pred))
      | .retest =>
          some (s.record (.returned (if pred s.shared then .nontimeout else .timeout))
            (s.evaluation pred))
      | _ => none
  | .block =>
      if s.pc = .wait then
        some { s.record .blocked (.blocked (waitUntilTimespec absTime)) with
          holder := .nobody }
      else none
  | .refuse res =>
      if s.pc = .wait ∧ res ≠ 0 then some (s.waited strerror res) else none
  | .wake res => if s.pc = .blocked then some { s with pc := .woken res } else none
  | .relock =>
      match s.pc with
      | .woken res =>
          if s.holder = .nobody then
            some { s.waited strerror res with holder := .caller }
          else none
      | _ => none
  | .otherLocks => if s.holder = .nobody then some { s with holder := .other } else none
  | .otherWrites shared =>
      if s.holder = .other then some { s with shared := shared } else none
  | .otherUnlocks => if s.holder = .other then some { s with holder := .nobody } else none

end WaitState

/-- A call of `WaitUntil` with a predicate, by a thread that holds the mutex. -/
def predicateWaitUntil {σ : Type*} (pred : σ → Bool) (strerror : Int → String)
    (absTime : Int) (shared : σ) : Machine (WaitState σ) (WaitAction σ) where
  init := { shared := shared }
  step := WaitState.step pred strerror absTime

/-- A call of `WaitFor` with a predicate, where the clock shows `now`. -/
def predicateWaitFor {σ : Type*} (pred : σ → Bool) (strerror : Int → String)
    (now relTime : Int) (shared : σ) : Machine (WaitState σ) (WaitAction σ) :=
  predicateWaitUntil pred strerror (wrapCount (now + relTime)) shared

/-- What there is no blocking after: the predicate seen true, or a timeout. -/
def WaitEvent.Stops : WaitEvent → Prop
  | .evaluated value _ => value = true
  | .blocked _ => False
  | .waited result => result = .ok .timeout

def WaitEvent.result? : WaitEvent → Option (Except Exn WaitStatus)
  | .waited result => some result
  | _ => none

/-- The result of the last `TimedWait`. -/
def lastWait (log : List WaitEvent) : Option (Except Exn WaitStatus) :=
  (log.filterMap WaitEvent.result?).getLast?

theorem lastWait_append (log : List WaitEvent) (e : WaitEvent) :
    lastWait (log ++ [e]) = e.result?.or (lastWait log) := by
  rw [lastWait, List.filterMap_append, List.getLast?_append, lastWait]
  cases e with
  | evaluated value held => rfl
  | blocked ts => rfl
  | waited result => rfl

/-! ## The log -/

/-- A log that keeps to the rules: every evaluation with the mutex, every
block until the same time, and none after an event that stops the loop. -/
structure GoodLog (absTime : Int) (log : List WaitEvent) : Prop where
  held : ∀ value held, .evaluated value held ∈ log → held = true
  deadline : ∀ ts, .blocked ts ∈ log → ts = waitUntilTimespec absTime
  ordered : log.Pairwise fun a b => a.Stops → ∀ ts, b ≠ .blocked ts

section Log

variable {absTime : Int} {log : List WaitEvent}

theorem GoodLog.concat {e : WaitEvent} (h : GoodLog absTime log)
    (hheld : ∀ value held, e = .evaluated value held → held = true)
    (hdeadline : ∀ ts, e = .blocked ts → ts = waitUntilTimespec absTime)
    (hordered : ∀ a ∈ log, a.Stops → ∀ ts, e ≠ .blocked ts) :
    GoodLog absTime (log ++ [e]) := by
  refine ⟨fun value held hmem => ?_, fun ts hmem => ?_, ?_⟩
  · rcases List.mem_append.mp hmem with hmem | hmem
    · exact h.held value held hmem
    · exact hheld value held (List.mem_singleton.mp hmem).symm
  · rcases List.mem_append.mp hmem with hmem | hmem
    · exact h.deadline ts hmem
    · exact hdeadline ts (List.mem_singleton.mp hmem).symm
  · refine List.pairwise_append.mpr ⟨h.ordered, List.pairwise_singleton _ _, ?_⟩
    intro a ha b hb
    obtain rfl := List.mem_singleton.mp hb
    exact hordered a ha

theorem GoodLog.append {e : WaitEvent} (h : GoodLog absTime log)
    (hheld : ∀ value held, e = .evaluated value held → held = true)
    (hblock : ∀ ts, e ≠ .blocked ts) : GoodLog absTime (log ++ [e]) := by
  refine h.concat hheld (fun ts heq => ?_) fun _ _ _ => hblock
  exact absurd heq (hblock ts)

theorem GoodLog.append_blocked (h : GoodLog absTime log)
    (hfresh : ∀ e ∈ log, ¬e.Stops) :
    GoodLog absTime (log ++ [.blocked (waitUntilTimespec absTime)]) := by
  refine h.concat (fun _ _ heq => (by cases heq)) (fun ts heq => ?_) fun e he hstops => ?_
  · exact (WaitEvent.blocked.inj heq).symm
  · exact absurd hstops (hfresh e he)

theorem fresh_append {e : WaitEvent} (hfresh : ∀ e ∈ log, ¬e.Stops) (he : ¬e.Stops) :
    ∀ e' ∈ log ++ [e], ¬e'.Stops := by
  intro e' hmem
  rcases List.mem_append.mp hmem with hmem | hmem
  · exact hfresh e' hmem
  · obtain rfl := List.mem_singleton.mp hmem
    exact he

end Log

/-! ## The invariant -/

/-- In the wait, without the mutex. -/
def WaitPc.Inside : WaitPc → Prop
  | .blocked | .woken _ => True
  | _ => False

/-- Still in the loop. -/
def WaitPc.Looping : WaitPc → Prop
  | .test | .wait | .blocked | .woken _ => True
  | _ => False

/-- Past a timeout, and not told otherwise. -/
def WaitPc.Expired : WaitPc → Prop
  | .retest | .returned .timeout => True
  | _ => False

/-- What holds of every state: the caller has the mutex wherever it is not in
the wait, the log keeps to the rules and has nothing that stops the loop while
the caller is in it, and past the loop the result is the predicate's. -/
structure WaitInv {σ : Type*} (pred : σ → Bool) (absTime : Int) (s : WaitState σ) :
    Prop where
  mutex : s.holder = .caller ↔ ¬s.pc.Inside
  log : GoodLog absTime s.log
  fresh : s.pc.Looping → ∀ e ∈ s.log, ¬e.Stops
  settled : ∀ status, s.pc = .returned status →
    (status = .nontimeout ↔ pred s.shared = true)
  expired : s.pc.Expired → lastWait s.log = some (.ok .timeout)

section Steps

variable {σ : Type*} {pred : σ → Bool} {strerror : Int → String} {absTime : Int}
  {s s' : WaitState σ}

theorem WaitInv.init (shared : σ) : WaitInv pred absTime { shared := shared } where
  mutex := iff_of_true rfl id
  log := ⟨fun _ _ h => (by cases h), fun _ h => (by cases h), List.Pairwise.nil⟩
  fresh := fun _ _ h => by cases h
  settled := fun _ h => by cases h
  expired := fun h => h.elim

theorem WaitInv.evaluation_log (h : WaitInv pred absTime s) (hout : ¬s.pc.Inside) :
    GoodLog absTime (s.log ++ [s.evaluation pred]) := by
  refine h.log.append ?_ fun ts heq => by cases heq
  intro value held heq
  cases heq
  exact decide_eq_true (h.mutex.mpr hout)

theorem WaitInv.test (h : WaitInv pred absTime s) (hpc : s.pc = .test) :
    WaitInv pred absTime (s.record (if pred s.shared then .returned .nontimeout else .wait)
      (s.evaluation pred)) := by
  have hout : ¬s.pc.Inside := by rw [hpc]; exact id
  have hmutex := h.mutex.mpr hout
  have hlog := h.evaluation_log hout
  cases hpred : pred s.shared with
  | true =>
      refine ⟨iff_of_true hmutex id, hlog, fun hloop => hloop.elim, fun status hst => ?_,
        fun hexp => hexp.elim⟩
      obtain rfl := WaitPc.returned.inj hst
      exact iff_of_true rfl hpred
  | false =>
      have hfresh := h.fresh (by rw [hpc]; exact trivial)
      refine ⟨iff_of_true hmutex id, hlog, fun _ => fresh_append hfresh ?_,
        fun _ hst => (by cases hst), fun hexp => hexp.elim⟩
      rw [WaitState.evaluation, WaitEvent.Stops, hpred]
      exact Bool.false_ne_true

theorem WaitInv.retest (h : WaitInv pred absTime s) (hpc : s.pc = .retest) :
    WaitInv pred absTime (s.record
      (.returned (if pred s.shared then .nontimeout else .timeout))
      (s.evaluation pred)) := by
  have hout : ¬s.pc.Inside := by rw [hpc]; exact id
  refine ⟨iff_of_true (h.mutex.mpr hout) id, h.evaluation_log hout, fun hloop => hloop.elim,
    fun status hst => ?_, fun _ => ?_⟩
  · obtain rfl := WaitPc.returned.inj hst
    show _ ↔ pred s.shared = true
    cases pred s.shared with
    | true => exact iff_of_true rfl rfl
    | false => exact iff_of_false (by decide) Bool.false_ne_true
  · show lastWait (s.log ++ _) = _
    rw [lastWait_append]
    exact h.expired (by rw [hpc]; exact trivial)

theorem WaitInv.block (h : WaitInv pred absTime s) (hpc : s.pc = .wait) :
    WaitInv pred absTime
      { s.record .blocked (.blocked (waitUntilTimespec absTime)) with holder := .nobody } := by
  have hfresh := h.fresh (by rw [hpc]; exact trivial)
  exact ⟨iff_of_false (fun hc => by cases hc) (not_not.mpr trivial),
    h.log.append_blocked hfresh, fun _ => fresh_append hfresh id,
    fun _ hst => (by cases hst), fun hexp => hexp.elim⟩

theorem WaitInv.waited (h : WaitInv pred absTime s) (hloop : s.pc.Looping) (res : Int) :
    WaitInv pred absTime { s.waited strerror res with holder := .caller } := by
  have hlog : GoodLog absTime (s.log ++ [.waited (timedWait strerror res)]) :=
    h.log.append (fun _ _ heq => (by cases heq)) fun _ heq => (by cases heq)
  have hlast : lastWait (s.log ++ [.waited (timedWait strerror res)]) =
      some (timedWait strerror res) := lastWait_append _ _
  rw [WaitState.waited]
  cases hres : timedWait strerror res with
  | error e =>
      rw [hres] at hlog
      exact ⟨iff_of_true rfl id, hlog, fun hl => hl.elim, fun _ hst => (by cases hst),
        fun hexp => hexp.elim⟩
  | ok status =>
      rw [hres] at hlog hlast
      cases status with
      | nontimeout =>
          exact ⟨iff_of_true rfl id, hlog,
            fun _ => fresh_append (h.fresh hloop) fun hstops => (by cases hstops),
            fun _ hst => (by cases hst), fun hexp => hexp.elim⟩
      | timeout =>
          exact ⟨iff_of_true rfl id, hlog, fun hl => hl.elim, fun _ hst => (by cases hst),
            fun _ => hlast⟩

theorem WaitInv.others (h : WaitInv pred absTime s) (hpc : s'.pc = s.pc)
    (hlog : s'.log = s.log) (hinside : s.pc.Inside) (hholder : s'.holder ≠ .caller) :
    WaitInv pred absTime s' := by
  refine ⟨?_, hlog ▸ h.log, (by rw [hpc, hlog]; exact h.fresh), fun status hst => ?_, ?_⟩
  · rw [hpc]
    exact iff_of_false hholder (not_not.mpr hinside)
  · rw [← hpc, hst] at hinside
    exact hinside.elim
  · rw [hpc, hlog]
    exact h.expired

theorem WaitInv.inside (h : WaitInv pred absTime s) (hholder : s.holder ≠ .caller) :
    s.pc.Inside := by
  by_contra hout
  exact hholder (h.mutex.mpr hout)

/-- Every step keeps the invariant. -/
theorem WaitInv.step {a : WaitAction σ} (h : WaitInv pred absTime s)
    (hs : s.step pred strerror absTime a = some s') : WaitInv pred absTime s' := by
  cases a with
  | evaluate =>
      rw [WaitState.step] at hs
      split at hs
      · next hpc =>
          cases hs
          exact h.test hpc
      · next hpc =>
          cases hs
          exact h.retest hpc
      · cases hs
  | block =>
      obtain ⟨hpc, hs⟩ := Option.ite_none_right_eq_some.mp hs
      cases hs
      exact h.block hpc
  | refuse res =>
      obtain ⟨⟨hpc, -⟩, hs⟩ := Option.ite_none_right_eq_some.mp hs
      cases hs
      have hmutex : s.holder = .caller := h.mutex.mpr (by rw [hpc]; exact id)
      have hnext : WaitInv pred absTime
          { s.waited strerror res with holder := .caller } :=
        h.waited (by rw [hpc]; exact trivial) res
      rwa [← hmutex] at hnext
  | wake res =>
      obtain ⟨hpc, hs⟩ := Option.ite_none_right_eq_some.mp hs
      cases hs
      have hinside : s.pc.Inside := by rw [hpc]; exact trivial
      exact ⟨iff_of_false (fun hc => h.mutex.mp hc hinside) (not_not.mpr trivial), h.log,
        fun _ => h.fresh (by rw [hpc]; exact trivial), fun _ hst => (by cases hst),
        fun hexp => hexp.elim⟩
  | relock =>
      rw [WaitState.step] at hs
      split at hs
      · next res hpc =>
          obtain ⟨-, hs⟩ := Option.ite_none_right_eq_some.mp hs
          cases hs
          exact h.waited (by rw [hpc]; exact trivial) res
      · cases hs
  | otherLocks =>
      obtain ⟨hheld, hs⟩ := Option.ite_none_right_eq_some.mp hs
      cases hs
      exact h.others rfl rfl (h.inside (by rw [hheld]; decide)) fun hc => by cases hc
  | otherWrites shared =>
      obtain ⟨hheld, hs⟩ := Option.ite_none_right_eq_some.mp hs
      cases hs
      have hother : s.holder ≠ .caller := by rw [hheld]; decide
      exact h.others rfl rfl (h.inside hother) hother
  | otherUnlocks =>
      obtain ⟨hheld, hs⟩ := Option.ite_none_right_eq_some.mp hs
      cases hs
      exact h.others rfl rfl (h.inside (by rw [hheld]; decide)) fun hc => by cases hc

theorem waitInv_of_reachable {shared : σ}
    (hr : (predicateWaitUntil pred strerror absTime shared).Reachable s) :
    WaitInv pred absTime s :=
  hr.invariant (WaitInv.init shared) fun _ _ _ _ h hs => h.step hs

/-- Behind a false evaluation the caller is about to wait, or it has returned. -/
def Undecided (s : WaitState σ) : Prop :=
  ∀ held, s.log.getLast? = some (.evaluated false held) →
    s.pc = .wait ∨ s.pc = .returned .timeout

theorem undecided_of_last {e : WaitEvent} (hlog : s'.log = s.log ++ [e])
    (he : ∀ held, e = .evaluated false held → s'.pc = .wait ∨ s'.pc = .returned .timeout) :
    Undecided s' := by
  intro held hlast
  rw [hlog, List.getLast?_concat, Option.some.injEq] at hlast
  exact he held hlast

theorem undecided_of_step {a : WaitAction σ} (h : Undecided s)
    (hs : s.step pred strerror absTime a = some s') : Undecided s' := by
  cases a with
  | evaluate =>
      rw [WaitState.step] at hs
      split at hs
      · cases hs
        refine undecided_of_last rfl fun held heq => Or.inl ?_
        have hpred : pred s.shared = false := (WaitEvent.evaluated.inj heq).1
        show (if pred s.shared = true then WaitPc.returned .nontimeout else .wait) = .wait
        rw [hpred, if_neg Bool.false_ne_true]
      · cases hs
        refine undecided_of_last rfl fun held heq => Or.inr ?_
        have hpred : pred s.shared = false := (WaitEvent.evaluated.inj heq).1
        show WaitPc.returned (if pred s.shared = true then .nontimeout else .timeout) = _
        rw [hpred, if_neg Bool.false_ne_true]
      · cases hs
  | block =>
      obtain ⟨-, hs⟩ := Option.ite_none_right_eq_some.mp hs
      cases hs
      exact undecided_of_last rfl fun _ heq => by cases heq
  | refuse res =>
      obtain ⟨-, hs⟩ := Option.ite_none_right_eq_some.mp hs
      cases hs
      exact undecided_of_last rfl fun _ heq => by cases heq
  | wake res =>
      obtain ⟨hpc, hs⟩ := Option.ite_none_right_eq_some.mp hs
      cases hs
      intro held hlast
      rcases h held hlast with hwait | hret
      · rw [hpc] at hwait
        cases hwait
      · rw [hpc] at hret
        cases hret
  | relock =>
      rw [WaitState.step] at hs
      split at hs
      · obtain ⟨-, hs⟩ := Option.ite_none_right_eq_some.mp hs
        cases hs
        exact undecided_of_last rfl fun _ heq => by cases heq
      · cases hs
  | otherLocks | otherWrites shared | otherUnlocks =>
      obtain ⟨-, hs⟩ := Option.ite_none_right_eq_some.mp hs
      cases hs
      exact h

theorem undecided_of_reachable {shared : σ}
    (hr : (predicateWaitUntil pred strerror absTime shared).Reachable s) : Undecided s :=
  hr.invariant (P := Undecided) (fun _ h => by cases h)
    fun _ _ _ _ h hs => undecided_of_step h hs

/-- After an event that stops the loop the caller's next step is its last. -/
theorem WaitInv.settles {a : WaitAction σ} (h : WaitInv pred absTime s)
    (hstops : ∃ e ∈ s.log, e.Stops) (ha : a.byCaller = true)
    (hs : s.step pred strerror absTime a = some s') : ∃ status, s'.pc = .returned status := by
  obtain ⟨e, he, hstops⟩ := hstops
  have hout : ¬s.pc.Looping := fun hloop => h.fresh hloop e he hstops
  cases a with
  | evaluate =>
      rw [WaitState.step] at hs
      split at hs
      · next hpc =>
          rw [hpc] at hout
          exact absurd trivial hout
      · cases hs
        exact ⟨_, rfl⟩
      · cases hs
  | block =>
      obtain ⟨hpc, -⟩ := Option.ite_none_right_eq_some.mp hs
      rw [hpc] at hout
      exact absurd trivial hout
  | refuse res =>
      obtain ⟨⟨hpc, -⟩, -⟩ := Option.ite_none_right_eq_some.mp hs
      rw [hpc] at hout
      exact absurd trivial hout
  | wake res | relock | otherLocks | otherWrites shared | otherUnlocks => cases ha

theorem blocks_of_wait {a : WaitAction σ} (hpc : s.pc = .wait) (ha : a.byCaller = true)
    (hs : s.step pred strerror absTime a = some s') :
    s'.pc = .blocked ∨ ∃ res, a = .refuse res := by
  cases a with
  | evaluate =>
      simp only [WaitState.step, hpc] at hs
      cases hs
  | block =>
      obtain ⟨-, hs⟩ := Option.ite_none_right_eq_some.mp hs
      cases hs
      exact Or.inl rfl
  | refuse res => exact Or.inr ⟨res, rfl⟩
  | wake res | relock | otherLocks | otherWrites shared | otherUnlocks => cases ha

end Steps

/-- A wait that reports truthfully: what it returns is the predicate's value
then, a timeout is one that the last wait reported, and the log keeps to the
rules. After a timeout or a true evaluation the caller's next step returns, if
it has not yet; after a false one without a timeout it blocks, unless the
system refuses. -/
structure ReportsTruthfully {σ : Type*} (pred : σ → Bool) (strerror : Int → String)
    (absTime : Int) (s : WaitState σ) : Prop where
  status : ∀ status, s.pc = .returned status →
    (status = .nontimeout ↔ pred s.shared = true)
  timeout : s.pc = .returned .timeout → lastWait s.log = some (.ok .timeout)
  log : GoodLog absTime s.log
  settles : (∃ e ∈ s.log, e.Stops) → ∀ a s', a.byCaller = true →
    s.step pred strerror absTime a = some s' → ∃ status, s'.pc = .returned status
  blocks : ∀ held, s.log.getLast? = some (.evaluated false held) →
    lastWait s.log ≠ some (.ok .timeout) → ∀ a s', a.byCaller = true →
    s.step pred strerror absTime a = some s' → s'.pc = .blocked ∨ ∃ res, a = .refuse res

/-- Both waits with a predicate, in every state of every call. -/
theorem predicate_wait_truthful {σ : Type*} (pred : σ → Bool) (strerror : Int → String)
    (shared : σ) (s : WaitState σ) :
    (∀ absTime, (predicateWaitUntil pred strerror absTime shared).Reachable s →
      ReportsTruthfully pred strerror absTime s) ∧
    ∀ now relTime, (predicateWaitFor pred strerror now relTime shared).Reachable s →
      ReportsTruthfully pred strerror (wrapCount (now + relTime)) s := by
  have huntil : ∀ absTime, (predicateWaitUntil pred strerror absTime shared).Reachable s →
      ReportsTruthfully pred strerror absTime s := by
    intro absTime hr
    have h := waitInv_of_reachable hr
    have htimeout : s.pc = .returned .timeout → lastWait s.log = some (.ok .timeout) :=
      fun hpc => h.expired (by rw [hpc]; exact trivial)
    refine ⟨h.settled, htimeout, h.log, fun hstops a s' ha hs => h.settles hstops ha hs,
      fun held hlast hnot a s' ha hs => ?_⟩
    rcases undecided_of_reachable hr held hlast with hpc | hpc
    · exact blocks_of_wait hpc ha hs
    · exact absurd (htimeout hpc) hnot
  exact ⟨huntil, fun now relTime hr => huntil _ hr⟩

/-- The predicate becomes true between the timeout and the mutex. -/
theorem predicate_wait_truthful_late :
    ∃ s : WaitState Bool, s.pc = .returned .nontimeout ∧ s.shared = true ∧
      ReportsTruthfully id (fun _ => "") 0 s := by
  obtain ⟨s, hr, hpc, hshared⟩ := Machine.exists_of_run
    (predicateWaitUntil id (fun _ => "") 0 false)
    [.evaluate, .block, .wake etimedout, .otherLocks, .otherWrites true, .otherUnlocks,
      .relock, .evaluate]
    (fun s => s.pc = .returned .nontimeout ∧ s.shared = true) (by decide)
  exact ⟨s, hpc, hshared, (predicate_wait_truthful id (fun _ => "") false s).1 0 hr⟩

end ThreadPool
