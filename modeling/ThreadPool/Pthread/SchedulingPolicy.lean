import ThreadPool.Pthread.Thread

/-!
# The scheduling policy of a thread attribute

`ThreadAttribute::SetSchedulingPolicy` sets three things by three calls, and
checks its arguments between the first and the second. What a call has set
stays set when a later check or call throws: `Thread::Start`, which asks
first and publishes last, leaves nothing behind.

The functions run in a monad of states and exceptions that keeps the state
where it throws. What the calls return is an argument.
-/

namespace ThreadPool

/-- `EPERM`. -/
def eperm : Int := 1

/-- The values of the platform's macros. -/
def schedOther : Int := 0
def schedFifo : Int := 1
def schedRr : Int := 2

/-- `SchedulingPolicy`; an `enum class` has values that no enumerator names. -/
inductive SchedulingPolicy where
  | fifo
  | rr
  | default
  | unnamed (value : Int)
  deriving DecidableEq, Repr

inductive InheritSched where
  | inheritSched
  | explicitSched
  deriving DecidableEq, Repr

/-- What the calls change of a `pthread_attr_t`. -/
structure SchedAttributes where
  inheritsched : InheritSched := .inheritSched
  schedpolicy : Int := schedOther
  schedPriority : Int := 0
  deriving DecidableEq, Repr

/-- What the calls return, and the bounds of `sched_get_priority_min` and
`sched_get_priority_max` for `SCHED_RR`. -/
structure SchedAnswers where
  setinheritsched : Int := 0
  setschedpolicy : Int := 0
  setschedparam : Int := 0
  getschedpolicy : Int := 0
  priorityMin : Int := 1
  priorityMax : Int := 99
  strerror : Int → String := fun _ => "Invalid argument"

/-- A method of an attribute, which can throw. -/
abbrev AttrM := ExceptT Exn (StateM SchedAttributes)

namespace SchedAnswers

variable (os : SchedAnswers)

/-- A call that fails changes nothing. -/
def pthreadAttrSetinheritsched (value : InheritSched) : AttrM Int := do
  if os.setinheritsched = 0 then
    modify fun attr => { attr with inheritsched := value }
  return os.setinheritsched

def pthreadAttrSetschedpolicy (value : Int) : AttrM Int := do
  if os.setschedpolicy = 0 then
    modify fun attr => { attr with schedpolicy := value }
  return os.setschedpolicy

def pthreadAttrSetschedparam (priority : Int) : AttrM Int := do
  if os.setschedparam = 0 then
    modify fun attr => { attr with schedPriority := priority }
  return os.setschedparam

/-- The `switch`: the policy's value and the priority to set, or what is
wrong. Both real-time policies ask for the bounds of `SCHED_RR`. -/
def checkPolicy (policy : SchedulingPolicy) (priority : Int) : Except Exn (Int × Int) :=
  match policy with
  | .default =>
      if priority ≠ 0 then
        .error (.invalidArgument "Priority must be 0 under DEFAULT scheduling.")
      else .ok (schedOther, 0)
  | .rr =>
      if priority < os.priorityMin ∨ priority > os.priorityMax then
        .error (.outOfRange "Priority out of range for SCHED_RR")
      else .ok (schedRr, priority)
  | .fifo =>
      if priority < os.priorityMin ∨ priority > os.priorityMax then
        .error (.outOfRange "Priority out of range for SCHED_FIFO")
      else .ok (schedFifo, priority)
  | .unnamed _ => .error (.invalidArgument "Invalid scheduling policy")

/-- `ThreadAttribute::SetSchedulingPolicy`. -/
def setSchedulingPolicy (policy : SchedulingPolicy) (priority : Int) : AttrM Unit := do
  let resInherit ← os.pthreadAttrSetinheritsched .explicitSched
  if resInherit ≠ 0 then
    throw (.runtimeError
      ("pthread_attr_setinheritsched failed: " ++ os.strerror resInherit))
  let (policyValue, schedPriority) ← liftExcept (os.checkPolicy policy priority)
  let resPolicy ← os.pthreadAttrSetschedpolicy policyValue
  if resPolicy ≠ 0 then
    if resPolicy = eperm then
      throw (.runtimeError "Permission denied: requires root privileges")
    throw (.runtimeError ("pthread_attr_setschedpolicy failed: " ++ os.strerror resPolicy))
  let resParam ← os.pthreadAttrSetschedparam schedPriority
  if resParam ≠ 0 then
    throw (.runtimeError ("pthread_attr_setschedparam failed: " ++ os.strerror resParam))

/-- `ThreadAttribute::GetSchedulingPolicy`. -/
def getSchedulingPolicy : AttrM SchedulingPolicy := do
  let policy := (← get).schedpolicy
  let res := os.getschedpolicy
  if res ≠ 0 then
    throw (.runtimeError ("pthread_attr_getschedpolicy failed: " ++ os.strerror res))
  if policy = schedOther then return .default
  if policy = schedRr then return .rr
  if policy = schedFifo then return .fifo
  throw (.runtimeError "Unknown scheduling policy")

end SchedAnswers

/-- The value of the platform's macro. -/
def SchedulingPolicy.value : SchedulingPolicy → Int
  | .default => schedOther
  | .rr => schedRr
  | .fifo => schedFifo
  | .unnamed value => value

/-- A policy that is one, with a priority in its range. -/
def SchedAnswers.Acceptable (os : SchedAnswers) (policy : SchedulingPolicy)
    (priority : Int) : Prop :=
  match policy with
  | .default => priority = 0
  | .rr | .fifo => os.priorityMin ≤ priority ∧ priority ≤ os.priorityMax
  | .unnamed _ => False

/-- After a throw the attribute is what it was, after a return it has what was
asked for. -/
structure AllOrNothing (attr : SchedAttributes) (policy : SchedulingPolicy) (priority : Int)
    (r : Except Exn Unit × SchedAttributes) : Prop where
  threw : ∀ e, r.1 = .error e → r.2 = attr
  returned : r.1 = .ok () → r.2 = ⟨.explicitSched, policy.value, priority⟩

/-! ## Running it -/

section Run

variable {α β : Type} {attr attr' : SchedAttributes}

theorem AttrM.run_bind_ok {x : AttrM α} {f : α → AttrM β} {a : α}
    (h : x.run.run attr = (.ok a, attr')) : (x >>= f).run.run attr = (f a).run.run attr' := by
  rw [ExceptT.run_bind, StateT.run_bind, h]
  rfl

theorem AttrM.run_bind_error {x : AttrM α} {f : α → AttrM β} {e : Exn}
    (h : x.run.run attr = (.error e, attr')) : (x >>= f).run.run attr = (.error e, attr') := by
  rw [ExceptT.run_bind, StateT.run_bind, h]
  rfl

theorem setinheritsched_run (os : SchedAnswers) (attr : SchedAttributes)
    (value : InheritSched) :
    (os.pthreadAttrSetinheritsched value).run.run attr = (.ok os.setinheritsched,
      if os.setinheritsched = 0 then { attr with inheritsched := value } else attr) := by
  rw [SchedAnswers.pthreadAttrSetinheritsched]
  split
  · rfl
  · rfl

theorem setschedpolicy_run (os : SchedAnswers) (attr : SchedAttributes) (value : Int) :
    (os.pthreadAttrSetschedpolicy value).run.run attr = (.ok os.setschedpolicy,
      if os.setschedpolicy = 0 then { attr with schedpolicy := value } else attr) := by
  rw [SchedAnswers.pthreadAttrSetschedpolicy]
  split
  · rfl
  · rfl

theorem setschedparam_run (os : SchedAnswers) (attr : SchedAttributes) (priority : Int) :
    (os.pthreadAttrSetschedparam priority).run.run attr = (.ok os.setschedparam,
      if os.setschedparam = 0 then { attr with schedPriority := priority } else attr) := by
  rw [SchedAnswers.pthreadAttrSetschedparam]
  split
  · rfl
  · rfl

theorem liftExcept_run (x : Except Exn α) :
    (liftExcept x : AttrM α).run.run attr = (x, attr) := by
  cases x with
  | ok a => rfl
  | error e => rfl

end Run

section Set

variable {os : SchedAnswers} {policy : SchedulingPolicy} {priority : Int}
  {attr : SchedAttributes}

theorem checkPolicy_acceptable (h : os.Acceptable policy priority) :
    os.checkPolicy policy priority = .ok (policy.value, priority) := by
  cases policy with
  | default =>
      rw [SchedAnswers.Acceptable] at h
      rw [h]
      rfl
  | rr => exact if_neg (by have := h.1; have := h.2; omega)
  | fifo => exact if_neg (by have := h.1; have := h.2; omega)
  | unnamed value => exact h.elim

theorem checkPolicy_throws (h : ¬os.Acceptable policy priority) :
    ∃ e, os.checkPolicy policy priority = .error e := by
  cases policy with
  | default => exact ⟨_, if_pos h⟩
  | rr =>
      rw [SchedAnswers.Acceptable] at h
      exact ⟨_, if_pos (by omega)⟩
  | fifo =>
      rw [SchedAnswers.Acceptable] at h
      exact ⟨_, if_pos (by omega)⟩
  | unnamed value => exact ⟨_, rfl⟩

/-! ## Where it can end -/

/-- How a call ends, and what it leaves: at the first call, at the check, at
the second call, at the third, or by returning. -/
inductive SetRun (os : SchedAnswers) (policy : SchedulingPolicy) (priority : Int)
    (attr : SchedAttributes) : Except Exn Unit × SchedAttributes → Prop where
  | inheritFails (e : Exn) (h : os.setinheritsched ≠ 0) :
      SetRun os policy priority attr (.error e, attr)
  | checkFails (e : Exn) (hinherit : os.setinheritsched = 0)
      (h : ¬os.Acceptable policy priority) :
      SetRun os policy priority attr
        (.error e, { attr with inheritsched := .explicitSched })
  | policyFails (e : Exn) (hinherit : os.setinheritsched = 0)
      (hcheck : os.Acceptable policy priority) (h : os.setschedpolicy ≠ 0) :
      SetRun os policy priority attr
        (.error e, { attr with inheritsched := .explicitSched })
  | paramFails (e : Exn) (hinherit : os.setinheritsched = 0)
      (hcheck : os.Acceptable policy priority) (hpolicy : os.setschedpolicy = 0)
      (h : os.setschedparam ≠ 0) :
      SetRun os policy priority attr
        (.error e, { attr with
          inheritsched := .explicitSched, schedpolicy := policy.value })
  | succeeds (hinherit : os.setinheritsched = 0) (hcheck : os.Acceptable policy priority)
      (hpolicy : os.setschedpolicy = 0) (hparam : os.setschedparam = 0) :
      SetRun os policy priority attr (.ok (), ⟨.explicitSched, policy.value, priority⟩)

theorem setSchedulingPolicy_run (os : SchedAnswers) (policy : SchedulingPolicy)
    (priority : Int) (attr : SchedAttributes) :
    SetRun os policy priority attr
      ((os.setSchedulingPolicy policy priority).run.run attr) := by
  rw [SchedAnswers.setSchedulingPolicy, AttrM.run_bind_ok (setinheritsched_run os attr _)]
  by_cases hinherit : os.setinheritsched = 0
  · rw [if_pos hinherit, if_neg (not_not_intro hinherit)]
    by_cases hcheck : os.Acceptable policy priority
    · rw [checkPolicy_acceptable hcheck, AttrM.run_bind_ok (liftExcept_run _),
        AttrM.run_bind_ok (setschedpolicy_run os _ _)]
      by_cases hpolicy : os.setschedpolicy = 0
      · rw [if_pos hpolicy, if_neg (not_not_intro hpolicy),
          AttrM.run_bind_ok (setschedparam_run os _ _)]
        by_cases hparam : os.setschedparam = 0
        · rw [if_pos hparam, if_neg (not_not_intro hparam)]
          exact .succeeds hinherit hcheck hpolicy hparam
        · rw [if_neg hparam, if_pos hparam]
          exact .paramFails _ hinherit hcheck hpolicy hparam
      · rw [if_neg hpolicy, if_pos hpolicy]
        split
        · exact .policyFails _ hinherit hcheck hpolicy
        · exact .policyFails _ hinherit hcheck hpolicy
    · obtain ⟨e, he⟩ := checkPolicy_throws hcheck
      rw [he, AttrM.run_bind_error (liftExcept_run _)]
      exact .checkFails _ hinherit hcheck
  · rw [if_neg hinherit, if_pos hinherit]
    exact .inheritFails _ hinherit

/-! ## All or nothing -/

/-- The condition on the attribute, the arguments and the answers: the first
call fails, or nothing does, or what is set before the throw was so already. -/
def SchedAnswers.Undisturbed (os : SchedAnswers) (attr : SchedAttributes)
    (policy : SchedulingPolicy) (priority : Int) : Prop :=
  os.setinheritsched ≠ 0 ∨
  (os.Acceptable policy priority ∧ os.setschedpolicy = 0 ∧ os.setschedparam = 0) ∨
  (attr.inheritsched = .explicitSched ∧
    (os.Acceptable policy priority → os.setschedpolicy = 0 →
      attr.schedpolicy = policy.value))

/-- A throw is all or nothing if it leaves the attribute as it was. -/
theorem allOrNothing_threw_iff {e : Exn} {attr' : SchedAttributes} :
    AllOrNothing attr policy priority (.error e, attr') ↔ attr' = attr := by
  constructor
  · exact fun h => h.threw e rfl
  · exact fun h => ⟨fun _ _ => h, fun hret => by cases hret⟩

theorem explicit_eq_iff :
    { attr with inheritsched := .explicitSched } = attr ↔
      attr.inheritsched = .explicitSched := by
  constructor
  · intro h
    rw [← h]
  · intro h
    rw [← h]

theorem explicit_policy_eq_iff {value : Int} :
    { attr with inheritsched := .explicitSched, schedpolicy := value } = attr ↔
      attr.inheritsched = .explicitSched ∧ attr.schedpolicy = value := by
  constructor
  · intro h
    rw [← h]
    exact ⟨rfl, rfl⟩
  · rintro ⟨hinherit, hpolicy⟩
    rw [← hinherit, ← hpolicy]

/-- `SetSchedulingPolicy` is all or nothing exactly where the first call
fails, or nothing does, or what it sets before it throws was so already. -/
theorem set_all_or_nothing_iff (os : SchedAnswers) (attr : SchedAttributes)
    (policy : SchedulingPolicy) (priority : Int) :
    AllOrNothing attr policy priority
        ((os.setSchedulingPolicy policy priority).run.run attr) ↔
      os.Undisturbed attr policy priority := by
  have hrun := setSchedulingPolicy_run os policy priority attr
  rw [SchedAnswers.Undisturbed]
  generalize (os.setSchedulingPolicy policy priority).run.run attr = r at hrun ⊢
  cases hrun with
  | inheritFails e h =>
      rw [allOrNothing_threw_iff]
      exact iff_of_true rfl (Or.inl h)
  | checkFails e hinherit h =>
      rw [allOrNothing_threw_iff, explicit_eq_iff]
      simp [hinherit, h]
  | policyFails e hinherit hcheck h =>
      rw [allOrNothing_threw_iff, explicit_eq_iff]
      simp [hinherit, h]
  | paramFails e hinherit hcheck hpolicy h =>
      rw [allOrNothing_threw_iff, explicit_policy_eq_iff]
      simp [hinherit, hcheck, hpolicy, h]
  | succeeds hinherit hcheck hpolicy hparam =>
      exact iff_of_true ⟨fun _ h => (by cases h), fun _ => rfl⟩
        (Or.inr (Or.inl ⟨hcheck, hpolicy, hparam⟩))

/-- A fresh attribute, and a priority that the default policy has not. -/
theorem rejected_priority_leaves_explicit :
    ¬∀ (os : SchedAnswers) (attr : SchedAttributes) (policy : SchedulingPolicy)
      (priority : Int), AllOrNothing attr policy priority
        ((os.setSchedulingPolicy policy priority).run.run attr) := by
  intro hall
  have hthrew := (hall {} {} .default 5).threw
    (.invalidArgument "Priority must be 0 under DEFAULT scheduling.") rfl
  exact absurd hthrew (by decide)

/-- What a successful call has set is what `GetSchedulingPolicy` finds. -/
theorem getSchedulingPolicy_of_set (hget : os.getschedpolicy = 0)
    (h : ((os.setSchedulingPolicy policy priority).run.run attr).1 = .ok ()) :
    (os.getSchedulingPolicy.run.run
      ((os.setSchedulingPolicy policy priority).run.run attr).2).1 = .ok policy := by
  have hrun := setSchedulingPolicy_run os policy priority attr
  generalize (os.setSchedulingPolicy policy priority).run.run attr = r at hrun h ⊢
  cases hrun with
  | inheritFails => cases h
  | checkFails => cases h
  | policyFails => cases h
  | paramFails => cases h
  | succeeds hinherit hcheck hpolicy hparam =>
      cases policy with
      | default => simp [SchedAnswers.getSchedulingPolicy, hget, SchedulingPolicy.value]; rfl
      | rr => simp [SchedAnswers.getSchedulingPolicy, hget, SchedulingPolicy.value]; rfl
      | fifo => simp [SchedAnswers.getSchedulingPolicy, hget, SchedulingPolicy.value]; rfl
      | unnamed value => exact hcheck.elim

end Set

end ThreadPool
