import ThreadPool.Lib.Guard
import ThreadPool.Pthread.Moves

/-!
# Any number of callers of one started thread

A thread has been started, and from then on any number of callers use its
`Thread` at the same time, each in one call of `Join`, `Detach`, `Cancel` or
`Terminate`. Their calls are those of the single owner, step for step; here
they interleave with one another and with the end of the thread.

`JOINABLE` is the guard of the release. A call finds it, in its first
section or by the read without the lock, and goes on to join or to detach;
only its last section stores another state. In between the guard is as open
to the others as it was to the call.
-/

namespace ThreadPool.Pthread

open Interleave Machine

/-! ## What a call knows of the guard -/

/-- The look at `thread_state` after which a call goes on to join or to detach
finds the block `JOINABLE`. -/
def CallPc.finds (b : ThreadProperty) : CallPc → Bool
  | .enter .join => b.threadState = .joinable && b.dtorAction ≠ .detach
  | .enter .detach | .cancelRead _ | .terminateRead _ => b.threadState = .joinable
  | _ => false

theorem CallPc.joinable_of_finds {b : ThreadProperty} {pc : CallPc}
    (h : pc.finds b = true) : b.threadState = .joinable := by
  unfold finds at h
  split at h
  · exact of_decide_eq_true (Bool.and_eq_true_iff.mp h).1
  · exact of_decide_eq_true h
  · exact of_decide_eq_true h
  · exact of_decide_eq_true h
  · cases h

theorem CallPc.before_of_finds {b : ThreadProperty} {pc : CallPc}
    (h : pc.finds b = true) : pc.target = none ∧ pc.leaving = false := by
  unfold finds at h
  split at h <;> first | exact ⟨rfl, rfl⟩ | cases h

theorem callStep_finds {b : ThreadProperty} {pc : CallPc} (ns : List Native)
    (answer : Answer) (h : pc.finds b = true) :
    ∃ pc', callStep ns b answer pc = some (ns, b, .at pc') ∧
      pc'.target.isSome = true := by
  have hjoinable := CallPc.joinable_of_finds h
  unfold CallPc.finds at h
  split at h
  · have hdetach := of_decide_eq_true (Bool.and_eq_true_iff.mp h).2
    refine ⟨.joining b.threadHandle, ?_, rfl⟩
    simp [callStep, Method.firstSection, ThreadProperty.joinEnter, hjoinable, hdetach,
      Method.next]
  · refine ⟨.detaching b.threadHandle, ?_, rfl⟩
    simp [callStep, Method.firstSection, ThreadProperty.detachEnter, hjoinable,
      Method.next]
  · exact ⟨_, by rw [callStep, if_pos hjoinable], rfl⟩
  · exact ⟨_, by rw [callStep, if_pos hjoinable], rfl⟩
  · cases h

/-- A call that goes on gets to a join or a detach by such a look alone, or
from another. -/
theorem CallHop.finds {b : ThreadProperty} {answer : Answer} {pc pc' : CallPc}
    (h : CallHop b answer pc pc') :
    pc.finds b = true ∧ pc.target = none ∧ pc'.target.isSome = true ∨
      pc.finds b = false ∧ (pc'.target.isSome = true → pc.target.isSome = true) := by
  cases h with
  | @enters m h hfirst =>
      cases m with
      | join =>
          refine Or.inl ⟨?_, rfl, rfl⟩
          simp only [Method.firstSection, ThreadProperty.joinEnter] at hfirst
          split_ifs at hfirst with hjoinable hdetach
          simp [CallPc.finds, not_not.mp hjoinable, hdetach]
      | detach =>
          refine Or.inl ⟨?_, rfl, rfl⟩
          simp only [Method.firstSection, ThreadProperty.detachEnter] at hfirst
          split_ifs at hfirst with hjoinable
          simp [CallPc.finds, not_not.mp hjoinable]
      | cancel | terminate => exact Or.inr ⟨rfl, fun h => by cases h⟩
  | mayCancelJoin hjoinable | mayTryJoin hjoinable =>
      exact Or.inl ⟨decide_eq_true hjoinable, rfl, rfl⟩
  | cancelsDetached hjoinable | killsDetached hjoinable =>
      exact Or.inr ⟨decide_eq_false hjoinable, fun h => by cases h⟩
  | cancels | kills | dead => exact Or.inr ⟨rfl, fun h => by cases h⟩
  | busy | givesUp => exact Or.inr ⟨rfl, fun _ => rfl⟩

theorem firstSection_handle {b : ThreadProperty} {m : Method} {h : Nat}
    (hfirst : m.firstSection b = .ok h) : h = b.threadHandle := by
  cases m <;>
    simp only [Method.firstSection, ThreadProperty.joinEnter, ThreadProperty.detachEnter,
      ThreadProperty.cancelEnter, ThreadProperty.terminateEnter] at hfirst <;>
    split_ifs at hfirst <;>
    exact (Except.ok.inj hfirst).symm

/-- The thread the call has to do with. -/
def CallPc.handle (pc : CallPc) : Option Nat := pc.target <|> pc.signals

theorem CallPc.handle_of_leaving {pc : CallPc} (h : pc.leaving = true) :
    pc.target = none ∧ pc.handle = none := by
  cases pc <;> cases h <;> exact ⟨rfl, rfl⟩

theorem CallHop.handle {b : ThreadProperty} {answer : Answer} {pc pc' : CallPc}
    (h : CallHop b answer pc pc') (hpc : ∀ k, pc.handle = some k → k = b.threadHandle) :
    ∀ k, pc'.handle = some k → k = b.threadHandle := by
  intro k hk
  cases h with
  | @enters m h hfirst =>
      have hh := firstSection_handle hfirst
      cases m <;> cases hk <;> exact hh
  | cancelsDetached | killsDetached | dead => cases hk
  | _ =>
      cases hk
      exact hpc _ rfl

namespace Callers

/-! ## The machine -/

/-- A call, and how far it has come with the guard, which no step reads. -/
structure Call where
  progress : Progress
  stage : Stage := .outside
  deriving DecidableEq, Repr

structure State where
  natives : List Native
  block : ThreadProperty
  calls : List Call := []
  deriving DecidableEq, Repr

inductive Action where
  /-- somebody calls `m` -/
  | call (m : Method)
  /-- call `k` takes its next step -/
  | proceeds (k : Nat) (answer : Answer)
  /-- the thread comes to its end, with or without the update of its block -/
  | finishes
  | unwinds
  deriving DecidableEq, Repr

/-- A call is inside when it gets to a join or a detach, and through when it
has left by its last section. -/
def stageAfter (pc : CallPc) (progress : Progress) (st : Stage) : Stage :=
  match progress with
  | .at pc' => if pc'.target.isSome then .inside else st
  | .ended _ => if pc.leaving ∧ st = .inside then .through else st

def proceed (s : State) (k : Nat) (answer : Answer) : Option State :=
  match s.calls[k]? with
  | none => none
  | some c =>
      match c.progress with
      | .ended _ => none
      | .at pc =>
          (callStep s.natives s.block answer pc).map fun (ns, b, progress) =>
            { natives := ns
              block := b
              calls := s.calls.set k
                { progress := progress, stage := stageAfter pc progress c.stage } }

/-- The thread ends as `run` says, and leaves its block as `b`. -/
def endThread (s : State) (run : Run) (b : ThreadProperty) : Option State :=
  match s.natives[s.block.threadHandle]? with
  | none => none
  | some n =>
      if n.run = .running then
        some { s with
          natives := s.natives.set s.block.threadHandle { n with run := run }
          block := b }
      else none

def step (s : State) : Action → Option State
  | .call m => some { s with calls := s.calls ++ [{ progress := .at (.enter m) }] }
  | .proceeds k answer => proceed s k answer
  | .finishes => endThread s .finished s.block.threadEntry
  | .unwinds => endThread s .unwound s.block

/-- A `Start` on the block `b` has just made the thread behind those in `ns`.
-/
def callers (ns : List Native) (b : ThreadProperty) (dtorAction : DtorAction)
    (attr : DetachState) : Machine State Action where
  init :=
    { natives := ns ++ [{ property := 0, created := attr }]
      block := started b ns.length dtorAction }
  step := step

/-- Everything one step can do. -/
inductive Move (s : State) : Action → State → Prop where
  | calls {m : Method} :
      Move s (.call m) { s with calls := s.calls ++ [{ progress := .at (.enter m) }] }
  | proceeds {k : Nat} {answer : Answer} {c : Call} {pc : CallPc} {ns : List Native}
      {b : ThreadProperty} {progress : Progress} (hc : s.calls[k]? = some c)
      (hpc : c.progress = .at pc)
      (hstep : callStep s.natives s.block answer pc = some (ns, b, progress)) :
      Move s (.proceeds k answer)
        { natives := ns
          block := b
          calls := s.calls.set k
            { progress := progress, stage := stageAfter pc progress c.stage } }
  | ends {a : Action} {ns : List Native} {b : ThreadProperty}
      (ha : a = .finishes ∨ a = .unwinds) (hb : b = s.block ∨ b = s.block.threadEntry) :
      Move s a { s with natives := ns, block := b }

theorem endThread_cases {s s' : State} {run : Run} {b : ThreadProperty}
    (h : endThread s run b = some s') :
    ∃ ns, s' = { s with natives := ns, block := b } := by
  unfold endThread at h
  split at h
  · cases h
  · split at h
    · exact ⟨_, (Option.some.inj h).symm⟩
    · cases h

theorem step_cases {s s' : State} {a : Action} (h : step s a = some s') :
    Move s a s' := by
  cases a with
  | call m =>
      rw [step, Option.some.injEq] at h
      subst h
      exact .calls
  | proceeds k answer =>
      rw [step, proceed] at h
      split at h
      · cases h
      · next c hc =>
          split at h
          · cases h
          · next pc hpc =>
              obtain ⟨⟨ns, b, progress⟩, hstep, rfl⟩ := Option.map_eq_some_iff.mp h
              exact .proceeds hc hpc hstep
  | finishes =>
      obtain ⟨ns, rfl⟩ := endThread_cases h
      exact .ends (Or.inl rfl) (Or.inr rfl)
  | unwinds =>
      obtain ⟨ns, rfl⟩ := endThread_cases h
      exact .ends (Or.inr rfl) (Or.inl rfl)

/-! ## How far the calls have come -/

/-- Where a call stands says how far it has come. It can leave without having
been inside, past a block that is not `JOINABLE`. -/
structure Staged (b : ThreadProperty) (pc : CallPc) (st : Stage) : Prop where
  target : pc.target.isSome = true → st = .inside
  leaving : pc.leaving = true → st = .inside ∨ st = .outside ∧ b.threadState ≠ .joinable
  before : pc.target = none → pc.leaving = false → st = .outside
  handle : ∀ k, pc.handle = some k → k = b.threadHandle

/-- A step that keeps the handle and does not make the block joinable. -/
structure Follows (b b' : ThreadProperty) : Prop where
  handle : b'.threadHandle = b.threadHandle
  state : b.threadState ≠ .joinable → b'.threadState ≠ .joinable

theorem Staged.mono {b b' : ThreadProperty} {pc : CallPc} {st : Stage}
    (hs : Staged b pc st) (hb : Follows b b') : Staged b' pc st where
  target := hs.target
  leaving hpc := (hs.leaving hpc).imp_right fun h => ⟨h.1, hb.state h.2⟩
  before := hs.before
  handle k hk := (hs.handle k hk).trans hb.handle.symm

theorem staged_of_leaving {pc : CallPc} (b : ThreadProperty) (hpc : pc.leaving = true) :
    Staged b pc .inside := by
  obtain ⟨htarget, hhandle⟩ := CallPc.handle_of_leaving hpc
  refine ⟨fun _ => rfl, fun _ => Or.inl rfl, fun _ hnot => ?_, fun k hk => ?_⟩
  · rw [hpc] at hnot
    cases hnot
  · rw [hhandle] at hk
    cases hk

theorem Staged.hop {b : ThreadProperty} {answer : Answer} {pc pc' : CallPc} {st : Stage}
    (hs : Staged b pc st) (h : CallHop b answer pc pc') :
    Staged b pc' (stageAfter pc (.at pc') st) := by
  refine ⟨fun ht => if_pos ht, fun hleaving => ?_, fun hnone hleaving => ?_,
    h.handle hs.handle⟩
  all_goals simp only [stageAfter]
  · rw [(CallPc.handle_of_leaving hleaving).1]
    cases h with
    | cancelsDetached hjoinable | killsDetached hjoinable =>
        exact Or.inr ⟨hs.before rfl rfl, hjoinable⟩
    | dead => exact Or.inl (hs.target rfl)
    | @enters m => cases m <;> cases hleaving
    | _ => cases hleaving
  · rw [hnone]
    cases h with
    | enters | cancels | kills => exact hs.before rfl rfl
    | mayCancelJoin | mayTryJoin | busy | givesUp => cases hnone
    | _ => cases hleaving

/-- What the calls and the block of a state have to do with one another. -/
structure Wired (handle : Nat) (s : State) : Prop where
  handle : s.block.threadHandle = handle
  staged : ∀ c ∈ s.calls, ∀ pc, c.progress = .at pc → Staged s.block pc c.stage

theorem threadEntry_joinable (b : ThreadProperty) :
    b.threadEntry.threadState = .joinable ↔ b.threadState = .joinable := by
  simp only [ThreadProperty.threadEntry]
  split_ifs with hdetached
  · rw [hdetached]
    decide
  · rfl

theorem follows_threadEntry (b : ThreadProperty) : Follows b b.threadEntry :=
  ⟨rfl, fun hb => mt (threadEntry_joinable b).mp hb⟩

theorem follows_of_callMove {ns ns' : List Native} {b b' : ThreadProperty}
    {answer : Answer} {pc : CallPc} {progress : Progress}
    (h : CallMove ns b answer pc ns' b' progress) :
    Follows b b' := by
  cases h with
  | leaves _ hst => exact ⟨rfl, fun _ => hst⟩
  | _ => exact ⟨rfl, id⟩

theorem Move.follows {s s' : State} {a : Action} (h : Move s a s') :
    Follows s.block s'.block := by
  cases h with
  | calls => exact ⟨rfl, id⟩
  | proceeds _ _ hstep => exact follows_of_callMove (callStep_cases hstep)
  | ends _ hb =>
      rcases hb with rfl | rfl
      · exact ⟨rfl, id⟩
      · exact follows_threadEntry _

theorem Staged.move {ns ns' : List Native} {b b' : ThreadProperty} {answer : Answer}
    {pc pc' : CallPc} {st : Stage} (hs : Staged b pc st)
    (h : CallMove ns b answer pc ns' b' (.at pc')) :
    Staged b' pc' (stageAfter pc (.at pc') st) := by
  cases h with
  | hop hhop => exact hs.hop hhop
  | joins hpc hpc' =>
      rw [stageAfter, (CallPc.handle_of_leaving hpc').1, hs.target (by rw [hpc]; rfl)]
      exact staged_of_leaving b hpc'
  | detaches =>
      rw [hs.target rfl]
      exact staged_of_leaving b rfl

theorem Move.wired {handle : Nat} {s s' : State} {a : Action} (hs : Wired handle s)
    (h : Move s a s') : Wired handle s' := by
  refine ⟨h.follows.handle.trans hs.handle, ?_⟩
  have hstays : ∀ c ∈ s.calls, ∀ pc, c.progress = .at pc → Staged s'.block pc c.stage :=
    fun c hc pc hpc => (hs.staged c hc pc hpc).mono h.follows
  cases h with
  | calls =>
      refine List.forall_mem_append.mpr ⟨hstays, List.forall_mem_singleton.mpr ?_⟩
      rintro pc ⟨⟩
      exact ⟨nofun, nofun, fun _ _ => rfl, nofun⟩
  | proceeds hc hpc hstep =>
      refine forall_mem_set hstays ?_
      rintro pc' rfl
      exact (hs.staged _ (List.mem_of_getElem? hc) _ hpc).move (callStep_cases hstep)
  | ends => exact hstays

theorem wired_of_reachable {ns : List Native} {b : ThreadProperty}
    {dtorAction : DtorAction} {attr : DetachState} {s : State}
    (hr : (callers ns b dtorAction attr).Reachable s) : Wired ns.length s :=
  hr.invariant ⟨rfl, nofun⟩ fun _ _ _ _ hs hstep => (step_cases hstep).wired hs

/-! ## The guard -/

/-- `JOINABLE` as a guard, with the calls as its agents. -/
def State.guard (s : State) : Guard :=
  Guard.of (s.block.threadState = .joinable) Call.stage s.calls

/-- How many calls have got as far as a join or a detach. -/
def State.released (s : State) : Nat := s.calls.countP fun c => c.stage.passed

theorem passed_guard (s : State) : s.guard.passed = s.released := Guard.passed_of

def Call.finds (b : ThreadProperty) (c : Call) : Bool :=
  match c.progress with
  | .at pc => pc.finds b
  | .ended _ => false

/-- By this step a call goes on to a join or a detach. -/
def State.finds (s : State) : Action → Bool
  | .proceeds k _ => s.calls[k]?.any fun c => c.finds s.block
  | _ => false

theorem stageAfter_ended {pc : CallPc} {o : Outcome} {st : Stage}
    (h : pc.leaving = false) : stageAfter pc (.ended o) st = st := by
  rw [stageAfter, if_neg fun hand => by rw [h] at hand; cases hand.1]

/-- A call that finds the block `JOINABLE` passes the guard, its last section
shuts it, and nothing else has to do with it. -/
theorem Move.guard {handle : Nat} {s s' : State} {a : Action} (hs : Wired handle s)
    (h : Move s a s') : Guard.Refines (s.finds a) s.guard s'.guard := by
  cases h with
  | calls => exact .moves .comes rfl rfl (Guard.of_comes rfl)
  | ends ha hb =>
      have hfinds : s.finds a = false := by rcases ha with rfl | rfl <;> rfl
      refine .stays hfinds ?_
      rcases hb with rfl | rfl
      · rfl
      · simp only [State.guard, threadEntry_joinable]
  | @proceeds k answer c pc ns b progress hc hpc hstep =>
      have hst := hs.staged c (List.mem_of_getElem? hc) pc hpc
      have hfinds : s.finds (.proceeds k answer) = pc.finds s.block := by
        simp [State.finds, hc, Call.finds, hpc]
      have hsame (hnot : pc.finds s.block = false)
          (hstage : stageAfter pc progress c.stage = c.stage)
          (hb : b.threadState = .joinable ↔ s.block.threadState = .joinable) :
          Guard.Refines (s.finds (.proceeds k answer)) s.guard
            (State.guard
              ⟨ns, b, s.calls.set k ⟨progress, stageAfter pc progress c.stage⟩⟩) := by
        refine .stays (hfinds.trans hnot) ?_
        simp only [State.guard, hb]
        exact Guard.of_set_same hc hstage
      cases hpass : pc.finds s.block with
      | true =>
          obtain ⟨pc', hnext, htarget⟩ := callStep_finds s.natives answer hpass
          obtain ⟨hnone, hleaving⟩ := CallPc.before_of_finds hpass
          cases Option.some.inj (hnext.symm.trans hstep)
          exact .passes k (hfinds.trans hpass)
            (Guard.of_passes (decide_eq_true (CallPc.joinable_of_finds hpass)) hc
              (hst.before hnone hleaving) (if_pos htarget))
      | false =>
          cases callStep_cases hstep with
          | hop hhop =>
              refine hsame hpass ?_ Iff.rfl
              have htarget := hhop.finds.resolve_left fun h => by
                rw [h.1] at hpass
                cases hpass
              simp only [stageAfter]
              split_ifs with hin
              · exact (hst.target (htarget.2 hin)).symm
              · rfl
          | @refused m => exact hsame hpass (stageAfter_ended rfl) Iff.rfl
          | fails hnot => exact hsame hpass (stageAfter_ended hnot) Iff.rfl
          | joins hpc' hleaving =>
              refine hsame hpass ?_ Iff.rfl
              rw [stageAfter, (CallPc.handle_of_leaving hleaving).1]
              rfl
          | detaches => exact hsame hpass rfl Iff.rfl
          | leaves hleaving hnot =>
              rcases hst.leaving hleaving with hin | ⟨hout, hclosed⟩
              · refine .moves (.shuts k) (hfinds.trans hpass) rfl ?_
                have hshut : decide (_ = ThreadState.joinable) = false :=
                  decide_eq_false hnot
                simp only [State.guard, hshut]
                exact Guard.of_shuts hc hin (if_pos ⟨hleaving, hin⟩)
              · refine hsame hpass ?_ (iff_of_false hnot hclosed)
                rw [stageAfter, hout]
                exact if_neg (by simp)

/-! ## All runs -/

/-- No call finds the block `JOINABLE` while another that has found it so has
yet to store what it has done. -/
def Alone (s : State) (a : Action) : Prop :=
  s.finds a = true → ∀ c ∈ s.calls, c.stage ≠ .inside

instance (s : State) (a : Action) : Decidable (Alone s a) :=
  inferInstanceAs (Decidable (_ → _))

section

variable {ns : List Native} {b : ThreadProperty} {dtorAction : DtorAction}
  {attr : DetachState} {s s' t : State} {a : Action}

theorem guards :
    Guard.Guards (callers ns b dtorAction attr) State.guard State.finds where
  init := rfl
  step _ _ _ hr hstep := (step_cases hstep).guard (wired_of_reachable hr)

/-- Any number of calls, in any order: a call gets as far as a join or a
detach with the thread of the last `Start` only, and if no two look at the
block before one of them has stored what it has done, at most one call ever
does. If two do, two calls release the thread. -/
theorem released_at_most_once (ns : List Native) (b : ThreadProperty)
    (dtorAction : DtorAction) (attr : DetachState) :
    (∀ s, (callers ns b dtorAction attr).ReachableWhen Alone s → s.released ≤ 1) ∧
      (∀ s a s' t, (callers ns b dtorAction attr).Reachable s → ¬Alone s a →
        step s a = some s' → (callers ns b dtorAction attr).Leads s' t →
        2 ≤ t.released) ∧
      ∀ s, (callers ns b dtorAction attr).Reachable s → ∀ c ∈ s.calls, ∀ pc k,
        c.progress = .at pc → pc.target = some k →
        k = ns.length ∧ c.stage.passed = true := by
  refine ⟨fun s hr => ?_, fun s a s' t hr hnot hstep hs => ?_,
    fun s hr c hc pc k hpc hk => ?_⟩
  · rw [← passed_guard]
    exact Guard.passed_le_one (guards.reachable hr fun _ _ hok hfinds =>
      Guard.inside_of.mpr (hok hfinds))
  · obtain ⟨hfinds, hall⟩ := Classical.not_imp.mp hnot
    rw [← passed_guard]
    exact guards.two_le_passed hr hfinds
      (Classical.not_not.mp fun hin => hall (Guard.inside_of.mp hin)) hstep hs
  · have hwired := wired_of_reachable hr
    have hst := hwired.staged c hc pc hpc
    have hhandle : pc.handle = some k := by rw [CallPc.handle, hk]; rfl
    refine ⟨(hst.handle k hhandle).trans hwired.handle, ?_⟩
    rw [hst.target (by rw [hk]; rfl)]
    rfl

end

/-! ## Two callers -/

/-- Calls that have just begun. -/
def begins (ms : List Method) : List Action := ms.map .call

/-- The calls in this order, a step each; every pthread call succeeds. -/
def proceeding (ks : List Nat) : List Action := ks.map fun k => .proceeds k {}

/-- Both find the thread `JOINABLE`, and both detach it. -/
theorem released_twice :
    (¬∀ (ns : List Native) (b : ThreadProperty) (dtorAction : DtorAction)
      (attr : DetachState) (s : State),
      (callers ns b dtorAction attr).Reachable s → s.released ≤ 1) ∧
      ¬∀ (ns : List Native) (b : ThreadProperty) (dtorAction : DtorAction)
        (attr : DetachState) (s : State),
        (callers ns b dtorAction attr).Reachable s →
        ∀ n ∈ s.natives, n.joins + n.detaches ≤ 1 := by
  obtain ⟨s, hr, htwo, hnatives⟩ := exists_of_run (callers [] {} .join .joinable)
    (begins [.detach, .detach] ++ proceeding [0, 1, 0, 1])
    (fun s => s.released = 2 ∧
      s.natives = [{ property := 0, created := .joinable, detaches := 2 }])
    (by decide +kernel)
  constructor
  · intro hall
    have hle := hall _ _ _ _ s hr
    omega
  · intro hall
    have hle := hall _ _ _ _ s hr { property := 0, created := .joinable, detaches := 2 }
      (by rw [hnatives]; exact List.mem_singleton_self _)
    exact absurd hle (by decide)

/-- `Join` returns while `Cancel` is on its way to the read, and `Detach` comes
too late; of two calls of `Detach` at the same time neither does. -/
theorem released_at_most_once_run :
    (∃ s : State, s.released ≤ 1 ∧ s.calls.map Call.progress =
      [.ended .returned, .ended .returned,
        .ended (.threw (.logicError "Thread not detachable"))]) ∧
      (∃ s : State, 2 ≤ s.released) ∧
      ∃ c : Call, c.progress = .at (.detaching 0) ∧ c.stage.passed = true := by
  refine ⟨?_, ?_, ?_⟩
  · obtain ⟨s, hr, hprogress⟩ := exists_of_runWhen (callers [] {} .join .joinable) Alone
      (begins [.join, .cancel, .detach] ++ proceeding [0, 1, 1] ++ [.finishes] ++
        proceeding [0, 0, 1, 1, 2])
      (fun s => s.calls.map Call.progress =
        [.ended .returned, .ended .returned,
          .ended (.threw (.logicError "Thread not detachable"))])
      (by decide +kernel)
    exact ⟨s, (released_at_most_once [] {} .join .joinable).1 s hr, hprogress⟩
  · obtain ⟨s, hr, hnot, hnext⟩ := exists_of_run (callers [] {} .join .joinable)
      (begins [.detach, .detach] ++ proceeding [0])
      (fun s => ¬Alone s (.proceeds 1 {}) ∧ (step s (.proceeds 1 {})).isSome = true)
      (by decide +kernel)
    obtain ⟨s', hstep⟩ := Option.isSome_iff_exists.mp hnext
    exact ⟨s',
      (released_at_most_once [] {} .join .joinable).2.1 s _ s' s' hr hnot hstep .refl⟩
  · obtain ⟨s, hr, hcalls⟩ := exists_of_run (callers [] {} .join .joinable)
      (begins [.detach] ++ proceeding [0])
      (fun s => s.calls = [{ progress := .at (.detaching 0), stage := .inside }])
      (by decide +kernel)
    exact ⟨_, rfl, ((released_at_most_once [] {} .join .joinable).2.2 s hr _
      (by rw [hcalls]; exact List.mem_singleton_self _) _ 0 rfl rfl).2⟩

end Callers

end ThreadPool.Pthread
