import ThreadPool.Lib.Promise
import ThreadPool.Normal.Accounting
import ThreadPool.Normal.Conservation
import ThreadPool.Normal.Progress
import ThreadPool.Normal.Restart

/-!
# `Submit`

`ThreadPool::Submit` wraps its callable into a `std::packaged_task`, hands
`Enqueue` a lambda that calls it, and gives the future to the caller. The
lambda holds the only lasting reference to the packaged task, so the promise
is kept or broken by whatever becomes of the lambda: a worker calls it, and
the packaged task stores the result, or the exception, without letting it
out; `Stop` empties the queue and destroys it uncalled; or `Enqueue` throws,
and the unwinding of `Submit` destroys it.

`settling` says where in the pool these three are, and that the pool keeps
the laws of such a machine. What the callers of `Submit` rely on follows.
-/

namespace ThreadPool.Normal

open Interleave Relation Machine

/-! ## Where the pool runs and destroys tasks -/

/-- The task inside whose call a worker is. -/
def WorkerPc.runs : WorkerPc → Option Task
  | .running t => some t
  | _ => none

/-- The task whose call a step ends. -/
def State.invoking (s : State) : Action → Option Task
  | .worker j _ => s.workers[j]?.bind fun w => w.native.pc.runs
  | _ => none

/-- The tasks a step empties the queue of. -/
def State.clearing (s : State) : Action → List Task
  | .control _ _ =>
      match s.control with
      | .stop _ .tasks => s.sh.tasks
      | _ => []
  | _ => []

/-- The call that a step ends by the exception of a pool that is not
running. -/
def State.refusing (s : State) : Action → Option Nat
  | .enqueue k _ =>
      match s.calls[k]? with
      | some c => if c.pc = .test ∧ s.sh.running = false then some k else none
      | none => none
  | _ => none

def Action.brings : Action → Bool
  | .call _ => true
  | _ => false

/-- The same step, with a task that throws or does not. -/
def Action.ends (throws : Bool) : Action → Action
  | .worker j _ => .worker j throws
  | a => a

def CallPc.refused : CallPc → Bool
  | .threw _ => true
  | _ => false

/-- The call was ended by an exception. -/
def State.refused (s : State) (k : Nat) : Bool := s.calls[k]?.any fun c => c.pc.refused

/-- Past the push. -/
def CallPc.pushed : CallPc → Bool
  | .notify | .hint | .returned => true
  | _ => false

/-- What was accepted was pushed by the call whose number it bears. -/
def Pushed (s : State) : Prop :=
  ∀ t ∈ accepted s.sh.hist, ∃ c, s.calls[t.id]? = some c ∧ c.task = t ∧ c.pc.pushed = true

/-! ## What a step does to the history -/

theorem LoopStep.finished_eq {sh sh' : Shared} {free throws : Bool} {self : Nat}
    {pc pc' : WorkerPc} {fl fl' : Flags}
    (h : LoopStep sh free self throws pc fl sh' pc' fl') :
    finished sh'.hist = finished sh.hist ++ pc.runs.toList ∧
      discarded sh'.hist = discarded sh.hist := by
  cases h with
  | passes hpc | sleeps hpc => rcases hpc with rfl | rfl <;> simp [WorkerPc.runs]
  | _ => simp [WorkEvent.finished?, WorkEvent.discarded?, WorkerPc.runs]

theorem Move.fates {cfg : Config} {s s' : State} {a : Action} (h : Move cfg s a s') :
    finished s'.sh.hist = finished s.sh.hist ++ (s.invoking a).toList ∧
      Interleave.discarded s'.sh.hist =
        Interleave.discarded s.sh.hist ++ s.clearing a := by
  cases h with
  | pushes hc hpc hfree =>
      simp [State.invoking, State.clearing, WorkEvent.finished?, WorkEvent.discarded?]
  | @loops j throws w sh pc fl hw hstep =>
      obtain ⟨hfinished, hdiscarded⟩ := hstep.finished_eq
      refine ⟨hfinished.trans ?_, hdiscarded.trans (List.append_nil _).symm⟩
      rw [State.invoking, hw]
      rfl
  | registers hw hpc | ends hw hpc =>
      simp [State.invoking, State.clearing, hw, hpc, State.put, WorkerPc.runs]
  | clearTasks hc hfree =>
      obtain ⟨-, -, -, -, hfinished, -, hdiscarded⟩ := readings_discard s.sh.hist s.sh.tasks
      simp only [State.invoking, State.clearing, hc]
      exact ⟨hfinished.trans (List.append_nil _).symm, hdiscarded⟩
  | hop hhop =>
      generalize hc : s.control = c at hhop
      cases hhop <;> simp [State.invoking, State.clearing, State.goto, hc]
  | storeRunning hc | startFails _ _ hc | startUnmonitored _ hc | starts hc
  | clearMonitoring hc | joinsMonitor hc | clearRunning hc | notifiesAll hc | joined hc
  | destroyJoined hc | cleared hc | resetCount hc =>
      simp [State.invoking, State.clearing, hc]
  | _ => simp [State.invoking, State.clearing, State.goto, State.monitorGoto, State.put]

/-! ## Which call a task came with -/

theorem Pushed.frame {s s' : State} (hs : Pushed s) (hcalls : s'.calls = s.calls)
    (hacc : accepted s'.sh.hist = accepted s.sh.hist) : Pushed s' := by
  unfold Pushed
  rw [hcalls, hacc]
  exact hs

theorem Pushed.callGoto {s s' : State} {k : Nat} {c : Call} (hs : Pushed s)
    (hc : s.calls[k]? = some c) {pc : CallPc}
    (hpc : c.pc.pushed = true → pc.pushed = true)
    (hcalls : s'.calls = s.calls.set k { c with pc := pc })
    (hacc : accepted s'.sh.hist = accepted s.sh.hist) : Pushed s' := by
  intro t ht
  rw [hacc] at ht
  obtain ⟨d, hd, htask, hpushed⟩ := hs t ht
  rw [hcalls]
  by_cases hk : k = t.id
  · subst hk
    rw [hc, Option.some.injEq] at hd
    subst hd
    exact ⟨_, List.getElem?_set_self (List.getElem?_eq_some_iff.mp hc).1, htask, hpc hpushed⟩
  · exact ⟨d, by rw [List.getElem?_set_ne hk, hd], htask, hpushed⟩

theorem Move.pushed {cfg : Config} {s s' : State} {a : Action} (hnum : Numbered s)
    (hs : Pushed s) (h : Move cfg s a s') : Pushed s' := by
  cases h with
  | call callable =>
      intro t ht
      obtain ⟨c, hc, hrest⟩ := hs t ht
      exact ⟨c, by rw [List.getElem?_append_left (List.getElem?_eq_some_iff.mp hc).1, hc],
        hrest⟩
  | rejected hc hpc | accepted hc hpc =>
      exact hs.callGoto hc (by simp [hpc, CallPc.pushed]) rfl rfl
  | @pushes k pick c hc hpc hfree =>
      intro t ht
      rw [accepted_concat, List.mem_append, WorkEvent.accepted?, Option.toList_some,
        List.mem_singleton] at ht
      have hold : Pushed { s with calls := s.calls.set k { c with pc := .notify } } :=
        hs.callGoto hc (fun _ => rfl) rfl rfl
      rcases ht with hacc | rfl
      · exact hold t hacc
      · refine ⟨{ c with pc := .notify }, ?_, rfl, rfl⟩
        show (s.calls.set k _)[c.task.id]? = _
        rw [hnum.id k c hc]
        exact List.getElem?_set_self (List.getElem?_eq_some_iff.mp hc).1
  | notifies hc | notifiesNobody hc | hints hc => exact hs.callGoto hc (fun _ => rfl) rfl rfl
  | loops hw hstep => exact hs.frame rfl hstep.accepted_eq
  | clearTasks hc => exact hs.frame rfl (readings_discard _ _).1
  | _ => exact hs.frame rfl rfl

theorem pushed_of_reachable {cfg : Config} {s : State} (hr : (pool cfg).Reachable s) :
    Pushed s :=
  hr.invariant nofun fun _ _ _ hr hs hstep =>
    (move_of_step hr hstep).pushed (numbered_of_reachable hr) hs

/-- A call is ended by an exception where the pool is not running, and stays
ended. -/
theorem Move.refused {cfg : Config} {s s' : State} {a : Action} {k : Nat}
    (hk : k < s.calls.length) (h : Move cfg s a s') :
    s'.refused k = true ↔ s.refused k = true ∨ s.refusing a = some k := by
  have hset : ∀ {i : Nat} {c : Call} {pc : CallPc} {s'' : State}, s.calls[i]? = some c →
      pc.refused = c.pc.refused → s.refusing a = none →
      s''.calls = s.calls.set i { c with pc := pc } →
      (s''.refused k = true ↔ s.refused k = true ∨ s.refusing a = some k) := by
    intro i c pc s'' hc hpc hnone hcalls
    rw [hnone, or_iff_left nofun, State.refused, State.refused, hcalls]
    by_cases hik : i = k
    · subst hik
      rw [List.getElem?_set_self hk, hc, Option.any_some, Option.any_some, hpc]
    · rw [List.getElem?_set_ne hik]
  have hsame : ∀ {s'' : State}, s.refusing a = none → s''.calls = s.calls →
      (s''.refused k = true ↔ s.refused k = true ∨ s.refusing a = some k) := by
    intro s'' hnone hcalls
    rw [hnone, or_iff_left nofun, State.refused, State.refused, hcalls]
  cases h with
  | call =>
      rw [State.refused, State.refused, List.getElem?_append_left hk]
      simp [State.refusing]
  | @rejected i pick c hc hpc hrunning =>
      have hrefusing : s.refusing (.enqueue i pick) = some i := by
        simp [State.refusing, hc, hpc, hrunning]
      rw [hrefusing, Option.some.injEq, State.refused, State.refused]
      by_cases hik : i = k
      · subst hik
        simp [List.getElem?_set_self hk, CallPc.refused]
      · simp [List.getElem?_set_ne hik, hik]
  | accepted hc hpc hrunning =>
      exact hset hc (by rw [hpc]; rfl) (by simp [State.refusing, hc, hrunning]) rfl
  | pushes hc hpc | notifies hc hpc | notifiesNobody hc hpc | hints hc hpc =>
      exact hset hc (by rw [hpc]; rfl) (by simp [State.refusing, hc, hpc]) rfl
  | _ => exact hsame rfl rfl

/-! ## The pool as a machine that settles what it is given -/

/-- Called to its end. -/
def State.called (s : State) (k : Nat) : Prop := ∃ t ∈ finished s.sh.hist, t.id = k

/-- Destroyed uncalled, with the queue or by the exception of its `Submit`. -/
def State.lost (s : State) (k : Nat) : Prop :=
  (∃ t ∈ discarded s.sh.hist, t.id = k) ∨ s.refused k = true

/-- The packaged tasks that a step destroys uncalled. -/
def State.destroying (s : State) (a : Action) : List Nat :=
  (s.refusing a).toList ++ (s.clearing a).map Task.id

theorem Pushed.eq_of_id {s : State} (hs : Pushed s) {t u : Task}
    (ht : t ∈ accepted s.sh.hist) (hu : u ∈ accepted s.sh.hist) (h : t.id = u.id) :
    t = u := by
  obtain ⟨c, hc, rfl, -⟩ := hs t ht
  obtain ⟨d, hd, rfl, -⟩ := hs u hu
  rw [h, hd, Option.some.injEq] at hc
  rw [hc]

theorem Pushed.not_refused {s : State} (hs : Pushed s) {t : Task}
    (ht : t ∈ accepted s.sh.hist) : s.refused t.id = false := by
  obtain ⟨c, hc, -, hpushed⟩ := hs t ht
  rw [State.refused, hc, Option.any_some]
  cases hpc : c.pc <;> rw [hpc] at hpushed <;> first | rfl | cases hpushed

theorem open_of_place {s : State} (hq : s.queue.Lawful) (hs : Pushed s) {t : Task}
    (h : t ∈ s.sh.tasks ∨ 0 < WorkQueue.inHands s.queue.busy t) :
    t ∈ accepted s.sh.hist ∧ ¬s.called t.id ∧ ¬s.lost t.id := by
  have hacc : t ∈ accepted s.sh.hist :=
    hq.accepted_of_fate (h.elim (Or.inr ∘ Or.inr ∘ Or.inl) (Or.inr ∘ Or.inr ∘ Or.inr))
  obtain ⟨hnotFinished, hnotDiscarded⟩ := hq.open_of_place h
  have hsame : ∀ {u}, u ∈ accepted s.sh.hist → u.id = t.id → u = t :=
    fun hu hid => hs.eq_of_id hu hacc hid
  refine ⟨hacc, ?_, ?_⟩
  · rintro ⟨u, hu, hid⟩
    obtain rfl := hsame (hq.accepted_of_fate (Or.inl hu)) hid
    exact hnotFinished hu
  · rintro (⟨u, hu, hid⟩ | hrefused)
    · obtain rfl := hsame (hq.accepted_of_fate (Or.inr (Or.inl hu))) hid
      exact hnotDiscarded hu
    · rw [hs.not_refused hacc] at hrefused
      cases hrefused

theorem open_of_test {s : State} (hq : s.queue.Lawful) (hs : Pushed s) {k : Nat} {c : Call}
    (hc : s.calls[k]? = some c) (hpc : c.pc = .test ∨ c.pc = .push) :
    ¬s.called k ∧ ¬s.lost k := by
  have hnot : ∀ {t : Task}, t ∈ accepted s.sh.hist → t.id ≠ k := by
    rintro t ht rfl
    obtain ⟨d, hd, -, hpushed⟩ := hs t ht
    rw [hc, Option.some.injEq] at hd
    subst hd
    rcases hpc with hpc | hpc <;> rw [hpc] at hpushed <;> cases hpushed
  refine ⟨?_, ?_⟩
  · rintro ⟨t, ht, hid⟩
    exact hnot (hq.accepted_of_fate (Or.inl ht)) hid
  · rintro (⟨t, ht, hid⟩ | hrefused)
    · exact hnot (hq.accepted_of_fate (Or.inr (Or.inl ht))) hid
    · rw [State.refused, hc, Option.any_some] at hrefused
      rcases hpc with hpc | hpc <;> rw [hpc] at hrefused <;> cases hrefused

theorem invoking_eq_some {s : State} {a : Action} {t : Task} (h : s.invoking a = some t) :
    ∃ j throws w, a = .worker j throws ∧ s.workers[j]? = some w ∧
      w.native.pc = .running t := by
  cases a with
  | worker j throws =>
      obtain ⟨w, hw, hruns⟩ := Option.bind_eq_some_iff.mp h
      refine ⟨j, throws, w, rfl, hw, ?_⟩
      cases hpc : w.native.pc <;> rw [hpc] at hruns <;> cases hruns
      rfl
  | _ => cases h

theorem refusing_eq_some {s : State} {a : Action} {k : Nat} (h : s.refusing a = some k) :
    ∃ c, s.calls[k]? = some c ∧ c.pc = .test := by
  cases a with
  | enqueue i pick =>
      cases hc : s.calls[i]? with
      | none =>
          simp only [State.refusing, hc] at h
          cases h
      | some c =>
          simp only [State.refusing, hc] at h
          split at h
          · next hcond =>
              rw [Option.some.injEq] at h
              subst h
              exact ⟨c, hc, hcond.1⟩
          · cases h
  | _ => cases h

theorem mem_tasks_of_clearing {s : State} {a : Action} {t : Task} (h : t ∈ s.clearing a) :
    t ∈ s.sh.tasks := by
  cases a with
  | control creates timedOut =>
      simp only [State.clearing] at h
      split at h
      · exact h
      · cases h
  | _ => cases h

theorem busy_of_invoking {s : State} {a : Action} {t : Task} (h : s.invoking a = some t) :
    0 < WorkQueue.inHands s.queue.busy t := by
  obtain ⟨j, throws, w, -, hw, hpc⟩ := invoking_eq_some h
  rw [show s.queue.busy = gather Worker.busy s.workers from rfl, inHands_busy]
  exact List.countP_pos_iff.mpr ⟨w, List.mem_of_getElem? hw, decide_eq_true hpc⟩

theorem Move.calls_length {cfg : Config} {s s' : State} {a : Action}
    (h : Move cfg s a s') :
    s'.calls.length = s.calls.length + if a.brings then 1 else 0 := by
  cases h with
  | call => exact List.length_append
  | rejected | accepted | pushes | notifies | notifiesNobody | hints =>
      exact List.length_set
  | _ => rfl

/-- Where the pool says how a task ends, it does not matter which step it is
said of, unless the step ends a call. -/
theorem step_ends (cfg : Config) (s : State) (b : Bool) (a : Action)
    (h : s.invoking a = none) : step cfg s (a.ends b) = step cfg s a := by
  cases a with
  | worker j throws =>
      show workerStep s j b = workerStep s j throws
      cases hw : s.workers[j]? with
      | none => simp [workerStep, hw]
      | some w =>
          rw [State.invoking, hw, Option.bind_some] at h
          simp only [workerStep, hw]
          cases hpc : w.native.pc with
          | running t =>
              rw [hpc] at h
              cases h
          | holding task => cases task <;> simp [boundStep, hpc, workerLoop]
          | blocked signalled => cases signalled <;> simp [boundStep, hpc, workerLoop]
          | _ => simp [boundStep, hpc, workerLoop]
  | _ => rfl

theorem isSome_step_ends (cfg : Config) (s : State) (b : Bool) (a : Action) :
    (step cfg s (a.ends b)).isSome = (step cfg s a).isSome := by
  cases hinvoking : s.invoking a with
  | none => rw [step_ends cfg s b a hinvoking]
  | some t =>
      obtain ⟨j, throws, w, rfl, hw, hpc⟩ := invoking_eq_some hinvoking
      show (workerStep s j b).isSome = (workerStep s j throws).isSome
      simp only [workerStep, hw, hpc, boundStep]
      cases s.workers[w.native.index]? <;> rfl

/-- The pool as the other end of `Submit`. -/
def settling (cfg : Config) : Settling (pool cfg) where
  count s := s.calls.length
  bring := .call true
  brings := Action.brings
  throws := Action.throws
  ends := Action.ends
  invokes s a := (s.invoking a).map Task.id
  destroys := State.destroying
  called := State.called
  lost := State.lost
  count_init := rfl
  brings_bring := rfl
  invokes_bring _ := rfl
  destroys_bring _ := rfl
  count_step hr hstep := (move_of_step hr hstep).calls_length
  fresh := by
    intro s a s' hr hstep ha
    have hr' := ReachableWhen.step hr trivial hstep
    have hq := lawful_of_reachable hr'
    have hpushed := pushed_of_reachable hr'
    cases a with
    | call callable =>
        obtain rfl := Option.some.inj hstep
        exact open_of_test hq hpushed List.getElem?_concat_length (Or.inl rfl)
    | _ => cases ha
  called_step := by
    intro s a s' k hr hstep _
    have hfinished := (move_of_step hr hstep).fates.1
    simp only [State.called, hfinished, List.mem_append, Option.mem_toList, or_and_right,
      exists_or, Option.map_eq_some_iff]
  lost_step := by
    intro s a s' k hr hstep hk
    have hmove := move_of_step hr hstep
    simp only [State.lost, State.destroying, hmove.fates.2, hmove.refused hk,
      List.mem_append, List.mem_map, Option.mem_toList, or_and_right, exists_or]
    rw [or_or_or_comm, or_comm (b := s.refusing a = some k)]
  invokes_open := by
    intro s a s' k hr hstep hk
    obtain ⟨t, ht, rfl⟩ := Option.map_eq_some_iff.mp hk
    obtain ⟨hacc, hcalled, hlost⟩ := open_of_place (lawful_of_reachable hr)
      (pushed_of_reachable hr) (Or.inr (busy_of_invoking ht))
    refine ⟨(numbered_of_reachable hr).known t hacc, hcalled, hlost, ?_⟩
    obtain ⟨j, throws, w, rfl, -⟩ := invoking_eq_some ht
    rfl
  destroys_open := by
    intro s a s' k hr hstep hk
    have hq := lawful_of_reachable hr
    have hpushed := pushed_of_reachable hr
    rcases List.mem_append.mp hk with hrefusing | hclearing
    · obtain ⟨c, hc, hpc⟩ := refusing_eq_some (Option.mem_toList.mp hrefusing)
      exact open_of_test hq hpushed hc (Or.inl hpc)
    · obtain ⟨t, ht, rfl⟩ := List.mem_map.mp hclearing
      exact (open_of_place hq hpushed (Or.inl (mem_tasks_of_clearing ht))).2
  throws_ends a := by cases a <;> rfl
  brings_ends b a := by cases a <;> rfl
  invokes_ends s b a := by cases a <;> rfl
  destroys_ends s b a := by cases a <;> rfl
  step_ends s b a h := step_ends cfg s b a (Option.map_eq_none_iff.mp h)
  enabled_ends := isSome_step_ends cfg

/-! ## The calls of `Submit` -/

/-- The pool with the futures of `Submit`. -/
def submitPool (cfg : Config) : Machine (Promised State) (SubmitAction Action) :=
  (settling cfg).withPromises

theorem Move.call_task {cfg : Config} {s s' : State} {a : Action} {k : Nat} {c : Call}
    (hc : s.calls[k]? = some c) (h : Move cfg s a s') :
    ∃ c', s'.calls[k]? = some c' ∧ c'.task = c.task := by
  have hlt := (List.getElem?_eq_some_iff.mp hc).1
  have hset : ∀ {i : Nat} {d d' : Call}, s.calls[i]? = some d → d'.task = d.task →
      ∃ c', (s.calls.set i d')[k]? = some c' ∧ c'.task = c.task := by
    intro i d d' hd htask
    by_cases hik : i = k
    · subst hik
      rw [hc, Option.some.injEq] at hd
      subst hd
      exact ⟨d', List.getElem?_set_self hlt, htask⟩
    · exact ⟨c, by rw [List.getElem?_set_ne hik, hc], rfl⟩
  cases h with
  | call => exact ⟨c, by rw [List.getElem?_append_left hlt, hc], rfl⟩
  | rejected hd | accepted hd | pushes hd | notifies hd | notifiesNobody hd | hints hd =>
      exact hset hd rfl
  | _ => exact ⟨c, hc, rfl⟩

/-- What `Submit` enqueues is not empty. -/
theorem submitted {cfg : Config} {s : Promised State} (hr : (submitPool cfg).Reachable s)
    {k : Nat} {p : Promise} (hp : s.promises[k]? = some (some p)) :
    ∃ c, s.sys.calls[k]? = some c ∧ c.task = ⟨k, true⟩ := by
  refine Settling.promised_invariant
    (P := fun s k => ∃ c, s.calls[k]? = some c ∧ c.task = ⟨k, true⟩) hr ?_ ?_ k p hp
  · intro s s' _ hstep
    obtain rfl := Option.some.inj hstep
    exact ⟨_, List.getElem?_concat_length, rfl⟩
  · intro s a s' k hr hstep ⟨c, hc, htask⟩
    obtain ⟨c', hc', htask'⟩ := (move_of_step hr hstep).call_task hc
    exact ⟨c', hc', htask'.trans htask⟩

/-- A call past its push has been accepted. -/
def Landed (s : State) : Prop :=
  ∀ c ∈ s.calls, c.pc.pushed = true → c.task ∈ accepted s.sh.hist

theorem Move.landed {cfg : Config} {s s' : State} {a : Action} (hs : Landed s)
    (hgrows : s.sh.hist <+: s'.sh.hist) (h : Move cfg s a s') : Landed s' := by
  have hold : ∀ {t}, t ∈ Interleave.accepted s.sh.hist → t ∈ Interleave.accepted s'.sh.hist :=
    fun ht => (hgrows.filterMap WorkEvent.accepted?).subset ht
  have hs' : ∀ c ∈ s.calls, c.pc.pushed = true → c.task ∈ Interleave.accepted s'.sh.hist :=
    fun c hc hpushed => hold (hs c hc hpushed)
  cases h with
  | call =>
      intro c hc hpushed
      rcases List.mem_append.mp hc with hmem | hnew
      · exact hs' c hmem hpushed
      · rw [List.mem_singleton.mp hnew] at hpushed
        cases hpushed
  | rejected hc | accepted hc => exact forall_mem_set hs' nofun
  | pushes hc hpc =>
      refine forall_mem_set hs' fun _ => ?_
      rw [accepted_concat]
      exact List.mem_append_right _ (List.mem_singleton.mpr rfl)
  | notifies hc hpc | notifiesNobody hc hpc | hints hc hpc =>
      have hacc := hs' _ (List.mem_of_getElem? hc) (by rw [hpc]; rfl)
      exact forall_mem_set hs' fun _ => hacc
  | _ => exact hs'

theorem landed_of_reachable {cfg : Config} {s : State} (hr : (pool cfg).Reachable s) :
    Landed s :=
  hr.invariant nofun fun _ _ _ hr hs hstep =>
    let hmove := move_of_step hr hstep
    hmove.landed hs (hmove.hist_grows (wired_of_reachable hr) (numbered_of_reachable hr))

/-- The task of a `Submit`, called to its end. -/
theorem called_iff {cfg : Config} {s : Promised State} (hr : (submitPool cfg).Reachable s)
    {k : Nat} {p : Promise} (hp : s.promises[k]? = some (some p)) :
    (s.sys.called k ↔ ⟨k, true⟩ ∈ finished s.sys.sh.hist) ∧
      ((∃ t ∈ discarded s.sys.sh.hist, t.id = k) ↔
        ⟨k, true⟩ ∈ discarded s.sys.sh.hist) := by
  obtain ⟨hsys, -⟩ := Settling.kept_of_reachable hr
  obtain ⟨c, hc, htask⟩ := submitted hr hp
  have heq : ∀ {t}, t ∈ accepted s.sys.sh.hist → t.id = k → t = ⟨k, true⟩ := by
    rintro t ht rfl
    obtain ⟨d, hd, rfl, -⟩ := pushed_of_reachable hsys t ht
    rw [hc, Option.some.injEq] at hd
    rw [← hd, htask]
  have hq := lawful_of_reachable hsys
  constructor
  · constructor
    · rintro ⟨t, ht, hid⟩
      rw [← heq (hq.accepted_of_fate (Or.inl ht)) hid]
      exact ht
    · exact fun h => ⟨_, h, rfl⟩
  · constructor
    · rintro ⟨t, ht, hid⟩
      rw [← heq (hq.accepted_of_fate (Or.inr (Or.inl ht))) hid]
      exact ht
    · exact fun h => ⟨_, h, rfl⟩

/-! ## What the callers of `Submit` rely on -/

/-- One `Submit` after another, each called as far as its notification. -/
def submitting (k : Nat) : List (SubmitAction Action) :=
  .submit :: List.replicate 3 (.act (.enqueue k none))

/-- The worker that is inside a submitted callable goes back to its loop, and
the future has the result, or the exception. -/
theorem submitted_returns {cfg : Config} {s s' : Promised State} {j : Nat} {w : Worker}
    {t : Task} {throws : Bool} {p : Promise} (hr : (submitPool cfg).Reachable s)
    (hw : s.sys.workers[j]? = some w) (hpc : w.native.pc = .running t)
    (hp : s.promises[t.id]? = some (some p))
    (hstep : (submitPool cfg).step s (.act (.worker j throws)) = some s') :
    s'.promises[t.id]? = some (some (if throws then .exception else .value)) ∧
      ∃ w', s'.sys.workers[j]? = some w' ∧ w'.native.pc = .testExit := by
  obtain ⟨hsys, hs⟩ := Settling.kept_of_reachable hr
  have hinvoking : s.sys.invoking (.worker j throws) = some t := by
    simp [State.invoking, hw, hpc, WorkerPc.runs]
  obtain ⟨-, hcalled, hlost⟩ := open_of_place (lawful_of_reachable hsys)
    (pushed_of_reachable hsys) (Or.inr (busy_of_invoking hinvoking))
  obtain rfl := hs.pending hp hcalled hlost
  have hinvoke : (settling cfg).invoke s (.worker j throws) = (.worker j false,
      s.promises.set t.id (some (if throws then .exception else .value))) := by
    simp only [Settling.invoke, settling, hinvoking, Option.map_some, hp, Promise.invoke]
    rfl
  obtain ⟨sys, hsys', rfl⟩ := Option.map_eq_some_iff.mp hstep
  rw [hinvoke] at hsys' ⊢
  constructor
  · have hnone : (settling cfg).destroys s.sys (.worker j throws) = [] := rfl
    have hbrings : (settling cfg).brings (.worker j throws) = false := rfl
    have hlt := (List.getElem?_eq_some_iff.mp hp).1
    simp [hnone, hbrings, abandonAll, hlt]
  · cases move_of_step hsys hsys' with
    | registers hw' hpc' | ends hw' hpc' =>
        rw [hw, Option.some.injEq] at hw'
        rw [← hw', hpc] at hpc'
        cases hpc'
    | loops hw' hloop =>
        rw [hw, Option.some.injEq] at hw'
        subst hw'
        have hput : ∀ w' : Worker, (s.sys.workers.set j w')[j]? = some w' := fun _ =>
          List.getElem?_set_self (List.getElem?_eq_some_iff.mp hw).1
        rw [hpc] at hloop
        cases hloop with
        | returns => exact ⟨_, hput _, rfl⟩
        | throws _ hthrows => cases hthrows
        | passes hwait | sleeps hwait => rcases hwait with hwait | hwait <;> cases hwait

/-- No exception of a submitted callable gets out. It goes into the future, and
the worker goes on; so in a pool that is used through `Submit` alone no
exception ends a worker and the counter is right, whatever the callables
throw. -/
theorem submit_contains_exceptions {cfg : Config} :
    (∀ s s' j w t throws p, (submitPool cfg).Reachable s →
      s.sys.workers[j]? = some w → w.native.pc = .running t →
      s.promises[t.id]? = some (some p) →
      (submitPool cfg).step s (.act (.worker j throws)) = some s' →
      s'.promises[t.id]? = some (some (if throws then .exception else .value)) ∧
        ∃ w', s'.sys.workers[j]? = some w' ∧ w'.native.pc = .testExit) ∧
    ∀ s, (submitPool cfg).ReachableWhen (settling cfg).Submitting s →
      NoneThrew s.sys ∧ ((∀ p, s.sys.control ≠ .stop p .count) → Truthful s.sys) := by
  refine ⟨fun s s' j w t throws p hr hw hpc hp hstep =>
    submitted_returns hr hw hpc hp hstep, fun s hr => ?_⟩
  have hsys := (Settling.caught_of_reachableWhen hr).sys
  have hnone := noneThrew_of_reachableWhen hsys
  exact ⟨hnone, fun hc => (truthful_iff (flagged_of_reachable hsys.reachable)
    (tallied_of_reachable hsys.reachable) hc).mpr hnone⟩

/-- Both parts applied to a run in which the only worker is inside the first of
two submitted callables, which throws. -/
theorem submit_contains_exceptions_run : ∃ (s s' : Promised State) (w : Worker),
    s.sys.workers[0]? = some w ∧ w.native.pc = .running ⟨0, true⟩ ∧
      (submitPool (.ofHardware 1)).step s (.act (.worker 0 true)) = some s' ∧
      s'.promises[0]? = some (some .exception) ∧
      (∃ w', s'.sys.workers[0]? = some w' ∧ w'.native.pc = .testExit) ∧
      NoneThrew s'.sys ∧ Truthful s'.sys := by
  obtain ⟨s, hr, hpc, hp, hnext⟩ := exists_of_runWhen (submitPool (.ofHardware 1))
    (settling (.ofHardware 1)).Submitting
    ((starting 2).map .act ++ submitting 0 ++ submitting 1 ++ (works 0 11).map .act)
    (fun s => (s.sys.workers[0]?.map fun w => w.native.pc) = some (.running ⟨0, true⟩) ∧
      s.promises = [some .pending, some .pending] ∧
      ((submitPool (.ofHardware 1)).step s (.act (.worker 0 true))).any (fun s' =>
        decide (s'.sys.control = .idle .returned)) = true)
    (by decide +kernel)
  obtain ⟨w, hw, hpc⟩ := Option.map_eq_some_iff.mp hpc
  obtain ⟨s', hstep, hs'⟩ := (Option.any_eq_true _ _).mp hnext
  have hidle : s'.sys.control = .idle .returned := of_decide_eq_true hs'
  obtain ⟨hresult, hloop⟩ := submit_contains_exceptions.1 s s' 0 w
    ⟨0, true⟩ true .pending (hr.mono fun _ _ _ => trivial) hw hpc (by rw [hp]; rfl) hstep
  have hok : (settling (.ofHardware 1)).Submitting s (.act (.worker 0 true)) := rfl
  obtain ⟨hnone, htruthful⟩ := submit_contains_exceptions.2 s'
    (ReachableWhen.step hr hok hstep)
  refine ⟨s, s', w, hw, hpc, hstep, hresult, hloop, hnone, htruthful fun p hcount => ?_⟩
  rw [hidle] at hcount
  cases hcount

theorem worker?_ends (b : Bool) (a : Action) : (a.ends b).worker? = a.worker? := by
  cases a <;> rfl

theorem call?_ends (b : Bool) (a : Action) : (a.ends b).call? = a.call? := by
  cases a <;> rfl

end ThreadPool.Normal
