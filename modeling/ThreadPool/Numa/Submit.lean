import ThreadPool.Lib.Promise
import ThreadPool.Numa.Progress
import ThreadPool.Numa.Restart

/-!
# `Submit` on nodes

`Submit` is a member of `ThreadPool` and knows nothing of nodes. It calls the
`Enqueue` of the pool, which here asks on which node the caller runs, and the
lambda goes into the queue of that node. What the callers rely on follows from
the same laws as for `NormalThreadPool`; two things differ.

A call of `Enqueue` has four places to throw at, on its way to the push. And
`Stop` empties the queues of the nodes one after another, so a call that has
passed the tests can push on a node `Stop` is done with. Its task stays queued
behind a `Stop` that has returned, and its future pending. While the pool
runs and the node is served, every task on it is called, and `get` returns.
-/

namespace ThreadPool.Numa

open Interleave Relation Machine

/-! ## Where the pool runs and destroys tasks -/

/-- The task inside whose call a worker is. -/
def WorkerPc.runs : WorkerPc → Option Task
  | .running t => some t
  | _ => none

/-- The task whose call a step ends, and the node it was queued on. -/
def State.invoking (s : State) : Action → Option (Nat × Task)
  | .worker j _ =>
      s.workers[j]?.bind fun w => w.native.pc.runs.map fun t => (w.native.nodeNum, t)
  | _ => none

/-- The node a step empties the queue of. -/
def State.sweeping (s : State) : Action → Option Nat
  | .control _ _ =>
      match s.control with
      | .stop _ (.tasks n) => some n
      | _ => none
  | _ => none

/-- The call that a step ends by an exception. -/
def State.refusing (cfg : Config) (s : State) : Action → Option Nat
  | .enqueue k _ =>
      match s.calls[k]? with
      | none => none
      | some c =>
          match c.pc with
          | .test | .testNode => if s.sh.running then none else some k
          | .range =>
              if c.nodeNum < 0 ∨ c.nodeNum ≥ cfg.numaNodeCount then some k else none
          | _ => none
  | .locate k cpu nodeOfCpu strerror =>
      match getNodeCurrentThreadIsOn cpu nodeOfCpu strerror with
      | .error _ => some k
      | .ok _ => none
  | _ => none

def Action.brings : Action → Bool
  | .call _ | .callOn _ _ => true
  | _ => false

/-- The same step, with a task that throws or does not. -/
def Action.ends (throws : Bool) : Action → Action
  | .worker j _ => .worker j throws
  | a => a

def CallPc.refused : CallPc → Bool
  | .threw _ => true
  | _ => false

theorem CallPc.not_pushed {pc : CallPc} (h : pc.refused = true) : pc.pushed = false := by
  cases pc <;> first | rfl | cases h

/-- The call was ended by an exception. -/
def State.refused (s : State) (k : Nat) : Bool := s.calls[k]?.any fun c => c.pc.refused

/-! ## What a step does to the histories -/

theorem LoopStep.finished_eq {sh sh' : Shared} {nd nd' : NodeData} {free throws : Bool}
    {agent : Agent} {pc pc' : WorkerPc} {fl fl' : Flags}
    (h : LoopStep sh nd free agent throws pc fl sh' nd' pc' fl') :
    finished nd'.hist = finished nd.hist ++ pc.runs.toList ∧
      discarded nd'.hist = discarded nd.hist := by
  cases h with
  | passes hpc | sleeps hpc => rcases hpc with rfl | rfl <;> simp [WorkerPc.runs]
  | _ => simp [WorkEvent.finished?, WorkEvent.discarded?, WorkerPc.runs]

theorem invoking_eq_some {s : State} {a : Action} {n : Nat} {t : Task}
    (h : s.invoking a = some (n, t)) :
    ∃ j throws w, a = .worker j throws ∧ s.workers[j]? = some w ∧
      w.native.pc = .running t ∧ w.native.nodeNum = n := by
  cases a with
  | worker j throws =>
      obtain ⟨w, hw, hmap⟩ := Option.bind_eq_some_iff.mp h
      obtain ⟨u, hruns, heq⟩ := Option.map_eq_some_iff.mp hmap
      cases hpc : w.native.pc with
      | running v =>
          rw [hpc, WorkerPc.runs, Option.some.injEq] at hruns
          cases heq
          exact ⟨j, throws, w, rfl, hw, by rw [hpc, hruns], rfl⟩
      | _ =>
          rw [hpc] at hruns
          cases hruns
  | _ => cases h

/-- What a worker does that is inside a task: the call ends. -/
theorem step_running {cfg : Config} {s s' : State} {j : Nat} {throws : Bool} {w : Worker}
    {t : Task} (hs : Wired cfg s) (hw : s.workers[j]? = some w)
    (hpc : w.native.pc = .running t) (hstep : step cfg s (.worker j throws) = some s') :
    ∃ nd, s.nodes[w.native.nodeNum]? = some nd ∧
      s' = { s with
        nodes := s.nodes.set w.native.nodeNum { nd with
          hist := nd.hist ++ [WorkEvent.finish w.agent t] }
        workers := s.workers.set j (w.goto (if throws then .entry true else .testExit)) } := by
  simp only [step, workerStep, hw, hpc, boundStep, hs.index j w hw] at hstep
  split at hstep
  · next slot nd hslot hnd =>
      obtain ⟨-, hslot⟩ := getElem?_of_slot hslot
      rw [hw, Option.some.injEq] at hslot
      subst hslot
      refine ⟨nd, hnd, ?_⟩
      rw [workerLoop, Option.some.injEq, setFlags_workerGoto_eq (by exact hw)] at hstep
      exact hstep.symm
  · cases hstep

theorem fates_of_no_work {cfg : Config} {s s' : State} {a : Action} (n : Nat)
    (hinvoking : s.invoking a = none) (hsweeping : s.sweeping a = none)
    (hmove : Move cfg s a s') :
    finished (s'.node n).hist = finished (s.node n).hist ∧
      discarded (s'.node n).hist = discarded (s.node n).hist := by
  cases hmove with
  | pushes hc hpc hnd hfree =>
      rw [node_set hnd rfl]
      split
      · next hn =>
          rw [← hn, node_eq hnd]
          simp [WorkEvent.finished?, WorkEvent.discarded?]
      · exact ⟨rfl, rfl⟩
  | @loops j throws w sh nd nd' pc fl hw hnd hstep =>
      obtain ⟨hfinished, hdiscarded⟩ := hstep.finished_eq
      rw [State.invoking, hw, Option.bind_some, Option.map_eq_none_iff] at hinvoking
      rw [hinvoking, Option.toList_none, List.append_nil] at hfinished
      rw [node_set hnd rfl]
      split
      · next hn =>
          rw [← hn, node_eq hnd]
          exact ⟨hfinished, hdiscarded⟩
      · exact ⟨rfl, rfl⟩
  | clearTasks hc => simp [State.sweeping, hc] at hsweeping
  | pushesSlot | expandPushes =>
      exact ⟨congrArg finished (hist_pushWorker s _ n).1,
        congrArg discarded (hist_pushWorker s _ n).1⟩
  | _ => exact ⟨rfl, rfl⟩

theorem sweeping_eq_some {s : State} {a : Action} {n : Nat} (h : s.sweeping a = some n) :
    ∃ creates timedOut p, a = .control creates timedOut ∧ s.control = .stop p (.tasks n) := by
  cases a with
  | control creates timedOut =>
      simp only [State.sweeping] at h
      split at h
      · next p m hc =>
          rw [Option.some.injEq] at h
          exact ⟨creates, timedOut, p, rfl, by rw [hc, h]⟩
      · cases h
  | _ => cases h

theorem step_fates {cfg : Config} {s s' : State} {a : Action} (hs : Wired cfg s)
    (hstep : step cfg s a = some s') (n : Nat) :
    (∀ t, t ∈ finished (s'.node n).hist ↔
        t ∈ finished (s.node n).hist ∨ s.invoking a = some (n, t)) ∧
      ∀ t, t ∈ discarded (s'.node n).hist ↔
        t ∈ discarded (s.node n).hist ∨ s.sweeping a = some n ∧ t ∈ (s.node n).tasks := by
  cases hinvoking : s.invoking a with
  | some p =>
      obtain ⟨m, u⟩ := p
      obtain ⟨j, throws, w, rfl, hw, hpc, rfl⟩ := invoking_eq_some hinvoking
      obtain ⟨nd, hnd, rfl⟩ := step_running hs hw hpc hstep
      rw [node_set hnd rfl]
      by_cases hn : w.native.nodeNum = n
      · subst hn
        simp [node_eq hnd, WorkEvent.finished?, WorkEvent.discarded?, State.sweeping, eq_comm]
      · simp [hn, State.sweeping]
  | none =>
      have hmove := step_cases hs hstep
      cases hsweeping : s.sweeping a with
      | none =>
          obtain ⟨hfinished, hdiscarded⟩ := fates_of_no_work n hinvoking hsweeping hmove
          simp [hfinished, hdiscarded]
      | some m =>
          obtain ⟨creates, timedOut, p, rfl, hc⟩ := sweeping_eq_some hsweeping
          simp only [step, controlStep, hc, stopStep] at hstep
          split at hstep
          · next nd hnd =>
              split at hstep
              · rw [Option.some.injEq] at hstep
                subst hstep
                obtain ⟨-, -, -, -, hfinished, -, hdiscarded⟩ := readings_discard nd.hist nd.tasks
                rw [node_set hnd rfl]
                by_cases hn : m = n
                · subst hn
                  simp [node_eq hnd, hfinished, hdiscarded]
                · simp [hn]
              · cases hstep
          · next hnd =>
              rw [Option.some.injEq] at hstep
              subst hstep
              have hempty : (s.node m).tasks = [] := by rw [State.node, hnd]; rfl
              simp only [reduceCtorEq, or_false, Option.some.injEq]
              refine ⟨fun t => Iff.rfl, fun t => ⟨Or.inl, fun h => h.elim id ?_⟩⟩
              rintro ⟨rfl, ht⟩
              rw [hempty] at ht
              cases ht

/-! ## What a step does to the calls -/

/-- Knows its node. -/
def CallPc.located : CallPc → Bool
  | .range | .testNode | .push | .notify | .returned => true
  | _ => false

/-- The node `Enqueue` takes for what `GetNodeCurrentThreadIsOn` returned. -/
def nodeFor (cfg : Config) (node : Int) : Int :=
  if node < 0 ∨ node ≥ cfg.numaNodeCount then 0 else node

/-- A call comes, moves on with its task, or is left alone. Where it moves on
to its end by an exception, the step is one that ends it so; where it gets to
know its node, the step is the one that asks. -/
inductive Turn (cfg : Config) (s : State) (a : Action) (s' : State) : Prop where
  | comes (c : Call) (hbrings : a.brings = true) (hrefusing : s.refusing cfg a = none)
      (hcalls : s'.calls = s.calls ++ [c])
      (hnode : c.pc.located = true → ∃ n callable, a = .callOn n callable)
  | moves (k : Nat) (c c' : Call) (hbrings : a.brings = false)
      (hc : s.calls[k]? = some c) (hcalls : s'.calls = s.calls.set k c')
      (htask : c'.task = c.task) (hopen : c.pc.refused = false)
      (hpushed : c.pc.pushed = true → c'.pc.pushed = true)
      (hrefusing : s.refusing cfg a = if c'.pc.refused = true then some k else none)
      (hnode : c'.pc.located = true →
        c.pc.located = true ∧ c'.nodeNum = c.nodeNum ∨
        ∃ cpu nodeOfCpu strerror node, a = .locate k cpu nodeOfCpu strerror ∧
          getNodeCurrentThreadIsOn cpu nodeOfCpu strerror = .ok node ∧
          c'.nodeNum = nodeFor cfg node)
  | stays (hbrings : a.brings = false) (hrefusing : s.refusing cfg a = none)
      (hcalls : s'.calls = s.calls)

theorem enqueueStep_turn {cfg : Config} {s s' : State} {k : Nat} {pick : Option Nat}
    (hstep : enqueueStep cfg s k pick = some s') : Turn cfg s (.enqueue k pick) s' := by
  unfold enqueueStep at hstep
  cases hc : s.calls[k]? with
  | none =>
      simp only [hc] at hstep
      cases hstep
  | some c =>
      have hturn : ∀ pc', s'.calls = s.calls.set k (c.goto pc') → c.pc.refused = false →
          (c.pc.pushed = true → pc'.pushed = true) →
          (pc'.located = true → c.pc.located = true) →
          s.refusing cfg (.enqueue k pick) =
            (if pc'.refused = true then some k else none) →
          Turn cfg s (.enqueue k pick) s' := fun pc' hcalls hopen hpushed hnode hrefusing =>
        .moves k c _ rfl hc hcalls rfl hopen hpushed hrefusing fun h => Or.inl ⟨hnode h, rfl⟩
      simp only [hc] at hstep
      simp only [State.refusing, hc] at hturn
      cases hpc : c.pc with
      | test =>
          simp only [hpc, Option.some.injEq] at hstep hturn
          subst hstep
          refine hturn _ (by rw [callGoto_eq hc]) rfl nofun ?_ ?_
          · split <;> exact nofun
          · cases s.sh.running <;> rfl
      | testNode =>
          simp only [hpc, Option.some.injEq] at hstep hturn
          subst hstep
          refine hturn _ (by rw [callGoto_eq hc]) rfl nofun (fun _ => rfl) ?_
          cases s.sh.running <;> rfl
      | range =>
          simp only [hpc, Option.some.injEq] at hstep hturn
          subst hstep
          refine hturn _ (by rw [callGoto_eq hc]) rfl nofun (fun _ => rfl) ?_
          split <;> rfl
      | push =>
          simp only [hpc] at hstep hturn
          split at hstep
          · cases hstep
          · split at hstep
            · rw [Option.some.injEq] at hstep
              subst hstep
              exact hturn .notify (by rw [callGoto_eq (by exact hc)]; rfl) rfl nofun
                (fun _ => rfl) rfl
            · cases hstep
      | notify =>
          simp only [hpc] at hstep hturn
          split at hstep
          · rw [Option.some.injEq] at hstep
            subst hstep
            exact hturn .returned (by rw [callGoto_eq (by exact hc)]) rfl (fun _ => rfl)
              (fun _ => rfl) rfl
          · cases hstep
      | locate | returned | threw =>
          simp only [hpc] at hstep
          cases hstep

theorem locateStep_turn {cfg : Config} {s s' : State} {k : Nat} {cpu nodeOfCpu : Int}
    {strerror : String} (hstep : locateStep cfg s k cpu nodeOfCpu strerror = some s') :
    Turn cfg s (.locate k cpu nodeOfCpu strerror) s' := by
  unfold locateStep at hstep
  split at hstep
  · cases hstep
  · next c hc =>
      split at hstep
      · next hpc =>
          split at hstep
          · next e he =>
              rw [Option.some.injEq, callGoto_eq hc] at hstep
              subst hstep
              refine .moves k c _ rfl hc rfl rfl (by rw [hpc]; rfl) (by rw [hpc]; exact nofun) ?_
                nofun
              simp only [State.refusing, he]
              rfl
          · next node hnode =>
              rw [Option.some.injEq] at hstep
              subst hstep
              refine .moves k c _ rfl hc rfl rfl (by rw [hpc]; rfl) (by rw [hpc]; exact nofun) ?_
                fun _ => Or.inr ⟨cpu, nodeOfCpu, strerror, node, rfl, hnode, rfl⟩
              simp only [State.refusing, hnode]
              rfl
      · cases hstep

theorem step_turn {cfg : Config} {s s' : State} {a : Action} (hs : Wired cfg s)
    (hstep : step cfg s a = some s') : Turn cfg s a s' := by
  have hstays : a.isCall = false → a.brings = false → s.refusing cfg a = none →
      Turn cfg s a s' := fun hcall hbrings hrefusing => by
    refine .stays hbrings hrefusing ?_
    cases step_cases hs hstep with
    | call | callOn => cases hbrings
    | callHop ha =>
        rw [ha] at hcall
        cases hcall
    | pushes | notifies | notifiesNobody => cases hcall
    | _ => rfl
  cases a with
  | call callable =>
      obtain rfl := Option.some.inj hstep
      exact .comes _ rfl rfl rfl nofun
  | callOn nodeNum callable =>
      obtain rfl := Option.some.inj hstep
      exact .comes _ rfl rfl rfl fun _ => ⟨_, _, rfl⟩
  | enqueue k pick => exact enqueueStep_turn hstep
  | locate k cpu nodeOfCpu strerror => exact locateStep_turn hstep
  | _ => exact hstays rfl rfl rfl

theorem Turn.refused {cfg : Config} {s s' : State} {a : Action} {k : Nat}
    (hk : k < s.calls.length) (h : Turn cfg s a s') :
    s'.refused k = true ↔ s.refused k = true ∨ s.refusing cfg a = some k := by
  unfold State.refused
  cases h with
  | comes c _ hrefusing hcalls =>
      rw [hrefusing, hcalls, List.getElem?_append_left hk, or_iff_left nofun]
  | stays _ hrefusing hcalls => rw [hrefusing, hcalls, or_iff_left nofun]
  | moves i c c' _ hc hcalls _ hopen _ hrefusing =>
      rw [hrefusing, hcalls]
      by_cases hik : i = k
      · subst hik
        rw [List.getElem?_set_self hk, hc, Option.any_some, Option.any_some, hopen]
        cases c'.pc.refused <;> simp
      · rw [List.getElem?_set_ne hik]
        cases c'.pc.refused <;> simp [hik]

theorem Turn.task {cfg : Config} {s s' : State} {a : Action} {k : Nat} {c : Call}
    (hc : s.calls[k]? = some c) (h : Turn cfg s a s') :
    ∃ c', s'.calls[k]? = some c' ∧ c'.task = c.task := by
  have hlt := (List.getElem?_eq_some_iff.mp hc).1
  cases h with
  | comes d _ _ hcalls => exact ⟨c, by rw [hcalls, List.getElem?_append_left hlt, hc], rfl⟩
  | stays _ _ hcalls => exact ⟨c, by rw [hcalls, hc], rfl⟩
  | moves i d d' _ hd hcalls htask =>
      rw [hcalls]
      by_cases hik : i = k
      · subst hik
        rw [hc, Option.some.injEq] at hd
        subst hd
        exact ⟨d', List.getElem?_set_self hlt, htask⟩
      · exact ⟨c, by rw [List.getElem?_set_ne hik, hc], rfl⟩

theorem Turn.length {cfg : Config} {s s' : State} {a : Action} (h : Turn cfg s a s') :
    s'.calls.length = s.calls.length + if a.brings then 1 else 0 := by
  cases h with
  | comes c hbrings _ hcalls =>
      rw [hcalls, hbrings, List.length_append]
      rfl
  | moves k c c' hbrings _ hcalls =>
      rw [hcalls, hbrings, List.length_set]
      rfl
  | stays hbrings _ hcalls =>
      rw [hcalls, hbrings]
      rfl

theorem Turn.refusing {cfg : Config} {s s' : State} {a : Action} {k : Nat}
    (h : Turn cfg s a s') (hk : s.refusing cfg a = some k) :
    ∃ c, s.calls[k]? = some c ∧ c.pc.pushed = false ∧ c.pc.refused = false := by
  cases h with
  | comes c _ hrefusing =>
      rw [hrefusing] at hk
      cases hk
  | stays _ hrefusing =>
      rw [hrefusing] at hk
      cases hk
  | moves i c c' _ hc _ _ hopen hpushed hrefusing =>
      rw [hrefusing] at hk
      split at hk
      · next hrefused =>
          obtain rfl := Option.some.inj hk
          refine ⟨c, hc, ?_, hopen⟩
          rw [Bool.eq_false_iff]
          intro h
          have hpast := hpushed h
          rw [CallPc.not_pushed hrefused] at hpast
          cases hpast
      · cases hk

/-! ## The pool as a machine that settles what it is given -/

/-- Called to its end, on whichever node. -/
def State.called (s : State) (k : Nat) : Prop :=
  ∃ n, ∃ t ∈ finished (s.node n).hist, t.id = k

/-- Destroyed uncalled, with a queue or by an exception on the way to it. -/
def State.lost (s : State) (k : Nat) : Prop :=
  (∃ n, ∃ t ∈ discarded (s.node n).hist, t.id = k) ∨ s.refused k = true

/-- The packaged tasks that a step destroys uncalled. -/
def State.destroying (cfg : Config) (s : State) (a : Action) : List Nat :=
  (s.refusing cfg a).toList ++
    (s.sweeping a).toList.flatMap fun n => (s.node n).tasks.map Task.id

theorem Numbered.eq_of_id {s : State} (hs : Numbered s) {m n : Nat} {t u : Task}
    (ht : t ∈ accepted (s.node m).hist) (hu : u ∈ accepted (s.node n).hist)
    (h : t.id = u.id) : t = u ∧ m = n := by
  obtain ⟨c, hc, rfl, rfl, -⟩ := hs.known m t ht
  obtain ⟨d, hd, rfl, rfl, -⟩ := hs.known n u hu
  rw [h, hd, Option.some.injEq] at hc
  rw [hc]
  exact ⟨rfl, rfl⟩

theorem Numbered.not_refused {s : State} (hs : Numbered s) {n : Nat} {t : Task}
    (ht : t ∈ accepted (s.node n).hist) : s.refused t.id = false := by
  obtain ⟨c, hc, -, -, hpushed⟩ := hs.known n t ht
  rw [State.refused, hc, Option.any_some]
  cases hpc : c.pc <;> rw [hpc] at hpushed <;> first | rfl | cases hpushed

/-- What is queued or being called on a node is neither called to its end nor
lost. -/
theorem open_of_place {s : State} (hq : ∀ n, (s.queue n).Lawful) (hs : Numbered s)
    {n : Nat} {t : Task}
    (h : t ∈ (s.node n).tasks ∨ 0 < WorkQueue.inHands (s.queue n).busy t) :
    t ∈ accepted (s.node n).hist ∧ ¬s.called t.id ∧ ¬s.lost t.id := by
  have hacc : t ∈ accepted (s.node n).hist := (hq n).accepted_of_fate
    (h.elim (Or.inr ∘ Or.inr ∘ Or.inl) (Or.inr ∘ Or.inr ∘ Or.inr))
  obtain ⟨hnotFinished, hnotDiscarded⟩ := (hq n).open_of_place h
  refine ⟨hacc, ?_, ?_⟩
  · rintro ⟨m, u, hu, hid⟩
    obtain ⟨rfl, rfl⟩ := hs.eq_of_id ((hq m).accepted_of_fate (Or.inl hu)) hacc hid
    exact hnotFinished hu
  · rintro (⟨m, u, hu, hid⟩ | hrefused)
    · obtain ⟨rfl, rfl⟩ := hs.eq_of_id ((hq m).accepted_of_fate (Or.inr (Or.inl hu))) hacc hid
      exact hnotDiscarded hu
    · rw [hs.not_refused hacc] at hrefused
      cases hrefused

theorem open_of_call {s : State} (hq : ∀ n, (s.queue n).Lawful) (hs : Numbered s)
    {k : Nat} {c : Call} (hc : s.calls[k]? = some c) (hpushed : c.pc.pushed = false)
    (hopen : c.pc.refused = false) : ¬s.called k ∧ ¬s.lost k := by
  have hnot : ∀ {n t}, t ∈ accepted (s.node n).hist → t.id ≠ k := by
    rintro n t ht rfl
    obtain ⟨d, hd, -, -, hpast⟩ := hs.known n t ht
    rw [hc, Option.some.injEq] at hd
    rw [← hd, hpushed] at hpast
    cases hpast
  refine ⟨?_, ?_⟩
  · rintro ⟨n, t, ht, hid⟩
    exact hnot ((hq n).accepted_of_fate (Or.inl ht)) hid
  · rintro (⟨n, t, ht, hid⟩ | hrefused)
    · exact hnot ((hq n).accepted_of_fate (Or.inr (Or.inl ht))) hid
    · rw [State.refused, hc, Option.any_some, hopen] at hrefused
      cases hrefused

theorem busy_of_invoking {s : State} {a : Action} {n : Nat} {t : Task}
    (h : s.invoking a = some (n, t)) : 0 < WorkQueue.inHands (s.queue n).busy t := by
  obtain ⟨j, throws, w, -, hw, hpc, rfl⟩ := invoking_eq_some h
  rw [State.queue, queueOf, WorkQueue.inHands_gather]
  exact List.countP_pos_iff.mpr ⟨w, List.mem_of_getElem? hw, by simp [Worker.busyOn, hpc]⟩

/-- Where the pool says how a task ends, it does not matter which step it is
said of, unless the step ends a call. -/
theorem step_ends (cfg : Config) (s : State) (b : Bool) (a : Action)
    (h : s.invoking a = none) : step cfg s (a.ends b) = step cfg s a := by
  cases a with
  | worker j throws =>
      show workerStep cfg s j b = workerStep cfg s j throws
      cases hw : s.workers[j]? with
      | none => simp [workerStep, hw]
      | some w =>
          rw [State.invoking, hw, Option.bind_some, Option.map_eq_none_iff] at h
          simp only [workerStep, hw]
          cases hpc : w.native.pc with
          | running t =>
              rw [hpc] at h
              cases h
          | holding task => cases task <;> simp [boundStep, hpc, workerLoop]
          | blocked signalled => cases signalled <;> simp [boundStep, hpc, workerLoop]
          | _ => simp [boundStep, hpc, workerLoop]
  | _ => rfl

theorem isSome_step_ends (cfg : Config) (s : State) (b : Bool) (a : Action) :
    (step cfg s (a.ends b)).isSome = (step cfg s a).isSome := by
  cases hinvoking : s.invoking a with
  | none => rw [step_ends cfg s b a hinvoking]
  | some p =>
      obtain ⟨j, throws, w, rfl, hw, hpc, -⟩ := invoking_eq_some (n := p.1) (t := p.2) hinvoking
      show (workerStep cfg s j b).isSome = (workerStep cfg s j throws).isSome
      simp only [workerStep, hw, hpc, boundStep]
      cases s.slot w.native.index <;> cases s.nodes[w.native.nodeNum]? <;> rfl

/-- The pool as the other end of `Submit`. -/
def settling (cfg : Config) : Settling (pool cfg) where
  count s := s.calls.length
  bring := .call true
  brings := Action.brings
  throws := Action.throws
  ends := Action.ends
  invokes s a := (s.invoking a).map fun p => p.2.id
  destroys := State.destroying cfg
  called := State.called
  lost := State.lost
  count_init := rfl
  brings_bring := rfl
  invokes_bring _ := rfl
  destroys_bring _ := rfl
  count_step hr hstep := (step_turn (wired_of_reachable hr) hstep).length
  fresh := by
    intro s a s' hr hstep ha
    have hr' := ReachableWhen.step hr trivial hstep
    have hopen : ∀ {c : Call}, s'.calls[s.calls.length]? = some c → c.pc.pushed = false →
        c.pc.refused = false → ¬s'.called s.calls.length ∧ ¬s'.lost s.calls.length :=
      open_of_call (lawful_of_reachable hr') (numbered_of_reachable hr')
    cases a with
    | call callable | callOn nodeNum callable =>
        obtain rfl := Option.some.inj hstep
        exact hopen List.getElem?_concat_length rfl rfl
    | _ => cases ha
  called_step := by
    intro s a s' k hr hstep _
    have hfates := fun n => (step_fates (wired_of_reachable hr) hstep n).1
    simp only [State.called, hfates, or_and_right, exists_or, Option.map_eq_some_iff,
      Prod.exists]
  lost_step := by
    intro s a s' k hr hstep hk
    have hwired := wired_of_reachable hr
    have hfates := fun n => (step_fates hwired hstep n).2
    simp only [State.lost, State.destroying, hfates, (step_turn hwired hstep).refused hk,
      List.mem_append, List.mem_flatMap, List.mem_map, Option.mem_toList, or_and_right,
      exists_or, and_assoc, exists_and_left]
    rw [or_or_or_comm, or_comm (b := s.refusing cfg a = some k)]
  invokes_open := by
    intro s a s' k hr hstep hk
    obtain ⟨⟨n, t⟩, ht, rfl⟩ := Option.map_eq_some_iff.mp hk
    obtain ⟨hacc, hcalled, hlost⟩ := open_of_place (lawful_of_reachable hr)
      (numbered_of_reachable hr) (Or.inr (busy_of_invoking ht))
    obtain ⟨c, hc, -⟩ := (numbered_of_reachable hr).known n t hacc
    refine ⟨(List.getElem?_eq_some_iff.mp hc).1, hcalled, hlost, ?_⟩
    obtain ⟨j, throws, w, rfl, -⟩ := invoking_eq_some ht
    rfl
  destroys_open := by
    intro s a s' k hr hstep hk
    have hq := lawful_of_reachable hr
    have hnum := numbered_of_reachable hr
    rcases List.mem_append.mp hk with hrefusing | hsweeping
    · obtain ⟨c, hc, hpushed, hopen⟩ := (step_turn (wired_of_reachable hr) hstep).refusing
        (Option.mem_toList.mp hrefusing)
      exact open_of_call hq hnum hc hpushed hopen
    · obtain ⟨n, -, hmem⟩ := List.mem_flatMap.mp hsweeping
      obtain ⟨t, ht, rfl⟩ := List.mem_map.mp hmem
      exact (open_of_place hq hnum (Or.inl ht)).2
  throws_ends a := by cases a <;> rfl
  brings_ends b a := by cases a <;> rfl
  invokes_ends s b a := by cases a <;> rfl
  destroys_ends s b a := by cases a <;> rfl
  step_ends s b a h := step_ends cfg s b a (Option.map_eq_none_iff.mp h)
  enabled_ends := isSome_step_ends cfg

/-! ## The calls of `Submit` -/

/-- The pool with the futures of `Submit`. -/
def submitPool (cfg : Config) : Machine (Promised State) (SubmitAction Action) :=
  (settling cfg).withPromises

/-- What `Submit` enqueues is not empty. -/
theorem submitted {cfg : Config} {s : Promised State} (hr : (submitPool cfg).Reachable s)
    {k : Nat} {p : Promise} (hp : s.promises[k]? = some (some p)) :
    ∃ c, s.sys.calls[k]? = some c ∧ c.task = ⟨k, true⟩ := by
  refine Settling.promised_invariant
    (P := fun s k => ∃ c, s.calls[k]? = some c ∧ c.task = ⟨k, true⟩) hr ?_ ?_ k p hp
  · intro s s' _ hstep
    obtain rfl := Option.some.inj hstep
    exact ⟨_, List.getElem?_concat_length, rfl⟩
  · intro s a s' k hr hstep ⟨c, hc, htask⟩
    obtain ⟨c', hc', htask'⟩ := (step_turn (wired_of_reachable hr) hstep).task hc
    exact ⟨c', hc', htask'.trans htask⟩

/-- A call past its push has been accepted, on its node. -/
def Landed (s : State) : Prop :=
  ∀ c ∈ s.calls, c.pc.pushed = true → c.task ∈ accepted (s.node c.nodeNum.toNat).hist

theorem accepted_of_step {cfg : Config} {s s' : State} {a : Action}
    (hr : (pool cfg).Reachable s) (hstep : step cfg s a = some s') {n : Nat} {t : Task}
    (ht : t ∈ accepted (s.node n).hist) : t ∈ accepted (s'.node n).hist :=
  ((hist_of_step hr hstep n).filterMap WorkEvent.accepted?).subset ht

theorem Move.landed {cfg : Config} {s s' : State} {a : Action} (hs : Landed s)
    (hold : ∀ {n t}, t ∈ Interleave.accepted (s.node n).hist →
      t ∈ Interleave.accepted (s'.node n).hist) (h : Move cfg s a s') : Landed s' := by
  have hs' : ∀ c ∈ s.calls, c.pc.pushed = true →
      c.task ∈ Interleave.accepted (s'.node c.nodeNum.toNat).hist :=
    fun c hc hpushed => hold (hs c hc hpushed)
  have hnew : ∀ {c : Call}, c.pc.pushed = false → ∀ d ∈ s.calls ++ [c], d.pc.pushed = true →
      d.task ∈ Interleave.accepted (s'.node d.nodeNum.toNat).hist := by
    intro c hc d hd hpushed
    rcases List.mem_append.mp hd with hmem | hlast
    · exact hs' d hmem hpushed
    · rw [List.mem_singleton.mp hlast, hc] at hpushed
      cases hpushed
  cases h with
  | call | callOn => exact hnew rfl
  | callHop _ hc hhop =>
      refine forall_mem_set hs' fun hpushed => ?_
      cases hhop <;> cases hpushed
  | @pushes k pick c nd hc hpc hnd =>
      refine forall_mem_set hs' fun _ => ?_
      have hnode : c.nodeNum.toNat = (c.goto .notify).nodeNum.toNat := rfl
      rw [node_set hnd rfl, if_pos hnode, accepted_concat]
      exact List.mem_append_right _ (List.mem_singleton.mpr rfl)
  | notifies hc hpc | notifiesNobody hc hpc =>
      have hacc := hs' _ (List.mem_of_getElem? hc) (by rw [hpc]; rfl)
      exact forall_mem_set hs' fun _ => hacc
  | _ => exact hs'

theorem landed_of_reachable {cfg : Config} {s : State} (hr : (pool cfg).Reachable s) :
    Landed s :=
  hr.invariant nofun fun _ _ _ hr hs hstep =>
    (move_of_step hr hstep).landed hs (accepted_of_step hr hstep)

/-- The task of a `Submit`, called to its end or discarded: on the node of its
call. -/
theorem called_iff {cfg : Config} {s : State} (hr : (pool cfg).Reachable s) {k : Nat}
    {c : Call} (hc : s.calls[k]? = some c) :
    (s.called k ↔ c.task ∈ finished (s.node c.nodeNum.toNat).hist) ∧
      ((∃ n, ∃ t ∈ discarded (s.node n).hist, t.id = k) ↔
        c.task ∈ discarded (s.node c.nodeNum.toNat).hist) := by
  have hnum := numbered_of_reachable hr
  have hid := hnum.id k c hc
  have heq : ∀ {n t}, t ∈ accepted (s.node n).hist → t.id = k →
      t = c.task ∧ n = c.nodeNum.toNat := by
    rintro n t ht rfl
    obtain ⟨d, hd, rfl, rfl, -⟩ := hnum.known n t ht
    rw [hc, Option.some.injEq] at hd
    rw [hd]
    exact ⟨rfl, rfl⟩
  have hq := fun n => lawful_of_reachable hr n
  constructor
  · refine ⟨?_, fun h => ⟨_, _, h, hid⟩⟩
    rintro ⟨n, t, ht, htid⟩
    obtain ⟨rfl, rfl⟩ := heq ((hq n).accepted_of_fate (Or.inl ht)) htid
    exact ht
  · refine ⟨?_, fun h => ⟨_, _, h, hid⟩⟩
    rintro ⟨n, t, ht, htid⟩
    obtain ⟨rfl, rfl⟩ := heq ((hq n).accepted_of_fate (Or.inr (Or.inl ht))) htid
    exact ht

/-! ## What the callers of `Submit` rely on -/

/-- `Submit` as call number `k` by a thread on node `n`, as far as the last
test before its push. -/
def submitting (k : Nat) (n : Int) : List (SubmitAction Action) :=
  [.submit, .act (.enqueue k none), .act (.locate k 0 n ""), .act (.enqueue k none),
    .act (.enqueue k none)]

/-- A task is queued in a pool that is down: nobody is there to take it, and
`Stop` would return at its test. -/
structure Stranded (n : Nat) (t : Task) (s : State) : Prop where
  running : s.sh.running = false
  workers : s.workers = []
  control : (∃ o, s.control = .idle o) ∨ ∃ p, s.control = .stop p .test
  queued : t ∈ (s.node n).tasks

theorem Hop.stranded {cfg : Config} {s : State} {c : Control}
    (hrunning : s.sh.running = false)
    (hc : (∃ o, s.control = .idle o) ∨ ∃ p, s.control = .stop p .test)
    (h : Hop cfg s s.control c) : (∃ o, c = .idle o) ∨ ∃ p, c = .stop p .test := by
  rcases hc with ⟨o, hc⟩ | ⟨p, hc⟩
  · rw [hc] at h
    cases h
  · rw [hc] at h
    cases h with
    | notRunning => exact Or.inl ⟨_, rfl⟩
    | mayStop hrun =>
        rw [hrunning] at hrun
        cases hrun

theorem Move.stranded {cfg : Config} {n : Nat} {t : Task} {s s' : State} {a : Action}
    (hwired : Wired cfg s) (ha : a ≠ .start) (hs : Stranded n t s) (h : Move cfg s a s') :
    Stranded n t s' := by
  obtain ⟨hrunning, hworkers, hcontrol, hqueued⟩ := hs
  have hnobody : ∀ {j : Nat} {w : Worker}, s.workers[j]? ≠ some w := by
    intro j w hw
    rw [hworkers] at hw
    cases hw
  have hover : ∀ {m : Monitor}, s.monitorThread = some m → m.pc = .ended := fun hm =>
    hwired.unmonitored (Or.inl hrunning) _ hm
  cases h with
  | loops hw | workerHop _ hw | binds hw | notifies _ _ hw | marks _ _ hw | setsExit _ hw
  | joined _ hw => exact absurd hw hnobody
  | callsStart => exact absurd rfl ha
  | callsStop p => exact ⟨hrunning, hworkers, Or.inr ⟨p, rfl⟩, hqueued⟩
  | hop hhop => exact ⟨hrunning, hworkers, hhop.stranded hrunning hcontrol, hqueued⟩
  | pushes hc hpc hnd =>
      refine ⟨hrunning, hworkers, hcontrol, ?_⟩
      rw [node_set hnd rfl]
      split
      · next hn =>
          rw [← hn, node_eq hnd] at hqueued
          exact List.mem_append_left _ hqueued
      · exact hqueued
  | expandSpawns hm hpc | expandPushes hm hpc =>
      rw [hover hm] at hpc
      cases hpc
  | shrinkNotifies hm hpc =>
      exact ⟨hrunning, notifyAll_eq_nil hworkers, hcontrol, hqueued⟩
  | storeRunning hc | spawns hc | pushesSlot hc | storeMonitoring hc | startUnmonitored _ hc
  | starts hc | clearMonitoring hc | joinsMonitor hc | clearRunning hc | notifiesAll hc
  | cleared hc | resetCount hc | clearTasks hc =>
      rw [hc] at hcontrol
      rcases hcontrol with ⟨o, hcontrol⟩ | ⟨p, hcontrol⟩ <;> cases hcontrol
  | _ => exact ⟨hrunning, hworkers, hcontrol, hqueued⟩

/-- The pool is not started again. -/
def Unstarted (_ : Promised State) : SubmitAction Action → Prop
  | .act .start => False
  | _ => True

theorem stranded_of_returns {cfg : Config} {s s' : State} {a : Action} {p : ShutdownPolicy}
    {pc : StopPc} (hr : (pool cfg).Reachable s) (hc : s.control = .stop p pc)
    (hstep : (pool cfg).step s a = some s') (hret : s'.control = .idle .returned) {n : Nat}
    {t : Task} (ht : t ∈ (s'.node n).tasks) : Stranded n t s' := by
  obtain ⟨⟨m, rfl, hm⟩, rfl⟩ := (move_of_step hr hstep).stop_returns hc hret
  have hwired := wired_of_reachable hr
  exact ⟨hwired.running_at hc rfl, hwired.emptied (by rw [hc]; rfl), Or.inl ⟨_, hret⟩, ht⟩

theorem Stranded.step {cfg : Config} {n : Nat} {t : Task} {s s' : Promised State}
    {x : SubmitAction Action} (hr : (submitPool cfg).Reachable s) (hs : Stranded n t s.sys)
    (hx : Unstarted s x) (hstep : (submitPool cfg).step s x = some s') :
    Stranded n t s'.sys := by
  obtain ⟨hsys, hkept⟩ := Settling.kept_of_reachable hr
  have hwired := wired_of_reachable hsys
  cases x with
  | submit =>
      have hsubmit : ((pool cfg).step s.sys (.call true)).map (fun sys =>
        { sys := sys, promises := s.promises ++ [some .pending] }) = some s' := hstep
      obtain ⟨sys, hsys', rfl⟩ := Option.map_eq_some_iff.mp hsubmit
      have hother : Action.call true ≠ .start := nofun
      exact (move_of_step hsys hsys').stranded hwired hother hs
  | act a =>
      have hact : (settling cfg).step s (.act a) = some s' := hstep
      obtain ⟨a', hstep', -, hsame⟩ := hkept.stepped hsys hact
      refine (move_of_step hsys hstep').stranded hwired ?_ hs
      rintro rfl
      rcases hsame a rfl with rfl | ⟨b, hends⟩
      · exact hx
      · cases a <;> first | exact hx | cases hends

/-- A stranded task stays so until the pool is started again. -/
theorem stranded_of_leads {cfg : Config} {s s' : Promised State}
    (hr : (submitPool cfg).Reachable s) {n : Nat} {t : Task} (hs : Stranded n t s.sys)
    (hrun : (submitPool cfg).LeadsWhen Unstarted s s') : Stranded n t s'.sys :=
  hrun.stable (P := fun s => Stranded n t s.sys) hr hs
    fun _ _ _ hr hs hx hstep => hs.step hr hx hstep

/-- The worker that is inside a submitted callable goes back to its loop, and
the future has the result, or the exception. -/
theorem submitted_returns {cfg : Config} {s s' : Promised State} {j : Nat} {w : Worker}
    {t : Task} {throws : Bool} {p : Promise} (hr : (submitPool cfg).Reachable s)
    (hw : s.sys.workers[j]? = some w) (hpc : w.native.pc = .running t)
    (hp : s.promises[t.id]? = some (some p))
    (hstep : (submitPool cfg).step s (.act (.worker j throws)) = some s') :
    s'.promises[t.id]? = some (some (if throws then .exception else .value)) ∧
      s'.sys.workers[j]? = some (w.goto .testExit) := by
  obtain ⟨hsys, hs⟩ := Settling.kept_of_reachable hr
  have hinvoking : s.sys.invoking (.worker j throws) = some (w.native.nodeNum, t) := by
    simp [State.invoking, hw, hpc, WorkerPc.runs]
  obtain ⟨-, hcalled, hlost⟩ := open_of_place (lawful_of_reachable hsys)
    (numbered_of_reachable hsys) (Or.inr (busy_of_invoking hinvoking))
  obtain rfl := hs.pending hp hcalled hlost
  have hinvoke : (settling cfg).invoke s (.worker j throws) = (.worker j false,
      s.promises.set t.id (some (if throws then .exception else .value))) := by
    simp only [Settling.invoke, settling, hinvoking, Option.map_some, hp, Promise.invoke]
    rfl
  obtain ⟨sys, hsys', rfl⟩ := Option.map_eq_some_iff.mp hstep
  rw [hinvoke] at hsys' ⊢
  constructor
  · have hnone : (settling cfg).destroys s.sys (.worker j throws) = [] := rfl
    have hbrings : (settling cfg).brings (.worker j throws) = false := rfl
    have hlt := (List.getElem?_eq_some_iff.mp hp).1
    simp [hnone, hbrings, abandonAll, hlt]
  · obtain ⟨nd, -, rfl⟩ := step_running (wired_of_reachable hsys) hw hpc hsys'
    exact List.getElem?_set_self (List.getElem?_eq_some_iff.mp hw).1

/-- No exception of a submitted callable gets out of the loop of its worker; so
in a pool that is used through `Submit` alone `valid_thread_count_` counts the
workers in their loops, whatever the callables throw. -/
theorem submit_keeps_tally {cfg : Config} :
    (∀ s s' j w t throws p, (submitPool cfg).Reachable s →
      s.sys.workers[j]? = some w → w.native.pc = .running t →
      s.promises[t.id]? = some (some p) →
      (submitPool cfg).step s (.act (.worker j throws)) = some s' →
      s'.promises[t.id]? = some (some (if throws then .exception else .value)) ∧
        s'.sys.workers[j]? = some (w.goto .testExit)) ∧
    ∀ s, (submitPool cfg).ReachableWhen (settling cfg).Submitting s → Tallied s.sys :=
  ⟨fun _ _ _ _ _ _ _ hr hw hpc hp hstep => submitted_returns hr hw hpc hp hstep,
    fun _ hr => tallied_of_returning (Settling.caught_of_reachableWhen hr).sys⟩

/-- Both parts applied to a run in which the worker of the second node is inside
a submitted callable, which throws. -/
theorem submit_keeps_tally_run : ∃ (s s' : Promised State) (w : Worker),
    s.sys.workers[1]? = some w ∧ w.native.pc = .running ⟨0, true⟩ ∧
      (submitPool (.ofHardware 2 2)).step s (.act (.worker 1 true)) = some s' ∧
      s'.promises[0]? = some (some .exception) ∧
      s'.sys.workers[1]? = some (w.goto .testExit) ∧ Tallied s'.sys := by
  obtain ⟨s, hr, hpc, hp, hnext⟩ := exists_of_runWhen (submitPool (.ofHardware 2 2))
    (settling (.ofHardware 2 2)).Submitting
    ((starting ++ entering 1).map .act ++ submitting 0 1 ++ [.act (.enqueue 0 none)] ++
      (works 1 12).map .act)
    (fun s => (s.sys.workers[1]?.map fun w => w.native.pc) = some (.running ⟨0, true⟩) ∧
      s.promises = [some .pending] ∧
      ((submitPool (.ofHardware 2 2)).step s (.act (.worker 1 true))).isSome = true)
    (by decide +kernel)
  obtain ⟨w, hw, hpc⟩ := Option.map_eq_some_iff.mp hpc
  obtain ⟨s', hstep⟩ := Option.isSome_iff_exists.mp hnext
  have hok : (settling (.ofHardware 2 2)).Submitting s (.act (.worker 1 true)) := rfl
  obtain ⟨hresult, hloop⟩ := submit_keeps_tally.1 s s' 1 w ⟨0, true⟩ true .pending
    (hr.mono fun _ _ _ => trivial) hw hpc (by rw [hp]; rfl) hstep
  exact ⟨s, s', w, hw, hpc, hstep, hresult, hloop,
    submit_keeps_tally.2 s' (ReachableWhen.step hr hok hstep)⟩

/-! ## `get` on a node -/

theorem worker?_ends (b : Bool) (a : Action) : (a.ends b).worker? = a.worker? := by
  cases a <;> rfl

theorem call?_ends (b : Bool) (a : Action) : (a.ends b).call? = a.call? := by
  cases a <;> rfl

theorem isMonitor_ends (b : Bool) (a : Action) : (a.ends b).isMonitor = a.isMonitor := by
  cases a <;> rfl

/-- A fair run of a pool with one worker on each of two nodes and no monitor, in
which a `Submit` from the second node is queued at time 40. -/
theorem exists_fair_submit : ∃ ρ : (submitPool (.ofHardware 2 2)).Run,
    (∀ j, ρ.StronglyFair fun x => ∃ a, x = .act a ∧ a.worker? = some j) ∧
    (∀ j, ρ.Ends fun s => InTask j s.sys) ∧
    (∀ k, ρ.Fair fun x => ∃ a, x = .act a ∧ a.call? = some k) ∧
    (ρ.Fair fun x => ∃ a, x = .act a ∧ a.isMonitor = true) ∧
    (ρ.Always 40 fun s => s.sys.sh.running = true) ∧
    (ρ.Always 40 fun s => ∃ w ∈ s.sys.workers, w.servesOn 1 = true) ∧
    (ρ.state 40).promises[0]? = some (some .pending) ∧
    (ρ.state 40).sys.calls[0]? = some ⟨⟨0, true⟩, 1, .notify⟩ := by
  let acts : List (SubmitAction Action) := bothAsleep.map .act ++ submitting 0 1 ++
    [.act (.enqueue 0 none), .act (.enqueue 0 (some 1))] ++
    (works 1 6).map .act ++ (.act (.worker 1 true) :: (works 1 6).map .act)
  have hend : ((submitPool (.ofHardware 2 2)).run acts).any (fun s =>
      decide ((∀ w ∈ s.sys.workers, w.native.pc = .blocked false) ∧
        (∀ c ∈ s.sys.calls, c.pc = .returned) ∧ (∀ m ∈ s.sys.monitorThread, m.pc = .ended) ∧
        s.sys.sh.running = true ∧ ∃ w ∈ s.sys.workers, w.servesOn 1 = true)) = true := by
    decide +kernel
  obtain ⟨s, hrun, hs⟩ := (Option.any_eq_true _ _).mp hend
  obtain ⟨hworkers, hcalls, hmonitor, hrunning, hserved⟩ := of_decide_eq_true hs
  obtain ⟨hrestW, hrestC, hrestM⟩ :=
    not_enabled_of_rest (.ofHardware 2 2) hworkers hcalls hmonitor
  let ρ : (submitPool (.ofHardware 2 2)).Run := .thenIdle (.act (.tick 0)) hrun
    (Settling.step_idle rfl rfl rfl rfl)
  have hqueued : (ρ.state 40).promises[0]? = some (some .pending) ∧
      (ρ.state 40).sys.calls[0]? = some ⟨⟨0, true⟩, 1, .notify⟩ := by
    have hstate : ρ.state 40 = (submitPool (.ofHardware 2 2)).follow
      (submitPool (.ofHardware 2 2)).init acts 40 := rfl
    rw [hstate]
    decide +kernel
  have hrun : ρ.Always 40 fun s => s.sys.sh.running = true :=
    Run.always_thenIdle (by decide +kernel) hrunning
  have hserved : ρ.Always 40 fun s => ∃ w ∈ s.sys.workers, w.servesOn 1 = true :=
    Run.always_thenIdle (by decide +kernel) hserved
  exact ⟨ρ, fun j => Run.stronglyFair_thenIdle fun h => hrestW j (Settling.enabled_iff.mp h),
    fun j => Run.ends_thenIdle (not_inTask_of_asleep hworkers j),
    fun k => Run.fair_thenIdle fun h => hrestC k (Settling.enabled_iff.mp h),
    Run.fair_thenIdle fun h => hrestM (Settling.enabled_iff.mp h), hrun, hserved, hqueued⟩

end ThreadPool.Numa
