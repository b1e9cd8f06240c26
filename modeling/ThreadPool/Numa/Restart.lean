import ThreadPool.Numa.Accounting
import ThreadPool.Numa.Draining

/-!
# One cycle after another

What `Start`, the monitor and the workers have put into the pool, `Stop`
takes out again, member by member, except for the `thread_count` of the
nodes. These only ever go up, and every `Start` adds the minimum to each of
them. So the pool is as it was constructed before its first `Start`, and
after a cycle only if there has been nothing to count.
-/

namespace ThreadPool.Numa

open Interleave Machine

/-! ## The members that are decided by -/

/-- `workers_` with its size, the queue and the `thread_count` of each node,
and the counter and the flags of the pool. -/
structure Slate where
  workers : List Worker
  pushed : Nat
  tasks : List (List Task)
  threadCounts : List Nat
  validThreadCount : Nat
  running : Bool
  monitoring : Bool
  deriving DecidableEq

def State.slate (s : State) : Slate where
  workers := s.workers
  pushed := s.pushed
  tasks := s.nodes.map NodeData.tasks
  threadCounts := s.nodes.map NodeData.threadCount
  validThreadCount := s.sh.validThreadCount
  running := s.sh.running
  monitoring := s.sh.monitoring

/-- No call pushes its task once `running_` has been cleared. -/
def InTime (s : State) (a : Action) : Prop := s.sh.running = false → s.pushes a = none

instance (s : State) (a : Action) : Decidable (InTime s a) :=
  inferInstanceAs (Decidable (_ → _))

/-! ## What `Stop` takes out -/

/-- `Stop` has stored `monitoring_ = false`. -/
def Control.unmonitoring : Control → Bool
  | .stop _ .test | .stop _ .monitoring => false
  | .stop _ _ => true
  | _ => false

theorem LoopStep.monitoring_eq {sh sh' : Shared} {nd nd' : NodeData}
    {free throws : Bool} {agent : Agent} {pc pc' : WorkerPc} {fl fl' : Flags}
    (h : LoopStep sh nd free agent throws pc fl sh' nd' pc' fl') :
    sh'.monitoring = sh.monitoring := by
  cases h <;> rfl

theorem Hop.unmonitoring {cfg : Config} {s : State} {c c' : Control}
    (h : Hop cfg s c c') (hc : c'.unmonitoring = true) : c.unmonitoring = true := by
  cases h <;> first | rfl | cases hc

/-- Past that point the flag is down; past the counter's reset the counter is
zero; and the queues are empty up to the node `Stop` has come to. -/
structure Swept (s : State) : Prop where
  monitoring : s.control.unmonitoring = true → s.sh.monitoring = false
  count : ∀ p n, s.control = .stop p (.tasks n) → s.sh.validThreadCount = 0
  tasks : ∀ p n, s.control = .stop p (.tasks n) → ∀ m < n, (s.node m).tasks = []

theorem Hop.not_tasks {cfg : Config} {s : State} {c c' : Control} (h : Hop cfg s c c')
    (p : ShutdownPolicy) (n : Nat) : c' ≠ .stop p (.tasks n) := by
  cases h <;> exact fun h => by cases h

theorem Move.unmonitoring {cfg : Config} {s s' : State} {a : Action}
    (hs : s.control.unmonitoring = true → s.sh.monitoring = false) (h : Move cfg s a s') :
    s'.control.unmonitoring = true → s'.sh.monitoring = false := by
  intro hc
  cases h with
  | loops _ _ hstep => exact hstep.monitoring_eq.trans (hs hc)
  | hop hhop => exact hs (hhop.unmonitoring hc)
  | clearMonitoring => rfl
  | joinsMonitor hold | clearRunning hold | notifiesAll hold | setsExit hold | cleared hold
  | resetCount hold | clearTasks hold => exact hs (by rw [hold]; rfl)
  | joined hold =>
      rcases hold with ⟨hold, -⟩ | ⟨hold, -⟩ <;> exact hs (by rw [hold]; rfl)
  | _ => first | exact hs hc | cases hc

theorem Move.swept {cfg : Config} {s s' : State} {a : Action} (hwired : Wired cfg s)
    (htime : InTime s a) (hs : Swept s) (h : Move cfg s a s') : Swept s' := by
  have hnobody : ∀ p n, s.control = .stop p (.tasks n) → s.workers = [] := fun p n hc =>
    hwired.emptied (by rw [hc]; rfl)
  have hstopped : ∀ p n, s.control = .stop p (.tasks n) → s.sh.running = false :=
    fun p n hc => hwired.running_at hc rfl
  refine ⟨h.unmonitoring hs.monitoring, fun p n hc' => ?_, fun p n hc' => ?_⟩
  · cases h with
    | loops hw =>
        rw [hnobody p n hc'] at hw
        cases hw
    | hop hhop => exact absurd hc' (hhop.not_tasks p n)
    | joined hold => rcases hold with ⟨-, rfl⟩ | ⟨-, rfl⟩ <;> cases hc'
    | resetCount => rfl
    | clearTasks hc => exact hs.count _ _ hc
    | _ => first | exact hs.count p n hc' | cases hc'
  · cases h with
    | pushes hc hpc =>
        have hnone := htime (hstopped p n hc')
        simp [State.pushes, hc, hpc] at hnone
    | loops hw =>
        rw [hnobody p n hc'] at hw
        cases hw
    | expandPushes hm hpc =>
        have hover := hwired.unmonitored (Or.inl (hstopped p n hc')) _ hm
        rw [hpc] at hover
        cases hover
    | hop hhop => exact absurd hc' (hhop.not_tasks p n)
    | joined hold => rcases hold with ⟨-, rfl⟩ | ⟨-, rfl⟩ <;> cases hc'
    | resetCount =>
        cases hc'
        exact fun _ h => absurd h (Nat.not_lt_zero _)
    | @clearTasks _ _ q k nd hc hnd =>
        cases hc'
        intro m hm
        rw [node_set hnd rfl m]
        split
        · rfl
        · next hne => exact hs.tasks p k hc m (by omega)
    | _ => first | exact hs.tasks p n hc' | cases hc'

theorem swept_of_inTime {cfg : Config} {s : State}
    (hr : (pool cfg).ReachableWhen InTime s) :
    Swept s :=
  hr.invariant
    ⟨fun hc => (by cases hc), fun _ _ hc => (by cases hc), fun _ _ hc => by cases hc⟩
    fun _ _ _ hr hs hok hstep =>
      (move_of_step hr.reachable hstep).swept (wired_of_reachable hr.reachable) hok hs

theorem Move.stop_returns {cfg : Config} {s s' : State} {a : Action}
    {p : ShutdownPolicy} {pc : StopPc} (h : Move cfg s a s')
    (hc : s.control = .stop p pc) (hidle : s'.control = .idle .returned) :
    (∃ n, pc = .tasks n ∧ s.nodes.length ≤ n) ∧ s' = s.goto (.idle .returned) := by
  cases h with
  | hop hhop =>
      rw [hc] at hhop
      rw [State.goto] at hidle
      dsimp only at hidle
      subst hidle
      cases hhop with
      | returns hn => exact ⟨⟨_, rfl, hn⟩, rfl⟩
  | callsStart hc' | callsStop _ hc' | startUnmonitored _ hc' | starts hc' =>
      rw [hc'] at hc
      cases hc
  | joined hold => rcases hold with ⟨-, rfl⟩ | ⟨-, rfl⟩ <;> cases hidle
  | _ =>
      first
        | cases hidle
        | (have hsame := hc.symm.trans hidle; cases hsame)

/-- Where `Stop` returns every member is as constructed but for the counts of
the nodes. -/
theorem slate_of_stop {cfg : Config} {s s' : State} {p : ShutdownPolicy} {pc : StopPc}
    {a : Action} (hr : (pool cfg).ReachableWhen InTime s) (hc : s.control = .stop p pc)
    (hstep : (pool cfg).step s a = some s') (hret : s'.control = .idle .returned) :
    s'.slate = { (pool cfg).init.slate with
      threadCounts := s'.nodes.map NodeData.threadCount } := by
  obtain ⟨⟨n, rfl, hn⟩, rfl⟩ := (move_of_step hr.reachable hstep).stop_returns hc hret
  have hwired := wired_of_reachable hr.reachable
  have hswept := swept_of_inTime hr
  have hnil : s.workers = [] := hwired.emptied (by rw [hc]; rfl)
  have hstopped : s.sh.running = false := hwired.running_at hc rfl
  have hlen := hwired.pushed
  rw [hnil, hwired.pending_of_control (Or.inl hstopped), hc] at hlen
  have htasks : s.nodes.map NodeData.tasks = List.replicate cfg.numaNodeCount [] := by
    refine List.ext_getElem (by simp [hwired.nodes]) fun m hm _ => ?_
    rw [List.length_map] at hm
    have hempty := hswept.tasks p n hc m (by omega)
    rw [State.node, List.getElem?_eq_getElem hm] at hempty
    rw [List.getElem_map, List.getElem_replicate]
    exact hempty
  simp only [State.slate, State.goto, pool, List.map_replicate, hnil, htasks, hstopped,
    hswept.count p n hc, hswept.monitoring (by rw [hc]; rfl)]
  exact congrArg (fun k => Slate.mk [] k _ _ 0 false false) hlen.symm

/-! ## What `Start` puts in -/

/-- How many workers `Start` has added to node `m` where it stands. -/
def Control.placed (cfg : Config) : Control → Nat → Nat
  | .start (.spawn n i), m | .start (.push n i), m =>
      if m < n then cfg.minThreadsPerNode else if m = n then i else 0
  | .start .monitoring, _ | .start .monitor, _ => cfg.minThreadsPerNode
  | _, _ => 0

/-- Until `Start` has returned nobody else adds to the nodes; `base` is what
they had before. -/
structure Opening (cfg : Config) (base : Nat → Nat) (s : State) : Prop where
  spawn : ∀ n i, s.control = .start (.spawn n i) → i ≤ cfg.minThreadsPerNode
  push : ∀ n i, s.control = .start (.push n i) → i < cfg.minThreadsPerNode
  counts : s.control.unmonitoring = false →
    s.sh.running = false ∨ s.control.unmonitored = true →
    ∀ m < cfg.numaNodeCount, (s.node m).threadCount = base m + s.control.placed cfg m

theorem Hop.placed {cfg : Config} {s : State} {c c' : Control} (h : Hop cfg s c c')
    (hrun : ∀ b, c.runningIs = some b → s.sh.running = b)
    (hspawn : ∀ n i, c = .start (.spawn n i) → i ≤ cfg.minThreadsPerNode)
    (hc : c.unmonitoring = false) (hor : s.sh.running = false ∨ c'.unmonitored = true) :
    (s.sh.running = false ∨ c.unmonitored = true) ∧
      ∀ m < cfg.numaNodeCount, c'.placed cfg m = c.placed cfg m := by
  cases h with
  | alreadyRunning hrunning | mayStop hrunning =>
      rcases hor with hor | hor
      · rw [hrunning] at hor
        cases hor
      · cases hor
  | spawnFails =>
      rcases hor with hor | hor
      · rw [hrun true rfl] at hor
        cases hor
      · cases hor
  | mayStart hrunning | notRunning hrunning => exact ⟨Or.inl hrunning, fun _ _ => rfl⟩
  | @nodeDone n i hn hi =>
      refine ⟨Or.inr rfl, fun m _ => ?_⟩
      have hle := hspawn n i rfl
      simp only [Control.placed]
      split_ifs <;> omega
  | nodesDone hn =>
      refine ⟨Or.inr rfl, fun m hm => ?_⟩
      simp only [Control.placed]
      rw [if_pos (by omega)]
  | _ => cases hc

theorem Hop.not_spawn {cfg : Config} {s : State} {c c' : Control} (h : Hop cfg s c c')
    (n i : Nat) (hc : c' = .start (.spawn n i)) : i = 0 := by
  cases h <;> cases hc
  rfl

theorem node_threadCount_set {s s' : State} {n : Nat} {nd nd' : NodeData}
    (hnd : s.nodes[n]? = some nd) (hnodes : s'.nodes = s.nodes.set n nd')
    (hsame : nd'.threadCount = nd.threadCount) (m : Nat) :
    (s'.node m).threadCount = (s.node m).threadCount := by
  rw [node_set hnd hnodes m]
  split
  · next hm => rw [hsame, ← hm, node_eq hnd]
  · rfl

theorem pushWorker_node {s : State} {n m : Nat} (hm : m < s.nodes.length) :
    ((pushWorker s n).node m).threadCount =
      (s.node m).threadCount + if m = n then 1 else 0 := by
  rw [State.node, State.node, pushWorker, List.getElem?_modify, List.getElem?_eq_getElem hm]
  by_cases hn : n = m
  · simp [hn]
  · simp [hn, Ne.symm hn]

theorem Move.opening {cfg : Config} {base : Nat → Nat} {s s' : State} {a : Action}
    (hwired : Wired cfg s) (hok : s.control.unmonitoring = false)
    (hs : Opening cfg base s) (h : Move cfg s a s') : Opening cfg base s' := by
  refine ⟨fun n i hc' => ?_, fun n i hc' => ?_, fun hno hor m hm => ?_⟩
  · cases h with
    | hop hhop => rw [hhop.not_spawn n i hc']; exact Nat.zero_le _
    | storeRunning =>
        cases hc'
        exact Nat.zero_le _
    | pushesSlot hc =>
        cases hc'
        exact hs.push _ _ hc
    | joined hold => rcases hold with ⟨-, rfl⟩ | ⟨-, rfl⟩ <;> cases hc'
    | _ => first | exact hs.spawn n i hc' | cases hc'
  · cases h with
    | hop hhop => exact absurd hc' (hhop.not_push n i)
    | spawns _ _ hi =>
        cases hc'
        exact hi
    | joined hold => rcases hold with ⟨-, rfl⟩ | ⟨-, rfl⟩ <;> cases hc'
    | _ => first | exact hs.push n i hc' | cases hc'
  · have hcounts := hs.counts hok
    cases h with
    | pushes _ _ hnd =>
        exact (node_threadCount_set hnd rfl (by rfl) m).trans (hcounts hor m hm)
    | loops _ hnd hstep =>
        have hor : s.sh.running = false ∨ s.control.unmonitored = true := by
          rw [← hstep.running_eq]
          exact hor
        exact (node_threadCount_set hnd rfl hstep.threadCount_eq m).trans (hcounts hor m hm)
    | hop hhop =>
        obtain ⟨hor₀, hplaced⟩ := hhop.placed hwired.runFlag hs.spawn hok hor
        exact (hcounts hor₀ m hm).trans (by rw [← hplaced m hm]; rfl)
    | callsStart hc | callsStop _ hc =>
        have hstopped : s.sh.running = false := hor.resolve_right Bool.false_ne_true
        have hsame := hcounts (Or.inl hstopped) m hm
        rw [hc] at hsame
        exact hsame
    | storeRunning hc =>
        have hsame := hcounts (Or.inl (hwired.running_at hc rfl)) m hm
        rw [hc] at hsame
        refine hsame.trans ?_
        simp only [Control.placed]
        split_ifs <;> omega
    | spawns hc | storeMonitoring hc =>
        have hsame := hcounts (Or.inr (by rw [hc]; rfl)) m hm
        rw [hc] at hsame
        exact hsame
    | @pushesSlot _ _ n i hc =>
        have hsame := hcounts (Or.inr (by rw [hc]; rfl)) m hm
        have hlt := hs.push n i hc
        rw [hc] at hsame
        have hadd := pushWorker_node (s := s) (n := n) (by rw [hwired.nodes]; exact hm)
        refine hadd.trans ?_
        simp only [Control.placed, State.goto] at hsame ⊢
        split_ifs at hsame ⊢ <;> omega
    | startUnmonitored _ hc | starts hc =>
        rcases hor with hor | hor
        · rw [hwired.running_at hc rfl] at hor
          cases hor
        · cases hor
    | clearMonitoring => cases hno
    | joinsMonitor hc | clearRunning hc | notifiesAll hc | setsExit hc | cleared hc
    | resetCount hc | clearTasks hc =>
        rw [hc] at hok
        cases hok
    | joined hold => rcases hold with ⟨hc, -⟩ | ⟨hc, -⟩ <;> rw [hc] at hok <;> cases hok
    | expandPushes hm' hpc =>
        obtain ⟨hrun, hmonitored⟩ := hwired.of_monitor hm' (by rw [hpc]; simp)
        rcases hor with hor | hor
        · exact absurd (hrun.symm.trans hor) (by simp)
        · exact absurd (hmonitored.symm.trans hor) Bool.false_ne_true
    | _ => exact hcounts hor m hm

theorem Move.threadCount_le {cfg : Config} {s s' : State} {a : Action}
    (h : Move cfg s a s') (hwired : Wired cfg s) {m : Nat} (hm : m < cfg.numaNodeCount) :
    (s.node m).threadCount ≤ (s'.node m).threadCount := by
  have hpush : ∀ n, (s.node m).threadCount ≤ ((pushWorker s n).node m).threadCount :=
    fun n => by
      rw [pushWorker_node (by rw [hwired.nodes]; exact hm)]
      exact Nat.le_add_right _ _
  cases h with
  | pushes _ _ hnd | clearTasks _ hnd =>
      exact (node_threadCount_set hnd rfl (by rfl) m).ge
  | loops _ hnd hstep => exact (node_threadCount_set hnd rfl hstep.threadCount_eq m).ge
  | pushesSlot | expandPushes => exact hpush _
  | _ => exact Nat.le_refl _

theorem Move.start_returns {cfg : Config} {s s' : State} {a : Action}
    (h : Move cfg s a s') (hc : s.control = .start .monitor)
    (hret : s'.control = .idle .returned) :
    s'.node = s.node := by
  cases h with
  | starts => rfl
  | hop hhop =>
      rw [hc] at hhop
      cases hhop
  | callsStart hc' | callsStop _ hc' =>
      rw [hc'] at hc
      cases hc
  | joined hold => rcases hold with ⟨-, rfl⟩ | ⟨-, rfl⟩ <;> cases hret
  | _ =>
      first
        | cases hret
        | (have hsame := hc.symm.trans hret; cases hsame)

/-! ## Nothing to count -/

/-- A pool whose minimum is zero never has a worker on any node: `Start` makes
none, and twice none is none. -/
structure Barren (s : State) : Prop where
  counts : ∀ nd ∈ s.nodes, nd.threadCount = 0
  push : ∀ n i, s.control ≠ .start (.push n i)
  expand : ∀ m n need k, s.monitorThread = some m →
    m.pc ≠ .expandStart n need k ∧ m.pc ≠ .expandPush n need k

theorem expandNeed_zero (cfg : Config) : expandNeed cfg 0 = none := by
  unfold expandNeed
  split_ifs <;> first | rfl | omega

theorem MonitorHop.barren {cfg : Config} {s : State} {pc pc' : MonitorPc}
    (h : MonitorHop cfg s pc pc') (hs : ∀ nd ∈ s.nodes, nd.threadCount = 0)
    (n need k : Nat) :
    pc' ≠ .expandStart n need k ∧ pc' ≠ .expandPush n need k := by
  cases h with
  | expand hnd hneed =>
      rw [hs _ (List.mem_of_getElem? hnd), expandNeed_zero] at hneed
      cases hneed
  | _ => exact ⟨fun h => (by cases h), fun h => by cases h⟩

theorem Move.barren {cfg : Config} {s s' : State} {a : Action}
    (hmin : cfg.minThreadsPerNode = 0) (hs : Barren s) (h : Move cfg s a s') :
    Barren s' := by
  have hset : ∀ (i : Nat) nd nd', s.nodes[i]? = some nd → nd'.threadCount = nd.threadCount →
      ∀ nd ∈ s.nodes.set i nd', nd.threadCount = 0 := fun i nd nd' hnd hsame =>
    forall_mem_set hs.counts (hsame.trans (hs.counts nd (List.mem_of_getElem? hnd)))
  refine ⟨?_, fun n i hc' => ?_, fun m n need k hm' => ?_⟩
  · cases h with
    | pushes _ _ hnd | clearTasks _ hnd => exact hset _ _ _ hnd rfl
    | loops _ hnd hstep => exact hset _ _ _ hnd hstep.threadCount_eq
    | pushesSlot hc => exact absurd hc (hs.push _ _)
    | expandPushes hm hpc => exact absurd hpc (hs.expand _ _ _ _ hm).2
    | _ => exact hs.counts
  · cases h with
    | hop hhop => exact hhop.not_push n i hc'
    | spawns _ _ hi => omega
    | joined hold => rcases hold with ⟨-, rfl⟩ | ⟨-, rfl⟩ <;> cases hc'
    | _ => first | exact hs.push n i hc' | cases hc'
  · cases h with
    | monitorHop hm hhop =>
        obtain rfl := Option.some.inj hm'
        exact hhop.barren hs.counts n need k
    | expandSpawns hm hpc => exact absurd hpc (hs.expand _ _ _ _ hm).1
    | expandPushes hm hpc => exact absurd hpc (hs.expand _ _ _ _ hm).2
    | startUnmonitored | starts | marks | shrinkNotifies | monitorEnds =>
        obtain rfl := Option.some.inj hm'
        exact ⟨fun h => (by cases h), fun h => by cases h⟩
    | joinsMonitor => cases hm'
    | _ => exact hs.expand m n need k hm'

theorem barren_of_reachable {cfg : Config} {s : State} (hr : (pool cfg).Reachable s)
    (hmin : cfg.minThreadsPerNode = 0) : Barren s :=
  hr.invariant
    ⟨fun nd hnd => by rw [List.eq_of_mem_replicate hnd], fun _ _ h => (by cases h),
      fun _ _ _ _ h => by cases h⟩
    fun _ _ _ hr hs hstep => (move_of_step hr hstep).barren hmin hs

/-! ## Cycles -/

/-- The steps on the way to the end of a `Start`: no `Stop` in them has
passed its test and taken a flag down. -/
def Opens (s : State) (a : Action) : Prop := InTime s a ∧ s.control.unmonitoring = false

/-- The steps from there to the end of a `Stop`: no `Start` in them has passed
its test. -/
def Closes (s : State) (a : Action) : Prop := InTime s a ∧ s.control ≠ .start .store

instance (s : State) (a : Action) : Decidable (Opens s a) :=
  inferInstanceAs (Decidable (_ ∧ _))

instance (s : State) (a : Action) : Decidable (Closes s a) :=
  inferInstanceAs (Decidable (_ ∧ _))

/-- `Start` returns, from `s`. -/
def StartReturns (cfg : Config) (s s' : State) : Prop :=
  s.control = .start .monitor ∧ (pool cfg).StepWhen InTime s s' ∧ s'.control = .idle .returned

/-- `Stop` returns. -/
def StopReturns (cfg : Config) (s s' : State) : Prop :=
  (∃ p pc, s.control = .stop p pc) ∧ (pool cfg).StepWhen InTime s s' ∧
    s'.control = .idle .returned

/-- A pool that has been through `n` complete cycles. -/
inductive Cycled (cfg : Config) : Nat → State → Prop where
  | constructed : Cycled cfg 0 (pool cfg).init
  | cycle {n : Nat} {s t t' u u' : State} (hs : Cycled cfg n s)
      (hopens : (pool cfg).LeadsWhen Opens s t) (hstart : StartReturns cfg t t')
      (hcloses : (pool cfg).LeadsWhen Closes t' u) (hstop : StopReturns cfg u u') :
      Cycled cfg (n + 1) u'

theorem started_of_opens {cfg : Config} {s t t' : State}
    (hr : (pool cfg).ReachableWhen InTime s) (hopens : (pool cfg).LeadsWhen Opens s t)
    (hstart : StartReturns cfg t t') : (pool cfg).ReachableWhen InTime t' :=
  (hr.trans (hopens.mono fun _ _ hok => hok.1)).tail hstart.2.1

theorem Cycled.reachableWhen {cfg : Config} {n : Nat} {s : State} (hs : Cycled cfg n s) :
    (pool cfg).ReachableWhen InTime s := by
  induction hs with
  | constructed => exact .refl
  | cycle _ hopens hstart hcloses hstop ih =>
      have hu :=
        (started_of_opens ih hopens hstart).trans (hcloses.mono fun _ _ hok => hok.1)
      exact hu.tail hstop.2.1

/-- Between two cycles every member is as constructed but for the counts of
the nodes. -/
theorem Cycled.slate {cfg : Config} {n : Nat} {s : State} (hs : Cycled cfg n s) :
    s.control = .idle .returned ∧ s.slate = { (pool cfg).init.slate with
      threadCounts := s.nodes.map NodeData.threadCount } := by
  cases hs with
  | constructed => exact ⟨rfl, rfl⟩
  | cycle hs hopens hstart hcloses hstop =>
      have hu := (started_of_opens hs.reachableWhen hopens hstart).trans
        (hcloses.mono fun _ _ hok => hok.1)
      obtain ⟨⟨p, pc, hc⟩, ⟨a, -, hstep⟩, hret⟩ := hstop
      exact ⟨hret, slate_of_stop hu hc hstep hret⟩

/-- The first `Start` behind a cycle adds the minimum to every node. -/
theorem Cycled.start {cfg : Config} {n : Nat} {s t t' : State} (hs : Cycled cfg n s)
    (hopens : (pool cfg).LeadsWhen Opens s t) (hstart : StartReturns cfg t t') {m : Nat}
    (hm : m < cfg.numaNodeCount) :
    (t'.node m).threadCount = (s.node m).threadCount + cfg.minThreadsPerNode := by
  have hr := hs.reachableWhen.reachable
  have hidle := hs.slate.1
  have hbefore : Opening cfg (fun m => (s.node m).threadCount) s :=
    ⟨fun n i hc => (by rw [hidle] at hc; cases hc),
      fun n i hc => (by rw [hidle] at hc; cases hc),
      fun _ _ m _ => by rw [hidle]; rfl⟩
  have hopening := hopens.stable hr hbefore fun _ _ _ hr hs hok hstep =>
    (move_of_step hr hstep).opening (wired_of_reachable hr) hok.2 hs
  have ht : (pool cfg).Reachable t := hr.trans (hopens.mono fun _ _ _ => trivial)
  obtain ⟨hc, ⟨a, -, hstep⟩, hret⟩ := hstart
  have hcount := hopening.counts (by rw [hc]; rfl) (Or.inr (by rw [hc]; rfl)) m hm
  rw [hc] at hcount
  rw [(move_of_step ht hstep).start_returns hc hret]
  exact hcount

theorem threadCount_le_of_leads {cfg : Config} {ok : State → Action → Prop}
    {s s' : State} (hr : (pool cfg).Reachable s) (hleads : (pool cfg).LeadsWhen ok s s')
    {m : Nat} (hm : m < cfg.numaNodeCount) :
    (s.node m).threadCount ≤ (s'.node m).threadCount :=
  hleads.stable (P := fun t => (s.node m).threadCount ≤ (t.node m).threadCount) hr
    (Nat.le_refl _) fun _ _ _ hr hs _ hstep =>
      hs.trans ((move_of_step hr hstep).threadCount_le (wired_of_reachable hr) hm)

/-- Behind a cycle every node still has its minimum: `Stop` leaves the counts. -/
theorem Cycled.min_le {cfg : Config} {n : Nat} {s : State} (hs : Cycled cfg (n + 1) s)
    {m : Nat} (hm : m < cfg.numaNodeCount) :
    cfg.minThreadsPerNode ≤ (s.node m).threadCount := by
  cases hs with
  | cycle hs hopens hstart hcloses hstop =>
      have ht' := started_of_opens hs.reachableWhen hopens hstart
      have hcloses : (pool cfg).LeadsWhen InTime _ _ :=
        hcloses.mono fun _ _ hok => hok.1
      have hle := threadCount_le_of_leads ht'.reachable (hcloses.tail hstop.2.1) hm
      rw [hs.start hopens hstart hm] at hle
      omega

theorem forall_nodes_iff {cfg : Config} {s : State} (hwired : Wired cfg s) (k : Nat) :
    (∀ nd ∈ s.nodes, nd.threadCount = k) ↔
      ∀ m < cfg.numaNodeCount, (s.node m).threadCount = k := by
  rw [← hwired.nodes]
  constructor
  · intro hall m hm
    rw [State.node, List.getElem?_eq_getElem hm]
    exact hall _ (List.getElem_mem hm)
  · intro hall nd hnd
    obtain ⟨m, hm⟩ := List.mem_iff_getElem?.mp hnd
    rw [← node_eq hm]
    exact hall m (List.getElem?_eq_some_iff.mp hm).1

/-- The nodes have nothing on them only if there has been nothing to count. -/
theorem Cycled.empty_iff {cfg : Config} {n : Nat} {s : State} (hs : Cycled cfg n s) :
    (∀ m < cfg.numaNodeCount, (s.node m).threadCount = 0) ↔
      n = 0 ∨ cfg.minThreadsPerNode = 0 ∨ cfg.numaNodeCount = 0 := by
  constructor
  · intro hall
    cases n with
    | zero => exact Or.inl rfl
    | succ n =>
        rcases Nat.eq_zero_or_pos cfg.numaNodeCount with hnone | hsome
        · exact Or.inr (Or.inr hnone)
        · have hle := hs.min_le hsome
          rw [hall 0 hsome] at hle
          exact Or.inr (Or.inl (Nat.le_zero.mp hle))
  · rintro (rfl | hmin | hnone) m hm
    · cases hs
      rw [node_init]
    · have hr := hs.reachableWhen.reachable
      exact (forall_nodes_iff (wired_of_reachable hr) 0).mp
        (barren_of_reachable hr hmin).counts
        m hm
    · rw [hnone] at hm
      cases hm

theorem Cycled.slate_eq_iff {cfg : Config} {n : Nat} {s : State} (hs : Cycled cfg n s) :
    s.slate = (pool cfg).init.slate ↔
      ∀ m < cfg.numaNodeCount, (s.node m).threadCount = 0 := by
  have hwired := wired_of_reachable hs.reachableWhen.reachable
  rw [← forall_nodes_iff hwired, hs.slate.2]
  have hinit : (pool cfg).init.slate.threadCounts = List.replicate cfg.numaNodeCount 0 := by
    simp [State.slate, pool]
  constructor
  · intro heq
    have hcounts := (congrArg Slate.threadCounts heq).trans hinit
    exact fun nd hnd => (List.eq_replicate_iff.mp hcounts).2 _ (List.mem_map_of_mem hnd)
  · intro hall
    have hcounts : s.nodes.map NodeData.threadCount = (pool cfg).init.slate.threadCounts := by
      rw [hinit, List.eq_replicate_iff, List.length_map]
      refine ⟨hwired.nodes, fun k hk => ?_⟩
      obtain ⟨nd, hnd, rfl⟩ := List.mem_map.mp hk
      exact hall nd hnd
    rw [hcounts]

/-- After `n` complete cycles every member that is decided by is as
constructed, but for the counts of the nodes: these are, and the next `Start`
leaves each node with its minimum, exactly where there has been no cycle, or
a cycle has no worker to make. -/
theorem restart_clean {cfg : Config} (n : Nat) {s : State} (hs : Cycled cfg n s) :
    s.slate = { (pool cfg).init.slate with
      threadCounts := s.nodes.map NodeData.threadCount } ∧
    (s.slate = (pool cfg).init.slate ↔
      n = 0 ∨ cfg.minThreadsPerNode = 0 ∨ cfg.numaNodeCount = 0) ∧
    ∀ t t', (pool cfg).LeadsWhen Opens s t → StartReturns cfg t t' →
      ((∀ nd ∈ t'.nodes, nd.threadCount = cfg.minThreadsPerNode) ↔
        n = 0 ∨ cfg.minThreadsPerNode = 0 ∨ cfg.numaNodeCount = 0) := by
  refine ⟨hs.slate.2, hs.slate_eq_iff.trans hs.empty_iff, fun t t' hopens hstart => ?_⟩
  have ht' := started_of_opens hs.reachableWhen hopens hstart
  have hwired := wired_of_reachable ht'.reachable
  rw [forall_nodes_iff hwired, ← hs.empty_iff]
  refine forall_congr' fun m => forall_congr' fun hm => ?_
  rw [hs.start hopens hstart hm]
  omega

/-- A cycle written down: `Start` up to its last step, and from its return an
immediate `Stop` up to its last step. -/
theorem exists_cycled (cfg : Config) (opens closes : List Action) (P : State → Prop)
    [DecidablePred P]
    (h : ((pool cfg).runWhen Opens (pool cfg).init opens).any (fun t =>
      t.control = .start .monitor ∧
        ((pool cfg).step t (.control { avail := 1 } false)).any (fun t' =>
          t'.control = .idle .returned ∧ ((pool cfg).runWhen Closes t' closes).any (fun u =>
            u.control = .stop .immediate (.tasks cfg.numaNodeCount) ∧
              ((pool cfg).step u (.control {} false)).any (fun u' =>
                u'.control = .idle .returned ∧ P u')))) = true) :
    ∃ s, Cycled cfg 1 s ∧ P s := by
  obtain ⟨t, hopens, ht⟩ := (Option.any_eq_true _ _).mp h
  obtain ⟨htc, ht⟩ := of_decide_eq_true ht
  obtain ⟨t', hstart, ht'⟩ := (Option.any_eq_true _ _).mp ht
  obtain ⟨htc', ht'⟩ := of_decide_eq_true ht'
  obtain ⟨u, hcloses, hu⟩ := (Option.any_eq_true _ _).mp ht'
  obtain ⟨huc, hu⟩ := of_decide_eq_true hu
  obtain ⟨u', hstop, hu'⟩ := (Option.any_eq_true _ _).mp hu
  obtain ⟨huc', hp⟩ := of_decide_eq_true hu'
  exact ⟨u', .cycle .constructed (reflTransGen_of_runWhen hopens)
    ⟨htc, ⟨_, fun _ => rfl, hstart⟩, htc'⟩ (reflTransGen_of_runWhen hcloses)
    ⟨⟨_, _, huc⟩, ⟨_, fun _ => rfl, hstop⟩, huc'⟩, hp⟩

/-- One worker, which waits for a task until the pool is stopped. -/
theorem cycle_leaves_count :
    ¬∀ (cfg : Config) (n : Nat) (s : State), Cycled cfg n s →
      s.slate = (pool cfg).init.slate := by
  intro hall
  obtain ⟨s, hs, hbad⟩ := exists_cycled (.ofHardware 1 1) (.start :: controls 7)
    (entering 0 ++ works 0 8 ++ stopping .immediate ++ controls 2 ++ works 0 7 ++ controls 10)
    (fun s => s.slate ≠ (pool (.ofHardware 1 1)).init.slate) (by decide +kernel)
  exact hbad (hall _ 1 s hs)

/-- The same cycle, and a second `Start`: its node comes to two. -/
theorem restart_clean_run : ∃ s t' : State,
    s.slate.threadCounts = [1] ∧ s.slate.workers = [] ∧
    t'.slate.threadCounts = [2] ∧
      ¬(∀ nd ∈ t'.nodes, nd.threadCount = (Config.ofHardware 1 1).minThreadsPerNode) := by
  obtain ⟨s, hs, hcounts, hrestart⟩ :=
    exists_cycled (.ofHardware 1 1) (.start :: controls 7)
      (entering 0 ++ works 0 8 ++ stopping .immediate ++ controls 2 ++ works 0 7 ++ controls 10)
      (fun s => s.slate.threadCounts = [1] ∧
        ((pool (.ofHardware 1 1)).runWhen Opens s (.start :: controls 7)).any (fun t =>
          t.control = .start .monitor ∧
            ((pool (.ofHardware 1 1)).step t (.control { avail := 1 } false)).any (fun t' =>
              t'.control = .idle .returned ∧ t'.slate.threadCounts = [2])) = true)
      (by decide +kernel)
  obtain ⟨t, hopens, ht⟩ := (Option.any_eq_true _ _).mp hrestart
  obtain ⟨htc, ht⟩ := of_decide_eq_true ht
  obtain ⟨t', hstart, ht'⟩ := (Option.any_eq_true _ _).mp ht
  obtain ⟨htc', htwo⟩ := of_decide_eq_true ht'
  obtain ⟨hslate, -, hnext⟩ := restart_clean 1 hs
  refine ⟨s, t', hcounts, by rw [hslate]; rfl, htwo, fun hmin => ?_⟩
  have hnone := (hnext t t' (reflTransGen_of_runWhen hopens)
    ⟨htc, ⟨_, fun _ => rfl, hstart⟩, htc'⟩).mp hmin
  exact absurd hnone (by decide)

end ThreadPool.Numa
