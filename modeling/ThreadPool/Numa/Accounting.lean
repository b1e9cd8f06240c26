import ThreadPool.Numa.Conservation
import ThreadPool.Numa.Headcount

/-!
# The two counts of workers

`valid_thread_count_` is kept by the workers, at the ends of their loop; the
`thread_count` of a node is kept by whoever creates, and only ever goes up.
So while every worker that was created is in its loop the two agree, and as
soon as one has returned from `WorkerLoop`, for whatever reason, the second
is too large for good: a worker that came too early for its slot, one that
could not be bound, one that a shrink pass or `Stop` has sent home.
-/

namespace ThreadPool.Numa

open Interleave Machine

/-! ## What is reported -/

def workerCount (s : State) : Nat := s.sh.validThreadCount

def workerCountOnNumaNode (cfg : Config) (s : State) (nodeNum : Int) : Except Exn Nat :=
  if nodeNum < 0 ∨ nodeNum ≥ cfg.numaNodeCount then
    .error (.outOfRange "Invalid NUMA node index")
  else .ok (s.node nodeNum.toNat).threadCount

/-- The sum over all nodes of their `thread_count`. -/
def State.threadCount (s : State) : Nat := (s.nodes.map NodeData.threadCount).sum

/-- What a caller finds who asks for every node in turn and then for the
pool. -/
def CountsAgree (cfg : Config) (s : State) : Prop :=
  ((List.range cfg.numaNodeCount).mapM fun n : Nat =>
    workerCountOnNumaNode cfg s n).toOption.map List.sum = some (workerCount s)

instance (cfg : Config) (s : State) : Decidable (CountsAgree cfg s) :=
  inferInstanceAs (Decidable (_ = _))

theorem workerCountOnNumaNode_eq {cfg : Config} (s : State) {n : Nat}
    (hn : n < cfg.numaNodeCount) :
    workerCountOnNumaNode cfg s n = .ok (s.node n).threadCount := by
  have hrange : ¬((n : Int) < 0 ∨ (n : Int) ≥ cfg.numaNodeCount) := by omega
  rw [workerCountOnNumaNode, if_neg hrange, Int.toNat_natCast]

/-- Every node answers, and these are the counts summed up. -/
theorem countsAgree_iff {cfg : Config} {s : State} (hs : Wired cfg s) :
    CountsAgree cfg s ↔ s.threadCount = s.sh.validThreadCount := by
  have hall : ∀ ns : List Nat, (∀ n ∈ ns, n < cfg.numaNodeCount) →
      (ns.mapM fun n : Nat => workerCountOnNumaNode cfg s n) =
        .ok (ns.map fun n => (s.node n).threadCount) := fun ns hns => by
    induction ns with
    | nil => rfl
    | cons n ns ih =>
        rw [List.mapM_cons, workerCountOnNumaNode_eq s (hns n List.mem_cons_self),
          ih fun m hm => hns m (List.mem_cons_of_mem _ hm)]
        rfl
  have hnodes : (List.range cfg.numaNodeCount).map (fun n => (s.node n).threadCount) =
      s.nodes.map NodeData.threadCount := by
    rw [← hs.nodes]
    refine List.ext_getElem (by simp) fun n hn _ => ?_
    rw [List.length_map, List.length_range] at hn
    simp [State.node, hn]
  rw [CountsAgree, hall _ fun n hn => List.mem_range.mp hn, hnodes]
  exact ⟨Option.some.inj, congrArg some⟩

theorem threadCount_set {s t : State} {n : Nat} {nd nd' : NodeData}
    (hnd : s.nodes[n]? = some nd) (hnodes : t.nodes = s.nodes.set n nd') :
    t.threadCount + nd.threadCount = s.threadCount + nd'.threadCount := by
  rw [State.threadCount, State.threadCount, hnodes]
  exact sum_map_set_add hnd

theorem threadCount_set_same {s t : State} {n : Nat} {nd nd' : NodeData}
    (hnd : s.nodes[n]? = some nd) (hnodes : t.nodes = s.nodes.set n nd')
    (hsame : nd'.threadCount = nd.threadCount) : t.threadCount = s.threadCount := by
  have hset := threadCount_set hnd hnodes
  omega

theorem threadCount_pushWorker {s : State} {n : Nat} (hn : n < s.nodes.length) :
    (pushWorker s n).threadCount = s.threadCount + 1 := by
  have hnd := List.getElem?_eq_getElem hn
  have hset := threadCount_set (t := pushWorker s n) hnd
    (by rw [pushWorker, modify_eq_set_of_getElem? hnd])
  simp only at hset
  omega

/-! ## Where a thread stands -/

/-- In the loop, from the first test of its condition to the last. -/
def WorkerPc.inLoop : WorkerPc → Bool
  | .testExit | .testRunning | .setIdle | .setIdleTime | .wait | .window | .blocked _
  | .retestExit | .retestRunning | .clearIdle | .pop | .holding _ | .running _ => true
  | _ => false

/-- After `fetch_add` and before `fetch_sub`. -/
def WorkerPc.counted : WorkerPc → Bool
  | .clearValid | .exitIdle | .fetchSub => true
  | pc => pc.inLoop

/-- Out of `WorkerLoop`. -/
def WorkerPc.returned : WorkerPc → Bool
  | .entry _ | .ended _ => true
  | _ => false

def Worker.counted (w : Worker) : Bool := w.native.pc.counted

/-- Created, and not back from `WorkerLoop`. -/
def Worker.live (w : Worker) : Bool := !w.native.pc.returned

theorem Worker.counted_woken {n : Nat} {w : Worker} (hasleep : w.asleepOn n = true) :
    (w.goto (.blocked true)).counted = w.counted := by
  unfold Worker.counted
  rw [(Worker.blocked_of_asleepOn hasleep).2]
  rfl

theorem Worker.live_woken {n : Nat} {w : Worker} (hasleep : w.asleepOn n = true) :
    (w.goto (.blocked true)).live = w.live := by
  unfold Worker.live
  rw [(Worker.blocked_of_asleepOn hasleep).2]
  rfl

theorem Worker.gone_of_ended {w : Worker} (h : w.native.pc.isEnded = true) :
    w.counted = false ∧ w.live = false := by
  unfold Worker.counted Worker.live
  cases hpc : w.native.pc with
  | ended threw => exact ⟨rfl, rfl⟩
  | _ =>
      rw [hpc] at h
      cases h

theorem WorkerHop.counted {cfg : Config} {s : State} {w w' : Worker}
    (h : WorkerHop cfg s w w') : w'.counted = w.counted := by
  cases h with
  | registers hpc | leaves hpc | noNode hpc | readsNode _ hpc | bindFails hpc | unbound hpc
  | ends _ hpc | spurious hpc =>
      unfold Worker.counted
      rw [hpc]
      rfl

/-! ## `valid_thread_count_` -/

/-- The counter counts the threads between `fetch_add` and `fetch_sub`. -/
def Tallied (s : State) : Prop := s.sh.validThreadCount = s.census Worker.counted

/-- At `fetch_sub` the counter is positive, because the thread itself is
counted. -/
theorem LoopStep.tallied {sh sh' : Shared} {nd nd' : NodeData} {free throws : Bool}
    {agent : Agent} {pc pc' : WorkerPc} {fl fl' : Flags}
    (h : LoopStep sh nd free agent throws pc fl sh' nd' pc' fl')
    (hthrows : throws = false) (hpos : pc.counted = true → 0 < sh.validThreadCount) :
    sh'.validThreadCount + tally WorkerPc.counted pc =
      sh.validThreadCount + tally WorkerPc.counted pc' := by
  cases h with
  | fetchSub =>
      have hsub := fetchSub_of_pos (hpos rfl)
      exact hsub
  | throws t hthrows' =>
      rw [hthrows] at hthrows'
      cases hthrows'
  | passes hpc | sleeps hpc => rcases hpc with rfl | rfl <;> rfl
  | _ => rfl

theorem Move.tallied {cfg : Config} {s s' : State} {a : Action} (hwired : Wired cfg s)
    (hthrows : a.throws = false) (hs : Tallied s) (h : Move cfg s a s') :
    Tallied s' := by
  cases h with
  | notifies _ _ hw hasleep =>
      exact hs.trans (census_put_same hw (Worker.counted_woken hasleep)).symm
  | workerHop _ hw hhop => exact hs.trans (census_put_same hw hhop.counted).symm
  | binds hw hpc =>
      refine hs.trans (census_put_same hw ?_).symm
      unfold Worker.counted
      rw [hpc]
      rfl
  | @loops j throws w sh nd nd' pc fl hw hnd hstep =>
      have hpos : w.native.pc.counted = true → 0 < s.sh.validThreadCount := fun hcounted => by
        rw [hs]
        exact countP_pos_of_getElem? hw hcounted
      have hcount := hstep.tallied hthrows hpos
      have hcensus := countP_set_add (p := Worker.counted)
        (b := { w with flags := fl }.goto pc) hw
      have hbefore : tally WorkerPc.counted w.native.pc = tally Worker.counted w := rfl
      have hafter : tally WorkerPc.counted pc =
          tally Worker.counted ({ w with flags := fl }.goto pc) := rfl
      unfold Tallied State.census at hs ⊢
      simp only [State.put]
      omega
  | spawns | expandSpawns => exact hs.trans (census_spawn rfl).symm
  | notifiesAll | shrinkNotifies =>
      exact hs.trans (countP_notifyAll (fun _ => Worker.counted_woken) s.workers).symm
  | setsExit _ hw | joined _ hw | marks _ _ hw =>
      refine hs.trans (countP_set_same hw ?_).symm
      rfl
  | cleared hc hi =>
      refine hs.trans (List.countP_eq_zero.mpr fun w hw => ?_)
      rw [(Worker.gone_of_ended (hwired.ended_of_clear hc hi w hw)).1]
      exact Bool.false_ne_true
  | resetCount hc =>
      have hnil := hwired.emptied (by rw [hc]; rfl)
      unfold Tallied State.census
      simp [hnil]
  | _ => exact hs

theorem tallied_of_returning {cfg : Config} {s : State}
    (hr : (pool cfg).ReachableWhen Returning s) : Tallied s :=
  hr.invariant rfl fun _ _ _ hr hs hok hstep =>
    (move_of_step hr.reachable hstep).tallied (wired_of_reachable hr.reachable) hok hs

/-! ## `thread_count` -/

/-- Workers are created on nodes that exist. -/
structure Sited (cfg : Config) (s : State) : Prop where
  start : ∀ n i, s.control = .start (.push n i) → n < cfg.numaNodeCount
  expand : ∀ m n need k, s.monitorThread = some m →
    m.pc = .expandStart n need k ∨ m.pc = .expandPush n need k → n < cfg.numaNodeCount

theorem Hop.not_push {cfg : Config} {s : State} {c c' : Control} (h : Hop cfg s c c')
    (n i : Nat) :
    c' ≠ .start (.push n i) := by
  cases h <;> exact fun h => by cases h

theorem MonitorHop.sited {cfg : Config} {s : State} {pc pc' : MonitorPc}
    {n need k : Nat} (h : MonitorHop cfg s pc pc')
    (hpc : pc' = .expandStart n need k ∨ pc' = .expandPush n need k) :
    n < s.nodes.length := by
  cases h with
  | expand hnd =>
      rcases hpc with hpc | hpc
      · cases hpc
        exact (List.getElem?_eq_some_iff.mp hnd).1
      · cases hpc
  | _ => rcases hpc with hpc | hpc <;> cases hpc

theorem Move.sited {cfg : Config} {s s' : State} {a : Action} (hwired : Wired cfg s)
    (hs : Sited cfg s) (h : Move cfg s a s') : Sited cfg s' := by
  constructor
  · intro n i hc'
    cases h with
    | hop hhop => exact absurd hc' (hhop.not_push n i)
    | spawns _ hn =>
        cases hc'
        exact hn
    | joined hc => rcases hc with ⟨-, rfl⟩ | ⟨-, rfl⟩ <;> cases hc'
    | _ => first | exact hs.start n i hc' | cases hc'
  · intro m n need k hm' hpc
    cases h with
    | monitorHop hm hhop =>
        obtain rfl := Option.some.inj hm'
        rw [← hwired.nodes]
        exact hhop.sited hpc
    | expandSpawns hm hpc' =>
        obtain rfl := Option.some.inj hm'
        rcases hpc with hpc | hpc <;> cases hpc
        exact hs.expand _ _ _ _ hm (Or.inl hpc')
    | expandPushes hm hpc' =>
        obtain rfl := Option.some.inj hm'
        rcases hpc with hpc | hpc <;> cases hpc
        exact hs.expand _ _ _ _ hm (Or.inr hpc')
    | startUnmonitored | starts | marks | shrinkNotifies | monitorEnds =>
        obtain rfl := Option.some.inj hm'
        rcases hpc with hpc | hpc <;> cases hpc
    | joinsMonitor => cases hm'
    | _ => exact hs.expand m n need k hm' hpc

theorem sited_of_reachable {cfg : Config} {s : State} (hr : (pool cfg).Reachable s) :
    Sited cfg s :=
  hr.invariant ⟨fun _ _ h => (by cases h), fun _ _ _ _ h => by cases h⟩
    fun _ _ _ hr hs hstep => (move_of_step hr hstep).sited (wired_of_reachable hr) hs

/-- How many workers have ever been created: those counted in `thread_count`,
which nobody takes from, and the one whose creator has yet to push it. -/
def State.created (s : State) : Nat := s.threadCount + (s.workers.length - s.pushed)

/-- A worker returns from `WorkerLoop` in the step, or leaves it by an
exception. -/
def State.returning (cfg : Config) (s : State) : Action → Bool
  | .worker j throws => s.workers[j]?.any fun w =>
      match w.native.pc with
      | .registration => s.pushed ≤ w.native.index
      | .readNode => w.numaNode < 0 || w.numaNode ≥ cfg.numaNodeCount
      | .unbound | .fetchSub => true
      | .running _ => throws
      | _ => false
  | _ => false

/-- No worker returns from `WorkerLoop`, in whichever way. -/
def Stays (cfg : Config) (s : State) (a : Action) : Prop := s.returning cfg a = false

instance (cfg : Config) (s : State) (a : Action) : Decidable (Stays cfg s a) :=
  inferInstanceAs (Decidable (_ = _))

/-- What a move does to the numbers of live and of created workers. -/
inductive Roll (cfg : Config) (s : State) (a : Action) (s' : State) : Prop where
  | same (hlive : s'.census Worker.live = s.census Worker.live)
      (hcreated : s'.created = s.created)
  | creates (hlive : s'.census Worker.live = s.census Worker.live + 1)
      (hcreated : s'.created = s.created + 1)
  | returns (hreturns : s.returning cfg a = true)
      (hlive : s.census Worker.live = s'.census Worker.live + 1)
      (hcreated : s'.created = s.created)

theorem created_frame {s s' : State} (hcount : s'.threadCount = s.threadCount)
    (hlen : s'.workers.length = s.workers.length) (hpushed : s'.pushed = s.pushed) :
    s'.created = s.created := by
  rw [State.created, State.created, hcount, hlen, hpushed]

theorem Roll.put {cfg : Config} {s s' : State} {a : Action} {j : Nat} {w w' : Worker}
    (hw : s.workers[j]? = some w) (hworkers : s'.workers = s.workers.set j w')
    (hlive : w'.live = w.live) (hcount : s'.threadCount = s.threadCount)
    (hpushed : s'.pushed = s.pushed) : Roll cfg s a s' := by
  refine .same ?_ (created_frame hcount (by rw [hworkers, List.length_set]) hpushed)
  rw [State.census, State.census, hworkers, countP_set_same hw hlive]

theorem Roll.out {cfg : Config} {s s' : State} {a : Action} {j : Nat} {w w' : Worker}
    (hw : s.workers[j]? = some w) (hworkers : s'.workers = s.workers.set j w')
    (hold : w.live = true) (hnew : w'.live = false)
    (hcount : s'.threadCount = s.threadCount) (hpushed : s'.pushed = s.pushed)
    (hreturns : s.returning cfg a = true) :
    Roll cfg s a s' := by
  refine .returns hreturns ?_
    (created_frame hcount (by rw [hworkers, List.length_set]) hpushed)
  rw [State.census, State.census, hworkers]
  exact countP_set_lose hw w' hold hnew

theorem Roll.spawn {cfg : Config} {s s' : State} {a : Action} {n : Nat}
    (hwired : Wired cfg s) (hworkers : s'.workers = (s.spawn n).workers)
    (hcount : s'.threadCount = s.threadCount) (hpushed : s'.pushed = s.pushed) :
    Roll cfg s a s' := by
  have hlen := hwired.pushed
  refine .creates ?_ ?_
  · rw [State.census, State.census, hworkers, State.spawn, List.countP_append,
      List.countP_singleton]
    rfl
  · rw [State.created, State.created, hcount, hpushed, hworkers, State.spawn,
      List.length_append, List.length_singleton]
    omega

theorem Roll.push {cfg : Config} {s s' : State} {a : Action} {n : Nat}
    (hwired : Wired cfg s) (hpending : s.pending = true) (hn : n < cfg.numaNodeCount)
    (hworkers : s'.workers = s.workers) (hnodes : s'.nodes = (pushWorker s n).nodes)
    (hpushed : s'.pushed = s.pushed + 1) :
    Roll cfg s a s' := by
  have hlen := hwired.pushed
  rw [hpending, if_pos rfl] at hlen
  have hcount : s'.threadCount = s.threadCount + 1 := by
    rw [← threadCount_pushWorker (s := s) (n := n) (by rw [hwired.nodes]; exact hn)]
    rw [State.threadCount, State.threadCount, hnodes]
  refine .same (by rw [State.census, State.census, hworkers]) ?_
  rw [State.created, State.created, hcount, hpushed, hworkers]
  omega

theorem LoopStep.threadCount_eq {sh sh' : Shared} {nd nd' : NodeData}
    {free throws : Bool} {agent : Agent} {pc pc' : WorkerPc} {fl fl' : Flags}
    (h : LoopStep sh nd free agent throws pc fl sh' nd' pc' fl') :
    nd'.threadCount = nd.threadCount := by
  cases h <;> rfl

theorem LoopStep.returned {sh sh' : Shared} {nd nd' : NodeData} {free throws : Bool}
    {agent : Agent} {pc pc' : WorkerPc} {fl fl' : Flags}
    (h : LoopStep sh nd free agent throws pc fl sh' nd' pc' fl') :
    pc.returned = false ∧ (pc'.returned = false ∨ pc'.returned = true ∧
      (pc = .fetchSub ∨ ∃ t, pc = .running t ∧ throws = true)) := by
  cases h with
  | fetchSub => exact ⟨rfl, Or.inr ⟨rfl, Or.inl rfl⟩⟩
  | throws t hthrows => exact ⟨rfl, Or.inr ⟨rfl, Or.inr ⟨t, rfl, hthrows⟩⟩⟩
  | passes hpc | sleeps hpc => rcases hpc with rfl | rfl <;> exact ⟨rfl, Or.inl rfl⟩
  | _ => exact ⟨rfl, Or.inl rfl⟩

theorem Move.roll {cfg : Config} {s s' : State} {a : Action} (hwired : Wired cfg s)
    (hsited : Sited cfg s) (hstep : step cfg s a = some s') (h : Move cfg s a s') :
    Roll cfg s a s' := by
  cases h with
  | pushes _ _ hnd =>
      exact .same rfl (created_frame (threadCount_set_same hnd rfl rfl) rfl rfl)
  | notifies _ _ hw hasleep =>
      exact .put hw rfl (Worker.live_woken hasleep) rfl rfl
  | @workerHop _ j w w' ha hw hhop =>
      cases hhop with
      | leaves hpc _ hout =>
          obtain ⟨throws, rfl⟩ :=
            action_of_hop hwired ha hw (by simp [hpc]) (by simp [hpc])
              hstep (by simp [hpc, Worker.goto])
          exact .out hw rfl (by rw [Worker.live, hpc]; rfl) rfl rfl rfl
            (by simp [State.returning, hw, hpc, hout])
      | noNode hpc hrange =>
          obtain ⟨throws, rfl⟩ :=
            action_of_hop hwired ha hw (by simp [hpc]) (by simp [hpc])
              hstep (by simp [hpc, Worker.goto])
          exact .out hw rfl (by rw [Worker.live, hpc]; rfl) rfl rfl rfl
            (by simpa [State.returning, hw, hpc] using hrange)
      | unbound hpc =>
          obtain ⟨throws, rfl⟩ :=
            action_of_hop hwired ha hw (by simp [hpc]) (by simp [hpc])
              hstep (by simp [hpc, Worker.goto])
          exact .out hw rfl (by rw [Worker.live, hpc]; rfl) rfl rfl rfl
            (by simp [State.returning, hw, hpc])
      | registers hpc | readsNode _ hpc | bindFails hpc | ends _ hpc | spurious hpc =>
          exact .put hw rfl (by rw [Worker.live, Worker.live, hpc]; rfl) rfl rfl
  | binds hw hpc =>
      exact .put hw rfl (by rw [Worker.live, Worker.live, hpc]; rfl) rfl rfl
  | @loops j throws w sh nd nd' pc fl hw hnd hloop =>
      have hcount := threadCount_set_same (t := State.put
        { s with sh := sh, nodes := s.nodes.set w.native.nodeNum nd' } j
        ({ w with flags := fl }.goto pc)) hnd rfl hloop.threadCount_eq
      obtain ⟨hbefore, hafter | ⟨hafter, hpc⟩⟩ := hloop.returned
      · refine .put hw rfl ?_ hcount rfl
        rw [Worker.live, Worker.live, hbefore]
        exact congrArg (!·) hafter
      · refine .out hw rfl (by rw [Worker.live, hbefore]; rfl)
          (by rw [Worker.live]; exact congrArg (!·) hafter) hcount rfl ?_
        rcases hpc with hpc | ⟨t, hpc, rfl⟩ <;> simp [State.returning, hw, hpc]
  | spawns | expandSpawns => exact .spawn hwired rfl rfl rfl
  | pushesSlot hc =>
      exact .push hwired (by rw [State.pending, hc]; rfl) (hsited.start _ _ hc) rfl rfl rfl
  | expandPushes hm hpc =>
      have hpending := hwired.pending_of_monitor hm (by rw [hpc]; simp)
      rw [hpc] at hpending
      exact .push hwired hpending (hsited.expand _ _ _ _ hm (Or.inr hpc)) rfl rfl rfl
  | notifiesAll | shrinkNotifies =>
      exact .same (countP_notifyAll (fun _ => Worker.live_woken) s.workers)
        (created_frame rfl (length_notifyAll _ _) rfl)
  | setsExit _ hw | marks _ _ hw => exact .put hw rfl rfl rfl rfl
  | joined _ hw => exact .put hw rfl rfl rfl rfl
  | cleared hc hi =>
      have hnone : s.census Worker.live = 0 := by
        refine List.countP_eq_zero.mpr fun w hw => ?_
        rw [(Worker.gone_of_ended (hwired.ended_of_clear hc hi w hw)).2]
        exact Bool.false_ne_true
      have hlen := hwired.pushed
      rw [hwired.pending_of_control (Or.inl (hwired.running_at hc rfl)), hc] at hlen
      have hall : s.workers.length = s.pushed := hlen
      refine .same hnone.symm ?_
      rw [State.created, State.created, hall, Nat.sub_self]
      rfl
  | clearTasks _ hnd =>
      exact .same rfl (created_frame (threadCount_set_same hnd rfl rfl) rfl rfl)
  | _ => exact .same rfl rfl

/-- Whoever returns does return. -/
theorem live_of_returning {cfg : Config} {s s' : State} {a : Action}
    (hwired : Wired cfg s) (hreturns : s.returning cfg a = true)
    (hstep : step cfg s a = some s') :
    s.census Worker.live = s'.census Worker.live + 1 := by
  cases a with
  | worker j throws =>
      obtain ⟨w, hw, hpc⟩ := (Option.any_eq_true _ _).mp hreturns
      have hindex := hwired.index j w hw
      have hout : w.live = true ∧
          ∃ w', s'.workers = s.workers.set j w' ∧ w'.live = false := by
        cases hpc' : w.native.pc with
        | registration =>
            simp only [hpc', decide_eq_true_eq] at hpc
            have hin : ¬j < s.pushed := by omega
            simp only [step, workerStep, hw, hpc', hindex, if_neg hin] at hstep
            split at hstep
            · rw [Option.some.injEq, workerGoto_eq hw] at hstep
              exact ⟨by rw [Worker.live, hpc']; rfl, _, by rw [← hstep]; rfl, rfl⟩
            · cases hstep
        | readNode =>
            simp only [hpc', Bool.or_eq_true, decide_eq_true_eq] at hpc
            obtain ⟨w', hworkers, hgone⟩ :=
              workerStep_gives_up hwired hw (Or.inr ⟨hpc', hpc⟩) hstep
            exact ⟨by rw [Worker.live, hpc']; rfl, w', hworkers,
              by rw [Worker.live, hgone]; rfl⟩
        | unbound =>
            obtain ⟨w', hworkers, hgone⟩ :=
              workerStep_gives_up hwired hw (Or.inl hpc') hstep
            exact ⟨by rw [Worker.live, hpc']; rfl, w', hworkers,
              by rw [Worker.live, hgone]; rfl⟩
        | fetchSub | running =>
            simp only [hpc'] at hpc
            simp only [step, workerStep, hw, hpc', boundStep, hindex, workerLoop,
              hpc] at hstep
            split at hstep
            · rw [Option.some.injEq, setFlags_workerGoto_eq (by exact hw)] at hstep
              exact ⟨by rw [Worker.live, hpc']; rfl, _, by rw [← hstep]; rfl, rfl⟩
            · cases hstep
        | _ => simp [hpc'] at hpc
      obtain ⟨hlive, w', hworkers, hgone⟩ := hout
      rw [State.census, State.census, hworkers]
      exact countP_set_lose hw w' hlive hgone
  | _ => cases hreturns

/-! ## Whole runs -/

/-- Nobody who was created has returned. -/
def Complete (s : State) : Prop := s.census Worker.live = s.created

/-- Somebody has. -/
def Short (s : State) : Prop := s.census Worker.live < s.created

theorem Roll.complete {cfg : Config} {s s' : State} {a : Action} (h : Roll cfg s a s')
    (hstays : Stays cfg s a) (hs : Complete s) : Complete s' := by
  unfold Complete at hs ⊢
  cases h with
  | same | creates => omega
  | returns hreturns =>
      rw [Stays, hreturns] at hstays
      cases hstays

theorem Roll.short {cfg : Config} {s s' : State} {a : Action} (h : Roll cfg s a s')
    (hs : Short s) : Short s' := by
  unfold Short at hs ⊢
  cases h <;> omega

theorem Roll.short_or_complete {cfg : Config} {s s' : State} {a : Action}
    (h : Roll cfg s a s') (hs : Complete s ∨ Short s) : Complete s' ∨ Short s' := by
  unfold Complete Short at hs ⊢
  cases h <;> omega

theorem roll_of_step {cfg : Config} {s s' : State} {a : Action}
    (hr : (pool cfg).Reachable s) (hstep : (pool cfg).step s a = some s') :
    Roll cfg s a s' :=
  (move_of_step hr hstep).roll (wired_of_reachable hr) (sited_of_reachable hr) hstep

theorem complete_at_init (cfg : Config) : Complete (pool cfg).init := by
  rw [Complete, State.created, State.threadCount]
  simp [pool, State.census]

theorem complete_of_stays {cfg : Config} {s : State}
    (hr : (pool cfg).ReachableWhen (fun s a => Returning s a ∧ Stays cfg s a) s) :
    Complete s :=
  hr.invariant (complete_at_init cfg) fun _ _ _ hr hs hok hstep =>
    (roll_of_step hr.reachable hstep).complete hok.2 hs

theorem short_of_returning {cfg : Config} {ok : State → Action → Prop}
    {s s' s'' : State} {a : Action} (hr : (pool cfg).Reachable s)
    (hreturns : s.returning cfg a = true) (hstep : (pool cfg).step s a = some s')
    (hleads : (pool cfg).LeadsWhen ok s' s'') :
    Short s'' := by
  have hboth : Complete s ∨ Short s :=
    hr.invariant (Or.inl (complete_at_init cfg)) fun _ _ _ hr hs hstep =>
      (roll_of_step hr hstep).short_or_complete hs
  have hlive := live_of_returning (wired_of_reachable hr) hreturns hstep
  have hshort : Short s' := by
    unfold Complete Short at *
    cases roll_of_step hr hstep <;> omega
  exact hleads.stable (hr.step trivial hstep) hshort fun _ _ _ hr hs _ hstep =>
    (roll_of_step hr hstep).short hs

/-- No worker is being created, none is on its way into the loop and none on
its way out. -/
def Settled (s : State) : Prop :=
  s.pending = false ∧
    ∀ w ∈ s.workers, w.native.pc.inLoop = true ∨ w.native.pc.returned = true

instance (s : State) : Decidable (Settled s) := inferInstanceAs (Decidable (_ ∧ _))

theorem WorkerPc.counted_eq {pc : WorkerPc} (h : pc.inLoop = true ∨ pc.returned = true) :
    pc.counted = !pc.returned := by
  cases pc <;> first | rfl | (rcases h with h | h <;> cases h)

theorem Settled.counts {cfg : Config} {s : State} (hwired : Wired cfg s)
    (hs : Settled s) :
    s.census Worker.counted = s.census Worker.live ∧ s.created = s.threadCount := by
  obtain ⟨hpending, hplaces⟩ := hs
  constructor
  · refine List.countP_congr fun w hw => ?_
    exact Bool.eq_iff_iff.mp (WorkerPc.counted_eq (hplaces w hw))
  · have hlen := hwired.pushed
    rw [hpending, if_neg Bool.false_ne_true, Nat.add_zero] at hlen
    rw [State.created, hlen, Nat.sub_self, Nat.add_zero]

/-- As long as every worker that was created is still in `WorkerLoop` the
counts agree where nobody is on its way; and once one has returned they never
agree there again. -/
theorem worker_counts_agree {cfg : Config} :
    (∀ s, (pool cfg).ReachableWhen (fun s a => Returning s a ∧ Stays cfg s a) s →
      Settled s → CountsAgree cfg s) ∧
    ∀ s a s' s'', (pool cfg).ReachableWhen Returning s → Returning s a →
      s.returning cfg a = true → (pool cfg).step s a = some s' →
      (pool cfg).LeadsWhen Returning s' s'' → Settled s'' → ¬CountsAgree cfg s'' := by
  refine ⟨fun s hr hsettled => ?_,
    fun s a s' s'' hr hok hreturns hstep hleads hsettled hagree => ?_⟩
  · have hwired := wired_of_reachable hr.reachable
    obtain ⟨hcounted, hcreated⟩ := hsettled.counts hwired
    have htally := tallied_of_returning (hr.mono fun _ _ hok => hok.1)
    have hcomplete := complete_of_stays hr
    rw [countsAgree_iff hwired, htally, hcounted, hcomplete, hcreated]
  · have hr'' : (pool cfg).ReachableWhen Returning s'' :=
      (hr.step hok hstep).trans hleads
    have hwired := wired_of_reachable hr''.reachable
    obtain ⟨hcounted, hcreated⟩ := hsettled.counts hwired
    have htally := tallied_of_returning hr''
    have hshort := short_of_returning hr.reachable hreturns hstep hleads
    rw [countsAgree_iff hwired, htally, hcounted, ← hcreated] at hagree
    unfold Short at hshort
    omega

/-- The only worker of the only node cannot be bound, and the node goes on
counting it. -/
theorem worker_counts_differ :
    ¬∀ (cfg : Config) (s : State), (pool cfg).ReachableWhen Returning s → Settled s →
      CountsAgree cfg s := by
  intro hall
  obtain ⟨s, hr, hsettled, hbad⟩ := exists_of_runWhen (pool (.ofHardware 1 1)) Returning
    (.start :: controls 8 ++ works 0 2 ++ [.bind 0 { setAffinity := 22 }] ++ works 0 2)
    (fun s => Settled s ∧ ¬CountsAgree (.ofHardware 1 1) s)
    (by decide +kernel)
  exact hbad (hall _ s hr hsettled)

/-- A worker for each of two nodes, both in the loop; then the pool is stopped
and the first has left. -/
theorem worker_counts_agree_run : ∃ s s' : State,
    workerCount s = 2 ∧ CountsAgree (.ofHardware 2 2) s ∧
      workerCount s' = 1 ∧ ¬CountsAgree (.ofHardware 2 2) s' := by
  obtain ⟨s, hr, hsettled, htwo⟩ := exists_of_runWhen (pool (.ofHardware 2 2))
    (fun s a => Returning s a ∧ Stays (.ofHardware 2 2) s a)
    (starting ++ entering 0 ++ entering 1 ++ works 0 8 ++ works 1 8)
    (fun s => Settled s ∧ workerCount s = 2)
    (by decide +kernel)
  obtain ⟨t, ht, hreturns, hlast⟩ :=
    exists_of_runWhen (pool (.ofHardware 2 2)) Returning
      (starting ++ entering 0 ++ entering 1 ++ works 0 8 ++ works 1 8 ++ stopping .immediate ++
        controls 3 ++ works 0 5)
      (fun s => s.returning (.ofHardware 2 2) (.worker 0 false) = true ∧
        ((pool (.ofHardware 2 2)).step s (.worker 0 false)).any
          (fun s => Settled s ∧ workerCount s = 1) = true)
      (by decide +kernel)
  obtain ⟨s', hstep, hs'⟩ := (Option.any_eq_true _ _).mp hlast
  obtain ⟨hsettled', hone⟩ := of_decide_eq_true hs'
  exact ⟨s, s', htwo, worker_counts_agree.1 s hr hsettled, hone,
    worker_counts_agree.2 t (.worker 0 false) s' s' ht rfl hreturns hstep .refl hsettled'⟩

end ThreadPool.Numa
