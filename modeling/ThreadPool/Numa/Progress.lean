import ThreadPool.Lib.Crew
import ThreadPool.Numa.Shrinking
import ThreadPool.Numa.Turnover

/-!
# What happens to a task queued on a node in the end

The law of `Normal.Progress`, for each node by itself: in a fair run of a pool
that keeps running, a task queued on a node where at all times some worker is
still serving is taken there, and what is taken is called to its end or put
away. What is queued on the other nodes does not matter.

Two things are harder here. A marked worker leaves the loop behind the wait,
too, so a mark can cost an active worker; what is left to mark is therefore
part of the load, and a mark lowers it (`State.markable`). And the law of the
node's gate does not hold between the first mark of a shrink pass and its
broadcast. There the monitor is the helper: it waits for nobody, and its
broadcast wakes the worker that is still serving.

The monitor takes the node's `tasks_mutex` again and again, so weak fairness
towards the workers is not enough: one that is about to lock the mutex could
find it taken whenever it is looked at. Hence the workers are to be treated
strongly fair, outside their tasks; and every called task is to end.
-/

namespace ThreadPool.Numa

open Interleave Machine

/-! ## Who helps -/

/-- On the way to a pop attempt that nothing but a mark, the queue running
empty or the pool stopping can prevent. Behind the second look at the mark a
mark cannot either. -/
def WorkerPc.heading (marked : Bool) : WorkerPc → Bool
  | .setValid | .fetchAdd | .testExit | .testRunning | .setIdle | .setIdleTime | .wait
  | .blocked true | .retestExit => !marked
  | .retestRunning | .clearIdle | .pop => true
  | _ => false

/-- Back from the queue, with a task or without. -/
def WorkerPc.engaged : WorkerPc → Bool
  | .holding _ | .running _ => true
  | _ => false

def WorkerPc.active (marked : Bool) (pc : WorkerPc) : Bool :=
  pc.heading marked || pc.engaged

/-- In `WorkerLoop` and to come by the queue again while the pool runs. -/
def WorkerPc.serving (marked : Bool) : WorkerPc → Bool
  | .holding _ | .running _ | .window | .blocked false => !marked
  | pc => pc.heading marked

def Worker.engagedOn (n : Nat) (w : Worker) : Bool :=
  w.native.nodeNum = n && w.native.pc.engaged

def Worker.activeOn (n : Nat) (w : Worker) : Bool :=
  w.native.nodeNum = n && w.native.pc.active w.flags.shouldExit

def Worker.servesOn (n : Nat) (w : Worker) : Bool :=
  w.native.nodeNum = n && w.native.pc.serving w.flags.shouldExit

/-- How many steps a worker is from its pop, or from empty hands. -/
def WorkerPc.toGo : WorkerPc → Nat
  | .setValid => 11
  | .fetchAdd => 10
  | .testExit => 9
  | .testRunning => 8
  | .setIdle => 7
  | .setIdleTime => 6
  | .wait | .blocked true => 5
  | .retestExit => 4
  | .retestRunning => 3
  | .clearIdle | .holding _ => 2
  | _ => 1

/-- The worker whose thread moves. -/
def Action.worker? : Action → Option Nat
  | .worker j _ | .bind j _ => some j
  | _ => none

/-- The call of `Enqueue` or `EnqueueToNumaNode` that moves. -/
def Action.call? : Action → Option Nat
  | .enqueue k _ | .locate k _ _ _ => some k
  | _ => none

/-- The workers as the crew of node `n`. -/
def crewOf (n : Nat) : Crew Worker :=
  ⟨Worker.activeOn n, Worker.engagedOn n, fun w => w.native.pc.toGo⟩

@[simp] theorem crewOf_active (n : Nat) (w : Worker) : (crewOf n).active w = w.activeOn n := rfl

@[simp] theorem crewOf_engaged (n : Nat) (w : Worker) :
    (crewOf n).engaged w = w.engagedOn n := rfl

/-- Its queue, and the workers the monitor may still send home. -/
def State.service (cfg : Config) (n : Nat) (s : State) : Service Task Worker :=
  ⟨(s.node n).tasks, s.workers, s.markable cfg n⟩

/-- What a step of `mover`, or of somebody else, does for a task queued on node
`n`. -/
def Advance (cfg : Config) (n : Nat) (t : Task) (mover : Option Nat) (s s' : State) : Prop :=
  (crewOf n).Advance t mover (s.service cfg n) (s'.service cfg n)
    (t ∈ taken (s'.node n).hist)

theorem Worker.not_in_service {w : Worker}
    (h : ∀ marked, w.native.pc.active marked = false) (n : Nat) :
    w.activeOn n = false ∧ w.engagedOn n = false := by
  have hactive := h w.flags.shouldExit
  have hengaged : w.native.pc.engaged = false := by
    unfold WorkerPc.active at hactive
    exact (Bool.or_eq_false_iff.mp hactive).2
  simp [Worker.activeOn, Worker.engagedOn, hactive, hengaged]

theorem Worker.not_in_service_elsewhere {n : Nat} {w : Worker} (hn : w.native.nodeNum ≠ n) :
    w.activeOn n = false ∧ w.engagedOn n = false := by
  simp [Worker.activeOn, Worker.engagedOn, hn]

theorem Worker.activeOn_eq {n : Nat} {w : Worker} (hn : w.native.nodeNum = n) :
    w.activeOn n = w.native.pc.active w.flags.shouldExit := by
  rw [Worker.activeOn, decide_eq_true hn, Bool.true_and]

theorem Worker.engagedOn_eq {n : Nat} {w : Worker} (hn : w.native.nodeNum = n) :
    w.engagedOn n = w.native.pc.engaged := by
  rw [Worker.engagedOn, decide_eq_true hn, Bool.true_and]

theorem WorkerPc.bound_of_active {pc : WorkerPc} {marked : Bool}
    (h : pc.active marked = true) : pc.bound = true := by
  cases pc <;> first | rfl | cases h

/-! ## What a step does -/

theorem LoopStep.service {n : Nat} {t : Task} {sh sh' : Shared} {nd nd' : NodeData}
    {free throws : Bool} {agent : Agent} {w : Worker} {pc' : WorkerPc} {fl' : Flags}
    (h : LoopStep sh nd free agent throws w.native.pc w.flags sh' nd' pc' fl')
    (hn : w.native.nodeNum = n) (hrun : sh.running = true) (ht : t ∈ nd.tasks) :
    t ∈ taken nd'.hist ∨ t ∈ nd'.tasks ∧
      (2 * nd'.tasks.idxOf t +
            tally (Worker.engagedOn n) ({ w with flags := fl' }.goto pc') <
          2 * nd.tasks.idxOf t + tally (Worker.engagedOn n) w ∨
        nd'.tasks = nd.tasks ∧
          ({ w with flags := fl' }.goto pc').engagedOn n = w.engagedOn n ∧
          (w.activeOn n = true → ({ w with flags := fl' }.goto pc').activeOn n = true ∧
            pc'.toGo < w.native.pc.toGo)) := by
  have hactive := Worker.activeOn_eq hn
  have hengaged := Worker.engagedOn_eq hn
  have hactive' := Worker.activeOn_eq (w := { w with flags := fl' }.goto pc') hn
  have hengaged' := Worker.engagedOn_eq (w := { w with flags := fl' }.goto pc') hn
  generalize w.native.pc = pc at h hactive hengaged
  rw [hactive, hactive', hengaged']
  cases h with
  | stopped hrunning | stoppedWaiting hrunning =>
      rw [hrun] at hrunning
      cases hrunning
  | marked hexit | remarked hexit =>
      refine Or.inr ⟨ht, Or.inr ⟨rfl, hengaged.symm, fun h => ?_⟩⟩
      rw [hexit] at h
      cases h
  | passes hwait | sleeps hwait _ hpred =>
      first
      | rcases hwait with rfl | rfl <;>
          exact Or.inr ⟨ht, Or.inr ⟨rfl, hengaged.symm, fun h => ⟨h, by decide⟩⟩⟩
      | rw [(waitPredicate_false hpred).1] at ht
        exact absurd ht List.not_mem_nil
  | misses hfree htasks =>
      rw [htasks] at ht
      exact absurd ht List.not_mem_nil
  | pops u rest hfree htasks =>
      rw [htasks] at ht ⊢
      by_cases hu : u = t
      · refine Or.inl ?_
        rw [hu]
        simp [WorkEvent.taken?]
      · refine Or.inr ⟨(List.mem_cons.mp ht).resolve_left (Ne.symm hu), Or.inl ?_⟩
        rw [tally_pos hengaged', tally_neg hengaged, List.idxOf_cons_ne _ hu]
        show 2 * rest.idxOf t + 1 < _
        omega
  | nothing | drops | returns | throws =>
      refine Or.inr ⟨ht, Or.inl ?_⟩
      rw [tally_neg hengaged', tally_pos hengaged]
      exact Nat.lt_succ_self _
  | starts u hcall =>
      exact Or.inr ⟨ht, Or.inr ⟨rfl, hengaged.symm, fun _ => ⟨rfl, Nat.lt_succ_self 1⟩⟩⟩
  | stillUnmarked | stillRunning | clearIdle =>
      exact Or.inr ⟨ht, Or.inr ⟨rfl, hengaged.symm, fun _ => ⟨rfl, by decide⟩⟩⟩
  | setValid | fetchAdd | unmarked | goesOn | setIdle | setIdleTime =>
      exact Or.inr ⟨ht, Or.inr ⟨rfl, hengaged.symm, fun h => ⟨h, by decide⟩⟩⟩
  | blocks | clearValid | exitIdle | fetchSub =>
      exact Or.inr ⟨ht, Or.inr ⟨rfl, hengaged.symm, fun h => by cases h⟩⟩

theorem WorkerHop.not_in_service {cfg : Config} {s : State} {w w' : Worker} (n : Nat)
    (h : WorkerHop cfg s w w') :
    (w.activeOn n = false ∧ w.engagedOn n = false) ∧ w'.engagedOn n = false := by
  cases h with
  | registers hpc | leaves hpc | noNode hpc | readsNode _ hpc | bindFails hpc | unbound hpc
  | ends _ hpc | spurious hpc =>
      refine ⟨Worker.not_in_service (fun marked => ?_) n, ?_⟩
      · rw [hpc]
        rfl
      · simp [Worker.engagedOn, Worker.goto, WorkerPc.engaged]

theorem Move.mark_lightens {cfg : Config} {n : Nat} {s s' : State} {a : Action}
    (hmark : s.marking n a = true) (h : Move cfg s a s') :
    s'.nodes = s.nodes ∧ s'.calls = s.calls ∧ (s'.workers = s.workers ∨
      ∀ t, (crewOf n).load t (s'.service cfg n) < (crewOf n).load t (s.service cfg n)) := by
  have hat : ∀ {m : Monitor}, s.monitorThread = some m → a.isMonitor = true →
      ∃ need now removed i, m.pc = .shrinkMark n need now removed i := by
    intro m hm ha
    cases a with
    | monitor creates waitFails =>
        rw [State.marking, hm, Option.any_some] at hmark
        cases hpc : m.pc with
        | shrinkMark k need now removed i =>
            simp only [hpc, Bool.and_eq_true, decide_eq_true_eq] at hmark
            exact ⟨need, now, removed, i, by rw [hmark.1.1]⟩
        | _ => simp [hpc] at hmark
    | _ => cases ha
  cases h with
  | monitorHop => exact ⟨rfl, rfl, Or.inl rfl⟩
  | expandSpawns hm hpc | expandPushes hm hpc | shrinkNotifies hm hpc | monitorEnds hm hpc =>
      obtain ⟨need, now, removed, i, hpc'⟩ := hat hm rfl
      rw [hpc] at hpc'
      cases hpc'
  | @marks _ _ m k need now removed i w hm hpc hw _ hexp =>
      obtain ⟨_, _, _, _, hpc'⟩ := hat hm rfl
      rw [hpc] at hpc'
      cases hpc'
      refine ⟨rfl, rfl, ?_⟩
      cases hexit : w.flags.shouldExit with
      | true =>
          have hsame : { w with flags.shouldExit := true } = w := by rw [← hexit]
          obtain ⟨hlt, hget⟩ := List.getElem?_eq_some_iff.mp hw
          refine Or.inl ?_
          show s.workers.set i _ = s.workers
          rw [hsame, ← hget, List.set_getElem_self hlt]
      | false =>
          refine Or.inr fun t => ?_
          have hcost : ((s.put i { w with flags.shouldExit := true }).monitorGoto m
                (.shrinkMark n need now (removed + 1) (i + 1))).markable cfg n +
              tally (Worker.unmarkedOn n) w = s.markable cfg n := markable_mark hm hpc hw rfl
          have hunmarked : tally (Worker.unmarkedOn n) w = 1 := by
            refine tally_pos ?_
            simp only [Worker.expired, Bool.and_eq_true] at hexp
            rw [Worker.unmarkedOn, hexit, hexp.1.2]
            rfl
          have hhands : (s.workers.set i { w with flags.shouldExit := true }).countP
              (Worker.engagedOn n) = s.workers.countP (Worker.engagedOn n) :=
            countP_set_same hw rfl
          show 2 * (s.node n).tasks.idxOf t + (s.workers.set i _).countP (Worker.engagedOn n) +
              State.markable cfg n _ <
            2 * (s.node n).tasks.idxOf t + s.workers.countP (Worker.engagedOn n) +
              s.markable cfg n
          omega
  | callHop ha | workerHop ha =>
      cases a with
      | monitor => cases ha
      | _ => cases hmark
  | _ => cases hmark

theorem Worker.Placed.not_active_elsewhere {bound : Affinities} {w : Worker} {n k now : Nat}
    (hplaced : w.Placed bound) (hexp : w.expired k now = true) (hkn : k ≠ n) :
    w.activeOn n = false := by
  refine Bool.eq_false_iff.mpr fun hactive => hkn ?_
  rw [Worker.activeOn, Bool.and_eq_true, decide_eq_true_eq] at hactive
  have hnode := hplaced.node (Or.inr (WorkerPc.bound_of_active hactive.2))
  simp only [Worker.expired, Bool.and_eq_true, decide_eq_true_eq] at hexp
  omega

theorem LoopStep.advance {cfg : Config} {n j : Nat} {t : Task} {mover : Option Nat} {s : State}
    {throws : Bool} {w : Worker} {sh : Shared} {nd nd' : NodeData} {pc : WorkerPc} {fl : Flags}
    {s' : State} (hstep : LoopStep s.sh nd (s.tasksMutexFree w.native.nodeNum)
      ⟨w.native.self, w.numaNode⟩ throws w.native.pc w.flags sh nd' pc fl)
    (hw : s.workers[j]? = some w) (hnd : s.nodes[w.native.nodeNum]? = some nd)
    (hnodes : s'.nodes = s.nodes.set w.native.nodeNum nd')
    (hworkers : s'.workers = s.workers.set j ({ w with flags := fl }.goto pc))
    (hlosses : s'.markable cfg n ≤ s.markable cfg n) (hrun : s.sh.running = true)
    (ht : t ∈ (s.node n).tasks) (hmover : ∀ i, mover = some i → i = j) :
    Advance cfg n t mover s s' := by
  have hset := node_set hnd hnodes n
  by_cases hn : w.native.nodeNum = n
  · rw [if_pos hn] at hset
    rw [hn] at hnd
    have hold := node_eq hnd
    rw [hold] at ht
    rcases hstep.service hn hrun ht with htaken | ⟨hqueued, hless | ⟨htasks, hengaged, hkept⟩⟩
    · exact .takes (by rw [hset]; exact htaken)
    · refine .of_set_less (by rw [State.service, hset]; exact hqueued) hw hworkers hlosses ?_
      rw [State.service, State.service, hset, hold]
      exact hless
    · refine .of_set (by rw [State.service, hold]; exact ht)
        (by rw [State.service, State.service, hset, hold, htasks]) hw hworkers hlosses hmover
        hengaged fun hactive => ?_
      obtain ⟨hactive', hlt⟩ := hkept hactive
      exact ⟨hactive', Nat.le_of_lt hlt, fun _ => hlt⟩
  · rw [if_neg hn] at hset
    obtain ⟨hactive, hengaged⟩ := Worker.not_in_service_elsewhere hn
    obtain ⟨-, hengaged'⟩ :=
      Worker.not_in_service_elsewhere (w := { w with flags := fl }.goto pc) hn
    refine .of_set ht (congrArg NodeData.tasks hset) hw hworkers hlosses hmover
      (hengaged'.trans hengaged.symm) fun h => ?_
    rw [crewOf_active, hactive] at h
    cases h

/-- Every step of a pool that keeps running does something for a task queued on
node `n`, or does no harm. -/
theorem Move.advance {cfg : Config} {n : Nat} {t : Task} {s s' : State} {a : Action}
    (hwired : Wired cfg s) (hlocated : Located s) (hroomy : Roomy cfg s)
    (hn : n < cfg.numaNodeCount) (hrun : s.sh.running = true)
    (hrun' : s'.sh.running = true) (ht : t ∈ (s.node n).tasks) (h : Move cfg s a s') :
    Advance cfg n t none s s' := by
  have hlosses : s'.markable cfg n ≤ s.markable cfg n :=
    h.markable_le hwired hroomy hn hrun hrun'
  have hgrows : (s.node n).tasks <+: (s'.node n).tasks → s'.workers = s.workers →
      Advance cfg n t none s s' := fun htasks hworkers => .of_same ht htasks hworkers hlosses
  have hsame : (s'.node n).tasks = (s.node n).tasks → s'.workers = s.workers →
      Advance cfg n t none s s' := fun htasks => hgrows (htasks ▸ List.prefix_rfl)
  have hidle : ∀ {j : Nat} {w w' : Worker}, s.workers[j]? = some w →
      s'.workers = s.workers.set j w' → s'.nodes = s.nodes →
      w.activeOn n = false ∧ w.engagedOn n = false → w'.engagedOn n = false →
      Advance cfg n t none s s' := by
    intro j w w' hw hworkers hnodes hbefore hafter
    refine .of_set ht (congrArg NodeData.tasks (node_frame hnodes n)) hw hworkers hlosses nofun
      (hafter.trans hbefore.2.symm) fun hactive => ?_
    rw [crewOf_active, hbefore.1] at hactive
    cases hactive
  cases hmark : s.marking n a with
  | true =>
      obtain ⟨hnodes, -, hworkers | hless⟩ := h.mark_lightens hmark
      · exact hsame (congrArg NodeData.tasks (node_frame hnodes n)) hworkers
      · exact .lightens (by rw [State.service, node_frame hnodes]; exact ht) (hless t)
  | false =>
  cases h with
  | pushes hc hpc hnd =>
      refine hgrows ?_ rfl
      conv_rhs => rw [node_set hnd rfl]
      split
      · next hn =>
          rw [← hn, node_eq hnd]
          exact List.prefix_append _ _
      · exact List.prefix_rfl
  | notifies hc hpc hw hasleep =>
      have hpc := (Worker.blocked_of_asleepOn hasleep).2
      exact hidle hw rfl rfl (Worker.not_in_service (fun _ => by rw [hpc]; rfl) n)
        (by simp [Worker.engagedOn, Worker.goto, WorkerPc.engaged])
  | workerHop _ hw hhop =>
      obtain ⟨hbefore, hafter⟩ := hhop.not_in_service n
      exact hidle hw rfl rfl hbefore hafter
  | binds hw hpc =>
      exact hidle hw rfl rfl (Worker.not_in_service (fun _ => by rw [hpc]; rfl) n)
        (by simp [Worker.engagedOn, Worker.goto, WorkerPc.engaged])
  | loops hw hnd hstep =>
      exact hstep.advance hw hnd rfl rfl hlosses hrun ht nofun
  | spawns | expandSpawns =>
      exact .of_append ht rfl rfl hlosses
        (by simp [Worker.engagedOn, freshWorker, WorkerPc.engaged])
  | @pushesSlot _ _ m | @expandPushes _ _ _ m =>
      exact hsame (hist_pushWorker s m n).2 rfl
  | shrinkNotifies hm hpc =>
      refine .of_map ht rfl rfl hlosses (fun w hactive => if_neg fun hasleep => ?_) fun w => ?_
      · have hpc := (Worker.blocked_of_asleepOn hasleep).2
        rw [crewOf_active, (Worker.not_in_service (fun _ => by rw [hpc]; rfl) n).1] at hactive
        cases hactive
      · split
        · next hasleep =>
            have hpc := (Worker.blocked_of_asleepOn hasleep).2
            simp [Worker.engagedOn, WorkerPc.engaged, hpc]
        · rfl
  | @marks _ _ m k need now removed i w hm hpc hw hneed hexp =>
      have hkn : k ≠ n := by
        rintro rfl
        have hslot := hwired.slot_of_monitor hm (by rw [hpc]; simp) (by rw [hpc]; rfl) i
        simp [State.marking, hm, hpc, hslot, hw, hneed, hexp] at hmark
      refine .of_set ht rfl hw rfl hlosses nofun rfl fun hactive => ?_
      have hplaced := hlocated.placed w (List.mem_of_getElem? hw)
      rw [crewOf_active, hplaced.not_active_elsewhere hexp hkn] at hactive
      cases hactive
  | clearRunning => cases hrun'
  | storeRunning hc | notifiesAll hc | setsExit hc | cleared hc | resetCount hc
  | clearTasks hc =>
      rw [hwired.running_at hc rfl] at hrun
      cases hrun
  | joined hc =>
      rw [hwired.running_at_join hc] at hrun
      cases hrun
  | _ => exact hsame rfl rfl

theorem step_of_active {cfg : Config} {s s' : State} {a : Action} {j n : Nat} {w : Worker}
    (hwired : Wired cfg s) (hw : s.workers[j]? = some w) (hactive : w.activeOn n = true)
    (ha : a.worker? = some j) (hstep : step cfg s a = some s') :
    ∃ throws nd nd' sh pc fl, s.nodes[w.native.nodeNum]? = some nd ∧
      LoopStep s.sh nd (s.tasksMutexFree w.native.nodeNum) ⟨w.native.self, w.numaNode⟩ throws
        w.native.pc w.flags sh nd' pc fl ∧
      s'.nodes = s.nodes.set w.native.nodeNum nd' ∧
      s'.workers = s.workers.set j ({ w with flags := fl }.goto pc) := by
  rw [Worker.activeOn, Bool.and_eq_true] at hactive
  cases a with
  | worker i throws =>
      obtain rfl := Option.some.inj ha
      have hbound : boundStep s i w throws = some s' := by
        rw [← hstep]
        show _ = workerStep cfg s i throws
        simp only [workerStep, hw]
        cases hpc : w.native.pc with
        | registration | readNode | unbound | entry | ended =>
            rw [hpc] at hactive
            cases hactive.2
        | _ => rfl
      unfold boundStep at hbound
      rw [hwired.index i w hw] at hbound
      split at hbound
      · next slot nd hslot hnd =>
          obtain ⟨-, hslot⟩ := getElem?_of_slot hslot
          rw [hw, Option.some.injEq] at hslot
          subst hslot
          split at hbound
          · cases hbound
          · next sh nd' pc fl hloop =>
              rw [Option.some.injEq, setFlags_workerGoto_eq (by exact hw)] at hbound
              subst hbound
              exact ⟨throws, nd, nd', sh, pc, fl, hnd, workerLoop_cases hloop, rfl, rfl⟩
      · cases hbound
  | bind i os =>
      obtain rfl := Option.some.inj ha
      have hbind : w.native.pc ≠ .bind := by
        intro hpc
        rw [hpc] at hactive
        cases hactive.2
      simp only [step, bindStep, hw, if_neg hbind] at hstep
      cases hstep
  | _ => cases ha

theorem step_advance {cfg : Config} {n : Nat} {t : Task} {s s' : State} {a : Action}
    (hr : (pool cfg).Reachable s) (hstep : step cfg s a = some s') (hrun : s.sh.running = true)
    (hrun' : s'.sh.running = true) (ht : t ∈ (s.node n).tasks) :
    Advance cfg n t a.worker? s s' := by
  have hwired := wired_of_reachable hr
  have hroomy := roomy_of_reachable hr
  have hmove := move_of_step hr hstep
  have hn : n < cfg.numaNodeCount := by
    rw [← hwired.nodes]
    exact length_of_node (List.ne_nil_of_mem ht)
  by_cases hmover : ∃ j w, a.worker? = some j ∧ s.workers[j]? = some w ∧ w.activeOn n = true
  · obtain ⟨j, w, ha, hw, hactive⟩ := hmover
    obtain ⟨throws, nd, nd', sh, pc, fl, hnd, hloop, hnodes, hworkers⟩ :=
      step_of_active hwired hw hactive ha hstep
    exact hloop.advance hw hnd hnodes hworkers (hmove.markable_le hwired hroomy hn hrun hrun')
      hrun ht fun i hi => Option.some.inj (hi.symm.trans ha)
  · refine Crew.Advance.idle
      (hmove.advance hwired (located_of_reachable hr) hroomy hn hrun hrun' ht) ?_
    exact fun j w ha hw => Bool.eq_false_iff.mpr fun hactive => hmover ⟨j, w, ha, hw, hactive⟩

/-! ## The helpers can move -/

theorem WorkerPc.inside_of_active {pc : WorkerPc} {marked : Bool}
    (h : pc.active marked = true) : pc.inside = true := by
  cases pc <;> first | rfl | cases h

/-- Whoever is inside `WorkerLoop` has its slot in `workers_`. -/
def Seated (s : State) : Prop :=
  ∀ w ∈ s.workers, w.native.pc.inside = true → w.native.index < s.pushed

theorem WorkerHop.seated {cfg : Config} {s : State} {w w' : Worker}
    (h : WorkerHop cfg s w w') (hin : w.native.pc.inside = true → w.native.index < s.pushed)
    (hinside : w'.native.pc.inside = true) : w'.native.index < s.pushed := by
  cases h with
  | registers _ _ hlt => exact hlt
  | readsNode _ hpc | bindFails hpc | spurious hpc => exact hin (by rw [hpc]; rfl)
  | leaves | noNode | unbound | ends => cases hinside

theorem LoopStep.from_inside {sh sh' : Shared} {nd nd' : NodeData} {free throws : Bool}
    {agent : Agent} {pc pc' : WorkerPc} {fl fl' : Flags}
    (h : LoopStep sh nd free agent throws pc fl sh' nd' pc' fl') : pc.inside = true := by
  cases h with
  | passes hpc | sleeps hpc => rcases hpc with rfl | rfl <;> rfl
  | _ => rfl

theorem Move.seated {cfg : Config} {s s' : State} {a : Action} (hs : Seated s)
    (h : Move cfg s a s') : Seated s' := by
  have hold : ∀ {j : Nat} {w : Worker}, s.workers[j]? = some w →
      w.native.pc.inside = true → w.native.index < s.pushed :=
    fun hw => hs _ (List.mem_of_getElem? hw)
  cases h with
  | notifies _ _ hw hasleep =>
      have hin := hold hw (by rw [(Worker.blocked_of_asleepOn hasleep).2]; rfl)
      exact forall_mem_set hs fun _ => hin
  | workerHop _ hw hhop => exact forall_mem_set hs (hhop.seated (hold hw))
  | binds hw hpc =>
      have hin := hold hw (by rw [hpc]; rfl)
      exact forall_mem_set hs fun _ => hin
  | loops hw _ hstep =>
      have hin := hold hw hstep.from_inside
      exact forall_mem_set hs fun _ => hin
  | spawns | expandSpawns =>
      intro w hw hinside
      rcases List.mem_append.mp hw with hmem | hnew
      · exact hs w hmem hinside
      · rw [List.mem_singleton.mp hnew] at hinside
        cases hinside
  | pushesSlot | expandPushes => exact fun w hw hinside => Nat.lt_succ_of_lt (hs w hw hinside)
  | notifiesAll | shrinkNotifies =>
      refine forall_mem_notifyAll hs fun w hw hasleep _ => ?_
      exact hs w hw (by rw [(Worker.blocked_of_asleepOn hasleep).2]; rfl)
  | setsExit _ hw | joined _ hw | marks _ _ hw =>
      have hin := hold hw
      exact forall_mem_set hs hin
  | cleared => exact fun _ hw => absurd hw List.not_mem_nil
  | _ => exact hs

theorem seated_of_reachable {cfg : Config} {s : State} (hr : (pool cfg).Reachable s) :
    Seated s :=
  hr.invariant (fun _ hw => absurd hw List.not_mem_nil) fun _ _ _ hr hs hstep =>
    (move_of_step hr hstep).seated hs

theorem worker_enabled {cfg : Config} {s : State} {j : Nat} {w : Worker}
    (hr : (pool cfg).Reachable s) (hw : s.workers[j]? = some w)
    (hn : w.native.nodeNum < cfg.numaNodeCount)
    (hactive : w.native.pc.active w.flags.shouldExit = true)
    (hfree : w.native.pc.engaged = true ∨ s.tasksMutexFree w.native.nodeNum = true) :
    (pool cfg).Enabled (fun a => a.worker? = some j) s := by
  have hwired := wired_of_reachable hr
  have hindex := hwired.index j w hw
  have hslot : s.slot j = some w := by
    have hin := seated_of_reachable hr w (List.mem_of_getElem? hw)
      (WorkerPc.inside_of_active hactive)
    rw [State.slot, if_pos (hindex ▸ hin), hw]
  have hnd : s.nodes[w.native.nodeNum]? = some (s.node w.native.nodeNum) :=
    node_of_lt (by rw [hwired.nodes]; exact hn)
  refine ⟨.worker j false, rfl, ?_⟩
  show (workerStep cfg s j false).isSome = true
  cases hpc : w.native.pc with
  | registration | readNode | bind | unbound | clearValid | exitIdle | fetchSub | entry | ended
  | window =>
      rw [hpc] at hactive
      cases hactive
  | blocked signalled =>
      rw [hpc] at hactive hfree
      have hfree' := hfree.resolve_left Bool.false_ne_true
      cases signalled with
      | false => cases hactive
      | true => simp [workerStep, boundStep, workerLoop, evaluate, hw, hpc, hindex, hslot, hnd,
          hfree']
  | holding task =>
      cases task with
      | none => simp [workerStep, boundStep, workerLoop, hw, hpc, hindex, hslot, hnd]
      | some t =>
          cases hcall : t.callable <;>
            simp [workerStep, boundStep, workerLoop, hw, hpc, hindex, hslot, hnd, hcall]
  | wait =>
      rw [hpc] at hfree
      have hfree' := hfree.resolve_left Bool.false_ne_true
      simp [workerStep, boundStep, workerLoop, evaluate, hw, hpc, hindex, hslot, hnd, hfree']
  | pop =>
      rw [hpc] at hfree
      have hfree' := hfree.resolve_left Bool.false_ne_true
      cases htasks : (s.node w.native.nodeNum).tasks <;>
        simp [workerStep, boundStep, workerLoop, hw, hpc, hindex, hslot, hnd, hfree', htasks]
  | _ => simp [workerStep, boundStep, workerLoop, hw, hpc, hindex, hslot, hnd]

theorem notify_enabled {cfg : Config} {s : State} {k : Nat} {c : Call}
    (hc : s.calls[k]? = some c) (hpc : c.pc = .notify) :
    (pool cfg).Enabled (fun a => a.call? = some k) s := by
  by_cases hasleep : ∃ w ∈ s.workers, w.asleepOn c.nodeNum.toNat = true
  · obtain ⟨w, hmem, hasleep⟩ := hasleep
    obtain ⟨i, hi⟩ := List.mem_iff_getElem?.mp hmem
    refine ⟨.enqueue k (some i), rfl, ?_⟩
    simp [pool, step, enqueueStep, notifyOne, hc, hpc, hi, hasleep]
  · have hnone : (s.workers.all fun w => !w.asleepOn c.nodeNum.toNat) = true :=
      List.all_eq_true.mpr fun w hw => by
        simpa using fun h => hasleep ⟨w, hw, h⟩
    refine ⟨.enqueue k none, rfl, ?_⟩
    simp [pool, step, enqueueStep, notifyOne, hc, hpc, hnone]

/-! ## From the queue into a worker's hands -/

/-- A worker thread, a call between push and `NotifyOne`, or the monitor between
its first mark and its broadcast. -/
inductive Helper where
  | worker (j : Nat)
  | call (k : Nat)
  | monitor

def Helper.party : Helper → Action → Prop
  | .worker j, a => a.worker? = some j
  | .call k, a => a.call? = some k
  | .monitor, a => a.isMonitor = true

/-- Active workers of the node help. When there is none, the calls do that owe
a notification, as long as the law of the gate holds, and the monitor while it
need not hold. -/
def Helper.helps (n : Nat) : Helper → State → Prop
  | .worker j, s => ∃ w, s.workers[j]? = some w ∧ w.activeOn n = true
  | .call k, s => (∃ c, s.calls[k]? = some c ∧ c.owesOn n = true) ∧ Served n s ∧
      ∀ w ∈ s.workers, w.activeOn n = false
  | .monitor, s => Shrinking n s ∧ ∀ w ∈ s.workers, w.activeOn n = false

def Helper.toGo (cfg : Config) : Helper → State → Nat
  | .worker j, s => (s.workers[j]?).elim 0 fun w => w.native.pc.toGo
  | .call _, _ => 0
  | .monitor, s => s.passToGo cfg

theorem WorkerPc.drowsy_of_serving {pc : WorkerPc} {marked : Bool}
    (hserving : pc.serving marked = true) (hactive : pc.active marked = false) :
    (pc = .window ∨ pc = .blocked false) ∧ marked = false := by
  obtain ⟨hheading, hengaged⟩ := Bool.or_eq_false_iff.mp hactive
  cases pc with
  | window => exact ⟨Or.inl rfl, by simpa [WorkerPc.serving] using hserving⟩
  | blocked signalled =>
      cases signalled with
      | false => exact ⟨Or.inr rfl, by simpa [WorkerPc.serving] using hserving⟩
      | true => cases hheading.symm.trans hserving
  | holding | running => cases hengaged
  | _ => cases hheading.symm.trans hserving

theorem asleepOn_of_serving {n : Nat} {s : State} {t : Task} {w : Worker}
    (hguarded : WindowsGuarded s) (hw : w ∈ s.workers) (hserves : w.servesOn n = true)
    (hidle : w.activeOn n = false) (ht : t ∈ (s.node n).tasks) :
    w.asleepOn n = true ∧ w.flags.shouldExit = false := by
  rw [Worker.servesOn, Bool.and_eq_true, decide_eq_true_eq] at hserves
  obtain ⟨hn, hserving⟩ := hserves
  rw [Worker.activeOn_eq hn] at hidle
  obtain ⟨hpc | hpc, hunmarked⟩ := WorkerPc.drowsy_of_serving hserving hidle
  · have hempty := (hguarded w hw hpc).empty
    rw [hn] at hempty
    rw [hempty] at ht
    exact absurd ht List.not_mem_nil
  · exact ⟨by simp [Worker.asleepOn, hn, hpc], hunmarked⟩

theorem Worker.activeOn_of_awakeOn {n : Nat} {w : Worker} (hawake : w.awakeOn n = true) :
    w.activeOn n = true := by
  unfold Worker.awakeOn at hawake
  unfold Worker.activeOn
  rw [Bool.and_eq_true] at hawake ⊢
  refine ⟨hawake.1, ?_⟩
  obtain ⟨-, hpoint⟩ := hawake
  cases hpc : w.native.pc with
  | blocked signalled =>
      rw [hpc] at hpoint
      cases signalled with
      | false => cases hpoint
      | true =>
          have hunmarked : (!w.flags.shouldExit) = true := hpoint
          rw [WorkerPc.active, WorkerPc.heading, hunmarked]
          rfl
  | retestExit =>
      rw [hpc] at hpoint
      have hunmarked : (!w.flags.shouldExit) = true := hpoint
      rw [WorkerPc.active, WorkerPc.heading, hunmarked]
      rfl
  | retestRunning | clearIdle | pop => rfl
  | _ =>
      rw [hpc] at hpoint
      cases hpoint

/-- While `t` is queued on a node of a pool that runs, and somebody serves
there, somebody helps. -/
theorem exists_helper {cfg : Config} {n : Nat} {s : State} {t : Task}
    (hr : (pool cfg).Reachable s) (hrun : s.sh.running = true) (ht : t ∈ (s.node n).tasks)
    (hserved : ∃ w ∈ s.workers, w.servesOn n = true) : ∃ i : Helper, i.helps n s := by
  by_cases hactive : ∃ w ∈ s.workers, w.activeOn n = true
  · obtain ⟨w, hmem, hactive⟩ := hactive
    obtain ⟨j, hj⟩ := List.mem_iff_getElem?.mp hmem
    exact ⟨.worker j, w, hj, hactive⟩
  have hnone : ∀ w ∈ s.workers, w.activeOn n = false :=
    fun w hw => Bool.eq_false_iff.mpr fun h => hactive ⟨w, hw, h⟩
  rcases kept_of_reachable hr n with hshrinking | hkept
  · exact ⟨.monitor, hshrinking, hnone⟩
  · -- somebody sleeps over a queue that is not empty, so a notification is owed
    obtain ⟨w, hmem, hserves⟩ := hserved
    obtain ⟨hsleeps, -⟩ := asleepOn_of_serving (windowsGuarded_of_reachable hr) hmem hserves
      (hnone w hmem) ht
    have hqueued : 0 < (s.gate n).queued := List.length_pos_of_mem ht
    have hasleep : 0 < (s.gate n).asleep := List.countP_pos_iff.mpr ⟨w, hmem, hsleeps⟩
    have hawake : (s.gate n).awake = 0 := by
      refine List.countP_eq_zero.mpr fun v hv hawake => ?_
      have hidle := hnone v hv
      rw [Worker.activeOn_of_awakeOn hawake] at hidle
      cases hidle
    have hserved := hkept hrun
    have howed : 0 < (s.gate n).owed := by
      have hle := hserved.covered hasleep
      omega
    obtain ⟨c, hc, howes⟩ := List.countP_pos_iff.mp howed
    obtain ⟨k, hk⟩ := List.mem_iff_getElem?.mp hc
    exact ⟨.call k, ⟨c, hk, howes⟩, hserved, hnone⟩

theorem Move.owes_or_wakes {cfg : Config} {n : Nat} {s s' : State} {a : Action} {k : Nat}
    {c : Call} (hs : Served n s) (hasleep : ∃ w ∈ s.workers, w.asleepOn n = true)
    (hc : s.calls[k]? = some c) (howes : c.owesOn n = true) (h : Move cfg s a s') :
    s'.calls[k]? = some c ∨ ∃ w ∈ s'.workers, w.activeOn n = true := by
  have hset : ∀ {i : Nat} {d d' : Call}, s.calls[i]? = some d → d.owesOn n = false →
      (s.calls.set i d')[k]? = some c := by
    intro i d d' hd hnot
    rw [List.getElem?_set_ne, hc]
    rintro rfl
    rw [hc, Option.some.injEq] at hd
    rw [← hd, howes] at hnot
    cases hnot
  have hn : c.nodeNum.toNat = n := by
    rw [Call.owesOn, Bool.and_eq_true, decide_eq_true_eq, decide_eq_true_eq] at howes
    exact howes.2
  cases h with
  | call | callOn =>
      refine Or.inl ?_
      rw [List.getElem?_append_left (List.getElem?_eq_some_iff.mp hc).1]
      exact hc
  | callHop _ hd hhop => exact Or.inl (hset hd (hhop.owes n).1)
  | pushes hd hdpc => exact Or.inl (hset hd (by simp [Call.owesOn, hdpc]))
  | @notifies i l d w hd hdpc hw hsleeps =>
      by_cases hik : i = k
      · subst hik
        rw [hc, Option.some.injEq] at hd
        subst hd
        rw [hn] at hsleeps
        obtain ⟨hwn, hblocked⟩ := Worker.blocked_of_asleepOn hsleeps
        have hunmarked := hs.unmarked w (List.mem_of_getElem? hw) hsleeps
        refine Or.inr ⟨_, List.mem_set (List.getElem?_eq_some_iff.mp hw).1 _, ?_⟩
        simp [Worker.activeOn, Worker.goto, hwn, WorkerPc.active, WorkerPc.heading, hunmarked]
      · exact Or.inl (by rw [List.getElem?_set_ne hik, hc])
  | @notifiesNobody i d hd hdpc hnone =>
      by_cases hik : i = k
      · subst hik
        rw [hc, Option.some.injEq] at hd
        subst hd
        obtain ⟨w, hmem, hsleeps⟩ := hasleep
        have hawake := hnone w hmem
        rw [hn, hsleeps] at hawake
        cases hawake
      · exact Or.inl (by rw [List.getElem?_set_ne hik, hc])
  | _ => exact Or.inl hc

theorem step_notifies {cfg : Config} {s s' : State} {a : Action} {k : Nat} {c : Call}
    (hc : s.calls[k]? = some c) (hpc : c.pc = .notify) (ha : a.call? = some k)
    (hstep : step cfg s a = some s') : s'.calls[k]? ≠ some c := by
  cases a with
  | enqueue i pick =>
      obtain rfl := Option.some.inj ha
      simp only [step, enqueueStep, hc, hpc] at hstep
      split at hstep
      · rw [Option.some.injEq, callGoto_eq (by exact hc)] at hstep
        rw [← hstep, List.getElem?_set_self (List.getElem?_eq_some_iff.mp hc).1]
        intro hsame
        rw [← Option.some.inj hsame] at hpc
        cases hpc
      · cases hstep
  | locate i cpu nodeOfCpu strerror =>
      obtain rfl := Option.some.inj ha
      have hlocate : c.pc ≠ .locate := by
        intro hlocate
        rw [hpc] at hlocate
        cases hlocate
      simp only [step, locateStep, hc, if_neg hlocate] at hstep
      cases hstep
  | _ => cases ha

theorem MonitorPc.node_of_marked {pc : MonitorPc} {n : Nat} (h : pc.marked n = true) :
    pc.node? = some n := by
  cases pc with
  | shrinkMark | shrinkNotify =>
      simp only [MonitorPc.marked, Bool.and_eq_true, decide_eq_true_eq] at h
      simp [MonitorPc.node?, h]
  | _ => cases h

theorem step_call_helps {cfg : Config} {n : Nat} {t : Task} {s s' : State} {a : Action}
    (hr : (pool cfg).Reachable s) (hstep : step cfg s a = some s')
    (hrun' : s'.sh.running = true) (ht : t ∈ (s.node n).tasks)
    (hserved : ∃ w ∈ s.workers, w.servesOn n = true) {k : Nat}
    (hk : (Helper.call k).helps n s) (hnone' : ∀ w ∈ s'.workers, w.activeOn n = false) :
    (crewOf n).load t (s'.service cfg n) < (crewOf n).load t (s.service cfg n) ∨
      (Helper.call k).helps n s' ∧ a.call? ≠ some k := by
  obtain ⟨⟨c, hc, howes⟩, hs, hnone⟩ := hk
  have hmove := move_of_step hr hstep
  have hguarded := windowsGuarded_of_reachable hr
  have hasleep : ∃ w ∈ s.workers, w.asleepOn n = true := by
    obtain ⟨w, hmem, hserves⟩ := hserved
    exact ⟨w, hmem, (asleepOn_of_serving hguarded hmem hserves (hnone w hmem) ht).1⟩
  have hkept : s'.calls[k]? = some c := by
    refine (hmove.owes_or_wakes hs hasleep hc howes).resolve_right ?_
    rintro ⟨w, hmem, hactive⟩
    rw [hnone' w hmem] at hactive
    cases hactive
  have hpc : c.pc = .notify := by
    rw [Call.owesOn, Bool.and_eq_true, decide_eq_true_eq] at howes
    exact howes.1
  have hother : a.call? ≠ some k := fun ha => step_notifies hc hpc ha hstep hkept
  cases hmark : s.marking n a with
  | false =>
      have hs' : Served n s' := hmove.kept (wired_of_reachable hr) (located_of_reachable hr)
        hguarded (fun _ => hs) hmark hrun'
      exact Or.inr ⟨⟨⟨c, hkept, howes⟩, hs', hnone'⟩, hother⟩
  | true =>
      obtain ⟨hnodes, hcalls, hworkers | hless⟩ := hmove.mark_lightens hmark
      · have hgate : s'.gate n = s.gate n := by
          rw [State.gate, State.gate, node_frame hnodes, hworkers, hcalls]
        have hs' : Served n s' := hs.of_gate (Or.inl hgate) (hworkers ▸ hs.unmarked)
        exact Or.inr ⟨⟨⟨c, hkept, howes⟩, hs', hnone'⟩, hother⟩
      · exact Or.inl (hless t)

theorem step_monitor_helps {cfg : Config} {n : Nat} {t : Task} {s s' : State} {a : Action}
    (hr : (pool cfg).Reachable s) (hstep : step cfg s a = some s')
    (ht' : t ∈ (s'.node n).tasks) (hserved' : ∃ w ∈ s'.workers, w.servesOn n = true)
    (hi : Helper.monitor.helps n s) (hnone' : ∀ w ∈ s'.workers, w.activeOn n = false) :
    Helper.monitor.helps n s' ∧ s'.passToGo cfg ≤ s.passToGo cfg ∧
      (a.isMonitor = true → s'.passToGo cfg < s.passToGo cfg) := by
  obtain ⟨⟨m, hm, hmarked⟩, -⟩ := hi
  have hwired := wired_of_reachable hr
  have hmove := move_of_step hr hstep
  have hnode := MonitorPc.node_of_marked hmarked
  cases ha : a.isMonitor with
  | false =>
      obtain ⟨hm', hsame⟩ := hmove.passToGo_eq hwired hm hnode ha
      exact ⟨⟨⟨m, hm', hmarked⟩, hnone'⟩, hsame.le, nofun⟩
  | true =>
      -- the broadcast would have woken the worker that serves
      have hshrinking : Shrinking n s' := by
        refine (hmove.broadcasts hm hmarked ha).resolve_right fun hawake => ?_
        obtain ⟨w, hmem, hserves⟩ := hserved'
        have hsleeps := (asleepOn_of_serving
          (windowsGuarded_of_reachable (ReachableWhen.step hr trivial hstep)) hmem hserves
          (hnone' w hmem) ht').1
        rw [hawake w hmem] at hsleeps
        cases hsleeps
      have hless : s'.passToGo cfg < s.passToGo cfg := by
        refine (hmove.passes hwired (roomy_of_reachable hr) hm hnode ha).resolve_left ?_
        obtain ⟨m', hm', hmarked'⟩ := hshrinking
        simp [State.passing, hm', MonitorPc.node_of_marked hmarked']
      exact ⟨⟨hshrinking, hnone'⟩, hless.le, fun _ => hless⟩

theorem step_helps {cfg : Config} {n : Nat} {t : Task} {s s' : State} {a : Action}
    (hr : (pool cfg).Reachable s) (hstep : step cfg s a = some s')
    (hrun : s.sh.running = true) (hrun' : s'.sh.running = true)
    (hserved : ∃ w ∈ s.workers, w.servesOn n = true)
    (hserved' : ∃ w ∈ s'.workers, w.servesOn n = true) (ht : t ∈ (s.node n).tasks)
    {i : Helper} (hi : i.helps n s) :
    (crewOf n).toDo t (s'.service cfg n) < (crewOf n).toDo t (s.service cfg n) ∨
      t ∈ taken (s'.node n).hist ∨
      (crewOf n).toDo t (s'.service cfg n) ≤ (crewOf n).toDo t (s.service cfg n) ∧
        i.helps n s' ∧ i.toGo cfg s' ≤ i.toGo cfg s ∧
        (i.party a → i.toGo cfg s' < i.toGo cfg s) := by
  have hadvance := step_advance hr hstep hrun hrun' ht
  cases i with
  | worker j =>
      obtain ⟨w, hw, hactive⟩ := hi
      refine (Crew.Advance.worker hadvance hw hactive).imp_right (Or.imp_right ?_)
      rintro ⟨hle, w', hw', hactive', htoGo, hnearer⟩
      refine ⟨hle, ⟨w', hw', hactive'⟩, ?_, ?_⟩ <;>
        rw [Helper.toGo, Helper.toGo, show s.workers[j]? = some w from hw,
          show s'.workers[j]? = some w' from hw']
      · exact htoGo
      · exact hnearer
  | call k =>
      rcases Crew.Advance.nobody hadvance hi.2.2 with hless | htaken | ⟨hle, hnone'⟩
      · exact Or.inl hless
      · exact Or.inr (Or.inl htaken)
      · rcases step_call_helps hr hstep hrun' ht hserved hi hnone' with hless | ⟨hk, hother⟩
        · exact Or.inl (Crew.toDo_lt hless)
        · exact Or.inr (Or.inr ⟨hle, hk, le_rfl, fun ha => absurd ha hother⟩)
  | monitor =>
      rcases Crew.Advance.nobody hadvance hi.2 with hless | htaken | ⟨hle, hnone'⟩
      · exact Or.inl hless
      · exact Or.inr (Or.inl htaken)
      · rcases Crew.Advance.waits hadvance with ht' | htaken
        · exact Or.inr (Or.inr ⟨hle, step_monitor_helps hr hstep ht' hserved' hi hnone'⟩)
        · exact Or.inr (Or.inl htaken)

/-! ## Out of a worker's hands -/

/-- The worker in slot `j` has a task of node `n` in its hands. -/
def Carries (n : Nat) (t : Task) (j : Nat) (s : State) : Prop :=
  ∃ w, s.workers[j]? = some w ∧ w.native.nodeNum = n ∧
    (w.native.pc = .holding (some t) ∨ w.native.pc = .running t)

/-- `t` has been called to its end on node `n`, or put away there. -/
def Over (n : Nat) (t : Task) (s : State) : Prop :=
  t ∈ finished (s.node n).hist ∨ t ∈ dropped (s.node n).hist

theorem exists_carries {n : Nat} {s : State} {t : Task} (hq : (s.queue n).Lawful)
    (ht : t ∈ taken (s.node n).hist) (hover : ¬Over n t s) : ∃ j, Carries n t j s := by
  rcases hq.inHands_of_taken ht (fun h => hover (Or.inl h)) fun h => hover (Or.inr h) with
    hheld | hbusy
  · obtain ⟨w, hmem, hheld⟩ := WorkQueue.exists_of_inHands hheld
    obtain ⟨j, hj⟩ := List.mem_iff_getElem?.mp hmem
    unfold Worker.heldOn at hheld
    split at hheld
    · next u hpc =>
        split at hheld
        · next hn =>
            obtain rfl : u = t := Option.some.inj hheld
            exact ⟨j, w, hj, hn, Or.inl hpc⟩
        · cases hheld
    · cases hheld
  · obtain ⟨w, hmem, hbusy⟩ := WorkQueue.exists_of_inHands hbusy
    obtain ⟨j, hj⟩ := List.mem_iff_getElem?.mp hmem
    unfold Worker.busyOn at hbusy
    split at hbusy
    · next u hpc =>
        split at hbusy
        · next hn =>
            obtain rfl : u = t := Option.some.inj hbusy
            exact ⟨j, w, hj, hn, Or.inr hpc⟩
        · cases hbusy
    · cases hbusy

theorem Move.hands_kept {cfg : Config} {j : Nat} {s s' : State} {a : Action} {w : Worker}
    (hwired : Wired cfg s) (hw : s.workers[j]? = some w)
    (hfull : w.native.pc.handsFull = true) (hact : a.worker? ≠ some j) (h : Move cfg s a s') :
    ∃ w', s'.workers[j]? = some w' ∧ w'.native = w.native := by
  have hlt := (List.getElem?_eq_some_iff.mp hw).1
  have hset : ∀ {i : Nat} {v v' : Worker}, s.workers[i]? = some v →
      (i = j → v.native.pc.handsFull = true → v'.native = v.native) →
      ∃ w', (s.workers.set i v')[j]? = some w' ∧ w'.native = w.native := by
    intro i v v' hv hnative
    by_cases hij : i = j
    · subst hij
      rw [hw, Option.some.injEq] at hv
      subst hv
      exact ⟨v', List.getElem?_set_self hlt, hnative rfl hfull⟩
    · exact ⟨w, by rw [List.getElem?_set_ne hij, hw], rfl⟩
  have hempty : ∀ {v v' : Worker} {pc : WorkerPc}, v.native.pc = pc → pc.handsFull = false →
      v.native.pc.handsFull = true → v'.native = v.native := by
    intro v v' pc hpc hnot h
    rw [hpc, hnot] at h
    cases h
  have hnotify : ∀ m, ∃ w', (notifyAll m s.workers)[j]? = some w' ∧ w'.native = w.native := by
    intro m
    refine ⟨w, ?_, rfl⟩
    rw [notifyAll, List.getElem?_map, hw, Option.map_some, if_neg]
    intro hasleep
    rw [(Worker.blocked_of_asleepOn hasleep).2] at hfull
    cases hfull
  cases h with
  | notifies _ _ hv hasleep =>
      exact hset hv fun _ => hempty (Worker.blocked_of_asleepOn hasleep).2 rfl
  | workerHop _ hv hhop => exact hset hv fun _ => hempty rfl hhop.hands.1
  | binds hv hpc => exact hset hv fun _ => hempty hpc rfl
  | @loops i _ v _ _ _ _ _ hv =>
      exact hset hv fun hij => absurd (congrArg some hij) hact
  | setsExit _ hv | joined _ hv | marks _ _ hv => exact hset hv fun _ _ => rfl
  | spawns | expandSpawns =>
      refine ⟨w, ?_, rfl⟩
      show (s.workers ++ _)[j]? = some w
      rw [List.getElem?_append_left hlt, hw]
  | notifiesAll | shrinkNotifies => exact hnotify _
  | cleared hc hi =>
      have hended := hwired.ended_of_clear hc hi w (List.mem_of_getElem? hw)
      rw [WorkerPc.handsFull_of_ended hended] at hfull
      cases hfull
  | _ => exact ⟨w, hw, rfl⟩

/-- A step, seen by a task in a worker's hands: it is over, or it is still
there, and nearer to its end if it was the worker who moved. -/
theorem step_carries {cfg : Config} {n j : Nat} {t : Task} {s s' : State} {a : Action}
    (hr : (pool cfg).Reachable s) (hstep : step cfg s a = some s') (hj : Carries n t j s) :
    Over n t s' ∨ Carries n t j s' ∧
      (Helper.worker j).toGo cfg s' ≤ (Helper.worker j).toGo cfg s ∧
      (a.worker? = some j → (Helper.worker j).toGo cfg s' < (Helper.worker j).toGo cfg s) := by
  have hwired := wired_of_reachable hr
  obtain ⟨w, hw, hn, hpc⟩ := hj
  have htoGo : (Helper.worker j).toGo cfg s = w.native.pc.toGo := by
    simp [Helper.toGo, hw]
  by_cases hact : a.worker? = some j
  · have hactive : w.activeOn n = true := by
      rw [Worker.activeOn_eq hn]
      rcases hpc with hpc | hpc <;> rw [hpc, WorkerPc.active, Bool.or_eq_true] <;>
        exact Or.inr rfl
    obtain ⟨throws, nd, nd', sh, pc, fl, hnd, hloop, hnodes, hworkers⟩ :=
      step_of_active hwired hw hactive hact hstep
    have hset := node_set hnd hnodes n
    rw [if_pos hn] at hset
    have hput : s'.workers[j]? = some ({ w with flags := fl }.goto pc) := by
      rw [hworkers]
      exact List.getElem?_set_self (List.getElem?_eq_some_iff.mp hw).1
    unfold Over
    rw [hset]
    generalize w.native.pc = pc₀ at hpc hloop htoGo
    rcases hpc with rfl | rfl
    · cases hloop with
      | starts _ hcall =>
          refine Or.inr ⟨⟨_, hput, hn, Or.inr rfl⟩, ?_, fun _ => ?_⟩ <;>
            rw [htoGo, Helper.toGo, hput]
          · exact Nat.le_succ 1
          · exact Nat.lt_succ_self 1
      | drops _ hcall => exact Or.inl (Or.inr (by simp [WorkEvent.dropped?]))
      | passes hwait | sleeps hwait => rcases hwait with hwait | hwait <;> cases hwait
    · refine Or.inl (Or.inl ?_)
      cases hloop with
      | returns | throws => simp [WorkEvent.finished?]
      | passes hwait | sleeps hwait => rcases hwait with hwait | hwait <;> cases hwait
  · have hfull : w.native.pc.handsFull = true := by
      rcases hpc with hpc | hpc <;> rw [hpc] <;> rfl
    obtain ⟨w', hw', hsame⟩ := (move_of_step hr hstep).hands_kept hwired hw hfull hact
    refine Or.inr ⟨⟨w', hw', by rw [hsame]; exact hn, by rw [hsame]; exact hpc⟩, ?_,
      fun h => absurd h hact⟩
    rw [htoGo, Helper.toGo, hw']
    exact (congrArg (fun native => native.pc.toGo) hsame).le

/-- Worker `j` is inside the call of a task. -/
def InTask (j : Nat) (s : State) : Prop :=
  ∃ w t, s.workers[j]? = some w ∧ w.native.pc = .running t

theorem inTask_kept {cfg : Config} {j : Nat} (s : State) (a : Action) (s' : State)
    (hr : (pool cfg).Reachable s) (hj : InTask j s) (hstep : (pool cfg).step s a = some s')
    (hact : ¬a.worker? = some j) : InTask j s' := by
  obtain ⟨w, t, hw, hpc⟩ := hj
  obtain ⟨w', hw', hsame⟩ := (move_of_step hr hstep).hands_kept (wired_of_reachable hr) hw
    (by rw [hpc]; rfl) hact
  exact ⟨w', t, hw', by rw [hsame]; exact hpc⟩

section Liveness

variable {cfg : Config} {ρ : (pool cfg).Run} {n i : Nat} {t : Task}

/-- Until it is taken, a task stays in the queue of its node while the pool
keeps running. -/
theorem waits_or_taken (hrun : ρ.Always i fun s => s.sh.running = true)
    (ht : t ∈ ((ρ.state i).node n).tasks) :
    ρ.Always i fun s => t ∈ (s.node n).tasks ∨ t ∈ taken (s.node n).hist := by
  intro m hm
  induction hm with
  | refl => exact Or.inl ht
  | @step m hm ih =>
      have hr := ρ.reachable m
      rcases ih with hqueued | htaken
      · exact Crew.Advance.waits (step_advance hr (ρ.next m) (hrun m hm)
          (hrun (m + 1) (Nat.le_succ_of_le hm)) hqueued)
      · exact Or.inr (((hist_of_step hr (ρ.next m) n).filterMap WorkEvent.taken?).subset htaken)

theorem tasksMutexFree_of_queued {s : State} (hr : (pool cfg).Reachable s)
    (ht : t ∈ (s.node n).tasks) (hout : s.passing n = false) : s.tasksMutexFree n = true := by
  refine tasksMutexFree_iff.mpr ⟨fun w hw hn hwindow => ?_, fun m hm hnode => ?_⟩
  · have hempty := (windowsGuarded_of_reachable hr w hw hwindow).empty
    rw [hn] at hempty
    rw [hempty] at ht
    exact absurd ht List.not_mem_nil
  · simp [State.passing, hm, hnode] at hout

/-- In a fair run of a pool that keeps running, a task queued on a node that is
served is taken there. -/
theorem eventually_taken (hworkers : ∀ j, ρ.StronglyFair fun a => a.worker? = some j)
    (hcalls : ∀ k, ρ.Fair fun a => a.call? = some k)
    (hmonitor : ρ.Fair fun a => a.isMonitor = true)
    (hrun : ρ.Always i fun s => s.sh.running = true)
    (hserved : ρ.Always i fun s => ∃ w ∈ s.workers, w.servesOn n = true)
    (ht : t ∈ ((ρ.state i).node n).tasks) :
    ρ.Eventually i fun s => t ∈ taken (s.node n).hist := by
  have hwaits : ∀ m, i ≤ m → t ∉ taken ((ρ.state m).node n).hist →
      t ∈ ((ρ.state m).node n).tasks :=
    fun m hm hnot => (waits_or_taken hrun ht m hm).resolve_right hnot
  have hn : n < cfg.numaNodeCount := by
    rw [← (wired_of_reachable (ρ.reachable i)).nodes]
    exact length_of_node (List.ne_nil_of_mem ht)
  have hhelped : Run.Helped ρ i Helper.party (fun s => t ∈ taken (s.node n).hist)
      (Helper.helps n) (fun s => (crewOf n).toDo t (s.service cfg n)) (Helper.toGo cfg) := by
    constructor
    · exact fun m hm hnot =>
        exists_helper (ρ.reachable m) (hrun m hm) (hwaits m hm hnot) (hserved m hm)
    · intro h i' hi' hstay
      cases h with
      | worker j =>
          refine hworkers j i' fun m hm => ?_
          obtain ⟨l, hl, hout⟩ := eventually_not_passing hn hmonitor m
          have hil : i' ≤ l := Nat.le_trans hm hl
          obtain ⟨hnot, w, hw, hactive⟩ := hstay l hil
          have hqueued := hwaits l (Nat.le_trans hi' hil) hnot
          rw [Worker.activeOn, Bool.and_eq_true, decide_eq_true_eq] at hactive
          obtain ⟨rfl, hactive⟩ := hactive
          exact ⟨l, hl, worker_enabled (ρ.reachable l) hw hn hactive
            (Or.inr (tasksMutexFree_of_queued (ρ.reachable l) hqueued hout))⟩
      | call k =>
          refine hcalls k i' fun m hm => ?_
          obtain ⟨-, ⟨c, hc, howes⟩, -⟩ := hstay m hm
          rw [Call.owesOn, Bool.and_eq_true, decide_eq_true_eq] at howes
          exact notify_enabled hc howes.1
      | monitor =>
          refine hmonitor i' fun m hm => ?_
          obtain ⟨-, ⟨mon, hmon, hmarked⟩, -⟩ := hstay m hm
          exact monitor_enabled_of_node (wired_of_reachable (ρ.reachable m)) hn hmon
            (MonitorPc.node_of_marked hmarked)
    · intro m hm hnot h hh
      have hm' : i ≤ m + 1 := Nat.le_succ_of_le hm
      exact step_helps (ρ.reachable m) (ρ.next m) (hrun m hm) (hrun (m + 1) hm') (hserved m hm)
        (hserved (m + 1) hm') (hwaits m hm hnot) hh
  exact hhelped.eventually

/-- In a fair run a task that a worker of a node has taken is called to its end
or put away, whatever becomes of the pool. -/
theorem eventually_over (hworkers : ∀ j, ρ.Fair fun a => a.worker? = some j)
    (ht : t ∈ taken ((ρ.state i).node n).hist) : ρ.Eventually i (Over n t) := by
  have htaken : ρ.Always i fun s => t ∈ taken (s.node n).hist :=
    Run.always_of_step ht fun s a s' hr ht hstep =>
      ((hist_of_step hr hstep n).filterMap WorkEvent.taken?).subset ht
  have hn : n < cfg.numaNodeCount := by
    rw [← (wired_of_reachable (ρ.reachable i)).nodes]
    refine Nat.lt_of_not_le fun hle => ?_
    rw [State.node, List.getElem?_eq_none hle] at ht
    exact absurd ht List.not_mem_nil
  have hhelped : Run.Helped ρ i (fun j a => a.worker? = some j) (Over n t) (Carries n t)
      (fun _ => 0) fun j => (Helper.worker j).toGo cfg := by
    constructor
    · exact fun m hm hnot =>
        exists_carries (lawful_of_reachable (ρ.reachable m) n) (htaken m hm) hnot
    · refine fun j i' hi' hstay => hworkers j i' fun m hm => ?_
      obtain ⟨-, w, hw, rfl, hpc⟩ := hstay m hm
      have hengaged : w.native.pc.engaged = true := by
        rcases hpc with hpc | hpc <;> rw [hpc] <;> rfl
      refine worker_enabled (ρ.reachable m) hw hn ?_ (Or.inl hengaged)
      rw [WorkerPc.active, hengaged, Bool.or_true]
    · intro m hm hnot j hj
      rcases step_carries (ρ.reachable m) (ρ.next m) hj with hover | ⟨hcarries, hle, hlt⟩
      · exact Or.inr (Or.inl hover)
      · exact Or.inr (Or.inr ⟨le_rfl, hcarries, hle, hlt⟩)
  exact hhelped.eventually

/-- What has been accepted on the node and not discarded is over in the end. -/
theorem eventually_over_of_accepted
    (hworkers : ∀ j, ρ.StronglyFair fun a => a.worker? = some j)
    (hcalls : ∀ k, ρ.Fair fun a => a.call? = some k)
    (hmonitor : ρ.Fair fun a => a.isMonitor = true)
    (hrun : ρ.Always i fun s => s.sh.running = true)
    (hserved : ρ.Always i fun s => ∃ w ∈ s.workers, w.servesOn n = true)
    (hacc : t ∈ accepted ((ρ.state i).node n).hist)
    (hkept : t ∉ discarded ((ρ.state i).node n).hist) : ρ.Eventually i (Over n t) := by
  have htaken : ρ.Eventually i fun s => t ∈ taken (s.node n).hist := by
    rcases (lawful_of_reachable (ρ.reachable i) n).queued_or_taken hacc hkept with
      hqueued | htaken
    · exact eventually_taken hworkers hcalls hmonitor hrun hserved hqueued
    · exact ⟨i, le_rfl, htaken⟩
  obtain ⟨k, hk, htaken⟩ := htaken
  obtain ⟨l, hl, hover⟩ := eventually_over (fun j => (hworkers j).fair) htaken
  exact ⟨l, Nat.le_trans hk hl, hover⟩

/-- Where every called task ends, a worker treated strongly fair outside its
tasks is treated strongly fair. -/
theorem stronglyFair_worker
    (hworkers : ∀ j, ρ.StronglyFairOutside (InTask j) fun a => a.worker? = some j)
    (htasks : ∀ j, ρ.Ends (InTask j)) (j : Nat) :
    ρ.StronglyFair fun a => a.worker? = some j :=
  (hworkers j).stronglyFair inTask_kept (htasks j)

/-- No task starves on a node that is served. Take any run of the pool that is
fair to the calls and the monitor, and strongly fair to the workers outside
their tasks, and in which every called task ends; and a time from which on the
pool keeps running and some worker of the node is always serving. Every task
accepted on the node by any later time and not discarded before is called to
its end there, or put away if it is empty. -/
theorem no_task_starves_on_node
    (hworkers : ∀ j, ρ.StronglyFairOutside (InTask j) fun a => a.worker? = some j)
    (htasks : ∀ j, ρ.Ends (InTask j))
    (hcalls : ∀ k, ρ.Fair fun a => a.call? = some k)
    (hmonitor : ρ.Fair fun a => a.isMonitor = true)
    (hrun : ρ.Always i fun s => s.sh.running = true)
    (hserved : ρ.Always i fun s => ∃ w ∈ s.workers, w.servesOn n = true) {m : Nat}
    (hm : i ≤ m) (hacc : t ∈ accepted ((ρ.state m).node n).hist)
    (hkept : t ∉ discarded ((ρ.state m).node n).hist) :
    ρ.Eventually m fun s =>
      if t.callable then t ∈ finished (s.node n).hist else t ∈ dropped (s.node n).hist := by
  obtain ⟨k, hk, hover⟩ := eventually_over_of_accepted (stronglyFair_worker hworkers htasks)
    hcalls hmonitor (hrun.mono hm) (hserved.mono hm) hacc hkept
  have hr := ρ.reachable k
  exact ⟨k, hk, fate_of_over (lawful_of_reachable hr n) (tested_of_reachable hr n) hover⟩

end Liveness

/-! ## A run that comes to rest -/

/-- When every worker sleeps, every call is back and there is no monitor, no
party can move. -/
theorem not_enabled_of_rest (cfg : Config) {s : State}
    (hworkers : ∀ w ∈ s.workers, w.native.pc = .blocked false)
    (hcalls : ∀ c ∈ s.calls, c.pc = .returned)
    (hmonitor : ∀ m, s.monitorThread = some m → m.pc = .ended) :
    (∀ j, ¬(pool cfg).Enabled (fun a => a.worker? = some j) s) ∧
      (∀ k, ¬(pool cfg).Enabled (fun a => a.call? = some k) s) ∧
      ¬(pool cfg).Enabled (fun a => a.isMonitor = true) s := by
  refine ⟨?_, ?_, ?_⟩
  · rintro j ⟨a, ha, hsome⟩
    cases a with
    | worker i throws =>
        rw [show (pool cfg).step s (.worker i throws) = workerStep cfg s i throws from rfl] at hsome
        cases hw : s.workers[i]? with
        | none => simp [workerStep, hw] at hsome
        | some w =>
            have hpc := hworkers w (List.mem_of_getElem? hw)
            simp only [workerStep, hw, hpc, boundStep] at hsome
            cases hslot : s.slot w.native.index <;>
              cases hnd : s.nodes[w.native.nodeNum]? <;> simp [hslot, hnd, workerLoop] at hsome
    | bind i os =>
        rw [show (pool cfg).step s (.bind i os) = bindStep cfg s i os from rfl] at hsome
        cases hw : s.workers[i]? with
        | none => simp [bindStep, hw] at hsome
        | some w => simp [bindStep, hw, hworkers w (List.mem_of_getElem? hw)] at hsome
    | _ => cases ha
  · rintro k ⟨a, ha, hsome⟩
    cases a with
    | enqueue i pick =>
        rw [show (pool cfg).step s (.enqueue i pick) = enqueueStep cfg s i pick from rfl] at hsome
        cases hc : s.calls[i]? with
        | none => simp [enqueueStep, hc] at hsome
        | some c => simp [enqueueStep, hc, hcalls c (List.mem_of_getElem? hc)] at hsome
    | locate i cpu nodeOfCpu strerror =>
        rw [show (pool cfg).step s (.locate i cpu nodeOfCpu strerror) =
          locateStep cfg s i cpu nodeOfCpu strerror from rfl] at hsome
        cases hc : s.calls[i]? with
        | none => simp [locateStep, hc] at hsome
        | some c => simp [locateStep, hc, hcalls c (List.mem_of_getElem? hc)] at hsome
    | _ => cases ha
  · rintro ⟨a, ha, hsome⟩
    cases a with
    | monitor creates waitFails =>
        rw [show (pool cfg).step s (.monitor creates waitFails) =
          monitorStep cfg s creates waitFails from rfl] at hsome
        cases hm : s.monitorThread with
        | none => simp [monitorStep, hm] at hsome
        | some m => simp [monitorStep, hm, hmonitor m hm] at hsome
    | _ => cases ha

theorem not_inTask_of_asleep {s : State}
    (hworkers : ∀ w ∈ s.workers, w.native.pc = .blocked false) (j : Nat) : ¬InTask j s := by
  rintro ⟨w, t, hw, hpc⟩
  rw [hworkers w (List.mem_of_getElem? hw)] at hpc
  cases hpc

/-- Two nodes with a worker each, and no monitor, since its thread could not be
created. Both workers go to sleep. -/
def bothAsleep : List Action :=
  .start :: controls 10 ++ [.control {} false] ++ entering 0 ++ works 0 8 ++ entering 1 ++
    works 1 8

/-- Then the first is woken for a task. -/
def serving : List Action :=
  bothAsleep ++ .callOn 0 true :: List.replicate 3 (.enqueue 0 none) ++
    [.enqueue 0 (some 0)] ++ works 0 13

/-- The law applied to that run, from the time the task is queued. -/
theorem no_task_starves_on_node_run : ∃ (ρ : (pool (.ofHardware 2 2)).Run) (t : Task),
    t ∈ ((ρ.state 38).node 0).tasks ∧ ρ.Eventually 38 fun s =>
      if t.callable then t ∈ finished (s.node 0).hist else t ∈ dropped (s.node 0).hist := by
  have hend : ((pool (.ofHardware 2 2)).run serving).any (fun s =>
      decide ((∀ w ∈ s.workers, w.native.pc = .blocked false) ∧
        (∀ c ∈ s.calls, c.pc = .returned) ∧ (∀ m ∈ s.monitorThread, m.pc = .ended) ∧
        s.sh.running = true ∧ ∃ w ∈ s.workers, w.servesOn 0 = true)) = true := by
    decide +kernel
  obtain ⟨s, hrun, hs⟩ := (Option.any_eq_true _ _).mp hend
  obtain ⟨hworkers, hcalls, hmonitor, hrunning, hserved⟩ := of_decide_eq_true hs
  obtain ⟨hrestW, hrestC, hrestM⟩ :=
    not_enabled_of_rest (.ofHardware 2 2) hworkers hcalls hmonitor
  let ρ : (pool (.ofHardware 2 2)).Run := .thenIdle (.tick 0) hrun rfl
  have hstate : ρ.state 38 = (pool (.ofHardware 2 2)).follow (pool (.ofHardware 2 2)).init
    serving 38 := rfl
  have hqueued : ⟨0, true⟩ ∈ ((ρ.state 38).node 0).tasks := by
    rw [hstate]
    decide +kernel
  refine ⟨ρ, ⟨0, true⟩, hqueued, no_task_starves_on_node
    (fun j => (Run.stronglyFair_thenIdle (hrestW j)).outside)
    (fun j => Run.ends_thenIdle (not_inTask_of_asleep hworkers j))
    (fun k => Run.fair_thenIdle (hrestC k))
    (Run.fair_thenIdle hrestM) (Run.always_thenIdle (by decide +kernel) hrunning)
    (Run.always_thenIdle (by decide +kernel) hserved) (Nat.le_refl 38) ?_ ?_⟩
  · rw [hstate]
    decide +kernel
  · rw [hstate]
    decide +kernel

end ThreadPool.Numa
