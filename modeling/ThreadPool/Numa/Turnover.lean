import ThreadPool.Lib.Fair
import ThreadPool.Numa.MonitorPass
import ThreadPool.Numa.Wakeup

/-!
# How many workers a node can lose

Nobody takes from `thread_count`, so `ExpandThreadsOnNode` can make only so
many workers on a node before it finds the count at the maximum; and a mark is
not taken back while the pool runs. So the monitor sends home only so many
workers of a node, however many passes it makes. What is left to mark is the
variant: the workers that are not marked, those that `Start` has yet to make,
and the room below the maximum (`State.markable`).

And a pass over a node ends. The monitor holds the node's `tasks_mutex` from
its beginning to its end, and it waits for nobody in between: the only other
mutex it takes is `global_mutex_`, which `Stop` does not hold while the pool
runs.
-/

namespace ThreadPool.Numa

open Interleave Machine

/-! ## Room for more workers -/

/-- A worker of node `n`, in its loop or not, that is not marked. -/
def Worker.unmarkedOn (n : Nat) (w : Worker) : Bool := w.numaNode = n && !w.flags.shouldExit

/-- How many workers `Start` has yet to make on a node. -/
def Control.toSpawn (cfg : Config) : Control → Nat → Nat
  | .start (.spawn n i), m =>
      if m < n then 0 else if m = n then cfg.minThreadsPerNode - i
      else cfg.minThreadsPerNode
  | .start (.push n i), m =>
      if m < n then 0 else if m = n then cfg.minThreadsPerNode - (i + 1)
      else cfg.minThreadsPerNode
  | _, _ => 0

/-- Has made a worker for the node and is about to push it. -/
def MonitorPc.pushesOn (n : Nat) : MonitorPc → Bool
  | .expandPush m _ _ => m = n
  | _ => false

/-- How far `thread_count` is from its maximum, the worker counted that is
about to be pushed. -/
def State.room (cfg : Config) (n : Nat) (s : State) : Nat :=
  cfg.maxThreadsPerNode - ((s.node n).threadCount +
    if s.monitorThread.any fun m => m.pc.pushesOn n then 1 else 0)

/-- How many workers of the node there are left to mark, at most. -/
def State.markable (cfg : Config) (n : Nat) (s : State) : Nat :=
  s.census (Worker.unmarkedOn n) + s.control.toSpawn cfg n + s.room cfg n

/-- What `ExpandThreadsOnNode` is going to make fits under the maximum. -/
structure Roomy (cfg : Config) (s : State) : Prop where
  start : ∀ m n need k, s.monitorThread = some m → m.pc = .expandStart n need k →
    (s.node n).threadCount + (need - k) ≤ cfg.maxThreadsPerNode
  push : ∀ m n need k, s.monitorThread = some m → m.pc = .expandPush n need k →
    k < need ∧ (s.node n).threadCount + (need - k) ≤ cfg.maxThreadsPerNode

theorem Roomy.of_monitor {cfg : Config} {s : State}
    (h : ∀ m, s.monitorThread = some m → m.pc.pushing = false ∧
      ∀ n need k, m.pc ≠ .expandStart n need k) : Roomy cfg s where
  start := fun m n need k hm hpc => absurd hpc ((h m hm).2 n need k)
  push := fun m n need k hm hpc => by
    have hpushing := (h m hm).1
    rw [hpc] at hpushing
    cases hpushing

theorem Roomy.frame {cfg : Config} {s s' : State} (hs : Roomy cfg s)
    (hmonitor : s'.monitorThread = s.monitorThread)
    (hcount : ∀ n, (s'.node n).threadCount = (s.node n).threadCount) : Roomy cfg s' where
  start := fun m n need k hm hpc => by
    rw [hcount]
    exact hs.start m n need k (hmonitor ▸ hm) hpc
  push := fun m n need k hm hpc => by
    rw [hcount]
    exact hs.push m n need k (hmonitor ▸ hm) hpc

theorem MonitorHop.roomy {cfg : Config} {s : State} {pc pc' : MonitorPc}
    (h : MonitorHop cfg s pc pc') :
    pc'.pushing = false ∧ ∀ n need k, pc' = .expandStart n need k →
      (s.node n).threadCount + (need - k) ≤ cfg.maxThreadsPerNode := by
  cases h with
  | @expand n need nd hnd hneed =>
      refine ⟨rfl, fun n' need' k hpc => ?_⟩
      cases hpc
      rw [node_eq hnd]
      exact (expandNeed_pos (expandNeed_some hneed).2.1 hneed).2.2
  | _ => exact ⟨rfl, fun n need k hpc => by cases hpc⟩

theorem Move.roomy {cfg : Config} {s s' : State} {a : Action} (hwired : Wired cfg s)
    (hsited : Sited cfg s) (hs : Roomy cfg s) (h : Move cfg s a s') : Roomy cfg s' := by
  cases h with
  | pushes _ _ hnd | clearTasks _ hnd =>
      exact hs.frame rfl fun n => node_threadCount_set hnd rfl (by rfl) n
  | loops _ hnd hstep =>
      exact hs.frame rfl fun n => node_threadCount_set hnd rfl hstep.threadCount_eq n
  | pushesSlot hc =>
      refine Roomy.of_monitor fun m hm => ?_
      rw [hwired.unmonitored (Or.inr (by rw [hc]; rfl)) m hm]
      exact ⟨rfl, fun n need k hpc => by cases hpc⟩
  | startUnmonitored | starts =>
      refine Roomy.of_monitor fun m hm => ?_
      rw [← Option.some.inj hm]
      exact ⟨rfl, fun n need k hpc => by cases hpc⟩
  | joinsMonitor => exact Roomy.of_monitor fun m hm => by cases hm
  | @monitorHop _ _ m pc hm hhop =>
      obtain ⟨hpushing, hstart⟩ := hhop.roomy
      constructor
      · intro m' n need k hm' hpc
        rw [← Option.some.inj hm'] at hpc
        exact hstart n need k hpc
      · intro m' n need k hm' hpc
        rw [← Option.some.inj hm'] at hpc
        rw [show pc = .expandPush n need k from hpc] at hpushing
        cases hpushing
  | @expandSpawns _ _ m n need k hm hpc hk =>
      constructor <;> intro m' n' need' k' hm' hpc' <;> obtain rfl := Option.some.inj hm' <;>
        cases hpc'
      exact ⟨hk, hs.start m n need k hm hpc⟩
  | @expandPushes _ _ m n need k hm hpc =>
      constructor <;> intro m' n' need' k' hm' hpc' <;> obtain rfl := Option.some.inj hm' <;>
        cases hpc'
      obtain ⟨hk, hfits⟩ := hs.push m n need k hm hpc
      have hn := hsited.expand m n need k hm (Or.inr hpc)
      have hadd := pushWorker_node (s := s) (n := n) (m := n) (by rw [hwired.nodes]; exact hn)
      rw [if_pos rfl] at hadd
      show ((pushWorker s n).node n).threadCount + (need - (k + 1)) ≤ _
      omega
  | marks | shrinkNotifies | monitorEnds =>
      refine Roomy.of_monitor fun m hm => ?_
      rw [← Option.some.inj hm]
      exact ⟨rfl, fun n need k hpc => by cases hpc⟩
  | _ => exact hs.frame rfl fun _ => rfl

theorem roomy_of_reachable {cfg : Config} {s : State} (hr : (pool cfg).Reachable s) :
    Roomy cfg s :=
  hr.invariant (Roomy.of_monitor fun m hm => by cases hm) fun _ _ _ hr hs hstep =>
    (move_of_step hr hstep).roomy (wired_of_reachable hr) (sited_of_reachable hr) hs

/-! ## The variant -/

theorem LoopStep.shouldExit_eq {sh sh' : Shared} {nd nd' : NodeData} {free throws : Bool}
    {agent : Agent} {pc pc' : WorkerPc} {fl fl' : Flags}
    (h : LoopStep sh nd free agent throws pc fl sh' nd' pc' fl') :
    fl'.shouldExit = fl.shouldExit := by
  cases h <;> rfl

theorem WorkerHop.unmarkedOn_eq {cfg : Config} {s : State} {w w' : Worker} (n : Nat)
    (h : WorkerHop cfg s w w') : w'.unmarkedOn n = w.unmarkedOn n := by
  cases h <;> rfl

theorem room_le {cfg : Config} {n : Nat} {s s' : State}
    (hcount : (s.node n).threadCount ≤ (s'.node n).threadCount)
    (hpush : (s.monitorThread.any fun m => m.pc.pushesOn n) = true →
      (s'.monitorThread.any fun m => m.pc.pushesOn n) = true) :
    s'.room cfg n ≤ s.room cfg n := by
  refine Nat.sub_le_sub_left (Nat.add_le_add hcount ?_) _
  by_cases h : (s.monitorThread.any fun m => m.pc.pushesOn n) = true
  · rw [if_pos h, if_pos (hpush h)]
  · rw [if_neg h]
    exact Nat.zero_le _

theorem room_of_monitor {cfg : Config} {n : Nat} {s : State} {m : Monitor}
    (hm : s.monitorThread = some m) :
    s.room cfg n = cfg.maxThreadsPerNode -
      ((s.node n).threadCount + if m.pc.pushesOn n then 1 else 0) := by
  rw [State.room, hm]
  rfl

theorem markable_le {cfg : Config} {n : Nat} {s s' : State}
    (hcensus : s'.census (Worker.unmarkedOn n) = s.census (Worker.unmarkedOn n))
    (hspawn : s'.control.toSpawn cfg n ≤ s.control.toSpawn cfg n)
    (hroom : s'.room cfg n ≤ s.room cfg n) : s'.markable cfg n ≤ s.markable cfg n := by
  unfold State.markable
  omega

theorem Hop.toSpawn_le {cfg : Config} {s : State} {c c' : Control} (h : Hop cfg s c c')
    (n : Nat) : c'.toSpawn cfg n ≤ c.toSpawn cfg n := by
  cases h with
  | nodeDone =>
      simp only [Control.toSpawn]
      split_ifs <;> omega
  | _ => exact Nat.zero_le _

theorem MonitorHop.not_pushing {cfg : Config} {s : State} {pc pc' : MonitorPc}
    (h : MonitorHop cfg s pc pc') (n : Nat) : pc.pushesOn n = false := by
  cases h <;> rfl

theorem markable_spawn {cfg : Config} {n m i : Nat} {s : State}
    (hc : s.control = .start (.spawn m i)) (hi : i < cfg.minThreadsPerNode) :
    ((s.spawn m).goto (.start (.push m i))).markable cfg n ≤ s.markable cfg n := by
  have hcensus : ((s.spawn m).goto (.start (.push m i))).census (Worker.unmarkedOn n) =
      s.census (Worker.unmarkedOn n) + if m = n then 1 else 0 := by
    show (s.workers ++ _).countP _ = s.workers.countP _ + _
    rw [List.countP_append, List.countP_singleton]
    simp [freshWorker, Worker.unmarkedOn]
  have hroom : ((s.spawn m).goto (.start (.push m i))).room cfg n = s.room cfg n := rfl
  have hspawn : ((s.spawn m).goto (.start (.push m i))).control.toSpawn cfg n +
      (if m = n then 1 else 0) ≤ s.control.toSpawn cfg n := by
    rw [hc]
    simp only [State.goto, Control.toSpawn]
    split_ifs <;> omega
  unfold State.markable
  omega

theorem markable_expand {cfg : Config} {n m need k : Nat} {s : State} {mon : Monitor}
    (hroomy : Roomy cfg s) (hm : s.monitorThread = some mon)
    (hpc : mon.pc = .expandStart m need k) (hk : k < need) :
    ((s.spawn m).monitorGoto mon (.expandPush m need k)).markable cfg n ≤
      s.markable cfg n := by
  have hfits := hroomy.start mon m need k hm hpc
  have hcensus : ((s.spawn m).monitorGoto mon (.expandPush m need k)).census
      (Worker.unmarkedOn n) = s.census (Worker.unmarkedOn n) + if m = n then 1 else 0 := by
    show (s.workers ++ _).countP _ = s.workers.countP _ + _
    rw [List.countP_append, List.countP_singleton]
    simp [freshWorker, Worker.unmarkedOn]
  have hroom : ((s.spawn m).monitorGoto mon (.expandPush m need k)).room cfg n =
      cfg.maxThreadsPerNode - ((s.node n).threadCount + if m = n then 1 else 0) := by
    rw [room_of_monitor rfl]
    simp only [MonitorPc.pushesOn, decide_eq_true_eq]
    rfl
  have hroom' : s.room cfg n = cfg.maxThreadsPerNode - (s.node n).threadCount := by
    rw [room_of_monitor hm, hpc]
    rfl
  have hspawn : ((s.spawn m).monitorGoto mon (.expandPush m need k)).control.toSpawn cfg n =
      s.control.toSpawn cfg n := rfl
  unfold State.markable
  rw [hcensus, hroom, hroom', hspawn]
  split
  · next hmn =>
      subst hmn
      omega
  · omega

theorem markable_push {cfg : Config} {n m need k : Nat} {s : State} {mon : Monitor}
    (hn : n < s.nodes.length) (hm : s.monitorThread = some mon)
    (hpc : mon.pc = .expandPush m need k) :
    ((pushWorker s m).monitorGoto mon (.expandStart m need (k + 1))).markable cfg n =
      s.markable cfg n := by
  have hroom : ((pushWorker s m).monitorGoto mon (.expandStart m need (k + 1))).room cfg n =
      s.room cfg n := by
    have hadd : ((pushWorker s m).node n).threadCount =
        (s.node n).threadCount + if n = m then 1 else 0 := pushWorker_node hn
    rw [room_of_monitor hm, room_of_monitor rfl, hpc]
    show _ - (((pushWorker s m).node n).threadCount + 0) = _
    rw [hadd]
    simp [MonitorPc.pushesOn, @eq_comm _ n m]
  show (s.census _ + s.control.toSpawn cfg n + _ : Nat) = _
  rw [hroom]
  rfl

theorem markable_mark {cfg : Config} {n m need now removed i : Nat} {s : State} {w : Worker}
    {mon : Monitor} {pc : MonitorPc} (hm : s.monitorThread = some mon)
    (hpc : mon.pc = .shrinkMark m need now removed i) (hw : s.workers[i]? = some w)
    (hpc' : pc.pushesOn n = false) :
    ((s.put i { w with flags.shouldExit := true }).monitorGoto mon pc).markable cfg n +
      tally (Worker.unmarkedOn n) w = s.markable cfg n := by
  have hcensus : (s.workers.set i { w with flags.shouldExit := true }).countP
        (Worker.unmarkedOn n) + tally (Worker.unmarkedOn n) w =
      s.workers.countP (Worker.unmarkedOn n) := by
    have hadd := countP_set_add (p := Worker.unmarkedOn n)
      (b := { w with flags.shouldExit := true }) hw
    have hmarked : tally (Worker.unmarkedOn n) { w with flags.shouldExit := true } = 0 :=
      tally_neg (by simp [Worker.unmarkedOn])
    omega
  have hroom : ((s.put i { w with flags.shouldExit := true }).monitorGoto mon pc).room cfg n =
      s.room cfg n := by
    rw [room_of_monitor hm, room_of_monitor rfl, hpc]
    show _ - (_ + if pc.pushesOn n then 1 else 0) = _
    rw [hpc']
    rfl
  show (s.workers.set i _).countP _ + s.control.toSpawn cfg n + _ + _ = _
  rw [hroom]
  unfold State.markable State.census
  omega

/-- While the pool runs there is never more to mark than there was. -/
theorem Move.markable_le {cfg : Config} {s s' : State} {a : Action} {n : Nat}
    (hwired : Wired cfg s) (hroomy : Roomy cfg s) (hn : n < cfg.numaNodeCount)
    (hrun : s.sh.running = true) (hrun' : s'.sh.running = true) (h : Move cfg s a s') :
    s'.markable cfg n ≤ s.markable cfg n := by
  have hcount := h.threadCount_le hwired hn
  have hended : s.control.unmonitored = true →
      (s.monitorThread.any fun m => m.pc.pushesOn n) = false := fun hquiet => by
    cases hm : s.monitorThread with
    | none => rfl
    | some m =>
        rw [Option.any_some, hwired.unmonitored (Or.inr hquiet) m hm]
        rfl
  cases h with
  | pushes => exact Numa.markable_le rfl le_rfl (room_le hcount id)
  | notifies _ _ hw | binds hw =>
      exact Numa.markable_le (census_put_same hw rfl) le_rfl le_rfl
  | workerHop _ hw hhop =>
      exact Numa.markable_le (census_put_same hw (hhop.unmarkedOn_eq n)) le_rfl le_rfl
  | @loops j throws w sh nd nd' pc fl hw hnd hstep =>
      have hsame : ({ w with flags := fl }.goto pc).unmarkedOn n = w.unmarkedOn n := by
        show (_ && !fl.shouldExit) = _
        rw [hstep.shouldExit_eq]
        rfl
      exact Numa.markable_le (countP_set_same hw hsame) le_rfl (room_le hcount id)
  | callsStart | callsStop | storeMonitoring | clearMonitoring =>
      exact Numa.markable_le rfl (Nat.zero_le _) le_rfl
  | hop hhop => exact Numa.markable_le rfl (hhop.toSpawn_le n) le_rfl
  | spawns hc _ hi => exact markable_spawn hc hi
  | pushesSlot hc =>
      refine Numa.markable_le rfl ?_ (room_le hcount id)
      rw [hc]
      simp only [State.goto, Control.toSpawn]
      split_ifs <;> omega
  | startUnmonitored _ hc | starts hc =>
      refine Numa.markable_le rfl (Nat.zero_le _) (room_le le_rfl fun h => ?_)
      rw [hended (by rw [hc]; rfl)] at h
      cases h
  | joinsMonitor _ hm hover =>
      refine Numa.markable_le rfl (Nat.zero_le _) (room_le le_rfl fun h => ?_)
      rw [hm, Option.any_some, hover] at h
      cases h
  | monitorHop hm hhop =>
      refine Numa.markable_le rfl le_rfl (room_le le_rfl fun h => ?_)
      rw [hm, Option.any_some, hhop.not_pushing n] at h
      cases h
  | expandSpawns hm hpc hk => exact markable_expand hroomy hm hpc hk
  | expandPushes hm hpc =>
      exact (markable_push (by rw [hwired.nodes]; exact hn) hm hpc).le
  | @marks _ _ m k need now removed i w hm hpc hw =>
      have hcost : ((s.put i { w with flags.shouldExit := true }).monitorGoto m
            (.shrinkMark k need now (removed + 1) (i + 1))).markable cfg n +
          tally (Worker.unmarkedOn n) w = s.markable cfg n := markable_mark hm hpc hw rfl
      exact Nat.le_of_add_right_le hcost.le
  | shrinkNotifies hm hpc =>
      refine Numa.markable_le (countP_notifyAll (fun w _ => rfl) _) le_rfl
        (room_le le_rfl fun h => ?_)
      rw [hm, Option.any_some, hpc] at h
      cases h
  | monitorEnds hm hpc =>
      refine Numa.markable_le rfl le_rfl (room_le le_rfl fun h => ?_)
      rw [hm, Option.any_some, hpc] at h
      cases h
  | clearRunning => cases hrun'
  | storeRunning hc | notifiesAll hc | setsExit hc | cleared hc | resetCount hc
  | clearTasks hc =>
      rw [hwired.running_at hc rfl] at hrun
      cases hrun
  | joined hc =>
      rw [hwired.running_at_join hc] at hrun
      cases hrun
  | _ => exact le_rfl

/-! ## A pass over a node ends -/

/-- How many steps of the monitor the pass takes at most. -/
def MonitorPc.passToGo (cfg : Config) (pushed : Nat) : MonitorPc → Nat
  | .nodeTest _ => 2 * cfg.maxThreadsPerNode + pushed + 6
  | .expandLoad _ => 2 * cfg.maxThreadsPerNode + 2
  | .expandStart _ need k => 2 * (need - k) + 1
  | .expandPush _ need k => 2 * (need - k)
  | .shrinkLoad _ => pushed + 5
  | .shrinkNow _ _ => pushed + 4
  | .shrinkLock _ _ _ => pushed + 3
  | .shrinkMark _ _ _ _ i => (pushed - i) + 2
  | .shrinkNotify _ => 1
  | _ => 0

def State.passToGo (cfg : Config) (s : State) : Nat :=
  s.monitorThread.elim 0 fun m => m.pc.passToGo cfg s.pushed

theorem passToGo_of_monitor {cfg : Config} {s : State} {m : Monitor}
    (hm : s.monitorThread = some m) : s.passToGo cfg = m.pc.passToGo cfg s.pushed := by
  rw [State.passToGo, hm]
  rfl

theorem lt_pushed_of_slot {s : State} {i : Nat} {w : Worker} (h : s.slot i = some w) :
    i < s.pushed := by
  unfold State.slot at h
  split at h
  · assumption
  · cases h

theorem MonitorHop.passes {cfg : Config} {s : State} {pc pc' : MonitorPc} {n : Nat}
    (hn : pc.node? = some n) (h : MonitorHop cfg s pc pc') :
    pc'.node? = none ∨ pc'.passToGo cfg s.pushed < pc.passToGo cfg s.pushed := by
  cases h with
  | mayExpand | mayShrink | shrink | readClock | lock | marksDone =>
      refine Or.inr ?_
      simp only [MonitorPc.passToGo]
      omega
  | expand _ hneed =>
      have hfits := (expandNeed_pos (expandNeed_some hneed).2.1 hneed).2.2
      refine Or.inr ?_
      simp only [MonitorPc.passToGo]
      omega
  | passOver hw =>
      have hlt := lt_pushed_of_slot hw
      refine Or.inr ?_
      simp only [MonitorPc.passToGo]
      omega
  | nodeLock => cases hn
  | _ => exact Or.inl rfl

theorem Move.passes {cfg : Config} {s s' : State} {a : Action} {n : Nat} {m : Monitor}
    (hwired : Wired cfg s) (hroomy : Roomy cfg s) (hm : s.monitorThread = some m)
    (hn : m.pc.node? = some n) (ha : a.isMonitor = true) (h : Move cfg s a s') :
    s'.passing n = false ∨ s'.passToGo cfg < s.passToGo cfg := by
  have hsame : ∀ {m' : Monitor}, s.monitorThread = some m' → m' = m := by
    intro m' hm'
    rw [hm, Option.some.injEq] at hm'
    exact hm'.symm
  rw [passToGo_of_monitor hm]
  cases h with
  | monitorHop hm' hhop =>
      rw [hsame hm'] at hhop
      rw [hsame hm']
      rcases hhop.passes hn with hout | hless
      · exact Or.inl (passing_monitorGoto hout)
      · exact Or.inr hless
  | expandSpawns hm' hpc hk =>
      rw [hsame hm'] at hpc
      rw [hpc]
      exact Or.inr (Nat.lt_succ_self _)
  | @expandPushes _ _ m' k need i hm' hpc =>
      have hk := (hroomy.push m' k need i hm' hpc).1
      rw [hsame hm'] at hpc
      rw [hpc]
      refine Or.inr ?_
      show 2 * (need - (i + 1)) + 1 < 2 * (need - i)
      omega
  | @marks _ _ m' k need now removed i w hm' hpc hw =>
      have hslot := hwired.slot_of_monitor hm' (by rw [hpc]; simp) (by rw [hpc]; rfl) i
      have hlt := lt_pushed_of_slot (hslot.trans hw)
      rw [hsame hm'] at hpc
      rw [hpc]
      refine Or.inr ?_
      show s.pushed - (i + 1) + 2 < s.pushed - i + 2
      omega
  | shrinkNotifies => exact Or.inl (passing_monitorGoto rfl)
  | monitorEnds hm' hpc =>
      rw [← hsame hm', hpc] at hn
      cases hn
  | callHop ha' | workerHop ha' =>
      cases a with
      | monitor => cases ha'
      | _ => cases ha
  | _ => cases ha

theorem Move.passToGo_eq {cfg : Config} {s s' : State} {a : Action} {n : Nat} {m : Monitor}
    (hwired : Wired cfg s) (hm : s.monitorThread = some m) (hn : m.pc.node? = some n)
    (ha : a.isMonitor = false) (h : Move cfg s a s') :
    s'.monitorThread = some m ∧ s'.passToGo cfg = s.passToGo cfg := by
  have halive : m.pc ≠ .ended := by
    intro hpc
    rw [hpc] at hn
    cases hn
  obtain ⟨hrun, hmonitored⟩ := hwired.of_monitor hm halive
  cases h with
  | pushesSlot hc | startUnmonitored _ hc | starts hc =>
      rw [hc] at hmonitored
      cases hmonitored
  | joinsMonitor _ hm' hover =>
      rw [hm, Option.some.injEq] at hm'
      rw [hm'] at halive
      exact absurd hover halive
  | cleared hc =>
      rw [hwired.running_at hc rfl] at hrun
      cases hrun
  | monitorHop | expandSpawns | expandPushes | marks | shrinkNotifies | monitorEnds => cases ha
  | _ => exact ⟨hm, rfl⟩

/-- A pass that has marked a worker goes on, until its broadcast has left no
sleeper on the node. -/
theorem Move.broadcasts {cfg : Config} {s s' : State} {a : Action} {n : Nat} {m : Monitor}
    (hm : s.monitorThread = some m) (hmarked : m.pc.marked n = true)
    (ha : a.isMonitor = true) (h : Move cfg s a s') :
    Shrinking n s' ∨ ∀ w ∈ s'.workers, w.asleepOn n = false := by
  have hsame : ∀ {m' : Monitor}, s.monitorThread = some m' → m' = m := by
    intro m' hm'
    rw [hm, Option.some.injEq] at hm'
    exact hm'.symm
  cases h with
  | monitorHop hm' hhop =>
      rw [hsame hm'] at hhop
      exact Or.inl ⟨_, rfl, hhop.marked hmarked⟩
  | marks hm' hpc =>
      rw [hsame hm'] at hpc
      rw [hpc, MonitorPc.marked, Bool.and_eq_true] at hmarked
      exact Or.inl ⟨_, rfl, by simp only [MonitorPc.marked, hmarked.1]; simp⟩
  | shrinkNotifies hm' hpc =>
      rw [hsame hm'] at hpc
      rw [hpc, MonitorPc.marked, decide_eq_true_eq] at hmarked
      rw [hmarked]
      refine Or.inr fun w' hw' => ?_
      obtain ⟨w, -, ⟨hawake, rfl⟩ | ⟨-, rfl⟩⟩ := mem_notifyAll hw'
      · exact hawake
      · simp [Worker.asleepOn, Worker.goto]
  | expandSpawns hm' hpc | expandPushes hm' hpc | monitorEnds hm' hpc =>
      rw [hsame hm'] at hpc
      rw [hpc] at hmarked
      cases hmarked
  | callHop ha' | workerHop ha' =>
      cases a with
      | monitor => cases ha'
      | _ => cases ha
  | _ => cases ha

theorem monitor_enabled_of_node {cfg : Config} {s : State} {n : Nat} {m : Monitor}
    (hwired : Wired cfg s) (hlt : n < cfg.numaNodeCount) (hm : s.monitorThread = some m)
    (hn : m.pc.node? = some n) : (pool cfg).Enabled (fun a => a.isMonitor = true) s := by
  have halive : m.pc ≠ .ended := by
    intro hpc
    rw [hpc] at hn
    cases hn
  have hclosing := (hwired.not_closing (hwired.of_monitor hm halive).1).1
  have hnode : s.nodes[n]? = some (s.node n) := node_of_lt (by rw [hwired.nodes]; exact hlt)
  refine ⟨.monitor {} false, rfl, ?_⟩
  show (monitorStep cfg s {} false).isSome = true
  cases hpc : m.pc with
  | nodeTest k | expandLoad k | shrinkLoad k =>
      rw [hpc, MonitorPc.node?, Option.some.injEq] at hn
      subst hn
      simp only [monitorStep, hm, hpc, hnode, Option.isSome_some]
  | expandStart k need i =>
      by_cases hi : i < need
      · cases hstart : startWorker s {} k <;>
          simp only [monitorStep, hm, hpc, if_pos hi, hstart, Option.isSome_some]
      · simp only [monitorStep, hm, hpc, if_neg hi, Option.isSome_some]
  | expandPush k need i | shrinkLock k need now =>
      have hfree : s.globalMutexFree = true := by
        simp [State.globalMutexFree, hclosing, hm, hpc, MonitorPc.holdsGlobalMutex]
      simp only [monitorStep, hm, hpc, if_pos hfree, Option.isSome_some]
  | shrinkMark k need now removed i =>
      cases hslot : s.slot i with
      | none => simp [monitorStep, hm, hpc, hslot]
      | some w =>
          simp only [monitorStep, hm, hpc, hslot]
          split_ifs <;> rfl
  | shrinkNow | shrinkNotify => simp only [monitorStep, hm, hpc, Option.isSome_some]
  | _ =>
      rw [hpc] at hn
      cases hn

/-- Where the monitor is treated fairly, no pass holds a node's mutex for
ever. -/
theorem eventually_not_passing {cfg : Config} {ρ : (pool cfg).Run} {n : Nat}
    (hn : n < cfg.numaNodeCount) (hmonitor : ρ.Fair fun a => a.isMonitor = true) (m : Nat) :
    ρ.Eventually m fun s => s.passing n = false := by
  have hpassing : ∀ {s : State}, s.passing n ≠ false →
      ∃ mon, s.monitorThread = some mon ∧ mon.pc.node? = some n := by
    intro s hs
    obtain ⟨mon, hmon, hnode⟩ := (Option.any_eq_true _ _).mp (Bool.eq_true_of_not_eq_false hs)
    exact ⟨mon, hmon, of_decide_eq_true hnode⟩
  have hhelped : Run.Helped ρ m (fun (_ : Unit) a => a.isMonitor = true)
      (fun s => s.passing n = false) (fun _ s => s.passing n ≠ false) (fun _ => 0)
      (fun _ s => s.passToGo cfg) := by
    constructor
    · exact fun _ _ hnot => ⟨(), hnot⟩
    · refine fun _ k _ hstay => hmonitor k fun l hl => ?_
      obtain ⟨mon, hmon, hnode⟩ := hpassing (hstay l hl).1
      exact monitor_enabled_of_node (wired_of_reachable (ρ.reachable l)) hn hmon hnode
    · intro k _ hnot _ _
      have hr := ρ.reachable k
      have hwired := wired_of_reachable hr
      have hmove := move_of_step hr (ρ.next k)
      obtain ⟨mon, hmon, hnode⟩ := hpassing hnot
      cases ha : (ρ.act k).isMonitor with
      | true =>
          rcases hmove.passes hwired (roomy_of_reachable hr) hmon hnode ha with hout | hless
          · exact Or.inr (Or.inl hout)
          · by_cases hover : (ρ.state (k + 1)).passing n = false
            · exact Or.inr (Or.inl hover)
            · exact Or.inr (Or.inr ⟨le_rfl, hover, hless.le, fun _ => hless⟩)
      | false =>
          obtain ⟨hmon', hsame⟩ := hmove.passToGo_eq hwired hmon hnode ha
          refine Or.inr (Or.inr ⟨le_rfl, ?_, hsame.le, fun h => by cases h⟩)
          simp [State.passing, hmon', hnode]
  exact hhelped.eventually

end ThreadPool.Numa
