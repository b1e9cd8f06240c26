import ThreadPool.Numa.Draining

/-!
# Dequeues while `running_` is false

The law is that of `NormalThreadPool`, with fewer credits to count: a worker
tests `running_` once more behind its wait, and only the workers that are
past that test when the flag falls make another pop attempt. Dequeues are
counted over the histories of all nodes.
-/

namespace ThreadPool.Numa

open Interleave Machine

/-- How many tasks of the node have been dequeued by threads with a
property. -/
def NodeData.dequeues (p : Nat → Bool) (nd : NodeData) : Nat := takes (p ∘ Agent.self) nd.hist

/-- How many tasks have been dequeued by them, from any node. -/
def State.dequeues (p : Nat → Bool) (s : State) : Nat :=
  (s.nodes.map (NodeData.dequeues p)).sum

/-- The thread has the property and its pop attempt to come. -/
def Worker.credit (p : Nat → Bool) (w : Worker) : Bool :=
  w.native.pc.pending && p w.native.self

theorem Worker.no_credit {w : Worker} (h : w.native.pc.pending = false) (p : Nat → Bool) :
    w.credit p = false := by
  rw [Worker.credit, h, Bool.false_and]

/-! ## Credits are spent and never earned -/

/-- In the loop, while `running_` is false: either nothing is popped and
nobody becomes pending, or one task at most is, at the price of the thread's
being pending. -/
theorem LoopStep.dequeues {sh sh' : Shared} {nd nd' : NodeData} {free throws : Bool}
    {agent : Agent} {pc pc' : WorkerPc} {fl fl' : Flags} (p : Nat → Bool)
    (h : LoopStep sh nd free agent throws pc fl sh' nd' pc' fl')
    (hrun : sh.running = false) :
    (nd'.dequeues p = nd.dequeues p ∧ (pc'.pending = true → pc.pending = true)) ∨
      (nd'.dequeues p = nd.dequeues p + (if p agent.self then 1 else 0) ∧
        pc.pending = true ∧ pc'.pending = false) := by
  cases h with
  | goesOn hrunning | stillRunning hrunning =>
      rw [hrun] at hrunning
      cases hrunning
  | pops t rest hfree htasks => exact Or.inr ⟨takes_concat _ _ _, rfl, rfl⟩
  | starts | drops | returns | throws =>
      exact Or.inl ⟨takes_concat _ _ _, fun hnew => by cases hnew⟩
  | clearIdle => exact Or.inl ⟨rfl, fun _ => rfl⟩
  | _ => exact Or.inl ⟨rfl, fun hnew => by cases hnew⟩

theorem dequeues_set {p : Nat → Bool} {s s' : State} {n : Nat} {nd nd' : NodeData}
    (hnd : s.nodes[n]? = some nd) (hnodes : s'.nodes = s.nodes.set n nd') :
    s'.dequeues p + nd.dequeues p = s.dequeues p + nd'.dequeues p := by
  rw [State.dequeues, State.dequeues, hnodes]
  exact sum_map_set_add hnd

theorem dequeues_set_same {p : Nat → Bool} {s s' : State} {n : Nat} {nd nd' : NodeData}
    (hnd : s.nodes[n]? = some nd) (hnodes : s'.nodes = s.nodes.set n nd')
    (hsame : nd'.dequeues p = nd.dequeues p) : s'.dequeues p = s.dequeues p := by
  have hset := dequeues_set (p := p) hnd hnodes
  omega

/-- While `running_` is false dequeues and credits together do not grow. -/
theorem Move.dequeues {cfg : Config} {s s' : State} {a : Action} (hwired : Wired cfg s)
    (hrun : s.sh.running = false) (h : Move cfg s a s') (p : Nat → Bool) :
    s'.dequeues p + s'.census (Worker.credit p) ≤
      s.dequeues p + s.census (Worker.credit p) := by
  have hkept : s'.dequeues p = s.dequeues p →
      s'.census (Worker.credit p) ≤ s.census (Worker.credit p) →
      s'.dequeues p + s'.census (Worker.credit p) ≤
        s.dequeues p + s.census (Worker.credit p) :=
    fun hdequeues hcensus => Nat.add_le_add hdequeues.le hcensus
  cases h with
  | pushes _ _ hnd =>
      exact hkept (dequeues_set_same hnd rfl (takes_concat _ _ _)) le_rfl
  | notifies _ _ hw hasleep =>
      have hblocked := (Worker.blocked_of_asleepOn hasleep).2
      refine hkept rfl (le_of_eq (census_put_same hw ?_))
      rw [Worker.no_credit rfl, Worker.no_credit (by rw [hblocked]; rfl)]
  | workerHop _ hw hhop =>
      refine hkept rfl (le_of_eq (census_put_same hw ?_))
      rw [Worker.no_credit hhop.not_pending.2, Worker.no_credit hhop.not_pending.1]
  | binds hw hpc =>
      refine hkept rfl (le_of_eq (census_put_same hw ?_))
      rw [Worker.no_credit rfl, Worker.no_credit (by rw [hpc]; rfl)]
  | @loops j throws w sh nd nd' pc fl hw hnd hstep =>
      rcases hstep.dequeues p hrun with ⟨hsame, hnew⟩ | ⟨htakes, hold, hnew⟩
      · refine hkept (dequeues_set_same hnd rfl hsame)
          (countP_set_le hw fun hcredit => ?_)
        rw [Worker.credit, Bool.and_eq_true] at hcredit ⊢
        exact ⟨hnew hcredit.1, hcredit.2⟩
      · have hadd := countP_set_add (p := Worker.credit p)
          (b := { w with flags := fl }.goto pc) hw
        have hspent : tally (Worker.credit p) w = if p w.native.self then 1 else 0 := by
          rw [tally, Worker.credit, hold, Bool.true_and]
        have hnone : tally (Worker.credit p) ({ w with flags := fl }.goto pc) = 0 :=
          tally_neg (Worker.no_credit hnew p)
        have hset : (State.put { s with sh := sh, nodes := s.nodes.set w.native.nodeNum nd' } j
            ({ w with flags := fl }.goto pc)).dequeues p + nd.dequeues p =
            s.dequeues p + nd'.dequeues p := dequeues_set hnd rfl
        rw [hspent, hnone] at hadd
        dsimp only at htakes
        simp only [State.census, State.put] at hset ⊢
        omega
  | spawns hc | pushesSlot hc =>
      rw [hwired.running_at hc rfl] at hrun
      cases hrun
  | notifiesAll | shrinkNotifies =>
      refine hkept rfl (le_of_eq (countP_notifyAll (fun w hasleep => ?_) s.workers))
      have hblocked := (Worker.blocked_of_asleepOn hasleep).2
      rw [Worker.no_credit rfl, Worker.no_credit (by rw [hblocked]; rfl)]
  | setsExit _ hw | joined _ hw | marks _ _ hw =>
      exact hkept rfl (le_of_eq (census_put_same hw rfl))
  | cleared => exact hkept rfl (Nat.zero_le _)
  | clearTasks _ hnd =>
      exact hkept (dequeues_set_same hnd rfl (takes_discard _ _ _)) le_rfl
  | expandSpawns hm hpc | expandPushes hm hpc =>
      rw [(hwired.of_monitor hm (by rw [hpc]; simp)).1] at hrun
      cases hrun
  | _ => exact hkept rfl le_rfl

/-! ## Each thread has one credit at most -/

/-- The `pthread_self` of each thread. -/
def State.selves (s : State) : List Nat := s.workers.map fun w => w.native.self

/-- No two threads share a `pthread_self`, and none has one that is yet to be
given out. -/
structure Handed (s : State) : Prop where
  distinct : s.selves.Nodup
  given : ∀ h ∈ s.selves, h < s.nextHandle

theorem Handed.frame {s s' : State} (hs : Handed s) (hselves : s'.selves = s.selves)
    (hnext : s.nextHandle ≤ s'.nextHandle) : Handed s' where
  distinct := by
    rw [hselves]
    exact hs.distinct
  given := by
    rw [hselves]
    exact fun h hmem => (hs.given h hmem).trans_le hnext

theorem Handed.grow {s s' : State} (hs : Handed s)
    (hselves : s'.selves = s.selves ++ [s.nextHandle])
    (hnext : s'.nextHandle = s.nextHandle + 1) : Handed s' := by
  constructor
  · rw [hselves]
    refine hs.distinct.append (List.nodup_singleton _) ?_
    rw [List.disjoint_singleton]
    exact fun hmem => Nat.lt_irrefl _ (hs.given _ hmem)
  · intro h hmem
    rw [hselves, List.mem_append, List.mem_singleton] at hmem
    rw [hnext]
    rcases hmem with hold | rfl
    · exact Nat.lt_succ_of_lt (hs.given h hold)
    · exact Nat.lt_succ_self _

theorem selves_set {s s' : State} {i : Nat} {w v : Worker} (hw : s.workers[i]? = some w)
    (hworkers : s'.workers = s.workers.set i v) (hself : v.native.self = w.native.self) :
    s'.selves = s.selves := by
  rw [State.selves, hworkers]
  exact map_set_same hw hself

theorem selves_notifyAll {s s' : State} {n : Nat}
    (hworkers : s'.workers = notifyAll n s.workers) : s'.selves = s.selves := by
  rw [State.selves, hworkers, notifyAll, List.map_map]
  refine List.map_congr_left fun w _ => ?_
  simp only [Function.comp_apply]
  split <;> rfl

theorem WorkerHop.self_eq {cfg : Config} {s : State} {w w' : Worker}
    (h : WorkerHop cfg s w w') : w'.native.self = w.native.self := by
  cases h <;> rfl

theorem selves_spawn {s s' : State} {n index handle : Nat}
    (hworkers : s'.workers = s.workers ++ [freshWorker n index handle]) :
    s'.selves = s.selves ++ [handle] := by
  rw [State.selves, hworkers, List.map_append]
  rfl

theorem Move.handed {cfg : Config} {s s' : State} {a : Action} (hs : Handed s)
    (h : Move cfg s a s') : Handed s' := by
  cases h with
  | notifies _ _ hw | binds hw | loops hw | setsExit _ hw | joined _ hw | marks _ _ hw =>
      exact hs.frame (selves_set hw rfl rfl) le_rfl
  | workerHop _ hw hhop => exact hs.frame (selves_set hw rfl hhop.self_eq) le_rfl
  | notifiesAll | shrinkNotifies => exact hs.frame (selves_notifyAll rfl) le_rfl
  | spawns | expandSpawns => exact hs.grow (selves_spawn rfl) rfl
  | starts => exact hs.frame rfl (Nat.le_succ _)
  | cleared => exact ⟨List.nodup_nil, fun _ hmem => by cases hmem⟩
  | _ => exact hs.frame rfl le_rfl

theorem handed_of_reachable {cfg : Config} {s : State} (hr : (pool cfg).Reachable s) :
    Handed s :=
  hr.invariant ⟨List.nodup_nil, fun _ hmem => by cases hmem⟩ fun _ _ _ hr hs hstep =>
    (move_of_step hr hstep).handed hs

/-! ## From the store of `running_ = false` to the next `Start` -/

/-- The runs in which `running_` is false. -/
def Halted (s : State) (_ : Action) : Prop := s.sh.running = false

instance (s : State) (a : Action) : Decidable (Halted s a) :=
  inferInstanceAs (Decidable (_ = _))

theorem dequeues_le_credit {cfg : Config} {s s' : State} (hr : (pool cfg).Reachable s)
    (hrun : (pool cfg).LeadsWhen Halted s s') (p : Nat → Bool) :
    s'.dequeues p ≤ s.dequeues p + s.census (Worker.credit p) := by
  have hle := hrun.le (f := fun s => s.dequeues p + s.census (Worker.credit p)) hr
    fun _ _ _ hr hhalted hstep =>
      (move_of_step hr hstep).dequeues (wired_of_reachable hr) hhalted p
  omega

theorem Wired.length_eq {cfg : Config} {s : State} (hs : Wired cfg s)
    (hrun : s.sh.running = false) : s.workers.length = s.pushed := by
  have hquiet : s.sh.running = false ∨ s.control.unmonitored = true := Or.inl hrun
  have hlen := hs.pushed
  have hpushing : s.control.pushing = false := by
    cases hpushing : s.control.pushing with
    | false => rfl
    | true =>
        obtain ⟨n, i, hc⟩ : ∃ n i, s.control = .start (.push n i) := by
          unfold Control.pushing at hpushing
          split at hpushing
          · next n i hc => exact ⟨n, i, hc⟩
          · cases hpushing
        rw [hs.running_at hc rfl] at hrun
        cases hrun
  rw [hs.pending_of_control hquiet, hpushing] at hlen
  exact hlen

/-- While `running_` is false a thread dequeues one task at most, all threads
together no more than there are slots, and nobody any once `Stop` has come to
clear the queues. -/
theorem dequeues_halted {cfg : Config} {s s' : State} (hr : (pool cfg).Reachable s)
    (hhalted : s.sh.running = false) (hrun : (pool cfg).LeadsWhen Halted s s') :
    (∀ self, s'.dequeues (· = self) ≤ s.dequeues (· = self) + 1) ∧
      s'.dequeues (fun _ => true) ≤ s.dequeues (fun _ => true) + s.pushed ∧
      ∀ p n, s.control = .stop p (.tasks n) →
        s'.dequeues (fun _ => true) ≤ s.dequeues (fun _ => true) := by
  refine ⟨fun self => ?_, ?_, fun p n hc => ?_⟩
  · have hone : s.census (Worker.credit (· = self)) ≤ 1 :=
      countP_le_one (handed_of_reachable hr).distinct (fun w => w.native.pc.pending) self
    exact (dequeues_le_credit hr hrun _).trans (Nat.add_le_add_left hone _)
  · have hall : s.census (Worker.credit fun _ => true) ≤ s.workers.length :=
      List.countP_le_length
    rw [(wired_of_reachable hr).length_eq hhalted] at hall
    exact (dequeues_le_credit hr hrun _).trans (Nat.add_le_add_left hall _)
  · have hle := dequeues_le_credit hr hrun fun _ => true
    rw [State.census, (wired_of_reachable hr).emptied (by rw [hc]; rfl)] at hle
    exact hle

end ThreadPool.Numa
