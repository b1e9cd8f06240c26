import ThreadPool.Numa.Restart

/-!
# When a pass of the monitor makes workers

The monitor looks at a node while it holds the node's `tasks_mutex`, so the
queue it has found too long stays as it is until the pass is over, and nobody
else touches `thread_count`. What `ExpandThreadsOnNode` makes of the finding
is a matter of arithmetic: it doubles the count, and twice zero is zero. A
node has no worker exactly where there are more nodes than hardware threads,
because the minimum per node is then zero and `Start` makes none.
-/

namespace ThreadPool.Numa

open Interleave Machine

/-! ## The pass over a node -/

/-- The monitor is in its pass over node `n`, and holds its `tasks_mutex`. -/
def State.passing (n : Nat) (s : State) : Bool :=
  s.monitorThread.any fun m => m.pc.node? = some n

/-- A step of the monitor thread. -/
def Action.isMonitor : Action → Bool
  | .monitor _ _ => true
  | _ => false

/-- Whether the first creation of a pass succeeds, at the step that makes it. -/
def State.firstCreation (s : State) : Action → Option Bool
  | .monitor creates _ =>
      s.monitorThread.bind fun m =>
        match m.pc with
        | .expandStart _ _ 0 => some (0 < creates.avail)
        | _ => none
  | _ => none

/-- The steps of a pass over node `n`, by whichever party, whose first
creation, if there is one, succeeds or not as `made` says. -/
def Passes (n : Nat) (made : Bool) (s : State) (a : Action) : Prop :=
  s.passing n = true ∧ ∀ b ∈ s.firstCreation a, b = made

instance (n : Nat) (made : Bool) (s : State) (a : Action) : Decidable (Passes n made s a) :=
  inferInstanceAs (Decidable (_ ∧ _))

theorem eq_of_firstCreation {s : State} {made b : Bool}
    (hb : b ∈ s.firstCreation (.monitor { avail := if made then 1 else 0 } false)) : b = made := by
  obtain ⟨m, -, hb⟩ := Option.bind_eq_some_iff.mp hb
  split at hb
  · obtain rfl := Option.some.inj hb
    cases made <;> rfl
  · cases hb

theorem LoopStep.tasks_of_locked {sh sh' : Shared} {nd nd' : NodeData} {throws : Bool}
    {agent : Agent} {pc pc' : WorkerPc} {fl fl' : Flags}
    (h : LoopStep sh nd false agent throws pc fl sh' nd' pc' fl') :
    nd'.tasks = nd.tasks := by
  cases h with
  | pops _ _ hfree => cases hfree
  | _ => rfl

theorem not_tasksMutexFree {s : State} {m : Monitor} {n : Nat}
    (hm : s.monitorThread = some m) (hn : m.pc.node? = some n) :
    s.tasksMutexFree n = false := by
  simp [State.tasksMutexFree, hm, hn]

/-- In the pass only the monitor moves the monitor, the node's queue and its
count. -/
theorem Move.node_kept {cfg : Config} {s s' : State} {a : Action} {m : Monitor} {n : Nat}
    (hwired : Wired cfg s) (hm : s.monitorThread = some m) (hn : m.pc.node? = some n)
    (h : Move cfg s a s') :
    a.isMonitor = true ∨ (s'.monitorThread = some m ∧
      (s'.node n).tasks = (s.node n).tasks ∧
      (s'.node n).threadCount = (s.node n).threadCount) := by
  have halive : m.pc ≠ .ended := by
    rintro hpc
    rw [hpc] at hn
    cases hn
  obtain ⟨hrun, hmonitored⟩ := hwired.of_monitor hm halive
  have hlocked := not_tasksMutexFree hm hn
  cases h with
  | @pushes k pick c nd hc hpc hnd hfree =>
      have hne : c.nodeNum.toNat ≠ n := fun heq => by
        rw [heq, hlocked] at hfree
        cases hfree
      refine Or.inr ⟨hm, ?_⟩
      rw [node_set hnd rfl, if_neg hne]
      exact ⟨rfl, rfl⟩
  | @loops j throws w sh nd nd' pc fl hw hnd hstep =>
      refine Or.inr ⟨hm, ?_⟩
      have hset := node_set (t := State.put
        { s with sh := sh, nodes := s.nodes.set w.native.nodeNum nd' } j
        ({ w with flags := fl }.goto pc)) hnd rfl n
      by_cases heq : w.native.nodeNum = n
      · rw [heq, hlocked] at hstep
        rw [if_pos heq] at hset
        rw [hset, ← heq, node_eq hnd]
        exact ⟨hstep.tasks_of_locked, hstep.threadCount_eq⟩
      · rw [hset, if_neg heq]
        exact ⟨rfl, rfl⟩
  | pushesSlot hc | startUnmonitored _ hc | starts hc =>
      rw [hc] at hmonitored
      cases hmonitored
  | joinsMonitor _ hm' hended =>
      rw [hm, Option.some.injEq] at hm'
      subst hm'
      exact absurd hended halive
  | @clearTasks _ _ p k nd hc hnd hfree =>
      have hne : k ≠ n := fun heq => by
        rw [heq, hlocked] at hfree
        cases hfree
      refine Or.inr ⟨hm, ?_⟩
      rw [node_set hnd rfl, if_neg hne]
      exact ⟨rfl, rfl⟩
  | monitorHop | expandSpawns | expandPushes | marks | shrinkNotifies | monitorEnds =>
      exact Or.inl rfl
  | _ => exact Or.inr ⟨hm, rfl, rfl⟩

/-! ## Its stages -/

/-- What `ExpandThreadsOnNode` makes of a count below the maximum. -/
theorem expandNeed_eq {cfg : Config} {c : Nat} (hroom : c < cfg.maxThreadsPerNode) :
    expandNeed cfg c =
      if c = 0 then none else some (min c (cfg.maxThreadsPerNode - c)) := by
  unfold expandNeed expandFactor
  rw [if_neg (by omega)]
  dsimp only
  by_cases hzero : c = 0
  · rw [if_pos hzero, if_pos (by split <;> omega)]
  · rw [if_neg hzero]
    split_ifs <;> first | omega | (congr 1; omega)

/-- Where a pass that found the queue too long stands, by the `thread_count`
it found: the monitor's program point, the length of the queue, and
`thread_count` now. -/
inductive Stage (cfg : Config) (n c : Nat) (made : Bool) : MonitorPc → Nat → Nat → Prop where
  | test {load : Nat} (hload : c * expandThreshold < load) :
      Stage cfg n c made (.nodeTest n) load c
  | load {load : Nat} : Stage cfg n c made (.expandLoad n) load c
  | start {load need k : Nat} (hneed : expandNeed cfg c = some need) (hk : k ≤ need)
      (hmade : 0 < k → made = true) :
      Stage cfg n c made (.expandStart n need k) load (c + k)
  | push {load need k : Nat} (hneed : expandNeed cfg c = some need) (hk : k < need)
      (hmade : made = true) : Stage cfg n c made (.expandPush n need k) load (c + k)

/-- The pass has left the node with more workers, and with no more than the
maximum. -/
def Grown (cfg : Config) (n c : Nat) (s : State) : Prop :=
  c < (s.node n).threadCount ∧ (s.node n).threadCount ≤ cfg.maxThreadsPerNode

/-- A pass that found the queue too long, up to its end, with what is to be
said of it then. -/
def Expanding (cfg : Config) (n c : Nat) (made : Bool) (s : State) : Prop :=
  (∃ m, s.monitorThread = some m ∧
    Stage cfg n c made m.pc (s.node n).tasks.length (s.node n).threadCount) ∨
  (s.passing n = false ∧ (Grown cfg n c s ↔ 0 < c ∧ made = true))

theorem Stage.node? {cfg : Config} {n c load count : Nat} {made : Bool} {pc : MonitorPc}
    (h : Stage cfg n c made pc load count) : pc.node? = some n := by
  cases h <;> rfl

theorem Expanding.stage {cfg : Config} {n c : Nat} {made : Bool} {s : State}
    (hs : Expanding cfg n c made s) (hpass : s.passing n = true) :
    ∃ m, s.monitorThread = some m ∧
      Stage cfg n c made m.pc (s.node n).tasks.length (s.node n).threadCount := by
  rcases hs with hs | ⟨hout, -⟩
  · exact hs
  · rw [hpass] at hout
    cases hout

/-- How many steps of the monitor the pass still takes, at most. -/
def MonitorPc.rank (cfg : Config) : MonitorPc → Nat
  | .nodeTest _ => 2 * cfg.maxThreadsPerNode + 3
  | .expandLoad _ => 2 * cfg.maxThreadsPerNode + 2
  | .expandStart _ need k => 2 * (need - k) + 1
  | .expandPush _ need k => 2 * (need - k)
  | _ => 0

def State.rank (cfg : Config) (s : State) : Nat :=
  match s.monitorThread with
  | some m => m.pc.rank cfg
  | none => 0

theorem node_of_lt {s : State} {n : Nat} (hn : n < s.nodes.length) :
    s.nodes[n]? = some (s.node n) := by
  rw [State.node, List.getElem?_eq_getElem hn]
  rfl

theorem expandNeed_pos {cfg : Config} {c need : Nat} (hroom : c < cfg.maxThreadsPerNode)
    (hneed : expandNeed cfg c = some need) :
    0 < c ∧ 0 < need ∧ c + need ≤ cfg.maxThreadsPerNode := by
  rw [expandNeed_eq hroom] at hneed
  split at hneed
  · cases hneed
  · rw [Option.some.injEq] at hneed
    omega

theorem eq_zero_of_expandNeed {cfg : Config} {c : Nat} (hroom : c < cfg.maxThreadsPerNode)
    (hneed : expandNeed cfg c = none) : c = 0 := by
  rw [expandNeed_eq hroom] at hneed
  split at hneed
  · assumption
  · cases hneed

section

variable {cfg : Config} {s : State} {m : Monitor} {n c k : Nat} {made : Bool} {pc : MonitorPc}

theorem passing_monitorGoto (hout : pc.node? = none) :
    (s.monitorGoto m pc).passing n = false := by
  simp [State.passing, State.monitorGoto, hout]

theorem Expanding.stays
    (hstage : Stage cfg n c made pc (s.node n).tasks.length (s.node n).threadCount) :
    Expanding cfg n c made (s.monitorGoto m pc) :=
  Or.inl ⟨_, rfl, hstage⟩

theorem Expanding.leaves (hout : pc.node? = none) (hcount : (s.node n).threadCount = c)
    (hno : c = 0 ∨ made = false) : Expanding cfg n c made (s.monitorGoto m pc) := by
  have hsame : ((s.monitorGoto m pc).node n).threadCount = c := hcount
  refine Or.inr ⟨passing_monitorGoto hout, ?_⟩
  rw [Grown, hsame]
  constructor
  · exact fun h => absurd h.1 (Nat.lt_irrefl c)
  · rintro ⟨hpos, hmade⟩
    rcases hno with rfl | hno
    · exact absurd hpos (Nat.lt_irrefl 0)
    · cases hno.symm.trans hmade

theorem Expanding.leaves_grown (hout : pc.node? = none)
    (hcount : (s.node n).threadCount = c + k) (hk : 0 < k)
    (hmax : c + k ≤ cfg.maxThreadsPerNode) (hpos : 0 < c) (hmade : made = true) :
    Expanding cfg n c made (s.monitorGoto m pc) := by
  have hsame : ((s.monitorGoto m pc).node n).threadCount = c + k := hcount
  refine Or.inr ⟨passing_monitorGoto hout, ?_⟩
  rw [Grown, hsame]
  constructor
  · exact fun _ => ⟨hpos, hmade⟩
  · exact fun _ => ⟨Nat.lt_add_of_pos_right hk, hmax⟩

end

theorem Stage.moves {cfg : Config} {s : State} {m : Monitor} {n c : Nat} {made : Bool}
    (hwired : Wired cfg s) (hn : n < cfg.numaNodeCount) (hroom : c < cfg.maxThreadsPerNode)
    (hm : s.monitorThread = some m)
    (hstage : Stage cfg n c made m.pc (s.node n).tasks.length (s.node n).threadCount)
    (creates : Creates) (waitFails : Bool)
    (hok : ∀ b ∈ s.firstCreation (.monitor creates waitFails), b = made) :
    ∃ s', step cfg s (.monitor creates waitFails) = some s' ∧ Expanding cfg n c made s' ∧
      s'.rank cfg < s.rank cfg := by
  have hnodes : n < s.nodes.length := by
    rw [hwired.nodes]
    exact hn
  have hnd := node_of_lt hnodes
  have hrank : s.rank cfg = m.pc.rank cfg := by rw [State.rank, hm]
  rw [hrank]
  generalize hpc : m.pc = pc at hstage
  generalize hload : (s.node n).tasks.length = load at hstage
  generalize hcount : (s.node n).threadCount = count at hstage
  cases hstage with
  | test hlong =>
      refine ⟨s.monitorGoto m (.expandLoad n), ?_, .stays ?_, Nat.lt_succ_self _⟩
      · simp only [step, monitorStep, hm, hpc, hnd, hcount, hload, gt_iff_lt, if_pos hlong]
      · rw [hcount]
        exact .load
  | load =>
      cases hneed : expandNeed cfg c with
      | none =>
          have hzero := eq_zero_of_expandNeed hroom hneed
          refine ⟨s.monitorGoto m (.nodeLock (n + 1)), ?_,
            .leaves rfl hcount (Or.inl hzero), Nat.succ_pos _⟩
          simp only [step, monitorStep, hm, hpc, hnd, hcount, hneed]
      | some need =>
          have hmax := (expandNeed_pos hroom hneed).2.2
          refine ⟨s.monitorGoto m (.expandStart n need 0), ?_, .stays ?_, ?_⟩
          · simp only [step, monitorStep, hm, hpc, hnd, hcount, hneed]
          · rw [hcount]
            exact .start hneed (Nat.zero_le _) fun h => absurd h (Nat.lt_irrefl 0)
          · simp only [State.rank, State.monitorGoto, MonitorPc.rank]
            omega
  | @start _ need k hneed hk hmade =>
      obtain ⟨hpos, hsome, hmax⟩ := expandNeed_pos hroom hneed
      by_cases hlt : k < need
      · by_cases havail : creates.avail = 0
        · refine ⟨s.monitorGoto m .entry, ?_, ?_, Nat.succ_pos _⟩
          · simp only [step, monitorStep, hm, hpc, if_pos hlt, startWorker_eq, if_pos havail]
          · cases k with
            | zero =>
                have hfails : false = made := hok false (by
                  simp [State.firstCreation, hm, hpc, havail])
                exact .leaves rfl hcount (Or.inr hfails.symm)
            | succ k =>
                have hk := Nat.succ_pos k
                exact .leaves_grown rfl hcount hk (by omega) hpos (hmade hk)
        · refine ⟨(s.spawn n).monitorGoto m (.expandPush n need k), ?_, .stays ?_,
            Nat.lt_succ_self _⟩
          · simp only [step, monitorStep, hm, hpc, if_pos hlt, startWorker_eq, if_neg havail]
          · have hsame : ((s.spawn n).node n).threadCount = c + k := hcount
            rw [hsame]
            refine .push hneed hlt ?_
            cases k with
            | zero =>
                exact (hok true (by
                  simp [State.firstCreation, hm, hpc, Nat.pos_of_ne_zero havail])).symm
            | succ k => exact hmade (Nat.succ_pos k)
      · have hk : 0 < k := by omega
        refine ⟨s.monitorGoto m (.nodeLock (n + 1)), ?_,
          .leaves_grown rfl hcount hk (by omega) hpos (hmade hk), Nat.succ_pos _⟩
        simp only [step, monitorStep, hm, hpc, if_neg hlt]
  | @push _ need k hneed hk hmade =>
      have hrun := (hwired.of_monitor hm (by rw [hpc]; simp)).1
      have hfree : s.globalMutexFree = true := by
        simp [State.globalMutexFree, (hwired.not_closing hrun).1, hm, hpc,
          MonitorPc.holdsGlobalMutex]
      have hadd : ((pushWorker s n).node n).threadCount = c + (k + 1) := by
        rw [← Nat.add_assoc, ← hcount]
        exact (pushWorker_node hnodes).trans (by rw [if_pos rfl])
      refine ⟨(pushWorker s n).monitorGoto m (.expandStart n need (k + 1)), ?_,
        .stays ?_, ?_⟩
      · simp only [step, monitorStep, hm, hpc, if_pos hfree]
      · rw [hadd]
        exact .start hneed hk fun _ => hmade
      · simp only [State.rank, State.monitorGoto, MonitorPc.rank]
        omega

theorem Stage.frame {cfg : Config} {s s' : State} {m : Monitor} {n c : Nat} {made : Bool}
    (hm : s'.monitorThread = some m)
    (hstage : Stage cfg n c made m.pc (s.node n).tasks.length (s.node n).threadCount)
    (htasks : (s'.node n).tasks = (s.node n).tasks)
    (hcount : (s'.node n).threadCount = (s.node n).threadCount) :
    Expanding cfg n c made s' := by
  rw [← htasks, ← hcount] at hstage
  exact Or.inl ⟨m, hm, hstage⟩

/-- Whoever moves, the pass stands where it stood or is one step further. -/
theorem Expanding.step {cfg : Config} {s s' : State} {a : Action} {n c : Nat} {made : Bool}
    (hr : (pool cfg).Reachable s) (hn : n < cfg.numaNodeCount)
    (hroom : c < cfg.maxThreadsPerNode) (hs : Expanding cfg n c made s)
    (hok : Passes n made s a) (hstep : (pool cfg).step s a = some s') :
    Expanding cfg n c made s' := by
  have hwired := wired_of_reachable hr
  obtain ⟨m, hm, hstage⟩ := hs.stage hok.1
  rcases (move_of_step hr hstep).node_kept hwired hm hstage.node? with
    hmonitor | ⟨hm', htasks, hcount⟩
  · obtain ⟨creates, waitFails, rfl⟩ : ∃ creates waitFails, a = .monitor creates waitFails := by
      cases a <;> first | exact ⟨_, _, rfl⟩ | cases hmonitor
    obtain ⟨t, ht, hexpanding, -⟩ := hstage.moves hwired hn hroom hm creates waitFails hok.2
    obtain rfl : t = s' := Option.some.inj (ht.symm.trans hstep)
    exact hexpanding
  · exact hstage.frame hm' htasks hcount

theorem expanding_of_leads {cfg : Config} {s s' : State} {n c : Nat} {made : Bool}
    (hr : (pool cfg).Reachable s) (hn : n < cfg.numaNodeCount)
    (hroom : c < cfg.maxThreadsPerNode) (hs : Expanding cfg n c made s)
    (hrun : (pool cfg).LeadsWhen (Passes n made) s s') : Expanding cfg n c made s' :=
  hrun.stable hr hs fun _ _ _ hr hs hok hstep => hs.step hr hn hroom hok hstep

/-- The monitor can always finish its pass, with no help. -/
theorem Expanding.finishes {cfg : Config} {s : State} {n c : Nat} {made : Bool}
    (hr : (pool cfg).Reachable s) (hn : n < cfg.numaNodeCount)
    (hroom : c < cfg.maxThreadsPerNode) (hs : Expanding cfg n c made s) :
    ∃ s', (pool cfg).LeadsWhen (fun s a => Passes n made s a ∧ a.isMonitor = true) s s' ∧
      s'.passing n = false := by
  cases hpass : s.passing n with
  | false => exact ⟨s, .refl, hpass⟩
  | true =>
      let creates : Creates := { avail := if made then 1 else 0 }
      refine exists_leads_of_rank
        (P := fun t => (pool cfg).Reachable t ∧ Expanding cfg n c made t ∧ t.passing n = true)
        (State.rank cfg) ?_ ⟨hr, hs, hpass⟩
      rintro t ⟨hr, hs, hpass⟩
      obtain ⟨m, hm, hstage⟩ := hs.stage hpass
      have hok : ∀ b ∈ t.firstCreation (.monitor creates false), b = made :=
        fun _ => eq_of_firstCreation
      obtain ⟨t', hstep, hexpanding, hlt⟩ :=
        hstage.moves (wired_of_reachable hr) hn hroom hm creates false hok
      refine ⟨.monitor creates false, t', ⟨⟨hpass, hok⟩, rfl⟩, hstep, ?_⟩
      cases hpass' : t'.passing n with
      | false => exact Or.inl rfl
      | true =>
          exact Or.inr
            ⟨⟨hr.step (a := .monitor creates false) trivial hstep, hexpanding, rfl⟩, hlt⟩

/-! ## Which nodes have workers -/

/-- What `Start` has put on a node is there, and all of it is once the monitor
is alive. -/
structure Manned (cfg : Config) (s : State) : Prop where
  placed : ∀ n < cfg.numaNodeCount, s.control.placed cfg n ≤ (s.node n).threadCount
  watched : ∀ m, s.monitorThread = some m → m.pc ≠ .ended →
    ∀ n < cfg.numaNodeCount, cfg.minThreadsPerNode ≤ (s.node n).threadCount

theorem Hop.placed_le {cfg : Config} {s : State} {c c' : Control} (h : Hop cfg s c c')
    {n : Nat} (hn : n < cfg.numaNodeCount) : c'.placed cfg n ≤ c.placed cfg n := by
  cases h with
  | nodeDone | nodesDone =>
      simp only [Control.placed]
      split_ifs <;> omega
  | _ => exact Nat.zero_le _

theorem Move.manned {cfg : Config} {s s' : State} {a : Action} (hwired : Wired cfg s)
    (hs : Manned cfg s) (h : Move cfg s a s') : Manned cfg s' := by
  have hle : ∀ n < cfg.numaNodeCount, (s.node n).threadCount ≤ (s'.node n).threadCount :=
    fun n hn => h.threadCount_le hwired hn
  refine ⟨fun n hn => ?_, fun m hm halive n hn => ?_⟩
  · have hplaced := hs.placed n hn
    cases h with
    | hop hhop => exact (hhop.placed_le hn).trans hplaced
    | spawns hc | storeMonitoring hc =>
        rw [hc] at hplaced
        exact hplaced
    | storeRunning =>
        refine Nat.le_trans ?_ (Nat.zero_le _)
        simp only [Control.placed]
        split_ifs <;> omega
    | @pushesSlot _ _ k i hc =>
        rw [hc] at hplaced
        have hadd := pushWorker_node (s := s) (n := k) (by rw [hwired.nodes]; exact hn)
        refine Nat.le_trans ?_ hadd.ge
        simp only [Control.placed, State.goto] at hplaced ⊢
        split_ifs at hplaced ⊢ <;> omega
    | joined hold => rcases hold with ⟨-, rfl⟩ | ⟨-, rfl⟩ <;> exact Nat.zero_le _
    | _ => first | exact hplaced.trans (hle n hn) | exact Nat.zero_le _
  · refine Nat.le_trans ?_ (hle n hn)
    cases h with
    | startUnmonitored =>
        obtain rfl := Option.some.inj hm
        exact absurd rfl halive
    | starts hc =>
        have hplaced := hs.placed n hn
        rw [hc] at hplaced
        exact hplaced
    | joinsMonitor => cases hm
    | monitorHop hm' hhop => exact hs.watched _ hm' hhop.same.1 n hn
    | expandSpawns hm' hpc | expandPushes hm' hpc | marks hm' hpc | shrinkNotifies hm' hpc
    | monitorEnds hm' hpc => exact hs.watched _ hm' (by rw [hpc]; simp) n hn
    | _ => exact hs.watched m hm halive n hn

theorem manned_of_reachable {cfg : Config} {s : State} (hr : (pool cfg).Reachable s) :
    Manned cfg s :=
  hr.invariant ⟨fun _ _ => Nat.zero_le _, fun _ h => by cases h⟩ fun _ _ _ hr hs hstep =>
    (move_of_step hr hstep).manned (wired_of_reachable hr) hs

/-- While the monitor lives a node has workers exactly where the minimum is not
zero. -/
theorem threadCount_pos_iff {cfg : Config} {s : State} {m : Monitor} {n : Nat}
    (hr : (pool cfg).Reachable s) (hm : s.monitorThread = some m) (halive : m.pc ≠ .ended)
    (hn : n < cfg.numaNodeCount) :
    0 < (s.node n).threadCount ↔ 0 < cfg.minThreadsPerNode := by
  constructor
  · intro hpos
    refine Nat.pos_of_ne_zero fun hmin => ?_
    have hnd := node_of_lt (s := s) (n := n) (by rw [(wired_of_reachable hr).nodes]; exact hn)
    have hzero := (barren_of_reachable hr hmin).counts _ (List.mem_of_getElem? hnd)
    omega
  · exact fun hmin => hmin.trans_le ((manned_of_reachable hr).watched m hm halive n hn)

/-! ## The law -/

/-- A pass that finds a queue too long and room for workers leaves the node
with more of them exactly where there are no more nodes than hardware threads
and the first creation succeeds; the pass can always be brought to its end by
the monitor alone; and where there are more nodes than hardware threads no
node ever has a worker. -/
theorem node_expansion_progresses {h numaNodeCount n : Nat} {s : State} {m : Monitor}
    {nd : NodeData} (hr : (pool (.ofHardware h numaNodeCount)).Reachable s)
    (hm : s.monitorThread = some m) (hpc : m.pc = .nodeTest n) (hnd : s.nodes[n]? = some nd)
    (hload : nd.threadCount * expandThreshold < nd.tasks.length)
    (hroom : nd.threadCount < (Config.ofHardware h numaNodeCount).maxThreadsPerNode)
    (made : Bool) :
    (∀ s', (pool (.ofHardware h numaNodeCount)).LeadsWhen (Passes n made) s s' →
      s'.passing n = false →
      (Grown (.ofHardware h numaNodeCount) n nd.threadCount s' ↔
        numaNodeCount ≤ h ∧ made = true)) ∧
    (∀ t, (pool (.ofHardware h numaNodeCount)).LeadsWhen (Passes n made) s t →
      ∃ s', (pool (.ofHardware h numaNodeCount)).LeadsWhen
        (fun s a => Passes n made s a ∧ a.isMonitor = true) t s' ∧ s'.passing n = false) ∧
    (h < numaNodeCount → ∀ t, (pool (.ofHardware h numaNodeCount)).Reachable t →
      ∀ nd ∈ t.nodes, nd.threadCount = 0) := by
  have hn : n < numaNodeCount := by
    rw [← show s.nodes.length = numaNodeCount from (wired_of_reachable hr).nodes]
    exact (List.getElem?_eq_some_iff.mp hnd).1
  have hmin : 0 < (Config.ofHardware h numaNodeCount).minThreadsPerNode ↔
      numaNodeCount ≤ h := Nat.div_pos_iff.trans (and_iff_right (by omega))
  have hworkers : 0 < nd.threadCount ↔ numaNodeCount ≤ h := by
    rw [← hmin, ← threadCount_pos_iff hr hm (by rw [hpc]; simp) hn, node_eq hnd]
  have hstart : Expanding (.ofHardware h numaNodeCount) n nd.threadCount made s := by
    refine Or.inl ⟨m, hm, ?_⟩
    rw [hpc, node_eq hnd]
    exact .test hload
  refine ⟨fun s' hrun hout => ?_, fun t hrun => ?_, fun hfew t ht nd hnd => ?_⟩
  · rcases expanding_of_leads hr hn hroom hstart hrun with ⟨m', hm', hstage⟩ | ⟨-, hgrown⟩
    · rw [State.passing, hm', Option.any_some, hstage.node?] at hout
      simp at hout
    · rw [hgrown, hworkers]
  · have ht : (pool (.ofHardware h numaNodeCount)).Reachable t :=
      hrun.stable hr hr fun _ _ _ hr _ _ hstep => ReachableWhen.step hr trivial hstep
    exact (expanding_of_leads hr hn hroom hstart hrun).finishes ht hn hroom
  · have hzero : (Config.ofHardware h numaNodeCount).minThreadsPerNode = 0 := by omega
    exact (barren_of_reachable ht hzero).counts nd hnd

/-- One hardware thread and two nodes: the first node has a task and no worker,
and may have one. Twice none is none. -/
theorem node_stays_empty :
    ¬∀ (h numaNodeCount n : Nat) (s : State) (m : Monitor) (nd : NodeData),
      1 ≤ h → 1 ≤ numaNodeCount → (pool (.ofHardware h numaNodeCount)).Reachable s →
      s.monitorThread = some m → m.pc = .nodeTest n → s.nodes[n]? = some nd →
      nd.threadCount * expandThreshold < nd.tasks.length →
      nd.threadCount < (Config.ofHardware h numaNodeCount).maxThreadsPerNode →
      ∀ s', (pool (.ofHardware h numaNodeCount)).LeadsWhen (Passes n true) s s' →
        s'.passing n = false → Grown (.ofHardware h numaNodeCount) n nd.threadCount s' := by
  intro hall
  obtain ⟨s, hr, hpc, hnodes, hnext⟩ := exists_of_run (pool (.ofHardware 1 2))
    (.start :: controls 7 ++ enqueuing 0 0 true ++ monitors 3)
    (fun s => s.monitorThread.map Monitor.pc = some (.nodeTest 0) ∧
      s.nodes.map (fun nd => (nd.threadCount, nd.tasks.length)) = [(0, 1), (0, 0)] ∧
      ((pool (.ofHardware 1 2)).runWhen (Passes 0 true) s (monitors 2)).any (fun s' =>
        s'.passing 0 = false ∧ (s'.node 0).threadCount = 0) = true)
    (by decide +kernel)
  obtain ⟨m, hm, hpc⟩ := Option.map_eq_some_iff.mp hpc
  obtain ⟨nd, nds, hnds, hnd, -⟩ := List.map_eq_cons_iff.mp hnodes
  obtain ⟨hcount, hlen⟩ := Prod.mk.inj hnd
  obtain ⟨s', hrun, hout, hempty⟩ := exists_leads_of_runWhen _ _ _ hnext
  have hgrown := hall 1 2 0 s m nd le_rfl (by decide) hr hm hpc (by rw [hnds]; rfl)
    (by rw [hcount, hlen]; decide) (by rw [hcount]; decide) s' hrun hout
  rw [Grown, hempty] at hgrown
  exact absurd hgrown.1 (Nat.not_lt_zero _)

/-- On one hardware thread and one node, six tasks are queued for one worker,
and the pass adds another. -/
theorem node_expansion_progresses_run : ∃ s : State,
    (s.node 0).threadCount = 2 ∧ Grown (.ofHardware 1 1) 0 1 s := by
  obtain ⟨s, hr, hpc, hnodes, hnext⟩ := exists_of_run (pool (.ofHardware 1 1))
    (.start :: controls 8 ++ (List.range 6).flatMap (fun k => enqueuing k 0 true) ++
      monitors 3)
    (fun s => s.monitorThread.map Monitor.pc = some (.nodeTest 0) ∧
      s.nodes.map (fun nd => (nd.threadCount, nd.tasks.length)) = [(1, 6)] ∧
      ((pool (.ofHardware 1 1)).runWhen (Passes 0 true) s (monitors 5)).any (fun s' =>
        s'.passing 0 = false ∧ (s'.node 0).threadCount = 2) = true)
    (by decide +kernel)
  obtain ⟨m, hm, hpc⟩ := Option.map_eq_some_iff.mp hpc
  obtain ⟨nd, hnds, hnd⟩ := List.map_eq_singleton_iff.mp hnodes
  obtain ⟨hcount, hlen⟩ := Prod.mk.inj hnd
  obtain ⟨s', hrun, hout, htwo⟩ := exists_leads_of_runWhen _ _ _ hnext
  have hgrown := ((node_expansion_progresses hr hm hpc (by rw [hnds]; rfl)
    (by rw [hcount, hlen]; decide) (by rw [hcount]; decide) true).1 s' hrun hout).mpr
    ⟨le_rfl, rfl⟩
  rw [hcount] at hgrown
  exact ⟨s', htwo, hgrown⟩

end ThreadPool.Numa
