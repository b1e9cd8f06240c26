import ThreadPool.Numa.Headcount

/-!
# How far `ShrinkThreadsOnNode` shrinks

A pass takes `thread_count - min_threads_per_node_` of the node for the
number of workers it may mark. Nobody takes anything from `thread_count` when
a worker leaves, so once the node has grown every later pass may mark as many
workers again, until there is none left to mark.

While the pool runs and no task throws, a node keeps its workers apart from
two events: a pass marks one of them, or one gives up because it could not be
bound (`Move.balance`). So the floor holds where each of these leaves more
workers in `WorkerLoop` than are marked or needed, which is the subtraction
the code does not make.
-/

namespace ThreadPool.Numa

open Interleave Machine

/-! ## Who stays -/

/-- Behind the registration check, and not back from `WorkerLoop`. -/
def WorkerPc.inside : WorkerPc → Bool
  | .registration | .entry _ | .ended _ => false
  | _ => true

/-- Before it stores that its slot is valid. -/
def WorkerPc.early : WorkerPc → Bool
  | .registration | .readNode | .bind | .unbound | .setValid => true
  | _ => false

/-- Between the loop and the end of `WorkerLoop`. -/
def WorkerPc.leaving : WorkerPc → Bool
  | .clearValid | .exitIdle | .fetchSub => true
  | _ => false

/-- In `WorkerLoop`, with a slot of node `n`. -/
def Worker.insideOn (n : Nat) (w : Worker) : Bool := w.numaNode = n && w.native.pc.inside

/-- In `WorkerLoop` on node `n` and marked. -/
def Worker.markedOn (n : Nat) (w : Worker) : Bool := w.insideOn n && w.flags.shouldExit

/-- In `WorkerLoop` on node `n` and not marked. -/
def Worker.keptOn (n : Nat) (w : Worker) : Bool := w.insideOn n && !w.flags.shouldExit

theorem census_insideOn (n : Nat) (s : State) :
    s.census (Worker.insideOn n) =
      s.census (Worker.markedOn n) + s.census (Worker.keptOn n) := by
  simp only [State.census]
  induction s.workers with
  | nil => rfl
  | cons w ws ih =>
      rw [List.countP_cons, List.countP_cons, List.countP_cons, ih]
      have hsplit : (if w.insideOn n = true then 1 else 0) =
          (if w.markedOn n = true then 1 else 0) + if w.keptOn n = true then 1 else 0 := by
        unfold Worker.markedOn Worker.keptOn
        cases w.insideOn n <;> cases w.flags.shouldExit <;> rfl
      omega

/-! ## The order of things -/

/-- A slot that is not valid yet is not marked, and while the pool runs only
marked workers are on their way out. -/
structure Worker.Orderly (w : Worker) : Prop where
  early : w.native.pc.early = true → w.flags.isValid = false ∧ w.flags.shouldExit = false
  leaving : w.native.pc.leaving = true → w.flags.shouldExit = true

def Orderly (s : State) : Prop :=
  s.sh.running = true → ∀ w ∈ s.workers, w.Orderly

theorem Worker.orderly_of_between {w : Worker} (hearly : w.native.pc.early = false)
    (hleaving : w.native.pc.leaving = false) : w.Orderly where
  early := fun h => by
    rw [hearly] at h
    cases h
  leaving := fun h => by
    rw [hleaving] at h
    cases h

theorem WorkerHop.orderly {cfg : Config} {s : State} {w w' : Worker}
    (h : WorkerHop cfg s w w') (hw : w.Orderly) : w'.Orderly := by
  cases h with
  | registers hpc | readsNode _ hpc | bindFails hpc =>
      have hold := hw.early (by rw [hpc]; rfl)
      exact ⟨fun _ => hold, fun h => by cases h⟩
  | leaves | noNode | unbound | ends | spurious =>
      exact Worker.orderly_of_between rfl rfl

theorem LoopStep.orderly {sh sh' : Shared} {nd nd' : NodeData} {free throws : Bool}
    {agent : Agent} {w : Worker} {pc : WorkerPc} {fl : Flags}
    (h : LoopStep sh nd free agent throws w.native.pc w.flags sh' nd' pc fl)
    (hrun : sh.running = true) (hw : w.Orderly) :
    ({ w with flags := fl }.goto pc).Orderly := by
  have hleaving := hw.leaving
  generalize w.native.pc = pc₀ at h hleaving
  cases h with
  | marked hexit | remarked hexit => exact ⟨fun h => (by cases h), fun _ => hexit⟩
  | stopped hstopped | stoppedWaiting hstopped =>
      rw [hrun] at hstopped
      cases hstopped
  | clearValid | exitIdle => exact ⟨fun h => (by cases h), fun _ => hleaving rfl⟩
  | _ => exact Worker.orderly_of_between rfl rfl

theorem Worker.Orderly.wake {w : Worker} : (w.goto (.blocked true)).Orderly :=
  Worker.orderly_of_between rfl rfl

theorem Move.orderly {cfg : Config} {s s' : State} {a : Action} (hwired : Wired cfg s)
    (hs : Orderly s) (h : Move cfg s a s') : Orderly s' := by
  intro hrun'
  rcases h.running_cases hwired hrun' with hrun | hnil
  · have hall := hs hrun
    cases h with
    | notifies => exact forall_mem_set hall Worker.Orderly.wake
    | workerHop _ hw hhop =>
        exact forall_mem_set hall (hhop.orderly (hall _ (List.mem_of_getElem? hw)))
    | binds hw hpc =>
        have hold := (hall _ (List.mem_of_getElem? hw)).early (by rw [hpc]; rfl)
        exact forall_mem_set hall ⟨fun _ => hold, fun h => by cases h⟩
    | loops hw _ hstep =>
        exact forall_mem_set hall (hstep.orderly hrun (hall _ (List.mem_of_getElem? hw)))
    | spawns | expandSpawns =>
        intro w hw
        rcases List.mem_append.mp hw with hold | hnew
        · exact hall w hold
        · rw [List.mem_singleton.mp hnew]
          exact ⟨fun _ => ⟨rfl, rfl⟩, fun h => by cases h⟩
    | notifiesAll | shrinkNotifies =>
        exact forall_mem_notifyAll hall fun _ _ _ => Worker.Orderly.wake
    | setsExit hc =>
        rw [hwired.running_at hc rfl] at hrun
        cases hrun
    | joined hc hw =>
        have hold := hall _ (List.mem_of_getElem? hw)
        exact forall_mem_set hall ⟨hold.early, hold.leaving⟩
    | cleared => exact fun _ hw => absurd hw List.not_mem_nil
    | marks _ _ hw _ hexp =>
        refine forall_mem_set hall ⟨fun hearly => ?_, fun _ => rfl⟩
        have hinvalid := ((hall _ (List.mem_of_getElem? hw)).early hearly).1
        simp only [Worker.expired, Bool.and_eq_true] at hexp
        rw [hexp.1.1.1] at hinvalid
        cases hinvalid
    | _ => exact hall
  · rw [hnil]
    exact fun _ hw => absurd hw List.not_mem_nil

theorem orderly_of_reachable {cfg : Config} {s : State} (hr : (pool cfg).Reachable s) :
    Orderly s :=
  hr.invariant (fun h => by cases h) fun _ _ _ hr hs hstep =>
    (move_of_step hr hstep).orderly (wired_of_reachable hr) hs

/-! ## What a node loses -/

/-- The worker a step marks, if it marks one. -/
def State.marks? (s : State) : Action → Option Worker
  | .monitor _ _ => s.monitorThread.bind fun m =>
      match m.pc with
      | .shrinkMark n need now removed i =>
          (s.slot i).filter fun w => removed < need && w.expired n now
      | _ => none
  | _ => none

/-- The worker that returns from `WorkerLoop` in a step because its slot names
no node, or because it could not be bound. -/
def State.quits? (cfg : Config) (s : State) : Action → Option Worker
  | .worker j _ => s.workers[j]?.filter fun w =>
      w.native.pc = .unbound ||
        w.native.pc = .readNode && (w.numaNode < 0 || w.numaNode ≥ cfg.numaNodeCount)
  | _ => none

/-- What a move does to the kept and the marked workers of a node while the
pool runs and no task throws. -/
inductive Balance (cfg : Config) (n : Nat) (s : State) (a : Action) (s' : State) : Prop where
  | keeps (hkept : s.census (Worker.keptOn n) ≤ s'.census (Worker.keptOn n))
      (hmarked : s'.census (Worker.markedOn n) ≤ s.census (Worker.markedOn n))
  | marks (w : Worker) (hw : s.marks? a = some w) (hon : w.keptOn n = true)
      (hkept : s.census (Worker.keptOn n) = s'.census (Worker.keptOn n) + 1)
  | quits (w : Worker) (hw : s.quits? cfg a = some w) (hon : w.keptOn n = true)
      (hkept : s.census (Worker.keptOn n) = s'.census (Worker.keptOn n) + 1)
      (hmarked : s'.census (Worker.markedOn n) ≤ s.census (Worker.markedOn n))

theorem Balance.stays {cfg : Config} {n : Nat} {s s' : State} {a : Action} {j : Nat}
    {w w' : Worker} (hw : s.workers[j]? = some w)
    (hworkers : s'.workers = s.workers.set j w') (hnode : w'.numaNode = w.numaNode)
    (hpc : w'.native.pc.inside = w.native.pc.inside)
    (hexit : w'.flags.shouldExit = w.flags.shouldExit) : Balance cfg n s a s' := by
  have hkept : w'.keptOn n = w.keptOn n := by
    simp only [Worker.keptOn, Worker.insideOn, hnode, hpc, hexit]
  have hmarked : w'.markedOn n = w.markedOn n := by
    simp only [Worker.markedOn, Worker.insideOn, hnode, hpc, hexit]
  refine .keeps ?_ ?_
  · rw [State.census, State.census, hworkers, countP_set_same hw hkept]
  · rw [State.census, State.census, hworkers, countP_set_same hw hmarked]

theorem Balance.refl_of_workers {cfg : Config} {n : Nat} {s s' : State} {a : Action}
    (hworkers : s'.workers = s.workers) : Balance cfg n s a s' := by
  refine .keeps ?_ ?_ <;> rw [State.census, State.census, hworkers]

theorem Worker.counts_outside {n : Nat} {w : Worker} (h : w.native.pc.inside = false) :
    w.keptOn n = false ∧ w.markedOn n = false := by
  simp only [Worker.keptOn, Worker.markedOn, Worker.insideOn, h, Bool.and_false,
    Bool.false_and, and_self]

/-- A worker comes out of `WorkerLoop`: one less is kept if it was not
marked. -/
theorem balance_out {n : Nat} {s s' : State} {j : Nat} {w w' : Worker}
    (hw : s.workers[j]? = some w) (hworkers : s'.workers = s.workers.set j w')
    (hout : w'.native.pc.inside = false) :
    s.census (Worker.keptOn n) = s'.census (Worker.keptOn n) + tally (Worker.keptOn n) w ∧
      s'.census (Worker.markedOn n) ≤ s.census (Worker.markedOn n) := by
  obtain ⟨hkept', hmarked'⟩ := Worker.counts_outside (n := n) hout
  have hkept := countP_set_add (p := Worker.keptOn n) (b := w') hw
  have hmarked := countP_set_add (p := Worker.markedOn n) (b := w') hw
  rw [tally_neg hkept'] at hkept
  rw [tally_neg hmarked'] at hmarked
  simp only [State.census, hworkers]
  omega

theorem Balance.out {cfg : Config} {n : Nat} {s s' : State} {a : Action} {j : Nat}
    {w w' : Worker} (hw : s.workers[j]? = some w)
    (hworkers : s'.workers = s.workers.set j w') (hout : w'.native.pc.inside = false)
    (hquits : w.keptOn n = true → s.quits? cfg a = some w) : Balance cfg n s a s' := by
  obtain ⟨hkept, hmarked⟩ := balance_out (n := n) hw hworkers hout
  cases hon : w.keptOn n with
  | true =>
      rw [tally_pos hon] at hkept
      exact .quits w (hquits hon) hon hkept hmarked
  | false =>
      rw [tally_neg hon] at hkept
      exact .keeps (Nat.le_of_eq hkept) hmarked

/-- While the pool runs and no task throws, the loop is left by marked workers
only. -/
theorem LoopStep.inside {sh sh' : Shared} {nd nd' : NodeData} {free throws : Bool}
    {agent : Agent} {w : Worker} {pc : WorkerPc} {fl : Flags}
    (h : LoopStep sh nd free agent throws w.native.pc w.flags sh' nd' pc fl)
    (hw : w.Orderly) (hthrows : throws = false) :
    fl.shouldExit = w.flags.shouldExit ∧ w.native.pc.inside = true ∧
      (pc.inside = true ∨ pc.inside = false ∧ w.flags.shouldExit = true) := by
  have hleaving := hw.leaving
  generalize w.native.pc = pc₀ at h hleaving
  cases h with
  | throws t hthrows' =>
      rw [hthrows] at hthrows'
      cases hthrows'
  | fetchSub => exact ⟨rfl, rfl, Or.inr ⟨rfl, hleaving rfl⟩⟩
  | passes hpc | sleeps hpc =>
      rcases hpc with rfl | rfl <;> exact ⟨rfl, rfl, Or.inl rfl⟩
  | _ => exact ⟨rfl, rfl, Or.inl rfl⟩

theorem balance_mark {n : Nat} {s t : State} {i : Nat} {w : Worker}
    (hw : s.workers[i]? = some w)
    (hworkers : t.workers = s.workers.set i { w with flags.shouldExit := true }) :
    s.census (Worker.keptOn n) = t.census (Worker.keptOn n) + tally (Worker.keptOn n) w := by
  have hout : Worker.keptOn n { w with flags.shouldExit := true } = false := by
    simp only [Worker.keptOn, Bool.not_true, Bool.and_false]
  have hkept := countP_set_add (p := Worker.keptOn n)
    (b := { w with flags.shouldExit := true }) hw
  rw [tally_neg hout] at hkept
  rw [State.census, State.census, hworkers]
  omega

theorem Balance.mark {cfg : Config} {n : Nat} {s s' : State} {a : Action} {i : Nat}
    {w : Worker} (hw : s.workers[i]? = some w)
    (hworkers : s'.workers = s.workers.set i { w with flags.shouldExit := true })
    (hmarks : s.marks? a = some w) : Balance cfg n s a s' := by
  have hkept := balance_mark (n := n) hw hworkers
  cases hon : w.keptOn n with
  | true =>
      rw [tally_pos hon] at hkept
      exact .marks w hmarks hon hkept
  | false =>
      rw [tally_neg hon] at hkept
      refine .keeps (Nat.le_of_eq hkept) (Nat.le_of_eq ?_)
      rw [State.census, State.census, hworkers]
      refine countP_set_same hw ?_
      simp only [Worker.keptOn, Worker.markedOn, Worker.insideOn] at hon ⊢
      cases hexit : w.flags.shouldExit with
      | true => rfl
      | false =>
          rw [hexit, Bool.not_false, Bool.and_true] at hon
          rw [hon]
          rfl

theorem Balance.comes {cfg : Config} {n : Nat} {s s' : State} {a : Action} {j : Nat}
    {w : Worker} (hw : s.workers[j]? = some w)
    (hworkers : s'.workers = s.workers.set j (w.goto .readNode)) (horderly : w.Orderly)
    (hpc : w.native.pc = .registration) : Balance cfg n s a s' := by
  obtain ⟨hkept, hmarked⟩ := Worker.counts_outside (n := n) (w := w) (by rw [hpc]; rfl)
  have hexit := (horderly.early (by rw [hpc]; rfl)).2
  have hmarked' : (w.goto .readNode).markedOn n = false := by
    simp only [Worker.markedOn, Worker.goto, hexit, Bool.and_false]
  have hkeptAdd := countP_set_add (p := Worker.keptOn n) (b := w.goto .readNode) hw
  rw [tally_neg hkept] at hkeptAdd
  refine .keeps ?_ (Nat.le_of_eq ?_)
  · rw [State.census, State.census, hworkers]
    omega
  · rw [State.census, State.census, hworkers,
      countP_set_same hw (hmarked'.trans hmarked.symm)]

theorem Balance.woken {cfg : Config} {n m : Nat} {s s' : State} {a : Action}
    (hworkers : s'.workers = notifyAll m s.workers) : Balance cfg n s a s' := by
  have hsame : ∀ w : Worker, w.asleepOn m = true →
      (w.goto (.blocked true)).keptOn n = w.keptOn n ∧
        (w.goto (.blocked true)).markedOn n = w.markedOn n := fun w hasleep => by
    have hinside : (w.goto (.blocked true)).insideOn n = w.insideOn n := by
      rw [Worker.insideOn, Worker.insideOn, (Worker.blocked_of_asleepOn hasleep).2]
      rfl
    rw [Worker.keptOn, Worker.keptOn, Worker.markedOn, Worker.markedOn, hinside]
    exact ⟨rfl, rfl⟩
  refine .keeps (Nat.le_of_eq ?_) (Nat.le_of_eq ?_)
  · rw [State.census, State.census, hworkers, countP_notifyAll fun w h => (hsame w h).1]
  · rw [State.census, State.census, hworkers, countP_notifyAll fun w h => (hsame w h).2]

theorem Move.balance {cfg : Config} {n : Nat} {s s' : State} {a : Action}
    (hwired : Wired cfg s) (horderly : Orderly s) (hrun : s.sh.running = true)
    (hthrows : a.throws = false) (hstep : step cfg s a = some s') (h : Move cfg s a s') :
    Balance cfg n s a s' := by
  have hall := horderly hrun
  cases h with
  | notifies _ _ hw hasleep =>
      exact .stays hw rfl rfl (by rw [(Worker.blocked_of_asleepOn hasleep).2]; rfl) rfl
  | @workerHop _ j w w' ha hw hhop =>
      have hquits : w.native.pc = .unbound ∨ w.native.pc = .readNode ∧
          (w.numaNode < 0 ∨ w.numaNode ≥ cfg.numaNodeCount) →
          w'.native.pc ≠ w.native.pc → s.quits? cfg a = some w := fun hpc hmoved => by
        obtain ⟨throws, rfl⟩ := action_of_hop hwired ha hw
          (by rcases hpc with hpc | ⟨hpc, -⟩ <;> simp [hpc])
          (by rcases hpc with hpc | ⟨hpc, -⟩ <;> simp [hpc]) hstep hmoved
        simp only [State.quits?, hw, Option.filter_some]
        rw [if_pos]
        simpa using hpc
      cases hhop with
      | registers hpc => exact .comes hw rfl (hall w (List.mem_of_getElem? hw)) hpc
      | noNode hpc hrange =>
          exact .out hw rfl rfl fun _ =>
            hquits (Or.inr ⟨hpc, hrange⟩) (by rw [hpc]; simp [Worker.goto])
      | unbound hpc =>
          exact .out hw rfl rfl fun _ =>
            hquits (Or.inl hpc) (by rw [hpc]; simp [Worker.goto])
      | leaves hpc | readsNode _ hpc | bindFails hpc | ends _ hpc | spurious hpc =>
          exact .stays hw rfl rfl (by rw [hpc]; rfl) rfl
  | binds hw hpc => exact .stays hw rfl rfl (by rw [hpc]; rfl) rfl
  | @loops j throws w sh nd nd' pc fl hw hnd hloop =>
      obtain ⟨hexit, hinside, hout⟩ :=
        hloop.inside (hall w (List.mem_of_getElem? hw)) hthrows
      rcases hout with hstays | ⟨hleaves, hmark⟩
      · exact .stays hw rfl rfl (hstays.trans hinside.symm) hexit
      · refine .out hw rfl hleaves fun hon => ?_
        rw [Worker.keptOn, hmark, Bool.not_true, Bool.and_false] at hon
        cases hon
  | spawns | expandSpawns =>
      have hfresh := fun k => Worker.counts_outside (n := n)
        (w := freshWorker k s.pushed s.nextHandle) rfl
      exact .keeps (Nat.le_of_eq (census_spawn (hfresh _).1).symm)
        (Nat.le_of_eq (census_spawn (hfresh _).2))
  | notifiesAll | shrinkNotifies => exact .woken rfl
  | setsExit hc | cleared hc =>
      rw [hwired.running_at hc rfl] at hrun
      cases hrun
  | joined hc =>
      rw [hwired.running_at_join hc] at hrun
      cases hrun
  | @marks _ _ m k need now removed i w hm hpc hw hneed hexp =>
      refine .mark hw rfl ?_
      have hslot := hwired.slot_of_monitor hm (by rw [hpc]; simp) (by rw [hpc]; rfl) i
      simp [State.marks?, hm, hpc, hslot, hw, hneed, hexp]
  | _ => exact .refl_of_workers rfl

/-! ## The floor -/

/-- No task throws, and a worker of node `n` that is marked, and was not before,
leaves more workers of the node in `WorkerLoop` than are marked or needed; and
so does one that gives up, if the node has as many as are needed. -/
def Spares (cfg : Config) (n : Nat) (s : State) (a : Action) : Prop :=
  a.throws = false ∧
    (∀ w ∈ s.marks? a, w.keptOn n = true →
      cfg.minThreadsPerNode + s.census (Worker.markedOn n) <
        s.census (Worker.insideOn n)) ∧
    ∀ w ∈ s.quits? cfg a, w.keptOn n = true →
      cfg.minThreadsPerNode ≤ s.census (Worker.insideOn n) →
        cfg.minThreadsPerNode + s.census (Worker.markedOn n) <
          s.census (Worker.insideOn n)

instance (cfg : Config) (n : Nat) (s : State) (a : Action) : Decidable (Spares cfg n s a) :=
  inferInstanceAs (Decidable
    (_ ∧ (∀ w ∈ s.marks? a, _ → _) ∧ ∀ w ∈ s.quits? cfg a, _ → _ → _))

/-- While the pool runs, the node keeps its minimum, or none of its workers has
been marked. -/
def Floor (cfg : Config) (n : Nat) (s : State) : Prop :=
  s.sh.running = true →
    cfg.minThreadsPerNode ≤ s.census (Worker.keptOn n) ∨ s.census (Worker.markedOn n) = 0

theorem Balance.keeps_min {cfg : Config} {n : Nat} {s s' : State} {a : Action}
    (h : Balance cfg n s a s') (hok : Spares cfg n s a)
    (hs : cfg.minThreadsPerNode ≤ s.census (Worker.keptOn n)) :
    cfg.minThreadsPerNode ≤ s'.census (Worker.keptOn n) := by
  have hinside := census_insideOn n s
  cases h with
  | keeps hkept => omega
  | marks w hw hon hkept =>
      have hspare := hok.2.1 w hw hon
      omega
  | quits w hw hon hkept =>
      have hspare := hok.2.2 w hw hon (by omega)
      omega

/-- A node without marked workers has none until it has its minimum to keep. -/
theorem Balance.floor {cfg : Config} {n : Nat} {s s' : State} {a : Action}
    (h : Balance cfg n s a s') (hok : Spares cfg n s a)
    (hs : cfg.minThreadsPerNode ≤ s.census (Worker.keptOn n) ∨
      s.census (Worker.markedOn n) = 0) :
    cfg.minThreadsPerNode ≤ s'.census (Worker.keptOn n) ∨
      s'.census (Worker.markedOn n) = 0 := by
  rcases hs with hmin | hnone
  · exact Or.inl (h.keeps_min hok hmin)
  · have hinside := census_insideOn n s
    cases h with
    | keeps _ hmarked | quits _ _ _ _ hmarked => exact Or.inr (by omega)
    | marks w hw hon hkept =>
        have hspare := hok.2.1 w hw hon
        exact Or.inl (by omega)

theorem floor_of_spares {cfg : Config} {n : Nat} {s : State}
    (hr : (pool cfg).ReachableWhen (Spares cfg n) s) : Floor cfg n s := by
  refine hr.invariant (fun h => by cases h) fun s a s' hr hs hok hstep hrun' => ?_
  have hr := hr.reachable
  have hwired := wired_of_reachable hr
  have hmove := move_of_step hr hstep
  rcases hmove.running_cases hwired hrun' with hrun | hnil
  · exact (hmove.balance hwired (orderly_of_reachable hr) hrun hok.1 hstep).floor hok
      (hs hrun)
  · exact Or.inr (by rw [State.census, hnil]; rfl)

theorem kept_of_marks {cfg : Config} {n : Nat} {s s' : State} {a : Action} {w : Worker}
    (hstep : step cfg s a = some s') (hon : w.keptOn n = true)
    (hmarks : s.marks? a = some w) :
    s.census (Worker.keptOn n) = s'.census (Worker.keptOn n) + 1 := by
  cases a with
  | monitor creates waitFails =>
      obtain ⟨m, hm, hmarks⟩ := Option.bind_eq_some_iff.mp hmarks
      cases hpc : m.pc with
      | shrinkMark k need now removed i =>
          simp only [hpc, Option.filter_eq_some_iff, Bool.and_eq_true,
            decide_eq_true_eq] at hmarks
          obtain ⟨hslot, hneed, hexp⟩ := hmarks
          have hw := (getElem?_of_slot hslot).2
          simp only [step, monitorStep, hm, hpc, hslot, if_pos hneed] at hstep
          rw [if_pos hexp, Option.some.injEq, setFlags_eq hw] at hstep
          have hkept := balance_mark (n := n) (t := s') hw (by rw [← hstep]; rfl)
          rw [tally_pos hon] at hkept
          exact hkept
      | _ => simp [hpc] at hmarks
  | _ => cases hmarks

theorem kept_of_quits {cfg : Config} {n : Nat} {s s' : State} {a : Action} {w : Worker}
    (hwired : Wired cfg s) (hstep : step cfg s a = some s') (hon : w.keptOn n = true)
    (hquits : s.quits? cfg a = some w) :
    s.census (Worker.keptOn n) = s'.census (Worker.keptOn n) + 1 := by
  cases a with
  | worker j throws =>
      simp only [State.quits?, Option.filter_eq_some_iff, Bool.or_eq_true, Bool.and_eq_true,
        decide_eq_true_eq] at hquits
      obtain ⟨hw, hpc⟩ := hquits
      obtain ⟨w', hworkers, hgone⟩ := workerStep_gives_up hwired hw hpc hstep
      have hkept := (balance_out (n := n) hw hworkers (by rw [hgone]; rfl)).1
      rw [tally_pos hon] at hkept
      exact hkept
  | _ => cases hquits

/-- In the runs in which every loss of a node leaves more of its workers in
`WorkerLoop` than are marked or needed, the node keeps its minimum from the
moment it has it and as long as the pool runs; and each loss leaves the node
its minimum exactly where it meets that condition. -/
theorem shrinking_keeps_node_min {cfg : Config} (n : Nat) :
    (∀ s s', (pool cfg).ReachableWhen (Spares cfg n) s → s.sh.running = true →
      cfg.minThreadsPerNode ≤ s.census (Worker.insideOn n) →
      (pool cfg).LeadsWhen (fun s a => Spares cfg n s a ∧ s.sh.running = true) s s' →
        cfg.minThreadsPerNode ≤ s'.census (Worker.keptOn n)) ∧
    ∀ s a s' w, (pool cfg).Reachable s → (pool cfg).step s a = some s' →
      s.marks? a = some w ∨ s.quits? cfg a = some w → w.keptOn n = true →
        (cfg.minThreadsPerNode ≤ s'.census (Worker.keptOn n) ↔
          cfg.minThreadsPerNode + s.census (Worker.markedOn n) <
            s.census (Worker.insideOn n)) := by
  refine ⟨fun s s' hr hrun hassembled hleads => ?_, fun s a s' w hr hstep hloss hon => ?_⟩
  · have hstart : cfg.minThreadsPerNode ≤ s.census (Worker.keptOn n) := by
      have hinside := census_insideOn n s
      rcases floor_of_spares hr hrun with hmin | hnone
      · exact hmin
      · omega
    exact hleads.stable (P := fun s => cfg.minThreadsPerNode ≤ s.census (Worker.keptOn n))
      hr.reachable hstart fun s a s' hr hs hok hstep =>
        ((move_of_step hr hstep).balance (wired_of_reachable hr) (orderly_of_reachable hr)
          hok.2 hok.1.1 hstep).keeps_min hok.1 hs
  · have hkept : s.census (Worker.keptOn n) = s'.census (Worker.keptOn n) + 1 := by
      rcases hloss with hmarks | hquits
      · exact kept_of_marks hstep hon hmarks
      · exact kept_of_quits (wired_of_reachable hr) hstep hon hquits
    have hinside := census_insideOn n s
    omega

/-- Two workers wait and the first pass marks one of them. It leaves, the node
still counts it, and the second pass marks the other. -/
theorem node_shrunk_below_min :
    ¬∀ (cfg : Config) (n : Nat) (s s' : State), (pool cfg).ReachableWhen Returning s →
      s.sh.running = true → cfg.minThreadsPerNode ≤ s.census (Worker.insideOn n) →
      (pool cfg).LeadsWhen (fun s a => Returning s a ∧ s.sh.running = true) s s' →
        cfg.minThreadsPerNode ≤ s'.census (Worker.keptOn n) := by
  intro hall
  obtain ⟨s, hr, hrun, hassembled, hpass⟩ := exists_of_runWhen (pool (.ofHardware 1 1))
    Returning (growing ++ shrinking)
    (fun s => s.sh.running = true ∧ s.census (Worker.insideOn 0) = 2 ∧
      ((pool (.ofHardware 1 1)).runWhen (fun s a => Returning s a ∧ s.sh.running = true) s
        (works 0 6 ++ works 1 2 ++ monitors 13)).map (State.census (Worker.keptOn 0)) = some 0)
    (by decide +kernel)
  obtain ⟨s', hleads, hnone⟩ := Option.map_eq_some_iff.mp hpass
  have hkept := hall _ 0 s s' hr hrun (by rw [hassembled]; decide)
    (reflTransGen_of_runWhen hleads)
  rw [hnone] at hkept
  exact absurd hkept (by decide)

/-- The first pass alone: of two workers one is marked and one is kept. -/
theorem shrinking_keeps_node_min_run : ∃ s : State,
    s.census (Worker.markedOn 0) = 1 ∧ s.census (Worker.keptOn 0) = 1 ∧
      (Config.ofHardware 1 1).minThreadsPerNode ≤ s.census (Worker.keptOn 0) := by
  obtain ⟨s, hr, hrun, hassembled, hpass⟩ := exists_of_runWhen (pool (.ofHardware 1 1))
    (Spares (.ofHardware 1 1) 0) (growing ++ entering 0)
    (fun s => s.sh.running = true ∧ s.census (Worker.insideOn 0) = 1 ∧
      ((pool (.ofHardware 1 1)).runWhen
        (fun s a => Spares (.ofHardware 1 1) 0 s a ∧ s.sh.running = true) s
        (shrinking.drop 3)).map
          (fun s => (s.census (Worker.markedOn 0), s.census (Worker.keptOn 0))) = some (1, 1))
    (by decide +kernel)
  obtain ⟨s', hleads, hcounts⟩ := Option.map_eq_some_iff.mp hpass
  obtain ⟨hmarked, hkept⟩ := Prod.mk.inj hcounts
  exact ⟨s', hmarked, hkept, (shrinking_keeps_node_min 0).1 s s' hr hrun
    (by rw [hassembled]; decide) (reflTransGen_of_runWhen hleads)⟩

end ThreadPool.Numa
