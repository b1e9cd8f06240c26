import ThreadPool.Lib.Crew
import ThreadPool.Lib.Fair
import ThreadPool.Normal.Conservation
import ThreadPool.Normal.Shrinking
import ThreadPool.Normal.Wakeup

/-!
# What happens to a queued task in the end

The laws so far say what the pool never does. This file says what it does in
a fair run: a task that is queued in a pool that keeps running is taken, and
what is taken is called to its end or put away.

The code alone does not promise it. `ShrinkThreads` may mark every worker,
and tasks that throw take their workers with them, so the law is about runs
in which at all times some worker is still serving: in its loop, and not
marked where a mark would send it home. A task that blocks keeps its worker
for ever, so the law is about runs in which every called task ends. Which
worker serves may change, tasks may throw, other calls may push for ever, and
the monitor may do as it likes.

The argument is the rule of the helpful party. A worker that is awake on its
way to the queue is a helper, and so is one with a task in its hands. If
there is neither, somebody sleeps, and then some call owes a notification
(`covered_of_reachable`); that call is the helper. What is left to do is
weighed by twice what stands ahead of the task plus the workers with their
hands full: a pop takes one from the queue and fills a pair of hands, and a
call that ends empties a pair.
-/

namespace ThreadPool.Normal

open Interleave Machine

/-! ## Who helps -/

/-- On the way to a pop attempt that nothing but the queue running empty or
the pool stopping can prevent. -/
def WorkerPc.heading (marked : Bool) : WorkerPc → Bool
  | .setValid | .fetchAdd | .testExit => !marked
  | .testRunning | .setIdle | .setIdleTime | .wait | .blocked true | .clearIdle
  | .pop => true
  | _ => false

/-- Back from the queue, with a task or without. -/
def WorkerPc.engaged : WorkerPc → Bool
  | .holding _ | .running _ => true
  | _ => false

def WorkerPc.active (marked : Bool) (pc : WorkerPc) : Bool :=
  pc.heading marked || pc.engaged

/-- In `WorkerLoop` and to come by the queue again while the pool runs. -/
def WorkerPc.serving (marked : Bool) : WorkerPc → Bool
  | .holding _ | .running _ => !marked
  | .window | .blocked false => true
  | pc => pc.heading marked

def Worker.engaged (w : Worker) : Bool := w.native.pc.engaged
def Worker.active (w : Worker) : Bool := w.native.pc.active w.flags.shouldExit
def Worker.serving (w : Worker) : Bool := w.native.pc.serving w.flags.shouldExit

/-- How many steps a worker is from its pop, or from empty hands. -/
def WorkerPc.toGo : WorkerPc → Nat
  | .setValid => 9
  | .fetchAdd => 8
  | .testExit => 7
  | .testRunning => 6
  | .setIdle => 5
  | .setIdleTime => 4
  | .wait | .blocked true => 3
  | .clearIdle | .holding _ => 2
  | _ => 1

/-- The slot whose worker thread moves. -/
def Action.worker? : Action → Option Nat
  | .worker j _ => some j
  | _ => none

/-- The call of `Enqueue` that moves. -/
def Action.call? : Action → Option Nat
  | .enqueue k _ => some k
  | _ => none

/-- The workers as a crew, and the queue they serve. No worker is lost that was
active: a mark that could send one home is only made on one that is not. -/
def crew : Crew Worker := ⟨Worker.active, Worker.engaged, fun w => w.native.pc.toGo⟩

@[simp] theorem crew_active (w : Worker) :
    crew.active w = w.native.pc.active w.flags.shouldExit := rfl

@[simp] theorem crew_engaged (w : Worker) : crew.engaged w = w.native.pc.engaged := rfl

def State.service (s : State) : Service Task Worker := ⟨s.sh.tasks, s.workers, 0⟩

/-- What a step does for a queued task. -/
def Advance (t : Task) (s : State) (a : Action) (s' : State) : Prop :=
  crew.Advance t a.worker? s.service s'.service (t ∈ taken s'.sh.hist)

/-! ## What a step does -/

theorem LoopStep.service {t : Task} {sh sh' : Shared} {free throws : Bool} {w : Worker}
    {pc' : WorkerPc} {fl' : Flags}
    (h : LoopStep sh free w.native.self throws w.native.pc w.flags sh' pc' fl')
    (hrun : sh.running = true) (ht : t ∈ sh.tasks) :
    t ∈ taken sh'.hist ∨ t ∈ sh'.tasks ∧
      (2 * sh'.tasks.idxOf t + tally Worker.engaged ({ w with flags := fl' }.goto pc') <
          2 * sh.tasks.idxOf t + tally Worker.engaged w ∨
        sh'.tasks = sh.tasks ∧
          ({ w with flags := fl' }.goto pc').engaged = w.engaged ∧
          (w.active = true → ({ w with flags := fl' }.goto pc').active = true ∧
            pc'.toGo < w.native.pc.toGo)) := by
  have hactive : w.active = w.native.pc.active w.flags.shouldExit := rfl
  have hengaged : w.engaged = w.native.pc.engaged := rfl
  generalize w.native.pc = pc at h hactive hengaged
  cases h with
  | marked hexit =>
      refine Or.inr ⟨ht, Or.inr ⟨rfl, hengaged.symm, fun h => ?_⟩⟩
      rw [hactive, hexit] at h
      cases h
  | stopped hrunning =>
      rw [hrun] at hrunning
      cases hrunning
  | passes hwait | sleeps hwait _ hpred =>
      first
      | rcases hwait with rfl | rfl <;>
          exact Or.inr ⟨ht, Or.inr ⟨rfl, hengaged.symm, fun _ => ⟨rfl, by decide⟩⟩⟩
      | rw [(waitPredicate_false hpred).1] at ht
        exact absurd ht List.not_mem_nil
  | misses hfree htasks =>
      rw [htasks] at ht
      exact absurd ht List.not_mem_nil
  | pops u rest hfree htasks =>
      rw [htasks] at ht ⊢
      by_cases hu : u = t
      · refine Or.inl ?_
        rw [hu]
        simp [WorkEvent.taken?]
      · refine Or.inr ⟨(List.mem_cons.mp ht).resolve_left (Ne.symm hu), Or.inl ?_⟩
        rw [tally_pos (by rfl), tally_neg hengaged, List.idxOf_cons_ne _ hu]
        show 2 * rest.idxOf t + 1 < _
        omega
  | nothing | drops | returns | throws =>
      refine Or.inr ⟨ht, Or.inl ?_⟩
      rw [tally_neg (by rfl), tally_pos hengaged]
      exact Nat.lt_succ_self _
  | starts u hcall =>
      exact Or.inr ⟨ht, Or.inr ⟨rfl, hengaged.symm, fun _ => ⟨rfl, Nat.lt_succ_self 1⟩⟩⟩
  | unmarked | goesOn | setIdle | setIdleTime | clearIdle =>
      exact Or.inr ⟨ht, Or.inr ⟨rfl, hengaged.symm, fun _ => ⟨rfl, by decide⟩⟩⟩
  | setValid | fetchAdd =>
      refine Or.inr ⟨ht, Or.inr ⟨rfl, hengaged.symm, fun h => ⟨?_, by decide⟩⟩⟩
      rw [hactive] at h
      exact h
  | blocks | clearValid | exitIdle | fetchSub =>
      refine Or.inr ⟨ht, Or.inr ⟨rfl, hengaged.symm, fun h => ?_⟩⟩
      rw [hactive] at h
      cases h

theorem WorkerPc.active_of_idle {pc : WorkerPc} (hidle : pc.idle = true)
    (marked marked' : Bool) (hactive : pc.active marked = true) :
    pc.active marked' = true := by
  cases pc with
  | setIdleTime | wait | window | clearIdle => exact hactive
  | blocked signalled => cases signalled <;> exact hactive
  | _ => cases hidle

theorem WorkerPc.active_unmarked {pc : WorkerPc} {marked : Bool}
    (hactive : pc.active marked = true) : pc.active false = true := by
  cases pc with
  | setValid | fetchAdd | testExit => rfl
  | blocked signalled => cases signalled <;> exact hactive
  | _ => exact hactive

/-- Every step of a pool that keeps running does something for a queued task,
or does no harm. -/
theorem Move.advance {cfg : Config} {t : Task} {s s' : State} {a : Action}
    (hwired : Wired s) (hflagged : Flagged s) (hrun : s.sh.running = true)
    (hrun' : s'.sh.running = true) (ht : t ∈ s.sh.tasks) (h : Move cfg s a s') :
    Advance t s a s' := by
  cases h with
  | pushes => exact .of_same ht (List.prefix_append _ _) rfl (Nat.le_refl 0)
  | @notifies k i c w hc hpc hw hblocked =>
      refine .of_set ht rfl hw rfl (Nat.le_refl 0) (fun _ h => by cases h) ?_ fun h => ?_
      · simp [Worker.goto, WorkerPc.engaged, hblocked]
      · rw [crew_active, hblocked] at h
        cases h
  | @registers j throws w hw hpc | @ends j throws threw w hw hpc =>
      refine .of_set ht rfl hw rfl (Nat.le_refl 0) (fun _ h => (Option.some.inj h).symm) ?_
        fun h => ?_
      · simp [Worker.goto, WorkerPc.engaged, hpc]
      · rw [crew_active, hpc] at h
        cases h
  | @spurious j w hw hblocked =>
      refine .of_set ht rfl hw rfl (Nat.le_refl 0) (fun _ h => by cases h) ?_ fun h => ?_
      · simp [Worker.goto, WorkerPc.engaged, hblocked]
      · rw [crew_active, hblocked] at h
        cases h
  | @loops j throws w sh pc fl hw hstep =>
      rcases hstep.service hrun ht with htaken | ⟨hqueued, hless | ⟨htasks, hengaged, hkept⟩⟩
      · exact .takes htaken
      · exact .of_set_less hqueued hw rfl (Nat.le_refl 0) hless
      · refine .of_set ht htasks hw rfl (Nat.le_refl 0)
          (fun _ h => (Option.some.inj h).symm) hengaged fun hactive => ?_
        obtain ⟨hactive', hlt⟩ := hkept hactive
        exact ⟨hactive', Nat.le_of_lt hlt, fun _ => hlt⟩
  | startFails n | startUnmonitored _ n | starts n | expands n =>
      exact .of_append ht rfl rfl (Nat.le_refl 0)
        (countP_fresh _ fun _ => (rfl : Worker.engaged _ = false))
  | shrinkNotifies =>
      refine .of_map ht rfl rfl (Nat.le_refl 0) (fun w hactive => if_neg fun hpc => ?_)
        fun w => ?_
      · rw [crew_active, hpc] at hactive
        cases hactive
      · split
        · next hblocked => simp [WorkerPc.engaged, hblocked]
        · rfl
  | @marks creates _ m need now removed i w hm hpc hw hneed hexp =>
      refine .of_set ht rfl hw rfl (Nat.le_refl 0) (fun _ h => by cases h) rfl
        fun hactive => ?_
      have hidle := (hflagged _ (List.mem_of_getElem? hw)).2
      simp only [Flags.expired, Bool.and_eq_true] at hexp
      rw [hexp.1.2] at hidle
      exact ⟨WorkerPc.active_of_idle hidle.symm _ _ hactive, Nat.le_refl _, fun h => by cases h⟩
  | expandThrows hm hpc hfree hw =>
      refine .of_set ht rfl hw rfl (Nat.le_refl 0) (fun _ h => by cases h) rfl
        fun hactive => ?_
      exact ⟨WorkerPc.active_unmarked hactive, Nat.le_refl _, fun h => by cases h⟩
  | clearRunning => cases hrun'
  | notifiesAll hc | joined hc | destroyJoined hc | cleared hc | clearTasks hc =>
      rw [hwired.running_at hc rfl] at hrun
      cases hrun
  | _ => exact .of_same ht List.prefix_rfl rfl (Nat.le_refl 0)

theorem Move.hist_grows {cfg : Config} {s s' : State} {a : Action} (hwired : Wired s)
    (hnum : Numbered s) (h : Move cfg s a s') : s.sh.hist <+: s'.sh.hist := by
  rcases h.queue hwired hnum with hsame | hstep
  · have hhist : s'.sh.hist = s.sh.hist := congrArg WorkQueue.hist hsame
    exact hhist ▸ List.prefix_rfl
  · exact hstep.hist_grows

theorem Move.call_kept {cfg : Config} {s s' : State} {a : Action} {k : Nat} {c : Call}
    (h : Move cfg s a s') (hc : s.calls[k]? = some c) (hact : a.call? ≠ some k) :
    s'.calls[k]? = some c := by
  have hset : ∀ (i : Nat) (d : Call), i ≠ k → (s.calls.set i d)[k]? = some c := by
    intro i d hik
    rw [List.getElem?_set_ne hik]
    exact hc
  cases h with
  | call =>
      rw [List.getElem?_append_left (List.getElem?_eq_some_iff.mp hc).1]
      exact hc
  | @rejected i | @accepted i | @pushes i | @notifies i | @notifiesNobody i
  | @hints i => exact hset i _ fun hik => hact (by rw [hik]; rfl)
  | _ => exact hc

/-! ## The helpers can move -/

theorem exists_workerStep {s : State} {j : Nat} {w : Worker} (hwired : Wired s)
    (hw : s.workers[j]? = some w) (hactive : w.active = true)
    (hfree : s.globalMutexFree = true) : ∃ s', workerStep s j false = some s' := by
  have hindex := hwired.index j w hw
  rw [Worker.active] at hactive
  cases hpc : w.native.pc with
  | registration | entry | ended =>
      rw [hpc] at hactive
      cases hactive
  | blocked signalled =>
      cases signalled with
      | false =>
          rw [hpc] at hactive
          cases hactive
      | true => simp [workerStep, boundStep, workerLoop, evaluate, hw, hpc, hindex, hfree]
  | holding task =>
      cases task with
      | none => simp [workerStep, boundStep, workerLoop, hw, hpc, hindex]
      | some t =>
          cases hcall : t.callable <;>
            simp [workerStep, boundStep, workerLoop, hw, hpc, hindex, hcall]
  | pop =>
      cases htasks : s.sh.tasks <;>
        simp [workerStep, boundStep, workerLoop, hw, hpc, hindex, hfree, htasks]
  | wait => simp [workerStep, boundStep, workerLoop, evaluate, hw, hpc, hindex, hfree]
  | _ => simp [workerStep, boundStep, workerLoop, hw, hpc, hindex]

theorem exists_notify {s : State} {k : Nat} {c : Call} (hc : s.calls[k]? = some c)
    (hpc : c.pc = .notify) : ∃ pick s', enqueueStep s k pick = some s' := by
  by_cases hasleep : ∃ w ∈ s.workers, w.native.pc = .blocked false
  · obtain ⟨w, hmem, hblocked⟩ := hasleep
    obtain ⟨i, hi⟩ := List.mem_iff_getElem?.mp hmem
    exact ⟨some i, by simp [enqueueStep, notifyOne, hc, hpc, hi, hblocked]⟩
  · have hnone : ∀ w ∈ s.workers, w.native.pc ≠ .blocked false :=
      fun w hw hpc => hasleep ⟨w, hw, hpc⟩
    refine ⟨none, ?_⟩
    simp only [enqueueStep, notifyOne, hc, hpc]
    rw [if_pos (by simpa using hnone)]
    exact ⟨_, rfl⟩

/-! ## From the queue into a worker's hands -/

/-- A worker thread, or a call between push and `NotifyOne`. -/
inductive Helper where
  | worker (j : Nat)
  | call (k : Nat)

def Helper.party : Helper → Action → Prop
  | .worker j, a => a.worker? = some j
  | .call k, a => a.call? = some k

/-- Active workers help, and when there is none, calls that owe a
notification. -/
def Helper.helps : Helper → State → Prop
  | .worker j, s => ∃ w, s.workers[j]? = some w ∧ w.active = true
  | .call k, s =>
      (∃ c, s.calls[k]? = some c ∧ c.pc = .notify) ∧ ∀ w ∈ s.workers, w.active = false

def Helper.toGo : Helper → State → Nat
  | .worker j, s => (s.workers[j]?).elim 0 fun w => w.native.pc.toGo
  | .call _, _ => 0

theorem WorkerPc.drowsy_of_serving {pc : WorkerPc} {marked : Bool}
    (hserving : pc.serving marked = true) (hactive : pc.active marked = false) :
    pc = .window ∨ pc = .blocked false := by
  cases pc with
  | window => exact Or.inl rfl
  | blocked signalled =>
      cases signalled with
      | false => exact Or.inr rfl
      | true => cases hactive
  | holding | running => cases hactive
  | setValid | fetchAdd | testExit =>
      have hheading : (!marked) = true := hserving
      have hnot : ((!marked) || false) = false := hactive
      rw [hheading] at hnot
      cases hnot
  | testRunning | setIdle | setIdleTime | wait | clearIdle | pop => cases hactive
  | _ => cases hserving

theorem Worker.active_of_awake {w : Worker} (hawake : w.awake = true) :
    w.active = true := by
  unfold Worker.awake at hawake
  unfold Worker.active
  cases hpc : w.native.pc with
  | blocked signalled =>
      rw [hpc] at hawake
      cases signalled with
      | false => cases hawake
      | true => rfl
  | clearIdle | pop => rfl
  | _ =>
      rw [hpc] at hawake
      cases hawake

theorem exists_helper {s : State} {t : Task} (hcovered : s.gate.Covered)
    (hwindows : WindowsEmpty s) (ht : t ∈ s.sh.tasks)
    (hserved : ∃ w ∈ s.workers, w.serving = true) : ∃ i : Helper, i.helps s := by
  by_cases hactive : ∃ w ∈ s.workers, w.active = true
  · obtain ⟨w, hmem, hactive⟩ := hactive
    obtain ⟨j, hj⟩ := List.mem_iff_getElem?.mp hmem
    exact ⟨.worker j, w, hj, hactive⟩
  have hnone : ∀ w ∈ s.workers, w.active = false :=
    fun w hw => Bool.eq_false_iff.mpr fun h => hactive ⟨w, hw, h⟩
  obtain ⟨w, hmem, hserving⟩ := hserved
  have hqueued : 0 < s.gate.queued := List.length_pos_of_mem ht
  rcases WorkerPc.drowsy_of_serving hserving (hnone w hmem) with hpc | hpc
  · rw [hwindows w hmem hpc] at ht
    exact absurd ht List.not_mem_nil
  · -- somebody sleeps over a queue that is not empty, so a notification is owed
    have hasleep : 0 < s.gate.asleep :=
      List.countP_pos_iff.mpr ⟨w, hmem, by simp [Worker.asleep, hpc]⟩
    have hawake : s.gate.awake = 0 := by
      refine List.countP_eq_zero.mpr fun v hv hawake => ?_
      have hidle := hnone v hv
      rw [Worker.active_of_awake hawake] at hidle
      cases hidle
    have howed : 0 < s.gate.owed := by
      have hle := hcovered hasleep
      omega
    obtain ⟨c, hc, howes⟩ := List.countP_pos_iff.mp howed
    obtain ⟨k, hk⟩ := List.mem_iff_getElem?.mp hc
    exact ⟨.call k, ⟨c, hk, of_decide_eq_true howes⟩, hnone⟩

theorem Move.wakes {cfg : Config} {t : Task} {s s' : State} {a : Action} {k : Nat}
    {c : Call} (hwindows : WindowsEmpty s) (ht : t ∈ s.sh.tasks)
    (hserved : ∃ w ∈ s.workers, w.serving = true)
    (hnone : ∀ w ∈ s.workers, w.active = false) (hc : s.calls[k]? = some c)
    (hpc : c.pc = .notify) (hact : a.call? = some k) (h : Move cfg s a s') :
    ∃ w ∈ s'.workers, w.active = true := by
  have hsame : ∀ {i : Nat} {d : Call}, s.calls[i]? = some d → i = k → d = c := by
    intro i d hd hik
    rw [hik, hc, Option.some.injEq] at hd
    exact hd.symm
  cases h with
  | @notifies i l d w hd _ hw hblocked =>
      obtain ⟨hlt, -⟩ := List.getElem?_eq_some_iff.mp hw
      exact ⟨_, List.mem_set hlt _, rfl⟩
  | notifiesNobody hd _ hawake =>
      obtain ⟨w, hmem, hserving⟩ := hserved
      rcases WorkerPc.drowsy_of_serving hserving (hnone w hmem) with hwindow | hblocked
      · rw [hwindows w hmem hwindow] at ht
        exact absurd ht List.not_mem_nil
      · exact absurd hblocked (hawake w hmem)
  | rejected hd hdpc | accepted hd hdpc | pushes hd hdpc | hints hd hdpc =>
      rw [hsame hd (Option.some.inj hact), hpc] at hdpc
      cases hdpc
  | _ => cases hact

/-- A step, seen by a helper. -/
theorem Move.helps {cfg : Config} {t : Task} {s s' : State} {a : Action}
    (hadvance : Advance t s a s') (hwindows : WindowsEmpty s) (ht : t ∈ s.sh.tasks)
    (hserved : ∃ w ∈ s.workers, w.serving = true) (h : Move cfg s a s') {i : Helper}
    (hi : i.helps s) :
    crew.toDo t s'.service < crew.toDo t s.service ∨ t ∈ taken s'.sh.hist ∨
      crew.toDo t s'.service ≤ crew.toDo t s.service ∧ i.helps s' ∧ i.toGo s' ≤ i.toGo s ∧
        (i.party a → i.toGo s' < i.toGo s) := by
  cases i with
  | worker j =>
      obtain ⟨w, hw, hactive⟩ := hi
      refine (Crew.Advance.worker hadvance hw hactive).imp_right (Or.imp_right ?_)
      rintro ⟨hle, w', hw', hactive', htoGo, hnearer⟩
      refine ⟨hle, ⟨w', hw', hactive'⟩, ?_, ?_⟩ <;>
        rw [Helper.toGo, Helper.toGo, show s.workers[j]? = some w from hw,
          show s'.workers[j]? = some w' from hw']
      · exact htoGo
      · exact hnearer
  | call k =>
      obtain ⟨⟨c, hc, hpc⟩, hnone⟩ := hi
      refine (Crew.Advance.nobody hadvance hnone).imp_right (Or.imp_right ?_)
      rintro ⟨hle, hnone'⟩
      have hother : a.call? ≠ some k := fun hact => by
        obtain ⟨w, hmem, hactive⟩ := h.wakes hwindows ht hserved hnone hc hpc hact
        rw [show w.active = false from hnone' w hmem] at hactive
        cases hactive
      exact ⟨hle, ⟨⟨c, h.call_kept hc hother, hpc⟩, hnone'⟩, Nat.le_refl _,
        fun hact => absurd hact hother⟩

theorem Helper.enabled {cfg : Config} {s : State} (hwired : Wired s)
    (hfree : s.globalMutexFree = true) {i : Helper} (hi : i.helps s) :
    (pool cfg).Enabled i.party s := by
  cases i with
  | worker j =>
      obtain ⟨w, hw, hactive⟩ := hi
      obtain ⟨s', hs'⟩ := exists_workerStep hwired hw hactive hfree
      exact ⟨.worker j false, rfl, Option.isSome_iff_exists.mpr ⟨s', hs'⟩⟩
  | call k =>
      obtain ⟨⟨c, hc, hpc⟩, -⟩ := hi
      obtain ⟨pick, s', hs'⟩ := exists_notify hc hpc
      exact ⟨.enqueue k pick, rfl, Option.isSome_iff_exists.mpr ⟨s', hs'⟩⟩

/-! ## Out of a worker's hands -/

theorem Move.pc_kept {cfg : Config} {s s' : State} {a : Action} {j : Nat} {w : Worker}
    (hwired : Wired s) (hw : s.workers[j]? = some w) (hact : a.worker? ≠ some j)
    (hawake : w.native.pc ≠ .blocked false) (hover : w.native.pc.isEnded = false)
    (h : Move cfg s a s') :
    ∃ w', s'.workers[j]? = some w' ∧ w'.native.pc = w.native.pc := by
  have hlt := (List.getElem?_eq_some_iff.mp hw).1
  have hset : ∀ (i : Nat) (v v' : Worker), s.workers[i]? = some v →
      (i = j → v'.native.pc = v.native.pc) →
      ∃ w', (s.workers.set i v')[j]? = some w' ∧ w'.native.pc = w.native.pc := by
    intro i v v' hv hpc
    by_cases hij : i = j
    · subst hij
      rw [hw, Option.some.injEq] at hv
      subst hv
      exact ⟨v', List.getElem?_set_self hlt, hpc rfl⟩
    · exact ⟨w, by rw [List.getElem?_set_ne hij, hw], rfl⟩
  have happend : ∀ ws : List Worker,
      ∃ w', (s.workers ++ ws)[j]? = some w' ∧ w'.native.pc = w.native.pc :=
    fun ws => ⟨w, by rw [List.getElem?_append_left hlt, hw], rfl⟩
  have hnotify : ∃ w', (notifyAll s.workers)[j]? = some w' ∧
      w'.native.pc = w.native.pc := by
    refine ⟨w, ?_, rfl⟩
    rw [notifyAll, List.getElem?_map, hw, Option.map_some, if_neg hawake]
  cases h with
  | @notifies k i c v _ _ hv hblocked | @spurious i v hv hblocked =>
      refine hset i v _ hv fun hij => ?_
      rw [hij, hw, Option.some.injEq] at hv
      rw [hv] at hawake
      exact absurd hblocked hawake
  | @registers i _ v hv | @loops i _ v _ _ _ hv | @ends i _ _ v hv =>
      exact hset i v _ hv fun hij => absurd (congrArg some hij) hact
  | joined _ hv | destroyJoined _ hv | marks _ _ hv | expandThrows _ _ _ hv =>
      exact hset _ _ _ hv fun _ => rfl
  | startFails | startUnmonitored | starts | expands => exact happend _
  | notifiesAll | shrinkNotifies => exact hnotify
  | cleared hc =>
      rw [hwired.ended_of_clear hc w (List.mem_of_getElem? hw)] at hover
      cases hover
  | _ => exact ⟨w, hw, rfl⟩

/-- The worker in slot `j` has `t` in its hands. -/
def Carries (t : Task) (j : Nat) (s : State) : Prop :=
  ∃ w, s.workers[j]? = some w ∧
    (w.native.pc = .holding (some t) ∨ w.native.pc = .running t)

/-- `t` has been called to its end, or put away. -/
def Over (t : Task) (s : State) : Prop :=
  t ∈ finished s.sh.hist ∨ t ∈ dropped s.sh.hist

theorem inHands_busy (ws : List Worker) (t : Task) :
    WorkQueue.inHands (gather Worker.busy ws) t =
      ws.countP fun w => w.native.pc = .running t := by
  rw [WorkQueue.inHands_gather]
  congr 1
  funext w
  unfold Worker.busy
  split
  · next u hpc => simp [hpc]
  · next hpc => simpa using fun h => hpc t h

theorem exists_carries {s : State} {t : Task} (hq : s.queue.Lawful)
    (ht : t ∈ taken s.sh.hist) (hover : ¬Over t s) : ∃ j, Carries t j s := by
  rcases hq.inHands_of_taken ht (fun h => hover (Or.inl h)) fun h => hover (Or.inr h) with
    hheld | hbusy
  · rw [show WorkQueue.inHands s.queue.held t = _ from inHands_held _ _] at hheld
    obtain ⟨w, hmem, hpc⟩ := List.countP_pos_iff.mp hheld
    obtain ⟨j, hj⟩ := List.mem_iff_getElem?.mp hmem
    exact ⟨j, w, hj, Or.inl (of_decide_eq_true hpc)⟩
  · rw [show WorkQueue.inHands s.queue.busy t = _ from inHands_busy _ _] at hbusy
    obtain ⟨w, hmem, hpc⟩ := List.countP_pos_iff.mp hbusy
    obtain ⟨j, hj⟩ := List.mem_iff_getElem?.mp hmem
    exact ⟨j, w, hj, Or.inr (of_decide_eq_true hpc)⟩

/-- A step, seen by a task in a worker's hands: it is over, or it is still
there, and nearer to its end if it was the worker who moved. -/
theorem Move.carries {cfg : Config} {t : Task} {s s' : State} {a : Action} {j : Nat}
    (hwired : Wired s) (h : Move cfg s a s') (hj : Carries t j s) :
    Over t s' ∨ Carries t j s' ∧
      (Helper.worker j).toGo s' ≤ (Helper.worker j).toGo s ∧
      (a.worker? = some j → (Helper.worker j).toGo s' < (Helper.worker j).toGo s) := by
  obtain ⟨w, hw, hpc⟩ := hj
  have htoGo : (Helper.worker j).toGo s = w.native.pc.toGo := by
    simp [Helper.toGo, hw]
  by_cases hact : a.worker? = some j
  · have hself : ∀ {i : Nat} {v : Worker}, s.workers[i]? = some v → i = j → v = w := by
      intro i v hv hij
      rw [hij, hw, Option.some.injEq] at hv
      exact hv.symm
    cases h with
    | @registers i _ v hv hvpc | @ends i _ _ v hv hvpc =>
        rw [hself hv (Option.some.inj hact)] at hvpc
        rw [hvpc] at hpc
        rcases hpc with hpc | hpc <;> cases hpc
    | @loops i throws v sh pc fl hv hstep =>
        have hij : i = j := Option.some.inj hact
        subst hij
        rw [hself hv rfl] at hstep ⊢
        have hput : ∀ v, ({ s with sh := sh }.put i v).workers[i]? = some v :=
          fun v => List.getElem?_set_self (List.getElem?_eq_some_iff.mp hw).1
        generalize w.native.pc = pc₀ at hpc hstep htoGo
        rcases hpc with rfl | rfl
        · cases hstep with
          | starts _ hcall =>
              refine Or.inr ⟨⟨_, hput _, Or.inr rfl⟩, ?_, fun _ => ?_⟩ <;>
                rw [htoGo, Helper.toGo, hput]
              · exact Nat.le_succ 1
              · exact Nat.lt_succ_self 1
          | drops _ hcall =>
              refine Or.inl (Or.inr ?_)
              simp [State.put, WorkEvent.dropped?]
          | passes hwait | sleeps hwait => rcases hwait with hwait | hwait <;> cases hwait
        · refine Or.inl (Or.inl ?_)
          cases hstep with
          | returns | throws => simp [State.put, WorkEvent.finished?]
          | passes hwait | sleeps hwait => rcases hwait with hwait | hwait <;> cases hwait
    | _ => cases hact
  · have hkept : ∃ w', s'.workers[j]? = some w' ∧ w'.native.pc = w.native.pc := by
      refine h.pc_kept hwired hw hact ?_ ?_ <;> rcases hpc with hpc | hpc <;> rw [hpc]
      · simp
      · simp
      · rfl
      · rfl
    obtain ⟨w', hw', hsame⟩ := hkept
    refine Or.inr ⟨⟨w', hw', by rw [hsame]; exact hpc⟩, ?_, fun h => absurd h hact⟩
    rw [htoGo, Helper.toGo, hw']
    exact Nat.le_of_eq (congrArg WorkerPc.toGo hsame)

/-- Worker `j` is inside the call of a task. -/
def InTask (j : Nat) (s : State) : Prop :=
  ∃ w t, s.workers[j]? = some w ∧ w.native.pc = .running t

theorem inTask_kept {cfg : Config} {j : Nat} (s : State) (a : Action) (s' : State)
    (hr : (pool cfg).Reachable s) (hj : InTask j s) (hstep : (pool cfg).step s a = some s')
    (hact : ¬a.worker? = some j) : InTask j s' := by
  obtain ⟨w, t, hw, hpc⟩ := hj
  obtain ⟨w', hw', hsame⟩ := (move_of_step hr hstep).pc_kept (wired_of_reachable hr) hw hact
    (by rw [hpc]; simp) (by rw [hpc]; rfl)
  exact ⟨w', t, hw', hsame.trans hpc⟩

section Liveness

variable {cfg : Config} {ρ : (pool cfg).Run} {n : Nat} {t : Task}

/-- Where every called task ends, a worker treated fairly outside its tasks is
treated fairly. -/
theorem fair_worker (hworkers : ∀ j, ρ.FairOutside (InTask j) fun a => a.worker? = some j)
    (htasks : ∀ j, ρ.Ends (InTask j)) (j : Nat) : ρ.Fair fun a => a.worker? = some j :=
  (hworkers j).fair inTask_kept (htasks j)

/-- Until it is taken, a task stays in the queue of a pool that keeps
running. -/
theorem waits_or_taken (hrun : ρ.Always n fun s => s.sh.running = true)
    (ht : t ∈ (ρ.state n).sh.tasks) :
    ρ.Always n fun s => t ∈ s.sh.tasks ∨ t ∈ taken s.sh.hist := by
  intro m hm
  induction hm with
  | refl => exact Or.inl ht
  | @step m hm ih =>
      have hr := ρ.reachable m
      have hwired := wired_of_reachable hr
      have hmove := move_of_step hr (ρ.next m)
      rcases ih with hqueued | htaken
      · exact Crew.Advance.waits (hmove.advance hwired (flagged_of_reachable hr) (hrun m hm)
          (hrun (m + 1) (Nat.le_succ_of_le hm)) hqueued)
      · exact Or.inr (((hmove.hist_grows hwired (numbered_of_reachable hr)).filterMap
          WorkEvent.taken?).subset htaken)

/-- In a fair run of a pool that keeps running and is served, a queued task
is taken. -/
theorem eventually_taken (hworkers : ∀ j, ρ.Fair fun a => a.worker? = some j)
    (hcalls : ∀ k, ρ.Fair fun a => a.call? = some k)
    (hrun : ρ.Always n fun s => s.sh.running = true)
    (hserved : ρ.Always n fun s => ∃ w ∈ s.workers, w.serving = true)
    (ht : t ∈ (ρ.state n).sh.tasks) :
    ρ.Eventually n fun s => t ∈ taken s.sh.hist := by
  have hwaits : ∀ m, n ≤ m → t ∉ taken (ρ.state m).sh.hist → t ∈ (ρ.state m).sh.tasks :=
    fun m hm hnot => (waits_or_taken hrun ht m hm).resolve_right hnot
  have hwindows := fun m => windowsEmpty_of_reachable (ρ.reachable m)
  have hfair : ∀ i : Helper, ρ.Fair i.party := by
    intro i
    cases i with
    | worker j => exact hworkers j
    | call k => exact hcalls k
  have hhelped : Run.Helped ρ n Helper.party (fun s => t ∈ taken s.sh.hist)
      Helper.helps (fun s => crew.toDo t s.service) Helper.toGo := by
    constructor
    · exact fun m hm hnot => exists_helper (covered_of_reachable (ρ.reachable m))
        (hwindows m) (hwaits m hm hnot) (hserved m hm)
    · intro i n' hn' hstay
      refine hfair i n' fun m hm => ?_
      obtain ⟨hnot, hi⟩ := hstay m hm
      refine Helper.enabled (wired_of_reachable (ρ.reachable m))
        (globalMutexFree_iff.mpr fun w hw hwindow => ?_) hi
      have hempty := hwindows m w hw hwindow
      have hqueued := hwaits m (Nat.le_trans hn' hm) hnot
      rw [hempty] at hqueued
      exact absurd hqueued List.not_mem_nil
    · intro m hm hnot i hi
      have hr := ρ.reachable m
      have hqueued := hwaits m hm hnot
      have hmove := move_of_step hr (ρ.next m)
      exact hmove.helps (hmove.advance (wired_of_reachable hr) (flagged_of_reachable hr)
        (hrun m hm) (hrun (m + 1) (Nat.le_succ_of_le hm)) hqueued) (hwindows m) hqueued
        (hserved m hm) hi
  exact hhelped.eventually

/-- In a fair run a task a worker has taken is called to its end or put away,
whatever becomes of the pool. -/
theorem eventually_over (hworkers : ∀ j, ρ.Fair fun a => a.worker? = some j)
    (ht : t ∈ taken (ρ.state n).sh.hist) : ρ.Eventually n (Over t) := by
  have htaken : ρ.Always n fun s => t ∈ taken s.sh.hist :=
    Run.always_of_step ht fun s a s' hr ht hstep =>
      (((move_of_step hr hstep).hist_grows (wired_of_reachable hr)
        (numbered_of_reachable hr)).filterMap WorkEvent.taken?).subset ht
  have hhelped : Run.Helped ρ n (fun j a => a.worker? = some j) (Over t) (Carries t)
      (fun _ => 0) fun j => (Helper.worker j).toGo := by
    constructor
    · exact fun m hm hnot =>
        exists_carries (lawful_of_reachable (ρ.reachable m)) (htaken m hm) hnot
    · refine fun j n' hn' hstay => hworkers j n' fun m hm => ?_
      obtain ⟨-, w, hw, hpc⟩ := hstay m hm
      have hindex := (wired_of_reachable (ρ.reachable m)).index j w hw
      refine ⟨.worker j false, rfl, ?_⟩
      rcases hpc with hpc | hpc
      · cases hcall : t.callable <;>
          simp [pool, step, workerStep, boundStep, workerLoop, hw, hpc, hindex, hcall]
      · simp [pool, step, workerStep, boundStep, workerLoop, hw, hpc, hindex]
    · intro m hm hnot j hj
      have hr := ρ.reachable m
      rcases (move_of_step hr (ρ.next m)).carries (wired_of_reachable hr) hj with
        hover | ⟨hcarries, hle, hlt⟩
      · exact Or.inr (Or.inl hover)
      · exact Or.inr (Or.inr ⟨Nat.le_refl _, hcarries, hle, hlt⟩)
  exact hhelped.eventually

/-- In a fair run of a pool that keeps running and is served, what has been
accepted and not discarded is over in the end. -/
theorem eventually_over_of_accepted
    (hworkers : ∀ j, ρ.Fair fun a => a.worker? = some j)
    (hcalls : ∀ k, ρ.Fair fun a => a.call? = some k)
    (hrun : ρ.Always n fun s => s.sh.running = true)
    (hserved : ρ.Always n fun s => ∃ w ∈ s.workers, w.serving = true)
    (hacc : t ∈ accepted (ρ.state n).sh.hist)
    (hkept : t ∉ discarded (ρ.state n).sh.hist) : ρ.Eventually n (Over t) := by
  have htaken : ρ.Eventually n fun s => t ∈ taken s.sh.hist := by
    rcases (lawful_of_reachable (ρ.reachable n)).queued_or_taken hacc hkept with
      hqueued | htaken
    · exact eventually_taken hworkers hcalls hrun hserved hqueued
    · exact ⟨n, Nat.le_refl n, htaken⟩
  obtain ⟨k, hk, htaken⟩ := htaken
  obtain ⟨l, hl, hover⟩ := eventually_over hworkers htaken
  exact ⟨l, Nat.le_trans hk hl, hover⟩

/-- No task starves. Take any run of the pool that is fair to the calls, and to
the workers outside their tasks, and in which every called task ends; and a
time from which on the pool keeps running and always has a serving worker.
Every task accepted by any later time and not discarded before is called to
its end, or put away if it is empty. -/
theorem no_task_starves
    (hworkers : ∀ j, ρ.FairOutside (InTask j) fun a => a.worker? = some j)
    (htasks : ∀ j, ρ.Ends (InTask j)) (hcalls : ∀ k, ρ.Fair fun a => a.call? = some k)
    (hrun : ρ.Always n fun s => s.sh.running = true)
    (hserved : ρ.Always n fun s => ∃ w ∈ s.workers, w.serving = true) {m : Nat}
    (hm : n ≤ m) (hacc : t ∈ accepted (ρ.state m).sh.hist)
    (hkept : t ∉ discarded (ρ.state m).sh.hist) :
    ρ.Eventually m fun s =>
      if t.callable then t ∈ finished s.sh.hist else t ∈ dropped s.sh.hist := by
  obtain ⟨k, hk, hover⟩ := eventually_over_of_accepted (fair_worker hworkers htasks) hcalls
    (hrun.mono hm) (hserved.mono hm) hacc hkept
  have hr := ρ.reachable k
  exact ⟨k, hk, fate_of_over (lawful_of_reachable hr) (tested_of_reachable hr) hover⟩

end Liveness

/-! ## A run that comes to rest -/

/-- When every worker sleeps and every call is back, no worker and no call
can move. -/
theorem not_enabled_of_rest (cfg : Config) {s : State}
    (hworkers : ∀ w ∈ s.workers, w.native.pc = .blocked false)
    (hcalls : ∀ c ∈ s.calls, c.pc = .returned) :
    (∀ j, ¬(pool cfg).Enabled (fun a => a.worker? = some j) s) ∧
      ∀ k, ¬(pool cfg).Enabled (fun a => a.call? = some k) s := by
  constructor
  · rintro j ⟨a, ha, hsome⟩
    cases a with
    | worker i throws =>
        rw [show (pool cfg).step s (.worker i throws) = workerStep s i throws from rfl] at hsome
        cases hw : s.workers[i]? with
        | none => simp [workerStep, hw] at hsome
        | some w =>
            have hpc := hworkers w (List.mem_of_getElem? hw)
            simp only [workerStep, hw, hpc, boundStep] at hsome
            cases hslot : s.workers[w.native.index]? <;> simp [hslot, workerLoop] at hsome
    | _ => cases ha
  · rintro k ⟨a, ha, hsome⟩
    cases a with
    | enqueue i pick =>
        rw [show (pool cfg).step s (.enqueue i pick) = enqueueStep s i pick from rfl] at hsome
        cases hc : s.calls[i]? with
        | none => simp [enqueueStep, hc] at hsome
        | some c => simp [enqueueStep, hc, hcalls c (List.mem_of_getElem? hc)] at hsome
    | _ => cases ha

theorem not_inTask_of_asleep {s : State}
    (hworkers : ∀ w ∈ s.workers, w.native.pc = .blocked false) (j : Nat) : ¬InTask j s := by
  rintro ⟨w, t, hw, hpc⟩
  rw [hworkers w (List.mem_of_getElem? hw)] at hpc
  cases hpc

/-- One worker, one call; the task is called and everybody goes to sleep. -/
def serving : List Action :=
  starting 2 ++ works 0 1 ++ enqueuing 0 true ++ [.enqueue 0 none] ++ works 0 17

/-- The law applied to that run, from the time the task is queued. -/
theorem no_task_starves_run : ∃ (ρ : (pool (.ofHardware 1)).Run) (t : Task),
    t ∈ (ρ.state 10).sh.tasks ∧ ρ.Eventually 10 fun s =>
      if t.callable then t ∈ finished s.sh.hist else t ∈ dropped s.sh.hist := by
  have hend : ((pool (.ofHardware 1)).run serving).any (fun s =>
      decide ((∀ w ∈ s.workers, w.native.pc = .blocked false) ∧
        (∀ c ∈ s.calls, c.pc = .returned) ∧ s.sh.running = true ∧
        ∃ w ∈ s.workers, w.serving = true)) = true := by decide +kernel
  obtain ⟨s, hrun, hs⟩ := (Option.any_eq_true _ _).mp hend
  obtain ⟨hworkers, hcalls, hrunning, hserved⟩ := of_decide_eq_true hs
  obtain ⟨hrestW, hrestC⟩ := not_enabled_of_rest (.ofHardware 1) hworkers hcalls
  let ρ : (pool (.ofHardware 1)).Run := .thenIdle (.tick 0) hrun rfl
  have hqueued : ⟨0, true⟩ ∈ (ρ.state 10).sh.tasks := by
    show _ ∈ ((pool (.ofHardware 1)).follow _ serving 10).sh.tasks
    decide +kernel
  refine ⟨ρ, ⟨0, true⟩, hqueued, no_task_starves
    (fun j => (Run.fair_thenIdle (hrestW j)).outside)
    (fun j => Run.ends_thenIdle (not_inTask_of_asleep hworkers j))
    (fun k => Run.fair_thenIdle (hrestC k))
    (Run.always_thenIdle (by decide +kernel) hrunning)
    (Run.always_thenIdle (by decide +kernel) hserved) (Nat.le_refl 10) ?_ ?_⟩
  · show _ ∈ accepted ((pool (.ofHardware 1)).follow _ serving 10).sh.hist
    decide +kernel
  · show _ ∉ discarded ((pool (.ofHardware 1)).follow _ serving 10).sh.hist
    decide +kernel

end ThreadPool.Normal
