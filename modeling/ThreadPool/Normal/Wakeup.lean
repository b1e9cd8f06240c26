import ThreadPool.Lib.Wakeup
import ThreadPool.Normal.Headcount

/-!
# No wake-up is lost for a task

The pool refines the gate of `Lib.Wakeup`: the sleepers are the workers in
`global_cond_` that have not been signalled, the awake are those that have,
and those past their wait that have not made their pop attempt; owed are the
notifications of the `Enqueue` calls between push and `NotifyOne`.

`Enqueue` notifies after it has released the lock, a signalled worker may
find its task taken by another, and a worker marked by `ShrinkThreads` uses
up a signal before it leaves. The gate allows all of that. What it does not
allow is a worker falling asleep over a queue that is not empty. That never
happens here, because a worker that found the queue empty keeps
`global_mutex_` until it is blocked (`Move.windowsEmpty`).
-/

namespace ThreadPool.Normal

open Interleave Relation Machine

/-- Blocked in `global_cond_` and not signalled. -/
def Worker.asleep (w : Worker) : Bool := w.native.pc = .blocked false

/-- Signalled, or past the wait, and yet to make its pop attempt. -/
def Worker.awake (w : Worker) : Bool :=
  match w.native.pc with
  | .blocked true | .clearIdle | .pop => true
  | _ => false

/-- Between push and `NotifyOne`. -/
def Call.owes (c : Call) : Bool := c.pc = .notify

def State.gate (s : State) : Gate where
  queued := s.sh.tasks.length
  asleep := s.census Worker.asleep
  awake := s.census Worker.awake
  owed := s.calls.countP Call.owes

theorem Worker.not_waiting_of_ended {w : Worker} (h : w.native.pc.isEnded = true) :
    w.asleep = false ∧ w.awake = false := by
  unfold Worker.asleep Worker.awake
  cases hpc : w.native.pc <;> rw [hpc] at h <;> first | exact ⟨rfl, rfl⟩ | cases h

/-! ## A worker between predicate and blocking -/

/-- Whoever has found the predicate false and still holds the mutex has the
queue empty. -/
def WindowsEmpty (s : State) : Prop :=
  ∀ w ∈ s.workers, w.native.pc = .window → s.sh.tasks = []

theorem globalMutexFree_iff {s : State} :
    s.globalMutexFree = true ↔ ∀ w ∈ s.workers, w.native.pc ≠ .window := by
  simp [State.globalMutexFree]

theorem waitPredicate_false {sh : Shared} {fl : Flags}
    (h : waitPredicate sh fl = false) :
    sh.tasks = [] ∧ fl.shouldExit = false ∧ sh.running = true := by
  simpa [waitPredicate, and_assoc] using h

theorem LoopStep.windows {sh sh' : Shared} {free throws : Bool} {self : Nat}
    {pc pc' : WorkerPc} {fl fl' : Flags}
    (h : LoopStep sh free self throws pc fl sh' pc' fl') :
    (sh'.tasks = sh.tasks ∨ free = true) ∧ (pc' = .window → sh'.tasks = []) := by
  cases h with
  | pops t rest hfree => exact ⟨Or.inr hfree, nofun⟩
  | sleeps hpc hfree hpred => exact ⟨Or.inl rfl, fun _ => (waitPredicate_false hpred).1⟩
  | _ => exact ⟨Or.inl rfl, nofun⟩

theorem WindowsEmpty.put {s : State} {j : Nat} {w' : Worker} {sh : Shared}
    (hs : WindowsEmpty s) (hsh : sh.tasks = s.sh.tasks ∨ s.globalMutexFree = true)
    (hpc : w'.native.pc = .window → sh.tasks = []) :
    WindowsEmpty ({ s with sh := sh }.put j w') := by
  refine forall_mem_set (fun w hw hwindow => ?_) hpc
  rcases hsh with hsame | hfree
  · exact hsame.trans (hs w hw hwindow)
  · exact absurd hwindow (globalMutexFree_iff.mp hfree w hw)

theorem Move.windowsEmpty {cfg : Config} {s s' : State} {a : Action}
    (hs : WindowsEmpty s) (h : Move cfg s a s') : WindowsEmpty s' := by
  cases h with
  | pushes hc hpc hfree =>
      exact fun w hw hwindow => absurd hwindow (globalMutexFree_iff.mp hfree w hw)
  | notifies | registers | ends | spurious =>
      exact hs.put (Or.inl rfl) (by simp [Worker.goto])
  | loops hw hstep => exact hs.put hstep.windows.1 hstep.windows.2
  | startFails | startUnmonitored | starts | expands =>
      exact forall_mem_append_fresh hs fun _ hwindow => by cases hwindow
  | notifiesAll | shrinkNotifies =>
      exact forall_mem_notifyAll hs fun _ _ _ hwindow => by cases hwindow
  | joined hc hw | destroyJoined hc hw | marks _ _ hw | expandThrows _ _ _ hw =>
      exact hs.put (Or.inl rfl) fun hwindow => hs _ (List.mem_of_getElem? hw) hwindow
  | cleared => exact fun _ hw => absurd hw List.not_mem_nil
  | clearTasks => exact fun _ _ _ => rfl
  | _ => exact hs

theorem windowsEmpty_of_reachable {cfg : Config} {s : State}
    (hr : (pool cfg).Reachable s) : WindowsEmpty s :=
  hr.invariant (fun _ hw => absurd hw List.not_mem_nil) fun _ _ _ hr hs hstep =>
    (move_of_step hr hstep).windowsEmpty hs

/-! ## The pool refines the gate -/

theorem gate_put {s : State} {j : Nat} {w w' : Worker} (hw : s.workers[j]? = some w)
    (hasleep : w'.asleep = w.asleep) (hawake : w'.awake = w.awake) :
    (s.put j w').gate = s.gate := by
  rw [State.gate, census_put_same hw hasleep, census_put_same hw hawake]
  rfl

/-- A step of the loop, seen as a gate. -/
theorem LoopStep.gate {s : State} {j : Nat} {throws : Bool} {w : Worker} {sh : Shared}
    {pc : WorkerPc} {fl : Flags} (hs : WindowsEmpty s) (hw : s.workers[j]? = some w)
    (hstep : LoopStep s.sh s.globalMutexFree w.native.self throws w.native.pc w.flags
      sh pc fl) :
    ({ s with sh := sh }.put j ({ w with flags := fl }.goto pc)).gate = s.gate ∨
      Gate.Step s.gate
        ({ s with sh := sh }.put j ({ w with flags := fl }.goto pc)).gate := by
  have hasleep : w.asleep = decide (w.native.pc = .blocked false) := rfl
  have hawake := Worker.awake.eq_1 w
  have hwindow : w.native.pc = .window → s.sh.tasks = [] :=
    hs w (List.mem_of_getElem? hw)
  have hgate : ∀ w', ({ s with sh := sh }.put j w').gate =
      ⟨sh.tasks.length, (s.put j w').census Worker.asleep,
        (s.put j w').census Worker.awake, s.calls.countP Call.owes⟩ := fun _ => rfl
  rw [hgate, State.gate]
  generalize hpc : w.native.pc = pc₀ at hstep hasleep hawake hwindow
  cases hstep with
  | passes hwait hfree hpred =>
      rw [census_put_same hw (by rcases hwait with rfl | rfl <;> exact hasleep.symm)]
      rcases hwait with rfl | rfl
      · rw [census_put_gain hw hawake rfl]
        exact Or.inr .arrive
      · rw [census_put_same hw (by exact hawake.symm)]
        exact Or.inl rfl
  | sleeps hwait hfree hpred =>
      rw [census_put_same hw (by rcases hwait with rfl | rfl <;> exact hasleep.symm)]
      rcases hwait with rfl | rfl
      · rw [census_put_same hw (by exact hawake.symm)]
        exact Or.inl rfl
      · have hlose := census_put_lose hw (w.goto .window) hawake rfl
        rw [hlose, (waitPredicate_false hpred).1]
        exact Or.inr .turnAway
  | blocks =>
      rw [census_put_gain hw (by exact hasleep) (by exact rfl),
        census_put_same hw (by exact hawake.symm), hwindow rfl]
      exact Or.inr .sleep
  | misses hfree htasks =>
      have hlose := census_put_lose hw (w.goto (.holding none)) hawake rfl
      rw [census_put_same hw (by exact hasleep.symm), hlose, htasks]
      exact Or.inr .turnAway
  | pops t rest hfree htasks =>
      have hlose := census_put_lose hw (w.goto (.holding (some t))) hawake rfl
      rw [census_put_same hw (by exact hasleep.symm), hlose, htasks]
      exact Or.inr .take
  | _ =>
      refine Or.inl ?_
      rw [census_put_same hw (by exact hasleep.symm),
        census_put_same hw (by exact hawake.symm)]

theorem gate_signal {ws : List Worker} {i : Nat} {w : Worker} (hw : ws[i]? = some w)
    (hblocked : w.native.pc = .blocked false) :
    ws.countP Worker.asleep =
        (ws.set i (w.goto (.blocked true))).countP Worker.asleep + 1 ∧
      (ws.set i (w.goto (.blocked true))).countP Worker.awake =
        ws.countP Worker.awake + 1 :=
  ⟨countP_set_lose hw _ (by simp [Worker.asleep, hblocked]) rfl,
    countP_set_gain hw (by simp [Worker.awake, hblocked]) rfl⟩

theorem gate_append {s : State} (n : Nat) :
    (s.workers ++ freshWorkers s.workers.length s.nextHandle n).countP Worker.asleep =
        s.workers.countP Worker.asleep ∧
      (s.workers ++ freshWorkers s.workers.length s.nextHandle n).countP Worker.awake =
        s.workers.countP Worker.awake := by
  rw [List.countP_append, List.countP_append, countP_fresh n fun _ => rfl,
    countP_fresh n fun _ => rfl]
  exact ⟨rfl, rfl⟩

theorem gate_notifyAll (ws : List Worker) :
    (notifyAll ws).countP Worker.asleep = 0 ∧
      (notifyAll ws).countP Worker.awake =
        ws.countP Worker.awake + ws.countP Worker.asleep := by
  constructor
  · refine List.countP_eq_zero.mpr fun w' hw' => ?_
    obtain ⟨w, hw, ⟨hawake, rfl⟩ | ⟨-, rfl⟩⟩ := mem_notifyAll hw'
    · simp [Worker.asleep, hawake]
    · simp [Worker.asleep, Worker.goto]
  · exact countP_notifyAll_add (fun w hblocked => by simp [Worker.awake, hblocked])
      (fun _ => rfl) ws

/-- Every move of the pool is a move of the gate, or none. -/
theorem Move.gate {cfg : Config} {s s' : State} {a : Action} (hs : WindowsEmpty s)
    (hwired : Wired s) (h : Move cfg s a s') :
    s'.gate = s.gate ∨ Gate.Step s.gate s'.gate := by
  cases h with
  | call callable =>
      refine Or.inl ?_
      simp [State.gate, State.census, Call.owes]
  | rejected hc hpc | accepted hc hpc | hints hc hpc =>
      refine Or.inl ?_
      simp only [State.gate, State.census]
      rw [countP_set_same hc (by simp [Call.owes, hpc])]
  | pushes hc hpc hfree =>
      refine Or.inr ?_
      simp only [State.gate, State.census, List.length_append, List.length_singleton]
      rw [countP_set_gain hc (by simp [Call.owes, hpc]) rfl]
      exact .push
  | @notifies k i c w hc hpc hw hblocked =>
      obtain ⟨hasleep, hawake⟩ := gate_signal hw hblocked
      have howed := countP_set_lose hc { c with pc := .hint }
        (show c.owes = true by simp [Call.owes, hpc]) rfl
      refine Or.inr ?_
      simp only [State.gate, State.census]
      rw [hasleep, hawake, howed]
      exact .notify
  | @notifiesNobody k c hc hpc hnone =>
      have hasleep : s.workers.countP Worker.asleep = 0 :=
        List.countP_eq_zero.mpr fun w hw => by simpa [Worker.asleep] using hnone w hw
      have howed := countP_set_lose hc { c with pc := .hint }
        (show c.owes = true by simp [Call.owes, hpc]) rfl
      refine Or.inr ?_
      simp only [State.gate, State.census]
      rw [hasleep, howed]
      exact .notifyNobody
  | registers hw hpc =>
      exact Or.inl (gate_put hw (by simp [Worker.asleep, Worker.goto, hpc])
        (by simp [Worker.awake, Worker.goto, hpc]))
  | loops hw hstep => exact hstep.gate hs hw
  | ends hw hpc =>
      exact Or.inl (gate_put hw (by simp [Worker.asleep, Worker.goto, hpc])
        (by simp [Worker.awake, Worker.goto, hpc]))
  | spurious hw hblocked =>
      obtain ⟨hasleep, hawake⟩ := gate_signal hw hblocked
      refine Or.inr ?_
      simp only [State.gate, State.census, State.put]
      rw [hasleep, hawake]
      exact .rouse
  | startFails n | expands n =>
      refine Or.inl ?_
      simp only [State.gate, State.census, State.monitorGoto, gate_append]
  | startUnmonitored | starts =>
      refine Or.inl ?_
      simp only [State.gate, State.census, gate_append]
  | notifiesAll | shrinkNotifies =>
      refine Or.inr ?_
      simp only [State.gate, State.census, State.monitorGoto, gate_notifyAll]
      exact .broadcast
  | joined hc hw | destroyJoined hc hw | marks _ _ hw | expandThrows _ _ _ hw =>
      exact Or.inl (gate_put hw rfl rfl)
  | cleared hc =>
      have hended : ∀ w ∈ s.workers, w.asleep = false ∧ w.awake = false := fun w hw =>
        Worker.not_waiting_of_ended (hwired.ended_of_clear hc w hw)
      have hasleep : s.workers.countP Worker.asleep = 0 :=
        List.countP_eq_zero.mpr fun w hw => by simp [hended w hw]
      have hawake : s.workers.countP Worker.awake = 0 :=
        List.countP_eq_zero.mpr fun w hw => by simp [hended w hw]
      refine Or.inl ?_
      simp only [State.gate, State.census, hasleep, hawake, List.countP_nil]
  | clearTasks => exact Or.inr .drain
  | _ => exact Or.inl rfl

theorem covered_of_reachable {cfg : Config} {s : State} (hr : (pool cfg).Reachable s) :
    s.gate.Covered := by
  have hsteps := hr.simulates (R := Gate.Step) State.gate fun s a s' hr _ hstep => by
    rcases (move_of_step hr.reachable hstep).gate (windowsEmpty_of_reachable hr.reachable)
        (wired_of_reachable hr.reachable) with hsame | hmove
    · rw [hsame]
    · exact .single hmove
  exact Gate.covered_of_steps hsteps fun h => absurd h (Nat.not_lt_zero 0)

/-- Still in `WorkerLoop`. -/
def Worker.live (w : Worker) : Bool :=
  match w.native.pc with
  | .entry _ | .ended _ => false
  | _ => true

theorem Worker.live_of_awake {w : Worker} (h : w.awake = true) : w.live = true := by
  unfold Worker.awake at h
  unfold Worker.live
  cases hpc : w.native.pc <;> rw [hpc] at h <;> first | rfl | cases h

theorem Worker.awake_of_asleep {w : Worker} (h : w.asleep = true) :
    w.awake = false := by
  unfold Worker.asleep at h
  rw [Worker.awake, of_decide_eq_true h]

/-- While a worker sleeps unsignalled, every queued task has a worker on its
way to the queue or a notification to come; so it does not happen that tasks
are queued, all notifications have been made and all live workers sleep. -/
theorem wakeup_not_lost {cfg : Config} {s : State} (hr : (pool cfg).Reachable s) :
    ((∃ w ∈ s.workers, w.asleep = true) →
      s.sh.tasks.length ≤
        s.workers.countP Worker.awake + s.calls.countP Call.owes) ∧
      ¬(s.sh.tasks ≠ [] ∧ (∀ c ∈ s.calls, c.owes = false) ∧
        (∃ w ∈ s.workers, w.live = true) ∧
        ∀ w ∈ s.workers, w.live = true → w.asleep = true) := by
  have hcovered := covered_of_reachable hr
  refine ⟨fun ⟨w, hw, hasleep⟩ => hcovered (List.countP_pos_iff.mpr ⟨w, hw, hasleep⟩), ?_⟩
  rintro ⟨htasks, hcalls, ⟨w, hw, hlive⟩, hsleep⟩
  have hasleep : 0 < s.gate.asleep := List.countP_pos_iff.mpr ⟨w, hw, hsleep w hw hlive⟩
  have hawake : s.gate.awake = 0 := by
    refine List.countP_eq_zero.mpr fun v hv hawake => ?_
    rw [Worker.awake_of_asleep (hsleep v hv (Worker.live_of_awake hawake))] at hawake
    cases hawake
  have howed : s.gate.owed = 0 :=
    List.countP_eq_zero.mpr fun c hc => by simp [hcalls c hc]
  exact htasks (List.length_eq_zero_iff.mp (hcovered.queued_eq_zero hasleep hawake howed))

/-- A worker sleeps while another, woken for the first of two tasks, is on its
way and the second notification is still to come. -/
theorem wakeup_not_lost_run : ∃ s : State,
    s.workers.map (fun w => w.native.pc) = [.blocked true, .blocked false] ∧
      s.sh.tasks.length = 2 ∧ s.calls.map Call.pc = [.hint, .notify] ∧
      ((∃ w ∈ s.workers, w.asleep = true) →
        s.sh.tasks.length ≤
          s.workers.countP Worker.awake + s.calls.countP Call.owes) ∧
      ¬(s.sh.tasks ≠ [] ∧ (∀ c ∈ s.calls, c.owes = false) ∧
        (∃ w ∈ s.workers, w.live = true) ∧
        ∀ w ∈ s.workers, w.live = true → w.asleep = true) := by
  obtain ⟨s, hr, hpcs, htasks, hcalls⟩ := exists_of_run (pool (.ofHardware 2))
    (starting 3 ++ works 0 9 ++ works 1 9 ++
      [.call true, .call true, .enqueue 0 none, .enqueue 0 none, .enqueue 0 (some 0),
        .enqueue 1 none, .enqueue 1 none])
    (fun s => s.workers.map (fun w => w.native.pc) = [.blocked true, .blocked false] ∧
      s.sh.tasks.length = 2 ∧ s.calls.map Call.pc = [.hint, .notify])
    (by decide +kernel)
  exact ⟨s, hpcs, htasks, hcalls, wakeup_not_lost hr⟩

end ThreadPool.Normal
