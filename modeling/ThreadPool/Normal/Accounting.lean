import ThreadPool.Normal.Headcount

/-!
# What the counter and the flags say

`valid_thread_count_`, `is_valid` and `is_idle` are kept by hand at the ends
of `WorkerLoop`. The two flags of a slot are a function of where its thread
stands (`Flagged`), and the counter counts the threads that are booked:
those that have been through `fetch_add` and not through `fetch_sub`
(`Tallied`). A task that throws takes its thread out of the loop past both
`is_valid = false` and `fetch_sub`, so that thread stays booked, and its
slot valid, until `Stop` clears the vector. That is the whole error of the
counter: it is right exactly where no thread has gone that way.
-/

namespace ThreadPool.Normal

open Interleave Machine

/-! ## Where a thread stands -/

/-- In the loop, from the first test of its condition to the last. -/
def WorkerPc.inLoop : WorkerPc → Bool
  | .testExit | .testRunning | .setIdle | .setIdleTime | .wait | .window | .blocked _
  | .clearIdle | .pop | .holding _ | .running _ => true
  | _ => false

/-- After `fetch_add` and before `fetch_sub`, inside `WorkerLoop`. -/
def WorkerPc.counted : WorkerPc → Bool
  | .clearValid | .exitIdle | .fetchSub => true
  | pc => pc.inLoop

/-- Out of `WorkerLoop` by the exception of a task. -/
def WorkerPc.threw : WorkerPc → Bool
  | .entry threw | .ended threw => threw
  | _ => false

/-- After `fetch_add` without having been through `fetch_sub`. -/
def WorkerPc.booked (pc : WorkerPc) : Bool := pc.counted || pc.threw

/-- What the slot's `is_valid` says at this point. -/
def WorkerPc.valid : WorkerPc → Bool
  | .fetchAdd | .clearValid => true
  | pc => pc.inLoop || pc.threw

/-- What the slot's `is_idle` says at this point. -/
def WorkerPc.idle : WorkerPc → Bool
  | .setIdleTime | .wait | .window | .blocked _ | .clearIdle => true
  | _ => false

def Worker.inLoop (w : Worker) : Bool := w.native.pc.inLoop
def Worker.counted (w : Worker) : Bool := w.native.pc.counted
def Worker.threw (w : Worker) : Bool := w.native.pc.threw
def Worker.booked (w : Worker) : Bool := w.native.pc.booked

/-! ## The flags -/

/-- The flags of a slot tell where its thread stands. -/
def Flagged (s : State) : Prop :=
  ∀ w ∈ s.workers, w.flags.isValid = w.native.pc.valid ∧
    w.flags.isIdle = w.native.pc.idle

theorem LoopStep.flagged {sh sh' : Shared} {free throws : Bool} {self : Nat}
    {pc pc' : WorkerPc} {fl fl' : Flags}
    (h : LoopStep sh free self throws pc fl sh' pc' fl')
    (hfl : fl.isValid = pc.valid ∧ fl.isIdle = pc.idle) :
    fl'.isValid = pc'.valid ∧ fl'.isIdle = pc'.idle := by
  cases h with
  | setValid => exact ⟨rfl, hfl.2⟩
  | setIdle => exact ⟨hfl.1, rfl⟩
  | clearIdle => exact ⟨hfl.1, rfl⟩
  | clearValid => exact ⟨rfl, hfl.2⟩
  | exitIdle => exact ⟨hfl.1, rfl⟩
  | passes hpc | sleeps hpc => rcases hpc with rfl | rfl <;> exact hfl
  | _ => exact hfl

theorem Move.flagged {cfg : Config} {s s' : State} {a : Action} (hs : Flagged s)
    (h : Move cfg s a s') : Flagged s' := by
  cases h with
  | notifies _ _ hw hpc | registers hw hpc | ends hw hpc | spurious hw hpc =>
      have hold := hs _ (List.mem_of_getElem? hw)
      rw [hpc] at hold
      exact forall_mem_set hs hold
  | loops hw hstep =>
      exact forall_mem_set hs (hstep.flagged (hs _ (List.mem_of_getElem? hw)))
  | joined _ hw | destroyJoined _ hw | marks _ _ hw | expandThrows _ _ _ hw =>
      have hold := hs _ (List.mem_of_getElem? hw)
      exact forall_mem_set hs hold
  | startFails | startUnmonitored | starts | expands =>
      exact forall_mem_append_fresh hs fun _ => ⟨rfl, rfl⟩
  | notifiesAll | shrinkNotifies =>
      refine forall_mem_notifyAll hs fun w hw hblocked => ?_
      have hold := hs w hw
      rw [hblocked] at hold
      exact hold
  | cleared => exact fun _ hw => absurd hw List.not_mem_nil
  | _ => exact hs

theorem flagged_of_reachable {cfg : Config} {s : State} (hr : (pool cfg).Reachable s) :
    Flagged s :=
  hr.invariant (fun _ hw => absurd hw List.not_mem_nil) fun _ _ _ hr hs hstep =>
    (move_of_step hr hstep).flagged hs

/-! ## The counter -/

/-- The counter counts the booked threads, except between `workers_.clear()`
and the reset of the counter. -/
def Tallied (s : State) : Prop :=
  (∃ p, s.control = .stop p .count) ∨
    s.sh.validThreadCount = s.census Worker.booked

/-- The counter follows the threads. At `fetch_sub` it is positive, because
the thread itself is counted. -/
theorem LoopStep.booked {sh sh' : Shared} {free throws : Bool} {w : Worker}
    {pc' : WorkerPc} {fl' : Flags}
    (h : LoopStep sh free w.native.self throws w.native.pc w.flags sh' pc' fl')
    (hpos : w.booked = true → 0 < sh.validThreadCount) :
    sh'.validThreadCount + tally Worker.booked w =
      sh.validThreadCount + tally Worker.booked ({ w with flags := fl' }.goto pc') := by
  have hbooked : w.booked = w.native.pc.booked := rfl
  generalize w.native.pc = pc at h hbooked
  cases h with
  | fetchAdd => rw [tally_neg hbooked, tally_pos rfl]
  | fetchSub =>
      have hsub := fetchSub_of_pos (hpos hbooked)
      rw [tally_pos hbooked, tally_neg rfl]
      exact hsub
  | passes hpc | sleeps hpc =>
      rcases hpc with rfl | rfl <;> rw [tally_pos hbooked, tally_pos rfl]
  | setValid => rw [tally_neg hbooked, tally_neg rfl]
  | _ => rw [tally_pos hbooked, tally_pos rfl]

/-- The reset of the counter finds no workers. -/
theorem Move.tallied_count {cfg : Config} {s s' : State} {a : Action}
    {p : ShutdownPolicy} (hwired : Wired s) (hc : s.control = .stop p .count)
    (h : Move cfg s a s') : Tallied s' := by
  have hnil := hwired.emptied p (Or.inl hc)
  cases h with
  | resetCount => exact Or.inr (by rw [State.census, hnil]; rfl)
  | hop hhop =>
      rw [hc] at hhop
      cases hhop
  | callsStart hc' | callsStop _ hc' | storeRunning hc' | startFails _ _ hc'
  | startUnmonitored _ hc' | starts hc' | clearMonitoring hc' | joinsMonitor hc'
  | clearRunning hc' | notifiesAll hc' | joined hc' | destroyJoined hc' | cleared hc'
  | clearTasks hc' =>
      rw [hc] at hc'
      cases hc'
  | _ => exact Or.inl ⟨p, hc⟩

theorem booked_append {ws : List Worker} {index handle : Nat} (n : Nat) :
    (ws ++ freshWorkers index handle n).countP Worker.booked =
      ws.countP Worker.booked := by
  rw [List.countP_append, countP_fresh n fun _ => rfl]
  rfl

theorem Move.tallied {cfg : Config} {s s' : State} {a : Action} (hwired : Wired s)
    (hs : Tallied s) (h : Move cfg s a s') : Tallied s' := by
  rcases hs with ⟨p, hc⟩ | heq
  · exact h.tallied_count hwired hc
  · cases h with
    | notifies _ _ hw hpc | registers hw hpc | ends hw hpc | spurious hw hpc =>
        refine Or.inr (heq.trans (census_put_same hw ?_).symm)
        simp only [Worker.booked, Worker.goto, hpc]
        rfl
    | @loops j throws w sh pc fl hw hstep =>
        have hpos : w.booked = true → 0 < s.sh.validThreadCount := fun hbooked => by
          rw [heq]
          exact countP_pos_of_getElem? hw hbooked
        have hcount := hstep.booked hpos
        have hcensus := countP_set_add (p := Worker.booked)
          (b := { w with flags := fl }.goto pc) hw
        rw [State.census] at heq
        refine Or.inr ?_
        simp only [State.put, State.census]
        omega
    | joined _ hw | destroyJoined _ hw | marks _ _ hw | expandThrows _ _ _ hw =>
        refine Or.inr (heq.trans (census_put_same hw ?_).symm)
        rfl
    | startFails n | startUnmonitored | starts | expands n =>
        exact Or.inr (heq.trans (booked_append _).symm)
    | notifiesAll | shrinkNotifies =>
        refine Or.inr (heq.trans (countP_notifyAll (fun w hblocked => ?_) _).symm)
        simp only [Worker.booked, Worker.goto, hblocked]
        rfl
    | cleared => exact Or.inl ⟨_, rfl⟩
    | resetCount hc =>
        refine Or.inr ?_
        rw [State.census, hwired.emptied _ (Or.inl hc)]
        rfl
    | _ => exact Or.inr heq

theorem tallied_of_reachable {cfg : Config} {s : State} (hr : (pool cfg).Reachable s) :
    Tallied s :=
  hr.invariant (Or.inr rfl) fun _ _ _ hr hs hstep =>
    (move_of_step hr hstep).tallied (wired_of_reachable hr) hs

/-! ## When the count tells the truth -/

/-- The counter counts the threads in `WorkerLoop`, and no slot of a thread
that is over is valid. -/
def Truthful (s : State) : Prop :=
  s.sh.validThreadCount = s.census Worker.counted ∧
    ∀ w ∈ s.workers, w.native.pc.isEnded = true → w.flags.isValid = false

instance (s : State) : Decidable (Truthful s) :=
  inferInstanceAs (Decidable (_ ∧ ∀ w ∈ s.workers, _ → _))

theorem census_booked (s : State) :
    s.census Worker.booked = s.census Worker.counted + s.census Worker.threw := by
  simp only [State.census]
  induction s.workers with
  | nil => rfl
  | cons w ws ih =>
      rw [List.countP_cons, List.countP_cons, List.countP_cons, ih]
      have hsplit : (if w.booked = true then 1 else 0) =
          (if w.counted = true then 1 else 0) + if w.threw = true then 1 else 0 := by
        unfold Worker.booked Worker.counted Worker.threw WorkerPc.booked
        cases w.native.pc with
        | entry threw | ended threw => cases threw <;> rfl
        | _ => rfl
      omega

/-- The slot of a thread that is over is valid if and only if a task ended
it. -/
theorem Flagged.isValid_of_ended {s : State} (hs : Flagged s) {w : Worker}
    (hw : w ∈ s.workers) (hended : w.native.pc.isEnded = true) :
    w.flags.isValid = w.threw := by
  rw [(hs w hw).1, Worker.threw]
  cases hpc : w.native.pc <;> rw [hpc] at hended <;> first | rfl | cases hended

/-- No thread of the pool has left `WorkerLoop` by an exception. -/
def NoneThrew (s : State) : Prop := ∀ w ∈ s.workers, w.threw = false

theorem LoopStep.not_threw {sh sh' : Shared} {free throws : Bool} {self : Nat}
    {pc pc' : WorkerPc} {fl fl' : Flags}
    (h : LoopStep sh free self throws pc fl sh' pc' fl') (hthrows : throws = false) :
    pc'.threw = false := by
  cases h with
  | throws t hthrows' =>
      rw [hthrows] at hthrows'
      cases hthrows'
  | _ => rfl

theorem Move.noneThrew {cfg : Config} {s s' : State} {a : Action} (hok : Returning s a)
    (hs : NoneThrew s) (h : Move cfg s a s') : NoneThrew s' := by
  cases h with
  | notifies _ _ hw | registers hw | spurious hw => exact forall_mem_set hs rfl
  | ends hw hpc =>
      have hold := hs _ (List.mem_of_getElem? hw)
      rw [Worker.threw, hpc] at hold
      exact forall_mem_set hs hold
  | loops hw hstep => exact forall_mem_set hs (hstep.not_threw hok)
  | joined _ hw | destroyJoined _ hw | marks _ _ hw | expandThrows _ _ _ hw =>
      have hold := hs _ (List.mem_of_getElem? hw)
      exact forall_mem_set hs hold
  | startFails | startUnmonitored | starts | expands =>
      exact forall_mem_append_fresh hs fun _ => rfl
  | notifiesAll | shrinkNotifies =>
      exact forall_mem_notifyAll hs fun _ _ _ => rfl
  | cleared => exact fun _ hw => absurd hw List.not_mem_nil
  | _ => exact hs

theorem noneThrew_of_reachableWhen {cfg : Config} {s : State}
    (hr : (pool cfg).ReachableWhen Returning s) : NoneThrew s :=
  hr.invariant (fun _ hw => absurd hw List.not_mem_nil) fun _ _ _ hr hs hok hstep =>
    (move_of_step hr.reachable hstep).noneThrew hok hs

theorem truthful_iff {s : State} (hflagged : Flagged s) (htallied : Tallied s)
    (hc : ∀ p, s.control ≠ .stop p .count) : Truthful s ↔ NoneThrew s := by
  have hcount : s.sh.validThreadCount =
      s.census Worker.counted + s.census Worker.threw := by
    rcases htallied with ⟨p, hcount⟩ | heq
    · exact absurd hcount (hc p)
    · rw [heq, census_booked]
  constructor
  · rintro ⟨htrue, -⟩ w hw
    have hzero : s.census Worker.threw = 0 := by omega
    simpa using List.countP_eq_zero.mp hzero w hw
  · intro hnone
    have hzero : s.census Worker.threw = 0 :=
      List.countP_eq_zero.mpr fun w hw => by simp [hnone w hw]
    refine ⟨by omega, fun w hw hended => ?_⟩
    rw [hflagged.isValid_of_ended hw hended]
    exact hnone w hw

/-- The count tells the truth exactly where no thread of the pool has left
`WorkerLoop` by an exception; so it does throughout the runs in which every
task returns. -/
theorem count_truthful {cfg : Config} {s : State} (hc : ∀ p, s.control ≠ .stop p .count) :
    ((pool cfg).Reachable s → (Truthful s ↔ NoneThrew s)) ∧
      ((pool cfg).ReachableWhen Returning s → Truthful s) := by
  have hiff : (pool cfg).Reachable s → (Truthful s ↔ NoneThrew s) := fun hr =>
    truthful_iff (flagged_of_reachable hr) (tallied_of_reachable hr) hc
  exact ⟨hiff, fun hr => (hiff hr.reachable).mpr (noneThrew_of_reachableWhen hr)⟩

/-- The only worker's first task throws; the counter still counts it. -/
theorem count_untruthful :
    ¬∀ (cfg : Config) (s : State), (pool cfg).Reachable s → s.sh.running = true →
      Truthful s := by
  intro hall
  obtain ⟨s, hr, hrun, hbad⟩ := exists_of_run (pool (.ofHardware 1))
    (starting 2 ++ enqueuing 0 true ++ works 0 11 ++ [.worker 0 true, .worker 0 false])
    (fun s => s.sh.running = true ∧ ¬Truthful s)
    (by decide +kernel)
  exact hbad (hall _ s hr hrun)

/-- The same task returns. -/
theorem count_truthful_run : ∃ s : State,
    s.sh.validThreadCount = 1 ∧ finished s.sh.hist = [⟨0, true⟩] ∧
      (Truthful s ↔ NoneThrew s) ∧ Truthful s := by
  obtain ⟨s, hr, hcount, hfinished, hrun⟩ := exists_of_runWhen (pool (.ofHardware 1))
    Returning
    (starting 2 ++ enqueuing 0 true ++ works 0 12)
    (fun s => s.sh.validThreadCount = 1 ∧ finished s.sh.hist = [⟨0, true⟩] ∧
      s.control = .idle .returned)
    (by decide +kernel)
  have hc : ∀ p, s.control ≠ .stop p .count := by simp [hrun]
  exact ⟨s, hcount, hfinished, (count_truthful hc).1 hr.reachable, (count_truthful hc).2 hr⟩

end ThreadPool.Normal
