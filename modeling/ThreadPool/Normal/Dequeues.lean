import ThreadPool.Normal.Draining

/-!
# Dequeues while `running_` is false

A worker that is past the loop condition when the flag falls makes one more
pop attempt, and no other worker makes any. So each thread has a credit of
one or none, a pop spends it, and no step gives one: between the store of
`running_ = false` and the next `Start` the pops are bounded by the credits.
Threads are told apart by their `pthread_self`.
-/

namespace ThreadPool.Normal

open Interleave Machine

/-- How many tasks have been dequeued by threads with a property. -/
def State.dequeues (p : Nat → Bool) (s : State) : Nat := takes p s.sh.hist

/-- The thread has the property and its pop attempt to come. -/
def Worker.credit (p : Nat → Bool) (w : Worker) : Bool := w.pending && p w.native.self

/-! ## Credits are spent and never earned -/

/-- In the loop, while `running_` is false: either nothing is popped and
nobody becomes pending, or one task at most is, at the price of the thread's
being pending. -/
theorem LoopStep.dequeues {sh sh' : Shared} {free throws : Bool} {w : Worker}
    {pc' : WorkerPc} {fl' : Flags} (p : Nat → Bool)
    (h : LoopStep sh free w.native.self throws w.native.pc w.flags sh' pc' fl')
    (hrun : sh.running = false) :
    (takes p sh'.hist = takes p sh.hist ∧
      (({ w with flags := fl' }.goto pc').pending = true → w.pending = true)) ∨
    (takes p sh'.hist = takes p sh.hist + (if p w.native.self then 1 else 0) ∧
      w.pending = true ∧ ({ w with flags := fl' }.goto pc').pending = false) := by
  have hpending := Worker.pending.eq_1 w
  generalize w.native.pc = pc at h hpending
  cases h with
  | goesOn hrunning =>
      rw [hrun] at hrunning
      cases hrunning
  | passes hwait | sleeps hwait =>
      rcases hwait with rfl | rfl <;> exact Or.inl ⟨rfl, fun _ => hpending⟩
  | pops t rest hfree htasks => exact Or.inr ⟨takes_concat _ _ _, hpending, rfl⟩
  | starts | drops | returns | throws =>
      exact Or.inl ⟨takes_concat _ _ _, fun hnew => by cases hnew⟩
  | _ => exact Or.inl ⟨rfl, fun hnew => by first | exact hpending | cases hnew⟩

/-- While `running_` is false dequeues and credits together do not grow. -/
theorem Move.dequeues {cfg : Config} {s s' : State} {a : Action} (hwired : Wired s)
    (hrun : s.sh.running = false) (h : Move cfg s a s') (p : Nat → Bool) :
    s'.dequeues p + s'.census (Worker.credit p) ≤
      s.dequeues p + s.census (Worker.credit p) := by
  have hkept : s'.dequeues p = s.dequeues p →
      s'.census (Worker.credit p) ≤ s.census (Worker.credit p) →
      s'.dequeues p + s'.census (Worker.credit p) ≤
        s.dequeues p + s.census (Worker.credit p) :=
    fun htakes hcensus => Nat.add_le_add htakes.le hcensus
  cases h with
  | pushes => exact hkept (takes_concat p _ _) le_rfl
  | notifies _ _ hw hblocked | spurious hw hblocked =>
      exact hkept rfl (census_put_same hw
        (by simp [Worker.credit, Worker.pending, Worker.goto, hblocked])).le
  | registers hw hpc | ends hw hpc =>
      exact hkept rfl (census_put_same hw
        (by simp [Worker.credit, Worker.pending, Worker.goto, hpc])).le
  | @loops j throws w sh pc fl hw hstep =>
      rcases hstep.dequeues p hrun with ⟨hsame, hnew⟩ | ⟨htakes, hold, hnew⟩
      · refine hkept hsame (countP_set_le hw fun hcredit => ?_)
        rw [Worker.credit, Bool.and_eq_true] at hcredit ⊢
        exact ⟨hnew hcredit.1, hcredit.2⟩
      · have hadd := countP_set_add (p := Worker.credit p)
          (b := { w with flags := fl }.goto pc) hw
        have hspent : tally (Worker.credit p) w = if p w.native.self then 1 else 0 := by
          rw [tally, Worker.credit, hold, Bool.true_and]
        have hnone : tally (Worker.credit p) ({ w with flags := fl }.goto pc) = 0 :=
          tally_neg (by rw [Worker.credit, hnew, Bool.false_and])
        rw [hspent, hnone] at hadd
        simp only [State.dequeues, State.census, State.put, htakes]
        omega
  | startFails _ _ hc | startUnmonitored _ hc | starts hc =>
      rw [hwired.running_at hc rfl] at hrun
      cases hrun
  | notifiesAll | shrinkNotifies =>
      exact hkept rfl (countP_notifyAll (fun w hblocked => by
        simp [Worker.credit, Worker.pending, Worker.goto, hblocked]) _).le
  | joined _ hw | destroyJoined _ hw | marks _ _ hw | expandThrows _ _ _ hw =>
      exact hkept rfl (le_of_eq (census_put_same hw rfl))
  | cleared => exact hkept rfl (Nat.zero_le _)
  | clearTasks => exact hkept (takes_discard p _ _) le_rfl
  | expands _ hm hpc =>
      rw [hwired.running_of_monitor hm (by simp [hpc])] at hrun
      cases hrun
  | _ => exact hkept rfl le_rfl

/-! ## Each thread has one credit at most -/

/-- The `pthread_self` of each thread. -/
def State.selves (s : State) : List Nat := s.workers.map fun w => w.native.self

/-- No two threads share a `pthread_self`, and none has one that is yet to be
given out. -/
structure Handed (s : State) : Prop where
  distinct : s.selves.Nodup
  given : ∀ h ∈ s.selves, h < s.nextHandle

theorem Handed.frame {s s' : State} (hs : Handed s) (hselves : s'.selves = s.selves)
    (hnext : s'.nextHandle = s.nextHandle) : Handed s' where
  distinct := by
    rw [hselves]
    exact hs.distinct
  given := by
    rw [hselves, hnext]
    exact hs.given

theorem Handed.grow {s s' : State} (hs : Handed s) (n : Nat)
    (hworkers : s'.workers =
      s.workers ++ freshWorkers s.workers.length s.nextHandle n)
    (hnext : s.nextHandle + n ≤ s'.nextHandle) : Handed s' := by
  have hselves : s'.selves = s.selves ++ (List.range n).map (s.nextHandle + ·) := by
    rw [State.selves, hworkers, List.map_append, freshWorkers, List.map_map]
    rfl
  constructor
  · rw [hselves, List.nodup_append]
    refine ⟨hs.distinct, List.nodup_range.map (add_right_injective _), ?_⟩
    intro h hold h' hnew
    obtain ⟨k, -, rfl⟩ := List.mem_map.mp hnew
    have hlt := hs.given h hold
    omega
  · intro h hmem
    rw [hselves, List.mem_append] at hmem
    rcases hmem with hold | hnew
    · have hlt := hs.given h hold
      omega
    · obtain ⟨k, hk, rfl⟩ := List.mem_map.mp hnew
      rw [List.mem_range] at hk
      omega

theorem selves_set {s s' : State} {i : Nat} {w v : Worker} (hw : s.workers[i]? = some w)
    (hworkers : s'.workers = s.workers.set i v) (hself : v.native.self = w.native.self) :
    s'.selves = s.selves := by
  rw [State.selves, hworkers]
  exact map_set_same hw hself

theorem selves_notifyAll {s s' : State} (hworkers : s'.workers = notifyAll s.workers) :
    s'.selves = s.selves := by
  rw [State.selves, hworkers, notifyAll, List.map_map]
  refine List.map_congr_left fun w _ => ?_
  simp only [Function.comp_apply]
  split <;> rfl

theorem Move.handed {cfg : Config} {s s' : State} {a : Action} (hs : Handed s)
    (h : Move cfg s a s') : Handed s' := by
  cases h with
  | notifies _ _ hw | registers hw | loops hw | ends hw | spurious hw | joined _ hw
  | destroyJoined _ hw | marks _ _ hw | expandThrows _ _ _ hw =>
      exact hs.frame (selves_set hw rfl rfl) rfl
  | notifiesAll | shrinkNotifies => exact hs.frame (selves_notifyAll rfl) rfl
  | startFails n | expands n => exact hs.grow n rfl le_rfl
  | startUnmonitored => exact hs.grow cfg.minThreads rfl le_rfl
  | starts => exact hs.grow cfg.minThreads rfl (Nat.le_succ _)
  | cleared => exact ⟨List.nodup_nil, fun _ hmem => by cases hmem⟩
  | _ => exact hs.frame rfl rfl

theorem handed_of_reachable {cfg : Config} {s : State} (hr : (pool cfg).Reachable s) :
    Handed s :=
  hr.invariant ⟨List.nodup_nil, fun _ hmem => by cases hmem⟩ fun _ _ _ hr hs hstep =>
    (move_of_step hr hstep).handed hs

/-! ## From the store of `running_ = false` to the next `Start` -/

/-- The runs in which `running_` is false. -/
def Halted (s : State) (_ : Action) : Prop := s.sh.running = false

instance (s : State) (a : Action) : Decidable (Halted s a) :=
  inferInstanceAs (Decidable (_ = _))

theorem dequeues_le_credit {cfg : Config} {s s' : State} (hr : (pool cfg).Reachable s)
    (hrun : (pool cfg).LeadsWhen Halted s s') (p : Nat → Bool) :
    s'.dequeues p ≤ s.dequeues p + s.census (Worker.credit p) := by
  have hle := hrun.le (f := fun s => s.dequeues p + s.census (Worker.credit p)) hr
    fun _ _ _ hr hhalted hstep =>
      (move_of_step hr hstep).dequeues (wired_of_reachable hr) hhalted p
  omega

/-- While `running_` is false a thread dequeues one task at most, all threads
together no more than there are slots, and nobody any once `Stop` has come to
clear the queue. -/
theorem dequeues_halted {cfg : Config} {s s' : State} (hr : (pool cfg).Reachable s)
    (hrun : (pool cfg).LeadsWhen Halted s s') :
    (∀ self, s'.dequeues (· = self) ≤ s.dequeues (· = self) + 1) ∧
      s'.dequeues (fun _ => true) ≤ s.dequeues (fun _ => true) + s.workers.length ∧
      ∀ p, s.control = .stop p .tasks →
        s'.dequeues (fun _ => true) ≤ s.dequeues (fun _ => true) := by
  refine ⟨fun self => ?_, ?_, fun p hc => ?_⟩
  · have hone : s.census (Worker.credit (· = self)) ≤ 1 :=
      countP_le_one (handed_of_reachable hr).distinct Worker.pending self
    exact (dequeues_le_credit hr hrun _).trans (Nat.add_le_add_left hone _)
  · have hall : s.census (Worker.credit fun _ => true) ≤ s.workers.length :=
      List.countP_le_length
    exact (dequeues_le_credit hr hrun _).trans (Nat.add_le_add_left hall _)
  · have hle := dequeues_le_credit hr hrun fun _ => true
    rw [State.census, (wired_of_reachable hr).emptied p (Or.inr hc)] at hle
    exact hle

end ThreadPool.Normal
