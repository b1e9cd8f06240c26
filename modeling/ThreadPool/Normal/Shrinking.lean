import ThreadPool.Normal.Expansion

/-!
# How far `ShrinkThreads` shrinks

A pass of `ShrinkThreads` takes `valid_thread_count_ - min_threads_` for the
number of workers it may mark. The counter still counts the workers an
earlier pass has marked and that are not out yet, one that took a last long
task for instance, so the next pass marks as many again.

Nothing but a mark takes a worker from those that stay: while the pool runs
and no task throws, a worker that is not marked stays in its loop
(`Move.strength_le`). So the floor holds as long as each mark leaves it, and
that is a comparison of `min_threads_` with the workers in `WorkerLoop` less
the marked ones, the subtraction the code does not make. Where a pass begins
with no marked worker in the counter there is nothing to subtract, and then
none of its marks is one too many (`Move.paced`).
-/

namespace ThreadPool.Normal

open Interleave Machine

/-! ## Who stays -/

/-- Between the loop and the end of `WorkerLoop`. -/
def WorkerPc.leaving : WorkerPc → Bool
  | .clearValid | .exitIdle | .fetchSub => true
  | _ => false

/-- In `WorkerLoop`, registered and not back. -/
def WorkerPc.inside : WorkerPc → Bool
  | .setValid | .fetchAdd => true
  | pc => pc.inLoop || pc.leaving

/-- In `WorkerLoop` and marked. -/
def Worker.marked (w : Worker) : Bool := w.native.pc.inside && w.flags.shouldExit

/-- In `WorkerLoop` and not marked. -/
def Worker.kept (w : Worker) : Bool := w.native.pc.inside && !w.flags.shouldExit

/-- Not marked, and not on its way out either. -/
def Worker.staying (w : Worker) : Bool := w.kept && !w.native.pc.leaving

def Worker.inside (w : Worker) : Bool := w.native.pc.inside

/-- One of the workers `Start` creates, yet to register. -/
def Worker.awaited (cfg : Config) (w : Worker) : Bool :=
  w.native.index < cfg.minThreads && w.native.pc = .registration

theorem census_inside (s : State) :
    s.census Worker.inside = s.census Worker.marked + s.census Worker.kept := by
  simp only [State.census]
  induction s.workers with
  | nil => rfl
  | cons w ws ih =>
      rw [List.countP_cons, List.countP_cons, List.countP_cons, ih]
      have hsplit : (if w.inside = true then 1 else 0) =
          (if w.marked = true then 1 else 0) + if w.kept = true then 1 else 0 := by
        unfold Worker.inside Worker.marked Worker.kept
        cases w.native.pc.inside <;> cases w.flags.shouldExit <;> rfl
      omega

/-! ## Who is marked -/

/-- Created, and short of its loop. -/
def WorkerPc.early : WorkerPc → Bool
  | .registration | .setValid | .fetchAdd => true
  | _ => false

/-- A thread that has not got to its loop is not marked. -/
def EarlyUnmarked (s : State) : Prop :=
  ∀ w ∈ s.workers, w.native.pc.early = true → w.flags.shouldExit = false

theorem LoopStep.early {sh sh' : Shared} {free throws : Bool} {self : Nat}
    {pc pc' : WorkerPc} {fl fl' : Flags}
    (h : LoopStep sh free self throws pc fl sh' pc' fl')
    (hfl : pc.early = true → fl.shouldExit = false) :
    pc'.early = true → fl'.shouldExit = false := by
  intro hearly
  cases h with
  | setValid => exact hfl rfl
  | _ => cases hearly

theorem WorkerPc.not_early_of_idle {pc : WorkerPc} (h : pc.idle = true) :
    pc.early = false := by
  cases pc <;> first | rfl | cases h

theorem WorkerPc.not_early_of_ended {pc : WorkerPc} (h : pc.isEnded = true) :
    pc.early = false := by
  cases pc <;> first | rfl | cases h

theorem Move.earlyUnmarked {cfg : Config} {s s' : State} {a : Action}
    (hflagged : Flagged s) (hs : EarlyUnmarked s) (h : Move cfg s a s') :
    EarlyUnmarked s' := by
  cases h with
  | notifies _ _ hw | spurious hw | ends hw => exact forall_mem_set hs nofun
  | registers hw hpc =>
      have hold := hs _ (List.mem_of_getElem? hw) (by rw [hpc]; rfl)
      exact forall_mem_set hs fun _ => hold
  | loops hw hstep =>
      exact forall_mem_set hs (hstep.early (hs _ (List.mem_of_getElem? hw)))
  | marks _ _ hw _ hexp =>
      refine forall_mem_set hs fun hearly => ?_
      have hidle := (hflagged _ (List.mem_of_getElem? hw)).2
      simp only [Flags.expired, Bool.and_eq_true] at hexp
      rw [hexp.1.2] at hidle
      rw [WorkerPc.not_early_of_idle hidle.symm] at hearly
      cases hearly
  | expandThrows => exact forall_mem_set hs fun _ => rfl
  | @joined _ _ _ _ w _ hw hended =>
      refine forall_mem_set hs fun hearly => ?_
      have hover : w.native.pc.early = true := hearly
      rw [WorkerPc.not_early_of_ended hended] at hover
      cases hover
  | destroyJoined _ hw =>
      have hold := hs _ (List.mem_of_getElem? hw)
      exact forall_mem_set hs hold
  | startFails | startUnmonitored | starts | expands =>
      exact forall_mem_append_fresh hs fun _ _ => rfl
  | notifiesAll | shrinkNotifies =>
      exact forall_mem_notifyAll hs fun _ _ _ => nofun
  | cleared => exact fun _ hw => absurd hw List.not_mem_nil
  | _ => exact hs

theorem earlyUnmarked_of_reachable {cfg : Config} {s : State}
    (hr : (pool cfg).Reachable s) : EarlyUnmarked s :=
  hr.invariant (fun _ hw => absurd hw List.not_mem_nil) fun _ _ _ hr hs hstep =>
    (move_of_step hr hstep).earlyUnmarked (flagged_of_reachable hr) hs

/-! ## Who leaves -/

/-- The monitor is in its loop. -/
def State.monitored (s : State) : Prop :=
  ∃ m, s.monitorThread = some m ∧ m.pc ≠ .entry ∧ m.pc ≠ .ended

/-- While the monitor is in its loop only marked workers are on their way
out. -/
def LeaversMarked (s : State) : Prop :=
  s.monitored → ∀ w ∈ s.workers, w.native.pc.leaving = true → w.flags.shouldExit = true

theorem LoopStep.leaving {sh sh' : Shared} {free throws : Bool} {self : Nat}
    {pc pc' : WorkerPc} {fl fl' : Flags}
    (h : LoopStep sh free self throws pc fl sh' pc' fl') (hrun : sh.running = true)
    (hfl : pc.leaving = true → fl.shouldExit = true) :
    pc'.leaving = true → fl'.shouldExit = true := by
  intro hleaving
  cases h with
  | marked hexit => exact hexit
  | stopped hstopped =>
      rw [hrun] at hstopped
      cases hstopped
  | clearValid | exitIdle => exact hfl rfl
  | _ => cases hleaving

theorem MonitorHop.monitored {cfg : Config} {s : State} {pc pc' : MonitorPc}
    (h : MonitorHop cfg s pc pc') : pc ≠ .entry ∧ pc ≠ .ended := by
  cases h <;> exact ⟨nofun, nofun⟩

theorem Move.leaversMarked {cfg : Config} {s s' : State} {a : Action} (hwired : Wired s)
    (hsized : Sized cfg s) (hs : LeaversMarked s) (h : Move cfg s a s') :
    LeaversMarked s' := by
  intro hmonitored
  cases h with
  | notifies _ _ hw | spurious hw | registers hw | ends hw =>
      exact forall_mem_set (hs hmonitored) nofun
  | loops hw hstep =>
      obtain ⟨m, hm, -, halive⟩ := id hmonitored
      have hrun := hwired.running_of_monitor hm halive
      exact forall_mem_set (hs hmonitored)
        (hstep.leaving hrun (hs hmonitored _ (List.mem_of_getElem? hw)))
  | startFails _ _ hc | startUnmonitored _ hc | starts hc =>
      intro w hw
      rw [hsized.empty hc, List.nil_append] at hw
      obtain ⟨k, rfl⟩ := mem_freshWorkers hw
      exact nofun
  | joinsMonitor =>
      obtain ⟨m, hm, -⟩ := hmonitored
      cases hm
  | notifiesAll =>
      exact forall_mem_notifyAll (hs hmonitored) fun _ _ _ => nofun
  | joined => exact forall_mem_set (hs hmonitored) fun _ => rfl
  | destroyJoined _ hw =>
      have hold := hs hmonitored _ (List.mem_of_getElem? hw)
      exact forall_mem_set (hs hmonitored) hold
  | cleared => exact fun _ hw => absurd hw List.not_mem_nil
  | monitorHop hm hhop => exact hs ⟨_, hm, hhop.monitored⟩
  | marks hm hpc hw =>
      have hold := hs ⟨_, hm, by simp [hpc]⟩
      exact forall_mem_set hold fun _ => rfl
  | shrinkNotifies hm hpc =>
      have hold := hs ⟨_, hm, by simp [hpc]⟩
      exact forall_mem_notifyAll hold fun _ _ _ => nofun
  | expandThrows | monitorEnds =>
      obtain ⟨m, hm, hentry, hended⟩ := hmonitored
      cases hm
      first | exact absurd rfl hentry | exact absurd rfl hended
  | expands n hm hpc =>
      have hold := hs ⟨_, hm, by simp [hpc]⟩
      exact forall_mem_append_fresh hold fun _ => nofun
  | _ => exact hs hmonitored

theorem leaversMarked_of_reachable {cfg : Config} {s : State}
    (hr : (pool cfg).Reachable s) : LeaversMarked s :=
  hr.invariant (fun _ _ hw => absurd hw List.not_mem_nil) fun _ _ _ hr hs hstep =>
    (move_of_step hr hstep).leaversMarked (wired_of_reachable hr) (sized_of_reachable hr) hs

/-! ## The floor -/

/-- The worker a step marks, if it marks one. -/
def State.marking (s : State) : Action → Option Worker
  | .monitor _ _ =>
      match s.monitorThread with
      | some ⟨_, .shrinkMark need now removed i⟩ =>
          match s.workers[i]? with
          | some w =>
              if removed < need ∧ Flags.expired now w.flags then some w else none
          | none => none
      | _ => none
  | _ => none

/-- No task throws, and a worker that is marked, and was not before, leaves
more workers in `WorkerLoop` than are marked or needed. -/
def Spares (cfg : Config) (s : State) (a : Action) : Prop :=
  a.throws = false ∧
    ((s.marking a).any (fun w => !w.flags.shouldExit) = true →
      cfg.minThreads + s.census Worker.marked < s.census Worker.inside)

instance (cfg : Config) (s : State) (a : Action) : Decidable (Spares cfg s a) :=
  inferInstanceAs (Decidable (_ ∧ (_ → _)))

/-- The monitor is about to load the counter for a pass. -/
def State.loading (s : State) : Action → Bool
  | .monitor _ _ => s.monitorThread.any fun m => m.pc = .shrinkLoad
  | _ => false

/-- No task throws, and a pass loads the counter while it counts no marked
worker. -/
def Paces (s : State) (a : Action) : Prop :=
  a.throws = false ∧
    (s.loading a = true →
      ∀ w ∈ s.workers, w.booked = true → w.flags.shouldExit = false)

instance (s : State) (a : Action) : Decidable (Paces s a) :=
  inferInstanceAs (Decidable (_ ∧ (_ → ∀ w ∈ s.workers, _ → _)))

/-- How many workers the pool can count on: those that stay, and those of
`Start`'s that are awaited or were never created. -/
def State.strength (cfg : Config) (s : State) : Nat :=
  s.census Worker.staying + s.census (Worker.awaited cfg) +
    (cfg.minThreads - s.workers.length)

/-- While the pool runs, they are as many as the minimum. -/
def Floor (cfg : Config) (s : State) : Prop :=
  s.sh.running = true → cfg.minThreads ≤ s.strength cfg

/-- While the pool runs and no task throws, the loop is left by marked
workers only. -/
theorem LoopStep.staying {sh sh' : Shared} {free throws : Bool} {w : Worker}
    {pc' : WorkerPc} {fl' : Flags}
    (h : LoopStep sh free w.native.self throws w.native.pc w.flags sh' pc' fl')
    (hrun : sh.running = true) (hthrows : throws = false) :
    ({ w with flags := fl' }.goto pc').staying = w.staying := by
  have hstaying : w.staying =
      ((w.native.pc.inside && !w.flags.shouldExit) && !w.native.pc.leaving) := rfl
  generalize w.native.pc = pc at h hstaying
  generalize w.flags = fl at h hstaying
  rw [hstaying]
  cases h with
  | marked hexit => simp [Worker.staying, Worker.kept, Worker.goto, hexit]
  | stopped hstopped =>
      rw [hrun] at hstopped
      cases hstopped
  | throws t hthrows' =>
      rw [hthrows] at hthrows'
      cases hthrows'
  | passes hpc | sleeps hpc => rcases hpc with rfl | rfl <;> rfl
  | clearValid | exitIdle | fetchSub =>
      simp [Worker.staying, Worker.kept, Worker.goto, WorkerPc.leaving, WorkerPc.inside,
        WorkerPc.inLoop]
  | _ => rfl

theorem awaited_fresh (cfg : Config) (index handle n : Nat) :
    (freshWorkers index handle n).countP (Worker.awaited cfg) +
        (cfg.minThreads - (index + n)) = cfg.minThreads - index := by
  induction n with
  | zero => simp
  | succ n ih =>
      rw [freshWorkers_add, List.countP_append, freshWorkers_one, List.countP_singleton]
      by_cases hlt : index + n < cfg.minThreads
      · simp only [Worker.awaited, freshWorker, hlt, decide_true, Bool.true_and, if_true]
        omega
      · simp only [Worker.awaited, freshWorker, hlt, decide_false, Bool.false_and]
        simp
        omega

theorem strength_append {cfg : Config} {s s' : State} {n : Nat}
    (hworkers : s'.workers =
      s.workers ++ freshWorkers s.workers.length s.nextHandle n) :
    s'.strength cfg = s.strength cfg := by
  have hfresh := awaited_fresh cfg s.workers.length s.nextHandle n
  simp only [State.strength, State.census]
  rw [hworkers, List.countP_append, List.countP_append, List.length_append,
    freshWorkers_length, countP_fresh n fun _ => rfl]
  simp only [Bool.false_eq_true, if_false]
  omega

theorem strength_put {cfg : Config} {s s' : State} {j : Nat} {w w' : Worker}
    (hw : s.workers[j]? = some w) (hworkers : s'.workers = s.workers.set j w') :
    s'.strength cfg + (tally Worker.staying w + tally (Worker.awaited cfg) w) =
      s.strength cfg + (tally Worker.staying w' + tally (Worker.awaited cfg) w') := by
  have hstaying := countP_set_add (p := Worker.staying) (b := w') hw
  have hawaited := countP_set_add (p := Worker.awaited cfg) (b := w') hw
  simp only [State.strength, State.census]
  rw [hworkers, List.length_set]
  omega

theorem strength_put_same {cfg : Config} {s s' : State} {j : Nat} {w w' : Worker}
    (hw : s.workers[j]? = some w) (hworkers : s'.workers = s.workers.set j w')
    (hstaying : w'.staying = w.staying) (hawaited : w'.awaited cfg = w.awaited cfg) :
    s.strength cfg ≤ s'.strength cfg := by
  have hput := @strength_put cfg s s' j w w' hw hworkers
  simp only [tally, hstaying, hawaited] at hput
  omega

theorem Worker.staying_goto {w : Worker} {pc : WorkerPc}
    (hinside : pc.inside = w.native.pc.inside)
    (hleaving : pc.leaving = w.native.pc.leaving) :
    (w.goto pc).staying = w.staying := by
  simp only [Worker.staying, Worker.kept, Worker.goto, hinside, hleaving]

theorem Worker.awaited_eq_false {cfg : Config} {w : Worker}
    (hpc : w.native.pc ≠ .registration) : w.awaited cfg = false := by
  simp only [Worker.awaited, hpc, decide_false, Bool.and_false]

theorem Worker.awaited_goto {cfg : Config} {w : Worker} {pc : WorkerPc}
    (hold : w.native.pc ≠ .registration) (hpc : pc ≠ .registration) :
    (w.goto pc).awaited cfg = w.awaited cfg := by
  rw [Worker.awaited_eq_false hold, Worker.awaited_eq_false hpc]

theorem LeaversMarked.kept_eq_staying {s : State} (hs : LeaversMarked s)
    (hmonitored : s.monitored) : s.census Worker.kept = s.census Worker.staying := by
  refine List.countP_congr fun w hw => ?_
  have hmarked := hs hmonitored w hw
  simp only [Worker.staying, Worker.kept]
  cases hl : w.native.pc.leaving with
  | false => simp
  | true => simp [hmarked hl]

theorem WorkerPc.inside_of_idle {pc : WorkerPc} (h : pc.idle = true) :
    pc.inside = true ∧ pc.leaving = false ∧ pc ≠ .registration := by
  cases pc <;> first | exact ⟨rfl, rfl, nofun⟩ | cases h

/-- A mark costs at most the worker marked, and nothing if it was marked
before. -/
theorem strength_mark {cfg : Config} {s s' : State} {i : Nat} {w : Worker}
    (hw : s.workers[i]? = some w)
    (hworkers : s'.workers = s.workers.set i { w with flags.shouldExit := true }) :
    s.strength cfg ≤ s'.strength cfg ∨
      w.flags.shouldExit = false ∧ s.strength cfg ≤ s'.strength cfg + 1 := by
  have hmarked : Worker.staying { w with flags.shouldExit := true } = false := by
    simp [Worker.staying, Worker.kept]
  cases hexit : w.flags.shouldExit with
  | true =>
      have hsame : w.staying = false := by simp [Worker.staying, Worker.kept, hexit]
      exact Or.inl (strength_put_same hw hworkers (hmarked.trans hsame.symm) rfl)
  | false =>
      have hput := @strength_put cfg s s' i w _ hw hworkers
      have hone : tally Worker.staying w ≤ 1 := by
        unfold tally
        split <;> omega
      have hawaited : tally (Worker.awaited cfg) { w with flags.shouldExit := true } =
          tally (Worker.awaited cfg) w := rfl
      rw [tally_neg hmarked, hawaited] at hput
      exact Or.inr ⟨rfl, by omega⟩

theorem marking_eq {s : State} {creates : Creates} {waitFails : Bool} {m : Monitor}
    {need now removed i : Nat} {w : Worker} (hm : s.monitorThread = some m)
    (hpc : m.pc = .shrinkMark need now removed i) (hw : s.workers[i]? = some w)
    (hneed : removed < need) (hexp : Flags.expired now w.flags = true) :
    s.marking (.monitor creates waitFails) = some w := by
  obtain ⟨property, pc⟩ := m
  subst hpc
  simp only [State.marking, hm, hw, hneed, hexp, and_self, if_true]

theorem marking_cases {s : State} {a : Action} {w : Worker} (h : s.marking a = some w) :
    ∃ creates waitFails m need now removed i,
      a = .monitor creates waitFails ∧ s.monitorThread = some m ∧
      m.pc = .shrinkMark need now removed i ∧ s.workers[i]? = some w ∧ removed < need ∧
      Flags.expired now w.flags = true := by
  unfold State.marking at h
  split at h
  · next creates waitFails =>
      split at h
      · next property need now removed i hm =>
          split at h
          · next v hv =>
              split at h
              · next hmarks =>
                  rw [Option.some.injEq] at h
                  subst h
                  exact ⟨creates, waitFails, _, need, now, removed, i, rfl, hm, rfl, hv, hmarks⟩
              · cases h
          · cases h
      · cases h
  · cases h

theorem WorkerPc.not_staying_of_invalid {pc : WorkerPc} (hpc : pc ≠ .setValid)
    (hinvalid : pc.valid = false) : pc.inside = false ∨ pc.leaving = true := by
  cases pc <;>
    first | exact Or.inl rfl | exact Or.inr rfl | exact absurd rfl hpc | cases hinvalid

theorem Worker.staying_reset {s : State} {w : Worker} (hflagged : Flagged s)
    (hearly : EarlyUnmarked s) (hw : w ∈ s.workers) (hinvalid : w.flags.isValid = false) :
    Worker.staying { w with flags.shouldExit := false } = w.staying := by
  rw [(hflagged w hw).1] at hinvalid
  simp only [Worker.staying, Worker.kept]
  by_cases hpc : w.native.pc = .setValid
  · rw [hearly w hw (by rw [hpc]; rfl)]
  · rcases WorkerPc.not_staying_of_invalid hpc hinvalid with hout | hleaving
    · simp only [hout, Bool.false_and]
    · simp only [hleaving, Bool.not_true, Bool.and_false]

/-- While the pool runs and no task throws, a move that is no mark costs no
worker. -/
theorem Move.strength_le {cfg : Config} {s s' : State} {a : Action} (hwired : Wired s)
    (hflagged : Flagged s) (hearly : EarlyUnmarked s) (hrun : s.sh.running = true)
    (hthrows : a.throws = false) (h : Move cfg s a s') :
    s.strength cfg ≤ s'.strength cfg ∨
      ∃ w, s.marking a = some w ∧ w.flags.shouldExit = false ∧
        s.strength cfg ≤ s'.strength cfg + 1 := by
  cases h with
  | notifies _ _ hw hpc | spurious hw hpc | ends hw hpc =>
      refine Or.inl (strength_put_same hw rfl ?_ ?_)
      · exact Worker.staying_goto (by rw [hpc]; rfl) (by rw [hpc]; rfl)
      · exact Worker.awaited_goto (by rw [hpc]; simp) (by simp)
  | @registers j _ w hw hpc =>
      have hunmarked := hearly w (List.mem_of_getElem? hw) (by rw [hpc]; rfl)
      have hstaying : (w.goto .setValid).staying = true := by
        simp [Worker.staying, Worker.kept, Worker.goto, hunmarked, WorkerPc.inside,
          WorkerPc.leaving]
      have hout : w.staying = false := by
        simp [Worker.staying, Worker.kept, hpc, WorkerPc.inside, WorkerPc.inLoop,
          WorkerPc.leaving]
      have hone : tally (Worker.awaited cfg) w ≤ 1 := by
        unfold tally
        split <;> omega
      have hput := @strength_put cfg s (s.put j (w.goto .setValid)) j w _ hw rfl
      rw [tally_pos hstaying, tally_neg hout] at hput
      exact Or.inl (by omega)
  | loops hw hstep =>
      obtain ⟨hpc, hpc'⟩ := hstep.not_registration
      refine Or.inl (strength_put_same hw rfl (hstep.staying hrun hthrows) ?_)
      rw [Worker.awaited_eq_false hpc, Worker.awaited_eq_false hpc']
  | startFails n | startUnmonitored | starts | expands n =>
      exact Or.inl (Nat.le_of_eq (strength_append rfl).symm)
  | notifiesAll hc | joined hc | destroyJoined hc | cleared hc =>
      rw [hwired.running_at hc rfl] at hrun
      cases hrun
  | shrinkNotifies =>
      have hstaying := countP_notifyAll (p := Worker.staying) (fun w hpc =>
        Worker.staying_goto (by rw [hpc]; rfl) (by rw [hpc]; rfl)) s.workers
      have hawaited := countP_notifyAll (p := Worker.awaited cfg) (fun w hpc =>
        Worker.awaited_goto (by rw [hpc]; simp) (by simp)) s.workers
      refine Or.inl (Nat.le_of_eq ?_)
      simp only [State.strength, State.census, State.monitorGoto, length_notifyAll]
      rw [hstaying, hawaited]
  | @marks _ _ m _ _ _ _ w hm hpc hw hneed hexp =>
      refine (strength_mark hw rfl).imp_right ?_
      rintro ⟨hexit, hle⟩
      exact ⟨w, marking_eq hm hpc hw hneed hexp, hexit, hle⟩
  | expandThrows _ _ _ hw hinvalid =>
      refine Or.inl (strength_put_same hw rfl ?_ rfl)
      exact Worker.staying_reset hflagged hearly (List.mem_of_getElem? hw) hinvalid
  | _ => exact Or.inl (Nat.le_refl _)

/-- The floor is kept by every move that is no mark, and by a mark where
there is a worker to spare. -/
theorem Move.floor {cfg : Config} {s s' : State} {a : Action} (hwired : Wired s)
    (hflagged : Flagged s) (hearly : EarlyUnmarked s) (hthrows : a.throws = false)
    (hroom : ∀ w, s.marking a = some w → w.flags.shouldExit = false →
      cfg.minThreads < s.strength cfg)
    (hs : Floor cfg s) (h : Move cfg s a s') : Floor cfg s' := by
  intro hrun'
  rcases h.running_cases hrun' with hrun | ⟨-, hc, hworkers⟩
  · have hold := hs hrun
    rcases h.strength_le hwired hflagged hearly hrun hthrows with
      hle | ⟨w, hmarking, hexit, hle⟩
    · omega
    · have hspare := hroom w hmarking hexit
      omega
  · have hnil := hwired.resting (by rw [hc]; rfl) (hwired.running_at hc rfl)
    simp [State.strength, hworkers, hnil]

theorem staying_le_strength (cfg : Config) (s : State) :
    s.census Worker.staying ≤ s.strength cfg := by
  rw [State.strength]
  omega

theorem floor_of_spares {cfg : Config} {s : State}
    (hr : (pool cfg).ReachableWhen (Spares cfg) s) : Floor cfg s := by
  refine hr.invariant (fun h => by cases h) fun s a s' hr hs hok hstep => ?_
  have hr := hr.reachable
  refine (move_of_step hr hstep).floor (wired_of_reachable hr) (flagged_of_reachable hr)
    (earlyUnmarked_of_reachable hr) hok.1 (fun w hmarking hexit => ?_) hs
  obtain ⟨_, _, m, _, _, _, _, -, hm, hpc, -⟩ := marking_cases hmarking
  have hmonitored : s.monitored := ⟨m, hm, by simp [hpc]⟩
  have hroom := hok.2 (by simp [hmarking, hexit])
  rw [census_inside, (leaversMarked_of_reachable hr).kept_eq_staying hmonitored] at hroom
  have hle := staying_le_strength cfg s
  omega

/-! ## A pass that begins with a true count -/

/-- What the pass under way may mark, and how many it has marked. -/
def MonitorPc.pass : MonitorPc → Option (Nat × Nat)
  | .shrinkNow need | .shrinkLock need _ => some (need, 0)
  | .shrinkMark need _ removed _ => some (need, removed)
  | _ => none

theorem MonitorPc.not_ended_of_pass {pc : MonitorPc} {p : Nat × Nat}
    (h : pc.pass = some p) : pc ≠ .ended := by
  rintro rfl
  cases h

/-- What the pass under way has left to mark can be spared. -/
def Paced (cfg : Config) (s : State) : Prop :=
  ∀ m need removed, s.monitorThread = some m → m.pc.pass = some (need, removed) →
    cfg.minThreads + need ≤ s.strength cfg + removed

theorem count_le_staying {s : State} (htallied : Tallied s) (hwired : Wired s)
    (hrun : s.sh.running = true) (hnone : NoneThrew s) (hleavers : LeaversMarked s)
    (hmonitored : s.monitored)
    (hunmarked : ∀ w ∈ s.workers, w.booked = true → w.flags.shouldExit = false) :
    s.sh.validThreadCount ≤ s.census Worker.staying := by
  have hcount : s.sh.validThreadCount = s.census Worker.booked := by
    rcases htallied with ⟨p, hc⟩ | heq
    · rw [hwired.running_at hc rfl] at hrun
      cases hrun
    · exact heq
  rw [hcount]
  refine List.countP_mono_left fun w hw hbooked => ?_
  have hexit := hunmarked w hw hbooked
  have hthrew := hnone w hw
  have hleaving : w.native.pc.leaving = false := by
    rw [← Bool.not_eq_true]
    intro hl
    rw [hleavers hmonitored w hw hl] at hexit
    cases hexit
  unfold Worker.booked WorkerPc.booked at hbooked
  rw [show w.native.pc.threw = false from hthrew, Bool.or_false] at hbooked
  simp only [Worker.staying, Worker.kept, hexit, hleaving, Bool.not_false, Bool.and_true]
  cases hpc : w.native.pc <;> rw [hpc] at hbooked hleaving <;>
    first | rfl | cases hbooked

theorem Move.paced {cfg : Config} {s s' : State} {a : Action}
    (hr : (pool cfg).Reachable s) (hnone : NoneThrew s) (hok : Paces s a)
    (hs : Paced cfg s) (h : Move cfg s a s') :
    Paced cfg s' := by
  intro m' need removed hm' hpass
  have hwired := wired_of_reachable hr
  have hstrength : s.sh.running = true → _ := fun hrun =>
    h.strength_le hwired (flagged_of_reachable hr) (earlyUnmarked_of_reachable hr) hrun hok.1
  cases h with
  | @monitorHop _ _ m pc hm hhop =>
      obtain rfl := Option.some.inj hm'
      have hold := hs m need removed hm
      have hload : m.pc = .shrinkLoad → _ := fun hpc =>
        hok.2 (by simp [State.loading, hm, hpc])
      have hmonitored : s.monitored := ⟨m, hm, hhop.monitored⟩
      have hrun := hwired.running_of_monitor hm hhop.not_ended
      generalize m.pc = pc₀ at hhop hold hload
      cases hhop with
      | shrink hcount =>
          obtain ⟨rfl, rfl⟩ := Prod.mk.inj (Option.some.inj hpass)
          have hcounted := count_le_staying (tallied_of_reachable hr) hwired hrun hnone
            (leaversMarked_of_reachable hr) hmonitored (hload rfl)
          have hle := staying_le_strength cfg s
          have hsame : (s.monitorGoto m (.shrinkNow
            (s.sh.validThreadCount - cfg.minThreads))).strength cfg = s.strength cfg := rfl
          omega
      | readClock | lock | passOver => exact hold hpass
      | _ => cases hpass
  | @marks _ _ m _ _ removed₀ _ w hm hpc hw hneed hexp =>
      obtain rfl := Option.some.inj hm'
      obtain ⟨rfl, rfl⟩ := Prod.mk.inj (Option.some.inj hpass)
      have hold := hs m _ removed₀ hm (by rw [hpc]; rfl)
      have hrun := hwired.running_of_monitor hm (by simp [hpc])
      rcases hstrength hrun with hle | ⟨-, -, -, hle⟩ <;> omega
  | startUnmonitored | starts | shrinkNotifies | expandThrows | monitorEnds =>
      obtain rfl := Option.some.inj hm'
      cases hpass
  | expands n hm hpc hfree hlen hnext =>
      obtain rfl := Option.some.inj hm'
      rcases hnext with rfl | rfl <;> cases hpass
  | joinsMonitor => cases hm'
  | _ =>
      have hold := hs m' need removed hm' hpass
      have hrun := hwired.running_of_monitor hm' (MonitorPc.not_ended_of_pass hpass)
      rcases hstrength hrun with hle | ⟨w, hmarking, -⟩
      · exact Nat.le_trans hold (Nat.add_le_add_right hle _)
      · cases hmarking

theorem floor_of_paces {cfg : Config} {s : State}
    (hr : (pool cfg).ReachableWhen Paces s) :
    Floor cfg s := by
  have hboth : Floor cfg s ∧ Paced cfg s := by
    refine ReachableWhen.invariant (P := fun s => Floor cfg s ∧ Paced cfg s) hr ?_
      fun s a s' hr hs hok hstep => ?_
    · exact ⟨fun h => (by cases h), fun _ _ _ hm => by cases hm⟩
    have hnone := noneThrew_of_reachableWhen (hr.mono fun _ _ hok => hok.1)
    have hr := hr.reachable
    have hmove := move_of_step hr hstep
    refine ⟨?_, hmove.paced hr hnone hok hs.2⟩
    refine hmove.floor (wired_of_reachable hr) (flagged_of_reachable hr)
      (earlyUnmarked_of_reachable hr) hok.1 (fun w hmarking _ => ?_) hs.1
    obtain ⟨_, _, m, need, _, removed, _, -, hm, hpc, -, hneed, -⟩ :=
      marking_cases hmarking
    have hspare := hs.2 m need removed hm (by rw [hpc]; rfl)
    omega
  exact hboth.1

/-! ## The law -/

/-- Every worker that `Start` creates is there and has registered. -/
def Assembled (cfg : Config) (s : State) : Prop :=
  cfg.minThreads ≤ s.workers.length ∧
    ∀ w ∈ s.workers, w.native.index < cfg.minThreads → w.native.pc ≠ .registration

instance (cfg : Config) (s : State) : Decidable (Assembled cfg s) :=
  inferInstanceAs (Decidable (_ ∧ ∀ w ∈ s.workers, _ → _))

theorem Assembled.awaited {cfg : Config} {s : State} (hs : Assembled cfg s) :
    s.census (Worker.awaited cfg) = 0 := by
  refine List.countP_eq_zero.mpr fun w hw => ?_
  simp only [Worker.awaited, Bool.and_eq_true, decide_eq_true_eq, not_and]
  exact hs.2 w hw

theorem staying_le_kept (s : State) : s.census Worker.staying ≤ s.census Worker.kept :=
  List.countP_mono_left fun w _ hstaying => by
    rw [Worker.staying, Bool.and_eq_true] at hstaying
    exact hstaying.1

theorem kept_of_marking {cfg : Config} {s s' : State} {a : Action} {w : Worker}
    (hr : (pool cfg).Reachable s) (hstep : step cfg s a = some s')
    (hmarking : s.marking a = some w) (hexit : w.flags.shouldExit = false) :
    s.census Worker.kept = s'.census Worker.kept + 1 := by
  obtain ⟨creates, waitFails, m, need, now, removed, i, rfl, hm, hpc, hw, hneed, hexp⟩ :=
    marking_cases hmarking
  have hidle := (flagged_of_reachable hr w (List.mem_of_getElem? hw)).2
  have hexpired := hexp
  simp only [Flags.expired, Bool.and_eq_true] at hexpired
  rw [hexpired.1.2] at hidle
  have hinside := (WorkerPc.inside_of_idle hidle.symm).1
  simp only [step, monitorStep, hm, hpc, hw, hneed, hexp, if_true, Option.some.injEq] at hstep
  rw [← hstep, setFlags_eq hw]
  refine census_put_lose hw _ ?_ ?_
  · simp [Worker.kept, hinside, hexit]
  · simp [Worker.kept]

theorem Floor.kept {cfg : Config} {s : State} (hs : Floor cfg s)
    (hrun : s.sh.running = true) (hassembled : Assembled cfg s) :
    cfg.minThreads ≤ s.census Worker.kept := by
  have hstrength := hs hrun
  have hawaited := hassembled.awaited
  have hkept := staying_le_kept s
  have hlen := hassembled.1
  rw [State.strength] at hstrength
  omega

/-- Where no task throws and every mark leaves more workers in `WorkerLoop`
than are marked or needed, the pool never shrinks below its minimum; that is
so where every pass loads a count without marked workers; and a mark that
leaves too few workers leaves the pool below its minimum. -/
theorem shrinking_keeps_min {cfg : Config} :
    (∀ s, (pool cfg).ReachableWhen (Spares cfg) s → s.sh.running = true →
      Assembled cfg s → cfg.minThreads ≤ s.census Worker.kept) ∧
    (∀ s, (pool cfg).ReachableWhen Paces s → s.sh.running = true →
      Assembled cfg s → cfg.minThreads ≤ s.census Worker.kept) ∧
    ∀ s a s' w, (pool cfg).Reachable s → step cfg s a = some s' → s.marking a = some w →
      w.flags.shouldExit = false →
        (cfg.minThreads ≤ s'.census Worker.kept ↔
          cfg.minThreads + s.census Worker.marked < s.census Worker.inside) := by
  refine ⟨?_, ?_, ?_⟩
  · intro s hr hrun hassembled
    exact (floor_of_spares hr).kept hrun hassembled
  · intro s hr hrun hassembled
    exact (floor_of_paces hr).kept hrun hassembled
  · intro s a s' w hr hstep hmarking hexit
    have hkept := kept_of_marking hr hstep hmarking hexit
    have hinside := census_inside s
    omega

/-- Two workers wait, the first pass marks one of them, and while that one is
busy with a last task the second pass marks the other. -/
theorem shrunk_below_min :
    ¬∀ (cfg : Config) (s : State), (pool cfg).ReachableWhen Returning s →
      s.sh.running = true → Assembled cfg s → cfg.minThreads ≤ s.census Worker.kept := by
  intro hall
  obtain ⟨s, hr, hrun, hassembled, hnone⟩ := exists_of_runWhen (pool (.ofHardware 1))
    Returning (growing ++ shrinking ++ enqueuing 7 true ++ works 0 4 ++ monitors 11)
    (fun s => s.sh.running = true ∧ Assembled (.ofHardware 1) s ∧ s.census Worker.kept = 0)
    (by decide +kernel)
  have hkept := hall _ s hr hrun hassembled
  rw [hnone] at hkept
  exact absurd hkept (by decide)

/-- The first pass alone: of two workers one is marked and one is kept. -/
theorem shrinking_keeps_min_run : ∃ s : State,
    s.census Worker.marked = 1 ∧ s.census Worker.kept = 1 ∧
      (Config.ofHardware 1).minThreads ≤ s.census Worker.kept := by
  obtain ⟨s, hr, hrun, hassembled, hmarked, hkept⟩ := exists_of_runWhen
    (pool (.ofHardware 1)) (Spares (.ofHardware 1)) (growing ++ shrinking)
    (fun s => s.sh.running = true ∧ Assembled (.ofHardware 1) s ∧
      s.census Worker.marked = 1 ∧ s.census Worker.kept = 1)
    (by decide +kernel)
  exact ⟨s, hmarked, hkept, shrinking_keeps_min.1 s hr hrun hassembled⟩

end ThreadPool.Normal
