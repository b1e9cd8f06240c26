import ThreadPool.Normal.Restart
import ThreadPool.Numa.Restart

/-!
# A `Start` that fails

Every `Thread::Start` inside the pools' `Start` may be the one for which
`pthread_create` fails. Its exception leaves `Start` at once, and `Start` has
no handler: what has been stored and created so far stays. The first thing it
stores is `running_ = true`, so whichever creation fails, the pool counts as
running from then on.
-/

namespace ThreadPool

open Interleave Machine

namespace Normal

/-- What a pool is before `Start`. -/
structure Stopped (s : State) : Prop where
  running : s.sh.running = false
  monitoring : s.sh.monitoring = false
  workers : s.workers = []

/-- The steps other than `Stop`'s store of `running_ = false`. -/
def Unstopped (s : State) (_ : Action) : Prop := ∀ p, s.control ≠ .stop p .running

theorem Move.running_kept {cfg : Config} {s s' : State} {a : Action} (hs : Unstopped s a)
    (hrun : s.sh.running = true) (h : Move cfg s a s') : s'.sh.running = true := by
  cases h with
  | loops _ hstep => exact hstep.running_eq.trans hrun
  | storeRunning => rfl
  | clearRunning hc => exact absurd hc (hs _)
  | _ => exact hrun

theorem running_of_unstopped {cfg : Config} {s s' : State} (hr : (pool cfg).Reachable s)
    (hrun : s.sh.running = true) (hleads : (pool cfg).LeadsWhen Unstopped s s') :
    s'.sh.running = true :=
  hleads.stable (P := fun s : State => s.sh.running = true) hr hrun
    fun _ _ _ hr hrun hok hstep => (move_of_step hr hstep).running_kept hok hrun

theorem startSection_fails {cfg : Config} {s : State} {creates : Creates}
    (hempty : s.workers = []) (hfew : creates.avail ≤ cfg.minThreads) :
    (∃ e, (startSection cfg s creates).control = .idle (.threw e)) ∧
      (startSection cfg s creates).sh.running = s.sh.running ∧
      (startSection cfg s creates).workers.length = creates.avail ∧
      (creates.avail = cfg.minThreads →
        (startSection cfg s creates).sh.monitoring = true) := by
  obtain ⟨hworkers, hexn, hleft⟩ := startWorkers_eq (List.range cfg.minThreads)
    ⟨s.workers, s.nextHandle, creates, 0, none⟩ rfl
  simp only [List.length_range, hempty] at hworkers hexn hleft
  unfold startSection
  simp only [hempty]
  generalize (List.range cfg.minThreads).foldl (fun sp _ => appendWorker sp)
    ⟨[], s.nextHandle, creates, 0, none⟩ = sp at hworkers hexn hleft
  have hlen : sp.workers.length = creates.avail := by
    rw [hworkers, List.nil_append, freshWorkers_length]
    omega
  by_cases hall : cfg.minThreads ≤ creates.avail
  · rw [if_pos hall] at hexn
    have hspent : sp.creates.avail = 0 := by
      rw [hleft hall]
      omega
    simp only [hexn, ThreadProperty.start, Creates.pthreadCreate, hspent, if_true]
    exact ⟨⟨_, rfl⟩, trivial, hlen, fun _ => trivial⟩
  · rw [if_neg hall] at hexn
    simp only [hexn]
    exact ⟨⟨_, rfl⟩, rfl, hlen, fun heq => absurd heq.ge hall⟩

/-- A pool in whose state a `Start` throws and an `Enqueue` is let through. -/
structure TakenForRunning (cfg : Config) (s : State) : Prop where
  unstopped : ¬ Stopped s
  start : ∀ creates, startStep cfg s creates .test =
    some (s.goto (.idle (.threw (.runtimeError "Thread pool is already running"))))
  enqueue : ∀ k c pick, s.calls[k]? = some c → c.pc = .test →
    enqueueStep s k pick = some (s.callGoto k .push)

theorem takenForRunning (cfg : Config) {s : State} (hrun : s.sh.running = true) :
    TakenForRunning cfg s where
  unstopped hs := absurd (hrun.symm.trans hs.running) nofun
  start _ := by rw [startStep, if_pos hrun]
  enqueue k c pick hk hc := by
    unfold enqueueStep
    simp only [hk, hc, hrun, if_true]

/-- The last step of a `Start` for whose workers and monitor too few creations
succeed. -/
theorem start_fails {cfg : Config} {s s' : State} {creates : Creates} {timedOut : Bool}
    (hr : (pool cfg).Reachable s) (hc : s.control = .start .create)
    (hfew : creates.avail ≤ cfg.minThreads)
    (hstep : step cfg s (.control creates timedOut) = some s') :
    (∃ e, s'.control = .idle (.threw e)) ∧ s'.workers.length = creates.avail ∧
      (creates.avail = cfg.minThreads → s'.sh.monitoring = true) ∧
      ∀ t, (pool cfg).LeadsWhen Unstopped s' t → TakenForRunning cfg t := by
  have hrun : s.sh.running = true := (wired_of_reachable hr).running_at hc rfl
  have hs' : startSection cfg s creates = s' := by
    simp only [step, controlStep, hc, startStep] at hstep
    split at hstep
    · exact Option.some.inj hstep
    · cases hstep
  obtain ⟨hthrew, hsame, hleft, hmonitoring⟩ :=
    startSection_fails ((sized_of_reachable hr).empty hc) hfew
  rw [hs'] at hthrew hsame hleft hmonitoring
  refine ⟨hthrew, hleft, hmonitoring, fun t hleads => takenForRunning cfg ?_⟩
  have hr' : (pool cfg).Reachable s' :=
    hr.tail ⟨.control creates timedOut, trivial, hstep⟩
  exact running_of_unstopped hr' (hsame.trans hrun) hleads

end Normal

namespace Numa

/-- What a pool is before the `Start` that is called in `s₀`, where it is
stopped. -/
structure AsBefore (cfg : Config) (s₀ s : State) : Prop where
  running : s.sh.running = false
  monitoring : s.sh.monitoring = false
  workers : s.workers = []
  threadCounts : ∀ n < cfg.numaNodeCount, (s.node n).threadCount = (s₀.node n).threadCount

def Control.starting : Control → Bool
  | .start _ => true
  | _ => false

/-- The steps that are taken while the controlling thread is inside `Start`. -/
def Starting (s : State) (_ : Action) : Prop := s.control.starting = true

instance (s : State) (a : Action) : Decidable (Starting s a) :=
  inferInstanceAs (Decidable (_ = _))

theorem Starting.unmonitoring {s : State} {a : Action} (h : Starting s a) :
    s.control.unmonitoring = false := by
  unfold Starting at h
  cases hc : s.control with
  | start => rfl
  | _ =>
      rw [hc] at h
      cases h

/-- The steps other than `Stop`'s store of `running_ = false`. -/
def Unstopped (s : State) (_ : Action) : Prop := ∀ p, s.control ≠ .stop p .running

/-- `Start` is about to create a thread. -/
def Control.creates (cfg : Config) : Control → Prop
  | .start (.spawn n i) => n < cfg.numaNodeCount ∧ i < cfg.minThreadsPerNode
  | .start .monitor => True
  | _ => False

theorem Move.running_kept {cfg : Config} {s s' : State} {a : Action} (hs : Unstopped s a)
    (hrun : s.sh.running = true) (h : Move cfg s a s') : s'.sh.running = true := by
  cases h with
  | loops _ _ hstep => exact hstep.running_eq.trans hrun
  | storeRunning => rfl
  | clearRunning hc => exact absurd hc (hs _)
  | _ => exact hrun

theorem running_of_unstopped {cfg : Config} {s s' : State} (hr : (pool cfg).Reachable s)
    (hrun : s.sh.running = true) (hleads : (pool cfg).LeadsWhen Unstopped s s') :
    s'.sh.running = true :=
  hleads.stable (P := fun s : State => s.sh.running = true) hr hrun
    fun _ _ _ hr hrun hok hstep => (move_of_step hr hstep).running_kept hok hrun

theorem Control.creates.unmonitored {cfg : Config} {c : Control} (h : c.creates cfg) :
    c.runningIs = some true ∧ c.unmonitoring = false ∧ c.unmonitored = true := by
  cases c with
  | start pc =>
      cases pc with
      | spawn | monitor => exact ⟨rfl, rfl, rfl⟩
      | _ => exact absurd h id
  | _ => exact absurd h id

theorem start_throws {cfg : Config} {s s' : State} {creates : Creates} {timedOut : Bool}
    (hc : s.control.creates cfg) (hnone : creates.avail = 0)
    (hstep : step cfg s (.control creates timedOut) = some s') :
    ∃ e, s' = s.goto (.idle (.threw e)) ∨
      s' = { s with
        monitorThread := some { property := {}, pc := .ended }
        control := .idle (.threw e) } := by
  cases hcontrol : s.control with
  | start pc =>
      rw [hcontrol] at hc
      simp only [step, controlStep, hcontrol] at hstep
      cases pc with
      | spawn n i =>
          simp only [startStep, if_pos hc.1, if_pos hc.2, startWorker,
            ThreadProperty.start, Creates.pthreadCreate, hnone, if_true,
            Option.some.injEq] at hstep
          exact ⟨_, Or.inl hstep.symm⟩
      | monitor =>
          simp only [startStep, ThreadProperty.start, Creates.pthreadCreate, hnone,
            if_true, Option.some.injEq] at hstep
          exact ⟨_, Or.inr hstep.symm⟩
      | _ => exact absurd hc id
  | _ =>
      rw [hcontrol] at hc
      exact absurd hc id

theorem opening_of_starting {cfg : Config} {s₀ s : State} (hr : (pool cfg).Reachable s₀)
    (hc : s₀.control = .start .test) (hleads : (pool cfg).LeadsWhen Starting s₀ s) :
    Opening cfg (fun n => (s₀.node n).threadCount) s := by
  refine hleads.stable hr ⟨?_, ?_, fun _ _ _ _ => ?_⟩
    fun s a s' hr hs hin hstep => ?_
  · rw [hc]
    nofun
  · rw [hc]
    nofun
  · rw [hc]
    rfl
  · exact (move_of_step hr hstep).opening (wired_of_reachable hr) hin.unmonitoring hs

/-- A pool in whose state a `Start` throws and an `Enqueue` is let through. -/
structure TakenForRunning (cfg : Config) (s : State) : Prop where
  start : ∀ creates, startStep cfg s creates .test =
    some (s.goto (.idle (.threw (.runtimeError "Thread pool is already running"))))
  enqueue : ∀ k c pick, s.calls[k]? = some c → c.pc = .test →
    enqueueStep cfg s k pick = some (s.callGoto k .locate)
  enqueueOn : ∀ k c pick, s.calls[k]? = some c → c.pc = .testNode →
    enqueueStep cfg s k pick = some (s.callGoto k .push)

theorem takenForRunning (cfg : Config) {s : State} (hrun : s.sh.running = true) :
    TakenForRunning cfg s where
  start _ := by rw [startStep, if_pos hrun]
  enqueue k c pick hk hc := by
    unfold enqueueStep
    simp only [hk, hc, hrun, if_true]
  enqueueOn k c pick hk hc := by
    unfold enqueueStep
    simp only [hk, hc, hrun, if_true]

theorem start_fails {cfg : Config} {s₀ s s' : State} {creates : Creates} {timedOut : Bool}
    (hr : (pool cfg).Reachable s₀) (hcalled : s₀.control = .start .test)
    (hleads : (pool cfg).LeadsWhen Starting s₀ s) (hc : s.control.creates cfg)
    (hnone : creates.avail = 0)
    (hstep : step cfg s (.control creates timedOut) = some s') :
    (∃ e, s'.control = .idle (.threw e)) ∧ s'.workers = s.workers ∧
      (∀ n < cfg.numaNodeCount, (s'.node n).threadCount =
        (s₀.node n).threadCount + s.control.placed cfg n) ∧
      ∀ t, (pool cfg).LeadsWhen Unstopped s' t →
        ¬ AsBefore cfg s₀ t ∧ TakenForRunning cfg t := by
  have hrs : (pool cfg).Reachable s := hr.trans (hleads.mono fun _ _ _ => trivial)
  have hr' : (pool cfg).Reachable s' :=
    hrs.tail ⟨.control creates timedOut, trivial, hstep⟩
  obtain ⟨hruns, hmonitoring, hunmonitored⟩ := hc.unmonitored
  have hrun : s.sh.running = true := (wired_of_reachable hrs).runFlag true hruns
  have hcounts :=
    (opening_of_starting hr hcalled hleads).counts hmonitoring (Or.inr hunmonitored)
  have hlater (hkept : s'.sh.running = true) (t : State)
      (hleads : (pool cfg).LeadsWhen Unstopped s' t) :
      ¬ AsBefore cfg s₀ t ∧ TakenForRunning cfg t := by
    have hrun := running_of_unstopped hr' hkept hleads
    exact ⟨fun hs => absurd (hrun.symm.trans hs.running) nofun, takenForRunning cfg hrun⟩
  obtain ⟨e, rfl | rfl⟩ := start_throws hc hnone hstep
  · exact ⟨⟨e, rfl⟩, rfl, hcounts, hlater hrun⟩
  · exact ⟨⟨e, rfl⟩, rfl, hcounts, hlater hrun⟩

end Numa

/-! ## Both pools -/

/-- However many of the creations of `Start` succeed before one fails, its
exception leaves a pool that is not stopped: what was created stays, the nodes
keep what was added to their counts, and until a `Stop` gets to clear
`running_` every `Start` is turned away and every `Enqueue` let through. -/
theorem failed_start_stays_running (cfg : Normal.Config) (numaCfg : Numa.Config) :
    (∀ (s s' : Normal.State) (creates : Creates) (timedOut : Bool),
      (Normal.pool cfg).Reachable s → s.control = .start .create →
      creates.avail ≤ cfg.minThreads →
      Normal.step cfg s (.control creates timedOut) = some s' →
      (∃ e, s'.control = .idle (.threw e)) ∧ s'.workers.length = creates.avail ∧
        (creates.avail = cfg.minThreads → s'.sh.monitoring = true) ∧
        ∀ t, (Normal.pool cfg).LeadsWhen Normal.Unstopped s' t →
          Normal.TakenForRunning cfg t) ∧
      ∀ (s₀ s s' : Numa.State) (creates : Creates) (timedOut : Bool),
        (Numa.pool numaCfg).Reachable s₀ → s₀.control = .start .test →
        (Numa.pool numaCfg).LeadsWhen Numa.Starting s₀ s → s.control.creates numaCfg →
        creates.avail = 0 → Numa.step numaCfg s (.control creates timedOut) = some s' →
        (∃ e, s'.control = .idle (.threw e)) ∧ s'.workers = s.workers ∧
          (∀ n < numaCfg.numaNodeCount, (s'.node n).threadCount =
            (s₀.node n).threadCount + s.control.placed numaCfg n) ∧
          ∀ t, (Numa.pool numaCfg).LeadsWhen Numa.Unstopped s' t →
            ¬ Numa.AsBefore numaCfg s₀ t ∧ Numa.TakenForRunning numaCfg t :=
  ⟨fun _ _ _ _ hr hc hfew hstep => Normal.start_fails hr hc hfew hstep,
    fun _ _ _ _ _ hr hcalled hleads hc hnone hstep =>
      Numa.start_fails hr hcalled hleads hc hnone hstep⟩

/-- The one worker cannot be created; of two nodes the second goes without. -/
theorem failed_start_leaves_running :
    (¬∀ (cfg : Normal.Config) (s s' : Normal.State) (creates : Creates) (timedOut : Bool),
      (Normal.pool cfg).Reachable s → s.control = .start .create →
      creates.avail ≤ cfg.minThreads →
      Normal.step cfg s (.control creates timedOut) = some s' → Normal.Stopped s') ∧
      ¬∀ (cfg : Numa.Config) (s₀ s s' : Numa.State) (creates : Creates) (timedOut : Bool),
        (Numa.pool cfg).Reachable s₀ → s₀.control = .start .test →
        (Numa.pool cfg).LeadsWhen Numa.Starting s₀ s → s.control.creates cfg →
        creates.avail = 0 → Numa.step cfg s (.control creates timedOut) = some s' →
        Numa.AsBefore cfg s₀ s' := by
  constructor
  · intro hall
    obtain ⟨s, hr, hc, hfails⟩ := exists_of_run (Normal.pool (.ofHardware 1))
      (.start :: Normal.controls 2)
      (fun s => s.control = .start .create ∧
        (Normal.step (.ofHardware 1) s (.control {} false)).any (·.sh.running) = true)
      (by decide +kernel)
    obtain ⟨s', hstep, hrun⟩ := (Option.any_eq_true _ _).mp hfails
    have hstopped := hall _ s s' {} false hr hc (Nat.zero_le _) hstep
    rw [hstopped.running] at hrun
    cases hrun
  · intro hall
    obtain ⟨s₀, hr, hcalled, hstart⟩ := exists_of_run
      (Numa.pool (.ofHardware 2 2)) [.start]
      (fun s => s.control = .start .test ∧
        ((Numa.pool (.ofHardware 2 2)).runWhen Numa.Starting s (Numa.controls 5)).any
          (fun t => decide (t.control = .start (.spawn 1 0) ∧
            (Numa.step (.ofHardware 2 2) t (.control {} false)).any (·.sh.running) =
              true)) = true)
      (by decide +kernel)
    obtain ⟨s, hleads, hc, hfails⟩ := exists_leads_of_runWhen _ _ _ hstart
    obtain ⟨s', hstep, hrun⟩ := (Option.any_eq_true _ _).mp hfails
    have hcreates : s.control.creates (.ofHardware 2 2) := by
      rw [hc]
      exact ⟨by decide, by decide⟩
    have hbefore := hall _ s₀ s s' {} false hr hcalled hleads hcreates rfl hstep
    rw [hbefore.running] at hrun
    cases hrun

/-- Two of three workers can be created; of two nodes the second goes without.
-/
theorem failed_start_stays_running_run :
    (∃ s : Normal.State, s.workers.length = 2 ∧
      Normal.TakenForRunning (.ofHardware 3) s) ∧
      ∃ s : Numa.State, (s.node 0).threadCount = 1 ∧
        Numa.TakenForRunning (.ofHardware 2 2) s := by
  constructor
  · obtain ⟨s, hr, hc, hfails⟩ := exists_of_run (Normal.pool (.ofHardware 3))
      (.start :: Normal.controls 2)
      (fun s => s.control = .start .create ∧
        (Normal.step (.ofHardware 3) s (.control { avail := 2 } false)).isSome = true)
      (by decide +kernel)
    obtain ⟨s', hstep⟩ := Option.isSome_iff_exists.mp hfails
    obtain ⟨-, hlen, -, hlater⟩ :=
      (failed_start_stays_running (.ofHardware 3) (.ofHardware 2 2)).1 s s' { avail := 2 }
        false hr hc (by decide) hstep
    exact ⟨s', hlen, hlater s' .refl⟩
  · obtain ⟨s₀, hr, hcalled, hnone, hstart⟩ := exists_of_run
      (Numa.pool (.ofHardware 2 2)) [.start]
      (fun s => s.control = .start .test ∧ (s.node 0).threadCount = 0 ∧
        ((Numa.pool (.ofHardware 2 2)).runWhen Numa.Starting s (Numa.controls 5)).any
          (fun t => decide (t.control = .start (.spawn 1 0) ∧
            (Numa.step (.ofHardware 2 2) t (.control {} false)).isSome = true)) = true)
      (by decide +kernel)
    obtain ⟨s, hleads, hc, hfails⟩ := exists_leads_of_runWhen _ _ _ hstart
    obtain ⟨s', hstep⟩ := Option.isSome_iff_exists.mp hfails
    have hcreates : s.control.creates (.ofHardware 2 2) := by
      rw [hc]
      exact ⟨by decide, by decide⟩
    obtain ⟨-, -, hcounts, hlater⟩ :=
      (failed_start_stays_running (.ofHardware 3) (.ofHardware 2 2)).2 s₀ s s' {} false hr
        hcalled hleads hcreates rfl hstep
    have hzero := hcounts 0 (by decide)
    rw [hnone, hc] at hzero
    exact ⟨s', hzero, (hlater s' .refl).2⟩

end ThreadPool
