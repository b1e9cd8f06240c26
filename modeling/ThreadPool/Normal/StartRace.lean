import ThreadPool.Normal.Starts

/-!
# One caller of `Start` wins

Between the test of `running_` and its store another caller may test. That
is all that can go wrong between callers: as long as it does not happen, the
calls refine the guard, so one of them passes, and whoever comes later is
turned away. The one that has passed is then alone in the section, with a
monitor that is over, so it comes to its end; and it has made what a `Start`
makes if each creation succeeds.
-/

namespace ThreadPool.Normal.Starts

open Interleave Machine

/-! ## The guard -/

/-- `running_` as a guard, with the calls as its agents. -/
def State.guard (s : State) : Guard := Guard.of (!s.pool.sh.running) Call.stage s.calls

/-- By this step a call gets past its test. -/
def State.finds (s : State) : Action → Bool
  | .start k _ => s.calls[k]?.any fun c => c.pc = .test && !s.pool.sh.running
  | _ => false

theorem Move.guard {cfg : Config} {s s' : State} {a : Action} (h : Move cfg s a s')
    (hs : ∀ c ∈ s.calls, c.Staged s.pool.sh.running) :
    Guard.Refines (s.finds a) s.guard s'.guard := by
  cases h with
  | party hframe =>
      refine .stays rfl ?_
      rw [State.guard, State.guard, hframe.running]
  | calls => exact .moves .comes rfl rfl (Guard.of_comes rfl)
  | @start k creates c c' t hc hmove =>
      have hst := hs c (List.mem_of_getElem? hc)
      obtain ⟨pc, st⟩ := c
      have hfinds : s.finds (.start k creates) = (pc = .test && !s.pool.sh.running) := by
        rw [State.finds, hc]
        rfl
      cases hmove with
      | turnedAway hpc hrun =>
          refine .stays (by rw [hfinds, hrun]; simp) (Guard.of_set_same hc rfl)
      | passes hpc hrun =>
          cases hpc
          exact .passes k (by rw [hfinds, hrun]; rfl)
            (Guard.of_passes (by rw [hrun]; rfl) hc hst rfl)
      | stores hpc =>
          cases hpc
          exact .moves (.shuts k) (by rw [hfinds]; rfl) rfl (Guard.of_shuts hc hst rfl)
      | assigns hpc =>
          rcases hpc with hpc | hpc <;> cases hpc <;>
            exact .stays (by rw [hfinds]; rfl) (Guard.of_set_same hc rfl)
      | creates hpc | createFails hpc | storesMonitoring hpc | drops hpc | starts hpc
      | startFails hpc =>
          cases hpc
          exact .stays (by rw [hfinds]; rfl) (Guard.of_set_same hc rfl)

/-! ## Calls that do not overlap and do not fail -/

/-- A creation of this step fails. -/
def State.fails (cfg : Config) (s : State) : Action → Bool
  | .start k creates => s.calls[k]?.any fun c =>
      match c.pc with
      | .create => creates.avail < cfg.minThreads
      | .monitor => creates.avail = 0
      | _ => false
  | _ => false

/-- No call gets past its test while another has done so and not stored
`running_` yet, and every creation succeeds. -/
def Lawful (cfg : Config) (s : State) (a : Action) : Prop :=
  (s.finds a = true → ∀ c ∈ s.calls, c.stage ≠ .inside) ∧ s.fails cfg a = false

instance (cfg : Config) (s : State) (a : Action) : Decidable (Lawful cfg s a) :=
  inferInstanceAs (Decidable (_ ∧ _))

def CallPc.isReturned : CallPc → Bool
  | .ended .returned => true
  | _ => false

/-- The call has made its workers. -/
def CallPc.made : CallPc → Bool
  | .monitoring | .assign | .dropping | .monitor | .ended .returned => true
  | _ => false

/-- What the calls have made, and what they find in `monitor_thread_` until
one of them returns. -/
structure Orderly (cfg : Config) (s : State) : Prop where
  idle : ∃ last, s.pool.control = .idle last
  threw : ∀ c ∈ s.calls, ∀ e, c.pc = .ended (.threw e) → e = alreadyRunning
  workers : s.workersMade = cfg.minThreads * s.calls.countP fun c => c.pc.made
  monitors : s.monitorsMade = s.calls.countP fun c => c.pc.isReturned
  monitorOver : s.monitorsMade = 0 → ∀ m, s.pool.monitorThread = some m →
    m.pc = .ended ∧ (m.property.isJoinable = true → m.property.dtorAction = .join)
  dropping : s.monitorsMade = 0 → (∃ c ∈ s.calls, c.pc = .dropping) →
    s.pool.monitorThread.isSome = true

theorem Orderly.put {cfg : Config} {s t : State} {k : Nat} {c c' : Call}
    (hs : Orderly cfg s) (hc : s.calls[k]? = some c) (hcalls : t.calls = s.calls)
    (hcontrol : t.pool.control = s.pool.control)
    (hworkers : t.workersMade + cfg.minThreads * tally (·.pc.made) c =
      s.workersMade + cfg.minThreads * tally (·.pc.made) c')
    (hmonitors : t.monitorsMade + tally (·.pc.isReturned) c =
      s.monitorsMade + tally (·.pc.isReturned) c')
    (hthrew : ∀ e, c'.pc = .ended (.threw e) → e = alreadyRunning)
    (hmonitor : t.monitorsMade = 0 → s.monitorsMade = 0 ∧
      (t.pool.monitorThread = s.pool.monitorThread ∨
        t.pool.monitorThread = some unstarted))
    (hdropping : c'.pc = .dropping → t.pool.monitorThread.isSome = true) :
    Orderly cfg (t.put k c') where
  idle := by
    rw [State.put, hcontrol]
    exact hs.idle
  threw := by
    rw [State.put, hcalls]
    exact forall_mem_set hs.threw hthrew
  workers := by
    have hadd := countP_set_add (p := fun c : Call => c.pc.made) (b := c') hc
    have hmul := congrArg (cfg.minThreads * ·) hadd
    simp only [Nat.mul_add] at hmul
    have hmade := hs.workers
    simp only [State.put, hcalls]
    omega
  monitors := by
    have hadd := countP_set_add (p := fun c : Call => c.pc.isReturned) (b := c') hc
    have hmade := hs.monitors
    simp only [State.put, hcalls]
    omega
  monitorOver hnone m hm := by
    obtain ⟨hbefore, hsame | hnew⟩ := hmonitor hnone
    · exact hs.monitorOver hbefore m (hsame.symm.trans hm)
    · cases hnew.symm.trans hm
      exact ⟨rfl, fun _ => rfl⟩
  dropping hnone hex := by
    obtain ⟨hbefore, hsame | hnew⟩ := hmonitor hnone
    · obtain ⟨d, hd, hpc⟩ := hex
      rw [State.put, hcalls] at hd
      rcases List.mem_or_eq_of_mem_set hd with hd | rfl
      · exact (congrArg Option.isSome hsame).trans (hs.dropping hbefore ⟨d, hd, hpc⟩)
      · exact hdropping hpc
    · exact congrArg Option.isSome hnew

theorem CallMove.orderly {cfg : Config} {s t : State} {k : Nat} {creates : Creates}
    {c c' : Call} (h : CallMove cfg s creates c c' t) (hc : s.calls[k]? = some c)
    (hs : Orderly cfg s) (hok : s.fails cfg (.start k creates) = false) :
    Orderly cfg (t.put k c') := by
  have hsame (hnone : s.monitorsMade = 0) : s.monitorsMade = 0 ∧
      (s.pool.monitorThread = s.pool.monitorThread ∨
        s.pool.monitorThread = some unstarted) := ⟨hnone, Or.inl rfl⟩
  obtain ⟨pc, st⟩ := c
  rw [State.fails, hc, Option.any_some] at hok
  cases h with
  | turnedAway hpc =>
      cases hpc
      exact hs.put hc rfl rfl rfl rfl (fun e he => by cases he; rfl) hsame fun h => by cases h
  | passes hpc | stores hpc | storesMonitoring hpc =>
      cases hpc
      exact hs.put hc rfl rfl rfl rfl (fun e h => by cases h) hsame fun h => by cases h
  | createFails hpc hfew =>
      cases hpc
      exact absurd (of_decide_eq_false hok) (not_not_intro hfew)
  | startFails hpc hnone =>
      cases hpc
      exact absurd (of_decide_eq_false hok) (not_not_intro hnone)
  | creates hpc =>
      cases hpc
      refine hs.put hc rfl rfl ?_ rfl (fun e h => by cases h) hsame fun h => by cases h
      simp [tally, CallPc.made]
  | assigns hpc =>
      rcases hpc with hpc | hpc <;> cases hpc <;>
        exact hs.put hc rfl rfl rfl rfl (fun e h => by cases h)
          (fun hnone => ⟨hnone, Or.inr rfl⟩) fun h => by cases h
  | drops hpc hm =>
      cases hpc
      exact hs.put hc rfl rfl rfl rfl (fun e h => by cases h) hsame fun _ => hm
  | starts hpc =>
      cases hpc
      exact hs.put hc rfl rfl rfl rfl (fun e h => by cases h)
        (fun hnone => absurd hnone (Nat.succ_ne_zero _)) fun h => by cases h

theorem Move.orderly {cfg : Config} {s s' : State} {a : Action} (h : Move cfg s a s')
    (hs : Orderly cfg s) (hok : s.fails cfg a = false) : Orderly cfg s' := by
  have ⟨hidle, hthrew, hworkers, hmonitors, hover, hdropping⟩ := hs
  cases h with
  | party hframe =>
      have hsame (hnone : s.monitorsMade = 0) :=
        hframe.monitor fun m hm => (hover hnone m hm).1
      refine ⟨?_, hthrew, hworkers, hmonitors, fun hnone => ?_, fun hnone => ?_⟩
      · rw [hframe.control]
        exact hidle
      · rw [hsame hnone]
        exact hover hnone
      · rw [hsame hnone]
        exact hdropping hnone
  | calls =>
      refine ⟨hidle, ?_, ?_, ?_, hover, ?_⟩
      · exact List.forall_mem_append.mpr ⟨hthrew, List.forall_mem_singleton.mpr nofun⟩
      · rw [List.countP_append]
        exact hworkers
      · rw [List.countP_append]
        exact hmonitors
      · rintro hnone ⟨c, hc, hpc⟩
        rcases List.mem_append.mp hc with hc | hc
        · exact hdropping hnone ⟨c, hc, hpc⟩
        · cases List.mem_singleton.mp hc
          cases hpc
  | start hc hmove => exact hmove.orderly hc hs hok

/-- The pools on which `Start` is called: stopped, and in nobody's hands. -/
structure Stopped (cfg : Config) (p : Normal.State) : Prop where
  reachable : (Normal.pool cfg).Reachable p
  idle : ∃ last, p.control = .idle last
  stopped : p.sh.running = false

section

variable {cfg : Config} {p : Normal.State} {s s' t : State} {a : Action}

theorem guards (hp : Stopped cfg p) :
    Guard.Guards (starts cfg p) State.guard State.finds where
  init := by
    rw [State.guard, starts, hp.stopped]
    rfl
  step _ _ _ hr hstep := (step_cases hstep).guard (staged_of_reachable hr)

theorem orderly_of_lawful (hp : Stopped cfg p)
    (hr : (starts cfg p).ReachableWhen (Lawful cfg) s) : Orderly cfg s := by
  have hwired := wired_of_reachable hp.reachable
  refine hr.invariant
    ⟨hp.idle, nofun, rfl, rfl, fun _ m hm => ?_, fun _ ⟨_, hc, _⟩ => ?_⟩
    fun _ _ _ _ hs hok hstep => (step_cases hstep).orderly hs hok.2
  · refine ⟨hwired.unmonitored (Or.inl hp.stopped) m hm, fun hjoinable => ?_⟩
    rcases hwired.monitor m hm with hstarted | ⟨hnot, -⟩
    · exact hstarted.2
    · rw [hnot] at hjoinable
      cases hjoinable
  · cases hc

theorem guard_of_lawful (hp : Stopped cfg p)
    (hr : (starts cfg p).ReachableWhen (Lawful cfg) s) :
    Guard.machine.ReachableWhen Guard.Vacant s.guard :=
  (guards hp).reachable hr fun _ _ hok hfinds => Guard.inside_of.mpr (hok.1 hfinds)

/-! ## To the end -/

/-- How many steps a call has to go at most. -/
def CallPc.rank : CallPc → Nat
  | .test => 7
  | .store => 6
  | .create => 5
  | .monitoring => 4
  | .assign => 3
  | .dropping => 2
  | .monitor => 1
  | .ended _ => 0

def State.rank (s : State) : Nat := (s.calls.map fun c => c.pc.rank).sum

/-- Every call has ended. -/
def State.allEnded (s : State) : Bool := s.calls.all fun c => c.pc.rank = 0

theorem CallMove.rank_lt {creates : Creates} {c c' : Call}
    (h : CallMove cfg s creates c c' t) : c'.pc.rank < c.pc.rank := by
  cases h with
  | assigns hpc =>
      rcases hpc with hpc | hpc <;> rw [hpc] <;> exact Nat.le_of_ble_eq_true rfl
  | turnedAway hpc | passes hpc | stores hpc | creates hpc | createFails hpc
  | storesMonitoring hpc | drops hpc | starts hpc | startFails hpc =>
      rw [hpc]
      exact Nat.le_of_ble_eq_true rfl

theorem start_rank_lt {k : Nat} {creates : Creates}
    (h : step cfg s (.start k creates) = some s') :
    s'.rank < s.rank ∧ s'.calls.length = s.calls.length := by
  cases step_cases h with
  | @start _ _ c c' t hc hmove =>
      have hsum := sum_map_set_add (f := fun c : Call => c.pc.rank) (b := c') hc
      have hlt := hmove.rank_lt
      simp only [State.rank, State.put, hmove.calls, List.length_set, and_true]
      omega

/-- The call is on its way, past its test. -/
def CallPc.under : CallPc → Bool
  | .test | .ended _ => false
  | _ => true

theorem Call.Staged.passed {r : Bool} {c : Call} (hc : c.Staged r)
    (hpc : c.pc.under = true ∨ c.pc = .ended .returned) : c.stage.passed = true := by
  obtain ⟨pc, st⟩ := c
  cases pc with
  | test => rcases hpc with h | h <;> cases h
  | store => rw [show st = .inside from hc]; rfl
  | ended o =>
      cases o with
      | returned => rw [show st = .through from hc.2]; rfl
      | threw e => rcases hpc with h | h <;> cases h
  | _ => rw [show st = .through from hc.2]; rfl

theorem Call.Staged.under_of_inside {r : Bool} {c : Call} (hc : c.Staged r)
    (hin : c.stage = .inside) : c.pc = .store := by
  obtain ⟨pc, st⟩ := c
  cases hin
  cases pc with
  | store => rfl
  | test => cases hc
  | ended o =>
      cases o with
      | returned => cases hc.2
      | threw e => rcases hc.2 with h | h <;> cases h.1
  | _ => cases hc.2

theorem exists_callStep {k : Nat} {c : Call} (hc : s.calls[k]? = some c)
    (hs : Orderly cfg s) (hunder : c.pc.under = true) (hnone : s.monitorsMade = 0)
    (hout : ∀ d ∈ s.calls, d.pc.holdsWorkerMutex = true → d = c) :
    ∃ s', callStep cfg s k { avail := cfg.minThreads + 1 } = some s' := by
  obtain ⟨pc, st⟩ := c
  cases pc with
  | test | ended => cases hunder
  | store | monitoring =>
      simp only [callStep, hc]
      exact ⟨_, rfl⟩
  | create =>
      obtain ⟨last, hidle⟩ := hs.idle
      have hmonitor :
          (s.pool.monitorThread.any fun m => m.pc.holdsWorkerMutex) = false := by
        cases hm : s.pool.monitorThread with
        | none => rfl
        | some m =>
            rw [Option.any_some, (hs.monitorOver hnone m hm).1]
            rfl
      have hfree : s.pool.workerMutexFree = true := by
        rw [State.workerMutexFree, hidle, hmonitor]
        rfl
      have hcalls : s.callsOut = true := by
        refine List.all_eq_true.mpr fun d hd => ?_
        by_contra hholds
        simp only [Bool.not_eq_true, Bool.not_eq_false'] at hholds
        rw [hout d hd hholds] at hholds
        cases hholds
      simp only [callStep, hc, hfree, hcalls, and_self, if_true]
      exact ⟨_, rfl⟩
  | assign =>
      simp only [callStep, hc]
      cases hm : s.pool.monitorThread with
      | none => exact ⟨_, rfl⟩
      | some m =>
          rw [Option.bind_some, ThreadProperty.cleanup_eq]
          cases hjoinable : m.property.isJoinable with
          | true =>
              rw [if_pos rfl, (hs.monitorOver hnone m hm).2 hjoinable]
              exact ⟨_, rfl⟩
          | false => exact ⟨_, rfl⟩
  | dropping =>
      obtain ⟨m, hm⟩ := Option.isSome_iff_exists.mp
        (hs.dropping hnone ⟨_, List.mem_of_getElem? hc, rfl⟩)
      simp only [callStep, hc, hm, (hs.monitorOver hnone m hm).1, if_true]
      exact ⟨_, rfl⟩
  | monitor =>
      simp only [callStep, hc, ThreadProperty.start, Creates.pthreadCreate, if_neg,
        Nat.succ_ne_zero, not_false_eq_true]
      exact ⟨_, rfl⟩

/-- While a call is under way nobody else has passed. -/
theorem alone_of_lawful (hp : Stopped cfg p)
    (hr : (starts cfg p).ReachableWhen (Lawful cfg) s) {k : Nat} {c : Call}
    (hc : s.calls[k]? = some c) (hunder : c.pc.under = true) :
    ∀ d ∈ s.calls, d.pc.under = true ∨ d.pc = .ended .returned → d = c := by
  intro d hd hpc
  have hstaged := staged_of_reachable hr.reachable
  have hle := Guard.passed_le_one (guard_of_lawful hp hr)
  rw [State.guard, Guard.passed_of] at hle
  obtain ⟨j, hj⟩ := List.mem_iff_getElem?.mp hd
  have hjk := eq_of_countP_le_one hle hj hc ((hstaged d hd).passed hpc)
    ((hstaged c (List.mem_of_getElem? hc)).passed (Or.inl hunder))
  rw [hjk, hc] at hj
  exact (Option.some.inj hj).symm

theorem CallPc.eq_of_isReturned {pc : CallPc} (h : pc.isReturned = true) :
    pc = .ended .returned := by
  unfold isReturned at h
  split at h
  · rfl
  · cases h

theorem monitorsMade_of_under (hp : Stopped cfg p)
    (hr : (starts cfg p).ReachableWhen (Lawful cfg) s) {k : Nat} {c : Call}
    (hc : s.calls[k]? = some c) (hunder : c.pc.under = true) : s.monitorsMade = 0 := by
  rw [(orderly_of_lawful hp hr).monitors]
  refine List.countP_eq_zero.mpr fun d hd hreturned => ?_
  have hpc := CallPc.eq_of_isReturned hreturned
  rw [← alone_of_lawful hp hr hc hunder d hd (Or.inr hpc), hpc] at hunder
  cases hunder

theorem exists_step (hp : Stopped cfg p)
    (hr : (starts cfg p).ReachableWhen (Lawful cfg) s) (hnot : s.allEnded = false) :
    ∃ k creates s', Lawful cfg s (.start k creates) ∧
      step cfg s (.start k creates) = some s' := by
  have hstaged := staged_of_reachable hr.reachable
  by_cases hmid : ∃ c ∈ s.calls, c.pc.under = true
  · obtain ⟨c, hmem, hunder⟩ := hmid
    obtain ⟨k, hc⟩ := List.mem_iff_getElem?.mp hmem
    have halone := alone_of_lawful hp hr hc hunder
    have hord := orderly_of_lawful hp hr
    have hnone := monitorsMade_of_under hp hr hc hunder
    obtain ⟨s', hstep⟩ := exists_callStep hc hord hunder hnone fun d hd hholds => by
      refine halone d hd (Or.inl ?_)
      cases hpc : d.pc <;> rw [hpc] at hholds <;> first | rfl | cases hholds
    refine ⟨k, _, s', ⟨fun hfinds => ?_, ?_⟩, hstep⟩
    · rw [State.finds, hc, Option.any_some, Bool.and_eq_true,
        decide_eq_true_eq] at hfinds
      rw [hfinds.1] at hunder
      cases hunder
    · rw [State.fails, hc, Option.any_some]
      cases c.pc <;> simp
  · obtain ⟨c, hmem, hrank⟩ : ∃ c ∈ s.calls, c.pc.rank ≠ 0 := by
      simpa [State.allEnded] using hnot
    obtain ⟨k, hc⟩ := List.mem_iff_getElem?.mp hmem
    have htest : c.pc = .test := by
      have hnot : ¬c.pc.under = true := fun hunder => hmid ⟨c, hmem, hunder⟩
      cases hpc : c.pc with
      | test => rfl
      | ended => rw [hpc] at hrank; exact absurd rfl hrank
      | _ => rw [hpc] at hnot; exact absurd rfl hnot
    refine ⟨k, {}, _, ⟨fun _ d hd hin => ?_, ?_⟩,
      by simp only [step, callStep, hc, htest]; rfl⟩
    · refine hmid ⟨d, hd, ?_⟩
      rw [(hstaged d hd).under_of_inside hin]
      rfl
    · rw [State.fails, hc, Option.any_some, htest]

/-- The steps of the calls themselves. -/
def Action.isStart : Action → Bool
  | .start _ _ => true
  | _ => false

theorem calls_end (hp : Stopped cfg p)
    (hr : (starts cfg p).ReachableWhen (Lawful cfg) s) :
    ∃ t, (starts cfg p).LeadsWhen (fun s a => Lawful cfg s a ∧ a.isStart = true) s t ∧
      t.allEnded = true ∧ t.calls.length = s.calls.length := by
  cases hover : s.allEnded with
  | true => exact ⟨s, .refl, hover, rfl⟩
  | false =>
      refine exists_leads_of_rank
        (P := fun t => (starts cfg p).ReachableWhen (Lawful cfg) t ∧ t.allEnded = false ∧
          t.calls.length = s.calls.length)
        State.rank (fun t ⟨hr, hover, hlen⟩ => ?_) ⟨hr, hover, rfl⟩
      obtain ⟨k, creates, t', hok, hstep⟩ := exists_step hp hr hover
      obtain ⟨hlt, hsame⟩ := start_rank_lt hstep
      refine ⟨_, t', ⟨hok, rfl⟩, hstep, ?_⟩
      cases hover' : t'.allEnded with
      | true => exact Or.inl ⟨rfl, hsame.trans hlen⟩
      | false => exact Or.inr ⟨⟨hr.step hok hstep, rfl, hsame.trans hlen⟩, hlt⟩

/-! ## Who wins -/

/-- One call has returned, the others have thrown, and what has been made is
what one call makes. -/
structure Won (cfg : Config) (s : State) : Prop where
  returned : (s.calls.countP fun c => c.pc.isReturned) = 1
  threw : ∀ c ∈ s.calls, c.pc = .ended .returned ∨ c.pc = .ended (.threw alreadyRunning)
  workers : s.workersMade = cfg.minThreads
  monitors : s.monitorsMade = 1

theorem createFailed_ne (creates : Creates) : createFailed creates ≠ alreadyRunning := by
  intro h
  have htext := congrArg String.toList (Exn.runtimeError.inj h)
  rw [String.toList_append] at htext
  cases htext

/-- Of calls that have returned or been turned away, those that passed have
returned. -/
theorem returned_iff_passed {r : Bool} {c : Call} (hc : c.Staged r)
    (hended : c.pc = .ended .returned ∨ c.pc = .ended (.threw alreadyRunning)) :
    c.stage.passed = c.pc.isReturned := by
  obtain ⟨pc, st⟩ := c
  rcases hended with hpc | hpc <;> cases hpc
  · rw [show st = .through from hc.2]
    rfl
  · rcases hc.2 with ⟨hout, -⟩ | ⟨-, creates, heq⟩
    · rw [show st = .outside from hout]
      rfl
    · exact absurd heq.symm (createFailed_ne creates)

theorem passed_eq_returned (hr : (starts cfg p).Reachable s)
    (hended : ∀ c ∈ s.calls,
      c.pc = .ended .returned ∨ c.pc = .ended (.threw alreadyRunning)) :
    s.guard.passed = s.calls.countP fun c => c.pc.isReturned := by
  rw [State.guard, Guard.passed_of]
  refine List.countP_congr fun c hc => ?_
  rw [returned_iff_passed (staged_of_reachable hr c hc) (hended c hc)]

theorem won_of_over (hp : Stopped cfg p)
    (hr : (starts cfg p).ReachableWhen (Lawful cfg) s) (hover : s.allEnded = true)
    (hsome : s.calls ≠ []) : Won cfg s := by
  have hord := orderly_of_lawful hp hr
  have hended : ∀ c ∈ s.calls,
      c.pc = .ended .returned ∨ c.pc = .ended (.threw alreadyRunning) := by
    intro c hc
    have hrank := of_decide_eq_true (List.all_eq_true.mp hover c hc)
    cases hpc : c.pc with
    | ended o =>
        cases o with
        | returned => exact Or.inl rfl
        | threw e => exact Or.inr (by rw [hord.threw c hc e hpc])
    | _ => rw [hpc] at hrank; cases hrank
  obtain ⟨c, hc⟩ := List.exists_mem_of_ne_nil _ hsome
  have hrun : s.pool.sh.running = true := by
    have hst := staged_of_reachable hr.reachable c hc
    unfold Call.Staged at hst
    rcases hended c hc with hpc | hpc <;> rw [hpc] at hst <;> exact hst.1
  have hone := Guard.passed_eq_one (guard_of_lawful hp hr) (by
    rw [State.guard, Guard.of, hrun]
    rfl)
  rw [passed_eq_returned hr.reachable hended] at hone
  refine ⟨hone, hended, ?_, hord.monitors.trans hone⟩
  have hmade : (s.calls.countP fun c => c.pc.made) =
      s.calls.countP fun c => c.pc.isReturned := by
    refine List.countP_congr fun c hc => ?_
    rcases hended c hc with hpc | hpc <;> rw [hpc] <;> rfl
  rw [hord.workers, hmade, hone, Nat.mul_one]

theorem Move.ended (h : Move cfg s a s') {k : Nat} {c : Call} {o : Outcome}
    (hc : s.calls[k]? = some c) (hpc : c.pc = .ended o) : s'.calls[k]? = some c := by
  cases h with
  | party => exact hc
  | calls =>
      rw [List.getElem?_append_left (List.getElem?_eq_some_iff.mp hc).1]
      exact hc
  | @start j _ d _ _ hd hmove =>
      rw [State.put, hmove.calls]
      by_cases hjk : j = k
      · have hlt := hmove.rank_lt
        rw [hjk, hc, Option.some.injEq] at hd
        rw [← hd, hpc] at hlt
        exact absurd hlt (Nat.not_lt_zero _)
      · rw [List.getElem?_set_ne hjk]
        exact hc

theorem Move.fails (h : Move cfg s a s') (hfails : s.fails cfg a = true) :
    ∃ (k : Nat) (c : Call) (creates : Creates), s'.calls[k]? = some c ∧
      c.pc = .ended (.threw (createFailed creates)) := by
  cases h with
  | party | calls => cases hfails
  | @start k creates c c' t hc hmove =>
      rw [State.fails, hc, Option.any_some] at hfails
      have hk : (t.put k c').calls[k]? = some c' := by
        obtain ⟨hlt, -⟩ := List.getElem?_eq_some_iff.mp hc
        rw [State.put, hmove.calls]
        simp [hlt]
      cases hmove with
      | createFails | startFails => exact ⟨k, _, creates, hk, rfl⟩
      | creates hpc hall =>
          rw [hpc] at hfails
          exact absurd hall (Nat.not_le.mpr (of_decide_eq_true hfails))
      | starts hpc havail =>
          rw [hpc] at hfails
          exact absurd (of_decide_eq_true hfails) havail
      | assigns hpc => rcases hpc with hpc | hpc <;> rw [hpc] at hfails <;> cases hfails
      | turnedAway hpc | passes hpc | stores hpc | storesMonitoring hpc | drops hpc =>
          rw [hpc] at hfails
          cases hfails

/-- A step that breaks the law decides the race: nobody is to win it alone. -/
theorem not_won_of_unlawful (hp : Stopped cfg p) (hr : (starts cfg p).Reachable s)
    (hnot : ¬Lawful cfg s a) (hstep : step cfg s a = some s')
    (hs : (starts cfg p).Leads s' t) : ¬Won cfg t := by
  intro hwon
  have hr' : (starts cfg p).Reachable s' := hr.tail ⟨a, trivial, hstep⟩
  have hrt : (starts cfg p).Reachable t := hr'.trans hs
  rcases Classical.not_and_iff_not_or_not.mp hnot with hcrowded | hfails
  · obtain ⟨hfinds, hall⟩ := Classical.not_imp.mp hcrowded
    have htwo := (guards hp).two_le_passed hr hfinds
      (Classical.not_not.mp fun hin => hall (Guard.inside_of.mp hin)) hstep hs
    rw [passed_eq_returned hrt hwon.threw, hwon.returned] at htwo
    exact absurd htwo (by decide)
  · rw [Bool.not_eq_false] at hfails
    obtain ⟨k, c, creates, hc, hpc⟩ := (step_cases hstep).fails hfails
    have hstays : t.calls[k]? = some c :=
      hs.stable (P := fun t => t.calls[k]? = some c) hr' hc fun _ _ _ _ hc hstep =>
        (step_cases hstep).ended hc hpc
    rcases hwon.threw c (List.mem_of_getElem? hstays) with hend | hend <;>
      rw [hpc] at hend
    · cases hend
    · exact createFailed_ne creates (by simpa using hend)

/-- If no call gets past its test between the test and the store of another,
and every creation succeeds, the calls can be brought to their end, and at
their end one has won. If a step breaks that, none ever has. -/
theorem start_wins_once (hp : Stopped cfg p) :
    (∀ s, (starts cfg p).ReachableWhen (Lawful cfg) s →
      (s.allEnded = true → s.calls ≠ [] → Won cfg s) ∧
      ∃ t, (starts cfg p).LeadsWhen (fun s a => Lawful cfg s a ∧ a.isStart = true) s t ∧
        t.allEnded = true ∧ t.calls.length = s.calls.length) ∧
      ∀ s a s' t, (starts cfg p).Reachable s → ¬Lawful cfg s a →
        step cfg s a = some s' → (starts cfg p).Leads s' t → ¬Won cfg t :=
  ⟨fun _ hr => ⟨won_of_over hp hr, calls_end hp hr⟩,
    fun _ _ _ _ hr hnot hstep hs => not_won_of_unlawful hp hr hnot hstep hs⟩

end

/-! ## Two callers -/

/-- Call `k` alone; a section of its that creates makes one thread. -/
def proceeds (k n : Nat) : List Action := List.replicate n (.start k { avail := 1 })

/-- The others, in this order. -/
def meanwhile (as : List Normal.Action) : List Action := as.map .party

theorem stopped_init (cfg : Config) : Stopped cfg (Normal.pool cfg).init :=
  ⟨.refl, ⟨_, rfl⟩, rfl⟩

/-- Both callers find the pool stopped. The first makes the one worker and the
monitor and returns; six tasks come, and the monitor ends because it cannot
make another worker; the second makes a worker and a monitor, and returns. -/
theorem both_starts_win :
    ¬∀ (cfg : Config) (p : Normal.State) (s : State), Stopped cfg p →
      (starts cfg p).Reachable s → s.allEnded = true → s.calls ≠ [] → Won cfg s := by
  intro hall
  obtain ⟨s, hr, hover, hcalls, hworkers⟩ := exists_of_run (starts (.ofHardware 1) {})
    ([.call, .call] ++ proceeds 0 1 ++ proceeds 1 1 ++ proceeds 0 5 ++
      meanwhile (works 0 3 ++ (List.range 6).flatMap (fun k => enqueuing k true) ++
        List.replicate 8 (.monitor {} false)) ++ proceeds 1 6)
    (fun s => s.allEnded = true ∧ s.calls ≠ [] ∧ s.workersMade = 2)
    (by decide +kernel)
  have hwon := hall _ _ s (stopped_init _) hr hover hcalls
  exact absurd (hworkers.symm.trans hwon.workers) (by decide)

/-- The second caller comes when the first has stored `running_`; it comes when
the first has not, and nobody wins. -/
theorem start_wins_once_run :
    (∃ s : State, Won (.ofHardware 1) s ∧ s.calls.map Call.pc =
      [.ended .returned, .ended (.threw alreadyRunning)]) ∧
      ∃ s : State, s.pool.sh.running = false ∧ ¬Won (.ofHardware 1) s := by
  constructor
  · obtain ⟨s, hr, hover, hcalls⟩ := exists_of_runWhen (starts (.ofHardware 1) {})
      (Lawful (.ofHardware 1))
      ([.call, .call] ++ proceeds 0 2 ++ proceeds 1 1 ++ proceeds 0 4)
      (fun s => s.allEnded = true ∧ s.calls.map Call.pc =
        [.ended .returned, .ended (.threw alreadyRunning)])
      (by decide +kernel)
    have hsome : s.calls ≠ [] := by
      rintro hnil
      rw [hnil] at hcalls
      cases hcalls
    have hwon := ((start_wins_once (stopped_init (.ofHardware 1))).1 s hr).1 hover hsome
    exact ⟨s, hwon, hcalls⟩
  · obtain ⟨s, hr, hnot, hnext⟩ := exists_of_run (starts (.ofHardware 1) {})
      ([.call, .call] ++ proceeds 0 1)
      (fun s => ¬Lawful (.ofHardware 1) s (.start 1 {}) ∧
        (step (.ofHardware 1) s (.start 1 {})).any (fun t => !t.pool.sh.running) = true)
      (by decide +kernel)
    obtain ⟨t, hstep, hrun⟩ := (Option.any_eq_true _ _).mp hnext
    exact ⟨t, (Bool.not_eq_true' _).mp hrun,
      (start_wins_once (stopped_init (.ofHardware 1))).2 s _ t t hr hnot hstep .refl⟩

end ThreadPool.Normal.Starts
