import ThreadPool.Normal.Moves

/-!
# The wiring is kept

Every move keeps `Wired`, so every reachable state has it and `Move` is what
a step of the pool is. The moves of one worker, of the monitor and of the
calls are three frame lemmas; the moves of the controlling thread are gone
through one by one, since `Wired` speaks of its program point throughout.
-/

namespace ThreadPool.Normal

open Interleave

/-! ## Frames -/

theorem Wired.frame {s s' : State} (hs : Wired s)
    (hworkers : s'.workers = s.workers) (hcontrol : s'.control = s.control)
    (hmonitor : s'.monitorThread = s.monitorThread)
    (hrunning : s'.sh.running = s.sh.running) : Wired s' := by
  constructor
  · rw [hworkers]
    exact hs.index
  · rw [hworkers, hcontrol]
    exact hs.property
  · rw [hworkers, hcontrol]
    exact hs.joining
  · rw [hworkers, hcontrol]
    exact hs.joined
  · rw [hworkers, hcontrol]
    exact hs.emptied
  · rw [hcontrol, hrunning]
    exact hs.runFlag
  · rw [hworkers, hcontrol, hrunning]
    exact hs.resting
  · rw [hmonitor]
    exact hs.monitor
  · rw [hmonitor, hcontrol, hrunning]
    exact hs.unmonitored

theorem Wired.put {s : State} {j : Nat} {w : Worker} (hs : Wired s)
    (hw : s.workers[j]? = some w) (w' : Worker) (hindex : w'.native.index = w.native.index)
    (hproperty : w.property.Started → w'.property.Started)
    (hended : w.native.pc.isEnded = true →
      w'.native.pc.isEnded = true ∧ w'.property = w.property) :
    Wired (s.put j w') := by
  constructor
  · exact forall_getElem?_set hs.index (hindex.trans (hs.index j w hw))
  · refine forall_mem_set hs.property ?_
    rcases hs.property w (List.mem_of_getElem? hw) with hstarted | ⟨hholds, hover, hterm⟩
    · exact Or.inl (hproperty hstarted)
    · obtain ⟨hover', hprop⟩ := hended hover
      exact Or.inr ⟨hholds, hover', by rw [hprop]; exact hterm⟩
  · intro p i v hc hv
    rw [State.put, List.getElem?_set] at hv
    split at hv
    · next hij =>
        subst hij
        split at hv
        · rw [Option.some.injEq] at hv
          rw [← hv]
          exact hproperty (hs.joining p j w hc hw)
        · cases hv
    · exact hs.joining p i v hc hv
  · rw [State.put, List.length_set]
    refine forall_getElem?_set hs.joined fun hlt => ?_
    exact (hended (hs.joined j w hw hlt)).1
  · intro p hc
    have hnil := hs.emptied p hc
    rw [hnil] at hw
    cases hw
  · exact hs.runFlag
  · intro hrest hrun
    have hnil := hs.resting hrest hrun
    rw [hnil] at hw
    cases hw
  · exact hs.monitor
  · exact hs.unmonitored

theorem Wired.monitorStep {s : State} {m : Monitor} (hs : Wired s)
    (hm : s.monitorThread = some m) (m' : Monitor) (halive : m.pc ≠ .ended)
    (hproperty : m.property.Started → m'.property.Started) :
    Wired { s with monitorThread := some m' } := by
  have hstarted : m.property.Started := by
    rcases hs.monitor m hm with hstarted | ⟨-, hended⟩
    · exact hstarted
    · exact absurd hended halive
  refine { hs with monitor := fun m₁ hm₁ => ?_, unmonitored := fun hquiet => ?_ }
  · rw [Option.some.injEq] at hm₁
    rw [← hm₁]
    exact Or.inl (hproperty hstarted)
  · exact absurd (hs.unmonitored hquiet m hm) halive

theorem Control.joinedUpTo_eq_zero {c : Control} {n : Nat}
    (hfree : c.holdsWorkerMutex = false) : c.joinedUpTo n = 0 := by
  cases c with
  | idle _ | start _ => rfl
  | stop p pc => cases pc <;> first | rfl | cases hfree

theorem Wired.append {s : State} (hs : Wired s) (hfree : s.workerMutexFree = true)
    (hbusy : s.control.resting = true → s.sh.running = true) (handle n next : Nat) :
    Wired { s with
      workers := s.workers ++ freshWorkers s.workers.length handle n
      nextHandle := next } := by
  have hheld : s.control.holdsWorkerMutex = false := by
    rw [State.workerMutexFree, Bool.and_eq_true] at hfree
    simpa using hfree.1
  refine { hs with index := ?_, property := ?_, joining := ?_, joined := ?_,
                   emptied := ?_, resting := ?_ }
  · refine forall_getElem?_append hs.index fun k w hk => ?_
    rw [getElem?_freshWorkers hk]
    rfl
  · intro w hmem
    refine Or.inl ?_
    exact forall_mem_append_fresh (hs.started hfree) (fun _ => ⟨rfl, rfl⟩) w hmem
  · intro p i w hc
    rw [show s.control = _ from hc] at hheld
    cases hheld
  · intro j w _ hj
    dsimp only at hj
    rw [Control.joinedUpTo_eq_zero hheld] at hj
    exact absurd hj (Nat.not_lt_zero j)
  · rintro p (hc | hc)
    all_goals
      rw [show s.control = _ from hc] at hheld
      cases hheld
  · intro hrest hrun
    have hrun' := hbusy hrest
    rw [show s.sh.running = _ from hrun] at hrun'
    cases hrun'

/-! ## The controlling thread -/

theorem Wired.goto {s : State} (hs : Wired s) (sh : Shared) (c : Control)
    (hholds : s.control.holdsWorkerMutex = true → c.holdsWorkerMutex = true)
    (hjoining : ∀ p i, c = .stop p (.joining i) →
      ∀ w, s.workers[i]? = some w → w.property.Started)
    (hjoined : ∀ j w, s.workers[j]? = some w →
      j < c.joinedUpTo s.workers.length → w.native.pc.isEnded = true)
    (hemptied : ∀ p, c = .stop p .count ∨ c = .stop p .tasks → s.workers = [])
    (hrunFlag : ∀ b, c.runningIs = some b → sh.running = b)
    (hresting : c.resting = true → sh.running = false → s.workers = [])
    (hunmonitored : sh.running = false ∨ c.unmonitored = true →
      ∀ m, s.monitorThread = some m → m.pc = .ended) :
    Wired { s with sh := sh, control := c } where
  index := hs.index
  property := fun w hw =>
    (hs.property w hw).imp_right fun h => ⟨hholds h.1, h.2⟩
  joining := fun p i w hc hw => hjoining p i hc w hw
  joined := hjoined
  emptied := hemptied
  runFlag := hrunFlag
  resting := hresting
  monitor := hs.monitor
  unmonitored := hunmonitored

theorem Wired.goto_unlocked {s : State} (hs : Wired s) (sh : Shared) (c : Control)
    (hheld : s.control.holdsWorkerMutex = false) (hfree : c.holdsWorkerMutex = false)
    (hrunFlag : ∀ b, c.runningIs = some b → sh.running = b)
    (hresting : c.resting = true → sh.running = false → s.workers = [])
    (hunmonitored : sh.running = false ∨ c.unmonitored = true →
      ∀ m, s.monitorThread = some m → m.pc = .ended) :
    Wired { s with sh := sh, control := c } := by
  refine hs.goto sh c ?_ ?_ ?_ ?_ hrunFlag hresting hunmonitored
  · rw [hheld]
    exact fun h => by cases h
  · rintro p i rfl
    cases hfree
  · rw [Control.joinedUpTo_eq_zero hfree]
    exact fun _ _ _ h => absurd h (Nat.not_lt_zero _)
  · rintro p (rfl | rfl) <;> cases hfree

theorem Wired.hop {s : State} {c : Control} (hs : Wired s)
    (hhop : Hop s s.control c) : Wired (s.goto c) := by
  have hrun := hs.runFlag
  have hrest := hs.resting
  have hunmon := hs.unmonitored
  have hjoined := hs.joined
  have hplain := hs.goto_unlocked s.sh c
  have hgoto := hs.goto s.sh c
  generalize s.control = c₀ at hhop hrun hrest hunmon hjoined hplain hgoto
  have hquiet : c.unmonitored = false → s.sh.running = false ∨ c.unmonitored = true →
      ∀ m, s.monitorThread = some m → m.pc = .ended := by
    intro hno hor
    rw [hno] at hor
    exact hunmon (Or.inl (hor.resolve_right (by simp)))
  cases hhop with
  | alreadyRunning | notRunning =>
      exact hplain rfl rfl (fun _ h => by cases h) hrest (hquiet rfl)
  | mayStart hrunning =>
      refine hplain rfl rfl (fun b h => ?_) hrest (hquiet rfl)
      rw [Control.runningIs, Option.some.injEq] at h
      rw [← h, hrunning]
  | mayStop hrunning =>
      refine hplain rfl rfl (fun b h => ?_) (fun h => by cases h) (hquiet rfl)
      rw [Control.runningIs, Option.some.injEq] at h
      rw [← h, hrunning]
  | joinMonitorThrows =>
      refine hplain rfl rfl (fun _ h => by cases h) (fun _ hstopped => ?_) (hquiet rfl)
      rw [hrun true rfl] at hstopped
      cases hstopped
  | notifyMonitor | joinMonitor | waits | waited =>
      exact hplain rfl rfl hrun (fun h => by cases h) (hquiet rfl)
  | noMonitor hnone =>
      refine hplain rfl rfl hrun (fun h => by cases h) fun _ m hm => ?_
      rcases hs.monitor m hm with hstarted | ⟨-, hended⟩
      · have hjoinable := hstarted.isJoinable
        rw [hnone m hm] at hjoinable
        cases hjoinable
      · exact hended
  | lock =>
      exact hgoto (fun _ => rfl) (by simp) (fun _ _ _ h => absurd h (Nat.not_lt_zero _))
        (by simp) hrun (fun h => by cases h) (hquiet rfl)
  | joins hw hjoinable =>
      refine hgoto (fun _ => rfl) (fun p i hi v hv => ?_) hjoined (by simp) hrun
        (fun h => by cases h) (hquiet rfl)
      injection hi with _ hi
      injection hi with hi
      rw [← hi, hw, Option.some.injEq] at hv
      subst hv
      rcases hs.property _ (List.mem_of_getElem? hw) with hstarted | ⟨-, -, hterm⟩
      · exact hstarted
      · rw [ThreadProperty.isJoinable, hterm] at hjoinable
        cases hjoinable
  | @skips p i w hw hjoinable =>
      refine hgoto (fun _ => rfl) (by simp) (fun j v hv hj => ?_) (by simp) hrun
        (fun h => by cases h) (hquiet rfl)
      rcases Nat.lt_succ_iff_lt_or_eq.mp hj with hlt | rfl
      · exact hjoined j v hv hlt
      · rw [hw, Option.some.injEq] at hv
        subst hv
        rcases hs.property _ (List.mem_of_getElem? hw) with hstarted | ⟨-, hended, -⟩
        · rw [hstarted.isJoinable] at hjoinable
          cases hjoinable
        · exact hended
  | joinsDone hi =>
      exact hgoto (fun _ => rfl) (by simp)
        (fun j v hv hj => hjoined j v hv (Nat.lt_of_lt_of_le hj hi)) (by simp) hrun
        (fun h => by cases h) (hquiet rfl)
  | destroys | destroyJoins =>
      exact hgoto (fun _ => rfl) (by simp) hjoined (by simp) hrun (fun h => by cases h)
        (hquiet rfl)

/-! ## Every move -/

theorem LoopStep.not_ended {sh sh' : Shared} {free throws : Bool} {self : Nat}
    {pc pc' : WorkerPc} {fl fl' : Flags}
    (h : LoopStep sh free self throws pc fl sh' pc' fl') :
    pc.isEnded = false ∧ pc'.isEnded = false := by
  cases h with
  | passes hpc | sleeps hpc => rcases hpc with rfl | rfl <;> exact ⟨rfl, rfl⟩
  | _ => exact ⟨rfl, rfl⟩

theorem LoopStep.not_registration {sh sh' : Shared} {free throws : Bool} {self : Nat}
    {pc pc' : WorkerPc} {fl fl' : Flags}
    (h : LoopStep sh free self throws pc fl sh' pc' fl') :
    pc ≠ .registration ∧ pc' ≠ .registration := by
  cases h with
  | passes hpc | sleeps hpc => rcases hpc with rfl | rfl <;> exact ⟨nofun, nofun⟩
  | _ => exact ⟨nofun, nofun⟩

theorem LoopStep.running_eq {sh sh' : Shared} {free throws : Bool} {self : Nat}
    {pc pc' : WorkerPc} {fl fl' : Flags}
    (h : LoopStep sh free self throws pc fl sh' pc' fl') :
    sh'.running = sh.running := by
  cases h <;> rfl

theorem notifyAll_getElem? {ws : List Worker} {j : Nat} {w' : Worker}
    (h : (notifyAll ws)[j]? = some w') :
    ∃ w, ws[j]? = some w ∧ ((w.native.pc ≠ .blocked false ∧ w' = w) ∨
      (w.native.pc = .blocked false ∧ w' = w.goto (.blocked true))) := by
  rw [notifyAll, List.getElem?_map, Option.map_eq_some_iff] at h
  obtain ⟨w, hw, rfl⟩ := h
  refine ⟨w, hw, ?_⟩
  split
  · next hblocked => exact Or.inr ⟨hblocked, rfl⟩
  · next hawake => exact Or.inl ⟨hawake, rfl⟩

theorem mem_notifyAll {ws : List Worker} {w' : Worker} (h : w' ∈ notifyAll ws) :
    ∃ w ∈ ws, (w.native.pc ≠ .blocked false ∧ w' = w) ∨
      (w.native.pc = .blocked false ∧ w' = w.goto (.blocked true)) := by
  obtain ⟨j, hj⟩ := List.mem_iff_getElem?.mp h
  obtain ⟨w, hw, hw'⟩ := notifyAll_getElem? hj
  exact ⟨w, List.mem_of_getElem? hw, hw'⟩

theorem forall_mem_notifyAll {P : Worker → Prop} {ws : List Worker} (h : ∀ w ∈ ws, P w)
    (hwoken : ∀ w ∈ ws, w.native.pc = .blocked false → P (w.goto (.blocked true))) :
    ∀ w ∈ notifyAll ws, P w := by
  intro w' hw'
  obtain ⟨w, hw, ⟨-, rfl⟩ | ⟨hblocked, rfl⟩⟩ := mem_notifyAll hw'
  · exact h _ hw
  · exact hwoken w hw hblocked

theorem length_notifyAll (ws : List Worker) :
    (notifyAll ws).length = ws.length := List.length_map _

theorem notifyAll_eq_nil {ws : List Worker} (h : ws = []) : notifyAll ws = [] := by
  rw [h]
  rfl

theorem Wired.notifyAll {s : State} (hs : Wired s) :
    Wired { s with workers := Normal.notifyAll s.workers } := by
  refine { hs with index := ?_, property := ?_, joining := ?_, joined := ?_,
                   emptied := ?_, resting := ?_ }
  · intro j w' h
    obtain ⟨w, hw, ⟨-, rfl⟩ | ⟨-, rfl⟩⟩ := notifyAll_getElem? h
    · exact hs.index j _ hw
    · exact hs.index j w hw
  · intro w' hmem
    obtain ⟨w, hw, ⟨-, rfl⟩ | ⟨hblocked, rfl⟩⟩ := mem_notifyAll hmem
    · exact hs.property _ hw
    · rcases hs.property w hw with hstarted | ⟨-, hended, -⟩
      · exact Or.inl hstarted
      · rw [hblocked] at hended
        cases hended
  · intro p i w' hc h
    obtain ⟨w, hw, ⟨-, rfl⟩ | ⟨-, rfl⟩⟩ := notifyAll_getElem? h
    · exact hs.joining p i _ hc hw
    · exact hs.joining p i w hc hw
  · intro j w' h hj
    rw [length_notifyAll] at hj
    obtain ⟨w, hw, ⟨-, rfl⟩ | ⟨hblocked, rfl⟩⟩ := notifyAll_getElem? h
    · exact hs.joined j _ hw hj
    · have hended := hs.joined j w hw hj
      rw [hblocked] at hended
      cases hended
  · exact fun p hc => notifyAll_eq_nil (hs.emptied p hc)
  · exact fun hrest hrun => notifyAll_eq_nil (hs.resting hrest hrun)

theorem Wired.of_empty {s : State} (hnil : s.workers = [])
    (hrunFlag : ∀ b, s.control.runningIs = some b → s.sh.running = b)
    (hmonitor : ∀ m, s.monitorThread = some m →
      m.property.Started ∨ m.property.isJoinable = false ∧ m.pc = .ended)
    (hunmonitored : s.sh.running = false ∨ s.control.unmonitored = true →
      ∀ m, s.monitorThread = some m → m.pc = .ended) : Wired s where
  index := by simp [hnil]
  property := by simp [hnil]
  joining := by simp [hnil]
  joined := by simp [hnil]
  emptied := fun _ _ => hnil
  runFlag := hrunFlag
  resting := fun _ _ => hnil
  monitor := hmonitor
  unmonitored := hunmonitored

theorem Wired.join {s : State} {p : ShutdownPolicy} {pc : StopPc} {i : Nat}
    {w w' : Worker} (hs : Wired s) (hrun : s.sh.running = false)
    (hw : s.workers[i]? = some w)
    (hended : w.native.pc.isEnded = true) (hnative : w'.native = w.native)
    (hterm : w'.property.threadState = .terminated)
    (hpc : pc = .join (i + 1) ∧ s.control = .stop p (.joining i) ∨
      pc = .clear (i + 1) ∧ s.control = .stop p (.clearJoining i)) :
    Wired { s with workers := s.workers.set i w', control := .stop p pc } := by
  have hended' : w'.native.pc.isEnded = true := by rw [hnative]; exact hended
  have hholds : Control.holdsWorkerMutex (.stop p pc) = true := by
    rcases hpc with ⟨rfl, -⟩ | ⟨rfl, -⟩ <;> rfl
  constructor
  · exact forall_getElem?_set hs.index (by rw [hnative]; exact hs.index i w hw)
  · refine forall_mem_set (fun v hv => ?_) (Or.inr ⟨hholds, hended', hterm⟩)
    exact (hs.property v hv).imp_right fun h => ⟨hholds, h.2⟩
  · rcases hpc with ⟨rfl, -⟩ | ⟨rfl, -⟩ <;> simp
  · rw [List.length_set]
    refine forall_getElem?_set (fun j v hv hj => ?_) fun _ => hended'
    rcases hpc with ⟨rfl, hc⟩ | ⟨rfl, hc⟩
    · rcases Nat.lt_succ_iff_lt_or_eq.mp hj with hlt | rfl
      · exact hs.joined j v hv (by rw [hc]; exact hlt)
      · rw [hw, Option.some.injEq] at hv
        rw [← hv]
        exact hended
    · exact hs.joined j v hv (by rw [hc]; exact hj)
  · rcases hpc with ⟨rfl, -⟩ | ⟨rfl, -⟩ <;> simp
  · rcases hpc with ⟨rfl, -⟩ | ⟨rfl, -⟩ <;> simp [Control.runningIs, hrun]
  · rcases hpc with ⟨rfl, -⟩ | ⟨rfl, -⟩ <;> exact fun h => by cases h
  · exact hs.monitor
  · exact fun _ => hs.unmonitored (Or.inl hrun)

/-- A pool whose monitor is alive is running. -/
theorem Wired.running_of_monitor {s : State} {m : Monitor} (hs : Wired s)
    (hm : s.monitorThread = some m) (halive : m.pc ≠ .ended) :
    s.sh.running = true := by
  rw [← Bool.not_eq_false]
  exact fun hrun => halive (hs.unmonitored (Or.inl hrun) m hm)

/-- When `Stop` destroys the vector every thread of it has ended. -/
theorem Wired.ended_of_clear {s : State} {p : ShutdownPolicy} {i : Nat} (hs : Wired s)
    (hc : s.control = .stop p (.clear i)) :
    ∀ w ∈ s.workers, w.native.pc.isEnded = true := by
  intro w hmem
  obtain ⟨j, hj⟩ := List.mem_iff_getElem?.mp hmem
  refine hs.joined j w hj ?_
  rw [hc]
  exact (List.getElem?_eq_some_iff.mp hj).1

theorem Wired.busy {s : State} (hs : Wired s) (hc : s.control = .start .create)
    (o : Outcome) :
    ¬(s.sh.running = false ∨ (Control.idle o).unmonitored = true) := by
  rw [hs.running_at hc rfl]
  rintro (h | h) <;> cases h

theorem Wired.startMonitor {s : State} (hs : Wired s) (hc : s.control = .start .create)
    (hfree : s.workerMutexFree = true) (n next : Nat) (m : Monitor) (o : Outcome)
    (hm : m.property.Started ∨ m.property.isJoinable = false ∧ m.pc = .ended) :
    Wired { s with
      sh.monitoring := true
      workers := s.workers ++ freshWorkers s.workers.length s.nextHandle n
      nextHandle := next
      monitorThread := some m
      control := .idle o } := by
  have hbusy := hs.busy hc o
  have happend := hs.append hfree (fun _ => hs.running_at hc rfl) s.nextHandle n
    next
  have hgone := happend.goto_unlocked { s.sh with monitoring := true } (.idle o)
    ((congrArg Control.holdsWorkerMutex hc).trans rfl) rfl (fun _ h => by cases h)
    (fun _ hstopped => absurd (Or.inl hstopped) hbusy) (fun hquiet => absurd hquiet hbusy)
  refine { hgone with monitor := fun m' hm' => ?_, unmonitored := fun hquiet => ?_ }
  · rw [← Option.some.inj hm']
    exact hm
  · exact absurd hquiet hbusy

theorem MonitorHop.not_ended {cfg : Config} {s : State} {pc pc' : MonitorPc}
    (h : MonitorHop cfg s pc pc') : pc ≠ .ended := by
  cases h <;> exact fun h => by cases h

/-- Every move keeps the wiring. -/
theorem Move.wired {cfg : Config} {s s' : State} {a : Action} (hs : Wired s)
    (h : Move cfg s a s') : Wired s' := by
  cases h with
  | tick | call | rejected | accepted | pushes | notifiesNobody | hints =>
      exact hs.frame rfl rfl rfl rfl
  | notifies _ _ hw hblocked =>
      exact (hs.put hw (Worker.goto _ (.blocked true)) rfl id
        (by simp [hblocked, WorkerPc.isEnded])).frame rfl rfl rfl rfl
  | registers hw hpc => exact hs.put hw _ rfl id (by simp [hpc, WorkerPc.isEnded])
  | @loops j _ w sh pc fl hw hstep =>
      exact (hs.put hw ({ w with flags := fl }.goto pc) rfl id
        (by simp [hstep.not_ended.1])).frame rfl rfl rfl hstep.running_eq
  | ends hw hpc =>
      exact hs.put hw _ rfl ThreadProperty.Started.threadEntry
        (by simp [hpc, WorkerPc.isEnded])
  | spurious hw hblocked =>
      exact hs.put hw _ rfl id (by simp [hblocked, WorkerPc.isEnded])
  | callsStart hc | callsStop _ hc =>
      refine hs.goto_unlocked s.sh _ (by rw [hc]; rfl) rfl (fun _ h => by cases h)
        (fun _ => hs.resting (by rw [hc]; rfl)) ?_
      exact fun h => hs.unmonitored (h.imp_right fun h => by cases h)
  | hop hhop => exact hs.hop hhop
  | storeRunning hc =>
      refine hs.goto_unlocked _ _ (by rw [hc]; rfl) rfl (fun _ h => Option.some.inj h)
        (fun h => by cases h) ?_
      exact fun _ => hs.unmonitored (Or.inl (hs.running_at hc rfl))
  | startFails n e hc hfree =>
      have hbusy := hs.busy hc (.threw e)
      have happend := hs.append hfree (fun _ => hs.running_at hc rfl)
        s.nextHandle n (s.nextHandle + n)
      exact happend.goto_unlocked s.sh _
        ((congrArg Control.holdsWorkerMutex hc).trans rfl) rfl
        (fun _ h => by cases h) (fun _ hstopped => absurd (Or.inl hstopped) hbusy)
        (fun hquiet => absurd hquiet hbusy)
  | startUnmonitored e hc hfree =>
      exact hs.startMonitor hc hfree _ _ _ _ (Or.inr ⟨rfl, rfl⟩)
  | starts hc hfree => exact hs.startMonitor hc hfree _ _ _ _ (Or.inl ⟨rfl, rfl⟩)
  | clearMonitoring hc =>
      have hrun := hs.running_at hc rfl
      refine hs.goto_unlocked _ _ (by rw [hc]; rfl) rfl
        (fun _ h => hrun.trans (Option.some.inj h)) (fun h => by cases h) ?_
      exact fun h => hs.unmonitored (h.imp_right fun h => by cases h)
  | joinsMonitor hc _ _ =>
      have hrun := hs.running_at hc rfl
      have hgone : Wired { s with monitorThread := none } :=
        { hs with
          monitor := fun _ hm => by cases hm
          unmonitored := fun _ _ hm => by cases hm }
      exact hgone.goto_unlocked s.sh _ ((congrArg Control.holdsWorkerMutex hc).trans rfl) rfl
        (fun _ h => hrun.trans (Option.some.inj h)) (fun h => by cases h)
        (fun _ _ hm => by cases hm)
  | clearRunning hc =>
      refine hs.goto_unlocked _ _ (by rw [hc]; rfl) rfl (fun _ h => Option.some.inj h)
        (fun h => by cases h) ?_
      exact fun _ => hs.unmonitored (Or.inr (by rw [hc]; rfl))
  | notifiesAll hc =>
      have hrun := hs.running_at hc rfl
      refine hs.notifyAll.goto_unlocked s.sh _
        ((congrArg Control.holdsWorkerMutex hc).trans rfl) rfl
        (fun _ h => hrun.trans (Option.some.inj h)) (fun h => by cases h) ?_
      exact fun _ => hs.unmonitored (Or.inl hrun)
  | joined hc hw hended =>
      exact hs.join (hs.running_at hc rfl) hw hended rfl rfl
        (Or.inl ⟨rfl, hc⟩)
  | destroyJoined hc hw hended =>
      exact hs.join (hs.running_at hc rfl) hw hended rfl rfl
        (Or.inr ⟨rfl, hc⟩)
  | cleared hc =>
      have hrun := hs.running_at hc rfl
      exact Wired.of_empty rfl (by simp [Control.runningIs, hrun]) hs.monitor
        (fun _ => hs.unmonitored (Or.inl hrun))
  | resetCount hc =>
      have hrun := hs.running_at hc rfl
      have hnil := hs.emptied _ (Or.inl hc)
      refine hs.goto _ (.stop _ .tasks) (fun _ => rfl) (by simp) (by simp [hnil])
        (fun _ _ => hnil) (fun _ h => hrun.trans (Option.some.inj h)) (fun h => by cases h) ?_
      exact fun _ => hs.unmonitored (Or.inl hrun)
  | clearTasks hc hfree =>
      have hrun := hs.running_at hc rfl
      exact Wired.of_empty (hs.emptied _ (Or.inr hc)) (fun _ h => by cases h) hs.monitor
        (fun _ => hs.unmonitored (Or.inl hrun))
  | monitorHop hm hhop => exact hs.monitorStep hm _ hhop.not_ended id
  | @marks _ _ _ _ _ _ _ w hm hpc hw _ _ =>
      exact (hs.put hw { w with flags.shouldExit := true } rfl id
        (fun h => ⟨h, rfl⟩)).monitorStep hm _ (by simp [hpc]) id
  | shrinkNotifies hm hpc => exact hs.notifyAll.monitorStep hm _ (by simp [hpc]) id
  | @expandThrows _ _ _ _ _ w hm hpc _ hw _ =>
      exact (hs.put hw { w with flags.shouldExit := false } rfl id
        (fun h => ⟨h, rfl⟩)).monitorStep hm _ (by simp [hpc]) id
  | @expands _ _ m _ _ n hm hpc hfree _ _ =>
      have halive : m.pc ≠ .ended := by simp [hpc]
      have hrun := hs.running_of_monitor hm halive
      exact (hs.append hfree (fun _ => hrun) s.nextHandle n
        (s.nextHandle + n)).monitorStep hm _ halive id
  | monitorEnds hm hpc =>
      exact hs.monitorStep hm _ (by simp [hpc]) ThreadProperty.Started.threadEntry

/-- Only `Start` makes a pool running, and it has not created anything by
then. -/
theorem Move.running_cases {cfg : Config} {s s' : State} {a : Action}
    (h : Move cfg s a s') (hrun : s'.sh.running = true) :
    s.sh.running = true ∨
      (a.isControl = true ∧ s.control = .start .store ∧ s'.workers = s.workers) := by
  cases h with
  | loops _ hstep =>
      rw [← hstep.running_eq]
      exact Or.inl hrun
  | storeRunning hc => exact Or.inr ⟨rfl, hc, rfl⟩
  | clearRunning => cases hrun
  | _ => exact Or.inl hrun

theorem wired_init (cfg : Config) : Wired (pool cfg).init :=
  Wired.of_empty rfl (fun _ h => by cases h) (fun _ hm => by cases hm)
    (fun _ _ hm => by cases hm)

theorem wired_of_reachable {cfg : Config} {s : State} (hr : (pool cfg).Reachable s) :
    Wired s :=
  hr.invariant (wired_init cfg) fun _ _ _ _ hs hstep => (step_cases hs hstep).wired hs

/-- What a step from a reachable state is. -/
theorem move_of_step {cfg : Config} {s s' : State} {a : Action}
    (hr : (pool cfg).Reachable s) (h : (pool cfg).step s a = some s') :
    Move cfg s a s' := step_cases (wired_of_reachable hr) h

end ThreadPool.Normal
