import ThreadPool.Normal.Expansion
import ThreadPool.Normal.Wakeup

/-!
# A slot and its thread

`ExpandThreads` restarts every slot whose `is_valid` is false, and that is
also what the slot of a thread that has yet to register looks like, or of
one that is on its way out. What keeps two threads off one slot is not the
flag but `Thread::Start`, which refuses a `Thread` nobody has joined. So a
slot keeps the thread it was made for, and a thread loses its slot only in
`workers_.clear()`, when it is over (`Move.threads`).
-/

namespace ThreadPool.Normal

open Interleave Machine

/-- The same native thread in the same slot, wherever it stands by now. -/
structure SameThread (w w' : Worker) : Prop where
  self : w'.native.self = w.native.self
  index : w'.native.index = w.native.index
  handle : w'.property.threadHandle = w.property.threadHandle

theorem SameThread.refl (w : Worker) : SameThread w w := ⟨rfl, rfl, rfl⟩

/-- What a move does to the threads of the pool. -/
inductive Threads (s s' : State) : Prop where
  | kept (hlen : s'.workers.length = s.workers.length)
      (hsame : ∀ (j : Nat) w', s'.workers[j]? = some w' →
        ∃ w, s.workers[j]? = some w ∧ SameThread w w')
  | grown (n : Nat)
      (hgrown : s'.workers =
        s.workers ++ freshWorkers s.workers.length s.nextHandle n)
  | gone (hgone : s'.workers = []) (hended : ∀ w ∈ s.workers, w.native.pc.isEnded = true)

theorem Threads.of_eq {s s' : State} (h : s'.workers = s.workers) : Threads s s' := by
  refine .kept (by rw [h]) fun j w' hw' => ⟨w', ?_, .refl w'⟩
  rw [← h]
  exact hw'

theorem Threads.of_set {s s' : State} {i : Nat} {w v : Worker}
    (hw : s.workers[i]? = some w) (h : s'.workers = s.workers.set i v)
    (hsame : SameThread w v) : Threads s s' := by
  refine .kept (by rw [h, List.length_set]) ?_
  rw [h]
  exact forall_getElem?_set (fun j a ha => ⟨a, ha, .refl a⟩) ⟨w, hw, hsame⟩

theorem Threads.of_notifyAll {s s' : State} (h : s'.workers = notifyAll s.workers) :
    Threads s s' := by
  refine .kept (by rw [h, length_notifyAll]) fun j w' hw' => ?_
  rw [h] at hw'
  obtain ⟨w, hw, ⟨-, rfl⟩ | ⟨-, rfl⟩⟩ := notifyAll_getElem? hw'
  · exact ⟨_, hw, .refl _⟩
  · exact ⟨w, hw, rfl, rfl, rfl⟩

theorem Move.threads {cfg : Config} {s s' : State} {a : Action} (hwired : Wired s)
    (h : Move cfg s a s') : Threads s s' := by
  cases h with
  | notifies _ _ hw | registers hw | loops hw | ends hw | spurious hw | joined _ hw
  | destroyJoined _ hw | marks _ _ hw | expandThrows _ _ _ hw =>
      exact .of_set hw rfl ⟨rfl, rfl, rfl⟩
  | startFails n | expands n => exact .grown n rfl
  | startUnmonitored | starts => exact .grown cfg.minThreads rfl
  | notifiesAll | shrinkNotifies => exact .of_notifyAll rfl
  | cleared hc => exact .gone rfl (hwired.ended_of_clear hc)
  | _ => exact .of_eq rfl

theorem Threads.thread {s s' : State} (h : Threads s s') {j : Nat} {w : Worker}
    (hw : s.workers[j]? = some w) (hover : w.native.pc.isEnded = false) :
    ∃ w', s'.workers[j]? = some w' ∧ SameThread w w' := by
  obtain ⟨hlt, -⟩ := List.getElem?_eq_some_iff.mp hw
  cases h with
  | kept hlen hsame =>
      have hw' := List.getElem?_eq_getElem (hlen.symm ▸ hlt)
      obtain ⟨v, hv, hsame⟩ := hsame j _ hw'
      rw [hw, Option.some.injEq] at hv
      subst hv
      exact ⟨_, hw', hsame⟩
  | grown n hgrown =>
      refine ⟨w, ?_, .refl w⟩
      rw [hgrown, List.getElem?_append_left hlt]
      exact hw
  | gone _ hended =>
      rw [hended w (List.mem_of_getElem? hw)] at hover
      cases hover

/-- The `Thread` of a slot holds the handle of the slot's thread. -/
def Owned (s : State) : Prop :=
  ∀ (j : Nat) w, s.workers[j]? = some w → w.property.threadHandle = w.native.self

theorem Threads.owned {s s' : State} (hs : Owned s) (h : Threads s s') : Owned s' := by
  cases h with
  | kept _ hsame =>
      intro j w' hw'
      obtain ⟨w, hw, hself, -, hhandle⟩ := hsame j w' hw'
      rw [hhandle, hself]
      exact hs j w hw
  | grown n hgrown =>
      unfold Owned
      rw [hgrown]
      refine forall_getElem?_append hs fun k w hk => ?_
      rw [getElem?_freshWorkers hk]
      rfl
  | gone hgone =>
      unfold Owned
      rw [hgone]
      simp

theorem owned_of_reachable {cfg : Config} {s : State} (hr : (pool cfg).Reachable s) :
    Owned s :=
  hr.invariant (by simp [Owned, pool]) fun _ _ _ hr hs hstep =>
    ((move_of_step hr hstep).threads (wired_of_reachable hr)).owned hs

theorem workerStep_registration {s s' : State} {j : Nat} {throws : Bool} {w : Worker}
    (hs : Wired s) (hw : s.workers[j]? = some w) (hpc : w.native.pc = .registration)
    (hstep : workerStep s j throws = some s') :
    w.native.index < s.workers.length ∧ s'.workers[j]? = some (w.goto .setValid) := by
  obtain ⟨hlt, -⟩ := List.getElem?_eq_some_iff.mp hw
  have hindex : w.native.index < s.workers.length := by
    rw [hs.index j w hw]
    exact hlt
  refine ⟨hindex, ?_⟩
  simp only [workerStep, hw, hpc, if_pos hindex] at hstep
  split at hstep
  · rw [Option.some.injEq, workerGoto_eq hw] at hstep
    rw [← hstep, State.put, List.getElem?_set_self hlt]
  · cases hstep

/-- Slots are bounded and private. The vector keeps to `max_threads_`; two
threads in `WorkerLoop` work on two slots, each on the slot that owns it; the
registration check finds the slot there; and no step takes the slot from a
thread that is not over. -/
theorem slots_private {cfg : Config} {s : State} (hr : (pool cfg).Reachable s) :
    s.workers.length ≤ cfg.maxThreads ∧
      (∀ (j k : Nat) w v, s.workers[j]? = some w → s.workers[k]? = some v → w.live = true →
        v.live = true → w.native.index = v.native.index → j = k) ∧
      (∀ (j : Nat) w, s.workers[j]? = some w → w.live = true →
        w.native.index = j ∧ w.property.threadHandle = w.native.self) ∧
      (∀ (j : Nat) w throws s', s.workers[j]? = some w → w.native.pc = .registration →
        (pool cfg).step s (.worker j throws) = some s' →
        w.native.index < s.workers.length ∧ s'.workers[j]? = some (w.goto .setValid)) ∧
      ∀ a s' (j : Nat) w, (pool cfg).step s a = some s' → s.workers[j]? = some w →
        w.native.pc.isEnded = false → ∃ w', s'.workers[j]? = some w' ∧ SameThread w w' := by
  have hwired := wired_of_reachable hr
  refine ⟨(sized_of_reachable hr).length_le, ?_, ?_, ?_, ?_⟩
  · intro j k w v hw hv _ _ hindex
    rw [hwired.index j w hw, hwired.index k v hv] at hindex
    exact hindex
  · intro j w hw _
    exact ⟨hwired.index j w hw, owned_of_reachable hr j w hw⟩
  · intro j w throws s' hw hpc hstep
    exact workerStep_registration hwired hw hpc hstep
  · intro a s' j w hstep hw hover
    exact ((move_of_step hr hstep).threads hwired).thread hw hover

/-- A pool that has grown, and whose first worker is marked. -/
theorem slots_private_run : ∃ s : State,
    s.workers.map (fun w => (w.native.index, w.native.self)) = [(0, 0), (1, 2)] ∧
      s.workers.length ≤ (Config.ofHardware 1).maxThreads ∧
      ∀ (j k : Nat) w v, s.workers[j]? = some w → s.workers[k]? = some v →
        w.live = true → v.live = true → w.native.index = v.native.index → j = k := by
  obtain ⟨s, hr, hthreads⟩ :=
    exists_of_run (pool (.ofHardware 1)) (growing ++ shrinking)
      (fun s => s.workers.map (fun w => (w.native.index, w.native.self)) = [(0, 0), (1, 2)])
      (by decide +kernel)
  exact ⟨s, hthreads, (slots_private hr).1, (slots_private hr).2.1⟩

end ThreadPool.Normal
