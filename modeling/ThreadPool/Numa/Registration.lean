import ThreadPool.Numa.Wired

/-!
# Whether a new thread finds its slot

`Start` and `ExpandThreadsOnNode` start a thread with the index its slot is
going to have, and lock `global_mutex_` to push the slot only afterwards. The
thread locks the same mutex for its first look at `workers_`. If it comes
first there is no slot, and it returns from `WorkerLoop` at once, while its
creator goes on to push the slot and to count it.
-/

namespace ThreadPool.Numa

open Interleave Machine

/-- The thread at place `j` has been started and its creator has yet to push
the slot. -/
def Unpublished (s : State) (j : Nat) : Prop :=
  s.pending = true ∧ j + 1 = s.workers.length

instance (s : State) (j : Nat) : Decidable (Unpublished s j) :=
  inferInstanceAs (Decidable (_ ∧ _))

/-- No thread looks for its slot before its creator has pushed it. -/
def Published (s : State) : Action → Prop
  | .worker j _ => ∀ w ∈ s.workers[j]?, w.native.pc = .registration → ¬Unpublished s j
  | _ => True

instance (s : State) : ∀ a, Decidable (Published s a)
  | .worker j _ => inferInstanceAs
      (Decidable (∀ w ∈ s.workers[j]?, w.native.pc = .registration → ¬Unpublished s j))
  | .tick _ | .call _ | .callOn _ _ | .locate _ _ _ _ | .enqueue _ _ | .start | .stop _
  | .control _ _ | .bind _ _ | .spurious _ | .monitor _ _ =>
      inferInstanceAs (Decidable True)

theorem Wired.pushed_iff {cfg : Config} {s : State} {j : Nat} {w : Worker}
    (hs : Wired cfg s) (hw : s.workers[j]? = some w) :
    w.native.index < s.pushed ↔ ¬Unpublished s j := by
  have hlen := hs.pushed
  have hlt := (List.getElem?_eq_some_iff.mp hw).1
  rw [hs.index j w hw, Unpublished]
  cases hpending : s.pending with
  | true =>
      rw [hpending, if_pos rfl] at hlen
      simp only [true_and]
      omega
  | false =>
      rw [hpending] at hlen
      rw [if_neg Bool.false_ne_true, Nat.add_zero] at hlen
      simp only [Bool.false_eq_true, false_and, not_false_eq_true, iff_true]
      rwa [hlen] at hlt

theorem workerStep_registration {cfg : Config} {s s' : State} {j : Nat} {throws : Bool}
    {w : Worker} (hw : s.workers[j]? = some w) (hpc : w.native.pc = .registration)
    (hstep : step cfg s (.worker j throws) = some s') :
    s'.workers[j]? =
      some (w.goto (if w.native.index < s.pushed then .readNode else .entry false)) := by
  simp only [step, workerStep, hw, hpc] at hstep
  split at hstep
  · rw [Option.some.injEq] at hstep
    rw [← hstep, workerGoto_eq hw]
    exact getElem?_put hw _
  · cases hstep

/-! ## Who has looked

What a worker finds it finds in its own step, so a thread that is past the
check has made it with its slot in the vector, in the runs in which nobody
looks too early.
-/

/-- Who is past the check is in `workers_`. -/
def Admitted (s : State) : Prop :=
  ∀ w ∈ s.workers, w.native.pc ≠ .registration → w.native.index < s.pushed

theorem WorkerHop.admitted {cfg : Config} {s : State} {w w' : Worker}
    (h : WorkerHop cfg s w w')
    (hin : w.native.pc ≠ .registration → w.native.index < s.pushed)
    (hfound : w.native.pc = .registration → w' ≠ w.goto (.entry false)) :
    w'.native.index < s.pushed := by
  cases h with
  | registers _ _ hlt => exact hlt
  | leaves hpc => exact absurd rfl (hfound hpc)
  | noNode hpc | readsNode _ hpc | bindFails hpc | unbound hpc | ends _ hpc | spurious hpc =>
      exact hin (by rw [hpc]; simp)

theorem LoopStep.past_registration {sh sh' : Shared} {nd nd' : NodeData}
    {free throws : Bool} {agent : Agent} {pc pc' : WorkerPc} {fl fl' : Flags}
    (h : LoopStep sh nd free agent throws pc fl sh' nd' pc' fl') :
    pc ≠ .registration := by
  cases h with
  | passes hpc | sleeps hpc => rcases hpc with rfl | rfl <;> exact fun h => by cases h
  | _ => exact fun h => by cases h

theorem Move.admitted {cfg : Config} {s s' : State} {a : Action} (hs : Admitted s)
    (hfound : a.isWorker = true → ∀ (j : Nat) w, s.workers[j]? = some w →
      w.native.pc = .registration → s'.workers[j]? ≠ some (w.goto (.entry false)))
    (h : Move cfg s a s') : Admitted s' := by
  cases h with
  | notifies _ _ hw hasleep =>
      have hin := hs _ (List.mem_of_getElem? hw)
        (by rw [(Worker.blocked_of_asleepOn hasleep).2]; simp)
      exact forall_mem_set hs fun _ => hin
  | workerHop ha hw hhop =>
      have hin := hhop.admitted (hs _ (List.mem_of_getElem? hw)) fun hpc heq =>
        hfound ha _ _ hw hpc (by rw [← heq]; exact getElem?_put hw _)
      exact forall_mem_set hs fun _ => hin
  | binds hw hpc =>
      have hin := hs _ (List.mem_of_getElem? hw) (by rw [hpc]; simp)
      exact forall_mem_set hs fun _ => hin
  | loops hw _ hstep =>
      have hin := hs _ (List.mem_of_getElem? hw) hstep.past_registration
      exact forall_mem_set hs fun _ => hin
  | spawns | expandSpawns =>
      intro w hw hpc
      rcases List.mem_append.mp hw with hold | hnew
      · exact hs w hold hpc
      · rw [List.mem_singleton.mp hnew] at hpc
        exact absurd rfl hpc
  | pushesSlot | expandPushes => exact fun w hw hpc => Nat.lt_succ_of_lt (hs w hw hpc)
  | notifiesAll | shrinkNotifies =>
      refine forall_mem_notifyAll hs fun w hw hasleep _ => ?_
      exact hs w hw (by rw [(Worker.blocked_of_asleepOn hasleep).2]; simp)
  | setsExit _ hw | joined _ hw | marks _ _ hw =>
      have hin := hs _ (List.mem_of_getElem? hw)
      exact forall_mem_set hs hin
  | cleared => exact fun _ hw => absurd hw List.not_mem_nil
  | _ => exact hs

theorem admitted_of_reachableWhen {cfg : Config} {s : State}
    (hr : (pool cfg).ReachableWhen Published s) : Admitted s := by
  refine hr.invariant (fun _ hw => absurd hw List.not_mem_nil)
    fun s a s' hr hs hok hstep => ?_
  have hwired := wired_of_reachable hr.reachable
  have hmove := move_of_step hr.reachable hstep
  refine hmove.admitted hs fun ha j w hw hpc hleft => ?_
  have hmoved : s'.workers[j]? ≠ some w := by
    rw [hleft]
    intro h
    rw [Option.some.injEq] at h
    rw [← h] at hpc
    cases hpc
  obtain ⟨throws, rfl⟩ :=
    action_of_moved hwired ha hw (by simp [hpc]) (by simp [hpc]) hstep hmoved
  have hin := (hwired.pushed_iff hw).mpr (hok w hw hpc)
  rw [workerStep_registration hw hpc hstep, if_pos hin, Option.some.injEq] at hleft
  simp [Worker.goto] at hleft

/-- A thread finds its slot, and goes on to read its node, exactly where its
creator has pushed it; otherwise it returns from `WorkerLoop`. So in the runs
in which nobody looks before that, everybody who has looked has a slot. -/
theorem registration_finds_slot {cfg : Config} :
    (∀ s, (pool cfg).ReachableWhen Published s →
      ∀ w ∈ s.workers, w.native.pc ≠ .registration → w.native.index < s.pushed) ∧
    ∀ s j throws s' w, (pool cfg).Reachable s →
      (pool cfg).step s (.worker j throws) = some s' → s.workers[j]? = some w →
      w.native.pc = .registration →
        (w.native.index < s.pushed ↔ ¬Unpublished s j) ∧
        (s'.workers[j]? = some (w.goto .readNode) ↔ ¬Unpublished s j) ∧
        (s'.workers[j]? = some (w.goto (.entry false)) ↔ Unpublished s j) := by
  refine ⟨fun s hr => admitted_of_reachableWhen hr, ?_⟩
  intro s j throws s' w hr hstep hw hpc
  have hfinds := (wired_of_reachable hr).pushed_iff hw
  have hnext := workerStep_registration hw hpc hstep
  by_cases hin : w.native.index < s.pushed
  · have hpublished := hfinds.mp hin
    rw [if_pos hin] at hnext
    refine ⟨hfinds, ⟨fun _ => hpublished, fun _ => hnext⟩, ?_⟩
    refine ⟨fun h => ?_, fun h => absurd h hpublished⟩
    rw [hnext] at h
    simp [Worker.goto] at h
  · have hearly : Unpublished s j := not_not.mp fun h => hin (hfinds.mpr h)
    rw [if_neg hin] at hnext
    refine ⟨hfinds, ⟨fun h => ?_, fun h => absurd hearly h⟩, fun _ => hearly, fun _ => hnext⟩
    rw [hnext] at h
    simp [Worker.goto] at h

/-- `Start` has started the first worker and not pushed it, and the worker has
come for its slot. -/
theorem slot_not_found :
    ¬∀ (cfg : Config) (s : State) (j : Nat) (throws : Bool) (s' : State) (w : Worker),
      (pool cfg).Reachable s → (pool cfg).step s (.worker j throws) = some s' →
      s.workers[j]? = some w → w.native.pc = .registration →
        w.native.index < s.pushed := by
  intro hall
  obtain ⟨s, hr, hfree, hpushed, hworkers⟩ := exists_of_run (pool (.ofHardware 2 2))
    (.start :: controls 3)
    (fun s => s.globalMutexFree = true ∧ s.pushed = 0 ∧ s.workers = [freshWorker 0 0 0])
    (by decide +kernel)
  have hw : s.workers[0]? = some (freshWorker 0 0 0) := by rw [hworkers]; rfl
  have hlt := hall (.ofHardware 2 2) s 0 false _ _ hr
    (by simp [pool, step, workerStep, hw, freshWorker, hfree]; rfl) hw rfl
  rw [hpushed] at hlt
  exact absurd hlt (Nat.not_lt_zero _)

/-- The same worker, pushed first. -/
theorem registration_finds_slot_run : ∃ s : State,
    s.workers.map (fun w => w.native.pc) = [.readNode] ∧
      ∀ w ∈ s.workers, w.native.pc ≠ .registration → w.native.index < s.pushed := by
  obtain ⟨s, hr, hpcs⟩ := exists_of_runWhen (pool (.ofHardware 2 2)) Published
    (.start :: controls 4 ++ works 0 1)
    (fun s => s.workers.map (fun w => w.native.pc) = [.readNode])
    (by decide +kernel)
  exact ⟨s, hpcs, registration_finds_slot.1 s hr⟩

end ThreadPool.Numa
