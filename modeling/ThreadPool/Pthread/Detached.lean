import ThreadPool.Pthread.Completion
import ThreadPool.Pthread.Tickets

/-!
# The end of a detached thread

`Detach` looks at the block before `pthread_detach` and again behind it, and
the thread's own update comes before, between or after the two. Whoever is
second knows of the other: the update turns `DETACHED` into `TERMINATED`, and
the last section of `Detach` stores `TERMINATED` where the flag is set. So a
block with the flag is never `DETACHED`, and a thread that has been detached
is nobody's ticket once `Detach` has returned. The update reaches its block
through a weak pointer, wherever the block has been moved to, and no other.
-/

namespace ThreadPool.Pthread

open Interleave Machine

/-! ## What a call stores -/

/-- A call stores nothing, or `TERMINATED`, or, without the flag, `DETACHED`. -/
def Stores (b b' : ThreadProperty) : Prop :=
  b' = b ∨ b'.isComplete = b.isComplete ∧
    (b'.threadState = .terminated ∨ b'.threadState = .detached ∧ b.isComplete = false)

theorem callStep_stores {ns : List Native} {b : ThreadProperty} {answer : Answer}
    {pc : CallPc} {r : List Native × ThreadProperty × Progress}
    (h : callStep ns b answer pc = some r) : Stores b r.2.1 := by
  cases pc with
  | joinLeave | cancelLeave | terminateLeave | terminateDead strerror =>
      rw [callStep, Option.some.injEq] at h
      subst h
      exact Or.inr ⟨rfl, Or.inl rfl⟩
  | detachLeave =>
      rw [callStep, Option.some.injEq] at h
      subst h
      refine Or.inr ⟨rfl, ?_⟩
      cases hcomplete : b.isComplete with
      | true => exact Or.inl (by simp [ThreadProperty.detachLeave, hcomplete])
      | false => exact Or.inr ⟨by simp [ThreadProperty.detachLeave, hcomplete], rfl⟩
  | joining handle | cancelJoining handle | terminateJoining handle =>
      obtain ⟨ns', -, rfl⟩ := Option.map_eq_some_iff.mp h
      exact Or.inl rfl
  | tryJoining handle i =>
      rw [callStep] at h
      split at h
      · obtain ⟨ns', -, rfl⟩ := Option.map_eq_some_iff.mp h
        exact Or.inl rfl
      · rw [Option.some.injEq] at h
        subst h
        exact Or.inl rfl
  | _ =>
      rw [callStep, Option.some.injEq] at h
      subst h
      exact Or.inl rfl

theorem advance_stores {s t : State} {p : Nat} {pc : CallPc} {answer : Answer}
    {progress : Progress} (h : advance s p pc answer = some (t, progress)) :
    ∃ b b', s.blocks[p]? = some b ∧ t.blocks = s.blocks.set p b' ∧ Stores b b' := by
  unfold advance at h
  split at h
  · cases h
  · next b hb =>
      obtain ⟨⟨ns, b', progress'⟩, hstep, heq⟩ := Option.map_eq_some_iff.mp h
      cases heq
      exact ⟨b, b', hb, rfl, callStep_stores hstep⟩

theorem step_stores {s s' : State} {answer : Answer} {p : Nat} {pc : CallPc}
    (hcall : s.owner.call? = some (p, pc)) (h : step s (.owner answer) = some s') :
    ∃ b b', s.blocks[p]? = some b ∧ s'.blocks = s.blocks.set p b' ∧ Stores b b' := by
  rw [step, ownerStep] at h
  cases howner : s.owner with
  | calling q pc' | cleaning i q pc' after =>
      rw [howner] at h hcall
      cases hcall
      obtain ⟨⟨t, progress⟩, hadvance, rfl⟩ := Option.map_eq_some_iff.mp h
      obtain ⟨b, b', hb, hblocks, hstores⟩ := advance_stores hadvance
      exact ⟨b, b', hb, hblocks, hstores⟩
  | _ =>
      rw [howner] at hcall
      cases hcall

/-! ## The invariant -/

/-- No block with the flag is `DETACHED`, and none that a thread was created
for is `INVALID`. -/
structure Settled (s : State) : Prop where
  complete : ∀ (p : Nat) b, s.blocks[p]? = some b → b.isComplete = true →
    b.threadState ≠ .detached
  begun : ∀ n ∈ s.natives, ∀ b, s.blocks[n.property]? = some b → b.threadState ≠ .invalid

section Settled

variable {s s' : State}

theorem Settled.frame (hs : Settled s) (hblocks : s'.blocks = s.blocks)
    (hproperty : s'.natives.map Native.property = s.natives.map Native.property) :
    Settled s' := by
  refine ⟨by rw [hblocks]; exact hs.complete, fun n hn b hb => ?_⟩
  have hmem : n.property ∈ s.natives.map Native.property := by
    rw [← hproperty]
    exact List.mem_map_of_mem hn
  obtain ⟨m, hm, hmp⟩ := List.mem_map.mp hmem
  rw [hblocks, ← hmp] at hb
  exact hs.begun m hm b hb

theorem Settled.put {p : Nat} {b b' : ThreadProperty} (hs : Settled s)
    (hb : s.blocks[p]? = some b) (hblocks : s'.blocks = s.blocks.set p b')
    (hproperty : s'.natives.map Native.property = s.natives.map Native.property)
    (hcomplete : b.threadState ≠ .detached ∨ b.isComplete = false →
      b'.isComplete = true → b'.threadState ≠ .detached)
    (hbegun : b.threadState ≠ .invalid → b'.threadState ≠ .invalid) : Settled s' := by
  refine ⟨fun q c hc hflag => ?_, fun n hn c hc => ?_⟩
  · rw [hblocks] at hc
    rcases getElem?_set_cases hc with ⟨rfl, rfl⟩ | ⟨-, hc⟩
    · refine hcomplete ?_ hflag
      cases hb' : b.isComplete with
      | true => exact Or.inl (hs.complete _ b hb hb')
      | false => exact Or.inr rfl
    · exact hs.complete q c hc hflag
  · have hmem : n.property ∈ s.natives.map Native.property := by
      rw [← hproperty]
      exact List.mem_map_of_mem hn
    obtain ⟨m, hm, hmp⟩ := List.mem_map.mp hmem
    rw [hblocks, ← hmp] at hc
    rcases getElem?_set_cases hc with ⟨hmp, rfl⟩ | ⟨-, hc⟩
    · exact hbegun (hs.begun m hm b (hmp ▸ hb))
    · exact hs.begun m hm c hc

theorem Settled.alloc {objects : List (Option Nat)} (hs : Settled s) (hflagged : Flagged s) :
    Settled (s.alloc objects) := by
  refine ⟨fun p b hb hflag => ?_, fun n hn b hb => ?_⟩
  · rcases getElem?_concat_cases hb with ⟨-, rfl⟩ | ⟨-, hb⟩
    · cases hflag
    · exact hs.complete p b hb hflag
  · rcases getElem?_concat_cases hb with ⟨hlen, -⟩ | ⟨-, hb⟩
    · exact absurd hlen (hflagged.native n hn).ne
    · exact hs.begun n hn b hb

theorem Settled.starts {p : Nat} {b : ThreadProperty} {n : Native} {handle : Nat}
    {dtorAction : DtorAction} (hs : Settled s) (hb : s.blocks[p]? = some b)
    (hblocks : s'.blocks = s.blocks.set p (started b handle dtorAction))
    (hnatives : s'.natives = s.natives ++ [n]) (hproperty : n.property = p) :
    Settled s' := by
  have hlt := (List.getElem?_eq_some_iff.mp hb).1
  refine ⟨fun q c hc hflag => ?_, fun m hm c hc => ?_⟩
  · rw [hblocks] at hc
    rcases getElem?_set_cases hc with ⟨-, rfl⟩ | ⟨-, hc⟩
    · exact fun h => by cases h
    · exact hs.complete q c hc hflag
  · rw [hblocks] at hc
    rw [hnatives, List.mem_append, List.mem_singleton] at hm
    rcases getElem?_set_cases hc with ⟨-, rfl⟩ | ⟨hne, hc⟩
    · exact fun h => by cases h
    · rcases hm with hm | rfl
      · exact hs.begun m hm c hc
      · exact absurd hproperty hne

theorem Settled.stores {p : Nat} {b b' : ThreadProperty} (hs : Settled s)
    (hb : s.blocks[p]? = some b) (hstores : Stores b b')
    (hblocks : s'.blocks = s.blocks.set p b')
    (hproperty : s'.natives.map Native.property = s.natives.map Native.property) :
    Settled s' := by
  rcases hstores with rfl | ⟨hflag, hstate⟩
  · exact hs.frame (hblocks.trans (set_self hb)) hproperty
  · refine hs.put hb hblocks hproperty (fun _ hcomplete => ?_) fun _ => ?_
    · rcases hstate with hstate | ⟨-, hno⟩
      · rw [hstate]
        exact fun h => by cases h
      · rw [hflag, hno] at hcomplete
        cases hcomplete
    · rcases hstate with hstate | ⟨hstate, -⟩
      · rw [hstate]
        exact fun h => by cases h
      · rw [hstate]
        exact fun h => by cases h

theorem Settled.finishes {h : Nat} {n : Native} (hs : Settled s)
    (hn : s.natives[h]? = some n)
    (hnatives : s'.natives = s.natives.set h { n with run := .finished })
    (hblocks : s'.blocks = if s.expired n.property then s.blocks
      else s.blocks.modify n.property ThreadProperty.threadEntry) : Settled s' := by
  have hproperty : s'.natives.map Native.property = s.natives.map Native.property := by
    rw [hnatives]
    exact map_set_same hn rfl
  split at hblocks
  · exact hs.frame hblocks hproperty
  · cases hb : s.blocks[n.property]? with
    | none =>
        rw [List.modify_eq_self (List.getElem?_eq_none_iff.mp hb)] at hblocks
        exact hs.frame hblocks hproperty
    | some b =>
        rw [modify_eq_set_of_getElem? hb] at hblocks
        refine hs.put hb hblocks hproperty (fun _ _ => ?_) fun hbegun => ?_
        · rw [ThreadProperty.threadEntry]
          split
          · exact fun h => by cases h
          · assumption
        · rw [ThreadProperty.threadEntry]
          split
          · exact fun h => by cases h
          · exact hbegun

theorem Settled.step {a : Action} (hs : Settled s) (hflagged : Flagged s)
    (hstep : step s a = some s') : Settled s' := by
  have hmove := step_cases hstep
  cases hmove with
  | constructs | moveConstructs | assigned => exact hs.alloc hflagged
  | starts hidle hi hb => exact hs.starts hb rfl rfl rfl
  | callMoves hcall hb hmove =>
      obtain ⟨b, b', hb, hblocks, hstores⟩ := step_stores hcall hstep
      refine hs.stores hb hstores hblocks ?_
      rcases hmove.native with hsame | ⟨k, n, n', hn, hset, hproperty, -⟩
      · rw [hsame]
      · rw [hset]
        exact map_set_same hn hproperty
  | finishes hn => exact hs.finishes hn rfl rfl
  | unwinds hn => exact hs.frame rfl (map_set_same hn rfl)
  | _ => exact hs.frame rfl rfl

theorem settled_of_reachable (hr : threads.Reachable s) : Settled s :=
  hr.invariant ⟨fun _ _ h => (by cases h), fun _ h => by cases h⟩
    fun _ _ _ hr hs hstep => hs.step (flagged_of_reachable hr) hstep

end Settled

/-! ## Never lost, never misdirected -/

/-- The last thread of a block, its update over and its `Detach` returned. -/
def State.DetachedOver (s : State) (h : Nat) (n : Native) : Prop :=
  s.natives[h]? = some n ∧ n.run = .finished ∧ n.detaches ≠ 0 ∧ s.Last n.property h ∧
    s.owner.call? ≠ some (n.property, .detachLeave)

/-- A detached thread that is over has left its block `TERMINATED`, if an
object still has it. -/
theorem State.DetachedOver.terminated {s : State} {h : Nat} {n : Native}
    {b : ThreadProperty} (hover : s.DetachedOver h n) (hr : threads.Reachable s)
    (hp : some n.property ∈ s.objects) (hb : s.blocks[n.property]? = some b) :
    b.threadState = .terminated ∧ b.isComplete = true := by
  obtain ⟨hn, hrun, hdetaches, hlast, hout⟩ := hover
  have haimed := aimed_of_reachable hr
  have hsettled := settled_of_reachable hr
  have hmem := List.mem_of_getElem? hn
  have hcomplete : b.isComplete = true :=
    ((flagged_of_reachable hr).flag n.property b hp hb).mpr ⟨n, hmem, rfl, hrun⟩
  refine ⟨?_, hcomplete⟩
  cases hstate : b.threadState with
  | terminated => rfl
  | joinable =>
      have hticket := (handle_eq hb).trans (nativeHandle_of_joinable hstate)
      have hlast' := haimed.ticket n.property b.threadHandle hticket
      have hsame : b.threadHandle = h :=
        Nat.le_antisymm (hlast.2 _ _ hlast'.1.choose_spec.1 hlast'.1.choose_spec.2)
          (hlast'.2 h n hn rfl)
      rw [hsame] at hticket
      rcases haimed.detached n.property h n hticket hn with hzero | hcall
      · exact absurd hzero hdetaches
      · exact absurd hcall hout
  | detached => exact absurd hstate (hsettled.complete n.property b hb hcomplete)
  | invalid => exact absurd hstate (hsettled.begun n hmem b hb)

theorem finishes_other {s s' : State} {h : Nat} {n : Native} (hn : s.natives[h]? = some n)
    (hstep : step s (.finishes h) = some s') {q : Nat} (hq : q ≠ n.property) :
    s'.blocks[q]? = s.blocks[q]? := by
  have hmove := step_cases hstep
  cases hmove with
  | @finishes _ m hm =>
      obtain rfl := Option.some.inj (hn.symm.trans hm)
      dsimp only
      split
      · rfl
      · simp [hq.symm]

/-- Once a detached thread's update is over and `Detach` has returned, the
object that has its block, there is one at most, is `TERMINATED` and complete;
and the update changed no other object's block. -/
theorem detached_completion {s : State} (hr : threads.Reachable s) :
    (∀ h n, s.DetachedOver h n → ∀ i b, s.property i = some n.property →
      s.blocks[n.property]? = some b → b.threadState = .terminated ∧ b.isComplete = true) ∧
    ∀ h n s', s.natives[h]? = some n → threads.step s (.finishes h) = some s' →
      s'.objects = s.objects ∧
      (∀ i j, s.property i = some n.property → s.property j = some n.property → i = j) ∧
      ∀ j q, s.property j = some q → s.property j ≠ some n.property →
        s'.blocks[q]? = s.blocks[q]? := by
  refine ⟨fun h n hover i b hi hb => ?_, fun h n s' hn hstep => ⟨?_, ?_, ?_⟩⟩
  · exact hover.terminated hr (mem_objects.mpr ⟨i, hi⟩) hb
  · have hmove : Move s (.finishes h) s' := step_cases hstep
    cases hmove with
    | finishes => rfl
  · exact fun i j => (separate_of_reachable hr).inj
  · intro j q hq hne
    rw [hq] at hne
    exact finishes_other hn hstep fun h => hne (by rw [h])

/-- A thread ends between `pthread_detach` and the last section of `Detach`,
and its block is moved on. -/
theorem detached_completion_run : ∃ s : State, s.property 1 = some 0 ∧
    ∃ b, s.blocks[0]? = some b ∧ b.threadState = .terminated ∧ b.isComplete = true := by
  obtain ⟨s, hr, hi, n, hn, ⟨hover, hown⟩, b, hb⟩ := exists_of_run threads
    ([.op .construct, starts 0 .join, .op (.call 0 .detach)] ++ proceeds 2 ++
      .finishes 0 :: proceeds 1 ++ [.op (.moveConstruct 0)])
    (fun s => s.property 1 = some 0 ∧ ∃ n ∈ s.natives[0]?,
      ((n.run = .finished ∧ n.detaches ≠ 0 ∧ s.Last n.property 0 ∧
        s.owner.call? ≠ some (n.property, .detachLeave)) ∧ n.property = 0) ∧
      ∃ b ∈ s.blocks[0]?, True)
    (by decide +kernel)
  refine ⟨s, hi, b, hb.1, ?_⟩
  exact (detached_completion hr).1 0 n ⟨hn, hover⟩ 1 b (by rw [hown, hi])
    (by rw [hown]; exact hb.1)

end ThreadPool.Pthread
