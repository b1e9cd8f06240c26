import ThreadPool.Pthread.Moves

/-!
# What `IsCompleteExecution` tells

`is_complete` belongs to the block, and a block outlives its runs: `Start`
does not take the flag back, and a thread that has been cancelled or
terminated behind a `Detach` may come to the end of `ThreadEntry` when the
block is in a later run. So the flag says that some callable given to the
`Thread` has run to its end, and it says so of the last one exactly as long
as no `Start` succeeds on a `Thread` with such a callable and none but the
last one ends before the last has.
-/

namespace ThreadPool.Pthread

open Interleave Machine

/-! ## The callables of a block -/

/-- A callable given to block `p` has run to its end. -/
def State.Finished (s : State) (p : Nat) : Prop :=
  ∃ n ∈ s.natives, n.property = p ∧ n.run = .finished

/-- The one given to it last has. -/
def State.LastFinished (s : State) (p : Nat) : Prop :=
  ∃ h n, s.Last p h ∧ s.natives[h]? = some n ∧ n.run = .finished

instance (s : State) (p : Nat) : Decidable (s.Finished p) :=
  inferInstanceAs (Decidable (∃ n ∈ s.natives, _))

instance (s : State) (p h : Nat) : Decidable (s.Last p h) :=
  decidable_of_iff ((s.natives.map Native.property)[h]? = some p ∧
    ∀ h' < s.natives.length, (s.natives.map Native.property)[h']? = some p → h' ≤ h) <| by
  rw [last_iff]
  refine and_congr_right fun _ => ⟨fun hall h' hp => hall h' ?_ hp, fun hall h' _ => hall h'⟩
  simpa using (List.getElem?_eq_some_iff.mp hp).1

instance (s : State) (p : Nat) : Decidable (s.LastFinished p) :=
  decidable_of_iff (∃ h < s.natives.length,
    s.Last p h ∧ (s.natives.map Native.run)[h]? = some .finished) <| by
  simp only [State.LastFinished, List.getElem?_map, Option.map_eq_some_iff]
  constructor
  · rintro ⟨h, -, hlast, n, hn, hrun⟩
    exact ⟨h, n, hlast, hn, hrun⟩
  · rintro ⟨h, n, hlast, hn, hrun⟩
    exact ⟨h, (List.getElem?_eq_some_iff.mp hn).1, hlast, n, hn, hrun⟩

theorem State.LastFinished.finished {s : State} {p : Nat} (h : s.LastFinished p) :
    s.Finished p := by
  obtain ⟨h, n, ⟨⟨m, hm, hmp⟩, -⟩, hn, hrun⟩ := h
  rw [hn, Option.some.injEq] at hm
  exact ⟨n, List.mem_of_getElem? hn, hm ▸ hmp, hrun⟩

theorem finished_set {s t : State} {h : Nat} {n m : Native}
    (hn : s.natives[h]? = some n) (hnatives : t.natives = s.natives.set h m)
    (hproperty : m.property = n.property) (hrun : n.run = .finished → m.run = .finished)
    (p : Nat) :
    t.Finished p ↔ s.Finished p ∨ n.property = p ∧ m.run = .finished := by
  rw [State.Finished, hnatives, ← hproperty]
  exact exists_mem_set_iff hn fun hboth => ⟨hproperty.trans hboth.1, hrun hboth.2⟩

theorem lastFinished_set {s t : State} {h : Nat} {n m : Native}
    (hn : s.natives[h]? = some n) (hnatives : t.natives = s.natives.set h m)
    (hproperty : m.property = n.property) (hrun : n.run = .finished → m.run = .finished)
    (p : Nat) :
    t.LastFinished p ↔ s.LastFinished p ∨ s.Last p h ∧ m.run = .finished := by
  have hlt := (List.getElem?_eq_some_iff.mp hn).1
  simp only [State.LastFinished, last_set hn hnatives hproperty, hnatives]
  constructor
  · rintro ⟨k, x, hlast, hx, hxrun⟩
    rcases getElem?_set_cases hx with ⟨rfl, rfl⟩ | ⟨-, hold⟩
    · exact Or.inr ⟨hlast, hxrun⟩
    · exact Or.inl ⟨k, x, hlast, hold, hxrun⟩
  · rintro (⟨k, x, hlast, hx, hxrun⟩ | ⟨hlast, hmrun⟩)
    · by_cases hk : h = k
      · subst hk
        rw [hn, Option.some.injEq] at hx
        exact ⟨h, m, hlast, List.getElem?_set_self hlt, hrun (hx ▸ hxrun)⟩
      · exact ⟨k, x, hlast, (List.getElem?_set_ne hk).trans hx, hxrun⟩
    · exact ⟨h, m, hlast, List.getElem?_set_self hlt, hmrun⟩

theorem finished_set_same {s s' : State} {h : Nat} {n n' : Native}
    (hn : s.natives[h]? = some n) (hnatives : s'.natives = s.natives.set h n')
    (hproperty : n'.property = n.property)
    (hrun : n'.run = .finished ↔ n.run = .finished) (p : Nat) :
    s'.Finished p ↔ s.Finished p := by
  rw [finished_set hn hnatives hproperty hrun.mpr p, hrun]
  exact or_iff_left_of_imp fun hboth => ⟨n, List.mem_of_getElem? hn, hboth⟩

theorem lastFinished_set_same {s s' : State} {h : Nat} {n n' : Native}
    (hn : s.natives[h]? = some n) (hnatives : s'.natives = s.natives.set h n')
    (hproperty : n'.property = n.property)
    (hrun : n'.run = .finished ↔ n.run = .finished) (p : Nat) :
    s'.LastFinished p ↔ s.LastFinished p := by
  rw [lastFinished_set hn hnatives hproperty hrun.mpr p, hrun]
  exact or_iff_left_of_imp fun hboth => ⟨h, n, hboth.1, hn, hboth.2⟩

theorem finished_append {s s' : State} {n : Native}
    (hnatives : s'.natives = s.natives ++ [n]) (hrun : n.run = .running) (p : Nat) :
    s'.Finished p ↔ s.Finished p := by
  simp only [State.Finished, hnatives, List.mem_append, List.mem_singleton, or_and_right,
    exists_or, exists_eq_left, hrun]
  simp

theorem lastFinished_append {s s' : State} {n : Native}
    (hnatives : s'.natives = s.natives ++ [n]) (hrun : n.run = .running) (p : Nat) :
    s'.LastFinished p ↔ n.property ≠ p ∧ s.LastFinished p := by
  simp only [State.LastFinished, last_append hnatives, hnatives]
  by_cases hp : n.property = p
  · simp only [hp, if_true, ne_eq, not_true_eq_false, false_and, iff_false]
    rintro ⟨k, m, rfl, hm, hmrun⟩
    rw [List.getElem?_append_right (Nat.le_refl _), Nat.sub_self, List.getElem?_cons_zero,
      Option.some.injEq] at hm
    rw [← hm, hrun] at hmrun
    cases hmrun
  · simp only [hp, if_false, ne_eq, not_false_eq_true, true_and]
    refine exists_congr fun k => exists_congr fun m => and_congr_right fun hlast => ?_
    obtain ⟨x, hx, -⟩ := hlast.1
    rw [List.getElem?_append_left (List.getElem?_eq_some_iff.mp hx).1]

/-! ## What the flag says -/

/-- The flag of every block an object has says whether some callable given to
it has run to its end. No call is on any other block, and no thread was
created for one that is yet to come. -/
structure Flagged (s : State) : Prop where
  native : ∀ n ∈ s.natives, n.property < s.blocks.length
  flag : ∀ p b, some p ∈ s.objects → s.blocks[p]? = some b →
    (b.isComplete = true ↔ s.Finished p)
  call : ∀ p pc, s.owner.call? = some (p, pc) → some p ∈ s.objects

theorem Flagged.frame {s s' : State} (hs : Flagged s)
    (hobjects : ∀ p, some p ∈ s'.objects → some p ∈ s.objects ∨ p = s.blocks.length)
    (hblocks :
      s'.blocks.map ThreadProperty.isComplete = s.blocks.map ThreadProperty.isComplete)
    (hnative : ∀ n ∈ s'.natives, n.property < s.blocks.length)
    (hfinished : ∀ p, s'.Finished p ↔ s.Finished p)
    (hcall : ∀ p pc, s'.owner.call? = some (p, pc) → some p ∈ s'.objects) :
    Flagged s' := by
  have hlen : s'.blocks.length = s.blocks.length := by
    simpa using congrArg List.length hblocks
  refine ⟨by rw [hlen]; exact hnative, fun p b' hp hb' => ?_, hcall⟩
  have hget := congrArg (·[p]?) hblocks
  simp only [List.getElem?_map, hb', Option.map_some] at hget
  obtain ⟨b, hb, hsame⟩ := Option.map_eq_some_iff.mp hget.symm
  rw [hfinished, ← hsame]
  have hlt := (List.getElem?_eq_some_iff.mp hb).1
  exact hs.flag p b ((hobjects p hp).resolve_right hlt.ne) hb

theorem Flagged.quiet {s s' : State} (hs : Flagged s) (hblocks : s'.blocks = s.blocks)
    (hnatives : s'.natives = s.natives)
    (hobjects : ∀ p, some p ∈ s'.objects → some p ∈ s.objects ∨ p = s.blocks.length)
    (hcall : ∀ p pc, s'.owner.call? = some (p, pc) → some p ∈ s'.objects) :
    Flagged s' :=
  hs.frame hobjects (by rw [hblocks]) (by rw [hnatives]; exact hs.native)
    (fun p => by rw [State.Finished, State.Finished, hnatives]) hcall

theorem Flagged.alloc {s : State} {objects : List (Option Nat)} (hs : Flagged s)
    (hobjects : ∀ p, some p ∈ objects → some p ∈ s.objects ∨ p = s.blocks.length) :
    Flagged (s.alloc objects) := by
  refine ⟨fun n hn => ?_, fun p b hp hb => ?_, fun p pc hcall => by cases hcall⟩
  · rw [State.alloc, List.length_append]
    exact (hs.native n hn).trans_le (Nat.le_add_right _ _)
  · rcases getElem?_concat_cases hb with ⟨rfl, rfl⟩ | ⟨hlt, hb⟩
    · -- nobody has had the block before
      refine ⟨fun hflag => (by cases hflag), fun ⟨n, hn, hnp, _⟩ => ?_⟩
      exact absurd hnp (hs.native n hn).ne
    · exact hs.flag p b ((hobjects p hp).resolve_right hlt.ne) hb

/-- A callable comes to its end; a block without an object does not hear of
it. -/
theorem Flagged.finishes {s s' : State} {h : Nat} {n : Native} (hs : Flagged s)
    (hn : s.natives[h]? = some n)
    (hnatives : s'.natives = s.natives.set h { n with run := .finished })
    (hblocks : s'.blocks = if s.expired n.property then s.blocks
      else s.blocks.modify n.property ThreadProperty.threadEntry)
    (hobjects : s'.objects = s.objects) (howner : s'.owner = s.owner) : Flagged s' := by
  have hfinished :=
    finished_set (m := { n with run := .finished }) hn hnatives rfl fun _ => rfl
  simp only [and_true] at hfinished
  have hlen : s'.blocks.length = s.blocks.length := by
    rw [hblocks]
    split
    · rfl
    · exact List.length_modify _ _ _
  refine ⟨?_, fun p b' hp hb' => ?_, by rw [howner, hobjects]; exact hs.call⟩
  · rw [hnatives, hlen]
    exact forall_mem_set hs.native (hs.native n (List.mem_of_getElem? hn))
  · rw [hobjects] at hp
    rw [hfinished]
    rw [hblocks] at hb'
    split at hb'
    · next hexpired =>
        have hne : n.property ≠ p := fun heq => expired_iff.mp hexpired (heq ▸ hp)
        rw [hs.flag p b' hp hb']
        exact (or_iff_left hne).symm
    · rw [List.getElem?_modify] at hb'
      obtain ⟨b, hb, rfl⟩ := Option.map_eq_some_iff.mp hb'
      by_cases heq : n.property = p
      · rw [if_pos heq]
        exact ⟨fun _ => Or.inr heq, fun _ => rfl⟩
      · rw [if_neg heq]
        exact (hs.flag p b hp hb).trans (or_iff_left heq).symm

theorem CallMove.native {ns ns' : List Native} {b b' : ThreadProperty} {answer : Answer}
    {pc : CallPc} {progress : Progress} (h : CallMove ns b answer pc ns' b' progress) :
    ns' = ns ∨ ∃ k n n', ns[k]? = some n ∧ ns' = ns.set k n' ∧ n'.property = n.property ∧
      n'.run = n.run := by
  cases h with
  | hop | refused | fails | leaves => exact Or.inl rfl
  | joins hpc hpc' hn => exact Or.inr ⟨_, _, _, hn, rfl, rfl, rfl⟩
  | @detaches k =>
      cases hn : ns[k]? with
      | none => exact Or.inl (List.modify_eq_self (List.getElem?_eq_none_iff.mp hn))
      | some n => exact Or.inr ⟨k, n, _, hn, modify_eq_set_of_getElem? hn, rfl, rfl⟩

theorem CallMove.isComplete {ns ns' : List Native} {b b' : ThreadProperty}
    {answer : Answer} {pc : CallPc} {progress : Progress}
    (h : CallMove ns b answer pc ns' b' progress) :
    b'.isComplete = b.isComplete := by
  cases h <;> rfl

theorem Flagged.callMoves {s : State} {answer : Answer} {p : Nat} {pc : CallPc}
    {b b' : ThreadProperty} {ns : List Native} {progress : Progress} (hs : Flagged s)
    (hcall : s.owner.call? = some (p, pc)) (hb : s.blocks[p]? = some b)
    (hmove : CallMove s.natives b answer pc ns b' progress) : Flagged { s with
      natives := ns
      blocks := s.blocks.set p b'
      owner := s.owner.resume progress } := by
  have hblocks : (s.blocks.set p b').map ThreadProperty.isComplete =
      s.blocks.map ThreadProperty.isComplete := map_set_same hb hmove.isComplete
  have hcalls : ∀ q pc', (s.owner.resume progress).call? = some (q, pc') →
      some q ∈ s.objects :=
    fun q pc' hq => by
      rcases progress with pc'' | x
      · rw [call?_resume hcall, Option.some.injEq, Prod.mk.injEq] at hq
        exact hq.1 ▸ hs.call p pc hcall
      · rw [call?_resume_ended hcall] at hq
        cases hq
  rcases hmove.native with rfl | ⟨k, n, n', hn, rfl, hproperty, hrun⟩
  · exact hs.frame (fun _ => Or.inl) hblocks hs.native (fun _ => Iff.rfl) hcalls
  · refine hs.frame (fun _ => Or.inl) hblocks ?_ ?_ hcalls
    · exact forall_mem_set hs.native (hproperty ▸ hs.native n (List.mem_of_getElem? hn))
    · exact finished_set_same hn rfl hproperty (by rw [hrun])

theorem Move.objects {s s' : State} {a : Action} (h : Move s a s') (p : Nat)
    (hp : some p ∈ s'.objects) : some p ∈ s.objects ∨ p = s.blocks.length := by
  cases h with
  | constructs => simpa [State.alloc] using hp
  | moveConstructs hidle hj =>
      rcases List.mem_append.mp hp with hp | hp
      · exact (List.mem_or_eq_of_mem_set hp).imp_right Option.some.inj
      · rw [List.mem_singleton] at hp
        exact Or.inl (hp ▸ mem_objects.mpr ⟨_, hj⟩)
  | swaps hidle hi hj =>
      rcases List.mem_or_eq_of_mem_set hp with hp | hp
      · rcases List.mem_or_eq_of_mem_set hp with hp | hp
        · exact Or.inl hp
        · exact Or.inl (hp ▸ mem_objects.mpr ⟨_, hj⟩)
      · exact Or.inl (hp ▸ mem_objects.mpr ⟨_, hi⟩)
  | destroyed =>
      exact Or.inl ((List.mem_or_eq_of_mem_set hp).resolve_right fun h => by cases h)
  | assigned howner hj =>
      rcases List.mem_or_eq_of_mem_set hp with hp | hp
      · rcases List.mem_or_eq_of_mem_set hp with hp | hp
        · exact Or.inl hp
        · exact Or.inl (hp ▸ mem_objects.mpr ⟨_, hj⟩)
      · exact Or.inr (Option.some.inj hp)
  | _ => exact Or.inl hp

theorem Move.flagged {s s' : State} {a : Action} (hs : Flagged s) (h : Move s a s') :
    Flagged s' := by
  have hobjects := h.objects
  cases h with
  | constructs | moveConstructs | assigned => exact hs.alloc hobjects
  | startFails | assignsSelf | assigns | swaps | destroys | nothingToClean | destroyed =>
      exact hs.quiet rfl rfl hobjects fun _ _ h => by cases h
  | calls m hidle hi | cleans howner hi =>
      refine hs.quiet rfl rfl hobjects fun q pc h => ?_
      cases h
      exact mem_objects.mpr ⟨_, hi⟩
  | starts hidle hi hb =>
      have hlt := (List.getElem?_eq_some_iff.mp hb).1
      refine hs.frame hobjects (map_set_same hb rfl) ?_ (finished_append rfl rfl)
        fun _ _ h => by cases h
      exact List.forall_mem_append.mpr ⟨hs.native, by simpa using hlt⟩
  | callMoves hcall hb hmove => exact hs.callMoves hcall hb hmove
  | finishes hn => exact hs.finishes hn rfl rfl rfl rfl
  | @unwinds _ n hn hrun =>
      refine hs.frame hobjects rfl ?_ ?_ hs.call
      · exact forall_mem_set hs.native (hs.native n (List.mem_of_getElem? hn))
      · exact finished_set_same hn rfl rfl
          ⟨fun h => (by cases h), fun h => by rw [hrun] at h; cases h⟩

theorem flagged_of_reachable {s : State} (hr : threads.Reachable s) : Flagged s :=
  hr.invariant ⟨fun _ h => (by cases h), fun _ _ h => (by cases h), fun _ _ h => by cases h⟩
    fun _ _ _ _ hs hstep => (step_cases hstep).flagged hs

/-! ## Whether it tells of the last callable -/

/-- `IsCompleteExecution` tells of every `Thread` whether the callable given to
it last has run to its end. -/
def State.Told (s : State) : Prop :=
  ∀ i p b, s.property i = some p → s.blocks[p]? = some b →
    (b.isCompleteExecution = true ↔ s.LastFinished p)

/-- A `Detach` that is about to end leaves its `Thread` terminated if that
callable has, and detached otherwise. -/
def State.DetachTold (s : State) : Prop :=
  ∀ p answer s', s.owner.call? = some (p, .detachLeave) → step s (.owner answer) = some s' →
    ∃ b, s'.blocks[p]? = some b ∧
      (b.threadState = .terminated ∧ s'.LastFinished p ∨
        b.threadState = .detached ∧ ¬s'.LastFinished p)

/-- No `Start` succeeds on a `Thread` that has been given a callable which has
run to its end, and of the callables given to a `Thread` that is there none
ends before the last one has, unless it is the last. -/
def Apart (s : State) : Action → Prop
  | .op (.start i creates _ _) =>
      creates.avail ≠ 0 → ∀ p ∈ s.property i, ∀ b ∈ s.blocks[p]?,
        b.threadState ≠ .joinable → b.threadState ≠ .detached → ¬s.Finished p
  | .finishes h => ∀ n ∈ s.natives[h]?, s.expired n.property = false →
      s.Last n.property h ∨ s.LastFinished n.property
  | _ => True

instance (s : State) : ∀ a, Decidable (Apart s a)
  | .op (.start _ _ _ _) => inferInstanceAs (Decidable (_ → ∀ p ∈ s.property _, _))
  | .op .construct | .op (.call _ _) | .op (.moveConstruct _) | .op (.moveAssign _ _)
  | .op (.swap _ _) | .op (.destroy _) | .owner _ | .unwinds _ =>
      inferInstanceAs (Decidable True)
  | .finishes _ => inferInstanceAs (Decidable (∀ n ∈ s.natives[_]?, _))

/-- The callables that have ended, have the last one among them. -/
def State.Caught (s : State) : Prop :=
  ∀ p, some p ∈ s.objects → s.Finished p → s.LastFinished p

theorem Flagged.told_iff {s : State} (hs : Flagged s) : s.Told ↔ s.Caught := by
  constructor
  · intro htold p hp hfinished
    obtain ⟨i, hi⟩ := mem_objects.mp hp
    obtain ⟨n, hn, hnp, -⟩ := id hfinished
    have hb := List.getElem?_eq_getElem (hnp ▸ hs.native n hn)
    exact (htold i p _ hi hb).mp ((hs.flag p _ hp hb).mpr hfinished)
  · intro hcaught i p b hi hb
    have hp := mem_objects.mpr ⟨i, hi⟩
    rw [ThreadProperty.isCompleteExecution, hs.flag p b hp hb]
    exact ⟨hcaught p hp, State.LastFinished.finished⟩

theorem State.Caught.finishes_iff {s s' : State} {h : Nat} {n : Native} (hs : s.Caught)
    (hn : s.natives[h]? = some n)
    (hnatives : s'.natives = s.natives.set h { n with run := .finished })
    (hobjects : s'.objects = s.objects) : s'.Caught ↔ Apart s (.finishes h) := by
  have hended :=
    finished_set (m := { n with run := .finished }) hn hnatives rfl fun _ => rfl
  have hlast :=
    lastFinished_set (m := { n with run := .finished }) hn hnatives rfl fun _ => rfl
  simp only [and_true] at hended hlast
  constructor
  · intro hcaught m hm halive
    rw [Option.mem_def, hn, Option.some.injEq] at hm
    rw [← hm] at halive ⊢
    have hp : some n.property ∈ s'.objects := by
      by_contra hno
      rw [hobjects, ← expired_iff, halive] at hno
      cases hno
    have hboth := (hlast _).mp (hcaught _ hp ((hended _).mpr (Or.inr rfl)))
    exact hboth.symm
  · intro hapart q hq
    rw [hobjects] at hq
    rw [hended, hlast]
    rintro (hold | rfl)
    · exact Or.inl (hs q hq hold)
    · refine (hapart n hn ?_).symm
      rw [← Bool.not_eq_true, expired_iff]
      exact not_not_intro hq

/-- A step keeps it exactly if it is apart. -/
theorem Flagged.caught_iff {s s' : State} {a : Action} (hs : Flagged s)
    (hcaught : s.Caught) (h : Move s a s') : s'.Caught ↔ Apart s a := by
  have hkeeps : (∀ p, s'.Finished p ↔ s.Finished p) →
      (∀ p, s'.LastFinished p ↔ s.LastFinished p) → s'.Caught := fun hfinished hlast p hp => by
    rw [hfinished, hlast]
    rcases h.objects p hp with hold | rfl
    · exact hcaught p hold
    · exact fun ⟨n, hn, hnp, _⟩ => absurd hnp (hs.native n hn).ne
  have hquiet : s'.natives = s.natives → s'.Caught := fun hnatives =>
    hkeeps (fun p => by rw [State.Finished, State.Finished, hnatives])
      fun p => by simp only [State.LastFinished, State.Last, hnatives]
  cases h with
  | @startFails _ i p creates _ _ b _ hidle hi hb hfails =>
      refine iff_of_true (hquiet rfl) fun havail q hq c hc hjoinable hdetached => ?_
      exact absurd (detached_of_fails hi hb hfails havail q hq c hc hjoinable) hdetached
  | @starts _ i p creates _ _ b hidle hi hb havail hover =>
      constructor
      · intro hcaught' _ q hq _ _ _ _ hfinished
        rw [Option.mem_def, hi, Option.some.injEq] at hq
        have hp := mem_objects.mpr ⟨i, hi⟩
        have hended := hcaught' p hp ((finished_append rfl rfl p).mpr (hq ▸ hfinished))
        exact ((lastFinished_append rfl rfl p).mp hended).1 rfl
      · intro hapart q hq hfinished
        rw [finished_append rfl rfl] at hfinished
        refine (lastFinished_append rfl rfl q).mpr ⟨fun hpq => ?_, hcaught q hq hfinished⟩
        have hpq : p = q := hpq
        exact hapart havail p hi b hb hover.1 hover.2 (hpq ▸ hfinished)
  | callMoves hcall hb hmove =>
      refine iff_of_true ?_ trivial
      rcases hmove.native with hsame | ⟨k, n, n', hn, hset, hproperty, hrun⟩
      · exact hquiet hsame
      · exact hkeeps (finished_set_same hn hset hproperty (by rw [hrun]))
          (lastFinished_set_same hn hset hproperty (by rw [hrun]))
  | finishes hn => exact hcaught.finishes_iff hn rfl rfl
  | @unwinds _ n hn hrun =>
      have hstill : Run.unwound = .finished ↔ n.run = .finished :=
        ⟨fun h => (by cases h), fun h => by rw [hrun] at h; cases h⟩
      exact iff_of_true (hkeeps (finished_set_same hn rfl rfl hstill)
        (lastFinished_set_same hn rfl rfl hstill)) trivial
  | _ => exact iff_of_true (hquiet rfl) trivial

theorem caught_of_apart {s : State} (hr : threads.ReachableWhen Apart s) : s.Caught :=
  hr.invariant (fun _ h => by cases h) fun _ _ _ hr hs hapart hstep =>
    ((flagged_of_reachable hr.reachable).caught_iff hs (step_cases hstep)).mpr hapart

theorem Flagged.detachTold {s : State} (hs : Flagged s) (hcaught : s.Caught) :
    s.DetachTold := by
  intro p answer s' hcall hstep
  obtain ⟨b, ns, b', progress, hb, hmove, rfl⟩ := (step_cases hstep).call hcall
  have hp := hs.call p _ hcall
  have hlt := (List.getElem?_eq_some_iff.mp hb).1
  have hflag : b.isComplete = true ↔ s.LastFinished p :=
    (hs.flag p b hp hb).trans ⟨hcaught p hp, State.LastFinished.finished⟩
  cases hmove with
  | hop hhop => cases hhop
  | fails hpc => cases hpc
  | joins hpc => cases hpc
  | @leaves _ st _ hpc hst hdetach =>
      refine ⟨_, List.getElem?_set_self hlt, ?_⟩
      have hst := hdetach rfl
      by_cases hcomplete : b.isComplete = true
      · rw [if_pos hcomplete] at hst
        exact Or.inl ⟨hst, hflag.mp hcomplete⟩
      · rw [if_neg hcomplete] at hst
        exact Or.inr ⟨hst, mt hflag.mpr hcomplete⟩

/-- In a run all of whose steps are apart `IsCompleteExecution` and `Detach`
tell whether the last callable has run to its end, and the first step that is
not apart makes an end of that. -/
theorem completion_tracked_per_run {s : State} (hr : threads.ReachableWhen Apart s) :
    s.Told ∧ s.DetachTold ∧
      ∀ a s', threads.step s a = some s' → (s'.Told ↔ Apart s a) := by
  have hs := flagged_of_reachable hr.reachable
  have hcaught := caught_of_apart hr
  refine ⟨hs.told_iff.mpr hcaught, hs.detachTold hcaught, fun a s' hstep => ?_⟩
  have hs' := flagged_of_reachable (hr.reachable.step trivial hstep)
  rw [hs'.told_iff]
  exact hs.caught_iff hcaught (step_cases hstep)

/-- A thread is detached, terminated and gone; the `Thread` is started again,
and detached when the second callable has ended. -/
theorem completion_tracked_per_run_again : ∃ s s' : State, s.natives.length = 2 ∧
    s.owner.call? = some (0, .detachLeave) ∧ step s (.owner {}) = some s' ∧
      ∃ b, s'.blocks[0]? = some b ∧ b.threadState = .terminated ∧ s'.LastFinished 0 := by
  obtain ⟨s, hr, hcall, hlen, hstep⟩ := exists_of_runWhen threads Apart
    ([.op .construct, starts 0 .join, .op (.call 0 .detach)] ++ proceeds 3 ++
      .op (.call 0 .terminate) :: proceeds 4 ++
      [.unwinds 0, starts 0 .join, .op (.call 0 .detach), .finishes 1] ++ proceeds 2)
    (fun s => s.owner.call? = some (0, .detachLeave) ∧ s.natives.length = 2 ∧
      ∃ s' ∈ step s (.owner {}), ∃ b ∈ s'.blocks[0]?, b.threadState = .terminated)
    (by decide +kernel)
  obtain ⟨s', hs', b, hb, hstate⟩ := hstep
  obtain ⟨b', hb', htold⟩ := (completion_tracked_per_run hr).2.1 0 {} s' hcall hs'
  rw [Option.mem_def, hb', Option.some.injEq] at hb
  refine ⟨s, s', hlen, hcall, hs', b', hb', hb ▸ hstate, ?_⟩
  rcases htold with ⟨-, hended⟩ | ⟨hdetached, -⟩
  · exact hended
  · rw [hb, hstate] at hdetached
    cases hdetached

/-- A `Thread` whose callable has ended is joined and started again: it says
that the second callable has ended too, and a `Detach` leaves it terminated. -/
theorem completion_outlives_run : (∃ s, threads.Reachable s ∧ ¬s.Told) ∧
    ∃ s, threads.Reachable s ∧ ¬s.DetachTold := by
  constructor
  · obtain ⟨s, hr, hi, b, hb, hcomplete, hno⟩ := exists_of_run threads
      ([.op .construct, starts 0 .join, .finishes 0, .op (.call 0 .join)] ++ proceeds 3 ++
        [starts 0 .join])
      (fun s => s.property 0 = some 0 ∧ ∃ b ∈ s.blocks[0]?, b.isCompleteExecution = true ∧
        ¬s.LastFinished 0)
      (by decide +kernel)
    exact ⟨s, hr, fun htold => hno ((htold 0 0 b hi hb).mp hcomplete)⟩
  · obtain ⟨s, hr, hcall, s', hs', b, hb, hstate, hno⟩ := exists_of_run threads
      ([.op .construct, starts 0 .join, .finishes 0, .op (.call 0 .join)] ++ proceeds 3 ++
        [starts 0 .join, .op (.call 0 .detach)] ++ proceeds 2)
      (fun s => s.owner.call? = some (0, .detachLeave) ∧ ∃ s' ∈ step s (.owner {}),
        ∃ b ∈ s'.blocks[0]?, b.threadState = .terminated ∧ ¬s'.LastFinished 0)
      (by decide +kernel)
    refine ⟨s, hr, fun htold => ?_⟩
    obtain ⟨b', hb', hboth⟩ := htold 0 {} s' hcall hs'
    rw [Option.mem_def, hb', Option.some.injEq] at hb
    rcases hboth with ⟨-, hended⟩ | ⟨hdetached, -⟩
    · exact hno hended
    · rw [hb, hstate] at hdetached
      cases hdetached

end ThreadPool.Pthread
