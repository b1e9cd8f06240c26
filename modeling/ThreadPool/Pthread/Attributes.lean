import ThreadPool.Pthread.Tickets

/-!
# Threads created detached

`Start` passes the caller's attributes to `pthread_create` and stores
`JOINABLE` whatever detach state they have, while every later operation goes
by the stored state alone. So the state is the thread's as long as every
thread is created joinable, and with the first one that is not a block is
`JOINABLE` whose thread must be neither joined nor detached.
-/

namespace ThreadPool.Pthread

open Interleave Machine

/-- A `Start` that creates a thread creates it joinable. -/
def CreatesJoinable (s : State) : Action → Prop
  | .op (.start i creates _ attr) =>
      creates.avail ≠ 0 → ∀ p ∈ s.property i, ∀ b ∈ s.blocks[p]?,
        b.threadState ≠ .joinable → b.threadState ≠ .detached → attr = .joinable
  | _ => True

instance (s : State) : ∀ a, Decidable (CreatesJoinable s a)
  | .op (.start _ _ _ _) => inferInstanceAs (Decidable (_ → ∀ p ∈ s.property _, _))
  | .op .construct | .op (.call _ _) | .op (.moveConstruct _) | .op (.moveAssign _ _)
  | .op (.swap _ _) | .op (.destroy _) | .owner _ | .finishes _ | .unwinds _ =>
      inferInstanceAs (Decidable True)

/-- Every block that is `JOINABLE` has a thread that was created joinable and
has not been detached, but by a `Detach` that is about to store so; and what
a call is about to join or to detach was created joinable. -/
structure State.Matches (s : State) : Prop where
  joinable : ∀ (p : Nat) b, s.blocks[p]? = some b → b.threadState = .joinable →
    ∃ n, s.natives[b.threadHandle]? = some n ∧ n.created = .joinable ∧
      (n.detaches = 0 ∨ s.owner.call? = some (p, .detachLeave))
  target : ∀ p pc h, s.owner.call? = some (p, pc) → pc.target = some h →
    ∃ n, s.natives[h]? = some n ∧ n.created = .joinable

/-- Tickets are for threads that were created joinable. -/
def State.Matched (s : State) : Prop :=
  ∀ p h, s.handle p = some h → (s.natives.map Native.created)[h]? = some .joinable

theorem Aimed.matches_iff {s : State} (hs : Aimed s) : s.Matches ↔ s.Matched := by
  constructor
  · intro hmatches p h hp
    obtain ⟨b, hb, hh⟩ := Option.bind_eq_some_iff.mp hp
    rw [ThreadProperty.nativeHandle] at hh
    split at hh
    · next hjoinable =>
        obtain ⟨n, hn, hcreated, -⟩ := hmatches.joinable p b hb hjoinable
        rw [← Option.some.inj hh, List.getElem?_map, hn, Option.map_some, hcreated]
    · cases hh
  · intro hmatched
    have hcreated : ∀ p h, s.handle p = some h →
        ∃ n, s.natives[h]? = some n ∧ n.created = .joinable := fun p h hp => by
      have hget := hmatched p h hp
      rwa [List.getElem?_map, Option.map_eq_some_iff] at hget
    refine ⟨fun p b hb hjoinable => ?_, fun p pc h hcall hpc => ?_⟩
    · have hp := (handle_eq hb).trans (nativeHandle_of_joinable hjoinable)
      obtain ⟨n, hn, hjoin⟩ := hcreated p _ hp
      exact ⟨n, hn, hjoin, hs.detached p _ n hp hn⟩
    · exact hcreated p h (hs.target p pc h hcall hpc)

/-! ## One step -/

theorem State.Matched.frame {s s' : State} (hs : s.Matched)
    (hcreated : s'.natives.map Native.created = s.natives.map Native.created)
    (hhandle : ∀ p h, s'.handle p = some h → s.handle p = some h) : s'.Matched := by
  intro p h hp
  rw [hcreated]
  exact hs p h (hhandle p h hp)

theorem CallMove.created {ns ns' : List Native} {b b' : ThreadProperty} {answer : Answer}
    {pc : CallPc} {progress : Progress} (h : CallMove ns b answer pc ns' b' progress) :
    ns'.map Native.created = ns.map Native.created := by
  cases h with
  | hop | refused | fails | leaves => rfl
  | joins hpc hpc' hn => exact map_set_same hn rfl
  | @detaches k =>
      cases hn : ns[k]? with
      | none => rw [List.modify_eq_self (List.getElem?_eq_none_iff.mp hn)]
      | some n =>
          rw [modify_eq_set_of_getElem? hn]
          exact map_set_same hn rfl

theorem CallMove.nativeHandle {ns ns' : List Native} {b b' : ThreadProperty}
    {answer : Answer} {pc : CallPc} {progress : Progress}
    (h : CallMove ns b answer pc ns' b' progress) :
    b'.nativeHandle = b.nativeHandle ∨ b'.nativeHandle = none := by
  cases h with
  | leaves hpc hst => exact Or.inr (nativeHandle_of_not_joinable hst)
  | _ => exact Or.inl rfl

/-- A `Start` that succeeds keeps it if the thread is created joinable. -/
theorem State.Matched.starts_iff {s s' : State} {p : Nat} {attr : DetachState}
    (hs : s.Matched)
    (hcreated : s'.natives.map Native.created = s.natives.map Native.created ++ [attr])
    (hhandle : ∀ q, s'.handle q = if p = q then some s.natives.length else s.handle q) :
    s'.Matched ↔ attr = .joinable := by
  have hlen : (s.natives.map Native.created).length = s.natives.length := List.length_map _
  have hnew : (s'.natives.map Native.created)[s.natives.length]? = some attr := by
    rw [hcreated, ← hlen, List.getElem?_concat_length]
  constructor
  · intro hmatched
    have hget := hmatched p s.natives.length (by rw [hhandle, if_pos rfl])
    exact Option.some.inj (hnew.symm.trans hget)
  · rintro rfl q h hq
    rw [hhandle] at hq
    split at hq
    · rw [← Option.some.inj hq]
      exact hnew
    · have hget := hs q h hq
      have hlt := (List.getElem?_eq_some_iff.mp hget).1
      rw [hcreated, List.getElem?_append_left hlt]
      exact hget

theorem State.Matched.step_iff {s s' : State} {a : Action} (hs : s.Matched)
    (h : Move s a s') : s'.Matched ↔ CreatesJoinable s a := by
  cases h with
  | @startFails _ i p creates _ _ b _ hidle hi hb hfails =>
      refine iff_of_true (hs.frame rfl fun _ _ h => h) ?_
      intro havail q hq c hc hjoinable hdetached
      exact absurd (detached_of_fails hi hb hfails havail q hq c hc hjoinable) hdetached
  | @starts _ i p creates dtorAction attr b hidle hi hb havail hover =>
      rw [hs.starts_iff (by rw [List.map_append]; rfl) (handle_starts hb rfl)]
      constructor
      · exact fun hattr _ _ _ _ _ _ _ => hattr
      · exact fun hcreates => hcreates havail p hi b hb hover.1 hover.2
  | @callMoves _ p _ b b' ns progress hcall hb hmove =>
      refine iff_of_true (hs.frame hmove.created fun q k hq => ?_) trivial
      rw [handle_set hb rfl] at hq
      split at hq
      · next hpq =>
          rcases hmove.nativeHandle with hsame | hnone
          · rwa [← hpq, handle_eq hb, ← hsame]
          · rw [hnone] at hq
            cases hq
      · exact hq
  | constructs | moveConstructs | assigned =>
      refine iff_of_true (hs.frame rfl fun q k hq => ?_) trivial
      rwa [handle_alloc] at hq
  | finishes hn =>
      refine iff_of_true (hs.frame (map_set_same hn rfl) fun q k hq => ?_) trivial
      rwa [handle_finish rfl] at hq
  | unwinds hn =>
      exact iff_of_true (hs.frame (map_set_same hn rfl) fun _ _ h => h) trivial
  | _ => exact iff_of_true (hs.frame rfl fun _ _ h => h) trivial

theorem matched_of_createsJoinable {s : State}
    (hr : threads.ReachableWhen CreatesJoinable s) : s.Matched :=
  hr.invariant (fun _ _ h => by cases h) fun _ _ _ _ hs hok hstep =>
    (hs.step_iff (step_cases hstep)).mpr hok

/-- In a run all of whose threads are created joinable the state is the
thread's, and the first thread that is not makes an end of that. -/
theorem state_matches_native {s : State} (hr : threads.ReachableWhen CreatesJoinable s) :
    s.Matches ∧
      ∀ a s', threads.step s a = some s' → (s'.Matches ↔ CreatesJoinable s a) := by
  have hs := aimed_of_reachable hr.reachable
  have hmatched := matched_of_createsJoinable hr
  refine ⟨hs.matches_iff.mpr hmatched, fun a s' hstep => ?_⟩
  have hs' := aimed_of_reachable (hr.reachable.step trivial hstep)
  rw [hs'.matches_iff]
  exact hmatched.step_iff (step_cases hstep)

/-- A thread is started, and about to be joined. -/
theorem state_matches_native_run : ∃ s : State, s.owner.call? = some (0, .joining 0) ∧
    ∃ n, s.natives[0]? = some n ∧ n.created = .joinable := by
  obtain ⟨s, hr, hcall⟩ := exists_of_runWhen threads CreatesJoinable
    ([.op .construct, starts 0 .join, .op (.call 0 .join)] ++ proceeds 1)
    (fun s => s.owner.call? = some (0, .joining 0)) (by decide +kernel)
  exact ⟨s, hcall, (state_matches_native hr).1.target 0 _ 0 hcall rfl⟩

/-- The same with the attribute `DETACHED`. -/
theorem detached_thread_joined : ¬∀ s, threads.Reachable s → s.Matches := by
  intro hall
  obtain ⟨s, hr, hcall, n, hn, hcreated⟩ := exists_of_run threads
    ([.op .construct, .op (.start 0 { avail := 1 } .join .detached), .op (.call 0 .join)] ++
      proceeds 1)
    (fun s => s.owner.call? = some (0, .joining 0) ∧
      ∃ n ∈ s.natives[0]?, n.created = .detached)
    (by decide +kernel)
  obtain ⟨n', hn', hjoinable⟩ := (hall s hr).target 0 _ 0 hcall rfl
  rw [Option.some.inj (hn'.symm.trans hn), hcreated] at hjoinable
  cases hjoinable

end ThreadPool.Pthread
