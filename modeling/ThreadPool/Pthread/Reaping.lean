import ThreadPool.Pthread.Release

/-!
# What `Cleanup` leaves behind

The destructor and the move assignment join, detach, cancel or terminate a
thread that is still `JOINABLE`, and drop whatever exception that ends in.
`Terminate` throws as soon as `pthread_kill` answers `ESRCH`, as it may of a
thread that is over and has not been joined. Called by the user that costs
nothing, the block stays `JOINABLE`; called by `Cleanup` it costs the thread,
whose block goes with the object.
-/

namespace ThreadPool.Pthread

open Interleave Machine

/-- About to signal a thread that is over. -/
def State.killsEnded (s : State) : Bool :=
  match s.owner.call? with
  | some (_, .killing h) => s.natives[h]?.any fun n => n.run ≠ .running
  | _ => false

/-- `pthread_kill` says of a thread that is over that there is none. -/
def State.killMisses (s : State) : Action → Bool
  | .owner answer => answer.res = ESRCH && s.killsEnded
  | _ => false

/-- The pthread calls behind a creation succeed, but for that, and threads are
created joinable. -/
def KillMayMiss (s : State) (a : Action) : Prop :=
  (s.fails a = false ∨ s.killMisses a = true) ∧ a.attr = .joinable

/-- It does not happen to `Cleanup`. -/
def Reaps (s : State) (a : Action) : Prop := ¬(s.owner.cleans = true ∧ s.killMisses a = true)

instance (s : State) (a : Action) : Decidable (KillMayMiss s a) :=
  inferInstanceAs (Decidable (_ ∧ _))

instance (s : State) (a : Action) : Decidable (Reaps s a) := inferInstanceAs (Decidable (¬_))

/-- Behind `Cleanup` every thread of the object's block has been joined or
detached, and so has every thread whose block is gone. -/
structure State.Reaped (s : State) : Prop where
  cleaned : ∀ i after p, s.owner = .leaving i after → s.property i = some p →
    ∀ (h : Nat) n, s.natives[h]? = some n → n.property = p → n.joins + n.detaches = 1
  dropped : ∀ (h : Nat) n, s.natives[h]? = some n → (∀ i, s.property i ≠ some n.property) →
    n.joins + n.detaches = 1

theorem Kept.released_of_void {s : State} (hs : Kept s) {h : Nat} {n : Native}
    (hn : s.natives[h]? = some n) (hnone : s.handle n.property = none) :
    n.joins + n.detaches = 1 := by
  have hcount := hs.tracked.releases h n hn
  rw [if_neg fun hboth => by rw [hnone] at hboth; cases hboth.1] at hcount
  exact hcount

theorem Kept.reaped {s : State} (hs : Kept s) : s.Reaped := by
  refine ⟨fun i after p howner hi h n hn hnp => ?_, fun h n hn hgone => ?_⟩
  · exact hs.released_of_void hn (hnp ▸ hs.attended.leaving i after howner p hi)
  · refine hs.released_of_void hn ?_
    cases hticket : s.handle n.property with
    | none => rfl
    | some k =>
        obtain ⟨i, hi⟩ := property_of_mem (hs.owned.ticket _ k hticket)
        exact absurd hi (hgone i)

theorem spared_of_reaps {s : State} {a : Action} (hmay : KillMayMiss s a)
    (hreaps : Reaps s a) : s.spoils a = false := by
  rw [State.spoils]
  rcases hmay.1 with hfails | hmiss
  · rw [hfails, Bool.false_and]
  · have hcleans : s.owner.cleans = false := by
      rw [← Bool.not_eq_true]
      exact fun hcleans => hreaps ⟨hcleans, hmiss⟩
    have hlast : s.owner.lastJoin = false := by
      cases a with
      | owner answer =>
          have hkills := (Bool.and_eq_true_iff.mp hmiss).2
          rw [State.killsEnded] at hkills
          split at hkills
          · next hcall =>
              rw [Owner.lastJoin, hcall]
              rfl
          · cases hkills
      | _ => cases hmiss
    rw [hcleans, hlast, Bool.or_false, Bool.and_false]

theorem kept_of_reaps {s : State}
    (hr : threads.ReachableWhen (fun s a => KillMayMiss s a ∧ Reaps s a) s) : Kept s :=
  kept_of_spared (hr.mono fun _ _ hok => spared_of_reaps hok.1 hok.2)

theorem cleaning_of_cleans {o : Owner} {p : Nat} {pc : CallPc} (hcleans : o.cleans = true)
    (hcall : o.call? = some (p, pc)) : ∃ i after, o = .cleaning i p pc after := by
  cases o with
  | cleaning i q pc' after =>
      cases hcall
      exact ⟨i, after, rfl⟩
  | _ => cases hcleans

/-- The exception of `pthread_kill` takes `Cleanup` to its end, and the thread
has not been released. -/
theorem Kept.missed {s s' : State} {a : Action} (hs : Kept s) (h : Move s a s')
    (hcleans : s.owner.cleans = true) (hmiss : s.killMisses a = true) : ¬s'.Reaped := by
  cases a with
  | owner answer =>
      obtain ⟨hres, hkills⟩ := Bool.and_eq_true_iff.mp hmiss
      have hres := of_decide_eq_true hres
      rw [State.killsEnded] at hkills
      split at hkills
      · next p k hcall =>
          obtain ⟨b, ns, b', progress, hb, hmove, rfl⟩ := h.call hcall
          obtain ⟨i, after, howner⟩ := cleaning_of_cleans hcleans hcall
          obtain ⟨hi, hticket, -⟩ := hs.attended.cleaning i p _ after howner
          have hhandle : s.handle p = some k :=
            (hs.attended.signals p _ k hcall rfl).resolve_right hticket
          obtain ⟨n, hn, hnp⟩ := (hs.tracked.ticket p k hhandle).1
          have hzero : n.joins + n.detaches = 0 := by
            have hcount := hs.tracked.releases k n hn
            rw [hnp, left_of_call hcall] at hcount
            rw [if_pos ⟨hhandle, fun h => by cases h⟩] at hcount
            exact hcount
          intro hreaped
          cases hmove with
          | hop hhop =>
              cases hhop with
              | kills hzero =>
                  rw [hres] at hzero
                  cases hzero
          | @fails _ e =>
              have hleaving :
                  s.owner.resume (.ended (.threw e)) = .leaving i after := by
                rw [howner]
                rfl
              have hone := hreaped.cleaned i after p hleaving hi k n hn hnp
              omega
          | joins hpc => cases hpc
          | leaves hpc => cases hpc
      · cases hkills
  | _ => cases hmiss

/-- As long as `pthread_kill` does not answer `ESRCH` to `Cleanup`, whoever is
behind `Cleanup` or has lost its block has been joined or detached; the first
time it does, the thread is left as it was. -/
theorem destruction_reaps {s : State}
    (hr : threads.ReachableWhen (fun s a => KillMayMiss s a ∧ Reaps s a) s) :
    s.Reaped ∧ ∀ a s', KillMayMiss s a → threads.step s a = some s' →
      (s'.Reaped ↔ Reaps s a) := by
  have hs := kept_of_reaps hr
  refine ⟨hs.reaped, fun a s' hmay hstep => ⟨fun hreaped hboth => ?_, fun hreaps => ?_⟩⟩
  · exact hs.missed (step_cases hstep) hboth.1 hboth.2 hreaped
  · exact (kept_of_reaps (hr.step ⟨hmay, hreaps⟩ hstep)).reaped

/-- A thread has ended; `Terminate` is told so and throws, and the destructor
is not, and joins it. -/
theorem destruction_reaps_run : ∃ s : State, s.objects = [none] ∧ s.natives.length = 1 ∧
    s.Reaped := by
  obtain ⟨s, hr, hobjects, hlen⟩ := exists_of_runWhen threads
    (fun s a => KillMayMiss s a ∧ Reaps s a)
    ([.op .construct, starts 0 .terminate, .finishes 0, .op (.call 0 .terminate)] ++
      proceeds 1 ++ .owner { res := ESRCH } :: .op (.destroy 0) :: proceeds 7)
    (fun s => s.objects = [none] ∧ s.natives.length = 1) (by decide +kernel)
  exact ⟨s, hobjects, hlen, (destruction_reaps hr).1⟩

/-- The destructor is told so. -/
theorem ended_thread_leaked : ¬∀ s, threads.ReachableWhen KillMayMiss s → s.Reaped := by
  intro hall
  obtain ⟨s, hr, hobjects, n, hn, hnone⟩ := exists_of_runWhen threads KillMayMiss
    ([.op .construct, starts 0 .terminate, .finishes 0, .op (.destroy 0)] ++ proceeds 2 ++
      .owner { res := ESRCH } :: proceeds 1)
    (fun s => s.objects = [none] ∧ ∃ n ∈ s.natives[0]?, n.joins + n.detaches = 0)
    (by decide +kernel)
  have hone := (hall s hr).dropped 0 n hn fun i hi => by
    rw [State.property, hobjects] at hi
    cases i <;> cases hi
  omega

end ThreadPool.Pthread
