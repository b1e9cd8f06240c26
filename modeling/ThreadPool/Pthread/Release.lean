import ThreadPool.Pthread.Tickets

/-!
# Every thread is released once

A call redeems a ticket, by a join or a detach, and then stores the state
that says so; in between the ticket is void, and it is known to the call
alone. Tickets change hands with the blocks, and no block is dropped while it
is one.
-/

namespace ThreadPool.Pthread

open Interleave Machine

/-! ## Threads and tickets -/

/-- The block whose thread has been released by a call that has yet to store
the state it ends in, or whose thread was released before. -/
def Owner.left (o : Owner) : Option Nat :=
  o.call?.bind fun (p, pc) => if pc.leaving then some p else none

/-- How often the thread has been released. -/
def Native.releases (n : Native) : Nat := n.joins + n.detaches

/-- The owner's next step is a round of the loop around `pthread_tryjoin_np`. -/
def Owner.tries (o : Owner) : Bool := o.call?.any fun (_, pc) => pc.tries

/-- A pthread call that does not succeed; that `pthread_tryjoin_np` finds the
thread running is not a failure. -/
def State.fails (s : State) : Action → Bool
  | .owner answer => answer.res ≠ 0 && !(answer.res = EBUSY && s.owner.tries)
  | _ => false

/-- The owner is in the call that `Cleanup` has made. -/
def Owner.cleans : Owner → Bool
  | .cleaning _ _ _ _ => true
  | _ => false

/-- The owner's next step is the last join of `Terminate`. -/
def Owner.lastJoin (o : Owner) : Bool := o.call?.any fun (_, pc) => pc.lastJoin

/-- A failure that costs a ticket: its exception is dropped by `Cleanup`, or
`Terminate` takes it for the end of the thread. -/
def State.spoils (s : State) (a : Action) : Bool :=
  s.fails a && (s.owner.cleans || s.owner.lastJoin)

/-- The attribute a thread is created with. -/
def Action.attr : Action → DetachState
  | .op (.start _ _ _ attr) => attr
  | _ => .joinable

/-- The pthread calls behind a creation succeed, and threads are created
joinable. -/
def Succeeds (s : State) (a : Action) : Prop := s.fails a = false ∧ a.attr = .joinable

instance (s : State) (a : Action) : Decidable (Succeeds s a) :=
  inferInstanceAs (Decidable (_ ∧ _))

/-- A ticket is for the last thread of its block, and until it has been
redeemed for a thread that has not been released; every other thread has
been, once. -/
structure Tracked (s : State) : Prop where
  native : ∀ (h : Nat) n, s.natives[h]? = some n → n.property < s.blocks.length
  ticket : ∀ p h, s.handle p = some h → s.Last p h
  releases : ∀ (h : Nat) n, s.natives[h]? = some n → n.releases =
    if s.handle n.property = some h ∧ s.owner.left ≠ some n.property then 0 else 1

theorem Tracked.frame {s s' : State} (hs : Tracked s) (haimed : Aimed s')
    (hnatives : s'.natives = s.natives) (hblocks : s.blocks.length ≤ s'.blocks.length)
    (hgood : ∀ p h, s'.handle p = some h ∧ s'.owner.left ≠ some p ↔
      s.handle p = some h ∧ s.owner.left ≠ some p) : Tracked s' := by
  refine ⟨fun h n hn => ?_, haimed.ticket, fun h n hn => ?_⟩
  · rw [hnatives] at hn
    exact (hs.native h n hn).trans_le hblocks
  · rw [hnatives] at hn
    rw [hs.releases h n hn]
    exact if_congr (hgood n.property h).symm rfl rfl

theorem Tracked.quiet {s s' : State} (hs : Tracked s) (haimed : Aimed s')
    (hnatives : s'.natives = s.natives) (hblocks : s.blocks.length ≤ s'.blocks.length)
    (hhandle : s'.handle = s.handle) (hleft : s'.owner.left = s.owner.left) :
    Tracked s' :=
  hs.frame haimed hnatives hblocks fun p h => by rw [hhandle, hleft]

theorem Tracked.put {s s' : State} {h : Nat} {n n' : Native} (hs : Tracked s)
    (haimed : Aimed s') (hn : s.natives[h]? = some n) (hnatives : s'.natives = s.natives.set h n')
    (hproperty : n'.property = n.property) (hblocks : s'.blocks.length = s.blocks.length)
    (hhandle : s'.handle = s.handle)
    (hreleases : n'.releases =
      if s.handle n.property = some h ∧ s'.owner.left ≠ some n.property then 0 else 1)
    (hothers : ∀ k p, k ≠ h → (s.handle p = some k ∧ s'.owner.left ≠ some p ↔
      s.handle p = some k ∧ s.owner.left ≠ some p)) : Tracked s' := by
  have hlt := (List.getElem?_eq_some_iff.mp hn).1
  have hcases : ∀ (k : Nat) m', s'.natives[k]? = some m' →
      k = h ∧ m' = n' ∨ k ≠ h ∧ s.natives[k]? = some m' := fun k m' hm' => by
    rw [hnatives] at hm'
    exact getElem?_set_cases hm'
  refine ⟨fun k m' hm' => ?_, haimed.ticket, fun k m' hm' => ?_⟩
  · rw [hblocks]
    rcases hcases k m' hm' with ⟨rfl, rfl⟩ | ⟨-, hm⟩
    · rw [hproperty]
      exact hs.native k n hn
    · exact hs.native k m' hm
  · rw [hhandle]
    rcases hcases k m' hm' with ⟨rfl, rfl⟩ | ⟨hk, hm⟩
    · rw [hproperty, hreleases]
    · rw [hs.releases k m' hm]
      exact if_congr (hothers k m'.property hk).symm rfl rfl

theorem Tracked.run {s s' : State} {h : Nat} {n n' : Native} (hs : Tracked s)
    (haimed : Aimed s') (hn : s.natives[h]? = some n) (hnatives : s'.natives = s.natives.set h n')
    (hproperty : n'.property = n.property) (hreleases : n'.releases = n.releases)
    (hblocks : s'.blocks.length = s.blocks.length) (hhandle : s'.handle = s.handle)
    (howner : s'.owner = s.owner) : Tracked s' := by
  refine hs.put haimed hn hnatives hproperty hblocks hhandle ?_ fun k p _ => by rw [howner]
  rw [hreleases, howner]
  exact hs.releases h n hn

theorem Tracked.release {s s' : State} {p h : Nat} {n n' : Native} (hs : Tracked s)
    (haimed : Aimed s') (hp : s.handle p = some h) (hn : s.natives[h]? = some n)
    (hnatives : s'.natives = s.natives.set h n') (hproperty : n'.property = n.property)
    (hreleases : n'.releases = n.releases + 1)
    (hblocks : s'.blocks.length = s.blocks.length) (hhandle : s'.handle = s.handle)
    (hbefore : s.owner.left = none) (hafter : s'.owner.left = some p) : Tracked s' := by
  have hown : n.property = p := by
    obtain ⟨m, hm, hmp⟩ := (hs.ticket p h hp).1
    rw [hn, Option.some.injEq] at hm
    rw [hm, hmp]
  refine hs.put haimed hn hnatives hproperty hblocks hhandle ?_ fun k q hk => ?_
  · have hnone : n.releases = 0 := by
      rw [hs.releases h n hn, hown, if_pos ⟨hp, by rw [hbefore]; exact fun h => by cases h⟩]
    rw [hreleases, hnone, hown, if_neg fun hboth => hboth.2 hafter]
  · rw [hbefore, hafter]
    refine and_congr_right fun hq => ⟨fun _ h => (by cases h), fun _ hpq => ?_⟩
    rw [← Option.some.inj hpq, hp, Option.some.injEq] at hq
    exact hk hq.symm

theorem Tracked.start {s s' : State} {p : Nat} {n : Native} (hs : Tracked s)
    (haimed : Aimed s') (hlt : p < s.blocks.length) (hnone : s.handle p = none)
    (hnatives : s'.natives = s.natives ++ [n]) (hproperty : n.property = p)
    (hreleases : n.releases = 0) (hblocks : s'.blocks.length = s.blocks.length)
    (hhandle : ∀ q, s'.handle q = if p = q then some s.natives.length else s.handle q)
    (hbefore : s.owner.left = none) (hafter : s'.owner.left = none) : Tracked s' := by
  have hcases : ∀ (k : Nat) m, s'.natives[k]? = some m →
      k = s.natives.length ∧ m = n ∨ k < s.natives.length ∧ s.natives[k]? = some m :=
    fun k m hm => by
      rw [hnatives] at hm
      exact getElem?_concat_cases hm
  refine ⟨fun k m hm => ?_, haimed.ticket, fun k m hm => ?_⟩
  · rw [hblocks]
    rcases hcases k m hm with ⟨-, rfl⟩ | ⟨-, hm⟩
    · rw [hproperty]
      exact hlt
    · exact hs.native k m hm
  · rw [hhandle, hafter]
    rcases hcases k m hm with ⟨rfl, rfl⟩ | ⟨hk, hm⟩
    · rw [if_pos hproperty.symm, hreleases, if_pos ⟨rfl, fun h => by cases h⟩]
    · rw [hs.releases k m hm, hbefore]
      refine if_congr ?_ rfl rfl
      by_cases hmp : p = m.property
      · rw [if_pos hmp, ← hmp, hnone]
        refine ⟨fun h => (by cases h.1), fun h => ?_⟩
        have heq := Option.some.inj h.1
        omega
      · rw [if_neg hmp]

/-! ## Blocks and objects -/

/-- Objects have blocks of their own, and no ticket is without an object. -/
structure Owned (s : State) : Prop where
  inRange : ∀ p ∈ s.live, p < s.blocks.length
  distinct : s.live.Nodup
  ticket : ∀ p h, s.handle p = some h → p ∈ s.live

theorem Owned.frame {s s' : State} (hs : Owned s) (hsep : Separate s')
    (hhandle : ∀ p h, s'.handle p = some h → s.handle p = some h)
    (hlive : ∀ p ∈ s.live, s.handle p ≠ none → p ∈ s'.live) : Owned s' := by
  refine ⟨hsep.inRange, hsep.distinct, fun p h hp => ?_⟩
  have hold := hhandle p h hp
  exact hlive p (hs.ticket p h hold) fun hnone => by rw [hnone] at hold; cases hold

theorem Owned.quiet {s s' : State} (hs : Owned s) (hsep : Separate s')
    (hlive : s'.live = s.live) (hhandle : s'.handle = s.handle) : Owned s' := by
  refine hs.frame hsep (fun p h hp => ?_) fun p hp _ => ?_
  · rwa [hhandle] at hp
  · rwa [hlive]

theorem Owned.alloc {s : State} {objects : List (Option Nat)} (hs : Owned s)
    (hsep : Separate (s.alloc objects))
    (hlive : gather id objects = s.blocks.length ::ₘ s.live) :
    Owned (s.alloc objects) := by
  have hlive' : (s.alloc objects).live = s.blocks.length ::ₘ s.live := hlive
  refine hs.frame hsep (fun p h hp => ?_) fun p hp _ => ?_
  · rwa [handle_alloc] at hp
  · rw [hlive']
    exact Multiset.mem_cons_of_mem hp

theorem mem_of_dropped {s : State} {p : Nat} {rest : Multiset Nat}
    (hlive : s.live = p ::ₘ rest) (hnone : s.handle p = none) :
    ∀ q ∈ s.live, s.handle q ≠ none → q ∈ rest := by
  intro q hq hticket
  rw [hlive, Multiset.mem_cons] at hq
  refine hq.resolve_left fun hqp => hticket ?_
  rw [hqp, hnone]

/-! ## The owner -/

/-- What the owner knows: the thread it is about to join or to detach is the
one its block is the ticket of, the thread it signals is if the block is a
ticket, and `Cleanup` leaves no ticket behind. -/
structure Attended (s : State) : Prop where
  target : ∀ p pc h, s.owner.call? = some (p, pc) → pc.target = some h → s.handle p = some h
  signals : ∀ p pc h, s.owner.call? = some (p, pc) → pc.signals = some h →
    s.handle p = some h ∨ s.handle p = none
  cleaning : ∀ i p pc after, s.owner = .cleaning i p pc after →
    s.property i = some p ∧ s.handle p ≠ none ∧
      ∀ m, pc = .enter m → ∀ b, s.blocks[p]? = some b → m = dispatch b.dtorAction
  leaving : ∀ i after, s.owner = .leaving i after → ∀ p, s.property i = some p →
    s.handle p = none
  object : ∀ i after, s.owner.object? = some (i, after) →
    (∃ p, s.property i = some p) ∧ ∀ j, after = .assigned j → i ≠ j

theorem Attended.outside {s : State} (haimed : Aimed s) (hsep : Separate s)
    (hcall : s.owner.call? = none)
    (hleaving : ∀ i after, s.owner = .leaving i after → ∀ p, s.property i = some p →
      s.handle p = none) : Attended s := by
  refine ⟨haimed.target, haimed.signals, fun i p pc after hclean => ?_, hleaving, hsep.object⟩
  rw [hclean] at hcall
  cases hcall

theorem Attended.enters {s : State} {q : Nat} {m : Method} (haimed : Aimed s)
    (hsep : Separate s) (hcall : s.owner.call? = some (q, .enter m))
    (hcleaning : ∀ i p after, s.owner = .cleaning i p (.enter m) after →
      s.property i = some p ∧ s.handle p ≠ none ∧
        ∀ b, s.blocks[p]? = some b → m = dispatch b.dtorAction) : Attended s := by
  refine ⟨haimed.target, haimed.signals, fun i p pc after hclean => ?_,
    fun i after hleaving => ?_, hsep.object⟩
  · have hpc : pc = .enter m := by
      rw [hclean] at hcall
      exact (Prod.mk.inj (Option.some.inj hcall)).2
    subst hpc
    obtain ⟨hi, hticket, hdispatch⟩ := hcleaning i p after hclean
    refine ⟨hi, hticket, fun m' hm => ?_⟩
    cases hm
    exact hdispatch
  · rw [hleaving] at hcall
    cases hcall

theorem Attended.idle {s : State} {last : Outcome} (haimed : Aimed s) (hsep : Separate s)
    (h : s.owner = .idle last) : Attended s := by
  refine .outside haimed hsep ?_ fun i after hleaving => ?_
  · rw [h]
    rfl
  · rw [h] at hleaving
    cases hleaving

theorem firstSection_dispatch {b : ThreadProperty}
    (hjoinable : b.threadState = .joinable) (e : Exn) :
    (dispatch b.dtorAction).firstSection b ≠ .error e := by
  cases haction : b.dtorAction <;>
    simp [dispatch, Method.firstSection, ThreadProperty.joinEnter, ThreadProperty.detachEnter,
      ThreadProperty.cancelEnter, ThreadProperty.terminateEnter, hjoinable, haction]

theorem CallHop.not_enter {b : ThreadProperty} {answer : Answer} {pc pc' : CallPc}
    (h : CallHop b answer pc pc') (m : Method) : pc' ≠ .enter m := by
  cases h with
  | @enters m' => cases m' <;> exact fun h => by cases h
  | _ => exact fun h => by cases h

theorem Attended.goesOn {s s' : State} {p : Nat} {pc pc' : CallPc} (hs : Attended s)
    (haimed : Aimed s') (hsep : Separate s') (hcall : s.owner.call? = some (p, pc))
    (hblocks : s'.blocks = s.blocks) (hobjects : s'.objects = s.objects)
    (howner : s'.owner = s.owner.resume (.at pc')) (henter : ∀ m, pc' ≠ .enter m) :
    Attended s' := by
  have hhandle := handle_congr hblocks
  have hproperty := property_congr hobjects
  refine ⟨haimed.target, haimed.signals, fun i q pc₀ after ho => ?_, fun i after ho => ?_,
    hsep.object⟩
  · rw [howner] at ho
    obtain ⟨hclean, rfl, hat⟩ := cleaning_of_resume hcall ho
    obtain ⟨hi, hticket, -⟩ := hs.cleaning i _ pc after hclean
    rw [hproperty, hhandle]
    cases hat
    exact ⟨hi, hticket, fun m hm => absurd hm (henter m)⟩
  · rw [howner] at ho
    obtain ⟨-, x, hended⟩ := leaving_of_resume hcall ho
    cases hended

theorem Attended.ends {s s' : State} {p : Nat} {pc : CallPc} {x : Outcome}
    (hs : Attended s) (haimed : Aimed s') (hsep : Separate s')
    (hcall : s.owner.call? = some (p, pc)) (hobjects : s'.objects = s.objects)
    (howner : s'.owner = s.owner.resume (.ended x))
    (hgone : ∀ i after, s.owner = .cleaning i p pc after → s'.handle p = none) :
    Attended s' := by
  have hproperty := property_congr hobjects
  have hcall' := call?_resume_ended hcall x
  refine .outside haimed hsep (by rw [howner, hcall']) fun i after ho q hq => ?_
  rw [howner] at ho
  obtain ⟨hclean, -⟩ := leaving_of_resume hcall ho
  rw [hproperty, (hs.cleaning i p pc after hclean).1, Option.some.injEq] at hq
  rw [← hq]
  exact hgone i after hclean

/-! ## One step -/

/-- What every step that spoils no ticket keeps. -/
structure Kept (s : State) : Prop where
  tracked : Tracked s
  owned : Owned s
  attended : Attended s

theorem left_of_call {o : Owner} {p : Nat} {pc : CallPc} (h : o.call? = some (p, pc)) :
    o.left = if pc.leaving then some p else none := by
  rw [Owner.left, h]
  rfl

theorem left_of_no_call {o : Owner} (h : o.call? = none) : o.left = none := by
  rw [Owner.left, h]
  rfl

theorem fails_of_call {s : State} {answer : Answer} {p : Nat} {pc : CallPc}
    (hcall : s.owner.call? = some (p, pc)) (htries : pc.tries = false)
    (hres : answer.res ≠ 0) : s.fails (.owner answer) = true := by
  have hout : s.owner.tries = false := by
    rw [Owner.tries, hcall]
    exact htries
  simp [State.fails, hres, hout]

theorem spares_of_fails {s : State} {a : Action} {p : Nat} {pc : CallPc}
    (hok : s.spoils a = false) (hcall : s.owner.call? = some (p, pc))
    (hfails : s.fails a = true) :
    pc.lastJoin = false ∧ ∀ i after, s.owner ≠ .cleaning i p pc after := by
  rw [State.spoils, hfails, Bool.true_and, Bool.or_eq_false_iff, Owner.lastJoin,
    hcall] at hok
  refine ⟨hok.2, fun i after hclean => ?_⟩
  rw [hclean] at hok
  cases hok.1

theorem void_iff {s : State} {p q h : Nat} {l : Option Nat} (hnone : s.handle p = none)
    (hl : l = none ∨ l = some p) :
    s.handle q = some h ∧ l ≠ some q ↔ s.handle q = some h := by
  refine and_iff_left_of_imp fun hq hlq => ?_
  rcases hl with rfl | rfl
  · cases hlq
  · rw [Option.some.inj hlq, hq] at hnone
    cases hnone

/-- A call redeems its ticket. -/
theorem Kept.releases {s s' : State} {p h : Nat} {pc pc' : CallPc} {n n' : Native}
    (hs : Kept s) (haimed : Aimed s') (hsep : Separate s')
    (hcall : s.owner.call? = some (p, pc)) (hpc : pc.target = some h)
    (hpc' : pc'.leaving = true) (hn : s.natives[h]? = some n)
    (hnatives : s'.natives = s.natives.set h n') (hproperty : n'.property = n.property)
    (hreleases : n'.releases = n.releases + 1) (hblocks : s'.blocks = s.blocks)
    (hobjects : s'.objects = s.objects) (howner : s'.owner = s.owner.resume (.at pc')) :
    Kept s' := by
  have hhandle := handle_congr hblocks
  have hlive := live_congr hobjects
  have hbefore : s.owner.left = none := by
    rw [left_of_call hcall, CallPc.not_leaving_of_target hpc]
    rfl
  have hafter : s'.owner.left = some p := by
    rw [howner, left_of_call (call?_resume hcall pc'), hpc']
    rfl
  have henter := (CallPc.knows_of_leaving hpc').2.2
  have hticket := hs.attended.target p pc h hcall hpc
  exact ⟨hs.tracked.release haimed hticket hn hnatives hproperty hreleases (by rw [hblocks])
      hhandle hbefore hafter,
    hs.owned.quiet hsep hlive hhandle,
    hs.attended.goesOn haimed hsep hcall hblocks hobjects howner henter⟩

theorem Kept.callMoves {s s' : State} {answer : Answer} {p : Nat} {pc : CallPc}
    {b b' : ThreadProperty} {ns : List Native} {progress : Progress} (hs : Kept s)
    (haimed : Aimed s') (hsep : Separate s') (hok : s.spoils (.owner answer) = false)
    (hcall : s.owner.call? = some (p, pc)) (hb : s.blocks[p]? = some b)
    (hmove : CallMove s.natives b answer pc ns b' progress) (hnatives : s'.natives = ns)
    (hblocks : s'.blocks = s.blocks.set p b') (hobjects : s'.objects = s.objects)
    (howner : s'.owner = s.owner.resume progress) : Kept s' := by
  have hattended := hs.attended
  have hself := set_self hb
  have hhandle := handle_eq hb
  have hleft := left_of_call hcall
  have hlive := live_congr hobjects
  cases hmove with
  | @hop _ pc' hhop =>
      have hsame := hblocks.trans hself
      obtain ⟨hstays, hleaves⟩ := hhop.leaving
      rw [hstays, if_neg Bool.false_ne_true] at hleft
      have hleft' := left_of_call (call?_resume hcall pc')
      refine ⟨hs.tracked.frame haimed hnatives (by rw [hsame]) fun q h => ?_,
        hs.owned.quiet hsep hlive (handle_congr hsame),
        hattended.goesOn haimed hsep hcall hsame hobjects howner hhop.not_enter⟩
      rw [handle_congr hsame, howner, hleft, hleft']
      split
      · next hleaving =>
          have hnone : s.handle p = none := by
            rcases hleaves hleaving with hjoinable | ⟨hlast, hdead⟩
            · rw [hhandle, nativeHandle_of_not_joinable hjoinable]
            · have htries : pc.tries = false := by cases pc <;> first | rfl | cases hlast
              have hfails := fails_of_call hcall htries (by rw [hdead]; decide)
              have hspared := (spares_of_fails hok hcall hfails).1
              exact absurd (hlast.symm.trans hspared) (by decide)
          exact (void_iff (s := s) hnone (Or.inr rfl)).trans (void_iff hnone (Or.inl rfl)).symm
      · exact Iff.rfl
  | @refused m e hfirst =>
      have hsame := hblocks.trans hself
      have hleft' := left_of_no_call (call?_resume_ended hcall (.threw e))
      rw [← howner] at hleft'
      refine ⟨hs.tracked.quiet haimed hnatives (by rw [hsame]) (handle_congr hsame)
          (hleft'.trans hleft.symm),
        hs.owned.quiet hsep hlive (handle_congr hsame),
        hattended.ends haimed hsep hcall hobjects howner fun i after hclean => ?_⟩
      obtain ⟨-, hticket, hdispatch⟩ := hattended.cleaning i p _ after hclean
      have hjoinable : b.threadState = .joinable := by
        by_contra hno
        exact hticket (by rw [hhandle, nativeHandle_of_not_joinable hno])
      rw [hdispatch m rfl b hb] at hfirst
      exact absurd hfirst (firstSection_dispatch hjoinable e)
  | @fails _ e hpc htries hres =>
      have hsame := hblocks.trans hself
      have hspared := (spares_of_fails hok hcall (fails_of_call hcall htries hres)).2
      rw [hpc, if_neg Bool.false_ne_true] at hleft
      have hleft' := left_of_no_call (call?_resume_ended hcall (.threw e))
      rw [← howner] at hleft'
      exact ⟨hs.tracked.quiet haimed hnatives (by rw [hsame]) (handle_congr hsame)
          (hleft'.trans hleft.symm),
        hs.owned.quiet hsep hlive (handle_congr hsame),
        hattended.ends haimed hsep hcall hobjects howner
          fun i after hclean => absurd hclean (hspared i after)⟩
  | joins hpc hpc' hn hover hres =>
      refine hs.releases haimed hsep hcall hpc hpc' hn hnatives rfl ?_ (hblocks.trans hself)
        hobjects howner
      simp only [Native.releases]
      omega
  | @detaches h hres =>
      obtain ⟨n, hn, -⟩ := (hs.tracked.ticket p h (hattended.target p _ h hcall rfl)).1
      rw [modify_eq_set_of_getElem? hn] at hnatives
      exact hs.releases haimed hsep hcall rfl rfl hn hnatives rfl rfl (hblocks.trans hself)
        hobjects howner
  | @leaves _ st x hpc hst =>
      rw [hpc, if_pos rfl] at hleft
      have hleft' := left_of_no_call (call?_resume_ended hcall x)
      rw [← howner] at hleft'
      have hothers := handle_leaves hb hblocks hst
      have hgone : s'.handle p = none := by
        rw [handle_set hb hblocks, if_pos rfl, nativeHandle_of_not_joinable hst]
      refine ⟨hs.tracked.frame haimed hnatives (by simp [hblocks]) fun q h => ?_,
        hs.owned.frame hsep (fun q h hq => ((hothers q h).mp hq).2) fun q hq _ => ?_,
        hattended.ends haimed hsep hcall hobjects howner fun _ _ _ => hgone⟩
      · rw [hothers, hleft, hleft', and_comm (a := p ≠ q), and_assoc]
        refine and_congr_right fun _ => ⟨fun hpq => ?_, fun hpq => ?_⟩
        · exact fun heq => hpq.1 (Option.some.inj heq)
        · exact ⟨fun heq => hpq (by rw [heq]), fun h => by cases h⟩
      · rwa [hlive]

theorem left_of_idle {s : State} {last : Outcome} (h : s.owner = .idle last) :
    s.owner.left = none := left_of_no_call (by rw [h]; rfl)

theorem Kept.begins {s s' : State} (hs : Kept s) (haimed : Aimed s') (hsep : Separate s')
    (hleft : s.owner.left = none) (hblocks : s'.blocks = s.blocks)
    (hnatives : s'.natives = s.natives) (hobjects : s'.objects = s.objects)
    (hleft' : s'.owner.left = none) (hattended : Attended s') : Kept s' := by
  have hhandle := handle_congr hblocks
  have hlive := live_congr hobjects
  exact ⟨hs.tracked.quiet haimed hnatives (by rw [hblocks]) hhandle (by rw [hleft, hleft']),
    hs.owned.quiet hsep hlive hhandle, hattended⟩

theorem Attended.inCleanup {s : State} {i : Nat} {after : After} (haimed : Aimed s)
    (hsep : Separate s) (howner : s.owner = .cleanup i after) : Attended s := by
  refine .outside haimed hsep (by rw [howner]; rfl) fun _ _ h => ?_
  rw [howner] at h
  cases h

theorem Kept.ends {s s' : State} {h : Nat} {n n' : Native} (hs : Kept s)
    (haimed : Aimed s') (hsep : Separate s') (hn : s.natives[h]? = some n)
    (hnatives : s'.natives = s.natives.set h n')
    (hproperty : n'.property = n.property) (hreleases : n'.releases = n.releases)
    (hblocks : s'.blocks.length = s.blocks.length) (hhandle : s'.handle = s.handle)
    (haction : ∀ (p : Nat) b', s'.blocks[p]? = some b' →
      ∃ b, s.blocks[p]? = some b ∧ b'.dtorAction = b.dtorAction)
    (hobjects : s'.objects = s.objects) (howner : s'.owner = s.owner) : Kept s' := by
  have hlive := live_congr hobjects
  have hsame := property_congr hobjects
  refine ⟨hs.tracked.run haimed hn hnatives hproperty hreleases hblocks hhandle howner,
    hs.owned.quiet hsep hlive hhandle, haimed.target, haimed.signals, ?_, ?_, hsep.object⟩
  · rw [howner, hhandle, hsame]
    intro i p pc after hclean
    obtain ⟨hi, hticket, hdispatch⟩ := hs.attended.cleaning i p pc after hclean
    refine ⟨hi, hticket, fun m hm b' hb' => ?_⟩
    obtain ⟨b, hb, hkeeps⟩ := haction p b' hb'
    rw [hkeeps]
    exact hdispatch m hm b hb
  · rw [howner, hhandle, hsame]
    exact hs.attended.leaving

theorem Move.kept {s s' : State} {a : Action} (hs : Kept s) (haimed : Aimed s')
    (hsep : Separate s') (hok : s.spoils a = false) (h : Move s a s') : Kept s' := by
  cases h with
  | constructs hidle =>
      exact ⟨hs.tracked.quiet haimed rfl (by simp [State.alloc]) (handle_alloc _ _)
          (left_of_idle hidle).symm,
        hs.owned.alloc hsep (live_construct s), .idle haimed hsep rfl⟩
  | startFails _ hidle | assignsSelf hidle =>
      exact hs.begins haimed hsep (left_of_idle hidle) rfl rfl rfl rfl (.idle haimed hsep rfl)
  | @starts _ i p _ dtorAction attr b hidle hi hb _ hover =>
      have hlt := (List.getElem?_eq_some_iff.mp hb).1
      have hnone := (handle_eq hb).trans (nativeHandle_of_not_joinable hover.1)
      have hset := handle_starts hb (t := { s with
        blocks := s.blocks.set p (started b s.natives.length dtorAction)
        natives := s.natives ++ [{ property := p, created := attr }]
        owner := .idle .returned }) rfl
      refine ⟨hs.tracked.start haimed hlt hnone rfl rfl rfl (by simp) hset
          (left_of_idle hidle) rfl,
        ⟨hsep.inRange, hsep.distinct, fun q h hq => ?_⟩, .idle haimed hsep rfl⟩
      rw [hset] at hq
      split at hq
      · next hpq => exact hpq ▸ mem_live hi
      · exact hs.owned.ticket q h hq
  | calls m hidle hi =>
      exact hs.begins haimed hsep (left_of_idle hidle) rfl rfl rfl rfl
        (.enters haimed hsep rfl fun _ _ _ h => by cases h)
  | moveConstructs hidle hj =>
      exact ⟨hs.tracked.quiet haimed rfl (by simp [State.alloc]) (handle_alloc _ _)
          (left_of_idle hidle).symm,
        hs.owned.alloc hsep (live_moveConstruct hj), .idle haimed hsep rfl⟩
  | assigns hidle | destroys hidle =>
      exact hs.begins haimed hsep (left_of_idle hidle) rfl rfl rfl rfl
        (.inCleanup haimed hsep rfl)
  | swaps hidle hi hj =>
      exact ⟨hs.tracked.quiet haimed rfl (Nat.le_refl _) rfl (left_of_idle hidle).symm,
        hs.owned.quiet hsep (live_swap hi hj) rfl, .idle haimed hsep rfl⟩
  | callMoves hcall hb hmove =>
      exact hs.callMoves haimed hsep hok hcall hb hmove rfl rfl rfl rfl
  | @nothingToClean _ i p after b howner hi hb hstate =>
      refine hs.begins haimed hsep (by rw [howner]; rfl) rfl rfl rfl rfl
        (.outside haimed hsep rfl ?_)
      rintro _ _ ⟨⟩ q hq
      have hpq := Option.some.inj (hi.symm.trans hq)
      exact hpq ▸ (handle_eq hb).trans (nativeHandle_of_not_joinable hstate)
  | @cleans _ i p after b howner hi hb hstate =>
      refine hs.begins haimed hsep (by rw [howner]; rfl) rfl rfl rfl rfl
        (.enters haimed hsep rfl ?_)
      rintro _ _ _ ⟨⟩
      refine ⟨hi, fun hnone => ?_, fun b' hb' => ?_⟩
      · have hsome := (handle_eq hb).trans (nativeHandle_of_joinable hstate)
        exact absurd (hsome.symm.trans hnone) (by simp)
      · rw [Option.some.inj (hb.symm.trans hb')]
  | @destroyed _ i howner =>
      obtain ⟨⟨p, hi⟩, -⟩ := hs.attended.object i _ (by rw [howner]; rfl)
      have hgone := hs.attended.leaving i _ howner p hi
      exact ⟨hs.tracked.quiet haimed rfl (Nat.le_refl _) rfl (by rw [howner]; rfl),
        hs.owned.frame hsep (fun _ _ h => h) (mem_of_dropped (live_destroy hi) hgone),
        .idle haimed hsep rfl⟩
  | @assigned _ i j p howner hj =>
      obtain ⟨⟨q, hi⟩, hne⟩ := hs.attended.object i _ (by rw [howner]; rfl)
      have hgone := hs.attended.leaving i _ howner q hi
      have hlt := (List.getElem?_eq_some_iff.mp (property_eq hi)).1
      have hhandle := handle_alloc s ((s.objects.set i (some p)).set j (some s.blocks.length))
      have hrest := mem_of_dropped (live_destroy hi) hgone
      refine ⟨hs.tracked.quiet haimed rfl (by simp [State.alloc]) hhandle
          (by rw [howner]; rfl),
        hs.owned.frame hsep (fun r h hr => ?_) fun r hr hticket => ?_, .idle haimed hsep rfl⟩
      · rwa [hhandle] at hr
      · show r ∈ gather id ((s.objects.set i (some p)).set j (some s.blocks.length))
        rw [live_assign (hne j rfl) hlt hj]
        exact Multiset.mem_cons_of_mem (hrest r hr hticket)
  | finishes hn =>
      refine hs.ends haimed hsep hn rfl rfl rfl ?_ (handle_finish rfl) (fun p b' hb' => ?_)
        rfl rfl
      · dsimp only
        split <;> simp
      · dsimp only at hb'
        split at hb'
        · exact ⟨b', hb', rfl⟩
        · rw [List.getElem?_modify] at hb'
          obtain ⟨b, hb, rfl⟩ := Option.map_eq_some_iff.mp hb'
          refine ⟨b, hb, ?_⟩
          split <;> rfl
  | unwinds hn =>
      exact hs.ends haimed hsep hn rfl rfl rfl rfl rfl (fun p b hb => ⟨b, hb, rfl⟩) rfl rfl

/-! ## All runs -/

theorem kept_at_init : Kept threads.init := by
  have hr : threads.Reachable threads.init := .refl
  have hinit := aimed_of_reachable hr
  have hsep := separate_of_reachable hr
  refine ⟨⟨fun _ _ h => ?_, hinit.ticket, fun _ _ h => ?_⟩,
    ⟨hsep.inRange, hsep.distinct, fun _ _ h => ?_⟩, .idle hinit hsep rfl⟩
  · cases h
  · cases h
  · cases h

theorem kept_of_spared {s : State}
    (hr : threads.ReachableWhen (fun s a => s.spoils a = false) s) : Kept s :=
  hr.invariant kept_at_init fun _ _ _ hr hs hok hstep =>
    have hr' := hr.reachable.step trivial hstep
    (step_cases hstep).kept hs (aimed_of_reachable hr') (separate_of_reachable hr') hok

theorem kept_of_succeeds {s : State} (hr : threads.ReachableWhen Succeeds s) : Kept s :=
  kept_of_spared <| hr.mono fun s a hok => by rw [State.spoils, hok.1, Bool.false_and]

/-- Between operations a thread has been released unless its block is its
ticket. -/
theorem Kept.released_iff {s : State} (hs : Kept s) {last : Outcome}
    (hidle : s.owner = .idle last) {h : Nat} {n : Native} (hn : s.natives[h]? = some n) :
    n.releases = 0 ↔ s.handle n.property = some h := by
  have hcount := hs.tracked.releases h n hn
  rw [left_of_idle hidle] at hcount
  rw [hcount]
  constructor
  · intro hzero
    split at hzero
    · next hticket => exact hticket.1
    · cases hzero
  · intro hticket
    rw [if_pos ⟨hticket, fun h => by cases h⟩]

theorem Kept.joinable_iff {s : State} (hs : Kept s) {last : Outcome}
    (hidle : s.owner = .idle last) {p : Nat} {b : ThreadProperty}
    (hb : s.blocks[p]? = some b) :
    b.threadState = .joinable ↔
      ∃ h n, s.Last p h ∧ s.natives[h]? = some n ∧ n.joins = 0 ∧ n.detaches = 0 := by
  constructor
  · intro hjoinable
    have hticket := (handle_eq hb).trans (nativeHandle_of_joinable hjoinable)
    have hlast := hs.tracked.ticket p b.threadHandle hticket
    obtain ⟨n, hn, hnp⟩ := hlast.1
    have hzero := (hs.released_iff hidle hn).mpr (by rw [hnp]; exact hticket)
    rw [Native.releases] at hzero
    exact ⟨_, n, hlast, hn, by omega, by omega⟩
  · rintro ⟨h, n, ⟨⟨m, hm, hmp⟩, -⟩, hn, hjoins, hdetaches⟩
    have hticket :=
      (hs.released_iff hidle hn).mp (by rw [Native.releases, hjoins, hdetaches])
    rw [← Option.some.inj (hm.symm.trans hn), hmp, handle_eq hb] at hticket
    by_contra hno
    rw [nativeHandle_of_not_joinable hno] at hticket
    cases hticket

/-- No thread is released twice. Between operations every `Thread` has a block
of its own, a block is `JOINABLE` exactly if the last thread created for it
has been neither joined nor detached, and a thread has been released if its
block has gone with its `Thread` or has been started anew. -/
theorem threads_released_once {s : State} (hr : threads.ReachableWhen Succeeds s) :
    (∀ (h : Nat) n, s.natives[h]? = some n → n.joins + n.detaches ≤ 1) ∧
    ∀ last, s.owner = .idle last →
      (∀ i j p, s.property i = some p → s.property j = some p → i = j) ∧
      (∀ (p : Nat) b, s.blocks[p]? = some b → (b.threadState = .joinable ↔
        ∃ h n, s.Last p h ∧ s.natives[h]? = some n ∧ n.joins = 0 ∧ n.detaches = 0)) ∧
      ∀ (h : Nat) n, s.natives[h]? = some n →
        (∀ i, s.property i ≠ some n.property) ∨ ¬s.Last n.property h →
          n.joins + n.detaches = 1 := by
  have hs := kept_of_succeeds hr
  have hle : ∀ (h : Nat) n, s.natives[h]? = some n →
      n.joins + n.detaches ≤ 1 := fun h n hn => by
    have hcount := hs.tracked.releases h n hn
    rw [Native.releases] at hcount
    split at hcount <;> omega
  refine ⟨hle, fun last hidle => ⟨fun i j p => (separate_of_reachable hr.reachable).inj,
    fun p b => hs.joinable_iff hidle, fun h n hn hgone => ?_⟩⟩
  have hnot : s.handle n.property ≠ some h := fun hticket => by
    rcases hgone with hdropped | hold
    · obtain ⟨i, hi⟩ := property_of_mem (hs.owned.ticket _ h hticket)
      exact hdropped i hi
    · exact hold (hs.tracked.ticket _ h hticket)
  have hone := mt (hs.released_iff hidle hn).mp hnot
  have hmost := hle h n hn
  rw [Native.releases] at hone
  omega

/-- Two threads are started, their `Thread`s are swapped, one is overwritten
and joins, the other is destroyed and cancels. -/
theorem threads_released_once_run : ∃ s : State, s.objects = [none, some 2] ∧
    s.natives.length = 2 ∧
      ∀ (h : Nat) n, s.natives[h]? = some n → n.joins + n.detaches = 1 := by
  obtain ⟨s, hr, hobjects, hidle, hlen, hblocks⟩ := exists_of_runWhen threads Succeeds
    ([.op .construct, starts 0 .cancel, .op .construct, starts 1 .join, .op (.swap 0 1),
      .unwinds 0, .finishes 1, .op (.moveAssign 0 1)] ++ proceeds 5 ++
      .op (.destroy 0) :: proceeds 7)
    (fun s => s.objects = [none, some 2] ∧ s.owner = .idle .returned ∧ s.natives.length = 2 ∧
      ∀ n ∈ s.natives, n.property < 2)
    (by decide +kernel)
  refine ⟨s, hobjects, hlen, fun h n hn => ?_⟩
  refine ((threads_released_once hr).2 _ hidle).2.2 h n hn (Or.inl fun i hi => ?_)
  have hsmall := hblocks n (List.mem_of_getElem? hn)
  rw [State.property, hobjects] at hi
  rcases i with _ | _ | i
  · cases hi
  · have hown : 2 = n.property := Option.some.inj hi
    omega
  · cases hi

end ThreadPool.Pthread
