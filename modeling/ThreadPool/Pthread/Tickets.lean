import ThreadPool.Pthread.Moves

/-!
# Tickets

A `JOINABLE` block is the ticket of the last thread created for it. That is
so whatever the calls answer, and so is that a call acts on the thread its
block is the ticket of, that nobody but the `Detach` about to say so knows a
ticket of a thread which has been detached, and that objects have blocks of
their own.
-/

namespace ThreadPool.Pthread

open Interleave Machine

/-! ## Tickets -/

/-- The thread that block `p` says may be joined. -/
def State.handle (s : State) (p : Nat) : Option Nat :=
  s.blocks[p]?.bind ThreadProperty.nativeHandle

theorem handle_eq {s : State} {p : Nat} {b : ThreadProperty}
    (hb : s.blocks[p]? = some b) :
    s.handle p = b.nativeHandle := by
  rw [State.handle, hb]
  rfl

theorem handle_congr {s s' : State} (hblocks : s'.blocks = s.blocks) :
    s'.handle = s.handle := by
  funext p
  rw [State.handle, State.handle, hblocks]

theorem nativeHandle_of_not_joinable {b : ThreadProperty}
    (h : b.threadState ≠ .joinable) :
    b.nativeHandle = none := if_neg h

theorem nativeHandle_of_joinable {b : ThreadProperty} (h : b.threadState = .joinable) :
    b.nativeHandle = some b.threadHandle := if_pos h

theorem handle_set {s t : State} {p : Nat} {b b' : ThreadProperty}
    (hb : s.blocks[p]? = some b) (hblocks : t.blocks = s.blocks.set p b') (q : Nat) :
    t.handle q = if p = q then b'.nativeHandle else s.handle q := by
  obtain ⟨hlt, -⟩ := List.getElem?_eq_some_iff.mp hb
  rw [State.handle, State.handle, hblocks, List.getElem?_set]
  by_cases hpq : p = q
  · rw [if_pos hpq, if_pos hpq, if_pos hlt]
    rfl
  · rw [if_neg hpq, if_neg hpq]

theorem handle_starts {s t : State} {p k : Nat} {b : ThreadProperty}
    {dtorAction : DtorAction} (hb : s.blocks[p]? = some b)
    (hblocks : t.blocks = s.blocks.set p (started b k dtorAction)) (q : Nat) :
    t.handle q = if p = q then some k else s.handle q :=
  handle_set hb hblocks q

theorem handle_leaves {s t : State} {p : Nat} {b b' : ThreadProperty}
    (hb : s.blocks[p]? = some b) (hblocks : t.blocks = s.blocks.set p b')
    (hst : b'.threadState ≠ .joinable) (q h : Nat) :
    t.handle q = some h ↔ p ≠ q ∧ s.handle q = some h := by
  rw [handle_set hb hblocks, nativeHandle_of_not_joinable hst]
  split
  · next hpq => exact ⟨fun h => (by cases h), fun h => absurd hpq h.1⟩
  · next hpq => exact (and_iff_right hpq).symm

theorem handle_set_same {s s' : State} {p : Nat} {b b' : ThreadProperty}
    (hb : s.blocks[p]? = some b) (hblocks : s'.blocks = s.blocks.set p b')
    (hsame : b'.nativeHandle = b.nativeHandle) : s'.handle = s.handle := by
  funext q
  rw [handle_set hb hblocks q]
  split
  · next hpq => rw [hsame, ← hpq, handle_eq hb]
  · rfl

theorem handle_alloc (s : State) (objects : List (Option Nat)) :
    (s.alloc objects).handle = s.handle := by
  funext q
  rw [State.handle, State.handle, State.alloc, List.getElem?_append]
  split
  · rfl
  · next hge =>
      rw [List.getElem?_eq_none (Nat.not_lt.mp hge)]
      cases q - s.blocks.length <;> rfl

theorem threadEntry_nativeHandle (b : ThreadProperty) :
    b.threadEntry.nativeHandle = b.nativeHandle := by
  unfold ThreadProperty.threadEntry ThreadProperty.nativeHandle
  cases b.threadState <;> rfl

theorem handle_finish {s s' : State} {p : Nat}
    (hblocks : s'.blocks =
      if s.expired p then s.blocks else s.blocks.modify p ThreadProperty.threadEntry) :
    s'.handle = s.handle := by
  split at hblocks
  · funext q
    rw [State.handle, State.handle, hblocks]
  · cases hb : s.blocks[p]? with
    | none =>
        funext q
        rw [State.handle, State.handle, hblocks, List.getElem?_modify]
        split
        · next hpq => rw [← hpq, hb]; rfl
        · simp
    | some b =>
        rw [modify_eq_set_of_getElem? hb] at hblocks
        exact handle_set_same hb hblocks (threadEntry_nativeHandle b)

/-! ## What a call knows -/

theorem firstSection_target {b : ThreadProperty} {m : Method} {h k : Nat}
    (hfirst : m.firstSection b = .ok h) (htarget : (m.next h).target = some k) :
    b.nativeHandle = some k := by
  cases m with
  | join =>
      cases htarget
      rw [Method.firstSection, ThreadProperty.joinEnter] at hfirst
      split at hfirst
      · cases hfirst
      · next hjoinable =>
          split at hfirst
          · cases hfirst
          · cases hfirst
            exact if_pos (not_not.mp hjoinable)
  | detach =>
      cases htarget
      rw [Method.firstSection, ThreadProperty.detachEnter] at hfirst
      split at hfirst
      · cases hfirst
      · next hjoinable =>
          cases hfirst
          exact if_pos (not_not.mp hjoinable)
  | cancel | terminate => cases htarget

theorem firstSection_signals {b : ThreadProperty} {m : Method} {h k : Nat}
    (hfirst : m.firstSection b = .ok h) (hsignals : (m.next h).signals = some k) :
    b.nativeHandle = some k ∨ b.nativeHandle = none := by
  have hhandle : h = k → b.threadHandle = h →
      b.nativeHandle = some k ∨ b.nativeHandle = none :=
    fun hk hh => by
      rw [← hk, ← hh, ThreadProperty.nativeHandle]
      split
      · exact Or.inl rfl
      · exact Or.inr rfl
  cases m with
  | join | detach => cases hsignals
  | cancel =>
      rw [Method.firstSection, ThreadProperty.cancelEnter] at hfirst
      split at hfirst
      · cases hfirst
      · exact hhandle (Option.some.inj hsignals) (Except.ok.inj hfirst)
  | terminate =>
      rw [Method.firstSection, ThreadProperty.terminateEnter] at hfirst
      split at hfirst
      · cases hfirst
      · exact hhandle (Option.some.inj hsignals) (Except.ok.inj hfirst)

theorem CallHop.knows {b : ThreadProperty} {answer : Answer} {pc pc' : CallPc}
    (h : CallHop b answer pc pc')
    (htarget : ∀ k, pc.target = some k → b.nativeHandle = some k)
    (hsignals : ∀ k, pc.signals = some k → b.nativeHandle = some k ∨ b.nativeHandle = none) :
    (∀ k, pc'.target = some k → b.nativeHandle = some k) ∧
      ∀ k, pc'.signals = some k → b.nativeHandle = some k ∨ b.nativeHandle = none := by
  have hmay : ∀ {h : Nat}, b.threadState = .joinable → b.nativeHandle = some h ∨
      b.nativeHandle = none → b.nativeHandle = some h := fun {h} hjoinable hor => by
    rw [nativeHandle_of_joinable hjoinable] at hor ⊢
    exact hor.resolve_right fun h => by cases h
  cases h with
  | enters hfirst =>
      exact ⟨fun k => firstSection_target hfirst, fun k => firstSection_signals hfirst⟩
  | cancels | kills => exact ⟨fun k hk => (by cases hk), hsignals⟩
  | mayCancelJoin hjoinable | mayTryJoin hjoinable =>
      refine ⟨fun k hk => ?_, fun k hk => by cases hk⟩
      cases hk
      exact hmay hjoinable (hsignals _ rfl)
  | cancelsDetached | killsDetached | dead =>
      exact ⟨fun k hk => (by cases hk), fun k hk => by cases hk⟩
  | busy | givesUp => exact ⟨htarget, fun k hk => by cases hk⟩

theorem CallPc.knows_of_leaving {pc : CallPc} (h : pc.leaving = true) :
    pc.target = none ∧ pc.signals = none ∧ ∀ m, pc ≠ .enter m := by
  cases pc with
  | joinLeave | detachLeave | cancelLeave | terminateLeave | terminateDead _ =>
      exact ⟨rfl, rfl, fun _ h => by cases h⟩
  | _ => cases h

/-- What a ticket is for, and what a call knows of it. -/
structure Aimed (s : State) : Prop where
  ticket : ∀ p h, s.handle p = some h → s.Last p h
  target : ∀ p pc h, s.owner.call? = some (p, pc) → pc.target = some h → s.handle p = some h
  signals : ∀ p pc h, s.owner.call? = some (p, pc) → pc.signals = some h →
    s.handle p = some h ∨ s.handle p = none
  detached : ∀ p h n, s.handle p = some h → s.natives[h]? = some n →
    n.detaches = 0 ∨ s.owner.call? = some (p, .detachLeave)

section Aimed

variable {s s' : State} {p h : Nat} {pc : CallPc}

theorem Aimed.property (hs : Aimed s) (hp : s.handle p = some h) {n : Native}
    (hn : s.natives[h]? = some n) : n.property = p := by
  obtain ⟨m, hm, hmp⟩ := (hs.ticket p h hp).1
  rwa [Option.some.inj (hn.symm.trans hm)]

theorem Aimed.undetached (hs : Aimed s)
    (hno : ∀ p, s.owner.call? ≠ some (p, .detachLeave)) (hp : s.handle p = some h)
    {n : Native} (hn : s.natives[h]? = some n) : n.detaches = 0 :=
  (hs.detached p h n hp hn).resolve_right (hno p)

theorem Aimed.outside (hticket : ∀ p h, s.handle p = some h → s.Last p h)
    (hdetached : ∀ p h n, s.handle p = some h → s.natives[h]? = some n → n.detaches = 0)
    (hcall : ∀ p pc, s.owner.call? = some (p, pc) → ∃ m, pc = .enter m) : Aimed s := by
  refine ⟨hticket, fun p pc h hc hpc => ?_, fun p pc h hc hpc => ?_,
    fun p h n hp hn => Or.inl (hdetached p h n hp hn)⟩
  · obtain ⟨m, rfl⟩ := hcall p pc hc
    cases hpc
  · obtain ⟨m, rfl⟩ := hcall p pc hc
    cases hpc

theorem Aimed.quiet (hs : Aimed s) (hbefore : s.owner.call? = none)
    (hnatives : s'.natives = s.natives) (hhandle : s'.handle = s.handle)
    (hcall : ∀ p pc, s'.owner.call? = some (p, pc) → ∃ m, pc = .enter m) : Aimed s' := by
  refine .outside (fun p h hp => ?_) (fun p h n hp hn => ?_) hcall
  · rw [hhandle] at hp
    exact (last_congr (by rw [hnatives]) p h).mpr (hs.ticket p h hp)
  · rw [hhandle] at hp
    rw [hnatives] at hn
    exact hs.undetached (fun q hq => by rw [hbefore] at hq; cases hq) hp hn

theorem Aimed.starts {n : Native} (hs : Aimed s) (hbefore : s.owner.call? = none)
    (hnatives : s'.natives = s.natives ++ [n]) (hproperty : n.property = p)
    (hdetaches : n.detaches = 0)
    (hhandle : ∀ q, s'.handle q = if p = q then some s.natives.length else s.handle q)
    (hafter : s'.owner.call? = none) : Aimed s' := by
  refine .outside (fun q h hq => ?_) (fun q h m hq hm => ?_) fun q pc hc => ?_
  · rw [hhandle] at hq
    rw [last_append hnatives, hproperty]
    split at hq
    · next hpq =>
        rw [if_pos hpq]
        exact (Option.some.inj hq).symm
    · next hpq =>
        rw [if_neg hpq]
        exact hs.ticket q h hq
  · rw [hnatives] at hm
    rcases getElem?_concat_cases hm with ⟨rfl, rfl⟩ | ⟨hlt, hm⟩
    · exact hdetaches
    · rw [hhandle] at hq
      split at hq
      · exact absurd (Option.some.inj hq) hlt.ne'
      · exact hs.undetached (fun r hr => by rw [hbefore] at hr; cases hr) hq hm
  · rw [hafter] at hc
    cases hc

theorem Aimed.put {n n' : Native} (hs : Aimed s) (hn : s.natives[h]? = some n)
    (hnatives : s'.natives = s.natives.set h n') (hproperty : n'.property = n.property)
    (hdetaches : n'.detaches = n.detaches) (hhandle : s'.handle = s.handle)
    (howner : s'.owner = s.owner) : Aimed s' := by
  refine ⟨fun q k hq => ?_, ?_, ?_, fun q k m hq hm => ?_⟩
  · rw [hhandle] at hq
    exact (last_set hn hnatives hproperty q k).mpr (hs.ticket q k hq)
  · rw [howner, hhandle]
    exact hs.target
  · rw [howner, hhandle]
    exact hs.signals
  · rw [hhandle] at hq
    rw [howner]
    rw [hnatives] at hm
    rcases getElem?_set_cases hm with ⟨rfl, rfl⟩ | ⟨-, hm⟩
    · rw [hdetaches]
      exact hs.detached q _ n hq hn
    · exact hs.detached q k m hq hm

theorem Aimed.resumes {progress : Progress} (hs : Aimed s)
    (hcall : s.owner.call? = some (p, pc)) (howner : s'.owner = s.owner.resume progress)
    (hsame : s'.natives.map Native.property = s.natives.map Native.property)
    (hhandle : ∀ q k, s'.handle q = some k → s.handle q = some k)
    (hdetached : ∀ q k n, s'.handle q = some k → s'.natives[k]? = some n →
      n.detaches = 0 ∨ q = p ∧ progress = .at .detachLeave)
    (hknows : ∀ pc', progress = .at pc' →
      (∀ k, pc'.target = some k → s'.handle p = some k) ∧
        ∀ k, pc'.signals = some k → s'.handle p = some k ∨ s'.handle p = none) :
    Aimed s' := by
  have hat : ∀ q pc', s'.owner.call? = some (q, pc') → q = p ∧ progress = .at pc' := by
    intro q pc' hc
    rw [howner] at hc
    cases progress with
    | «at» pc'' =>
        rw [call?_resume hcall, Option.some.injEq, Prod.mk.injEq] at hc
        exact ⟨hc.1.symm, by rw [hc.2]⟩
    | ended x =>
        rw [call?_resume_ended hcall] at hc
        cases hc
  refine ⟨fun q k hq => ?_, fun q pc' k hc hpc => ?_, fun q pc' k hc hpc => ?_,
    fun q k n hq hn => ?_⟩
  · exact (last_congr hsame q k).mpr (hs.ticket q k (hhandle q k hq))
  · obtain ⟨rfl, hprogress⟩ := hat q pc' hc
    exact (hknows pc' hprogress).1 k hpc
  · obtain ⟨rfl, hprogress⟩ := hat q pc' hc
    exact (hknows pc' hprogress).2 k hpc
  · refine (hdetached q k n hq hn).imp_right ?_
    rintro ⟨rfl, rfl⟩
    rw [howner, call?_resume hcall]

end Aimed

theorem Aimed.callMoves {s : State} {answer : Answer} {p : Nat} {pc : CallPc}
    {b b' : ThreadProperty} {ns : List Native} {progress : Progress} (hs : Aimed s)
    (hcall : s.owner.call? = some (p, pc)) (hb : s.blocks[p]? = some b)
    (hmove : CallMove s.natives b answer pc ns b' progress) :
    Aimed { s with
      natives := ns
      blocks := s.blocks.set p b'
      owner := s.owner.resume progress } := by
  have hself := set_self hb
  have hhandle := handle_eq hb
  have hundetached : pc ≠ .detachLeave → ∀ q k n, s.handle q = some k →
      s.natives[k]? = some n → n.detaches = 0 := fun hpc q k n hq hn =>
    hs.undetached (fun r hr => hpc (Prod.mk.inj (Option.some.inj (hcall.symm.trans hr))).2)
      hq hn
  have hstill : pc.leaving = false → pc ≠ .detachLeave := fun hpc h => by
    rw [h] at hpc
    cases hpc
  cases hmove with
  | hop hhop =>
      have hknows := hhop.knows
        (fun k hk => by rw [← hhandle]; exact hs.target p pc k hcall hk)
        (fun k hk => by rw [← hhandle]; exact hs.signals p pc k hcall hk)
      rw [← hhandle] at hknows
      rw [hself]
      refine hs.resumes hcall rfl rfl (fun _ _ hq => hq) (fun q k n hq hn => ?_) ?_
      · exact Or.inl (hundetached (hstill hhop.leaving.1) q k n hq hn)
      · rintro _ ⟨⟩
        exact hknows
  | refused =>
      rw [hself]
      refine hs.resumes hcall rfl rfl (fun _ _ hq => hq) (fun q k n hq hn => ?_) ?_
      · exact Or.inl (hundetached (fun h => by cases h) q k n hq hn)
      · exact fun _ h => by cases h
  | fails hpc =>
      rw [hself]
      refine hs.resumes hcall rfl rfl (fun _ _ hq => hq) (fun q k n hq hn => ?_) ?_
      · exact Or.inl (hundetached (hstill hpc) q k n hq hn)
      · exact fun _ h => by cases h
  | @joins _ pc' h n hpc hpc' hn =>
      have hzero := hundetached (hstill (CallPc.not_leaving_of_target hpc))
      obtain ⟨htarget, hsignals, -⟩ := CallPc.knows_of_leaving hpc'
      rw [hself]
      refine hs.resumes hcall rfl (map_set_same hn rfl) (fun _ _ hq => hq)
        (fun q k m hq hm => ?_) ?_
      · rcases getElem?_set_cases hm with ⟨rfl, rfl⟩ | ⟨-, hm⟩
        · exact Or.inl (hzero q _ n hq hn)
        · exact Or.inl (hzero q k m hq hm)
      · rintro _ ⟨⟩
        rw [htarget, hsignals]
        exact ⟨fun _ h => (by cases h), fun _ h => by cases h⟩
  | @detaches h =>
      have hp : s.handle p = some h := hs.target p _ h hcall rfl
      obtain ⟨n, hn, -⟩ := (hs.ticket p h hp).1
      rw [hself, modify_eq_set_of_getElem? hn]
      refine hs.resumes hcall rfl (map_set_same hn rfl) (fun _ _ hq => hq)
        (fun q k m hq hm => ?_) ?_
      · rcases getElem?_set_cases hm with ⟨rfl, rfl⟩ | ⟨-, hm⟩
        · exact Or.inr ⟨(hs.property hq hn).symm.trans (hs.property hp hn), rfl⟩
        · exact Or.inl (hundetached (fun h => by cases h) q k m hq hm)
      · rintro _ ⟨⟩
        exact ⟨fun _ h => (by cases h), fun _ h => by cases h⟩
  | @leaves _ st x hpc hst =>
      have hothers := handle_leaves hb (t := { s with
        blocks := s.blocks.set p { b with threadState := st }
        owner := s.owner.resume (.ended x) }) rfl hst
      refine hs.resumes hcall rfl rfl (fun q k hq => ((hothers q k).mp hq).2)
        (fun q k n hq hn => ?_) ?_
      · obtain ⟨hpq, hq⟩ := (hothers q k).mp hq
        refine Or.inl ((hs.detached q k n hq hn).resolve_right fun hc => hpq ?_)
        exact (Prod.mk.inj (Option.some.inj (hcall.symm.trans hc))).1
      · exact fun _ h => by cases h

theorem Move.aimed {s s' : State} {a : Action} (hs : Aimed s) (h : Move s a s') :
    Aimed s' := by
  have hidle : ∀ {last : Outcome}, s.owner = .idle last → s.owner.call? = none :=
    fun howner => by rw [howner]; rfl
  cases h with
  | constructs howner | moveConstructs howner =>
      exact hs.quiet (hidle howner) rfl (handle_alloc _ _) fun _ _ h => by cases h
  | startFails _ howner | assignsSelf howner | assigns howner | swaps howner
  | destroys howner =>
      exact hs.quiet (hidle howner) rfl rfl fun _ _ h => by cases h
  | @starts _ i p _ dtorAction attr b howner hi hb =>
      exact hs.starts (hidle howner) rfl rfl rfl (handle_starts hb rfl) rfl
  | calls m howner hi =>
      refine hs.quiet (hidle howner) rfl rfl fun q pc h => ?_
      cases h
      exact ⟨m, rfl⟩
  | callMoves hcall hb hmove => exact hs.callMoves hcall hb hmove
  | nothingToClean howner | destroyed howner =>
      exact hs.quiet (by rw [howner]; rfl) rfl rfl fun _ _ h => by cases h
  | cleans howner =>
      refine hs.quiet (by rw [howner]; rfl) rfl rfl fun q pc h => ?_
      cases h
      exact ⟨_, rfl⟩
  | assigned howner =>
      exact hs.quiet (by rw [howner]; rfl) rfl (handle_alloc _ _) fun _ _ h => by cases h
  | finishes hn => exact hs.put hn rfl rfl rfl (handle_finish rfl) rfl
  | unwinds hn => exact hs.put hn rfl rfl rfl rfl rfl

theorem aimed_of_reachable {s : State} (hr : threads.Reachable s) : Aimed s :=
  hr.invariant (.outside (fun _ _ h => by cases h) (fun _ _ _ h => by cases h)
      fun _ _ h => by cases h)
    fun _ _ _ _ hs hstep => (step_cases hstep).aimed hs

/-! ## Objects -/

/-- The blocks that objects have, counted with multiplicity. -/
def State.live (s : State) : Multiset Nat := gather id s.objects

theorem live_congr {s s' : State} (hobjects : s'.objects = s.objects) :
    s'.live = s.live := by
  rw [State.live, State.live, hobjects]

theorem property_of_mem {s : State} {p : Nat} (hp : p ∈ s.live) :
    ∃ i, s.property i = some p := by
  obtain ⟨x, hx, rfl⟩ := mem_gather.mp hp
  exact mem_objects.mp hx

theorem mem_live {s : State} {i p : Nat} (hi : s.property i = some p) : p ∈ s.live :=
  mem_gather.mpr ⟨some p, mem_objects.mpr ⟨i, hi⟩, rfl⟩

theorem live_construct (s : State) :
    gather id (s.objects ++ [some s.blocks.length]) = s.blocks.length ::ₘ s.live := by
  rw [gather_append, ← Multiset.singleton_add, add_comm]
  rfl

theorem live_moveConstruct {s : State} {j p : Nat} (hj : s.property j = some p) :
    gather id (s.objects.set j (some s.blocks.length) ++ [some p]) =
      s.blocks.length ::ₘ s.live := by
  have hset := gather_set_add (f := id) (b := some s.blocks.length) (property_eq hj)
  rw [gather_append, ← Multiset.singleton_add, add_comm ({s.blocks.length} : Multiset Nat)]
  exact hset

theorem live_swap {s : State} {i j p q : Nat} (hi : s.property i = some p)
    (hj : s.property j = some q) :
    gather id ((s.objects.set i (some q)).set j (some p)) = s.live := by
  have hboth : (s.objects.set i (some q))[j]? = some (some q) := by
    rw [List.getElem?_set]
    split
    · next hij => rw [if_pos (List.getElem?_eq_some_iff.mp (property_eq hi)).1]
    · exact property_eq hj
  have hfirst := gather_set_add (f := id) (b := some q) (property_eq hi)
  have hsecond := gather_set_add (f := id) (b := some p) hboth
  exact add_right_cancel (hsecond.trans hfirst)

theorem live_destroy {s : State} {i p : Nat} (hi : s.property i = some p) :
    s.live = p ::ₘ gather id (s.objects.set i none) :=
  gather_set_lose id (property_eq hi) rfl rfl

theorem live_assign {s : State} {i j p : Nat} (hij : i ≠ j) (hi : i < s.objects.length)
    (hj : s.property j = some p) :
    gather id ((s.objects.set i (some p)).set j (some s.blocks.length)) =
      s.blocks.length ::ₘ gather id (s.objects.set i none) := by
  have hgain := gather_set_gain id (l := s.objects.set i none) (i := i) (b := some p)
    (List.getElem?_set_self hi) rfl rfl
  rw [List.set_set] at hgain
  have hother : (s.objects.set i (some p))[j]? = some (some p) := by
    rw [List.getElem?_set_ne hij]
    exact property_eq hj
  have hset := gather_set_add (f := id) (b := some s.blocks.length) hother
  rw [hgain, ← Multiset.singleton_add] at hset
  rw [← Multiset.singleton_add]
  refine add_right_cancel (hset.trans ?_)
  simp only [id, shown]
  abel

/-- The object the owner cleans up, and what for. -/
def Owner.object? : Owner → Option (Nat × After)
  | .cleanup i after | .cleaning i _ _ after | .leaving i after => some (i, after)
  | _ => none

theorem object?_resume {o : Owner} {p : Nat} {pc : CallPc} (h : o.call? = some (p, pc))
    (progress : Progress) : (o.resume progress).object? = o.object? := by
  cases o <;> cases progress <;> cases h <;> rfl

/-- Objects have blocks of their own, and the object that is cleaned up is
there, and is not the one it is assigned from. -/
structure Separate (s : State) : Prop where
  inRange : ∀ p ∈ s.live, p < s.blocks.length
  distinct : s.live.Nodup
  object : ∀ i after, s.owner.object? = some (i, after) →
    (∃ p, s.property i = some p) ∧ ∀ j, after = .assigned j → i ≠ j

theorem Separate.inj {s : State} (hs : Separate s) {i j p : Nat}
    (hi : s.property i = some p) (hj : s.property j = some p) : i = j :=
  eq_of_shown hs.distinct (property_eq hi) (property_eq hj) rfl rfl

theorem Separate.frame {s s' : State} (hs : Separate s) (hlive : s'.live = s.live)
    (hblocks : s'.blocks.length = s.blocks.length)
    (hobject : ∀ i after, s'.owner.object? = some (i, after) →
      (∃ p, s'.property i = some p) ∧ ∀ j, after = .assigned j → i ≠ j) : Separate s' := by
  refine ⟨?_, ?_, hobject⟩
  · rw [hlive, hblocks]
    exact hs.inRange
  · rw [hlive]
    exact hs.distinct

theorem Separate.alloc {s : State} {live : Multiset Nat} {objects : List (Option Nat)}
    (hs : Separate s) (hsub : live ≤ s.live)
    (hlive : gather id objects = s.blocks.length ::ₘ live) :
    Separate (s.alloc objects) := by
  have hlive' : (s.alloc objects).live = s.blocks.length ::ₘ live := hlive
  have hrange : ∀ p ∈ live, p < s.blocks.length :=
    fun p hp => hs.inRange p (Multiset.mem_of_le hsub hp)
  refine ⟨fun p hp => ?_, ?_, fun i after h => by cases h⟩
  · rw [hlive', Multiset.mem_cons] at hp
    rw [State.alloc, List.length_append]
    rcases hp with rfl | hp
    · exact Nat.lt_succ_self _
    · exact Nat.lt_succ_of_lt (hrange p hp)
  · rw [hlive', Multiset.nodup_cons]
    exact ⟨fun hmem => Nat.lt_irrefl _ (hrange _ hmem), Multiset.nodup_of_le hsub hs.distinct⟩

theorem Move.separate {s s' : State} {a : Action} (hs : Separate s) (h : Move s a s') :
    Separate s' := by
  cases h with
  | constructs => exact hs.alloc le_rfl (live_construct s)
  | moveConstructs hidle hj => exact hs.alloc le_rfl (live_moveConstruct hj)
  | startFails | assignsSelf | calls =>
      exact hs.frame rfl rfl fun _ _ h => by cases h
  | starts => exact hs.frame rfl (by simp) fun _ _ h => by cases h
  | assigns hidle hi hj hij =>
      refine hs.frame rfl rfl fun k after h => ?_
      cases h
      refine ⟨⟨_, hi⟩, fun l hl => ?_⟩
      cases hl
      exact hij
  | swaps hidle hi hj => exact hs.frame (live_swap hi hj) rfl fun _ _ h => by cases h
  | destroys hidle hi =>
      refine hs.frame rfl rfl fun k after h => ?_
      cases h
      exact ⟨⟨_, hi⟩, fun l hl => by cases hl⟩
  | callMoves hcall hb hmove =>
      refine hs.frame rfl (by simp) fun i after h => ?_
      rw [object?_resume hcall] at h
      exact hs.object i after h
  | nothingToClean howner | cleans howner =>
      refine hs.frame rfl rfl fun i after h => ?_
      cases h
      exact hs.object _ _ (by rw [howner]; rfl)
  | @destroyed _ i howner =>
      obtain ⟨⟨p, hi⟩, -⟩ := hs.object i _ (by rw [howner]; rfl)
      have hle : gather id (s.objects.set i none) ≤ s.live := by
        rw [live_destroy hi]
        exact Multiset.le_cons_self _ _
      exact ⟨fun q hq => hs.inRange q (Multiset.mem_of_le hle hq),
        Multiset.nodup_of_le hle hs.distinct, fun _ _ h => by cases h⟩
  | @assigned _ i j p howner hj =>
      obtain ⟨⟨q, hi⟩, hne⟩ := hs.object i _ (by rw [howner]; rfl)
      have hlt := (List.getElem?_eq_some_iff.mp (property_eq hi)).1
      have hle : gather id (s.objects.set i none) ≤ s.live := by
        rw [live_destroy hi]
        exact Multiset.le_cons_self _ _
      exact hs.alloc hle (live_assign (hne j rfl) hlt hj)
  | finishes =>
      refine hs.frame rfl ?_ hs.object
      dsimp only
      split
      · rfl
      · exact List.length_modify _ _ _
  | unwinds => exact hs.frame rfl rfl hs.object

theorem separate_of_reachable {s : State} (hr : threads.Reachable s) : Separate s :=
  hr.invariant ⟨fun p hp => absurd hp (Multiset.notMem_zero p), Multiset.nodup_zero,
      fun _ _ h => by cases h⟩
    fun _ _ _ _ hs hstep => (step_cases hstep).separate hs

end ThreadPool.Pthread
