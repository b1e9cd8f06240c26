import ThreadPool.Lib.Census
import ThreadPool.Pthread.Lifecycle

/-!
# What a step of the owner does

A call on a block does one of four things to the world: it joins its thread,
it detaches it, it stores a state in the block, or it goes on without having
touched anything. `CallMove` says which, from where, and what the call goes
on with. The invariants of the machine are stated over what a block shows of
its thread (`State.handle`), which nobody changes who is not starting a
thread or leaving a call.
-/

namespace ThreadPool.Pthread

open Interleave

/-! ## What a call does -/

/-- The thread the call is about to join or to detach. -/
def CallPc.target : CallPc → Option Nat
  | .joining h | .detaching h | .cancelJoining h | .tryJoining h _ | .terminateJoining h =>
      some h
  | _ => none

/-- The thread the call is about to signal, or has signalled, without having
looked whether it may be joined. -/
def CallPc.signals : CallPc → Option Nat
  | .cancelling h | .cancelRead h | .killing h | .terminateRead h => some h
  | _ => none

/-- About to store the state the call ends in. -/
def CallPc.leaving : CallPc → Bool
  | .joinLeave | .detachLeave | .cancelLeave | .terminateLeave | .terminateDead _ =>
      true
  | _ => false

/-- In the loop around `pthread_tryjoin_np`, which no answer leaves by an
exception. -/
def CallPc.tries : CallPc → Bool
  | .tryJoining _ _ => true
  | _ => false

/-- A step that touches neither thread nor block. -/
inductive CallHop (b : ThreadProperty) (answer : Answer) : CallPc → CallPc → Prop where
  | enters {m : Method} {h : Nat} (hfirst : m.firstSection b = .ok h) :
      CallHop b answer (.enter m) (m.next h)
  | cancels {h : Nat} (hres : answer.res = 0) :
      CallHop b answer (.cancelling h) (.cancelRead h)
  | kills {h : Nat} (hres : answer.res = 0) :
      CallHop b answer (.killing h) (.terminateRead h)
  | mayCancelJoin {h : Nat} (hjoinable : b.threadState = .joinable) :
      CallHop b answer (.cancelRead h) (.cancelJoining h)
  | cancelsDetached {h : Nat} (hjoinable : b.threadState ≠ .joinable) :
      CallHop b answer (.cancelRead h) .cancelLeave
  | mayTryJoin {h : Nat} (hjoinable : b.threadState = .joinable) :
      CallHop b answer (.terminateRead h) (.tryJoining h 0)
  | killsDetached {h : Nat} (hjoinable : b.threadState ≠ .joinable) :
      CallHop b answer (.terminateRead h) .terminateLeave
  | busy {h i : Nat} (hi : i < maxRetries) (hres : answer.res = EBUSY) :
      CallHop b answer (.tryJoining h i) (.tryJoining h (i + 1))
  | givesUp {h i : Nat} (hres : i < maxRetries → answer.res ≠ 0 ∧ answer.res ≠ EBUSY) :
      CallHop b answer (.tryJoining h i) (.terminateJoining h)
  | dead {h : Nat} (hres : answer.res = ESRCH) :
      CallHop b answer (.terminateJoining h) (.terminateDead answer.strerror)

/-- Before the last join of `Terminate`, which takes `ESRCH` for the end of the
thread. -/
def CallPc.lastJoin : CallPc → Bool
  | .terminateJoining _ => true
  | _ => false

/-- A call comes to its end through a release, or past a block that is not
`JOINABLE`, or because the last join of `Terminate` knows no such thread. -/
theorem CallHop.leaving {b : ThreadProperty} {answer : Answer} {pc pc' : CallPc}
    (h : CallHop b answer pc pc') :
    pc.leaving = false ∧ (pc'.leaving = true →
      b.threadState ≠ .joinable ∨ pc.lastJoin = true ∧ answer.res = ESRCH) := by
  cases h with
  | @enters m => exact ⟨rfl, fun h => by cases m <;> cases h⟩
  | cancelsDetached hjoinable | killsDetached hjoinable =>
      exact ⟨rfl, fun _ => Or.inl hjoinable⟩
  | dead hres => exact ⟨rfl, fun _ => Or.inr ⟨rfl, hres⟩⟩
  | _ => exact ⟨rfl, fun h => by cases h⟩

theorem CallPc.not_leaving_of_target {pc : CallPc} {h : Nat} (hpc : pc.target = some h) :
    pc.leaving = false := by
  cases pc <;> first | rfl | cases hpc

/-- Everything a step of a call can do. -/
inductive CallMove (ns : List Native) (b : ThreadProperty) (answer : Answer) :
    CallPc → List Native → ThreadProperty → Progress → Prop where
  | hop {pc pc' : CallPc} (hhop : CallHop b answer pc pc') :
      CallMove ns b answer pc ns b (.at pc')
  | refused {m : Method} {e : Exn} (hfirst : m.firstSection b = .error e) :
      CallMove ns b answer (.enter m) ns b (.ended (.threw e))
  | fails {pc : CallPc} {e : Exn} (hpc : pc.leaving = false) (htries : pc.tries = false)
      (hres : answer.res ≠ 0) : CallMove ns b answer pc ns b (.ended (.threw e))
  | joins {pc pc' : CallPc} {h : Nat} {n : Native} (hpc : pc.target = some h)
      (hpc' : pc'.leaving = true) (hn : ns[h]? = some n) (hover : n.run ≠ .running)
      (hres : answer.res = 0) :
      CallMove ns b answer pc (ns.set h { n with joins := n.joins + 1 }) b (.at pc')
  | detaches {h : Nat} (hres : answer.res = 0) :
      CallMove ns b answer (.detaching h)
        (ns.modify h fun n => { n with detaches := n.detaches + 1 }) b (.at .detachLeave)
  | leaves {pc : CallPc} {st : ThreadState} {o : Outcome} (hpc : pc.leaving = true)
      (hst : st ≠ .joinable)
      (hdetach : pc = .detachLeave → st = if b.isComplete then .terminated else .detached) :
      CallMove ns b answer pc ns { b with threadState := st } (.ended o)

theorem answered_cases (answer : Answer) (pc : CallPc) (what : String) :
    answer.res = 0 ∧ answered answer pc what = .at pc ∨
      answer.res ≠ 0 ∧ ∃ e, answered answer pc what = .ended (.threw e) := by
  unfold answered
  by_cases hres : answer.res = 0
  · exact Or.inl ⟨hres, if_neg (not_not_intro hres)⟩
  · exact Or.inr ⟨hres, _, if_pos hres⟩

theorem pthreadJoin_cases {ns ns' : List Native} {h : Nat} {answer : Answer}
    (hjoin : pthreadJoin ns h answer = some ns') :
    (answer.res ≠ 0 ∧ ns' = ns) ∨ answer.res = 0 ∧ ∃ n, ns[h]? = some n ∧
      n.run ≠ .running ∧ ns' = ns.set h { n with joins := n.joins + 1 } := by
  unfold pthreadJoin at hjoin
  split at hjoin
  · next hres =>
      split at hjoin
      · cases hjoin
      · next n hn =>
          split at hjoin
          · cases hjoin
          · next hover =>
              rw [Option.some.injEq] at hjoin
              exact Or.inr ⟨hres, n, hn, hover, hjoin.symm⟩
  · next hres =>
      rw [Option.some.injEq] at hjoin
      exact Or.inl ⟨hres, hjoin.symm⟩

theorem pthreadTryjoin_cases {ns ns' : List Native} {h : Nat} {answer : Answer}
    (hjoin : pthreadTryjoin ns h answer = some ns') :
    (answer.res = EBUSY ∧ ns' = ns) ∨ (answer.res ≠ 0 ∧ answer.res ≠ EBUSY ∧ ns' = ns) ∨
      answer.res = 0 ∧ ∃ n, ns[h]? = some n ∧
        n.run ≠ .running ∧ ns' = ns.set h { n with joins := n.joins + 1 } := by
  unfold pthreadTryjoin at hjoin
  split at hjoin
  · next hbusy =>
      split at hjoin
      · cases hjoin
      · split at hjoin
        · rw [Option.some.injEq] at hjoin
          exact Or.inl ⟨hbusy, hjoin.symm⟩
        · cases hjoin
  · next hbusy =>
      rcases pthreadJoin_cases hjoin with ⟨hres, hsame⟩ | hjoined
      · exact Or.inr (Or.inl ⟨hres, hbusy, hsame⟩)
      · exact Or.inr (Or.inr hjoined)

theorem join_cases {ns : List Native} {b : ThreadProperty} {answer : Answer}
    {pc pc' : CallPc} {h : Nat} {what : String}
    {r : List Native × ThreadProperty × Progress} (hpc : pc.target = some h)
    (htries : pc.tries = false) (hpc' : pc'.leaving = true)
    (hstep : ((pthreadJoin ns h answer).map
      fun ns => (ns, b, answered answer pc' what)) = some r) :
    CallMove ns b answer pc r.1 r.2.1 r.2.2 := by
  obtain ⟨ns', hjoin, rfl⟩ := Option.map_eq_some_iff.mp hstep
  have hstays := CallPc.not_leaving_of_target hpc
  rcases answered_cases answer pc' what with ⟨hres, hnext⟩ | ⟨hres, e, hnext⟩ <;>
    rcases pthreadJoin_cases hjoin with ⟨hne, rfl⟩ | ⟨heq, n, hn, hover, rfl⟩
  · exact absurd hres hne
  · simp only [hnext]
    exact .joins hpc hpc' hn hover hres
  · simp only [hnext]
    exact .fails hstays htries hres
  · exact absurd heq hres

theorem callStep_cases {ns : List Native} {b : ThreadProperty} {answer : Answer}
    {pc : CallPc} {r : List Native × ThreadProperty × Progress}
    (h : callStep ns b answer pc = some r) :
    CallMove ns b answer pc r.1 r.2.1 r.2.2 := by
  cases pc with
  | enter m =>
      rw [callStep, Option.some.injEq] at h
      subst h
      cases hfirst : m.firstSection b with
      | error e => exact .refused hfirst
      | ok handle => exact .hop (.enters hfirst)
  | joining handle | cancelJoining handle => exact join_cases rfl rfl rfl h
  | joinLeave | cancelLeave | terminateLeave | terminateDead strerror =>
      rw [callStep, Option.some.injEq] at h
      subst h
      exact .leaves rfl (fun h => by cases h) (fun h => by cases h)
  | detachLeave =>
      rw [callStep, Option.some.injEq] at h
      subst h
      refine .leaves rfl ?_ fun _ => rfl
      split <;> exact fun h => by cases h
  | detaching handle =>
      rw [callStep, Option.some.injEq] at h
      subst h
      rcases answered_cases answer .detachLeave "pthread_detach failed: " with
        ⟨hres, hnext⟩ | ⟨hres, e, hnext⟩
      · simp only [hnext, pthreadDetach, if_pos hres]
        exact .detaches hres
      · simp only [hnext, pthreadDetach, if_neg hres]
        exact .fails rfl rfl hres
  | cancelling handle =>
      rw [callStep, Option.some.injEq] at h
      subst h
      rcases answered_cases answer (.cancelRead handle) "pthread_cancel failed: " with
        ⟨hres, hnext⟩ | ⟨hres, e, hnext⟩
      · simp only [hnext]
        exact .hop (.cancels hres)
      · simp only [hnext]
        exact .fails rfl rfl hres
  | killing handle =>
      rw [callStep, Option.some.injEq] at h
      subst h
      split
      · next hdead => exact .fails rfl rfl (by rw [hdead]; decide)
      · rcases answered_cases answer (.terminateRead handle)
          "pthread_kill (SIGTERM) failed: " with ⟨hres, hnext⟩ | ⟨hres, e, hnext⟩
        · simp only [hnext]
          exact .hop (.kills hres)
        · simp only [hnext]
          exact .fails rfl rfl hres
  | cancelRead handle =>
      rw [callStep, Option.some.injEq] at h
      subst h
      split
      · next hjoinable => exact .hop (.mayCancelJoin hjoinable)
      · next hjoinable => exact .hop (.cancelsDetached hjoinable)
  | terminateRead handle =>
      rw [callStep, Option.some.injEq] at h
      subst h
      split
      · next hjoinable => exact .hop (.mayTryJoin hjoinable)
      · next hjoinable => exact .hop (.killsDetached hjoinable)
  | tryJoining handle i =>
      rw [callStep] at h
      split at h
      · next hi =>
          obtain ⟨ns', hjoin, rfl⟩ := Option.map_eq_some_iff.mp h
          rcases pthreadTryjoin_cases hjoin with ⟨hbusy, rfl⟩ | ⟨hres, hbusy, rfl⟩ |
            ⟨hres, n, hn, hover, rfl⟩
          · simp only [hbusy, show (EBUSY = 0) = False by decide, if_false, ne_eq,
              not_true_eq_false]
            exact .hop (.busy hi hbusy)
          · simp only [hres, if_false, ne_eq, hbusy, not_false_eq_true, if_true]
            exact .hop (.givesUp fun _ => ⟨hres, hbusy⟩)
          · simp only [hres, if_true]
            exact .joins rfl rfl hn hover hres
      · next hi =>
          rw [Option.some.injEq] at h
          subst h
          exact .hop (.givesUp fun hlt => absurd hlt hi)
  | terminateJoining handle =>
      rw [callStep] at h
      by_cases hdead : answer.res = ESRCH
      · simp only [if_pos hdead] at h
        obtain ⟨ns', hjoin, rfl⟩ := Option.map_eq_some_iff.mp h
        have hne : answer.res ≠ 0 := by rw [hdead]; decide
        rcases pthreadJoin_cases hjoin with ⟨-, rfl⟩ | ⟨heq, -⟩
        · exact .hop (.dead hdead)
        · exact absurd heq hne
      · simp only [if_neg hdead] at h
        exact join_cases rfl rfl rfl h

/-! ## What the owner and the threads do -/

/-- The call the owner is in, and its block. -/
def Owner.call? : Owner → Option (Nat × CallPc)
  | .calling p pc | .cleaning _ p pc _ => some (p, pc)
  | _ => none

/-- The owner, its call having come to `progress`. -/
def Owner.resume : Owner → Progress → Owner
  | .calling p _, .at pc => .calling p pc
  | .calling _ _, .ended o => .idle o
  | .cleaning i p _ after, .at pc => .cleaning i p pc after
  | .cleaning i _ _ after, .ended _ => .leaving i after
  | o, _ => o

theorem call?_resume {o : Owner} {p : Nat} {pc : CallPc} (h : o.call? = some (p, pc))
    (pc' : CallPc) : (o.resume (.at pc')).call? = some (p, pc') := by
  cases o <;> cases h <;> rfl

theorem call?_resume_ended {o : Owner} {p : Nat} {pc : CallPc}
    (h : o.call? = some (p, pc)) (x : Outcome) :
    (o.resume (.ended x)).call? = none := by
  cases o <;> cases h <;> rfl

theorem cleaning_of_resume {o : Owner} {p p' i : Nat} {pc pc' : CallPc} {after : After}
    {progress : Progress} (h : o.call? = some (p, pc))
    (hresume : o.resume progress = .cleaning i p' pc' after) :
    o = .cleaning i p pc after ∧ p' = p ∧ progress = .at pc' := by
  cases o <;> cases progress <;> cases h <;> cases hresume
  exact ⟨rfl, rfl, rfl⟩

theorem leaving_of_resume {o : Owner} {p i : Nat} {pc : CallPc} {after : After}
    {progress : Progress} (h : o.call? = some (p, pc))
    (hresume : o.resume progress = .leaving i after) :
    o = .cleaning i p pc after ∧ ∃ x, progress = .ended x := by
  cases o <;> cases progress <;> cases h <;> cases hresume
  exact ⟨rfl, _, rfl⟩

/-- A block just started. -/
def started (b : ThreadProperty) (handle : Nat) (dtorAction : DtorAction) : ThreadProperty :=
  { b with threadHandle := handle, threadState := .joinable, dtorAction := dtorAction }

/-- A state with a fresh block behind the others. -/
def State.alloc (s : State) (objects : List (Option Nat)) : State :=
  { s with blocks := s.blocks ++ [{}], objects := objects, owner := .idle .returned }

/-- Everything one step can do. -/
inductive Move (s : State) : Action → State → Prop where
  | constructs {last : Outcome} (hidle : s.owner = .idle last) :
      Move s (.op .construct) (s.alloc (s.objects ++ [some s.blocks.length]))
  | startFails {last : Outcome} {i p : Nat} {creates : Creates} {dtorAction : DtorAction}
      {attr : DetachState} {b : ThreadProperty} (e : Exn) (hidle : s.owner = .idle last)
      (hi : s.property i = some p) (hb : s.blocks[p]? = some b)
      (hfails : creates.avail = 0 ∨ b.threadState = .joinable ∨ b.threadState = .detached) :
      Move s (.op (.start i creates dtorAction attr)) { s with owner := .idle (.threw e) }
  | starts {last : Outcome} {i p : Nat} {creates : Creates} {dtorAction : DtorAction}
      {attr : DetachState} {b : ThreadProperty} (hidle : s.owner = .idle last)
      (hi : s.property i = some p) (hb : s.blocks[p]? = some b) (havail : creates.avail ≠ 0)
      (hover : b.threadState ≠ .joinable ∧ b.threadState ≠ .detached) :
      Move s (.op (.start i creates dtorAction attr))
        { s with
          blocks := s.blocks.set p (started b s.natives.length dtorAction)
          natives := s.natives ++ [{ property := p, created := attr }]
          owner := .idle .returned }
  | calls {last : Outcome} {i p : Nat} (m : Method) (hidle : s.owner = .idle last)
      (hi : s.property i = some p) :
      Move s (.op (.call i m)) { s with owner := .calling p (.enter m) }
  | moveConstructs {last : Outcome} {j p : Nat} (hidle : s.owner = .idle last)
      (hj : s.property j = some p) :
      Move s (.op (.moveConstruct j))
        (s.alloc (s.objects.set j (some s.blocks.length) ++ [some p]))
  | assignsSelf {last : Outcome} {i : Nat} (hidle : s.owner = .idle last) :
      Move s (.op (.moveAssign i i)) { s with owner := .idle .returned }
  | assigns {last : Outcome} {i j p q : Nat} (hidle : s.owner = .idle last)
      (hi : s.property i = some p) (hj : s.property j = some q) (hij : i ≠ j) :
      Move s (.op (.moveAssign i j)) { s with owner := .cleanup i (.assigned j) }
  | swaps {last : Outcome} {i j p q : Nat} (hidle : s.owner = .idle last)
      (hi : s.property i = some p) (hj : s.property j = some q) :
      Move s (.op (.swap i j))
        { s with
          objects := (s.objects.set i (some q)).set j (some p)
          owner := .idle .returned }
  | destroys {last : Outcome} {i p : Nat} (hidle : s.owner = .idle last)
      (hi : s.property i = some p) :
      Move s (.op (.destroy i)) { s with owner := .cleanup i .destroyed }
  | callMoves {answer : Answer} {p : Nat} {pc : CallPc} {b b' : ThreadProperty}
      {ns : List Native} {progress : Progress} (hcall : s.owner.call? = some (p, pc))
      (hb : s.blocks[p]? = some b) (hmove : CallMove s.natives b answer pc ns b' progress) :
      Move s (.owner answer)
        { s with
          natives := ns
          blocks := s.blocks.set p b'
          owner := s.owner.resume progress }
  | nothingToClean {answer : Answer} {i p : Nat} {after : After} {b : ThreadProperty}
      (howner : s.owner = .cleanup i after) (hi : s.property i = some p)
      (hb : s.blocks[p]? = some b) (hstate : b.threadState ≠ .joinable) :
      Move s (.owner answer) { s with owner := .leaving i after }
  | cleans {answer : Answer} {i p : Nat} {after : After} {b : ThreadProperty}
      (howner : s.owner = .cleanup i after) (hi : s.property i = some p)
      (hb : s.blocks[p]? = some b) (hstate : b.threadState = .joinable) :
      Move s (.owner answer)
        { s with owner := .cleaning i p (.enter (dispatch b.dtorAction)) after }
  | destroyed {answer : Answer} {i : Nat} (howner : s.owner = .leaving i .destroyed) :
      Move s (.owner answer)
        { s with objects := s.objects.set i none, owner := .idle .returned }
  | assigned {answer : Answer} {i j p : Nat} (howner : s.owner = .leaving i (.assigned j))
      (hj : s.property j = some p) :
      Move s (.owner answer)
        (s.alloc ((s.objects.set i (some p)).set j (some s.blocks.length)))
  | finishes {h : Nat} {n : Native} (hn : s.natives[h]? = some n) (hrun : n.run = .running) :
      Move s (.finishes h)
        { s with
          natives := s.natives.set h { n with run := .finished }
          blocks :=
            if s.expired n.property then s.blocks
            else s.blocks.modify n.property ThreadProperty.threadEntry }
  | unwinds {h : Nat} {n : Native} (hn : s.natives[h]? = some n) (hrun : n.run = .running) :
      Move s (.unwinds h) { s with natives := s.natives.set h { n with run := .unwound } }

/-! ## Reading the step function -/

theorem start_cases {b b' : ThreadProperty} {creates : Creates} {handle : Nat}
    {dtorAction : DtorAction}
    (h : b.start (creates.pthreadCreate handle) dtorAction = .ok b') :
    creates.avail ≠ 0 ∧ (b.threadState ≠ .joinable ∧ b.threadState ≠ .detached) ∧
      b' = started b handle dtorAction := by
  by_cases havail : creates.avail = 0
  · rw [Creates.pthreadCreate, if_pos havail, ThreadProperty.start] at h
    split at h <;> cases h
  · refine ⟨havail, ?_, ?_⟩
    · constructor <;> intro hstate <;> simp only [ThreadProperty.start, hstate] at h <;>
        cases h
    · rw [Creates.pthreadCreate, if_neg havail, ThreadProperty.start] at h
      split at h
      · cases h
      · cases h
      · exact (Except.ok.inj h).symm
      · exact (Except.ok.inj h).symm

theorem start_fails_cases {b : ThreadProperty} {creates : Creates} {handle : Nat}
    {dtorAction : DtorAction} {e : Exn}
    (h : b.start (creates.pthreadCreate handle) dtorAction = .error e) :
    creates.avail = 0 ∨ b.threadState = .joinable ∨ b.threadState = .detached := by
  by_cases havail : creates.avail = 0
  · exact Or.inl havail
  · rw [Creates.pthreadCreate, if_neg havail, ThreadProperty.start] at h
    split at h
    · next hjoinable => exact Or.inr (Or.inl hjoinable)
    · next hdetached => exact Or.inr (Or.inr hdetached)
    · cases h
    · cases h

/-- Where a creation would have succeeded, a `Start` fails because the block
is `JOINABLE` or `DETACHED`. -/
theorem detached_of_fails {s : State} {i p : Nat} {creates : Creates} {b : ThreadProperty}
    (hi : s.property i = some p) (hb : s.blocks[p]? = some b)
    (hfails : creates.avail = 0 ∨ b.threadState = .joinable ∨ b.threadState = .detached)
    (havail : creates.avail ≠ 0) :
    ∀ q ∈ s.property i, ∀ c ∈ s.blocks[q]?, c.threadState ≠ .joinable →
      c.threadState = .detached := by
  intro q hq c hc hjoinable
  rw [Option.mem_def, hi, Option.some.injEq] at hq
  rw [Option.mem_def, ← hq, hb, Option.some.injEq] at hc
  rw [hc] at hfails
  exact (hfails.resolve_left havail).resolve_left hjoinable

theorem operate_cases {s s' : State} {o : Op} {last : Outcome}
    (hidle : s.owner = .idle last) (h : operate s o = some s') : Move s (.op o) s' := by
  cases o with
  | construct =>
      rw [operate, Option.some.injEq] at h
      subst h
      exact .constructs hidle
  | start i creates dtorAction attr =>
      rw [operate] at h
      split at h
      · cases h
      · next p hi =>
          split at h
          · cases h
          · next b hb =>
              split at h
              · next e hstart =>
                  rw [Option.some.injEq] at h
                  subst h
                  exact .startFails e hidle hi hb (start_fails_cases hstart)
              · next b' hstart =>
                  rw [Option.some.injEq] at h
                  subst h
                  obtain ⟨havail, hover, rfl⟩ := start_cases hstart
                  exact .starts hidle hi hb havail hover
  | call i m =>
      obtain ⟨p, hi, rfl⟩ := Option.map_eq_some_iff.mp h
      exact .calls m hidle hi
  | moveConstruct j =>
      obtain ⟨p, hj, rfl⟩ := Option.map_eq_some_iff.mp h
      exact .moveConstructs hidle hj
  | moveAssign i j =>
      rw [operate] at h
      split at h
      · next p q hi hj =>
          rw [Option.some.injEq] at h
          subst h
          split
          · next hij =>
              subst hij
              exact .assignsSelf hidle
          · next hij => exact .assigns hidle hi hj hij
      · cases h
  | swap i j =>
      rw [operate] at h
      split at h
      · next p q hi hj =>
          rw [Option.some.injEq] at h
          subst h
          exact .swaps hidle hi hj
      · cases h
  | destroy i =>
      obtain ⟨p, hi, rfl⟩ := Option.map_eq_some_iff.mp h
      exact .destroys hidle hi

theorem advance_cases {s t : State} {p : Nat} {pc : CallPc} {answer : Answer}
    {progress : Progress} (h : advance s p pc answer = some (t, progress)) :
    ∃ b ns b', s.blocks[p]? = some b ∧ CallMove s.natives b answer pc ns b' progress ∧
      t = { s with natives := ns, blocks := s.blocks.set p b' } := by
  unfold advance at h
  split at h
  · cases h
  · next b hb =>
      obtain ⟨⟨ns, b', progress'⟩, hstep, heq⟩ := Option.map_eq_some_iff.mp h
      cases heq
      exact ⟨b, ns, b', hb, callStep_cases hstep, rfl⟩

theorem cleanup_cases (b : ThreadProperty) :
    b.threadState ≠ .joinable ∧ b.cleanup = none ∨
      b.threadState = .joinable ∧ b.cleanup = some b.dtorAction := by
  unfold ThreadProperty.cleanup
  cases b.threadState <;> simp

theorem ownerStep_cases {s s' : State} {answer : Answer}
    (h : ownerStep s answer = some s') :
    Move s (.owner answer) s' := by
  unfold ownerStep at h
  split at h
  · cases h
  · next p pc howner =>
      obtain ⟨⟨t, progress⟩, hadvance, rfl⟩ := Option.map_eq_some_iff.mp h
      obtain ⟨b, ns, b', hb, hmove, rfl⟩ := advance_cases hadvance
      have hcall := Move.callMoves (s := s) (by rw [howner]; rfl) hb hmove
      rw [howner] at hcall
      cases progress <;> exact hcall
  · next i after howner =>
      split at h
      · cases h
      · next p hi =>
          split at h
          · cases h
          · next b hb =>
              rw [Option.some.injEq] at h
              subst h
              rcases cleanup_cases b with ⟨hstate, hclean⟩ | ⟨hstate, hclean⟩
              · simp only [hclean]
                exact .nothingToClean howner hi hb hstate
              · simp only [hclean]
                exact .cleans howner hi hb hstate
  · next i p pc after howner =>
      obtain ⟨⟨t, progress⟩, hadvance, rfl⟩ := Option.map_eq_some_iff.mp h
      obtain ⟨b, ns, b', hb, hmove, rfl⟩ := advance_cases hadvance
      have hcall := Move.callMoves (s := s) (by rw [howner]; rfl) hb hmove
      rw [howner] at hcall
      cases progress <;> exact hcall
  · next i howner =>
      rw [Option.some.injEq] at h
      subst h
      exact .destroyed howner
  · next i j howner =>
      split at h
      · cases h
      · next p hj =>
          rw [Option.some.injEq] at h
          subst h
          exact .assigned howner hj

/-- What a step of the machine is. -/
theorem step_cases {s s' : State} {a : Action} (h : step s a = some s') :
    Move s a s' := by
  cases a with
  | op o =>
      simp only [step] at h
      split at h
      · next last hidle => exact operate_cases hidle h
      · cases h
  | owner answer => exact ownerStep_cases h
  | finishes handle =>
      simp only [step, finishStep] at h
      split at h
      · cases h
      · next n hn =>
          split at h
          · next hrun =>
              rw [Option.some.injEq] at h
              subst h
              exact .finishes hn hrun
          · cases h
  | unwinds handle =>
      simp only [step, unwindStep] at h
      split at h
      · cases h
      · next n hn =>
          split at h
          · next hrun =>
              rw [Option.some.injEq] at h
              subst h
              exact .unwinds hn hrun
          · cases h

theorem Move.call {s s' : State} {answer : Answer} {p : Nat} {pc : CallPc}
    (hcall : s.owner.call? = some (p, pc)) (h : Move s (.owner answer) s') :
    ∃ b ns b' progress, s.blocks[p]? = some b ∧
      CallMove s.natives b answer pc ns b' progress ∧
      s' = { s with
        natives := ns
        blocks := s.blocks.set p b'
        owner := s.owner.resume progress } := by
  cases h with
  | callMoves hcall' hb hmove =>
      obtain ⟨rfl, rfl⟩ := Prod.mk.inj (Option.some.inj (hcall.symm.trans hcall'))
      exact ⟨_, _, _, _, hb, hmove, rfl⟩
  | nothingToClean howner | cleans howner | destroyed howner | assigned howner =>
      rw [howner] at hcall
      cases hcall

/-! ## Objects and their blocks -/

theorem property_congr {s s' : State} (hobjects : s'.objects = s.objects) :
    s'.property = s.property := by
  funext i
  rw [State.property, State.property, hobjects]

theorem property_eq {s : State} {i p : Nat} (hi : s.property i = some p) :
    s.objects[i]? = some (some p) := by
  unfold State.property at hi
  cases hobject : s.objects[i]? with
  | none =>
      rw [hobject] at hi
      cases hi
  | some x =>
      rw [hobject] at hi
      exact congrArg some hi

theorem mem_objects {s : State} {p : Nat} :
    some p ∈ s.objects ↔ ∃ i, s.property i = some p := by
  constructor
  · intro hp
    obtain ⟨i, hi⟩ := List.mem_iff_getElem?.mp hp
    exact ⟨i, by rw [State.property, hi]; rfl⟩
  · rintro ⟨i, hi⟩
    exact List.mem_of_getElem? (property_eq hi)

/-- A weak pointer to a block expires with the last object that has it. -/
theorem expired_iff {s : State} {p : Nat} :
    s.expired p = true ↔ some p ∉ s.objects := by
  rw [State.expired, Bool.not_eq_true', List.contains_eq_mem, decide_eq_false_iff_not]

/-! ## The thread created last -/

/-- `h` is the thread last created for block `p`. -/
def State.Last (s : State) (p h : Nat) : Prop :=
  (∃ n, s.natives[h]? = some n ∧ n.property = p) ∧
    ∀ (h' : Nat) n', s.natives[h']? = some n' → n'.property = p → h' ≤ h

theorem last_iff {s : State} {p h : Nat} :
    s.Last p h ↔ (s.natives.map Native.property)[h]? = some p ∧
      ∀ h' : Nat, (s.natives.map Native.property)[h']? = some p → h' ≤ h := by
  simp only [State.Last, List.getElem?_map, Option.map_eq_some_iff]
  refine and_congr_right fun _ => ⟨fun hall h' hex => ?_,
    fun hall h' n hn hp => hall h' ⟨n, hn, hp⟩⟩
  obtain ⟨n, hn, hp⟩ := hex
  exact hall h' n hn hp

theorem last_congr {s s' : State}
    (hsame : s'.natives.map Native.property = s.natives.map Native.property) (p h : Nat) :
    s'.Last p h ↔ s.Last p h := by
  rw [last_iff, last_iff, hsame]

theorem last_set {s s' : State} {k : Nat} {n n' : Native} (hn : s.natives[k]? = some n)
    (hnatives : s'.natives = s.natives.set k n') (hproperty : n'.property = n.property)
    (p h : Nat) : s'.Last p h ↔ s.Last p h := by
  refine last_congr ?_ p h
  rw [hnatives]
  exact map_set_same hn hproperty

theorem last_append {s s' : State} {n : Native}
    (hnatives : s'.natives = s.natives ++ [n]) (p h : Nat) :
    s'.Last p h ↔ if n.property = p then h = s.natives.length else s.Last p h := by
  have hget : ∀ k : Nat, (s'.natives.map Native.property)[k]? = some p ↔
      (s.natives.map Native.property)[k]? = some p ∨
        k = s.natives.length ∧ n.property = p := fun k => by
    rw [hnatives, List.map_append, List.map_singleton]
    rcases Nat.lt_trichotomy k s.natives.length with hlt | rfl | hgt
    · rw [List.getElem?_append_left (by simpa using hlt)]
      exact (or_iff_left fun h => by omega).symm
    · simp
    · rw [List.getElem?_eq_none (by simpa using Nat.succ_le_of_lt hgt),
        List.getElem?_eq_none (by simpa using hgt.le)]
      exact ⟨fun h => (by cases h), fun h => h.elim (fun h => by cases h) fun h => by omega⟩
  have hold : ∀ k : Nat, (s.natives.map Native.property)[k]? = some p →
      k < s.natives.length :=
    fun k hk => by simpa using (List.getElem?_eq_some_iff.mp hk).1
  rw [last_iff]
  simp only [hget]
  split
  · next hp =>
      constructor
      · rintro ⟨hk | hk, hmost⟩
        · have hlast := hmost _ (Or.inr ⟨rfl, hp⟩)
          exact absurd (hold h hk) (Nat.not_lt.mpr hlast)
        · exact hk.1
      · rintro rfl
        exact ⟨Or.inr ⟨rfl, hp⟩,
            fun k hk => hk.elim (fun hk => (hold k hk).le) fun hk => hk.1.le⟩
  · next hp =>
      simp only [hp, and_false, or_false]
      exact last_iff.symm

end ThreadPool.Pthread
