import ThreadPool.Lib.Census
import ThreadPool.Lib.Fair

/-!
# Promises over a machine

A client hands work to a system together with the writing end of a promise,
and keeps the reading end. The system knows nothing of promises: it runs what
it was given, once or twice or not at all, and at some point destroys it.
Running it writes the result, also where the work ends by an exception;
destroying it unwritten breaks the promise; and running it again, after a
result is there, is an error that the system gets to see.

`Settling` is what a machine has to say about itself for this: which of its
actions bring a piece of work, which step ends the run of one, which are
destroyed with a step. Its laws are the conservation laws of such a machine:
nothing is run to its end that has been run or lost before. From these
follows what a client relies on (`kept_of_reachable`): the promise of a
piece of work says at all times what has become of it, no promise is written
twice, and the system never sees the error.
-/

namespace Interleave

/-- The state that the two ends of a promise share. -/
inductive Promise where
  | pending
  | value
  | exception
  | broken
  deriving DecidableEq, Repr

namespace Promise

/-- The work is run, and ends by an exception or not; an error where a result
is there already. -/
def invoke (threw : Bool) : Promise → Option Promise
  | .pending => some (if threw then .exception else .value)
  | _ => none

/-- The writing end is destroyed. -/
def abandon : Promise → Promise
  | .pending => .broken
  | p => p

/-- A result was written. -/
def written (p : Promise) : Bool := p = .value || p = .exception

/-- Nobody waits for it any more. -/
def ready (p : Promise) : Bool := p ≠ .pending

/-- A promise is written once: only a pending one changes. -/
def Becomes (p q : Promise) : Prop := p = .pending ∨ q = p

theorem Becomes.refl (p : Promise) : p.Becomes p := Or.inr rfl

theorem Becomes.trans {p q r : Promise} (hpq : p.Becomes q) (hqr : q.Becomes r) :
    p.Becomes r := by
  rcases hpq with rfl | rfl
  · exact Or.inl rfl
  · exact hqr

theorem becomes_abandon (p : Promise) : p.Becomes p.abandon := by
  cases p with
  | pending => exact Or.inl rfl
  | value | exception | broken => exact Or.inr rfl

end Promise

open Machine Promise

variable {σ α : Type*}

/-- What a machine has to say about the work it is given, and the laws it
keeps. Pieces of work are numbered as they are brought. -/
structure Settling (M : Machine σ α) where
  /-- how many pieces have been brought -/
  count : σ → Nat
  /-- the action that brings one -/
  bring : α
  brings : α → Bool
  /-- whether the work whose run an action ends, ends by an exception -/
  throws : α → Bool
  /-- the same action, the work ending so -/
  ends : Bool → α → α
  /-- the piece of work whose run a step ends -/
  invokes : σ → α → Option Nat
  /-- the pieces of work that a step destroys -/
  destroys : σ → α → List Nat
  /-- run to its end -/
  called : σ → Nat → Prop
  /-- destroyed without having been run -/
  lost : σ → Nat → Prop
  count_init : count M.init = 0
  brings_bring : brings bring = true
  invokes_bring : ∀ s, invokes s bring = none
  destroys_bring : ∀ s, destroys s bring = []
  count_step : ∀ {s a s'}, M.Reachable s → M.step s a = some s' →
    count s' = count s + if brings a then 1 else 0
  fresh : ∀ {s a s'}, M.Reachable s → M.step s a = some s' → brings a = true →
    ¬called s' (count s) ∧ ¬lost s' (count s)
  called_step : ∀ {s a s' k}, M.Reachable s → M.step s a = some s' → k < count s →
    (called s' k ↔ called s k ∨ invokes s a = some k)
  lost_step : ∀ {s a s' k}, M.Reachable s → M.step s a = some s' → k < count s →
    (lost s' k ↔ lost s k ∨ k ∈ destroys s a)
  invokes_open : ∀ {s a s' k}, M.Reachable s → M.step s a = some s' →
    invokes s a = some k → k < count s ∧ ¬called s k ∧ ¬lost s k ∧ destroys s a = []
  destroys_open : ∀ {s a s' k}, M.Reachable s → M.step s a = some s' →
    k ∈ destroys s a → ¬called s k ∧ ¬lost s k
  throws_ends : ∀ a, throws (ends false a) = false
  brings_ends : ∀ b a, brings (ends b a) = brings a
  invokes_ends : ∀ s b a, invokes s (ends b a) = invokes s a
  destroys_ends : ∀ s b a, destroys s (ends b a) = destroys s a
  step_ends : ∀ s b a, invokes s a = none → M.step s (ends b a) = M.step s a
  enabled_ends : ∀ s b a, (M.step s (ends b a)).isSome = (M.step s a).isSome

/-- A machine with the promises of the work it has been given; `none` for work
that was brought without one. -/
structure Promised (σ : Type*) where
  sys : σ
  promises : List (Option Promise) := []

/-- Work is brought with a promise, or the machine takes a step of its own. -/
inductive SubmitAction (α : Type*) where
  | submit
  | act (a : α)

/-- The promises of the work that is destroyed. -/
def abandonAll (ks : List Nat) (ps : List (Option Promise)) : List (Option Promise) :=
  ps.mapIdx fun k p => if k ∈ ks then p.map abandon else p

namespace Settling

variable {M : Machine σ α} (S : Settling M)

/-- What a step does to the promise of the work whose run it ends, and what
the machine sees of it. Work with a promise returns to the machine, unless the
promise is written already. -/
def invoke (s : Promised σ) (a : α) : α × List (Option Promise) :=
  match S.invokes s.sys a with
  | none => (a, s.promises)
  | some k =>
      match s.promises[k]? with
      | some (some p) =>
          match p.invoke (S.throws a) with
          | some p' => (S.ends false a, s.promises.set k (some p'))
          | none => (S.ends true a, s.promises)
      | _ => (a, s.promises)

def step (s : Promised σ) : SubmitAction α → Option (Promised σ)
  | .submit =>
      (M.step s.sys S.bring).map fun sys =>
        { sys := sys, promises := s.promises ++ [some .pending] }
  | .act a =>
      (M.step s.sys (S.invoke s a).1).map fun sys =>
        { sys := sys
          promises := abandonAll (S.destroys s.sys a) (S.invoke s a).2 ++
            if S.brings a then [none] else [] }

/-- The machine with its promises. -/
def withPromises : Machine (Promised σ) (SubmitAction α) where
  init := { sys := M.init }
  step := S.step

/-! ## What a promise says -/

/-- The promises tell what has become of the work. -/
structure Kept (s : Promised σ) : Prop where
  length : s.promises.length = S.count s.sys
  truth : ∀ k p, s.promises[k]? = some (some p) →
    (p.written = true ↔ S.called s.sys k) ∧ (p = .broken ↔ S.lost s.sys k)

variable {S}

theorem Kept.pending {s : Promised σ} (hs : S.Kept s) {k : Nat} {p : Promise}
    (hp : s.promises[k]? = some (some p)) (hcalled : ¬S.called s.sys k)
    (hlost : ¬S.lost s.sys k) : p = .pending := by
  obtain ⟨hwritten, hbroken⟩ := hs.truth k p hp
  cases p with
  | pending => rfl
  | value => exact absurd (hwritten.mp rfl) hcalled
  | exception => exact absurd (hwritten.mp rfl) hcalled
  | broken => exact absurd (hbroken.mp rfl) hlost

theorem abandonAll_getElem? {ks : List Nat} {ps : List (Option Promise)} {k : Nat}
    {p : Promise} (h : (abandonAll ks ps)[k]? = some (some p)) :
    ∃ q, ps[k]? = some (some q) ∧ p = if k ∈ ks then q.abandon else q := by
  rw [abandonAll, List.getElem?_mapIdx] at h
  obtain ⟨q?, hq, h⟩ := Option.map_eq_some_iff.mp h
  rw [hq]
  split at h
  · next hk =>
      obtain ⟨q, rfl, rfl⟩ := Option.map_eq_some_iff.mp h
      exact ⟨q, rfl, (if_pos hk).symm⟩
  · next hk => exact ⟨p, by rw [h], (if_neg hk).symm⟩

/-- What the invocation does, in a state whose promises are kept: the promise
it is about is pending, so it is written, and the machine sees the work
return. -/
inductive Invoked (S : Settling M) (s : Promised σ) (a : α) : Prop where
  | plain (hinvoke : S.invoke s a = (a, s.promises))
      (hno : ∀ k, S.invokes s.sys a = some k → ∀ p, s.promises[k]? ≠ some (some p))
  | writes (k : Nat) (p : Promise) (hk : S.invokes s.sys a = some k)
      (hpending : s.promises[k]? = some (some .pending)) (hwritten : p.written = true)
      (hinvoke : S.invoke s a = (S.ends false a, s.promises.set k (some p)))

theorem Kept.invoked {s : Promised σ} {a : α} {s' : σ} (hs : S.Kept s)
    (hr : M.Reachable s.sys) (hstep : M.step s.sys (S.invoke s a).1 = some s') :
    S.Invoked s a := by
  have hopen : ∀ {a' k}, M.step s.sys a' = some s' → S.invokes s.sys a' = some k →
      ¬S.called s.sys k ∧ ¬S.lost s.sys k := fun h hk =>
    ⟨(S.invokes_open hr h hk).2.1, (S.invokes_open hr h hk).2.2.1⟩
  cases hk : S.invokes s.sys a with
  | none =>
      refine .plain (by rw [Settling.invoke, hk]) fun k h => ?_
      rw [hk] at h
      cases h
  | some k =>
      cases hp : s.promises[k]? with
      | none =>
          refine .plain (by rw [Settling.invoke, hk]; simp only [hp]) fun j hj p => ?_
          rw [hk, Option.some.injEq] at hj
          rw [← hj, hp]
          exact nofun
      | some p? =>
          cases p? with
          | none =>
              refine .plain (by rw [Settling.invoke, hk]; simp only [hp]) fun j hj p => ?_
              rw [hk, Option.some.injEq] at hj
              rw [← hj, hp]
              exact nofun
          | some p =>
              have hends : ∃ b, (S.invoke s a).1 = S.ends b a := by
                rw [Settling.invoke, hk]
                simp only [hp]
                cases p.invoke (S.throws a) with
                | none => exact ⟨true, rfl⟩
                | some => exact ⟨false, rfl⟩
              obtain ⟨b, hb⟩ := hends
              rw [hb] at hstep
              obtain ⟨hcalled, hlost⟩ := hopen hstep (by rw [S.invokes_ends, hk])
              obtain rfl := hs.pending hp hcalled hlost
              refine .writes k (if S.throws a then .exception else .value) hk hp ?_ ?_
              · split <;> rfl
              · rw [Settling.invoke, hk]
                simp only [hp, Promise.invoke]

/-- A step of the whole, by what the machine does in it. -/
inductive Stepped (S : Settling M) (s s' : Promised σ) (a' : α) : Prop where
  | submits (ha : a' = S.bring) (hpromises : s'.promises = s.promises ++ [some .pending])
  | plain (hno : ∀ k, S.invokes s.sys a' = some k →
        ∀ p, s.promises[k]? ≠ some (some p))
      (hpromises : s'.promises = abandonAll (S.destroys s.sys a') s.promises ++
        if S.brings a' then [none] else [])
  | writes (k : Nat) (p : Promise) (hk : S.invokes s.sys a' = some k)
      (hpending : s.promises[k]? = some (some .pending)) (hwritten : p.written = true)
      (hthrows : S.throws a' = false)
      (hpromises : s'.promises =
        abandonAll (S.destroys s.sys a') (s.promises.set k (some p)) ++
          if S.brings a' then [none] else [])

theorem Kept.stepped {s s' : Promised σ} {x : SubmitAction α} (hs : S.Kept s)
    (hr : M.Reachable s.sys) (hstep : S.step s x = some s') :
    ∃ a', M.step s.sys a' = some s'.sys ∧ S.Stepped s s' a' ∧
      ∀ a, x = .act a → a' = a ∨ ∃ b, a' = S.ends b a := by
  cases x with
  | submit =>
      obtain ⟨sys, hsys, rfl⟩ := Option.map_eq_some_iff.mp hstep
      exact ⟨S.bring, hsys, .submits rfl rfl, nofun⟩
  | act a =>
      obtain ⟨sys, hsys, rfl⟩ := Option.map_eq_some_iff.mp hstep
      cases hs.invoked hr hsys with
      | plain hinvoke hno =>
          rw [hinvoke] at hsys ⊢
          exact ⟨a, hsys, .plain hno rfl, fun _ h => Or.inl (SubmitAction.act.inj h)⟩
      | writes k p hk hpending hwritten hinvoke =>
          rw [hinvoke] at hsys ⊢
          refine ⟨S.ends false a, hsys,
            .writes k p ?_ hpending hwritten (S.throws_ends a) ?_, fun b h => ?_⟩
          · rw [S.invokes_ends, hk]
          · rw [S.destroys_ends, S.brings_ends]
          · exact Or.inr ⟨false, by rw [SubmitAction.act.inj h]⟩

/-- Where a promise of a later state comes from. -/
inductive Source (S : Settling M) (s : Promised σ) (a' : α) (k : Nat) (p : Promise) :
    Prop where
  | fresh (hk : k = s.promises.length) (ha : a' = S.bring) (hp : p = .pending)
  | old (q : Promise) (hq : s.promises[k]? = some (some q))
      (hno : S.invokes s.sys a' ≠ some k)
      (hp : p = if k ∈ S.destroys s.sys a' then q.abandon else q)
  | written (hk : S.invokes s.sys a' = some k)
      (hq : s.promises[k]? = some (some .pending)) (hp : p.written = true)

theorem Stepped.source {s s' : Promised σ} {a' : α} {sys : σ} (hr : M.Reachable s.sys)
    (hstep : M.step s.sys a' = some sys) (h : S.Stepped s s' a') {k : Nat} {p : Promise}
    (hk : s'.promises[k]? = some (some p)) : S.Source s a' k p := by
  have hplain : ∀ {ps : List (Option Promise)},
      (ps ++ if S.brings a' then [none] else [])[k]? = some (some p) →
        ps[k]? = some (some p) := by
    intro ps h
    split at h
    · rcases getElem?_concat_cases h with ⟨-, hnone⟩ | ⟨-, hold⟩
      · cases hnone
      · exact hold
    · rw [List.append_nil] at h
      exact h
  cases h with
  | submits ha hpromises =>
      rw [hpromises] at hk
      rcases getElem?_concat_cases hk with ⟨hlen, hnew⟩ | ⟨-, hold⟩
      · exact .fresh hlen ha (Option.some.inj hnew)
      · refine .old p hold ?_ ?_
        · rw [ha, S.invokes_bring]
          exact nofun
        · rw [ha, S.destroys_bring, if_neg List.not_mem_nil]
  | plain hno hpromises =>
      rw [hpromises] at hk
      obtain ⟨q, hq, hp⟩ := abandonAll_getElem? (hplain hk)
      exact .old q hq (fun hk => hno k hk q hq) hp
  | writes j w hj hpending hwritten hthrows hpromises =>
      rw [hpromises] at hk
      obtain ⟨q, hq, hp⟩ := abandonAll_getElem? (hplain hk)
      rw [(S.invokes_open hr hstep hj).2.2.2, if_neg List.not_mem_nil] at hp
      rcases getElem?_set_cases hq with ⟨rfl, hqw⟩ | ⟨hne, hold⟩
      · refine .written hj hpending ?_
        rw [hp, Option.some.inj hqw]
        exact hwritten
      · refine .old q hold ?_ ?_
        · rw [hj, Ne, Option.some.injEq]
          exact fun h => hne h.symm
        · rw [(S.invokes_open hr hstep hj).2.2.2, if_neg List.not_mem_nil]
          exact hp

theorem length_abandonAll (ks : List Nat) (ps : List (Option Promise)) :
    (abandonAll ks ps).length = ps.length := List.length_mapIdx

theorem Stepped.length {s s' : Promised σ} {a' : α} (h : S.Stepped s s' a') :
    s'.promises.length = s.promises.length + if S.brings a' then 1 else 0 := by
  have hnew : (if S.brings a' = true then [(none : Option Promise)] else []).length =
      if S.brings a' = true then 1 else 0 := by split <;> rfl
  cases h with
  | submits ha hpromises =>
      rw [hpromises, ha, S.brings_bring, List.length_append]
      rfl
  | plain _ hpromises =>
      rw [hpromises, List.length_append, length_abandonAll, hnew]
  | writes _ _ _ _ _ _ hpromises =>
      rw [hpromises, List.length_append, length_abandonAll, List.length_set, hnew]

theorem Kept.step {s s' : Promised σ} {a' : α} (hs : S.Kept s) (hr : M.Reachable s.sys)
    (hstep : M.step s.sys a' = some s'.sys) (h : S.Stepped s s' a') : S.Kept s' := by
  refine ⟨?_, fun k p hk => ?_⟩
  · rw [h.length, hs.length, S.count_step hr hstep]
  cases h.source hr hstep hk with
  | fresh hlen ha hp =>
      obtain ⟨hcalled, hlost⟩ := S.fresh hr hstep (by rw [ha, S.brings_bring])
      rw [← hs.length, ← hlen] at hcalled hlost
      subst hp
      exact ⟨⟨nofun, fun h => absurd h hcalled⟩, ⟨nofun, fun h => absurd h hlost⟩⟩
  | old q hq hno hp =>
      have hlt : k < S.count s.sys := by
        rw [← hs.length]
        exact (List.getElem?_eq_some_iff.mp hq).1
      have hcalled := S.called_step hr hstep hlt
      have hlost := S.lost_step hr hstep hlt
      obtain ⟨hwritten, hbroken⟩ := hs.truth k q hq
      rw [or_iff_left hno] at hcalled
      rw [hcalled, hlost, hp]
      by_cases hk : k ∈ S.destroys s.sys a'
      · obtain ⟨hnot, hnot'⟩ := S.destroys_open hr hstep hk
        obtain rfl := hs.pending hq hnot hnot'
        rw [if_pos hk]
        exact ⟨⟨nofun, fun h => absurd h hnot⟩, ⟨fun _ => Or.inr hk, fun _ => rfl⟩⟩
      · rw [if_neg hk, or_iff_left hk]
        exact ⟨hwritten, hbroken⟩
  | written hk hq hp =>
      obtain ⟨hlt, -, hnot, hnone⟩ := S.invokes_open hr hstep hk
      have hlost := S.lost_step hr hstep hlt
      rw [hnone, or_iff_left List.not_mem_nil] at hlost
      rw [S.called_step hr hstep hlt, hlost]
      refine ⟨⟨fun _ => Or.inr hk, fun _ => hp⟩, ⟨fun h => ?_, fun h => absurd h hnot⟩⟩
      rw [h] at hp
      cases hp

/-- The laws of the promises, in the form that is preserved step by step. -/
theorem kept_of_reachable {s : Promised σ} (hr : S.withPromises.Reachable s) :
    M.Reachable s.sys ∧ S.Kept s := by
  refine hr.invariant (P := fun s => M.Reachable s.sys ∧ S.Kept s) ?_ ?_
  · exact ⟨Relation.ReflTransGen.refl, S.count_init.symm, nofun⟩
  · intro s x s' _ ⟨hsys, hs⟩ hstep
    obtain ⟨a', hstep', hstepped, -⟩ := hs.stepped hsys hstep
    exact ⟨ReachableWhen.step hsys trivial hstep', hs.step hsys hstep' hstepped⟩

/-- What holds of work just brought with a promise, and is kept by every step,
holds of all such work. -/
theorem promised_invariant {P : σ → Nat → Prop} {s : Promised σ}
    (hr : S.withPromises.Reachable s)
    (hnew : ∀ s s', M.Reachable s → M.step s S.bring = some s' → P s' (S.count s))
    (hkeep : ∀ s a s' k, M.Reachable s → M.step s a = some s' → P s k → P s' k) :
    ∀ k p, s.promises[k]? = some (some p) → P s.sys k := by
  refine hr.invariant (P := fun s => ∀ k p, s.promises[k]? = some (some p) → P s.sys k)
    nofun fun s x s' hr ih hstep k p hk => ?_
  obtain ⟨hsys, hs⟩ := kept_of_reachable hr
  obtain ⟨a', hstep', hstepped, -⟩ := hs.stepped hsys hstep
  cases hstepped.source hsys hstep' hk with
  | fresh hlen ha =>
      subst ha
      rw [hlen, hs.length]
      exact hnew _ _ hsys hstep'
  | old q hq => exact hkeep _ _ _ _ hsys hstep' (ih k q hq)
  | written _ hq => exact hkeep _ _ _ _ hsys hstep' (ih k _ hq)

/-- No step takes a promise away, and it changes only a pending one. -/
theorem Stepped.becomes {s s' : Promised σ} {a' : α} (h : S.Stepped s s' a') {k : Nat}
    {p : Promise} (hp : s.promises[k]? = some (some p)) :
    ∃ q, s'.promises[k]? = some (some q) ∧ p.Becomes q := by
  have hlt := (List.getElem?_eq_some_iff.mp hp).1
  have habandon : ∀ {ks : List Nat} {ps : List (Option Promise)} {q : Promise},
      ps[k]? = some (some q) → p.Becomes q →
        ∃ r, (abandonAll ks ps)[k]? = some (some r) ∧ p.Becomes r := by
    intro ks ps q hq hpq
    rw [abandonAll, List.getElem?_mapIdx, hq, Option.map_some]
    split
    · exact ⟨q.abandon, rfl, hpq.trans (becomes_abandon q)⟩
    · exact ⟨q, rfl, hpq⟩
  cases h with
  | submits _ hpromises =>
      rw [hpromises, List.getElem?_append_left hlt]
      exact ⟨p, hp, .refl p⟩
  | plain _ hpromises =>
      rw [hpromises, List.getElem?_append_left (by rw [length_abandonAll]; exact hlt)]
      exact habandon hp (.refl p)
  | writes j w _ hpending _ _ hpromises =>
      rw [hpromises, List.getElem?_append_left
        (by rw [length_abandonAll, List.length_set]; exact hlt)]
      by_cases hjk : j = k
      · subst hjk
        rw [hp, Option.some.injEq, Option.some.injEq] at hpending
        exact habandon (List.getElem?_set_self hlt) (Or.inl hpending)
      · exact habandon (by rw [List.getElem?_set_ne hjk, hp]) (.refl p)

/-- A promise is written once, however the run goes on. -/
theorem becomes_of_leads {s s' : Promised σ} (hr : S.withPromises.Reachable s)
    (hrun : S.withPromises.Leads s s') {k : Nat} {p : Promise}
    (hp : s.promises[k]? = some (some p)) :
    ∃ q, s'.promises[k]? = some (some q) ∧ p.Becomes q := by
  refine hrun.stable (P := fun s => ∃ q, s.promises[k]? = some (some q) ∧ p.Becomes q) hr
    ⟨p, hp, .refl p⟩ fun s x s' hr hnow hstep => ?_
  obtain ⟨q, hq, hpq⟩ := hnow
  obtain ⟨hsys, hs⟩ := kept_of_reachable hr
  obtain ⟨a', -, hstepped, -⟩ := hs.stepped hsys hstep
  obtain ⟨r, hr', hqr⟩ := hstepped.becomes hq
  exact ⟨r, hr', hpq.trans hqr⟩

/-! ## Work that is always brought with a promise -/

/-- The step brings no work without a promise. -/
def Submitting (S : Settling M) (_ : Promised σ) : SubmitAction α → Prop
  | .submit => True
  | .act a => S.brings a = false

instance (S : Settling M) (s : Promised σ) (x : SubmitAction α) :
    Decidable (S.Submitting s x) :=
  match x with
  | .submit => isTrue trivial
  | .act a => inferInstanceAs (Decidable (S.brings a = false))

/-- Every piece of work has its promise, and the machine has not seen any end
by an exception. -/
structure Caught (S : Settling M) (s : Promised σ) : Prop where
  sys : M.ReachableWhen (fun _ a => S.throws a = false) s.sys
  promised : ∀ k, k < s.promises.length → ∃ p, s.promises[k]? = some (some p)

theorem step_caught {s s' : σ} {a : α}
    (hs : M.ReachableWhen (fun _ a => S.throws a = false) s) (hstep : M.step s a = some s')
    (ha : S.invokes s a = none ∨ S.throws a = false) :
    M.ReachableWhen (fun _ a => S.throws a = false) s' := by
  rcases ha with hnone | hthrows
  · refine ReachableWhen.step hs (S.throws_ends a) ?_
    rw [S.step_ends s false a hnone, hstep]
  · exact ReachableWhen.step hs hthrows hstep

theorem Caught.step {s s' : Promised σ} {x : SubmitAction α} (hcaught : S.Caught s)
    (hs : S.Kept s) (hx : S.Submitting s x) (hstep : S.step s x = some s') :
    S.Caught s' := by
  obtain ⟨a', hsys, hstepped, hact⟩ := hs.stepped hcaught.sys.reachable hstep
  have hold : ∀ k, k < s.promises.length → ∃ p, s'.promises[k]? = some (some p) :=
    fun k hk => by
      obtain ⟨p, hp⟩ := hcaught.promised k hk
      obtain ⟨q, hq, -⟩ := hstepped.becomes hp
      exact ⟨q, hq⟩
  cases x with
  | submit =>
      obtain ⟨sys, hsys', rfl⟩ := Option.map_eq_some_iff.mp hstep
      refine ⟨step_caught hcaught.sys hsys' (Or.inl (S.invokes_bring _)), fun k hk => ?_⟩
      rw [List.length_append, List.length_singleton] at hk
      rcases Nat.lt_succ_iff_lt_or_eq.mp hk with hlt | rfl
      · exact hold k hlt
      · exact ⟨.pending, List.getElem?_concat_length⟩
  | act a =>
      have hnone : S.brings a' = false := by
        rcases hact a rfl with rfl | ⟨b, rfl⟩
        · exact hx
        · rw [S.brings_ends]
          exact hx
      have hlen := hstepped.length
      rw [hnone] at hlen
      refine ⟨step_caught hcaught.sys hsys ?_, fun k hk => hold k (by rw [hlen] at hk; exact hk)⟩
      cases hstepped with
      | submits ha =>
          rw [ha, S.brings_bring] at hnone
          cases hnone
      | plain hno =>
          cases hk : S.invokes s.sys a' with
          | none => exact Or.inl rfl
          | some k =>
              have hlt := (S.invokes_open hcaught.sys.reachable hsys hk).1
              rw [← hs.length] at hlt
              obtain ⟨p, hp⟩ := hcaught.promised k hlt
              exact absurd hp (hno k hk p)
      | writes _ _ _ _ _ hthrows => exact Or.inr hthrows

/-- Where all work is brought with a promise, the machine never sees any end
by an exception. -/
theorem caught_of_reachableWhen {s : Promised σ}
    (hr : S.withPromises.ReachableWhen S.Submitting s) : S.Caught s :=
  hr.invariant ⟨Relation.ReflTransGen.refl, nofun⟩ fun _ _ _ hr hs hx hstep =>
    hs.step (kept_of_reachable hr.reachable).2 hx hstep

/-! ## Fair runs -/

theorem invoke_fst (s : Promised σ) (a : α) :
    (S.invoke s a).1 = a ∨ ∃ b, (S.invoke s a).1 = S.ends b a := by
  unfold Settling.invoke
  split
  · exact Or.inl rfl
  · split
    · split
      · exact Or.inr ⟨false, rfl⟩
      · exact Or.inr ⟨true, rfl⟩
    · exact Or.inl rfl

/-- Promises hold nobody up. -/
theorem isSome_step_act (s : Promised σ) (a : α) :
    (S.withPromises.step s (.act a)).isSome = (M.step s.sys a).isSome := by
  rw [show S.withPromises.step s (.act a) = (M.step s.sys (S.invoke s a).1).map _ from rfl,
    Option.isSome_map]
  rcases S.invoke_fst s a with hsame | ⟨b, hends⟩
  · rw [hsame]
  · rw [hends, S.enabled_ends]

theorem enabled_iff {s : Promised σ} {party : α → Prop} :
    S.withPromises.Enabled (fun x => ∃ a, x = .act a ∧ party a) s ↔
      M.Enabled party s.sys := by
  constructor
  · rintro ⟨x, ⟨a, rfl, ha⟩, hsome⟩
    exact ⟨a, ha, by rw [← S.isSome_step_act, hsome]⟩
  · rintro ⟨a, ha, hsome⟩
    exact ⟨.act a, ⟨a, rfl, ha⟩, by rw [S.isSome_step_act, hsome]⟩

theorem abandonAll_nil (ps : List (Option Promise)) : abandonAll [] ps = ps :=
  List.mapIdx_eq_iff.mpr fun k => by simp

theorem step_idle {s : Promised σ} {a : α} (hidle : M.step s.sys a = some s.sys)
    (hinvokes : S.invokes s.sys a = none) (hdestroys : S.destroys s.sys a = [])
    (hbrings : S.brings a = false) : S.withPromises.step s (.act a) = some s := by
  have hinvoke : S.invoke s a = (a, s.promises) := by rw [Settling.invoke, hinvokes]
  show (M.step s.sys (S.invoke s a).1).map _ = some s
  rw [hinvoke, hidle, hdestroys, hbrings, abandonAll_nil]
  simp

theorem exists_act (ρ : S.withPromises.Run) (n : Nat) :
    ∃ a', M.step (ρ.state n).sys a' = some (ρ.state (n + 1)).sys ∧
      ∀ a, ρ.act n = .act a → a' = a ∨ ∃ b, a' = S.ends b a := by
  obtain ⟨hsys, hs⟩ := kept_of_reachable (ρ.reachable n)
  obtain ⟨a', hstep, -, hact⟩ := hs.stepped hsys (ρ.next n)
  exact ⟨a', hstep, hact⟩

/-- The run of the machine in a run of the whole. -/
noncomputable def sysRun (ρ : S.withPromises.Run) : M.Run where
  state n := (ρ.state n).sys
  act n := (S.exists_act ρ n).choose
  start := congrArg Promised.sys ρ.start
  next n := (S.exists_act ρ n).choose_spec.1

theorem moves_sysRun {ρ : S.withPromises.Run} {party : α → Prop} {m : Nat}
    (hends : ∀ b a, party (S.ends b a) ↔ party a) (h : ∃ a, ρ.act m = .act a ∧ party a) :
    party ((S.sysRun ρ).act m) := by
  obtain ⟨a, hact, ha⟩ := h
  show party (S.exists_act ρ m).choose
  rcases (S.exists_act ρ m).choose_spec.2 a hact with hsame | ⟨b, hsame⟩
  · rw [hsame]
    exact ha
  · rw [hsame, hends]
    exact ha

theorem fair_sysRun {ρ : S.withPromises.Run} {party : α → Prop}
    (hends : ∀ b a, party (S.ends b a) ↔ party a)
    (hfair : ρ.Fair fun x => ∃ a, x = .act a ∧ party a) : (S.sysRun ρ).Fair party := by
  intro n henabled
  obtain ⟨m, hm, hmoves⟩ := hfair n fun m hm => S.enabled_iff.mpr (henabled m hm)
  exact ⟨m, hm, moves_sysRun hends hmoves⟩

theorem fairOutside_sysRun {ρ : S.withPromises.Run} {busy : σ → Prop} {party : α → Prop}
    (hends : ∀ b a, party (S.ends b a) ↔ party a)
    (hfair : ρ.FairOutside (fun s => busy s.sys) fun x => ∃ a, x = .act a ∧ party a) :
    (S.sysRun ρ).FairOutside busy party := by
  intro n henabled
  obtain ⟨m, hm, hmoves⟩ := hfair n fun m hm => by
    obtain ⟨hen, hfree⟩ := henabled m hm
    exact ⟨S.enabled_iff.mpr hen, hfree⟩
  exact ⟨m, hm, moves_sysRun hends hmoves⟩

theorem stronglyFairOutside_sysRun {ρ : S.withPromises.Run} {busy : σ → Prop}
    {party : α → Prop} (hends : ∀ b a, party (S.ends b a) ↔ party a)
    (hfair : ρ.StronglyFairOutside (fun s => busy s.sys) fun x => ∃ a, x = .act a ∧ party a) :
    (S.sysRun ρ).StronglyFairOutside busy party := by
  intro n henabled
  obtain ⟨m, hm, hmoves⟩ := hfair n fun m hm => by
    obtain ⟨l, hl, hen, hfree⟩ := henabled m hm
    exact ⟨l, hl, S.enabled_iff.mpr hen, hfree⟩
  exact ⟨m, hm, moves_sysRun hends hmoves⟩

/-- A promise is written by the time its work has been called. -/
theorem eventually_written {ρ : S.withPromises.Run} {m l k : Nat} {p : Promise} (hl : m ≤ l)
    (hp : (ρ.state m).promises[k]? = some (some p)) (hcalled : S.called (ρ.state l).sys k) :
    ρ.Eventually m fun s => ∃ q, s.promises[k]? = some (some q) ∧ q.written = true := by
  obtain ⟨q, hq, -⟩ := becomes_of_leads (ρ.reachable m) (ρ.leads hl) hp
  obtain ⟨-, hs⟩ := kept_of_reachable (ρ.reachable l)
  exact ⟨l, hl, q, hq, (hs.truth k q hq).1.mpr hcalled⟩

end Settling

end Interleave
