import ThreadPool.Normal.Model

/-!
# What the thread-creating sections do

`Start` and `ExpandThreads` create workers in loops, and every creation may
be the one that fails. This file says once what those loops do to the
vector, so that nothing later unfolds them.

Appending is described by `Appends`: a run of fresh workers, each with the
index of the slot it lands in, was pushed behind what was there. The reuse
loop of `ExpandThreads` has only two outcomes on slots whose thread has been
started (`reuse_outcome`): it changes nothing, or it resets `should_exit` of
the first slot it finds invalid and leaves with the exception of
`Thread::Start`.
-/

namespace ThreadPool.Normal

open Interleave

/-- The worker that a successful creation pushes back. -/
def freshWorker (index handle : Nat) : Worker where
  property := { threadHandle := handle, threadState := .joinable }
  native := { index := index, self := handle }

def freshWorkers (index handle n : Nat) : List Worker :=
  (List.range n).map fun k => freshWorker (index + k) (handle + k)

@[simp] theorem freshWorkers_zero (index handle : Nat) :
    freshWorkers index handle 0 = [] := rfl

@[simp] theorem freshWorkers_length (index handle n : Nat) :
    (freshWorkers index handle n).length = n := by
  rw [freshWorkers, List.length_map, List.length_range]

theorem freshWorkers_add (index handle m n : Nat) :
    freshWorkers index handle (m + n) =
      freshWorkers index handle m ++ freshWorkers (index + m) (handle + m) n := by
  rw [freshWorkers, List.range_add, List.map_append, List.map_map]
  simp only [freshWorkers, Function.comp_def, Nat.add_assoc]

theorem freshWorkers_one (index handle : Nat) :
    freshWorkers index handle 1 = [freshWorker index handle] := rfl

theorem getElem?_freshWorkers {index handle n k : Nat} {w : Worker}
    (h : (freshWorkers index handle n)[k]? = some w) :
    w = freshWorker (index + k) (handle + k) := by
  rw [freshWorkers, List.getElem?_map] at h
  cases hk : (List.range n)[k]? with
  | none => rw [hk] at h; cases h
  | some j =>
      obtain ⟨hlt, hget⟩ := List.getElem?_eq_some_iff.mp hk
      rw [List.getElem_range] at hget
      rw [hk, Option.map_some, Option.some.injEq] at h
      rw [← h, ← hget]

theorem mem_freshWorkers {index handle n : Nat} {w : Worker}
    (h : w ∈ freshWorkers index handle n) :
    ∃ k, w = freshWorker (index + k) (handle + k) := by
  obtain ⟨k, hk⟩ := List.mem_iff_getElem?.mp h
  exact ⟨k, getElem?_freshWorkers hk⟩

theorem forall_mem_append_fresh {P : Worker → Prop} {ws : List Worker}
    {index handle n : Nat} (h : ∀ w ∈ ws, P w)
    (hfresh : ∀ k, P (freshWorker (index + k) (handle + k))) :
    ∀ w ∈ ws ++ freshWorkers index handle n, P w := by
  intro w hw
  rcases List.mem_append.mp hw with hold | hnew
  · exact h w hold
  · obtain ⟨k, rfl⟩ := mem_freshWorkers hnew
    exact hfresh k

/-! ## Appending -/

/-- Between `sp` and `sp'`, some fresh workers were pushed back and nothing
else changed in the vector. -/
def Appends (sp sp' : Spawn) : Prop :=
  ∃ m, sp'.workers = sp.workers ++ freshWorkers sp.workers.length sp.nextHandle m ∧
    sp'.nextHandle = sp.nextHandle + m ∧ sp'.created = sp.created + m

theorem Appends.refl (sp : Spawn) : Appends sp sp :=
  ⟨0, by rw [freshWorkers_zero, List.append_nil], rfl, rfl⟩

theorem Appends.trans {sp₁ sp₂ sp₃ : Spawn} (h₁ : Appends sp₁ sp₂)
    (h₂ : Appends sp₂ sp₃) : Appends sp₁ sp₃ := by
  obtain ⟨m, hw₁, hn₁, hc₁⟩ := h₁
  obtain ⟨n, hw₂, hn₂, hc₂⟩ := h₂
  refine ⟨m + n, ?_, by omega, by omega⟩
  rw [hw₂, hw₁, hn₁, freshWorkers_add, List.length_append, freshWorkers_length,
    List.append_assoc]

theorem appendWorker_stuck {sp : Spawn} {e : Exn} (hexn : sp.exn = some e) :
    appendWorker sp = sp := by
  unfold appendWorker
  rw [hexn]

theorem appendWorker_eq {sp : Spawn} (hexn : sp.exn = none) :
    appendWorker sp =
      if sp.creates.avail = 0 then
        { sp with
          exn := some (.runtimeError ("pthread_create failed: " ++ sp.creates.strerror)) }
      else
        sp.advance (sp.workers ++ [freshWorker sp.workers.length sp.nextHandle]) := by
  unfold appendWorker
  rw [hexn]
  simp only [startThread, ThreadProperty.start, Creates.pthreadCreate]
  by_cases havail : sp.creates.avail = 0
  · simp only [havail, if_true]
  · simp only [havail, if_false]
    rfl

theorem appendWorker_appends (sp : Spawn) : Appends sp (appendWorker sp) := by
  cases hexn : sp.exn with
  | some e =>
      rw [appendWorker_stuck hexn]
      exact Appends.refl sp
  | none =>
      rw [appendWorker_eq hexn]
      split
      · exact ⟨0, by rw [freshWorkers_zero, List.append_nil], rfl, rfl⟩
      · exact ⟨1, rfl, rfl, rfl⟩

/-! ## The creations of `Start` -/

theorem startWorkers_stuck (l : List Nat) {sp : Spawn} {e : Exn}
    (hexn : sp.exn = some e) : l.foldl (fun sp _ => appendWorker sp) sp = sp :=
  List.foldl_fixed' (fun _ => appendWorker_stuck hexn) l

theorem startWorkers_appends (l : List Nat) (sp : Spawn) :
    Appends sp (l.foldl (fun sp _ => appendWorker sp) sp) := by
  induction l generalizing sp with
  | nil => exact Appends.refl sp
  | cons x l ih => exact (appendWorker_appends sp).trans (ih _)

theorem appendWorker_created_le (sp : Spawn) :
    (appendWorker sp).created ≤ sp.created + 1 := by
  cases hexn : sp.exn with
  | some e =>
      rw [appendWorker_stuck hexn]
      exact Nat.le_succ _
  | none =>
      rw [appendWorker_eq hexn]
      split
      · exact Nat.le_succ _
      · exact Nat.le_refl _

theorem startWorkers_created_le (l : List Nat) (sp : Spawn) :
    (l.foldl (fun sp _ => appendWorker sp) sp).created ≤ sp.created + l.length := by
  induction l generalizing sp with
  | nil => exact Nat.le_refl _
  | cons x l ih =>
      have hnext := appendWorker_created_le sp
      have hrest := ih (appendWorker sp)
      rw [List.foldl_cons, List.length_cons]
      omega

theorem startWorkers_created (l : List Nat) (sp : Spawn)
    (hexn : (l.foldl (fun sp _ => appendWorker sp) sp).exn = none) :
    (l.foldl (fun sp _ => appendWorker sp) sp).created = sp.created + l.length := by
  induction l generalizing sp with
  | nil => rfl
  | cons x l ih =>
      rw [List.foldl_cons] at hexn ⊢
      cases hnext : (appendWorker sp).exn with
      | some e =>
          rw [startWorkers_stuck l hnext, hnext] at hexn
          cases hexn
      | none =>
          rw [ih _ hexn, List.length_cons]
          cases hsp : sp.exn with
          | some e =>
              rw [appendWorker_stuck hsp, hsp] at hnext
              cases hnext
          | none =>
              rw [appendWorker_eq hsp] at hnext ⊢
              split
              · next havail =>
                  rw [if_pos havail] at hnext
                  cases hnext
              · simp only [Spawn.advance]
                omega

/-- The section of `Start`, by how many creations succeed. -/
theorem startWorkers_eq (l : List Nat) (sp : Spawn) (hexn : sp.exn = none) :
    (l.foldl (fun sp _ => appendWorker sp) sp).workers =
        sp.workers ++ freshWorkers sp.workers.length sp.nextHandle
          (min l.length sp.creates.avail) ∧
      (l.foldl (fun sp _ => appendWorker sp) sp).exn =
        (if l.length ≤ sp.creates.avail then none
         else some (.runtimeError ("pthread_create failed: " ++ sp.creates.strerror))) ∧
      (l.length ≤ sp.creates.avail →
        (l.foldl (fun sp _ => appendWorker sp) sp).creates.avail =
          sp.creates.avail - l.length) := by
  induction l generalizing sp with
  | nil => exact ⟨by simp, by simpa using hexn, fun _ => rfl⟩
  | cons x l ih =>
      rw [List.foldl_cons, appendWorker_eq hexn, List.length_cons]
      by_cases havail : sp.creates.avail = 0
      · rw [if_pos havail, startWorkers_stuck l rfl, havail]
        exact ⟨by simp, by simp, by simp⟩
      · rw [if_neg havail]
        obtain ⟨hworkers, hexn', hleft⟩ := ih
          (sp.advance
            (sp.workers ++ [freshWorker sp.workers.length sp.nextHandle])) hexn
        simp only [Spawn.advance, List.length_append, List.length_singleton]
          at hworkers hexn' hleft
        simp only [Spawn.advance]
        have hle : l.length ≤ sp.creates.avail - 1 ↔ l.length + 1 ≤ sp.creates.avail := by
          omega
        have hsplit : min (l.length + 1) sp.creates.avail =
            1 + min l.length (sp.creates.avail - 1) := by omega
        refine ⟨?_, by rw [hexn']; simp only [hle], fun hall => ?_⟩
        · rw [hworkers, hsplit, freshWorkers_add, freshWorkers_one, List.append_assoc]
        · rw [hleft (hle.mpr hall)]
          omega

/-! ## The reuse loop -/

/-- A slot whose thread has been started makes `Thread::Start` throw, so a
round of the reuse loop passes it over or ends the section. -/
theorem reuseSlot_eq {need i : Nat} {sp : Spawn} {w : Worker}
    (hexn : sp.exn = none) (hw : sp.workers[i]? = some w)
    (hstarted : w.property.Started) :
    reuseSlot need sp i =
      if sp.created < need ∧ w.flags.isValid = false then
        { sp with
          workers := sp.workers.set i { w with flags.shouldExit := false }
          exn := some (.logicError "Thread is already running") }
      else sp := by
  unfold reuseSlot
  rw [hexn, hw]
  simp only [startThread, hstarted.start_throws]

theorem reuseSlot_stuck {need i : Nat} {sp : Spawn} {e : Exn}
    (hexn : sp.exn = some e) : reuseSlot need sp i = sp := by
  unfold reuseSlot
  rw [hexn]

/-- The reuse loop on started slots: nothing happens, because enough threads
have been made or every slot looked at is valid; or the first invalid slot
has its mark reset and the section ends with the exception. -/
theorem reuse_outcome (need : Nat) {sp : Spawn} (hexn : sp.exn = none)
    (hstarted : ∀ w ∈ sp.workers, w.property.Started) (n : Nat)
    (hn : n ≤ sp.workers.length) :
    ((List.range n).foldl (reuseSlot need) sp = sp ∧
        (need ≤ sp.created ∨
          ∀ i w, i < n → sp.workers[i]? = some w → w.flags.isValid = true)) ∨
      ∃ i w, sp.created < need ∧ sp.workers[i]? = some w ∧
        w.flags.isValid = false ∧
        (List.range n).foldl (reuseSlot need) sp =
          { sp with
            workers := sp.workers.set i { w with flags.shouldExit := false }
            exn := some (.logicError "Thread is already running") } := by
  induction n with
  | zero =>
      refine Or.inl ⟨rfl, Or.inr fun i w hi _ => ?_⟩
      exact absurd hi (Nat.not_lt_zero i)
  | succ n ih =>
      rw [List.range_succ, List.foldl_append, List.foldl_cons, List.foldl_nil]
      rcases ih (by omega) with ⟨hsame, hvalid⟩ | ⟨i, w, hneed, hw, hinv, hthrow⟩
      · obtain ⟨w, hw⟩ : ∃ w, sp.workers[n]? = some w :=
          ⟨_, List.getElem?_eq_getElem (by omega)⟩
        rw [hsame, reuseSlot_eq hexn hw (hstarted w (List.mem_of_getElem? hw))]
        split
        · next hreuse => exact Or.inr ⟨n, w, hreuse.1, hw, hreuse.2, rfl⟩
        · next hpass =>
            refine Or.inl ⟨rfl, ?_⟩
            rcases hvalid with henough | hall
            · exact Or.inl henough
            · by_cases henough : need ≤ sp.created
              · exact Or.inl henough
              · refine Or.inr fun i v hi hv => ?_
                rcases Nat.lt_succ_iff_lt_or_eq.mp hi with hlt | rfl
                · exact hall i v hlt hv
                · rw [hw, Option.some.injEq] at hv
                  subst hv
                  rw [← Bool.not_eq_false]
                  exact fun hinv => hpass ⟨by omega, hinv⟩
      · exact Or.inr ⟨i, w, hneed, hw, hinv, by rw [hthrow, reuseSlot_stuck rfl]⟩

/-! ## The append loop -/

theorem appendSlot_appends (cfg : Config) (need : Nat) (sp : Spawn) :
    Appends sp (appendSlot cfg need sp) := by
  unfold appendSlot
  split
  · exact appendWorker_appends sp
  · exact Appends.refl sp

theorem appendSlots_appends (cfg : Config) (need : Nat) (l : List Nat)
    (sp : Spawn) : Appends sp (l.foldl (fun sp _ => appendSlot cfg need sp) sp) := by
  induction l generalizing sp with
  | nil => exact Appends.refl sp
  | cons x l ih => exact (appendSlot_appends cfg need sp).trans (ih _)

theorem appendSlots_stuck (cfg : Config) (need : Nat) (l : List Nat) {sp : Spawn}
    {e : Exn} (hexn : sp.exn = some e) :
    l.foldl (fun sp _ => appendSlot cfg need sp) sp = sp := by
  refine List.foldl_fixed' (fun _ => ?_) l
  unfold appendSlot
  split
  · exact appendWorker_stuck hexn
  · rfl

theorem appendSlots_length_le (cfg : Config) (need : Nat) (l : List Nat)
    (sp : Spawn) (hlen : sp.workers.length ≤ cfg.maxThreads) :
    (l.foldl (fun sp _ => appendSlot cfg need sp) sp).workers.length ≤
      cfg.maxThreads := by
  induction l generalizing sp with
  | nil => exact hlen
  | cons x l ih =>
      rw [List.foldl_cons]
      refine ih _ ?_
      unfold appendSlot
      split
      · next hroom =>
          cases hexn : sp.exn with
          | some e => rw [appendWorker_stuck hexn]; exact hlen
          | none =>
              rw [appendWorker_eq hexn]
              split
              · exact hlen
              · simp only [Spawn.advance, List.length_append, List.length_singleton]
                omega
      · exact hlen

/-- The append loop makes one worker a round until it has enough, the vector
is full, or a creation fails. -/
theorem appendSlots_eq (cfg : Config) (need : Nat) (l : List Nat) (sp : Spawn)
    (hexn : sp.exn = none) (hneed : sp.created + l.length ≤ need) :
    (l.foldl (fun sp _ => appendSlot cfg need sp) sp).created =
        sp.created +
          min (min l.length (cfg.maxThreads - sp.workers.length)) sp.creates.avail ∧
      (l.length ≤ sp.creates.avail →
        (l.foldl (fun sp _ => appendSlot cfg need sp) sp).exn = none) := by
  induction l generalizing sp with
  | nil => exact ⟨by simp, fun _ => hexn⟩
  | cons x l ih =>
      rw [List.length_cons] at hneed
      rw [List.foldl_cons, List.length_cons, appendSlot]
      by_cases hroom : sp.workers.length < cfg.maxThreads
      · rw [if_pos ⟨by omega, hroom⟩, appendWorker_eq hexn]
        by_cases havail : sp.creates.avail = 0
        · rw [if_pos havail, appendSlots_stuck cfg need l rfl]
          exact ⟨by rw [havail, Nat.min_zero]; rfl, fun hall => by omega⟩
        · rw [if_neg havail]
          obtain ⟨hcreated, hexn'⟩ := ih
            (sp.advance (sp.workers ++ [freshWorker sp.workers.length sp.nextHandle])) hexn
            (by simp only [Spawn.advance]; omega)
          simp only [Spawn.advance, List.length_append, List.length_singleton]
            at hcreated hexn'
          simp only [Spawn.advance]
          exact ⟨by rw [hcreated]; omega, fun hall => hexn' (by omega)⟩
      · rw [if_neg fun h => hroom h.2]
        obtain ⟨hcreated, hexn'⟩ := ih sp hexn (by omega)
        exact ⟨by rw [hcreated]; omega, fun hall => hexn' (by omega)⟩

/-! ## The section of `ExpandThreads` -/

/-- What the section can do to started slots: end at the first invalid one,
or append. -/
theorem expandSection_outcome (cfg : Config) (need : Nat) (sp : Spawn)
    (hexn : sp.exn = none) (hstarted : ∀ w ∈ sp.workers, w.property.Started) :
    (∃ i w, sp.created < need ∧ sp.workers[i]? = some w ∧
        w.flags.isValid = false ∧
        expandSection cfg need sp =
          { sp with
            workers := sp.workers.set i { w with flags.shouldExit := false }
            exn := some (.logicError "Thread is already running") }) ∨
      ((need ≤ sp.created ∨ ∀ w ∈ sp.workers, w.flags.isValid = true) ∧
        expandSection cfg need sp =
          (List.range need).foldl (fun sp _ => appendSlot cfg need sp) sp) := by
  rcases reuse_outcome need hexn hstarted sp.workers.length
      (Nat.le_refl _) with ⟨hsame, hvalid⟩ | ⟨i, w, hneed, hw, hinv, hthrow⟩
  · refine Or.inr ⟨hvalid.imp_right fun hall w hw => ?_, ?_⟩
    · obtain ⟨i, hi⟩ := List.mem_iff_getElem?.mp hw
      exact hall i w (List.getElem?_eq_some_iff.mp hi).1 hi
    · rw [expandSection, hsame]
  · refine Or.inl ⟨i, w, hneed, hw, hinv, ?_⟩
    rw [expandSection, hthrow, appendSlots_stuck cfg need _ rfl]

theorem expandSection_zero (cfg : Config) {sp : Spawn} (hexn : sp.exn = none)
    (hstarted : ∀ w ∈ sp.workers, w.property.Started) :
    expandSection cfg 0 sp = sp := by
  rcases expandSection_outcome cfg 0 sp hexn hstarted with ⟨i, w, hneed, -⟩ | ⟨-, happends⟩
  · exact absurd hneed (Nat.not_lt_zero _)
  · rw [happends]
    rfl

end ThreadPool.Normal
