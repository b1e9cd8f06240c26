import ThreadPool.Normal.Wired

/-!
# Counting threads

The laws about wake-ups, draining and shrinking count workers by what they
are doing. A count changes by one worker at a time, except where a broadcast
moves all the blocked ones, and this file says how.
-/

namespace ThreadPool.Normal

open Interleave

/-- The number of workers with a property. -/
def State.census (p : Worker → Bool) (s : State) : Nat := s.workers.countP p

theorem census_put_same {p : Worker → Bool} {s : State} {j : Nat} {w w' : Worker}
    (hw : s.workers[j]? = some w) (hp : p w' = p w) :
    (s.put j w').census p = s.census p := countP_set_same hw hp

theorem census_put_gain {p : Worker → Bool} {s : State} {j : Nat} {w w' : Worker}
    (hw : s.workers[j]? = some w) (hold : p w = false) (hnew : p w' = true) :
    (s.put j w').census p = s.census p + 1 := countP_set_gain hw hold hnew

theorem census_put_lose {p : Worker → Bool} {s : State} {j : Nat} {w : Worker}
    (hw : s.workers[j]? = some w) (w' : Worker) (hold : p w = true)
    (hnew : p w' = false) : s.census p = (s.put j w').census p + 1 :=
  countP_set_lose hw w' hold hnew

theorem countP_fresh {p : Worker → Bool} {b : Bool} {index handle : Nat} (n : Nat)
    (hp : ∀ k, p (freshWorker (index + k) (handle + k)) = b) :
    (freshWorkers index handle n).countP p = if b then n else 0 := by
  have hall : ∀ w ∈ freshWorkers index handle n, p w = b := by
    intro w hw
    obtain ⟨k, rfl⟩ := mem_freshWorkers hw
    exact hp k
  cases b with
  | true => rw [List.countP_eq_length.mpr hall, freshWorkers_length]; rfl
  | false => exact List.countP_eq_zero.mpr fun w hw => by simp [hall w hw]

theorem countP_notifyAll {p : Worker → Bool}
    (hp : ∀ w : Worker, w.native.pc = .blocked false →
      p (w.goto (.blocked true)) = p w) (ws : List Worker) :
    (notifyAll ws).countP p = ws.countP p := by
  rw [notifyAll, List.countP_map]
  refine List.countP_congr fun w _ => ?_
  simp only [Function.comp_apply]
  split
  · next hblocked => rw [← hp w hblocked]; rfl
  · rfl

theorem countP_notifyAll_add {p : Worker → Bool}
    (hp : ∀ w : Worker, w.native.pc = .blocked false → p w = false)
    (hp' : ∀ w : Worker, p (w.goto (.blocked true)) = true) (ws : List Worker) :
    (notifyAll ws).countP p =
      ws.countP p + ws.countP fun w => w.native.pc = .blocked false := by
  induction ws with
  | nil => rfl
  | cons w ws ih =>
      rw [notifyAll] at ih ⊢
      rw [List.map_cons, List.countP_cons, List.countP_cons, List.countP_cons, ih]
      split
      · next hblocked =>
          have hnew := hp' w
          rw [Worker.goto] at hnew
          simp only [hnew, hp w hblocked, hblocked]
          simp
          omega
      · next hawake =>
          simp [hawake]
          omega

end ThreadPool.Normal
