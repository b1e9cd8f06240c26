import ThreadPool.Numa.Wired

/-!
# Counting threads, node by node

As for `NormalThreadPool`, a count of workers changes by one worker at a
time, except where a broadcast moves the sleepers of a node.
-/

namespace ThreadPool.Numa

open Interleave

/-- The number of workers with a property, pushed or yet to be pushed. -/
def State.census (p : Worker → Bool) (s : State) : Nat := s.workers.countP p

theorem census_put_same {p : Worker → Bool} {s : State} {j : Nat} {w w' : Worker}
    (hw : s.workers[j]? = some w) (hp : p w' = p w) :
    (s.put j w').census p = s.census p := countP_set_same hw hp

theorem census_put_lose {p : Worker → Bool} {s : State} {j : Nat} {w : Worker}
    (hw : s.workers[j]? = some w) (w' : Worker) (hold : p w = true)
    (hnew : p w' = false) : s.census p = (s.put j w').census p + 1 :=
  countP_set_lose hw w' hold hnew

theorem census_spawn {p : Worker → Bool} {s : State} {n : Nat}
    (hp : p (freshWorker n s.pushed s.nextHandle) = false) :
    (s.spawn n).census p = s.census p := by
  rw [State.census, State.spawn, List.countP_append, List.countP_singleton, hp]
  rfl

theorem countP_notifyAll {p : Worker → Bool} {n : Nat}
    (hp : ∀ w : Worker, w.asleepOn n = true → p (w.goto (.blocked true)) = p w)
    (ws : List Worker) : (notifyAll n ws).countP p = ws.countP p := by
  rw [notifyAll, List.countP_map]
  refine List.countP_congr fun w _ => ?_
  simp only [Function.comp_apply]
  split
  · next hasleep => rw [← hp w hasleep]; rfl
  · rfl

end ThreadPool.Numa
