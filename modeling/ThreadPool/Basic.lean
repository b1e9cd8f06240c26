import ThreadPool.Lib.WorkQueue
import ThreadPool.Pthread.Thread

/-!
# What the two pools have in common

Tasks, shutdown policies, the flags of a worker slot, and the arithmetic of
the atomic counters. A task is a `std::function<void()>`; what matters of it
is which `Enqueue` call brought it, and whether it is empty, since a worker
tests that before calling it.
-/

namespace ThreadPool

open Interleave

/-- A task: the `Enqueue` call it came with, and whether there is anything
to call. -/
structure Task where
  id : Nat
  callable : Bool
  deriving DecidableEq, Repr

inductive ShutdownPolicy where
  | waitForAll
  | waitForTimeout
  | immediate
  deriving DecidableEq, Repr

/-- The members of `Worker` other than its thread: three atomics, and the
time point, in nanoseconds of the steady clock. -/
structure Flags where
  isValid : Bool := false
  shouldExit : Bool := false
  isIdle : Bool := false
  idleTimeStart : Nat := 0
  deriving DecidableEq, Repr

/-- `fetch_sub(1)` on a `std::atomic<size_t>`, which wraps at zero. -/
def fetchSub (n : Nat) : Nat := if n = 0 then 2 ^ 64 - 1 else n - 1

theorem fetchSub_of_pos {n : Nat} (h : 0 < n) : fetchSub n + 1 = n := by
  rw [fetchSub, if_neg (by omega)]
  omega

/-- `duration_cast<seconds>(now - idle_time_start)`. A time point later than
`now` gives a negative count in the source and zero here; the thresholds it
is compared with are positive. -/
def idleSeconds (now : Nat) (fl : Flags) : Nat :=
  (now - fl.idleTimeStart) / 1000000000

/-! ## The test in front of the call -/

variable {ω : Type*}

/-- What the test in front of the call decided: what was put away was empty,
what was started was not. -/
structure Tested (h : List (WorkEvent ω Task)) : Prop where
  dropped : ∀ t ∈ dropped h, t.callable = false
  started : ∀ t ∈ started h, t.callable = true

theorem tested_nil : Tested ([] : List (WorkEvent ω Task)) := ⟨nofun, nofun⟩

theorem Tested.concat {h : List (WorkEvent ω Task)} {e : WorkEvent ω Task}
    (hh : Tested h) (hdropped : ∀ t ∈ e.dropped?, t.callable = false)
    (hstarted : ∀ t ∈ e.started?, t.callable = true) : Tested (h ++ [e]) := by
  constructor
  · intro t ht
    rw [dropped_concat, List.mem_append, Option.mem_toList] at ht
    exact ht.elim (hh.dropped t) (hdropped t)
  · intro t ht
    rw [started_concat, List.mem_append, Option.mem_toList] at ht
    exact ht.elim (hh.started t) (hstarted t)

theorem Tested.discard {h : List (WorkEvent ω Task)} (hh : Tested h) (ts : List Task) :
    Tested (h ++ ts.map .discard) := by
  obtain ⟨-, -, hstarted, hdropped, -⟩ := readings_discard h ts
  exact ⟨by rw [hdropped]; exact hh.dropped, by rw [hstarted]; exact hh.started⟩

theorem one_place {q : WorkQueue ω Task} (hq : q.Lawful) (hh : Tested q.hist) {t : Task}
    (ht : t ∈ accepted q.hist) (hcall : t.callable = true) :
    q.queue.count t + WorkQueue.inHands q.held t + (started q.hist).count t +
      (discarded q.hist).count t = 1 := by
  have hbalance := hq.balance t
  have hcount : (accepted q.hist).count t = 1 :=
    Nat.le_antisymm (hq.accepted_count_le t) (List.count_pos_iff.mpr ht)
  have hdrop : (dropped q.hist).count t = 0 := by
    refine List.count_eq_zero.mpr fun hmem => ?_
    rw [hh.dropped t hmem] at hcall
    cases hcall
  omega

/-- A task has come to the end that the test in front of the call decides. -/
theorem fate_of_over {q : WorkQueue ω Task} (hq : q.Lawful) (hh : Tested q.hist) {t : Task}
    (hover : t ∈ finished q.hist ∨ t ∈ dropped q.hist) :
    if t.callable then t ∈ finished q.hist else t ∈ dropped q.hist := by
  rcases hover with hfinished | hdropped
  · have hcount := hq.startedCount t
    have hpos := List.count_pos_iff.mpr hfinished
    have hstarted : t ∈ started q.hist := List.count_pos_iff.mp (by omega)
    rw [if_pos (hh.started t hstarted)]
    exact hfinished
  · rw [if_neg (by simp [hh.dropped t hdropped])]
    exact hdropped

end ThreadPool
