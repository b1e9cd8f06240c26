import ThreadPool.Interval
import ThreadPool.Lib.Timespec
import ThreadPool.Pthread.Thread

/-!
# Deadlines of condition variables

`ConditionVariable::WaitFor` adds the time to the clock's reading, and
`WaitUntil` splits the sum into seconds and nanoseconds. Both are counts of
64 bits, and the split truncates. A sum that is negative, or past the end of
the range, so negative as well, gets a negative number of nanoseconds, unless
it is a whole number of seconds; no thread waits until such a time, the call
fails. The siblings do not get that far: `SleepFor` throws on a negative time
and `SleepUntil` returns. The monitors do wait for negative times, which
`AdjustCheckInterval` computes for a queue longer than the workers are many.
-/

namespace ThreadPool

/-- `EINVAL`. -/
def einval : Int := 22

/-- `ETIMEDOUT`. -/
def etimedout : Int := 110

/-- `ConditionVariable::WaitStatus`. -/
inductive WaitStatus where
  | nontimeout
  | timeout
  deriving DecidableEq, Repr

/-- `ConditionVariable::TimedWait`, where `pthread_cond_timedwait` returns
`res`. -/
def timedWait (strerror : Int → String) (res : Int) : Except Exn WaitStatus :=
  if res = 0 then .ok .nontimeout
  else if res = etimedout then .ok .timeout
  else .error (.runtimeError ("pthread_cond_timedwait failed: " ++ strerror res))

/-- What `pthread_cond_timedwait` returns, and what the clock shows when it
does. -/
structure CondTimedwait where
  res : Int
  wake : Int
  deriving DecidableEq, Repr

/-- A wait with a deadline: the `timespec` handed over, and the result. -/
structure TimedWaitRun where
  ts : Timespec
  result : Except Exn WaitStatus
  deriving DecidableEq, Repr

/-- The `timespec` that `WaitUntil` hands to `TimedWait`. -/
def waitUntilTimespec (absTime : Int) : Timespec :=
  let sec := absTime.tdiv 1000000000
  let nsec := absTime.tmod 1000000000
  ⟨sec, nsec⟩

/-- `ConditionVariable::WaitUntil`, where the call answers `a`. -/
def waitUntil (strerror : Int → String) (absTime : Int) (a : CondTimedwait) :
    TimedWaitRun :=
  ⟨waitUntilTimespec absTime, timedWait strerror a.res⟩

/-- `ConditionVariable::WaitFor`, where the clock shows `now`. -/
def waitFor (strerror : Int → String) (now relTime : Int) (a : CondTimedwait) :
    TimedWaitRun :=
  waitUntil strerror (wrapCount (now + relTime)) a

/-- What the manual says of `pthread_cond_timedwait`: it rejects a time whose
nanoseconds are out of range, and no other, and it does not time out before
the time. -/
def CondTimedwait.AsDocumented (a : CondTimedwait) (ts : Timespec) : Prop :=
  (a.res = einval ↔ ¬ts.Valid) ∧ (a.res = etimedout → ts.nanos ≤ a.wake)

/-- A wait until `deadline`: what is handed over is that time, the wait is not
rejected, and it does not time out before. -/
structure KeepsDeadline (deadline : Int) (wait : CondTimedwait → TimedWaitRun) : Prop where
  valid : ∀ a, (wait a).ts.Valid
  instant : ∀ a, (wait a).ts.nanos = deadline
  accepted : ∀ a : CondTimedwait, a.AsDocumented (wait a).ts → a.res ≠ einval
  expires : ∀ a : CondTimedwait, a.AsDocumented (wait a).ts →
    (wait a).result = .ok .timeout → deadline ≤ a.wake

section Wait

variable {strerror : Int → String}

theorem timedWait_timeout {res : Int} (h : timedWait strerror res = .ok .timeout) :
    res = etimedout := by
  rw [timedWait] at h
  split at h
  · cases h
  · split at h
    · assumption
    · cases h

/-- `WaitUntil` keeps the deadlines its split is right on. -/
theorem waitUntil_keeps {absTime deadline : Int} :
    KeepsDeadline deadline (waitUntil strerror absTime) ↔
      absTime = deadline ∧ (0 ≤ deadline ∨ 1000000000 ∣ deadline) := by
  have hts : ∀ a, (waitUntil strerror absTime a).ts = .truncate absTime := fun _ => rfl
  constructor
  · intro h
    have hvalid := h.valid ⟨0, 0⟩
    have hexact := h.instant ⟨0, 0⟩
    rw [hts, Timespec.nanos_truncate] at hexact
    rw [hts, Timespec.truncate_valid_iff, hexact] at hvalid
    exact ⟨hexact, hvalid⟩
  · rintro ⟨rfl, hsplit⟩
    have hvalid : (Timespec.truncate absTime).Valid := Timespec.truncate_valid_iff.mpr hsplit
    refine ⟨fun a => ?_, fun a => ?_, fun a hdoc hres => ?_, fun a hdoc hout => ?_⟩
    · rw [hts]
      exact hvalid
    · rw [hts, Timespec.nanos_truncate]
    · rw [hts] at hdoc
      exact hdoc.1.mp hres hvalid
    · have hle := hdoc.2 (timedWait_timeout hout)
      rwa [hts, Timespec.nanos_truncate] at hle

/-- The sum fits, and the split is right on it. -/
def Splittable (now relTime : Int) : Prop :=
  now + relTime < 2 ^ 63 ∧ (0 ≤ now + relTime ∨ 1000000000 ∣ now + relTime)

instance (now relTime : Int) : Decidable (Splittable now relTime) :=
  inferInstanceAs (Decidable (_ ∧ _))

/-- `WaitUntil` keeps a deadline exactly where it is not negative or is a
whole number of seconds, and `WaitFor` exactly where the sum is such a one
and fits. -/
theorem deadline_kept_iff (strerror : Int → String) :
    (∀ absTime : Int, KeepsDeadline absTime (waitUntil strerror absTime) ↔
      0 ≤ absTime ∨ 1000000000 ∣ absTime) ∧
    ∀ now relTime : Int, 0 ≤ now → now < 2 ^ 63 → -2 ^ 63 ≤ relTime → relTime < 2 ^ 63 →
      (KeepsDeadline (now + relTime) (waitFor strerror now relTime) ↔
        Splittable now relTime) := by
  refine ⟨fun absTime => ?_, fun now relTime hnow hnowlt hlo hhi => ?_⟩
  · rw [waitUntil_keeps]
    exact and_iff_right rfl
  · have hfits : wrapCount (now + relTime) = now + relTime ↔ now + relTime < 2 ^ 63 := by
      by_cases hlt : now + relTime < 2 ^ 63
      · exact iff_of_true (wrapCount_of_fits (by omega) hlt) hlt
      · refine iff_of_false ?_ hlt
        rw [wrapCount_of_over (by omega) (by omega)]
        omega
    rw [Splittable, ← hfits]
    exact waitUntil_keeps

/-- A second after the clock's start, with two tasks for one worker: the
interval is negative, further from zero than what the clock shows, and no
whole number of seconds. -/
theorem negative_deadline_rejected :
    Normal.adjustCheckInterval 2 1 = some (-4800) ∧
      ¬KeepsDeadline (1000000000 + -4800 * 1000000)
        (waitFor (fun _ => "") 1000000000 (-4800 * 1000000)) := by
  refine ⟨by decide +kernel, fun h => ?_⟩
  exact absurd (h.valid ⟨0, 0⟩) (by decide)

/-- Half a second less than the clock shows, and it shows a second. -/
theorem deadline_kept_iff_past :
    KeepsDeadline (1000000000 + -500000000)
      (waitFor (fun _ => "") 1000000000 (-500000000)) :=
  ((deadline_kept_iff fun _ => "").2 1000000000 (-500000000) (by decide) (by decide)
    (by decide) (by decide)).mpr (by decide)

end Wait

end ThreadPool
