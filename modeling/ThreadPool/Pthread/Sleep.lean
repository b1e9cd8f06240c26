import ThreadPool.Lib.Timespec
import ThreadPool.Pthread.Thread

/-!
# Sleeping

`this_thread::SleepFor` and `SleepUntil`. `SleepFor` calls `nanosleep` again
after every signal, with the `timespec` the call before left the remainder
in. `SleepUntil` makes one call of `clock_nanosleep`, and what is meant as a
comparison with `EINTR` is an assignment: whatever the call answers, the
function returns.

What the calls answer is an argument. Times are nanoseconds, in counts of
64 bits.
-/

namespace ThreadPool

/-- `EINTR`. -/
def eintr : Int := 4

/-- A `std::chrono::duration`: how many ticks, of how many nanoseconds. -/
structure Duration where
  count : Int
  tick : Nat
  deriving DecidableEq, Repr

instance : LT Duration where
  lt d e := d.count * d.tick < e.count * e.tick

instance (d e : Duration) : Decidable (d < e) :=
  inferInstanceAs (Decidable (d.count * d.tick < e.count * e.tick))

/-- `std::chrono::milliseconds`. -/
def milliseconds (ms : Int) : Duration := ⟨ms, 1000000⟩

/-- `std::chrono::duration_cast` to nanoseconds. -/
def Duration.nanoseconds (d : Duration) : Int := wrapCount (d.count * d.tick)

/-! ## For a time -/

/-- What a call of `nanosleep` leaves: its result, `errno`, and the remainder
in the `timespec` it was passed. -/
structure Nanosleep where
  res : Int := 0
  errno : Int := 0
  rem : Timespec := ⟨0, 0⟩
  deriving DecidableEq, Repr

/-- What came of a sleep: the `timespec` each call of `nanosleep` was passed,
and how the function ended, unless it is still in the last call. -/
structure SleepRun where
  calls : List Timespec
  outcome : Option Outcome
  deriving DecidableEq, Repr

/-- The loop of `SleepFor`: a call that a signal ends is made again, with the
remainder it left. -/
def nanosleepLoop (strerror : Int → String) (ts : Timespec) : List Nanosleep → SleepRun
  | [] => ⟨[ts], none⟩
  | a :: rest =>
      if a.res = 0 then ⟨[ts], some .returned⟩
      else if a.errno = eintr then
        let r := nanosleepLoop strerror a.rem rest
        ⟨ts :: r.calls, r.outcome⟩
      else
        ⟨[ts], some (.threw (.runtimeError ("nanosleep failed: " ++ strerror a.res)))⟩

/-- `this_thread::SleepFor`, where the calls answer what the list says. -/
def sleepFor (strerror : Int → String) (sleepDuration : Duration)
    (answers : List Nanosleep) : SleepRun :=
  if sleepDuration < milliseconds 0 then
    ⟨[], some (.threw (.invalidArgument "Sleep duration cannot be negative"))⟩
  else
    let sleepTime := sleepDuration.nanoseconds
    if sleepTime < 0 then
      ⟨[], some (.threw (.invalidArgument "Sleep duration cannot be negative"))⟩
    else if sleepTime = 0 then ⟨[], some .returned⟩
    else
      nanosleepLoop strerror
        ⟨sleepTime.tdiv 1000000000, sleepTime.tmod 1000000000⟩ answers

/-- `this_thread::SleepFor` of an `int`. -/
def sleepForMs (strerror : Int → String) (ms : Int) (answers : List Nanosleep) : SleepRun :=
  if ms < 0 then
    ⟨[], some (.threw (.invalidArgument "Sleep duration cannot be negative"))⟩
  else sleepFor strerror (milliseconds ms) answers

/-- A signal ended the call. -/
def Nanosleep.Interrupted (a : Nanosleep) : Prop := a.res ≠ 0 ∧ a.errno = eintr

instance (a : Nanosleep) : Decidable a.Interrupted := inferInstanceAs (Decidable (_ ∧ _))

/-- What the manual says of `nanosleep`: a call that a signal ends leaves a
`timespec` with no more than it was passed. -/
def Remainders : Timespec → List Nanosleep → Prop
  | _, [] => True
  | ts, a :: rest =>
      a.Interrupted →
        (a.rem.Valid ∧ 0 ≤ a.rem.nanos ∧ a.rem.nanos ≤ ts.nanos) ∧ Remainders a.rem rest

/-- How long a call slept, from what it was passed and what it answered: the
whole time, the time less the remainder where a signal ended it, and not at all
where it failed. -/
def Nanosleep.slept (ts : Timespec) (a : Nanosleep) : Int :=
  if a.res = 0 then ts.nanos else if a.errno = eintr then ts.nanos - a.rem.nanos else 0

/-- How long the calls slept together. -/
def timeSlept (calls : List Timespec) (answers : List Nanosleep) : Int :=
  (List.zipWith Nanosleep.slept calls answers).sum

/-- The answer the loop ends with. -/
def settling (answers : List Nanosleep) : Option Nanosleep :=
  answers.find? fun a => ¬a.Interrupted

/-- A sleep of `total` nanoseconds, told by the calls and their answers. The
first call is passed the whole time and each other what the one before left,
which a signal had ended. What was slept before a call and what it is passed
make up the whole. A sleep that returns has slept the whole, and its last call
answered zero. It returns once a call is not interrupted, and it throws on an
error that is not `EINTR`, and only then. -/
structure SleepsWhole (total : Int) (answers : List Nanosleep) (r : SleepRun) : Prop where
  first : 0 < total → ∃ ts, r.calls.head? = some ts ∧ ts.nanos = total
  next : ∀ i ts, r.calls[i + 1]? = some ts →
    ∃ a, answers[i]? = some a ∧ a.Interrupted ∧ ts = a.rem
  calls : ∀ i ts, r.calls[i]? = some ts →
    0 ≤ ts.tvSec ∧ ts.Valid ∧ timeSlept (r.calls.take i) answers + ts.nanos = total
  whole : r.outcome = some .returned → timeSlept r.calls answers = total
  last : r.outcome = some .returned → 0 < total →
    ∃ a, answers[r.calls.length - 1]? = some a ∧ a.res = 0
  returns : r.outcome = some .returned ↔
    total = 0 ∨ ∃ a ∈ settling answers, a.res = 0
  throws : (∃ e, r.outcome = some (.threw e)) ↔
    0 < total ∧ ∃ a ∈ settling answers, a.res ≠ 0

section Loop

variable {strerror : Int → String}

@[simp] theorem timeSlept_cons (ts : Timespec) (calls : List Timespec) (a : Nanosleep)
    (answers : List Nanosleep) :
    timeSlept (ts :: calls) (a :: answers) = a.slept ts + timeSlept calls answers := rfl

theorem slept_of_zero {ts : Timespec} {a : Nanosleep} (h : a.res = 0) :
    a.slept ts = ts.nanos := by
  rw [Nanosleep.slept, if_pos h]

theorem slept_of_interrupted {ts : Timespec} {a : Nanosleep} (h : a.Interrupted) :
    a.slept ts = ts.nanos - a.rem.nanos := by
  rw [Nanosleep.slept, if_neg h.1, if_pos h.2]

theorem settling_of_settled {a : Nanosleep} {rest : List Nanosleep} (h : ¬a.Interrupted) :
    settling (a :: rest) = some a := by
  simp [settling, h]

theorem settling_of_interrupted {a : Nanosleep} {rest : List Nanosleep} (h : a.Interrupted) :
    settling (a :: rest) = settling rest := by
  simp [settling, h]

/-- What the loop makes of a list of answers: the list is used up in a call, or
an answer ends the loop, or a signal ended the call and the loop goes on from
what it left. -/
inductive Rounds (strerror : Int → String) : Timespec → List Nanosleep → SleepRun → Prop
  | asleep (ts : Timespec) : Rounds strerror ts [] ⟨[ts], none⟩
  | returns {ts : Timespec} {a : Nanosleep} {rest : List Nanosleep} (hres : a.res = 0) :
      Rounds strerror ts (a :: rest) ⟨[ts], some .returned⟩
  | again {ts : Timespec} {a : Nanosleep} {rest : List Nanosleep} {calls : List Timespec}
      {outcome : Option Outcome} (hint : a.Interrupted)
      (hrest : Rounds strerror a.rem rest ⟨a.rem :: calls, outcome⟩) :
      Rounds strerror ts (a :: rest) ⟨ts :: a.rem :: calls, outcome⟩
  | throws {ts : Timespec} {a : Nanosleep} {rest : List Nanosleep} (hres : a.res ≠ 0)
      (herr : a.errno ≠ eintr) :
      Rounds strerror ts (a :: rest)
        ⟨[ts], some (.threw (.runtimeError ("nanosleep failed: " ++ strerror a.res)))⟩

variable {ts : Timespec} {answers : List Nanosleep} {r : SleepRun}

theorem Rounds.first (h : Rounds strerror ts answers r) :
    ∃ calls, r.calls = ts :: calls := by
  cases h with
  | asleep | returns | throws => exact ⟨[], rfl⟩
  | again => exact ⟨_, rfl⟩

/-- The loop, round by round. -/
theorem nanosleepLoop_rounds (ts : Timespec) (answers : List Nanosleep) :
    Rounds strerror ts answers (nanosleepLoop strerror ts answers) := by
  induction answers generalizing ts with
  | nil => exact .asleep ts
  | cons a rest ih =>
      rw [nanosleepLoop]
      split
      · next hres => exact .returns hres
      · next hres =>
          split
          · next herr =>
              have hrest := ih a.rem
              obtain ⟨calls, hcalls⟩ := hrest.first
              generalize nanosleepLoop strerror a.rem rest = r at hrest hcalls
              obtain ⟨_, outcome⟩ := r
              obtain rfl : _ = a.rem :: calls := hcalls
              exact .again ⟨hres, herr⟩ hrest
          · next herr => exact .throws hres herr

/-- Only a call that a signal ended is followed by another, which is passed what
it left. -/
theorem Rounds.next (h : Rounds strerror ts answers r) :
    ∀ i c, r.calls[i + 1]? = some c →
      ∃ a, answers[i]? = some a ∧ a.Interrupted ∧ c = a.rem := by
  induction h with
  | asleep | returns | throws =>
      intro i c hc
      cases hc
  | @again ts a rest calls outcome hint _ ih =>
      intro i c hc
      cases i with
      | zero => exact ⟨a, rfl, hint, (Option.some.inj hc).symm⟩
      | succ i => exact ih i c hc

/-- The invariant of the loop: slept and left make up the whole. -/
theorem Rounds.calls (h : Rounds strerror ts answers r) (hvalid : ts.Valid)
    (hpos : 0 ≤ ts.nanos) (hrem : Remainders ts answers) :
    ∀ i c, r.calls[i]? = some c →
      0 ≤ c.tvSec ∧ c.Valid ∧ timeSlept (r.calls.take i) answers + c.nanos = ts.nanos := by
  have hfirst : 0 ≤ ts.tvSec ∧ ts.Valid ∧ timeSlept [] answers + ts.nanos = ts.nanos :=
    ⟨hvalid.tvSec_nonneg_iff.mpr hpos, hvalid, Int.zero_add _⟩
  induction h with
  | asleep | returns | throws =>
      intro i c hc
      cases i with
      | zero =>
          obtain rfl := Option.some.inj hc
          exact hfirst
      | succ i => cases hc
  | @again ts a rest calls outcome hint _ ih =>
      intro i c hc
      cases i with
      | zero =>
          obtain rfl := Option.some.inj hc
          exact hfirst
      | succ i =>
          obtain ⟨⟨hrvalid, hrpos, -⟩, hrest⟩ := hrem hint
          have hrfirst : 0 ≤ a.rem.tvSec ∧ a.rem.Valid ∧
              timeSlept [] rest + a.rem.nanos = a.rem.nanos :=
            ⟨hrvalid.tvSec_nonneg_iff.mpr hrpos, hrvalid, Int.zero_add _⟩
          obtain ⟨hsec, hcvalid, hsum⟩ := ih hrvalid hrpos hrest hrfirst i c hc
          refine ⟨hsec, hcvalid, ?_⟩
          show timeSlept (ts :: (a.rem :: calls).take i) (a :: rest) + c.nanos = ts.nanos
          rw [timeSlept_cons, slept_of_interrupted hint]
          exact (Int.add_assoc _ _ _).trans (by rw [hsum, Int.sub_add_cancel])

theorem Rounds.whole (h : Rounds strerror ts answers r) (hret : r.outcome = some .returned) :
    timeSlept r.calls answers = ts.nanos := by
  induction h with
  | asleep | throws => cases hret
  | returns hres =>
      rw [timeSlept_cons, slept_of_zero hres]
      exact Int.add_zero _
  | again hint _ ih =>
      rw [timeSlept_cons, slept_of_interrupted hint, ih hret, Int.sub_add_cancel]

/-- The call that the loop returns from answered zero. -/
theorem Rounds.last (h : Rounds strerror ts answers r) (hret : r.outcome = some .returned) :
    ∃ a, answers[r.calls.length - 1]? = some a ∧ a.res = 0 := by
  induction h with
  | asleep | throws => cases hret
  | @returns ts a rest hres => exact ⟨a, rfl, hres⟩
  | again _ _ ih => exact ih hret

/-- The loop ends as the first answer that is not `EINTR` says. -/
theorem Rounds.outcome (h : Rounds strerror ts answers r) :
    r.outcome = (settling answers).map fun a =>
      if a.res = 0 then .returned
      else .threw (.runtimeError ("nanosleep failed: " ++ strerror a.res)) := by
  induction h with
  | asleep => rfl
  | @returns ts a rest hres =>
      rw [settling_of_settled fun hint => hint.1 hres, Option.map_some, if_pos hres]
  | @again ts a rest calls outcome hint _ ih =>
      rw [settling_of_interrupted hint]
      exact ih
  | @throws ts a rest hres herr =>
      rw [settling_of_settled fun hint => herr hint.2, Option.map_some, if_neg hres]

/-- A sleep of a time that fits. -/
theorem sleepFor_sleepsWhole {d : Duration} (htotal : 0 ≤ d.count * d.tick)
    (hfits : d.count * d.tick < 2 ^ 63) {answers : List Nanosleep}
    (hrem : Remainders (.truncate (d.count * d.tick)) answers) :
    SleepsWhole (d.count * d.tick) answers (sleepFor strerror d answers) := by
  have hnanos : d.nanoseconds = d.count * d.tick := wrapCount_of_fits (by omega) hfits
  have hnonneg : ¬d < milliseconds 0 := by
    show ¬d.count * d.tick < 0 * 1000000
    omega
  rw [sleepFor, if_neg hnonneg, hnanos]
  simp only [if_neg (Int.not_lt.mpr htotal)]
  by_cases hzero : d.count * d.tick = 0
  · rw [if_pos hzero, hzero]
    exact {
      first := fun h => absurd h (Int.lt_irrefl 0)
      next := fun _ _ h => by cases h
      calls := fun _ _ h => by cases h
      whole := fun _ => rfl
      last := fun _ h => absurd h (Int.lt_irrefl 0)
      returns := ⟨fun _ => Or.inl rfl, fun _ => rfl⟩
      throws := ⟨fun ⟨_, he⟩ => (by cases he), fun h => absurd h.1 (Int.lt_irrefl 0)⟩ }
  · rw [if_neg hzero, ← Timespec.truncate]
    have hts : (Timespec.truncate (d.count * d.tick)).nanos = d.count * d.tick :=
      Timespec.nanos_truncate _
    have hrounds : Rounds strerror _ answers _ :=
      nanosleepLoop_rounds (Timespec.truncate (d.count * d.tick)) answers
    have hcalls := hrounds.calls (Timespec.truncate_valid htotal) (by omega) hrem
    rw [hts] at hcalls
    exact {
      first := fun _ => by
        obtain ⟨calls, hfirst⟩ := hrounds.first
        exact ⟨_, by rw [hfirst, List.head?_cons], hts⟩
      next := hrounds.next
      calls := hcalls
      whole := fun hret => (hrounds.whole hret).trans hts
      last := fun hret _ => hrounds.last hret
      returns := by
        rw [hrounds.outcome]
        constructor
        · intro hret
          obtain ⟨a, ha, hout⟩ := Option.map_eq_some_iff.mp hret
          refine Or.inr ⟨a, ha, ?_⟩
          by_contra hres
          rw [if_neg hres] at hout
          cases hout
        · rintro (h | ⟨a, ha, hres⟩)
          · exact absurd h hzero
          · exact Option.map_eq_some_iff.mpr ⟨a, ha, if_pos hres⟩
      throws := by
        rw [hrounds.outcome]
        constructor
        · rintro ⟨e, he⟩
          obtain ⟨a, ha, hout⟩ := Option.map_eq_some_iff.mp he
          refine ⟨by omega, a, ha, fun hres => ?_⟩
          rw [if_pos hres] at hout
          cases hout
        · rintro ⟨-, a, ha, hres⟩
          exact ⟨_, Option.map_eq_some_iff.mpr ⟨a, ha, if_neg hres⟩⟩ }

/-- Both overloads: every time whose nanoseconds fit 64 bits, and every
`int` of milliseconds, however often the calls are interrupted. -/
theorem sleep_is_whole (strerror : Int → String) :
    (∀ (d : Duration) (answers : List Nanosleep), 0 ≤ d.count * d.tick →
      d.count * d.tick < 2 ^ 63 → Remainders (.truncate (d.count * d.tick)) answers →
      SleepsWhole (d.count * d.tick) answers (sleepFor strerror d answers)) ∧
    ∀ (ms : Int) (answers : List Nanosleep), 0 ≤ ms → ms < 2 ^ 31 →
      Remainders (.truncate (ms * 1000000)) answers →
      SleepsWhole (ms * 1000000) answers (sleepForMs strerror ms answers) := by
  refine ⟨fun d answers hpos hfits hrem => sleepFor_sleepsWhole hpos hfits hrem,
    fun ms answers hpos hlt hrem => ?_⟩
  rw [sleepForMs, if_neg (Int.not_lt.mpr hpos)]
  have htotal : (milliseconds ms).count * (milliseconds ms).tick = ms * 1000000 := rfl
  rw [← htotal] at hrem ⊢
  exact sleepFor_sleepsWhole (by omega) (by omega) hrem

/-- Two seconds and a half, interrupted after one, and again at the end. -/
theorem sleep_is_whole_interrupted :
    SleepsWhole 2500000000
      [⟨-1, eintr, ⟨1, 500000000⟩⟩, ⟨-1, eintr, ⟨0, 0⟩⟩, ⟨0, 0, ⟨0, 0⟩⟩]
      (sleepForMs (fun _ => "") 2500
        [⟨-1, eintr, ⟨1, 500000000⟩⟩, ⟨-1, eintr, ⟨0, 0⟩⟩, ⟨0, 0, ⟨0, 0⟩⟩]) := by
  refine (sleep_is_whole fun _ => "").2 2500 _ (by decide) (by decide) ?_
  exact fun _ => ⟨by decide, fun _ => ⟨by decide, fun h => absurd rfl h.1⟩⟩

end Loop

/-! ## Until a time -/

/-- What the clocks show to a call of `SleepUntil`: the caller's clock, then
the system's, which runs `offset` ahead of it. -/
structure Clocks where
  now : Int
  sysNow : Int
  offset : Int
  now_nonneg : 0 ≤ now
  sysNow_nonneg : 0 ≤ sysNow
  sysNow_lt : sysNow < 2 ^ 63
  later : now + offset ≤ sysNow

/-- What a call of `clock_nanosleep` returns, and what the system's clock
shows when it does. -/
structure ClockNanosleep where
  res : Int
  wake : Int
  deriving DecidableEq, Repr

/-- What the manual says of `clock_nanosleep` until a time: it reports success
only of a time that is one, and not before it. -/
def ClockNanosleep.AsDocumented (a : ClockNanosleep) (ts : Timespec) : Prop :=
  a.res = 0 → 0 ≤ ts.tvSec ∧ ts.Valid ∧ ts.nanos ≤ a.wake

/-- The `timespec` that `this_thread::SleepUntil` passes, if it makes the
call: the target as the system's clock is going to show it. -/
def sleepUntilTimespec (clocks : Clocks) (absTime : Int) : Option Timespec :=
  if absTime ≤ clocks.now then none
  else
    let sysTime := wrapCount (wrapCount (absTime - clocks.now) + clocks.sysNow)
    let seconds := sysTime.tdiv 1000000000
    some ⟨seconds, sysTime - seconds * 1000000000⟩

/-- `this_thread::SleepUntil`, where the one call answers `a`. The test for
`EINTR` assigns it to `res`, so it is never false. -/
def sleepUntil (strerror : Int → String) (clocks : Clocks) (absTime : Int)
    (a : ClockNanosleep) : Outcome :=
  match sleepUntilTimespec clocks absTime with
  | none => .returned
  | some _ =>
      if a.res ≠ 0 then
        let res := eintr
        if res ≠ 0 then .returned
        else .threw (.runtimeError ("clock_nanosleep failed: " ++ strerror res))
      else .returned

/-- A return means that the target has been reached, and a failure that is
not `EINTR` throws. -/
def WakesTruthfully (clocks : Clocks) (absTime : Int) (a : ClockNanosleep) (o : Outcome) :
    Prop :=
  (o = .returned → absTime + clocks.offset ≤ a.wake) ∧
  (a.res ≠ 0 → a.res ≠ eintr → ∃ what, o = .threw (.runtimeError what))

theorem sleepUntil_returns (strerror : Int → String) (clocks : Clocks) (absTime : Int)
    (a : ClockNanosleep) : sleepUntil strerror clocks absTime a = .returned := by
  rw [sleepUntil]
  split
  · rfl
  · split
    · exact if_pos (by decide)
    · rfl

/-- What is passed for a target in the future. -/
theorem sleepUntilTimespec_eq {clocks : Clocks} {absTime : Int}
    (hfuture : clocks.now < absTime) (hfits : absTime < 2 ^ 63) :
    sleepUntilTimespec clocks absTime =
      some (.truncate (wrapCount (absTime - clocks.now + clocks.sysNow))) := by
  have hnow := clocks.now_nonneg
  have hsplit := Int.tdiv_mul_add_tmod
    (wrapCount (absTime - clocks.now + clocks.sysNow)) 1000000000
  rw [sleepUntilTimespec, if_neg (by omega),
    wrapCount_of_fits (n := absTime - clocks.now) (by omega) (by omega)]
  simp only [Timespec.truncate, Option.some_inj, Timespec.mk.injEq, true_and]
  omega

/-- A success means that the target has been reached. -/
theorem reached_of_success {clocks : Clocks} {absTime : Int} (hfuture : clocks.now < absTime)
    (hfits : absTime < 2 ^ 63) {a : ClockNanosleep}
    (hdoc : ∀ ts ∈ sleepUntilTimespec clocks absTime, a.AsDocumented ts)
    (hres : a.res = 0) : absTime + clocks.offset ≤ a.wake := by
  have hnow := clocks.now_nonneg
  have hsys := clocks.sysNow_nonneg
  have hsyslt := clocks.sysNow_lt
  have hlater := clocks.later
  obtain ⟨hsec, hvalid, hwake⟩ := hdoc _ (sleepUntilTimespec_eq hfuture hfits) hres
  have hpos := hvalid.tvSec_nonneg_iff.mp hsec
  rw [Timespec.nanos_truncate] at hwake hpos
  by_cases hover : absTime - clocks.now + clocks.sysNow < 2 ^ 63
  · rw [wrapCount_of_fits (by omega) hover] at hwake
    omega
  · -- past the end of the range the count is negative, and no such time succeeds
    rw [wrapCount_of_over (by omega) (by omega)] at hpos
    omega

/-- A sleep until a time in the future tells the truth about its end exactly
where the call succeeds, or a signal ends it at the target or after. -/
theorem sleepUntil_truthful_iff (strerror : Int → String) (clocks : Clocks) {absTime : Int}
    (hfuture : clocks.now < absTime) (hfits : absTime < 2 ^ 63) {a : ClockNanosleep}
    (hdoc : ∀ ts ∈ sleepUntilTimespec clocks absTime, a.AsDocumented ts) :
    WakesTruthfully clocks absTime a (sleepUntil strerror clocks absTime a) ↔
      a.res = 0 ∨ a.res = eintr ∧ absTime + clocks.offset ≤ a.wake := by
  rw [sleepUntil_returns, WakesTruthfully]
  constructor
  · rintro ⟨hreached, hthrows⟩
    by_cases hres : a.res = 0
    · exact Or.inl hres
    · refine Or.inr ⟨?_, hreached rfl⟩
      by_contra hintr
      obtain ⟨what, hthrew⟩ := hthrows hres hintr
      cases hthrew
  · rintro (hres | ⟨hintr, hreached⟩)
    · exact ⟨fun _ => reached_of_success hfuture hfits hdoc hres,
        fun hne => absurd hres hne⟩
    · exact ⟨fun _ => hreached, fun _ hne => absurd hintr hne⟩

/-- The clocks of the examples. -/
def epoch : Clocks :=
  ⟨0, 1000000000, 1000000000, by decide, by decide, by decide, by decide⟩

/-- Ten seconds ahead, and a signal after one. -/
theorem signal_wakes_early :
    ¬∀ (clocks : Clocks) (absTime : Int) (a : ClockNanosleep),
      clocks.now < absTime → absTime < 2 ^ 63 →
      (∀ ts ∈ sleepUntilTimespec clocks absTime, a.AsDocumented ts) →
      WakesTruthfully clocks absTime a (sleepUntil (fun _ => "") clocks absTime a) := by
  intro hall
  have htrue := hall epoch 10000000000 ⟨eintr, 2000000000⟩ (by decide) (by decide)
    fun _ _ hres => absurd hres (by decide)
  exact absurd (htrue.1 rfl) (by decide)

/-- Ten seconds ahead, and no signal. -/
theorem sleepUntil_truthful_iff_undisturbed :
    WakesTruthfully epoch 10000000000 ⟨0, 11000000000⟩
      (sleepUntil (fun _ => "") epoch 10000000000 ⟨0, 11000000000⟩) := by
  refine (sleepUntil_truthful_iff (fun _ => "") epoch (by decide) (by decide) ?_).mpr
    (Or.inl rfl)
  intro ts hts hres
  obtain rfl : ts = ⟨11, 0⟩ := (Option.some.inj hts).symm
  decide

end ThreadPool
