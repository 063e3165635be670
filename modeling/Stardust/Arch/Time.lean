import Stardust.Kernel
import Stardust.Lib.SeqLock

/-! # Time

Xen publishes the time of a processor, and the wall-clock time, under a version.  The kernel
takes a copy in `get_time_values_from_xen`, which the timer interrupt may come in between of,
and reads the copy in `monotonic_clock`. -/
set_option autoImplicit false
namespace Stardust.Arch

open Stardust.Lib

/-- The fields of `struct vcpu_time_info` that are copied. -/
inductive TimeField
  | tscTimestamp
  | systemTime
  | tscToSystemMul
  | tscShift
  deriving DecidableEq

/-- `HYPERVISOR_shared_info->vcpu_info[cpu].time`, `shadow_time` of the same processor, and the
calls that are going on there. -/
abbrev CpuTime := SeqLock TimeField Int

/-- The order of the assignments in `get_time_values_from_xen`. -/
def shadowOrder : List TimeField := [.tscTimestamp, .systemTime, .tscToSystemMul, .tscShift]

/-- `shadow->system_timestamp + get_nsec_offset()` -/
def clockOrder : List TimeField := [.systemTime, .tscTimestamp, .tscToSystemMul, .tscShift]

/-- The steps of Xen, of the timer interrupt and of `monotonic_clock`. -/
def CpuTime.exec (s : CpuTime) (turn : SeqTurn TimeField Int) : Option CpuTime :=
  SeqLock.exec shadowOrder clockOrder (2 ^ 32) s turn

/-- Between a look at a version and the comparison with it there are fewer than 2^32 updates. -/
abbrev CpuTime.Reached (s : CpuTime) : Prop :=
  Reach SeqLock.Fresh (fun before turn after => CpuTime.exec before turn = some after)
    (fun before turn => before.Timely (2 ^ 32) turn) s

/-- `HYPERVISOR_shared_info` and `shadow_ts` -/
inductive WallField
  | wcSec
  | wcNsec
  deriving DecidableEq

abbrev WallTime := SeqLock WallField Int

/-- The steps of Xen and of `update_wallclock`, which nothing reads in between. -/
def WallTime.exec (s : WallTime) (turn : SeqTurn WallField Int) : Option WallTime :=
  SeqLock.exec [.wcSec, .wcNsec] [] (2 ^ 32) s turn

abbrev WallTime.Reached (s : WallTime) : Prop :=
  Reach SeqLock.Fresh (fun before turn after => WallTime.exec before turn = some after)
    (fun before turn => before.Timely (2 ^ 32) turn) s

/-! ## Nanoseconds -/

/-- `scale_delta`: `mul` makes 128 bits of which `shrd` leaves those from 32 on. -/
def scaleDelta (delta mulFrac : Nat) (shift : Int) : Nat :=
  let delta := if shift < 0 then delta >>> (-shift).toNat else (delta <<< shift.toNat) % 2 ^ 64
  ((delta * mulFrac) >>> 32) % 2 ^ 64

/-- What `monotonic_clock` makes of the shadow, with the time stamp counter at `now`. -/
def monotonicTime (shadow : TimeField → Int) (now : Nat) : Nat :=
  ulongAdd (ulongOfInt (shadow .systemTime))
    (scaleDelta (ulongSub now (ulongOfInt (shadow .tscTimestamp))) (ulongOfInt (shadow .tscToSystemMul))
      (shadow .tscShift))

/-- The result of a call of `monotonic_clock` that is done. -/
def monotonicClock (s : CpuTime) (now : Nat) : Nat := monotonicTime (fun field => (s.got field).getD 0) now

structure Timeval where
  tvSec : Nat
  tvUsec : Nat

/-- `gettimeofday`, with what `monotonic_clock` returns; `none` is its `BUG_ON`. -/
def gettimeofday (shadowTs : WallTime) (monotonic : Nat) : Option Timeval :=
  let nsec := ulongAdd monotonic (ulongOfInt (shadowTs.copy .wcNsec))
  if shadowTs.version = 0 then none
  else some ⟨ulongAdd (ulongOfInt (shadowTs.copy .wcSec)) (nsec / 1000000000), nsec % 1000000000 / 1000⟩

/-! ## One record -/

theorem CpuTime.reached_sound {s : CpuTime} (reached : s.Reached) : s.Sound clockOrder (2 ^ 32) := by
  refine SeqLock.Sound.of_reach (by decide) (by decide) (fun field => ?_) reached
  cases field <;> decide

/-- Whenever no `get_time_values_from_xen` is going on, the shadow is one published record
with its version, however the interrupts have come in between of each other and of Xen. -/
theorem CpuTime.shadow_settled {s : CpuTime} (reached : s.Reached) (quiet : s.frames = []) : s.Settled (2 ^ 32) :=
  (CpuTime.reached_sound reached).settled quiet

theorem WallTime.reached_sound {s : WallTime} (reached : s.Reached) : s.Sound [] (2 ^ 32) := by
  refine SeqLock.Sound.of_reach (by decide) (by decide) (fun field => ?_) reached
  cases field <;> decide

/-- A whole read of the shadow has the fields of one record. -/
theorem CpuTime.one_record {s : CpuTime} (reached : s.Reached) (done : s.reading = .done) :
    ∃ tick ≤ s.ticks, tick % 2 = 0 ∧ ∀ field, s.got field = some (s.record tick field) := by
  obtain ⟨tick, published, even, same⟩ := (CpuTime.reached_sound reached).one_record done
  exact ⟨tick, published, even, fun field => same field (by cases field <;> decide)⟩

/-! ## The formula of the interface -/

/-- `(tsc - tsc_timestamp) << tsc_shift` -/
def shifted (record : TimeField → Int) (now : Nat) : Nat :=
  let delta := now - ulongOfInt (record .tscTimestamp)
  if record .tscShift < 0 then delta / 2 ^ (-record .tscShift).toNat else delta * 2 ^ (record .tscShift).toNat

/-- `system_time + ((((tsc - tsc_timestamp) << tsc_shift) * tsc_to_system_mul) >> 32)` -/
def systemTime (record : TimeField → Int) (now : Nat) : Nat :=
  ulongOfInt (record .systemTime) + shifted record now * ulongOfInt (record .tscToSystemMul) / 2 ^ 32

/-- The counter has not passed what the formula leaves room for. -/
structure InRange (record : TimeField → Int) (now : Nat) : Prop where
  shifts : -64 < record .tscShift ∧ record .tscShift < 64
  after : ulongOfInt (record .tscTimestamp) ≤ now
  counter : now < 2 ^ 64
  shift : shifted record now < 2 ^ 64
  time : systemTime record now < 2 ^ 64

theorem monotonicTime_eq {record : TimeField → Int} {now : Nat} (range : InRange record now) :
    monotonicTime record now = systemTime record now := by
  have time := range.time
  have delta : (if record .tscShift < 0 then
      ulongSub now (ulongOfInt (record .tscTimestamp)) >>> (-record .tscShift).toNat
      else (ulongSub now (ulongOfInt (record .tscTimestamp)) <<< (record .tscShift).toNat) % 2 ^ 64) =
        shifted record now := by
    have room := range.shift
    rw [ulongSub_eq range.after range.counter]
    unfold shifted at room ⊢
    dsimp only at room ⊢
    split
    · rw [Nat.shiftRight_eq_div_pow]
    · rename_i left
      rw [if_neg left] at room
      rw [Nat.shiftLeft_eq, Nat.mod_eq_of_lt room]
  unfold monotonicTime scaleDelta
  dsimp only
  rw [delta, Nat.shiftRight_eq_div_pow]
  unfold systemTime at time ⊢
  rw [Nat.mod_eq_of_lt (by omega)]
  exact ulongAdd_eq time

/-- Whatever Xen and the interrupts did during the call, `monotonic_clock` has read one published
record, and returns what the formula gives for it. -/
theorem monotonicClock_eq {s : CpuTime} (reached : s.Reached) (done : s.reading = .done) :
    ∃ tick ≤ s.ticks, tick % 2 = 0 ∧ (∀ field, s.got field = some (s.record tick field)) ∧
      ∀ now, InRange (s.record tick) now → monotonicClock s now = systemTime (s.record tick) now := by
  obtain ⟨tick, published, even, same⟩ := CpuTime.one_record reached done
  refine ⟨tick, published, even, same, fun now range => ?_⟩
  have fields : (fun field => (s.got field).getD 0) = s.record tick := funext fun field => by
    rw [same field]
    rfl
  unfold monotonicClock
  rw [fields]
  exact monotonicTime_eq range

/-- `record` before Xen has published anything, and a processor that has not read it. -/
def newTime : CpuTime where
  ticks := 0
  source := fun _ => 0
  record := fun _ _ => 0
  version := 0
  copy := fun _ => 0
  taken := 0
  frames := []
  reading := .idle
  localVersion := 0
  localTaken := 0
  got := fun _ => none

theorem newTime_fresh : newTime.Fresh := ⟨rfl, rfl, rfl, rfl, rfl, rfl, rfl⟩

/-- Xen publishes a record while the clock is read, and the timer interrupt comes in between
of the copy that follows. -/
def lateRecord : List (SeqTurn TimeField Int) :=
  [.read, .run, .run, .begin, .write .systemTime 500, .write .tscTimestamp 100, .write .tscToSystemMul (2 ^ 31),
    .write .tscShift 1, .finish] ++ .replicate 4 .run ++ .replicate 3 .run ++ .interrupt :: .replicate 7 .run ++
    .replicate 4 .run

theorem shadow_settled_late : ∃ s : CpuTime, (s.ticks = 2 ∧ s.frames = [] ∧ s.reading ≠ .idle) ∧ s.Settled (2 ^ 32) := by
  have run : (runLabels CpuTime.exec (fun before turn => before.Timely (2 ^ 32) turn) lateRecord newTime).any
      (fun s => decide (s.ticks = 2 ∧ s.frames = [] ∧ s.reading ≠ .idle)) = true := by decide
  obtain ⟨s, reached, ticks, quiet, reads⟩ := Reach.of_run_ends newTime_fresh run
  exact ⟨s, ⟨ticks, quiet, reads⟩, CpuTime.shadow_settled reached quiet⟩

/-- The call of `lateRecord` goes round once more. -/
theorem monotonicClock_late : ∃ s : CpuTime, s.reading = .done ∧ monotonicClock s 600 = 1000 ∧
    ∃ tick ≤ s.ticks, tick % 2 = 0 ∧ (∀ field, s.got field = some (s.record tick field)) ∧
      ∀ now, InRange (s.record tick) now → monotonicClock s now = systemTime (s.record tick) now := by
  have run : (runLabels CpuTime.exec (fun before turn => before.Timely (2 ^ 32) turn)
      (lateRecord ++ .replicate 8 .run) newTime).any
      (fun s => decide (s.reading = .done ∧ monotonicClock s 600 = 1000)) = true := by decide
  obtain ⟨s, reached, done, time⟩ := Reach.of_run_ends newTime_fresh run
  exact ⟨s, done, time, monotonicClock_eq reached done⟩

/-! ## The time of day -/

/-- `gettimeofday` between two copies: the wall-clock record and the processor's record, to
the microsecond. -/
theorem gettimeofday_eq {wall : WallTime} {s : CpuTime} (reached : wall.Reached) (quiet : wall.frames = [])
    (copied : wall.version ≠ 0) (clock : s.Reached) (done : s.reading = .done) :
    ∃ wallTick ≤ wall.ticks, ∃ tick ≤ s.ticks, wallTick % 2 = 0 ∧ tick % 2 = 0 ∧
      wall.copy = wall.record wallTick ∧ (∀ field, s.got field = some (s.record tick field)) ∧
      ∀ sec nsec now : Nat, wall.record wallTick .wcSec = sec → wall.record wallTick .wcNsec = nsec →
        sec < 2 ^ 32 → nsec < 2 ^ 32 → InRange (s.record tick) now → systemTime (s.record tick) now + nsec < 2 ^ 64 →
        ∃ time, gettimeofday wall (monotonicClock s now) = some time ∧ time.tvUsec < 1000000 ∧
          time.tvSec * 1000000 + time.tvUsec =
            (sec * 1000000000 + nsec + systemTime (s.record tick) now) / 1000 := by
  obtain ⟨even, published, _, copy⟩ := (WallTime.reached_sound reached).settled quiet
  obtain ⟨tick, earlier, evenTick, read, same⟩ := monotonicClock_eq clock done
  refine ⟨wall.taken, published, tick, earlier, even, evenTick, copy, read, ?_⟩
  intro sec nsec now secIs nsecIs secFits nsecFits range fits
  unfold gettimeofday
  dsimp only
  rw [if_neg copied, copy, same now range, secIs, nsecIs, ulongOfInt_natCast (by omega : nsec < 2 ^ 64),
    ulongOfInt_natCast (by omega : sec < 2 ^ 64), ulongAdd_eq fits, ulongAdd_eq (by omega)]
  refine ⟨_, rfl, ?_, ?_⟩
  · dsimp only
    omega
  · dsimp only
    omega

def newWall : WallTime where
  ticks := 0
  source := fun _ => 0
  record := fun _ _ => 0
  version := 0
  copy := fun _ => 0
  taken := 0
  frames := []
  reading := .idle
  localVersion := 0
  localTaken := 0
  got := fun _ => none

theorem newWall_fresh : newWall.Fresh := ⟨rfl, rfl, rfl, rfl, rfl, rfl, rfl⟩

/-- Xen writes the nanoseconds while they are copied. -/
def tornWallclock : List (SeqTurn WallField Int) :=
  [.begin, .write .wcSec 5, .interrupt, .run, .run, .write .wcNsec 999999999, .run, .finish] ++ .replicate 7 .run

theorem gettimeofday_torn : ∃ (wall : WallTime) (s : CpuTime),
    wall.copy .wcNsec = 999999999 ∧ monotonicClock s 600 = 1000 ∧
    ∃ wallTick ≤ wall.ticks, ∃ tick ≤ s.ticks, wallTick % 2 = 0 ∧ tick % 2 = 0 ∧
      wall.copy = wall.record wallTick ∧ (∀ field, s.got field = some (s.record tick field)) ∧
      ∀ sec nsec now : Nat, wall.record wallTick .wcSec = sec → wall.record wallTick .wcNsec = nsec →
        sec < 2 ^ 32 → nsec < 2 ^ 32 → InRange (s.record tick) now → systemTime (s.record tick) now + nsec < 2 ^ 64 →
        ∃ time, gettimeofday wall (monotonicClock s now) = some time ∧ time.tvUsec < 1000000 ∧
          time.tvSec * 1000000 + time.tvUsec =
            (sec * 1000000000 + nsec + systemTime (s.record tick) now) / 1000 := by
  have read : (runLabels CpuTime.exec (fun before turn => before.Timely (2 ^ 32) turn)
      (lateRecord ++ .replicate 8 .run) newTime).any
      (fun s => decide (s.reading = .done ∧ monotonicClock s 600 = 1000)) = true := by decide
  have torn : (runLabels WallTime.exec (fun before turn => before.Timely (2 ^ 32) turn) tornWallclock newWall).any
      (fun wall => decide (wall.frames = [] ∧ wall.version ≠ 0 ∧ wall.copy .wcNsec = 999999999)) = true := by decide
  obtain ⟨s, clock, done, time⟩ := Reach.of_run_ends newTime_fresh read
  obtain ⟨wall, reached, quiet, copied, nsec⟩ := Reach.of_run_ends newWall_fresh torn
  exact ⟨wall, s, nsec, time, gettimeofday_eq reached quiet copied clock done⟩

end Stardust.Arch
