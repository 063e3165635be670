import Stardust.Sched.Core
import Stardust.Xenbus.Writer

/-! # A request when the ring is full

`xenbus_msg_reply` blocks its own thread and disables preemption before it calls
`xb_write`, which waits in `wait_event` when the ring has no room: the daemon takes
bytes meanwhile. -/
set_option autoImplicit false
namespace Stardust.Xenbus

open Stardust.Lib Stardust.Sched

/-! ## The code -/

/-- The calling thread. -/
structure Caller where
  threads : Threads
  self : Thread
  /-- whether it has a `pthread`, which `schedule` asks less of -/
  pthread : Bool
  preemptCount : Nat
  /-- the preemption count at each call of `schedule` -/
  schedules : List Nat

/-- `preempt_disable()` -/
def Caller.preemptDisable (caller : Caller) : Caller :=
  { caller with preemptCount := caller.preemptCount + 1 }

/-- `preempt_enable()` -/
def Caller.preemptEnable (caller : Caller) : Caller :=
  { caller with preemptCount := caller.preemptCount - 1 }

/-- `block(current)` -/
def Caller.block (caller : Caller) : Except Halt Caller :=
  (Sched.block caller.threads caller.self).map fun threads => { caller with threads := threads }

/-- `wake(current)` -/
def Caller.wake (caller : Caller) : Except Halt Caller :=
  (Sched.wake caller.threads caller.self).map fun threads => { caller with threads := threads }

/-- `schedule()`, which comes back when the thread is RUNNABLE. -/
def Caller.schedule (caller : Caller) : Except Halt Caller :=
  if caller.pthread = false ∧ caller.preemptCount ≠ 0 then .error .bug
  else .ok { caller with
    threads := caller.threads.setFlags caller.self fun f => { f with runnable := true }
    schedules := caller.preemptCount :: caller.schedules }

/-- The loop of `wait_event`; `condition n` is what its `n`-th test finds.  The number of
the next test is returned too. -/
def waitEventLoop (condition : Nat → Bool) : Nat → Nat → Caller → Except Halt (Caller × Nat)
  | 0, _, _ => .error .fuel
  | fuel + 1, n, caller => do
    let caller ← caller.block
    if condition n then do
      let caller ← caller.wake
      .ok (caller, n + 1)
    else do
      let caller ← caller.schedule
      waitEventLoop condition fuel (n + 1) caller

def waitEvent (condition : Nat → Bool) (fuel : Nat) (caller : Caller) : Except Halt (Caller × Nat) :=
  if condition 0 then .ok (caller, 1) else waitEventLoop condition fuel 1 caller

/-- The ring when the daemon has taken `n` more bytes. -/
def XenstoreBuf.consume (buf : XenstoreBuf) (n : Nat) : XenstoreBuf :=
  { buf with reqCons := uintAdd buf.reqCons n }

/-- `xb_write` with its wait.  After the first test, `taken n` bytes are gone when the
ring is looked at for the `n`-th time. -/
def xbWriteWaiting (taken : Nat → Nat) (fuel : Nat) (buf : XenstoreBuf) (msg : SockMsg)
    (req : List (List UInt8)) (caller : Caller) : Except Halt (Caller × XenstoreBuf) := do
  match ← xbWrite buf msg req with
  | .sent buf => .ok (caller, buf)
  | .waits => do
    let len := req.flatten.length + headerSize
    let (caller, n) ← waitEvent (fun n => decide ((buf.consume (taken n)).HasRoom len)) fuel caller
    let buf ← xbCopy (buf.consume (taken n)) msg req
    .ok (caller, buf)

/-- `xenbus_msg_reply` from `preempt_disable()` to `schedule()`. -/
def msgReplySends (taken : Nat → Nat) (fuel : Nat) (buf : XenstoreBuf) (msg : SockMsg)
    (req : List (List UInt8)) (caller : Caller) : Except Halt (Caller × XenstoreBuf) := do
  let caller ← caller.preemptDisable.block
  let (caller, buf) ← xbWriteWaiting taken fuel buf msg req caller
  let caller ← caller.preemptEnable.schedule
  .ok (caller, buf)

/-! ## When the wait is safe -/

/-- What the daemon takes, never more than there is. -/
structure Consumes (buf : XenstoreBuf) (taken : Nat → Nat) : Prop where
  grows : ∀ {n m : Nat}, n ≤ m → taken n ≤ taken m
  available : ∀ n, taken n ≤ used buf.reqProd buf.reqCons

/-- The message is sent, and preemption is enabled at each `schedule()`. -/
def SendsSafely (taken : Nat → Nat) (buf : XenstoreBuf) (msg : SockMsg) (req : List (List UInt8))
    (caller : Caller) : Prop :=
  ∃ fuel n final after, msgReplySends taken fuel buf msg req caller = .ok (final, after) ∧
    Written (buf.consume (taken n)) (messageBytes msg req) after ∧ ∀ count ∈ final.schedules, count = 0

section Calls
variable {buf : XenstoreBuf} {taken : Nat → Nat} {len : Nat} {caller : Caller}

theorem used_consume {n : Nat} (available : n ≤ used buf.reqProd buf.reqCons)
    (small : used buf.reqProd buf.reqCons ≤ ringSize) :
    used (buf.consume n).reqProd (buf.consume n).reqCons = used buf.reqProd buf.reqCons - n := by
  simp only [XenstoreBuf.consume, used, uintAdd, uintSub, ringSize] at *
  omega

theorem hasRoom_iff (small : used buf.reqProd buf.reqCons ≤ ringSize) (fits : len ≤ ringSize) :
    buf.HasRoom len ↔ used buf.reqProd buf.reqCons + len ≤ ringSize := by
  simp only [XenstoreBuf.HasRoom, used, uintAdd, uintSub, ringSize] at *
  omega

/-- A thread that has blocked itself cannot be blocked again. -/
theorem waitEventLoop_blocked {condition : Nat → Bool} {fuel n : Nat}
    (blocked : (caller.threads.flags caller.self).runnable = false) {result : Caller × Nat} :
    waitEventLoop condition fuel n caller ≠ .ok result := by
  cases fuel with
  | zero =>
    intro run
    cases run
  | succ fuel =>
    rw [waitEventLoop]
    have stops : caller.block = .error .bug := by
      unfold Caller.block Sched.block
      rw [if_pos blocked]
      rfl
    rw [stops]
    intro run
    cases run

/-- What `add_waiter` leaves: the thread is not RUNNABLE. -/
theorem Caller.block_runnable (runs : (caller.threads.flags caller.self).runnable = true) :
    ∃ blocked, Caller.block caller = .ok blocked ∧ (blocked.threads.flags blocked.self).runnable = false ∧
      blocked.preemptCount = caller.preemptCount ∧ blocked.schedules = caller.schedules := by
  cases run : Sched.block caller.threads caller.self with
  | error halt =>
    unfold Sched.block at run
    rw [if_neg (by simp [runs])] at run
    cases run
  | ok threads =>
    refine ⟨{ caller with threads := threads }, by rw [Caller.block, run]; rfl, ?_, rfl, rfl⟩
    rw [(block_ok run).2.2, if_pos rfl]

theorem Caller.schedule_preemptible (preemptible : caller.preemptCount = 0) :
    ∃ back, Caller.schedule caller = .ok back ∧ back.schedules = 0 :: caller.schedules := by
  unfold Caller.schedule
  rw [if_neg (by simp [preemptible]), preemptible]
  exact ⟨_, rfl, rfl⟩

/-- The blocked caller gets through `xb_write` only past the first test of `wait_event`. -/
theorem xbWriteWaiting_ok {msg : SockMsg} {req : List (List UInt8)} (fuel : Nat) {final : Caller}
    {after : XenstoreBuf} (small : used buf.reqProd buf.reqCons ≤ ringSize)
    (full : ringSize < used buf.reqProd buf.reqCons + (messageBytes msg req).length)
    (blocked : (caller.threads.flags caller.self).runnable = false) :
    xbWriteWaiting taken fuel buf msg req caller = .ok (final, after) ↔
      (messageBytes msg req).length ≤ ringSize ∧
        (buf.consume (taken 0)).HasRoom (messageBytes msg req).length ∧
        xbCopy (buf.consume (taken 1)) msg req = .ok after ∧ final = caller := by
  rw [messageBytes_length] at *
  unfold xbWriteWaiting xbWrite
  by_cases long : ringSize < req.flatten.length + headerSize
  · simp only [if_pos long, Halt.error_bind]
    constructor
    · intro run
      cases run
    · rintro ⟨fits, _⟩
      exact absurd long (Nat.not_lt.mpr fits)
  have fits : req.flatten.length + headerSize ≤ ringSize := Nat.not_lt.mp long
  have noRoom : ¬buf.HasRoom (req.flatten.length + headerSize) := by
    rw [hasRoom_iff small fits]
    omega
  simp only [if_neg long, if_neg noRoom, Halt.ok_bind, waitEvent]
  by_cases room : (buf.consume (taken 0)).HasRoom (req.flatten.length + headerSize)
  · simp only [decide_eq_true room, if_true, Halt.ok_bind]
    constructor
    · intro run
      obtain ⟨copied, copy, last⟩ := Halt.bind_eq_ok.mp run
      cases last
      exact ⟨fits, room, copy, rfl⟩
    · rintro ⟨_, _, copy, rfl⟩
      rw [copy, Halt.ok_bind]
  · simp only [decide_eq_false room]
    constructor
    · intro run
      obtain ⟨_, loop, _⟩ := Halt.bind_eq_ok.mp run
      exact absurd loop (waitEventLoop_blocked blocked)
    · rintro ⟨_, now, _⟩
      exact absurd now room

end Calls

/-- With a full ring the message is sent just when the daemon makes room before the first
test of `wait_event`, unless the sanity check of the copy stops it. -/
theorem full_ring_sends_iff {buf : XenstoreBuf} {taken : Nat → Nat} {caller : Caller} (msg : SockMsg)
    (req : List (List UInt8)) (prodIndex : buf.reqProd < 2 ^ 32)
    (small : used buf.reqProd buf.reqCons ≤ ringSize)
    (full : ringSize < used buf.reqProd buf.reqCons + (messageBytes msg req).length)
    (daemon : Consumes buf taken) (runs : (caller.threads.flags caller.self).runnable = true)
    (preemptible : caller.preemptCount = 0) (begins : caller.schedules = []) :
    SendsSafely taken buf msg req caller ↔
      used buf.reqProd buf.reqCons - taken 0 + (messageBytes msg req).length ≤ ringSize ∧
        ¬(2 ^ 32 ≤ uintAdd buf.reqCons (taken 1) + ringSize ∧
          uintAdd buf.reqCons (taken 1) +
            (used buf.reqProd buf.reqCons - taken 1 + (messageBytes msg req).length) < 2 ^ 32) := by
  have left := fun n => used_consume (daemon.available n) small
  obtain ⟨waiter, block, blocked, count, log⟩ := caller.preemptDisable.block_runnable runs
  have later : used buf.reqProd buf.reqCons - taken 1 ≤ used buf.reqProd buf.reqCons - taken 0 :=
    Nat.sub_le_sub_left (daemon.grows (by omega)) _
  -- the sanity check, at the indices of the copy
  have check : used buf.reqProd buf.reqCons - taken 0 + (messageBytes msg req).length ≤ ringSize →
      (uintAdd (buf.consume (taken 1)).reqCons ringSize <
          uintAdd (buf.consume (taken 1)).reqProd (messageBytes msg req).length ↔
        2 ^ 32 ≤ uintAdd buf.reqCons (taken 1) + ringSize ∧
          uintAdd buf.reqCons (taken 1) +
            (used buf.reqProd buf.reqCons - taken 1 + (messageBytes msg req).length) < 2 ^ 32) := by
    intro room
    have consIndex : (buf.consume (taken 1)).reqCons < 2 ^ 32 := uintAdd_lt ..
    rw [sanityCheck_iff consIndex (by rw [left]; omega), left]
    rfl
  constructor
  · rintro ⟨fuel, n, final, after, run, _, _⟩
    rw [msgReplySends, block, Halt.ok_bind] at run
    obtain ⟨⟨middle, written⟩, write, _⟩ := Halt.bind_eq_ok.mp run
    obtain ⟨fits, room, copy, _⟩ := (xbWriteWaiting_ok fuel small full blocked).mp write
    rw [hasRoom_iff (by rw [left]; omega) fits, left] at room
    refine ⟨room, ?_⟩
    rw [← check room]
    intro stops
    rw [xbCopy_eq (buf.consume (taken 1)) msg req prodIndex, if_pos stops] at copy
    cases copy
  · rintro ⟨room, passes⟩
    rw [← check room] at passes
    have copy := xbCopy_eq (buf.consume (taken 1)) msg req prodIndex
    rw [if_neg passes] at copy
    have write := (xbWriteWaiting_ok 0 small full blocked).mpr
      ⟨by omega, by rw [hasRoom_iff (by rw [left]; omega) (by omega), left]; exact room, copy, rfl⟩
    have enabled : waiter.preemptEnable.preemptCount = 0 := by
      simp only [Caller.preemptEnable, count, Caller.preemptDisable, preemptible]
    obtain ⟨back, schedule, calls⟩ := Caller.schedule_preemptible enabled
    refine ⟨0, 1, back, _, ?_, written_spec prodIndex (by rw [left]; omega), ?_⟩
    · rw [msgReplySends, block, Halt.ok_bind, write, Halt.ok_bind]
      dsimp only
      rw [schedule, Halt.ok_bind]
    · have before : waiter.preemptEnable.schedules = [] := log.trans begins
      rw [calls, before]
      simp

/-! A ring with 1000 unread bytes, a caller that runs, and daemons that take 600 of them in
time or not at all. -/

def crowdedRing : XenstoreBuf where
  req _ := 0
  rsp _ := 0
  reqCons := 0
  reqProd := 1000
  rspCons := 0
  rspProd := 0

def runningCaller : Caller where
  threads :=
    { flags := fun _ => ⟨true, true, false, false, false, false, false⟩
      cpu := fun _ => none
      links := ⟨id, id⟩ }
  self := .thread 0
  pthread := false
  preemptCount := 0
  schedules := []

theorem full_ring_sends_iff_prompt :
    SendsSafely (fun _ => 600) crowdedRing ⟨2, 0, 0⟩ [List.replicate 50 47] runningCaller :=
  (full_ring_sends_iff ⟨2, 0, 0⟩ [List.replicate 50 47] (by decide) (by decide) (by decide)
    ⟨fun _ => Nat.le_refl _, fun _ => by decide⟩ rfl rfl rfl).mpr (by decide)

/-- With no room at the first test of `wait_event` the second `block` stops the system. -/
theorem full_ring_blocks_twice :
    ringSize < used crowdedRing.reqProd crowdedRing.reqCons +
        (messageBytes ⟨2, 0, 0⟩ [List.replicate 50 47]).length ∧
      Consumes crowdedRing (fun _ => 0) ∧
      msgReplySends (fun _ => 0) 1 crowdedRing ⟨2, 0, 0⟩ [List.replicate 50 47] runningCaller = .error .bug ∧
      ¬SendsSafely (fun _ => 0) crowdedRing ⟨2, 0, 0⟩ [List.replicate 50 47] runningCaller := by
  refine ⟨by decide, ⟨fun _ => Nat.le_refl _, fun _ => Nat.zero_le _⟩, rfl, ?_⟩
  rintro ⟨fuel, n, final, after, run, _, _⟩
  obtain ⟨waiter, block, blocked, _⟩ := runningCaller.preemptDisable.block_runnable rfl
  rw [msgReplySends, block, Halt.ok_bind] at run
  obtain ⟨⟨middle, written⟩, write, _⟩ := Halt.bind_eq_ok.mp run
  obtain ⟨_, room, _⟩ := (xbWriteWaiting_ok fuel (by decide) (by decide) blocked).mp write
  exact absurd room (by decide)

end Stardust.Xenbus
