import Stardust.Lib.Reach
import Stardust.Xenbus.Writer

/-! # Concurrent writers

Any number of calls of `xb_write` share the request ring with the daemon.  The
lock is free while a call waits for room, so the room that it saw can be gone
when it has the lock again.  `unread` is a ghost: the bytes in the ring that the
daemon has not taken. -/
set_option autoImplicit false
namespace Stardust.Xenbus

open Stardust.Lib

/-- The arguments of a call that has passed `BUG_ON(len > XENSTORE_RING_SIZE)`. -/
structure Request where
  msg : SockMsg
  req : List (List UInt8)
  fits : (messageBytes msg req).length ≤ ringSize

def Request.bytes (request : Request) : List UInt8 := messageBytes request.msg request.req

inductive Phase
  | start
  /-- in `wait_event`, without the lock -/
  | waiting
  /-- the wait is over: there was room when `sent` messages had been copied -/
  | admitted (sent : Nat)
  /-- the lock is held and the copy begins -/
  | copying
  | done
  deriving DecidableEq

structure WriterRun where
  buf : XenstoreBuf
  /-- the holder of `xb_lock` -/
  lock : Option Nat
  phase : Nat → Phase
  unread : List UInt8
  /-- how many messages have been copied -/
  sent : Nat

inductive WriterOp
  /-- take the lock and test for room -/
  | enter (call : Nat)
  /-- the condition of `wait_event` holds -/
  | waited (call : Nat)
  /-- take the lock again after the wait -/
  | relock (call : Nat)
  | copy (call : Nat)
  /-- the daemon takes bytes that it can see -/
  | consume (n : Nat)
  deriving DecidableEq

def WriterRun.moveTo (state : WriterRun) (call : Nat) (phase : Phase) : WriterRun :=
  { state with phase := Function.update state.phase call phase }

def writerStep (requests : Nat → Request) (state : WriterRun) : WriterOp → Option WriterRun
  | .enter call =>
    if state.phase call = .start ∧ state.lock = none then
      if state.buf.HasRoom (requests call).bytes.length then
        some { state.moveTo call .copying with lock := some call }
      else some (state.moveTo call .waiting)
    else none
  | .waited call =>
    if state.phase call = .waiting ∧ state.buf.HasRoom (requests call).bytes.length then
      some (state.moveTo call (.admitted state.sent))
    else none
  | .relock call =>
    match state.phase call, state.lock with
    | .admitted _, none => some { state.moveTo call .copying with lock := some call }
    | _, _ => none
  | .copy call =>
    if state.phase call = .copying then
      match xbCopy state.buf (requests call).msg (requests call).req with
      | .ok buf =>
        some { state.moveTo call .done with
          buf := buf, lock := none, unread := state.unread ++ (requests call).bytes
          sent := state.sent + 1 }
      | .error _ => none
    else none
  | .consume n =>
    if n ≤ used state.buf.reqProd state.buf.reqCons then
      some { state with
        buf.reqCons := uintAdd state.buf.reqCons n
        unread := state.unread.drop n }
    else none

abbrev WriterStep (requests : Nat → Request) (before : WriterRun) (op : WriterOp)
    (after : WriterRun) : Prop := writerStep requests before op = some after

/-- An empty ring and no call in progress. -/
structure FreshWriters (state : WriterRun) : Prop where
  index : state.buf.reqCons < 2 ^ 32
  empty : state.buf.reqProd = state.buf.reqCons
  lock : state.lock = none
  phase : ∀ call, state.phase call = .start
  unread : state.unread = []

/-- No message has been copied since the call saw the room that it takes. -/
def NoneBetween (state : WriterRun) : WriterOp → Prop
  | .relock call => state.phase call = .admitted state.sent
  | _ => True

instance (state : WriterRun) (op : WriterOp) : Decidable (NoneBetween state op) := by
  cases op <;> unfold NoneBetween <;> infer_instance

section Runs
variable {requests : Nat → Request} {state after : WriterRun} {op : WriterOp}

/-! ## One step -/

/-- What one step can do. -/
theorem writerStep_cases (move : writerStep requests state op = some after) :
    (∃ call, op = .enter call ∧ state.phase call = .start ∧ state.lock = none ∧
      state.buf.HasRoom (requests call).bytes.length ∧
      after = { state.moveTo call .copying with lock := some call }) ∨
    (∃ call, op = .enter call ∧ state.phase call = .start ∧ after = state.moveTo call .waiting) ∨
    (∃ call, op = .waited call ∧ state.phase call = .waiting ∧
      state.buf.HasRoom (requests call).bytes.length ∧
      after = state.moveTo call (.admitted state.sent)) ∨
    (∃ call, op = .relock call ∧ state.lock = none ∧
      after = { state.moveTo call .copying with lock := some call }) ∨
    (∃ call buf, op = .copy call ∧ state.phase call = .copying ∧
      xbCopy state.buf (requests call).msg (requests call).req = .ok buf ∧
      after = { state.moveTo call .done with
        buf := buf, lock := none, unread := state.unread ++ (requests call).bytes
        sent := state.sent + 1 }) ∨
    (∃ n, op = .consume n ∧ n ≤ used state.buf.reqProd state.buf.reqCons ∧
      after = { state with
        buf.reqCons := uintAdd state.buf.reqCons n, unread := state.unread.drop n }) := by
  cases op with
  | enter call =>
    obtain ⟨⟨phase, lock⟩, move⟩ := Option.ite_none_right_eq_some.mp move
    by_cases room : state.buf.HasRoom (requests call).bytes.length
    · rw [if_pos room] at move
      exact Or.inl ⟨call, rfl, phase, lock, room, (Option.some.inj move).symm⟩
    · rw [if_neg room] at move
      exact Or.inr (Or.inl ⟨call, rfl, phase, (Option.some.inj move).symm⟩)
  | waited call =>
    obtain ⟨⟨phase, room⟩, move⟩ := Option.ite_none_right_eq_some.mp move
    exact Or.inr (Or.inr (Or.inl ⟨call, rfl, phase, room, (Option.some.inj move).symm⟩))
  | relock call =>
    simp only [writerStep] at move
    split at move
    · rename_i sent phase lock
      exact Or.inr (Or.inr (Or.inr (Or.inl ⟨call, rfl, lock, (Option.some.inj move).symm⟩)))
    · nomatch move
  | copy call =>
    obtain ⟨phase, move⟩ := Option.ite_none_right_eq_some.mp move
    split at move
    · rename_i buf copied
      exact Or.inr (Or.inr (Or.inr (Or.inr (Or.inl
        ⟨call, buf, rfl, phase, copied, (Option.some.inj move).symm⟩))))
    · nomatch move
  | consume n =>
    obtain ⟨visible, move⟩ := Option.ite_none_right_eq_some.mp move
    exact Or.inr (Or.inr (Or.inr (Or.inr (Or.inr
      ⟨n, rfl, visible, (Option.some.inj move).symm⟩))))

/-! ## The invariant -/

/-- The ring holds the bytes that the daemon has not taken, and no more than fit. -/
structure Holds (buf : XenstoreBuf) (unread : List UInt8) : Prop where
  prodIndex : buf.reqProd < 2 ^ 32
  consIndex : buf.reqCons < 2 ^ 32
  count : used buf.reqProd buf.reqCons = unread.length
  fits : unread.length ≤ ringSize
  bytes : ringRead buf.req ringSize buf.reqCons unread.length = unread

structure Admitting (requests : Nat → Request) (state : WriterRun) : Prop where
  holds : Holds state.buf state.unread
  exclusive : ∀ call, state.phase call = .copying → state.lock = some call
  /-- room, for the call that copies and for those that nothing was copied since -/
  room : ∀ call, state.phase call = .copying ∨ state.phase call = .admitted state.sent →
    state.unread.length + (requests call).bytes.length ≤ ringSize
  past : ∀ call sent, state.phase call = .admitted sent → sent ≤ state.sent

theorem Holds.room {buf : XenstoreBuf} {unread : List UInt8} (holds : Holds buf unread) {len : Nat}
    (fits : len ≤ ringSize) (hasRoom : buf.HasRoom len) : unread.length + len ≤ ringSize := by
  have count := holds.count
  have small := holds.fits
  simp only [XenstoreBuf.HasRoom, used, uintAdd, uintSub, ringSize] at *
  omega

/-- A message that fits joins the unread bytes. -/
theorem Holds.written {buf : XenstoreBuf} {unread bytes : List UInt8} (holds : Holds buf unread)
    (room : unread.length + bytes.length ≤ ringSize) :
    Holds (buf.written bytes) (unread ++ bytes) := by
  obtain ⟨prodIndex, consIndex, count, fits, content⟩ := holds
  have position := position_of_used buf.reqCons prodIndex
  rw [count] at position
  refine ⟨uintAdd_lt .., consIndex, ?_, by rwa [List.length_append], ?_⟩
  · rw [List.length_append]
    simp only [XenstoreBuf.written, used, uintAdd, uintSub, ringSize] at *
    omega
  · have lap : buf.reqProd ≡ buf.reqCons + unread.length [MOD ringSize] :=
      (congrArg (· % ringSize) position).trans (mod_lap _)
    have start : (buf.written bytes).req =
        ringWrite buf.req ringSize (buf.reqCons + unread.length) bytes := ringWrite_lap lap
    rw [List.length_append, start]
    exact (ringRead_ringWrite_append room).trans (congrArg (· ++ bytes) content)

theorem Holds.consumed {buf : XenstoreBuf} {unread : List UInt8} (holds : Holds buf unread) {n : Nat}
    (visible : n ≤ used buf.reqProd buf.reqCons) :
    Holds { buf with reqCons := uintAdd buf.reqCons n } (unread.drop n) := by
  obtain ⟨prodIndex, consIndex, count, fits, content⟩ := holds
  rw [count] at visible
  refine ⟨prodIndex, uintAdd_lt .., ?_, by rw [List.length_drop]; omega, ?_⟩
  · rw [List.length_drop]
    simp only [used, uintAdd, uintSub, ringSize] at *
    omega
  · have lap : uintAdd buf.reqCons n ≡ buf.reqCons + n [MOD ringSize] := mod_lap _
    have split : ringRead buf.req ringSize buf.reqCons (n + (unread.length - n)) = unread := by
      rw [Nat.add_sub_cancel' visible, content]
    rw [ringRead_add] at split
    rw [ringRead_lap lap, List.length_drop, ← split, List.drop_append_of_le_length
      (by rw [ringRead_length])]
    simp

theorem Admitting.start (fresh : FreshWriters state) : Admitting requests state := by
  obtain ⟨index, empty, lock, phase, unread⟩ := fresh
  refine ⟨⟨by rw [empty]; exact index, index, ?_, by simp [unread], by simp [unread]⟩, ?_, ?_, ?_⟩
  · rw [empty, unread]
    simp only [used, uintSub, List.length_nil]
    omega
  · intro call copying
    cases (phase call).symm.trans copying
  · intro call either
    rcases either with copying | admitted
    · cases (phase call).symm.trans copying
    · cases (phase call).symm.trans admitted
  · intro call sent admitted
    cases (phase call).symm.trans admitted

/-- The phase of a call after another call, or the same one, has moved. -/
theorem moveTo_phase {call other : Nat} {phase : Phase} :
    (state.moveTo call phase).phase other = if other = call then phase else state.phase other := by
  simp [WriterRun.moveTo, Function.update_apply]

theorem Admitting.copying (inv : Admitting requests state) {call : Nat} (unlocked : state.lock = none)
    (room : state.unread.length + (requests call).bytes.length ≤ ringSize) :
    Admitting requests { state.moveTo call .copying with lock := some call } := by
  refine ⟨inv.holds, ?_, ?_, ?_⟩
  · intro other copying
    by_cases same : other = call
    · rw [same]
    · -- no other call copies while the lock is free
      have before : state.phase other = .copying := by
        simpa [WriterRun.moveTo, same] using copying
      have locked := inv.exclusive other before
      rw [unlocked] at locked
      nomatch locked
  · intro other either
    by_cases same : other = call
    · rw [same]
      exact room
    · apply inv.room other
      simpa [WriterRun.moveTo, same] using either
  · intro other sent admitted
    by_cases same : other = call
    · simp [WriterRun.moveTo, same] at admitted
    · exact inv.past other sent (by simpa [WriterRun.moveTo, same] using admitted)

/-- A call moves to a phase in which it does not copy. -/
theorem Admitting.moved (inv : Admitting requests state) {call : Nat} {phase : Phase}
    (notCopying : phase ≠ .copying)
    (room : phase = .admitted state.sent →
      state.unread.length + (requests call).bytes.length ≤ ringSize)
    (past : ∀ sent, phase = .admitted sent → sent ≤ state.sent) :
    Admitting requests (state.moveTo call phase) := by
  refine ⟨inv.holds, ?_, ?_, ?_⟩
  · intro other copying
    rw [moveTo_phase] at copying
    split at copying
    · exact absurd copying notCopying
    · exact inv.exclusive other copying
  · intro other either
    rw [moveTo_phase] at either
    split at either
    · rename_i same
      rw [same]
      exact room (either.resolve_left notCopying)
    · exact inv.room other either
  · intro other sent admitted
    rw [moveTo_phase] at admitted
    split at admitted
    · exact past sent admitted
    · exact inv.past other sent admitted

theorem Admitting.step (inv : Admitting requests state) (allowed : NoneBetween state op)
    (move : WriterStep requests state op after) : Admitting requests after := by
  rcases writerStep_cases move with ⟨call, rfl, phase, lock, room, rfl⟩ | ⟨call, rfl, phase, rfl⟩ |
    ⟨call, rfl, phase, room, rfl⟩ | ⟨call, rfl, lock, rfl⟩ | ⟨call, buf, rfl, phase, copied, rfl⟩ |
    ⟨n, rfl, visible, rfl⟩
  · exact inv.copying lock (inv.holds.room (requests call).fits room)
  · exact inv.moved (by nofun) nofun nofun
  · refine inv.moved (by nofun) (fun _ => inv.holds.room (requests call).fits room) ?_
    intro sent now
    cases now
    exact Nat.le_refl _
  · exact inv.copying lock (inv.room call (Or.inr allowed))
  · have room := inv.room call (Or.inl phase)
    have written : buf = state.buf.written (requests call).bytes := by
      rw [xbCopy_eq _ _ _ inv.holds.prodIndex] at copied
      split at copied
      · nomatch copied
      · exact (Except.ok.inj copied).symm
    rw [written]
    refine ⟨inv.holds.written room, ?_, ?_, ?_⟩
    · intro other copying
      simp only at copying
      rw [moveTo_phase] at copying
      split at copying
      · nomatch copying
      · -- only the lock's holder copies
        rename_i different
        have both := (inv.exclusive other copying).symm.trans (inv.exclusive call phase)
        exact absurd (Option.some.inj both) different
    · intro other either
      simp only at either
      rw [moveTo_phase] at either
      split at either
      · nomatch either
      · rename_i different
        rcases either with copying | admitted
        · have both := (inv.exclusive other copying).symm.trans (inv.exclusive call phase)
          exact absurd (Option.some.inj both) different
        · have old := inv.past other _ admitted
          omega
    · intro other sent admitted
      simp only at admitted ⊢
      rw [moveTo_phase] at admitted
      split at admitted
      · nomatch admitted
      · have old := inv.past other sent admitted
        omega
  · refine ⟨inv.holds.consumed visible, inv.exclusive, ?_, inv.past⟩
    intro other either
    have room := inv.room other either
    simp only [List.length_drop]
    omega

/-! ## No overrun in any run -/

/-- A call that copies has room, and what the daemon has not read is in the ring. -/
structure NoOverrun (requests : Nat → Request) (state : WriterRun) : Prop where
  room : ∀ call, state.phase call = .copying →
    used state.buf.reqProd state.buf.reqCons + (requests call).bytes.length ≤ ringSize
  unread : ringRead state.buf.req ringSize state.buf.reqCons state.unread.length = state.unread

theorem writers_noOverrun (requests : Nat → Request)
    (reached : Reach FreshWriters (WriterStep requests) NoneBetween state) :
    NoOverrun requests state := by
  have inv : Admitting requests state :=
    Reach.invariant (Admitting requests) (fun _ fresh => Admitting.start fresh)
      (fun _ _ _ inv allowed move => inv.step allowed move) reached
  refine ⟨fun call copying => ?_, inv.holds.bytes⟩
  rw [inv.holds.count]
  exact inv.room call (Or.inl copying)

end Runs

/-! ## Two writers and one drain -/

/-- A segment of 984 bytes for call 0 and of 584 for the others. -/
def drainRequests (call : Nat) : Request where
  msg := ⟨2, 0, 0⟩
  req := [List.replicate (if call = 0 then 984 else 584) 65]
  fits := by
    simp only [messageBytes_length, List.flatten_cons, List.flatten_nil, List.append_nil,
      List.length_replicate]
    split <;> decide

def emptyRing : WriterRun where
  buf := { req := fun _ => 0, rsp := fun _ => 0, reqCons := 0, reqProd := 0, rspCons := 0, rspProd := 0 }
  lock := none
  phase _ := .start
  unread := []
  sent := 0

theorem emptyRing_fresh : FreshWriters emptyRing := ⟨by decide, rfl, rfl, fun _ => rfl, rfl⟩

/-- Calls 1 and 2 wait for the 1000 bytes of call 0 to be read. -/
def drainScript : List WriterOp :=
  [.enter 0, .copy 0, .enter 1, .enter 2, .consume 1000, .waited 1, .waited 2, .relock 1]

theorem writers_noOverrun_drain :
    ∃ state, runLabels (writerStep drainRequests) NoneBetween drainScript emptyRing = some state ∧
      NoOverrun drainRequests state := by
  have runs : (runLabels (writerStep drainRequests) NoneBetween drainScript emptyRing).isSome := by
    decide +kernel
  obtain ⟨state, run⟩ := Option.isSome_iff_exists.mp runs
  exact ⟨state, run, writers_noOverrun _ (Reach.of_runLabels (.start emptyRing_fresh) run)⟩

/-- Both were let go by the same drain; the second copies without room. -/
theorem second_writer_overruns :
    ∃ state, Reach FreshWriters (WriterStep drainRequests) Always state ∧
      ¬NoOverrun drainRequests state := by
  have facts : (runLabels (writerStep drainRequests) Always (drainScript ++ [.copy 1, .relock 2])
      emptyRing).any fun state => decide (state.phase 2 = .copying ∧
        ¬used state.buf.reqProd state.buf.reqCons + (drainRequests 2).bytes.length ≤ ringSize) := by
    decide +kernel
  obtain ⟨state, reached, copying, full⟩ := Reach.of_run_ends emptyRing_fresh facts
  exact ⟨state, reached, fun safe => full (safe.room 2 copying)⟩

end Stardust.Xenbus
