import Stardust.Console.Input
import Stardust.Console.Output
import Stardust.Lib.RingQueue

/-! # The two rings as queues

One thread calls `xencons_ring_send_no_notify` and `xencons_ring_recv` again and again, and
the daemon reads the out ring and fills the in ring between any two of its accesses. -/
set_option autoImplicit false
namespace Stardust.Console

open Stardust.Lib

/-- ghost: a call of `xencons_ring_send_no_notify` that has returned; the daemon had not
read `unread` when it looked at the ring -/
structure Sent where
  data : List UInt8
  unread : List UInt8
  count : Nat

/-- ghost: a call of `xencons_ring_recv` that has returned -/
structure Received where
  len : Nat
  unread : List UInt8
  data : List UInt8
  cons : Nat
  consAfter : Nat

/-- Where a call is: it has read both indices, and each turn of its loop is a step.  What
was unread then is a ghost. -/
inductive RingCall
  | idle
  | sending (data unread : List UInt8) (cons prod sent : Nat)
  | receiving (len : Nat) (unread : List UInt8) (cons prod : Nat) (data : List UInt8)

structure Rings where
  out : Nat → UInt8
  outCons : Nat
  outProd : Nat
  input : Nat → UInt8
  inCons : Nat
  inProd : Nat
  call : RingCall
  bugged : Bool
  /-- ghosts: what was in the rings at the start, what the daemon has read and appended -/
  outBegun : List UInt8
  inBegun : List UInt8
  read : List UInt8
  appended : List UInt8
  sends : List Sent
  recvs : List Received

inductive RingsOp
  | send (data : List UInt8)
  | recv (len : Nat)
  /-- the next turn of the loop, or its end -/
  | turn
  /-- the daemon reads bytes and releases them -/
  | consume (n : Nat)
  | append (byte : UInt8)

def Rings.outUnread (state : Rings) : List UInt8 :=
  ringRead state.out outSize state.outCons (uintSub state.outProd state.outCons)

def Rings.inUnread (state : Rings) : List UInt8 :=
  ringRead state.input inSize state.inCons (uintSub state.inProd state.inCons)

def ringTurn (state : Rings) : Option Rings :=
  match state.call with
  | .idle => none
  | .sending data unread cons prod sent =>
    if sent < data.length ∧ uintSub prod cons < outSize then
      some { state with
        out := Function.update state.out (prod % outSize) (data.getD sent 0)
        call := .sending data unread cons (uintAdd prod 1) (sent + 1) }
    else
      some { state with outProd := prod, call := .idle, sends := state.sends ++ [⟨data, unread, sent⟩] }
  | .receiving len unread cons prod data =>
    if data.length < len ∧ uintAdd cons data.length ≠ prod then
      let byte := state.input (uintAdd cons data.length % inSize)
      some { state with call := .receiving len unread cons prod (data ++ [byte]) }
    else
      some { state with
        inCons := uintAdd cons data.length
        call := .idle
        recvs := state.recvs ++ [⟨len, unread, data, cons, uintAdd cons data.length⟩] }

def ringsStep (state : Rings) : RingsOp → Option Rings
  | .send data =>
    match state.call with
    | .idle =>
      if outSize < uintSub state.outProd state.outCons then some { state with bugged := true }
      else some { state with call := .sending data state.outUnread state.outCons state.outProd 0 }
    | _ => none
  | .recv len =>
    match state.call with
    | .idle =>
      if inSize < uintSub state.inProd state.inCons then some { state with bugged := true }
      else some { state with call := .receiving len state.inUnread state.inCons state.inProd [] }
    | _ => none
  | .turn => ringTurn state
  | .consume n =>
    if n ≤ uintSub state.outProd state.outCons then
      some { state with
        read := state.read ++ ringRead state.out outSize state.outCons n
        outCons := uintAdd state.outCons n }
    else none
  | .append byte =>
    if uintSub state.inProd state.inCons < inSize then
      some { state with
        input := Function.update state.input (state.inProd % inSize) byte
        inProd := uintAdd state.inProd 1
        appended := state.appended ++ [byte] }
    else none

abbrev RingsStep (before : Rings) (op : RingsOp) (after : Rings) : Prop := ringsStep before op = some after

/-- Any indices that the rings can have. -/
structure FreshRings (state : Rings) : Prop where
  out : state.outCons < 2 ^ 32 ∧ state.outProd < 2 ^ 32 ∧ uintSub state.outProd state.outCons ≤ outSize
  input : state.inCons < 2 ^ 32 ∧ state.inProd < 2 ^ 32 ∧ uintSub state.inProd state.inCons ≤ inSize
  call : state.call = .idle
  bugged : state.bugged = false
  begun : state.outBegun = state.outUnread ∧ state.inBegun = state.inUnread
  ghosts : state.read = [] ∧ state.appended = [] ∧ state.sends = [] ∧ state.recvs = []

/-- Turns that a call has still to take, the last one included. -/
def RingCall.turnsLeft : RingCall → Nat
  | .idle => 0
  | .sending data _ cons prod sent => min (data.length - sent) (outSize - uintSub prod cons) + 1
  | .receiving len _ cons prod data => min (len - data.length) (uintSub prod (uintAdd cons data.length)) + 1

structure RingsExact (state : Rings) : Prop where
  /-- a send returns the least of its length and the room that it found -/
  sends : ∀ s ∈ state.sends, s.count = min s.data.length (outSize - s.unread.length)
  /-- it appends so many of its first bytes, and what the daemon has not read stays as it is -/
  out : state.outBegun ++ state.sends.flatMap (fun s => s.data.take s.count) = state.read ++ state.outUnread
  /-- a receive returns the oldest of the bytes that it found, and `in_cons` is so many further -/
  recvs : ∀ r ∈ state.recvs, r.data = r.unread.take r.len ∧ r.consAfter = uintAdd r.cons r.data.length
  input : state.inBegun ++ state.appended = state.recvs.flatMap (·.data) ++ state.inUnread
  /-- a call returns, whatever the daemon does between its turns -/
  returns : state.call ≠ .idle →
    ∃ after, RingsStep state .turn after ∧ after.call.turnsLeft < state.call.turnsLeft
  bugged : state.bugged = false

section Runs
variable {state after : Rings} {op : RingsOp} {outQueue inQueue : List UInt8}

/-- The queues of the model's rings. -/
abbrev Queue (ring : Nat → UInt8) (size cons prod : Nat) (content : List UInt8) : Prop :=
  RingQueue (2 ^ 32) size ring cons prod content

theorem out_laps : outSize ∣ 2 ^ 32 := by decide

theorem in_laps : inSize ∣ 2 ^ 32 := by decide

theorem used_of_index {cons prod used : Nat} (counter : prod = (cons + used) % 2 ^ 32)
    (small : used < 2 ^ 32) : uintSub prod cons = used := by
  unfold uintSub
  omega

theorem Queue.used {ring : Nat → UInt8} {size cons prod : Nat} {content : List UInt8}
    (queue : Queue ring size cons prod content) (small : size < 2 ^ 32) :
    uintSub prod cons = content.length := by
  have fits := queue.fits
  exact used_of_index queue.counter (by omega)

theorem Queue.of_indices {ring : Nat → UInt8} {size cons prod : Nat} (range : cons < 2 ^ 32)
    (other : prod < 2 ^ 32) (fits : uintSub prod cons ≤ size) :
    Queue ring size cons prod (ringRead ring size cons (uintSub prod cons)) := by
  apply RingQueue.of_counters range _ fits
  unfold uintSub
  omega

/-- The bytes of a call that are in the ring already, or in the caller's buffer. -/
def CallAt (state : Rings) (outQueue inQueue : List UInt8) : Prop :=
  match state.call with
  | .idle => True
  | .sending data unread cons prod sent =>
    Queue state.out outSize state.outCons prod (outQueue ++ data.take sent) ∧
      outQueue.length ≤ unread.length ∧ unread.length ≤ outSize ∧
      sent ≤ min data.length (outSize - unread.length) ∧
      cons < 2 ^ 32 ∧ prod = (cons + (unread.length + sent)) % 2 ^ 32
  | .receiving len unread cons prod data =>
    state.inCons = cons ∧ unread <+: inQueue ∧ prod = (cons + unread.length) % 2 ^ 32 ∧
      data = unread.take data.length ∧ data.length ≤ min len unread.length

structure Serves (state : Rings) (outQueue inQueue : List UInt8) : Prop where
  out : Queue state.out outSize state.outCons state.outProd outQueue
  input : Queue state.input inSize state.inCons state.inProd inQueue
  outStream : state.outBegun ++ state.sends.flatMap (fun s => s.data.take s.count) = state.read ++ outQueue
  inStream : state.inBegun ++ state.appended = state.recvs.flatMap (·.data) ++ inQueue
  sends : ∀ s ∈ state.sends, s.count = min s.data.length (outSize - s.unread.length)
  recvs : ∀ r ∈ state.recvs, r.data = r.unread.take r.len ∧ r.consAfter = uintAdd r.cons r.data.length
  call : CallAt state outQueue inQueue
  bugged : state.bugged = false

theorem Serves.outUnread (inv : Serves state outQueue inQueue) : state.outUnread = outQueue := by
  rw [Rings.outUnread, inv.out.used (by decide), inv.out.read]

theorem Serves.inUnread (inv : Serves state outQueue inQueue) : state.inUnread = inQueue := by
  rw [Rings.inUnread, inv.input.used (by decide), inv.input.read]

theorem Serves.start (fresh : FreshRings state) : Serves state state.outUnread state.inUnread := by
  obtain ⟨⟨outCons, outProd, outUsed⟩, ⟨inCons, inProd, inUsed⟩, call, bugged, ⟨outBegun, inBegun⟩,
    ⟨read, appended, sends, recvs⟩⟩ := fresh
  refine ⟨Queue.of_indices outCons outProd outUsed, Queue.of_indices inCons inProd inUsed, ?_, ?_, ?_, ?_, ?_,
    bugged⟩
  · rw [sends, read, outBegun]
    exact List.append_nil _
  · rw [recvs, appended, inBegun]
    exact List.append_nil _
  · rw [sends]
    nofun
  · rw [recvs]
    nofun
  · unfold CallAt
    rw [call]
    trivial

/-! ## The calls -/

theorem Serves.send (inv : Serves state outQueue inQueue) {data : List UInt8}
    (move : ringsStep state (.send data) = some after) : Serves after outQueue inQueue := by
  unfold ringsStep at move
  cases phase : state.call with
  | idle =>
    rw [phase] at move
    have fits := inv.out.fits
    have used := inv.out.used (by decide)
    simp only at move
    rw [if_neg (by omega)] at move
    cases Option.some.inj move
    refine { inv with call := ?_ }
    unfold CallAt
    dsimp only
    rw [inv.outUnread, List.take_zero, List.append_nil]
    refine ⟨inv.out, Nat.le_refl _, fits, Nat.zero_le _, inv.out.range, ?_⟩
    rw [Nat.add_zero]
    exact inv.out.counter
  | sending data unread cons prod sent =>
    rw [phase] at move
    cases move
  | receiving len unread cons prod data =>
    rw [phase] at move
    cases move

theorem Serves.recv (inv : Serves state outQueue inQueue) {len : Nat}
    (move : ringsStep state (.recv len) = some after) : Serves after outQueue inQueue := by
  unfold ringsStep at move
  cases phase : state.call with
  | idle =>
    rw [phase] at move
    have fits := inv.input.fits
    have used := inv.input.used (by decide)
    simp only at move
    rw [if_neg (by omega)] at move
    cases Option.some.inj move
    refine { inv with call := ?_ }
    unfold CallAt
    dsimp only
    rw [inv.inUnread]
    exact ⟨rfl, List.prefix_rfl, inv.input.counter, rfl, Nat.zero_le _⟩
  | sending data unread cons prod sent =>
    rw [phase] at move
    cases move
  | receiving len unread cons prod data =>
    rw [phase] at move
    cases move

section Sending
variable {data unread : List UInt8} {cons prod sent : Nat}

/-- A send goes on exactly while it has bytes left and found room for them. -/
theorem sending_more (inv : Serves state outQueue inQueue)
    (phase : state.call = .sending data unread cons prod sent) :
    (sent < data.length ∧ uintSub prod cons < outSize) ↔ sent < min data.length (outSize - unread.length) := by
  have call := inv.call
  unfold CallAt at call
  rw [phase] at call
  obtain ⟨_, _, small, least, range, index⟩ := call
  have near : outSize < 2 ^ 32 := by decide
  rw [used_of_index index (by omega)]
  omega

theorem Serves.sendByte (inv : Serves state outQueue inQueue)
    (phase : state.call = .sending data unread cons prod sent)
    (more : sent < min data.length (outSize - unread.length)) :
    Serves { state with
      out := Function.update state.out (prod % outSize) (data.getD sent 0)
      call := .sending data unread cons (uintAdd prod 1) (sent + 1) } outQueue inQueue := by
  have call := inv.call
  unfold CallAt at call
  rw [phase] at call
  obtain ⟨staged, shrunk, small, least, range, index⟩ := call
  have some : sent < data.length := by omega
  have length : (outQueue ++ data.take sent).length = outQueue.length + sent := by
    rw [List.length_append, List.length_take_of_le (by omega)]
  have next : outQueue ++ data.take (sent + 1) = (outQueue ++ data.take sent) ++ [data.getD sent 0] := by
    rw [List.take_add_one, List.getD_eq_getElem?_getD, List.getElem?_eq_getElem some, List.append_assoc]
    rfl
  have pushed := staged.push out_laps (by rw [length]; omega) (data.getD sent 0)
  rw [← next] at pushed
  have kept := pushed.take (n := outQueue.length) (by simp)
  rw [List.take_left] at kept
  refine { inv with out := ?_, call := ?_ }
  · rw [inv.out.counter]
    exact kept
  · refine ⟨pushed, shrunk, small, more, range, ?_⟩
    rw [index, uintAdd_mod]
    congr 1

theorem Serves.publish (inv : Serves state outQueue inQueue)
    (phase : state.call = .sending data unread cons prod sent)
    (last : ¬sent < min data.length (outSize - unread.length)) :
    Serves { state with outProd := prod, call := .idle, sends := state.sends ++ [⟨data, unread, sent⟩] }
      (outQueue ++ data.take sent) inQueue := by
  have call := inv.call
  unfold CallAt at call
  rw [phase] at call
  obtain ⟨staged, shrunk, small, least, range, index⟩ := call
  refine ⟨staged, inv.input, ?_, inv.inStream, fun s member => ?_, inv.recvs, trivial, inv.bugged⟩
  · rw [List.flatMap_append, ← List.append_assoc, inv.outStream]
    simp
  · rcases List.mem_append.mp member with old | new
    · exact inv.sends s old
    · rw [List.mem_singleton.mp new]
      dsimp only
      omega

end Sending

section Receiving
variable {unread data : List UInt8} {len cons prod : Nat}

theorem receiving_more (inv : Serves state outQueue inQueue)
    (phase : state.call = .receiving len unread cons prod data) :
    (data.length < len ∧ uintAdd cons data.length ≠ prod) ↔ data.length < min len unread.length := by
  have call := inv.call
  unfold CallAt at call
  rw [phase] at call
  obtain ⟨here, within, index, part, least⟩ := call
  have fits := inv.input.fits
  have range := inv.input.range
  have shorter := within.length_le
  have near : inSize < 2 ^ 32 := by decide
  rw [here] at range
  rw [index]
  unfold uintAdd
  omega

theorem Serves.recvByte (inv : Serves state outQueue inQueue)
    (phase : state.call = .receiving len unread cons prod data)
    (more : data.length < min len unread.length) :
    Serves { state with
      call := .receiving len unread cons prod (data ++ [state.input (uintAdd cons data.length % inSize)]) }
      outQueue inQueue := by
  have call := inv.call
  unfold CallAt at call
  rw [phase] at call
  obtain ⟨here, within, index, part, least⟩ := call
  refine { inv with call := ⟨here, within, index, ?_, ?_⟩ }
  · obtain ⟨rest, rfl⟩ := within
    have cell := inv.input.cell in_laps (n := data.length) (by rw [List.length_append]; omega)
    rw [here, List.getElem?_append_left (by omega)] at cell
    rw [List.length_append, List.length_singleton, List.take_add_one, cell, ← part]
    rfl
  · rw [List.length_append, List.length_singleton]
    exact more

theorem Serves.release (inv : Serves state outQueue inQueue)
    (phase : state.call = .receiving len unread cons prod data)
    (last : ¬data.length < min len unread.length) :
    Serves { state with
      inCons := uintAdd cons data.length
      call := .idle
      recvs := state.recvs ++ [⟨len, unread, data, cons, uintAdd cons data.length⟩] } outQueue
      (inQueue.drop data.length) := by
  have call := inv.call
  unfold CallAt at call
  rw [phase] at call
  obtain ⟨here, within, index, part, least⟩ := call
  have shorter := within.length_le
  have oldest : data = inQueue.take data.length := by
    obtain ⟨rest, rfl⟩ := within
    rw [List.take_append_of_le_length (by omega)]
    exact part
  refine ⟨inv.out, ?_, inv.outStream, ?_, inv.sends, fun r member => ?_, trivial, inv.bugged⟩
  · have dropped := inv.input.drop in_laps (n := data.length) (by omega)
    rw [here] at dropped
    exact dropped
  · rw [List.flatMap_append, inv.inStream, List.append_assoc]
    congr 1
    conv => lhs; rw [← List.take_append_drop data.length inQueue, ← oldest]
    simp
  · rcases List.mem_append.mp member with old | new
    · exact inv.recvs r old
    · rw [List.mem_singleton.mp new]
      refine ⟨?_, rfl⟩
      dsimp only
      rw [part, List.take_eq_take_iff]
      omega

end Receiving

theorem Serves.turn (inv : Serves state outQueue inQueue) (move : ringTurn state = some after) :
    ∃ outQueue inQueue, Serves after outQueue inQueue := by
  unfold ringTurn at move
  cases phase : state.call with
  | idle =>
    rw [phase] at move
    cases move
  | sending data unread cons prod sent =>
    rw [phase] at move
    simp only [sending_more inv phase] at move
    split at move
    · rename_i more
      cases Option.some.inj move
      exact ⟨_, _, inv.sendByte phase more⟩
    · rename_i last
      cases Option.some.inj move
      exact ⟨_, _, inv.publish phase last⟩
  | receiving len unread cons prod data =>
    rw [phase] at move
    simp only [receiving_more inv phase] at move
    split at move
    · rename_i more
      cases Option.some.inj move
      exact ⟨_, _, inv.recvByte phase more⟩
    · rename_i last
      cases Option.some.inj move
      exact ⟨_, _, inv.release phase last⟩

/-! ## The daemon -/

theorem Serves.consume (inv : Serves state outQueue inQueue) {n : Nat}
    (within : n ≤ uintSub state.outProd state.outCons) :
    Serves { state with
      read := state.read ++ ringRead state.out outSize state.outCons n
      outCons := uintAdd state.outCons n } (outQueue.drop n) inQueue := by
  rw [inv.out.used (by decide)] at within
  have front : ringRead state.out outSize state.outCons n = outQueue.take n := by
    have taken := (inv.out.take within).read
    rw [List.length_take_of_le within] at taken
    exact taken
  refine { inv with out := inv.out.drop out_laps within, outStream := ?_, call := ?_ }
  · dsimp only
    rw [inv.outStream, front, List.append_assoc, List.take_append_drop]
  · have call := inv.call
    unfold CallAt at call ⊢
    dsimp only
    cases phase : state.call with
    | idle => trivial
    | sending data unread cons prod sent =>
      rw [phase] at call
      obtain ⟨staged, shrunk, rest⟩ := call
      have dropped := staged.drop out_laps (n := n) (by rw [List.length_append]; omega)
      rw [List.drop_append_of_le_length within] at dropped
      refine ⟨dropped, ?_, rest⟩
      rw [List.length_drop]
      omega
    | receiving len unread cons prod data =>
      rw [phase] at call
      exact call

theorem Serves.append (inv : Serves state outQueue inQueue) {byte : UInt8}
    (room : uintSub state.inProd state.inCons < inSize) :
    Serves { state with
      input := Function.update state.input (state.inProd % inSize) byte
      inProd := uintAdd state.inProd 1
      appended := state.appended ++ [byte] } outQueue (inQueue ++ [byte]) := by
  rw [inv.input.used (by decide)] at room
  refine { inv with input := inv.input.push in_laps room byte, inStream := ?_, call := ?_ }
  · rw [← List.append_assoc, inv.inStream, List.append_assoc]
  · have call := inv.call
    unfold CallAt at call ⊢
    dsimp only
    cases phase : state.call with
    | idle => trivial
    | sending data unread cons prod sent =>
      rw [phase] at call
      exact call
    | receiving len unread cons prod data =>
      rw [phase] at call
      obtain ⟨here, within, rest⟩ := call
      exact ⟨here, within.trans (List.prefix_append _ _), rest⟩

theorem Serves.step (inv : Serves state outQueue inQueue) (move : ringsStep state op = some after) :
    ∃ outQueue inQueue, Serves after outQueue inQueue := by
  cases op with
  | send data => exact ⟨_, _, inv.send move⟩
  | recv len => exact ⟨_, _, inv.recv move⟩
  | turn => exact inv.turn move
  | consume n =>
    obtain ⟨within, move⟩ := Option.ite_none_right_eq_some.mp move
    cases Option.some.inj move
    exact ⟨_, _, inv.consume within⟩
  | append byte =>
    obtain ⟨room, move⟩ := Option.ite_none_right_eq_some.mp move
    cases Option.some.inj move
    exact ⟨_, _, inv.append room⟩

/-! ## The end of a call -/

theorem Serves.returns (inv : Serves state outQueue inQueue) (inside : state.call ≠ .idle) :
    ∃ after, RingsStep state .turn after ∧ after.call.turnsLeft < state.call.turnsLeft := by
  have call := inv.call
  unfold CallAt at call
  unfold RingsStep ringsStep ringTurn
  cases phase : state.call with
  | idle => exact absurd phase inside
  | sending data unread cons prod sent =>
    rw [phase] at call
    obtain ⟨_, _, small, least, range, index⟩ := call
    have near : outSize < 2 ^ 32 := by decide
    simp only [sending_more inv phase]
    split
    · rename_i more
      refine ⟨_, rfl, ?_⟩
      have next : uintAdd prod 1 = (cons + (unread.length + (sent + 1))) % 2 ^ 32 := by
        rw [index, uintAdd_mod]
        congr 1
      simp only [RingCall.turnsLeft]
      rw [used_of_index index (by omega), used_of_index next (by omega)]
      omega
    · exact ⟨_, rfl, Nat.succ_pos _⟩
  | receiving len unread cons prod data =>
    rw [phase] at call
    obtain ⟨here, within, index, part, least⟩ := call
    have near : inSize < 2 ^ 32 := by decide
    have fits := inv.input.fits
    have shorter := within.length_le
    simp only [receiving_more inv phase]
    split
    · rename_i more
      refine ⟨_, rfl, ?_⟩
      have left : ∀ k ≤ unread.length, uintSub prod (uintAdd cons k) = unread.length - k := by
        intro k small
        apply used_of_index _ (by omega)
        rw [index, uintAdd, Nat.mod_add_mod]
        congr 1
        omega
      simp only [RingCall.turnsLeft]
      rw [left data.length (by omega), List.length_append, List.length_singleton, left _ (by omega)]
      omega
    · exact ⟨_, rfl, Nat.succ_pos _⟩

/-- In every run the rings are queues for the calls and the daemon. -/
theorem console_rings_exact (reached : Reach FreshRings RingsStep Always state) : RingsExact state := by
  have inv : ∃ outQueue inQueue, Serves state outQueue inQueue := by
    apply Reach.invariant (fun state => ∃ outQueue inQueue, Serves state outQueue inQueue) _ _ reached
    · exact fun _ fresh => ⟨_, _, Serves.start fresh⟩
    · intro before op after inv _ move
      obtain ⟨outQueue, inQueue, inv⟩ := inv
      exact inv.step move
  obtain ⟨outQueue, inQueue, inv⟩ := inv
  refine ⟨inv.sends, ?_, inv.recvs, ?_, inv.returns, inv.bugged⟩
  · rw [inv.outUnread]
    exact inv.outStream
  · rw [inv.inUnread]
    exact inv.inStream

end Runs

/-- All four indices are about to wrap, and the in ring holds a byte. -/
def newRings : Rings :=
  { out := fun _ => 0
    outCons := 2 ^ 32 - 1
    outProd := 2 ^ 32 - 1
    input := fun _ => 7
    inCons := 2 ^ 32 - 1
    inProd := 0
    call := .idle
    bugged := false
    outBegun := []
    inBegun := [7]
    read := []
    appended := []
    sends := []
    recvs := [] }

theorem newRings_fresh : FreshRings newRings := by
  refine ⟨⟨by decide, by decide, by decide⟩, ⟨by decide, by decide, by decide⟩, rfl, rfl, ⟨?_, ?_⟩,
    rfl, rfl, rfl, rfl⟩
  · decide
  · decide

/-- The daemon takes a byte of three and appends one before a receive of up to two. -/
theorem console_rings_exact_wrapped :
    ∃ state, Reach FreshRings RingsStep Always state ∧ RingsExact state ∧ state.read = [1] ∧
      state.outUnread = [2, 3] ∧ state.recvs.map (·.data) = [[7, 8]] := by
  have run : (runLabels ringsStep Always ([.send [1, 2, 3]] ++ List.replicate 4 .turn ++
      [.consume 1, .append 8, .recv 2] ++ List.replicate 3 .turn) newRings).any (fun state =>
      decide (state.read = [1] ∧ state.outUnread = [2, 3] ∧ state.recvs.map (·.data) = [[7, 8]])) = true := by
    decide +kernel
  obtain ⟨state, reached, ends⟩ := Reach.of_run_ends newRings_fresh run
  exact ⟨state, reached, console_rings_exact reached, ends⟩

end Stardust.Console
