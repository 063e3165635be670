import Stardust.Lib.Waiting
import Stardust.Xenbus.Reader

/-! # The polling client of the store

The functions of `xenstore.c` work on the rings byte by byte: they spin until the daemon
has made room or has put something in.  What the daemon does at each look of theirs is an
argument, with the bytes of its answer; it need not look at the rings before an event tells
it to.  A result is `none` when a bound on the looks in one spin runs out. -/
set_option autoImplicit false
namespace Stardust.Xenstore

open Stardust.Lib Stardust.Xenbus

/-- How many bytes the daemon would take, and put in, before the look at each time. -/
structure Daemon where
  /-- of the bytes that an event has told it of -/
  takes : Nat → Nat
  /-- of all that it finds, when it looks of its own accord -/
  peeks : Nat → Nat
  /-- in the room that an event has told it of -/
  puts : Nat → Nat
  /-- in all the room that it finds, when it looks of its own accord -/
  fills : Nat → Nat

structure Channel where
  buf : XenstoreBuf
  /-- what the daemon has taken, and what it has still to put in -/
  taken : List UInt8
  coming : List UInt8
  /-- how many of the unread bytes of requests were there at the last event -/
  notified : Nat
  /-- how much of the room for responses was there at the last event -/
  offered : Nat
  /-- the looks so far -/
  clock : Nat

/-- The daemon moves as far as the rings let it, then the client looks. -/
def look (daemon : Daemon) (s : Channel) : Channel :=
  let takes := min (max (min (daemon.takes s.clock) s.notified) (daemon.peeks s.clock))
    (used s.buf.reqProd s.buf.reqCons)
  let puts := min (max (min (daemon.puts s.clock) s.offered) (daemon.fills s.clock))
    (min s.coming.length (ringSize - used s.buf.rspProd s.buf.rspCons))
  { buf := { s.buf with
      rsp := ringWrite s.buf.rsp ringSize s.buf.rspProd (s.coming.take puts)
      reqCons := uintAdd s.buf.reqCons takes
      rspProd := uintAdd s.buf.rspProd puts }
    taken := s.taken ++ ringRead s.buf.req ringSize s.buf.reqCons takes
    coming := s.coming.drop puts
    notified := s.notified - takes
    offered := s.offered - puts
    clock := s.clock + 1 }

/-! ## The code -/

/-- `xenstore->req[MASK_XENSTORE_IDX(i)] = byte` -/
def Channel.store (s : Channel) (i : Nat) (byte : UInt8) : Channel :=
  { s with buf.req := Function.update s.buf.req (mask i) byte }

/-- The loop of `xenstore_write_request` over the bytes to go, and the write of `req_prod`. -/
def writeLoop (daemon : Daemon) (fuel : Nat) : List UInt8 → Nat → Channel → Option Channel
  | [], i, s => some { s with buf.reqProd := i }
  | byte :: rest, i, s =>
    (spin (look daemon) (fun s => decide (uintSub i s.buf.reqCons < ringSize)) fuel s).bind fun s =>
      writeLoop daemon fuel rest (uintAdd i 1) (s.store i byte)

/-- `xenstore_write_request`; no caller looks at its result. -/
def xenstoreWriteRequest (daemon : Daemon) (fuel : Nat) (message : List UInt8) (length : Int) (s : Channel) :
    Option Channel :=
  if (ringSize : Int) < length then some s
  else writeLoop daemon fuel (message.take length.toNat) s.buf.reqProd s

/-- The loop of `xenstore_read_response`, with `left` bytes to go, and the write of
`rsp_cons`. -/
def readLoop (daemon : Daemon) (fuel : Nat) : Nat → Nat → Channel → Option (List UInt8 × Channel)
  | 0, i, s => some ([], { s with buf.rspCons := i })
  | left + 1, i, s =>
    (spin (look daemon) (fun s => decide (uintSub s.buf.rspProd i ≠ 0)) fuel s).bind fun s =>
      (readLoop daemon fuel left (uintAdd i 1) s).map fun (rest, after) =>
        (s.buf.rsp (mask i) :: rest, after)

/-- `xenstore_read_response`: what it stores from `message` on. -/
def xenstoreReadResponse (daemon : Daemon) (fuel : Nat) (length : Int) (s : Channel) :
    Option (List UInt8 × Channel) :=
  readLoop daemon fuel length.toNat s.buf.rspCons s

/-- `IGNORE(n)`, which stores in a buffer of its own. -/
def ignore (daemon : Daemon) (fuel : Nat) (n : Nat) (s : Channel) : Option Channel :=
  (xenstoreReadResponse daemon fuel (intOfUlong n) s).map Prod.snd

/-- `NOTIFY()`: the event tells the daemon of all that is on the rings. -/
def Channel.notify (s : Channel) : Channel :=
  { s with
    notified := used s.buf.reqProd s.buf.reqCons
    offered := ringSize - used s.buf.rspProd s.buf.rspCons }

abbrev typeRead : BitVec 32 := 2
abbrev typeDirectory : BitVec 32 := 1
abbrev typeWrite : BitVec 32 := 11

/-- What a call gives back. -/
structure Outcome where
  code : Int
  /-- the bytes stored from the start of the caller's buffer -/
  stored : List UInt8
  /-- the counter `req_id` -/
  reqId : BitVec 32
  channel : Channel

/-- Conversion of an `int` to `uint32_t`. -/
def uintOfInt (a : Int) : Nat := (a % 2 ^ 32).toNat

def xenstoreWrite (daemon : Daemon) (fuel : Nat) (key value : CString) (reqId : BitVec 32) (s : Channel) :
    Option Outcome :=
  let keyLength := intOfUlong key.length
  let valueLength := intOfUlong value.length
  let len := uintOfInt (intAdd (intAdd 2 keyLength) valueLength)
  (xenstoreWriteRequest daemon fuel (headerBytes ⟨typeWrite, reqId, 0⟩ len) 16 s).bind fun s =>
  (xenstoreWriteRequest daemon fuel (key ++ [0]) (intAdd keyLength 1) s).bind fun s =>
  (xenstoreWriteRequest daemon fuel (value ++ [0]) (intAdd valueLength 1) s).bind fun s =>
  (xenstoreReadResponse daemon fuel 16 s.notify).bind fun (header, s) =>
  (ignore daemon fuel (parseHeader header).2 s).map fun s =>
    ⟨if (parseHeader header).1.reqId ≠ reqId then -1 else 0, [], reqId + 1, s⟩

/-- `xenstore_read` and `xenstore_ls`, which differ in the type of the request and in the
result when the value fits. -/
def readCall (type : BitVec 32) (result : Nat → Int) (daemon : Daemon) (fuel : Nat) (key : CString)
    (valueLength : Int) (reqId : BitVec 32) (s : Channel) : Option Outcome :=
  let keyLength := intOfUlong key.length
  let len := uintOfInt (intAdd 1 keyLength)
  (xenstoreWriteRequest daemon fuel (headerBytes ⟨type, reqId, 0⟩ len) 16 s).bind fun s =>
  (xenstoreWriteRequest daemon fuel (key ++ [0]) (intAdd keyLength 1) s).bind fun s =>
  (xenstoreReadResponse daemon fuel 16 s.notify).bind fun (header, s) =>
    let (msg, len) := parseHeader header
    if msg.reqId ≠ reqId then
      (ignore daemon fuel len s).map fun s => ⟨-1, [], reqId + 1, s⟩
    else if len ≤ uintOfInt valueLength then
      (xenstoreReadResponse daemon fuel (intOfUlong len) s).map fun (stored, s) =>
        ⟨result len, stored, reqId + 1, s⟩
    else
      (xenstoreReadResponse daemon fuel valueLength s).bind fun (stored, s) =>
      (ignore daemon fuel (uintSub len (uintOfInt valueLength)) s).map fun s =>
        ⟨-2, stored, reqId + 1, s⟩

def xenstoreRead := readCall typeRead fun _ => 0

def xenstoreLs := readCall typeDirectory fun len => intOfUlong len

end Stardust.Xenstore
