import Stardust.Kernel
import Stardust.Lib.FreeList
import Stardust.Lib.Reach

/-! # The block front end

Submissions and the handler of the event hold the device's lock; a callback may submit.
The back end takes requests off the ring, maps and releases their pages, answers in any
order and publishes its responses in batches.  Tags number the submissions; they go with
a request and its response and no code reads them. -/
set_option autoImplicit false
namespace Stardust.Blkfront

open Stardust.Lib

/-- 36 entries of 112 bytes fit behind the header of a page. -/
def blkRingSize : Nat := 32

def maxPagesPerRequest : Nat := 11

/-- `io_req->state` -/
inductive IoState
  | empty
  | submitted
  | doneSuccess
  | doneError
  deriving DecidableEq

structure Shadow where
  gref : List Nat
  numRefs : Nat
  free : Bool
  request : Nat
  deriving DecidableEq

/-- An entry of the ring. -/
inductive Slot
  | empty
  | request (tag id : Nat) (grefs : List Nat)
  | response (tag id : Nat) (status : Int)
  deriving DecidableEq

/-- The back end's copy of a request. -/
structure Taken where
  tag : Nat
  id : Nat
  grefs : List Nat
  deriving DecidableEq

/-- Where the handler is. -/
inductive Handler
  | idle
  /-- before the read of `rsp_prod` -/
  | start
  | loop (cons prod : Nat)
  /-- before the first read of the final check -/
  | check
  /-- before its write of `rsp_event` -/
  | event
  /-- before its second read -/
  | recheck
  /-- before the write of `rsp_event` when nothing is outstanding -/
  | quiet (cons : Nat)
  deriving DecidableEq

/-- ghost: what a submission was given -/
structure Sub where
  tag : Nat
  request : Nat
  id : Nat
  refs : List Nat
  deriving DecidableEq

/-- ghost: a call of a callback, for the response with the tag, and the references that
were ended before it -/
structure Completed where
  tag : Nat
  request : Nat
  state : IoState
  ended : List Nat
  deriving DecidableEq

structure BlkRun where
  freelist : Nat → Nat
  shadows : Nat → Shadow
  reqProdPvt : Nat
  rspCons : Nat
  handler : Handler
  ioState : Nat → IoState
  /-- the driver's references that are live -/
  live : Nat → Bool
  bugged : Bool
  /-- shared with the back end -/
  ring : Nat → Slot
  reqProd : Nat
  rspProd : Nat
  rspEvent : Nat
  /-- references that the back end has mapped -/
  mapped : Nat → Bool
  /-- the event is pending -/
  pending : Bool
  /-- the back end's -/
  reqCons : Nat
  rspProdPvt : Nat
  inFlight : List Taken
  /-- the last `rsp_prod`, between its write and the test of `rsp_event` -/
  pushing : Option Nat
  /-- the test was true, and the event is still to be sent -/
  notify : Bool
  /-- ghosts -/
  submissions : List Sub
  answers : List (Nat × Int)
  completed : List Completed

inductive BlkOp
  /-- the owner of a request sets it to `BLK_EMPTY` -/
  | prepare (request : Nat)
  /-- `blk_do_io`, with what `gnttab_grant_access` returns in it -/
  | submit (request : Nat) (refs : List Nat) (endSector : Nat)
  | upcall
  /-- the next access of the handler, or the next response -/
  | handler
  | take
  | map (ref : Nat)
  | unmap (ref : Nat)
  | answer (i : Nat) (status : Int)
  | push
  | test
  | notify
  deriving DecidableEq

/-! ## The free ids -/

def BlkRun.setShadow (state : BlkRun) (id : Nat) (shadow : Shadow) : BlkRun :=
  { state with shadows := Function.update state.shadows id shadow }

/-- The section of `get_freelist_id`; the id is the old `freelist[0]`. -/
def getFreelistId (state : BlkRun) : BlkRun :=
  let id := state.freelist 0
  { state with freelist := Function.update state.freelist 0 (state.freelist id) }.setShadow id
    { state.shadows id with free := false }

def addIdFreelist (state : BlkRun) (id : Nat) : BlkRun :=
  let freelist := Function.update state.freelist id (state.freelist 0)
  { state with freelist := Function.update freelist 0 id }.setShadow id
    { state.shadows id with free := true }

/-- The free list that `init_buffers` makes of zeros. -/
def initBuffers : Nat → Nat :=
  (List.range blkRingSize).foldl
    (fun freelist id => Function.update (Function.update freelist id (freelist 0)) 0 id) fun _ => 0

/-! ## `blk_do_io` -/

/-- A write of the byte 5 of an entry: it is in the id of a response, and in no field of
a request. -/
def Slot.setByte5 (slot : Slot) (byte : Nat) : Slot :=
  match slot with
  | .response tag id status => .response tag (id - id / 2 ^ 40 % 256 * 2 ^ 40 + byte % 256 * 2 ^ 40) status
  | .request tag id grefs => .request tag id grefs
  | .empty => .empty

/-- `xen_req->seg[i].last_sect` after the loop: the segment past the last, which for a
full request is in the next entry, or behind the ring. -/
def strayLastSect (ring : Nat → Slot) (slot numPages endSector : Nat) : Nat → Slot :=
  if numPages = maxPagesPerRequest ∧ slot + 1 < blkRingSize then
    Function.update ring (slot + 1) ((ring (slot + 1)).setByte5 endSector)
  else ring

def blkDoIo (state : BlkRun) (request : Nat) (refs : List Nat) (endSector : Nat) : BlkRun :=
  let prod := state.reqProdPvt
  let id := state.freelist 0
  let state : BlkRun := getFreelistId state
  if id = 0 then state
  else
    let slot := prod % blkRingSize
    let tag := state.submissions.length
    let ring := Function.update state.ring slot (.request tag id refs)
    { state.setShadow id ⟨refs, refs.length, false, request⟩ with
      live := fun ref => refs.contains ref || state.live ref
      ring := strayLastSect ring slot refs.length endSector
      ioState := Function.update state.ioState request .submitted
      reqProdPvt := uintAdd prod 1
      reqProd := uintAdd prod 1
      submissions := state.submissions ++ [⟨tag, request, id, refs⟩] }

/-! ## `blk_front_handler` -/

/-- `gnttab_end_access` in turn; the ones it ends are collected. -/
def completeRequest (mapped : Nat → Bool) : List Nat → (Nat → Bool) → (Nat → Bool) × List Nat
  | [], live => (live, [])
  | ref :: rest, live =>
    if live ref = true ∧ mapped ref = false then
      let (live, ended) := completeRequest mapped rest (Function.update live ref false)
      (live, ref :: ended)
    else completeRequest mapped rest live

/-- `BLKIF_RSP_OKAY` is 0. -/
def doneState (status : Int) : IoState := if status = 0 then .doneSuccess else .doneError

/-- The body of the loop. -/
def respond (state : BlkRun) (cons : Nat) : BlkRun :=
  match state.ring (cons % blkRingSize) with
  | .response tag id status =>
    let shadow := state.shadows id
    if shadow.free = true ∨ state.ioState shadow.request ≠ .submitted then { state with bugged := true }
    else
      let (live, ended) := completeRequest state.mapped (shadow.gref.take shadow.numRefs) state.live
      { addIdFreelist state id with
        live := live
        ioState := Function.update state.ioState shadow.request (doneState status)
        completed := state.completed ++ [⟨tag, shadow.request, doneState status, ended⟩] }
  | _ => { state with bugged := true }

def handlerStep (state : BlkRun) : Option BlkRun :=
  match state.handler with
  | .idle => none
  | .start => some { state with handler := .loop state.rspCons state.rspProd }
  | .loop cons prod =>
    if cons ≠ prod then some { respond state cons with handler := .loop (uintAdd cons 1) prod }
    else if cons ≠ state.reqProdPvt then some { state with rspCons := cons, handler := .check }
    else some { state with rspCons := cons, handler := .quiet cons }
  | .check =>
    if uintSub state.rspProd state.rspCons ≠ 0 then some { state with handler := .start }
    else some { state with handler := .event }
  | .event => some { state with rspEvent := uintAdd state.rspCons 1, handler := .recheck }
  | .recheck =>
    if uintSub state.rspProd state.rspCons ≠ 0 then some { state with handler := .start }
    else some { state with handler := .idle }
  | .quiet cons => some { state with rspEvent := uintAdd cons 1, handler := .idle }

/-! ## Steps -/

/-- Submissions whose callback has not been called. -/
def BlkRun.outstanding (state : BlkRun) : List Sub :=
  state.submissions.filter fun s => s.tag ∉ state.completed.map (·.tag)

/-- The lock is free, or the handler is where it calls callbacks. -/
def Handler.submits (handler : Handler) : Bool :=
  match handler with
  | .idle | .loop _ _ => true
  | _ => false

/-- The references of a request are new, and there are pages in it. -/
def BlkRun.Grantable (state : BlkRun) (refs : List Nat) : Prop :=
  refs ≠ [] ∧ refs.length ≤ maxPagesPerRequest ∧ refs.Nodup ∧ ∀ ref ∈ refs, state.live ref = false

instance (state : BlkRun) (refs : List Nat) : Decidable (state.Grantable refs) := by
  unfold BlkRun.Grantable
  infer_instance

def blkStep (state : BlkRun) : BlkOp → Option BlkRun
  | .prepare request =>
    if request ∉ state.outstanding.map (·.request) then
      some { state with ioState := Function.update state.ioState request .empty }
    else none
  | .submit request refs endSector =>
    if state.ioState request = .empty ∧ state.handler.submits = true ∧ state.Grantable refs then
      some (blkDoIo state request refs endSector)
    else none
  | .upcall =>
    if state.pending = true ∧ state.handler = .idle then
      some { state with pending := false, handler := .start }
    else none
  | .handler => handlerStep state
  | .take =>
    if state.reqCons ≠ state.reqProd then
      match state.ring (state.reqCons % blkRingSize) with
      | .request tag id grefs => some { state with
          reqCons := uintAdd state.reqCons 1, inFlight := state.inFlight ++ [⟨tag, id, grefs⟩] }
      | _ => none
    else none
  | .map ref =>
    if ∃ request ∈ state.inFlight, ref ∈ request.grefs then
      some { state with mapped := Function.update state.mapped ref true }
    else none
  | .unmap ref => some { state with mapped := Function.update state.mapped ref false }
  | .answer i status =>
    match state.inFlight[i]? with
    | some request =>
      if state.pushing = none ∧ ∀ ref ∈ request.grefs, state.mapped ref = false then
        some { state with
          ring := Function.update state.ring (state.rspProdPvt % blkRingSize)
            (.response request.tag request.id status)
          rspProdPvt := uintAdd state.rspProdPvt 1
          inFlight := state.inFlight.eraseIdx i
          answers := state.answers ++ [(request.tag, status)] }
      else none
    | none => none
  | .push =>
    if state.pushing = none then
      some { state with rspProd := state.rspProdPvt, pushing := some state.rspProd }
    else none
  | .test =>
    state.pushing.map fun old => { state with
      pushing := none
      notify := state.notify ||
        decide (uintSub state.rspProd state.rspEvent < uintSub state.rspProd old) }
  | .notify =>
    if state.notify = true then some { state with notify := false, pending := true } else none

abbrev BlkStep (before : BlkRun) (op : BlkOp) (after : BlkRun) : Prop := blkStep before op = some after

/-- After `init_buffers` and `blk_init_ring`. -/
structure FreshBlk (state : BlkRun) : Prop where
  freelist : state.freelist = initBuffers
  ring : ∀ slot, state.ring slot = .empty
  handler : state.handler = .idle
  front : state.reqProdPvt = 0 ∧ state.rspCons = 0
  shared : state.reqProd = 0 ∧ state.rspProd = 0 ∧ state.rspEvent = 1
  back : state.reqCons = 0 ∧ state.rspProdPvt = 0 ∧ state.inFlight = [] ∧ state.pushing = none
  live : ∀ ref, state.live ref = false
  mapped : ∀ ref, state.mapped ref = false
  bugged : state.bugged = false
  ghosts : state.submissions = [] ∧ state.answers = [] ∧ state.completed = []

/-- No unanswered request and no unread response is in it. -/
def BlkRun.SlotFree (state : BlkRun) (slot : Slot) : Prop :=
  match slot with
  | .empty => True
  | .request tag _ _ => tag ∈ state.answers.map (·.1)
  | .response tag _ _ => tag ∈ state.completed.map (·.tag)

/-- The back end has answered everything, and no event is on its way. -/
structure BlkRun.Settled (state : BlkRun) : Prop where
  taken : state.reqCons = state.reqProd
  answered : state.inFlight = []
  pushed : state.rspProd = state.rspProdPvt ∧ state.pushing = none
  signalled : state.notify = false ∧ state.pending = false ∧ state.handler = .idle

structure BlkCorrect (state : BlkRun) : Prop where
  outstanding : state.outstanding.length ≤ 31
  ids : (state.outstanding.map (·.id)).Nodup ∧ ∀ s ∈ state.outstanding, s.id ≠ 0
  slot : state.freelist 0 ≠ 0 → state.SlotFree (state.ring (state.reqProdPvt % blkRingSize))
  bugged : state.bugged = false
  tags : (state.submissions.map (·.tag)).Nodup
  /-- the callback of a submission once, with its own status and its grants ended -/
  once : (state.completed.map (·.tag)).Nodup
  own : ∀ c ∈ state.completed, ∃ s ∈ state.submissions, ∃ status, c.tag = s.tag ∧
    c.request = s.request ∧ (s.tag, status) ∈ state.answers ∧ c.state = doneState status ∧
      c.ended = s.refs
  answers : (state.answers.map (·.1)).Nodup
  live : ∀ ref, state.live ref = true ↔ ∃ s ∈ state.outstanding, ref ∈ s.refs
  disjoint : (state.outstanding.flatMap (·.refs)).Nodup
  settled : state.Settled → state.outstanding = []

end Stardust.Blkfront
