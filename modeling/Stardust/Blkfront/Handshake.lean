import Stardust.Xenbus.Operations

/-! # The handshake with the block back end

`blk_inform_back` and `blk_connected` of `blkfront.c` write their part of the handshake in a
transaction, again whenever the daemon answers its end with `EAGAIN`.  The daemon is the
answers it gives to each attempt. -/
set_option autoImplicit false
namespace Stardust.Blkfront

open Stardust.Xenbus

/-! ## The code -/

/-- What the daemon answers in one attempt: to the start of the transaction, to the `k`-th
write and to the end. -/
structure Attempt where
  start : Answer
  writes : Nat → Answer
  finish : Answer

/-- What the handshake tells of a `struct blk_dev`. -/
structure BlkDev where
  ringRef : BitVec 32
  evtchn : BitVec 32

/-- `EAGAIN` of `errno.h` -/
def errnoAgain : Int := 11

def xenbusStateInitialised : Nat := 3

def xenbusStateConnected : Nat := 4

/-- `"%u"` -/
def decimal (n : Nat) : CString := (Nat.toDigits 10 n).map fun digit => UInt8.ofNat digit.toNat

/-- `"ring-ref"` -/
def ringRefPath : CString := [114, 105, 110, 103, 45, 114, 101, 102]

/-- `"event-channel"` -/
def eventChannelPath : CString := [101, 118, 101, 110, 116, 45, 99, 104, 97, 110, 110, 101, 108]

/-- `"state"` -/
def statePath : CString := [115, 116, 97, 116, 101]

/-- `"%s/%s"` -/
def fullPath (node path : CString) : CString := cString node ++ [47] ++ cString path

/-- `xenbus_printf` of a number; `BUFFER_SIZE` is 256. -/
def xenbusPrintf (answer : Answer) (xbt : Nat) (node path : CString) (n : Nat) : XenbusM (Option Text) :=
  if 256 ≤ (cString node).length + (cString path).length + 1 then stop .bug
  else xenbusWrite answer xbt (fullPath node path) (decimal n)

/-- `if (err) xfree(err);` -/
def freeError : Option Text → XenbusM Unit
  | some err => xfree err.block
  | none => pure ()

/-- From the label `abort` of `blk_inform_back` on. -/
def informAbort (answer : Answer) (xbt : Nat) (err : Option Text) : XenbusM Int := do
  freeError err
  let (err, _) ← xenbusTransactionEnd answer xbt true
  freeError err
  pure 1

/-- `xbt` is what the variable of that name holds, at first whatever was on the stack. -/
def blkInformBack (path : CString) (dev : BlkDev) : List Attempt → Nat → XenbusM Int
  | [], _ => stop .fuel
  | attempt :: later, xbt => do
    let (err, started) ← xenbusTransactionStart attempt.start
    let xbt := started.getD xbt
    if err.isSome then
      freeError err
      pure errnoAgain
    else
      let err ← xenbusPrintf (attempt.writes 0) xbt path ringRefPath dev.ringRef.toNat
      if err.isSome then informAbort attempt.finish xbt err
      else
        let err ← xenbusPrintf (attempt.writes 1) xbt path eventChannelPath dev.evtchn.toNat
        if err.isSome then informAbort attempt.finish xbt err
        else
          let err ← xenbusPrintf (attempt.writes 2) xbt path statePath xenbusStateInitialised
          if err.isSome then informAbort attempt.finish xbt err
          else
            let (err, retry) ← xenbusTransactionEnd attempt.finish xbt false
            if retry then blkInformBack path dev later xbt
            else
              freeError err
              pure 0

/-- From the label `abort` of `blk_connected` on. -/
def connectedAbort (answer : Answer) (xbt : Nat) : XenbusM Int := do
  let (err, _) ← xenbusTransactionEnd answer xbt true
  freeError err
  pure 1

/-- Unlike `blk_inform_back`, it keeps the error of a failed start. -/
def blkConnected (path : CString) : List Attempt → Nat → XenbusM Int
  | [], _ => stop .fuel
  | attempt :: later, xbt => do
    let (err, started) ← xenbusTransactionStart attempt.start
    let xbt := started.getD xbt
    if err.isSome then pure errnoAgain
    else
      let err ← xenbusPrintf (attempt.writes 0) xbt path statePath xenbusStateConnected
      if err.isSome then
        freeError err
        connectedAbort attempt.finish xbt
      else
        let (err, retry) ← xenbusTransactionEnd attempt.finish xbt false
        if retry then blkConnected path later xbt
        else
          freeError err
          pure 0

/-! ## Requests and their errors -/

/-- After a request: an error reply is copied into a string, and the reply is freed. -/
def served (call : XenbusCall) (answer : Answer) (request : Sent) : XenbusCall :=
  { next := call.next + (if answer.type = xsError then 2 else 1)
    watches := answer.watches
    sent := call.sent ++ [request]
    replies := call.replies ++ [.reply call.next]
    freed := call.freed ++ [.reply call.next] }

/-- The string of an error reply. -/
def errorText (call : XenbusCall) (answer : Answer) : Text := ⟨.data (call.next + 1), answer.payload ++ [0]⟩

def freeing (call : XenbusCall) (block : Block) : XenbusCall := { call with freed := call.freed ++ [block] }

def startRequest : Sent := ⟨xsTransactionStart, 0, [[0]]⟩

def writeRequest (xbt : Nat) (node path : CString) (n : Nat) : Sent :=
  ⟨xsWrite, xbt, [segment (fullPath node path), segment (decimal n)]⟩

def endRequest (xbt : Nat) (abort : Bool) : Sent := ⟨xsTransactionEnd, xbt, [[if abort then 70 else 84, 0]]⟩

/-- The daemon asks for another attempt. -/
def Again (answer : Answer) : Prop := cString (answer.payload ++ [0]) = eagain

section Requests
variable {answer : Answer} {call : XenbusCall} {xbt n : Nat} {node path : CString} {abort : Bool}

theorem transactionStart_done (done : answer.type ≠ xsError) :
    xenbusTransactionStart answer call = .ok ((none, scanUint answer.payload), served call answer startRequest) := by
  unfold xenbusTransactionStart served
  rw [XenbusM.bind_ok (xenbusMsgReply_ok xsTransactionStart 0 [[0]]), XenbusM.bind_ok (errmsg_success done),
    if_neg done]
  rfl

theorem transactionStart_failed (failed : answer.type = xsError) :
    xenbusTransactionStart answer call =
      .ok ((some (errorText call answer), none), served call answer startRequest) := by
  unfold xenbusTransactionStart served
  rw [XenbusM.bind_ok (xenbusMsgReply_ok xsTransactionStart 0 [[0]]), XenbusM.bind_ok (errmsg_error failed),
    if_pos failed]
  rfl

theorem printf_run (short : ¬256 ≤ (cString node).length + (cString path).length + 1) :
    xenbusPrintf answer xbt node path n call =
      .ok (if answer.type = xsError then some (errorText call answer) else none,
        served call answer (writeRequest xbt node path n)) := by
  unfold xenbusPrintf xenbusWrite doneRequest served
  rw [if_neg short, XenbusM.bind_ok (xenbusMsgReply_ok xsWrite xbt _)]
  by_cases failed : answer.type = xsError
  · rw [XenbusM.bind_ok (errmsg_error failed), if_pos failed, if_pos failed]
    rfl
  · rw [XenbusM.bind_ok (errmsg_success failed), if_neg failed, if_neg failed]
    rfl

theorem transactionEnd_done (done : answer.type ≠ xsError) :
    xenbusTransactionEnd answer xbt abort call = .ok ((none, false), served call answer (endRequest xbt abort)) := by
  unfold xenbusTransactionEnd served
  rw [XenbusM.bind_ok (xenbusMsgReply_ok xsTransactionEnd xbt _), XenbusM.bind_ok (errmsg_success done), if_neg done]
  rfl

theorem transactionEnd_again (failed : answer.type = xsError) (again : Again answer) :
    xenbusTransactionEnd answer xbt abort call =
      .ok ((none, true), freeing (served call answer (endRequest xbt abort)) (errorText call answer).block) := by
  unfold xenbusTransactionEnd served
  rw [XenbusM.bind_ok (xenbusMsgReply_ok xsTransactionEnd xbt _), XenbusM.bind_ok (errmsg_error failed),
    if_pos failed]
  dsimp only
  rw [if_pos (show cString (answer.payload ++ [0]) = eagain from again)]
  rfl

theorem transactionEnd_refused (failed : answer.type = xsError) (refused : ¬Again answer) :
    xenbusTransactionEnd answer xbt abort call =
      .ok ((some (errorText call answer), false), served call answer (endRequest xbt abort)) := by
  unfold xenbusTransactionEnd served
  rw [XenbusM.bind_ok (xenbusMsgReply_ok xsTransactionEnd xbt _), XenbusM.bind_ok (errmsg_error failed),
    if_pos failed]
  dsimp only
  rw [if_neg (show ¬cString (answer.payload ++ [0]) = eagain from refused)]
  rfl

end Requests

/-! ## The strings of the errors -/

/-- Each block since `first` that is no reply, which is the string of an error, was freed once. -/
def FreesErrors (first : Nat) (call : XenbusCall) : Prop :=
  ∀ n, first ≤ n → n < call.next → .reply n ∉ call.replies → call.freed.count (.data n) = 1

/-- All strings since `first` were freed once, but for the one owed. -/
structure Ledger (first : Nat) (owing : Option Nat) (call : XenbusCall) : Prop where
  start : first ≤ call.next
  replies : ∀ n, .reply n ∈ call.replies → n < call.next
  fresh : ∀ n, call.next ≤ n → call.freed.count (.data n) = 0
  strings : ∀ n, first ≤ n → n < call.next → .reply n ∉ call.replies →
    call.freed.count (.data n) = if owing = some n then 0 else 1
  owed : ∀ n, owing = some n → first ≤ n ∧ n < call.next ∧ .reply n ∉ call.replies

section Ledgers
variable {first : Nat} {owing : Option Nat} {call : XenbusCall} {answer : Answer}

theorem Ledger.freesErrors (ledger : Ledger first none call) : FreesErrors first call := by
  intro n low high string
  exact (ledger.strings n low high string).trans (if_neg nofun)

theorem Ledger.leaks {n : Nat} (ledger : Ledger first (some n) call) : ¬FreesErrors first call := by
  intro frees
  obtain ⟨low, high, string⟩ := ledger.owed n rfl
  have once := frees n low high string
  rw [ledger.strings n low high string, if_pos rfl] at once
  nomatch once

theorem count_append_reply (freed : List Block) (m n : Nat) :
    (freed ++ [Block.reply m]).count (Block.data n) = freed.count (Block.data n) := by
  simp

theorem not_reply_append {replies : List Block} {n new : Nat} :
    .reply n ∉ replies ++ [.reply new] ↔ .reply n ∉ replies ∧ n ≠ new := by
  simp

/-- A reply lies below the next block, also after one more is handed out. -/
theorem Ledger.reply_le {owing : Option Nat} (ledger : Ledger first owing call) {n : Nat}
    (member : .reply n ∈ call.replies ++ [.reply call.next]) : n ≤ call.next := by
  rcases List.mem_append.mp member with old | new
  · exact Nat.le_of_lt (ledger.replies n old)
  · cases List.mem_singleton.mp new
    exact Nat.le_refl _

theorem Ledger.served_done (ledger : Ledger first none call) (request : Sent) (done : answer.type ≠ xsError) :
    Ledger first none (served call answer request) := by
  unfold served
  rw [if_neg done]
  refine ⟨Nat.le_succ_of_le ledger.start, ?_, ?_, ?_, nofun⟩
  · intro n member
    exact Nat.lt_succ_of_le (ledger.reply_le member)
  · intro n behind
    rw [count_append_reply]
    exact ledger.fresh n (Nat.le_of_succ_le behind)
  · intro n low high string
    obtain ⟨other, notNew⟩ := not_reply_append.mp string
    rw [count_append_reply]
    exact ledger.strings n low (by dsimp only at high; omega) other

theorem Ledger.served_failed (ledger : Ledger first none call) (request : Sent) (failed : answer.type = xsError) :
    Ledger first (some (call.next + 1)) (served call answer request) := by
  have start := ledger.start
  unfold served
  rw [if_pos failed]
  refine ⟨Nat.le_add_right_of_le start, ?_, ?_, ?_, ?_⟩
  · intro n member
    have below := ledger.reply_le member
    dsimp only
    omega
  · intro n behind
    rw [count_append_reply]
    exact ledger.fresh n (by dsimp only at behind; omega)
  · intro n low high string
    obtain ⟨other, notNew⟩ := not_reply_append.mp string
    rw [count_append_reply]
    by_cases new : n = call.next + 1
    · rw [if_pos (congrArg some new.symm)]
      exact ledger.fresh n (by omega)
    · rw [if_neg fun same => new (Option.some.inj same).symm]
      exact (ledger.strings n low (by dsimp only at high; omega) other).trans (if_neg nofun)
  · intro n same
    cases same
    exact ⟨by omega, by dsimp only; omega, fun member => Nat.not_succ_le_self _ (ledger.reply_le member)⟩

theorem Ledger.freeing {n : Nat} (ledger : Ledger first (some n) call) :
    Ledger first none (freeing call (.data n)) := by
  obtain ⟨low, high, string⟩ := ledger.owed n rfl
  unfold Blkfront.freeing
  refine ⟨ledger.start, ledger.replies, ?_, ?_, nofun⟩
  · intro m behind
    dsimp only at behind ⊢
    rw [List.count_append, ledger.fresh m behind, List.count_singleton]
    simp only [beq_iff_eq, Block.data.injEq]
    rw [if_neg (by omega)]
  · intro m lowM highM stringM
    rw [if_neg nofun, List.count_append, ledger.strings m lowM highM stringM, List.count_singleton]
    simp only [beq_iff_eq, Block.data.injEq, Option.some.injEq]
    split <;> rfl

end Ledgers

/-! ## How an attempt goes -/

namespace Attempt
variable (attempt : Attempt) (nrWrites : Nat)

/-- The transaction was started and all writes were made. -/
def Written : Prop := attempt.start.type ≠ xsError ∧ ∀ k < nrWrites, (attempt.writes k).type ≠ xsError

def Committed : Prop := attempt.Written nrWrites ∧ attempt.finish.type ≠ xsError

def Retried : Prop := attempt.Written nrWrites ∧ attempt.finish.type = xsError ∧ Again attempt.finish

/-- The end of the transaction fails for another reason. -/
def Refused : Prop := attempt.Written nrWrites ∧ attempt.finish.type = xsError ∧ ¬Again attempt.finish

end Attempt

/-- The requests of a transaction that is committed. -/
def transaction (xbt : Nat) (path : CString) (writes : List (CString × Nat)) : List Sent :=
  startRequest :: writes.map (fun entry => writeRequest xbt path entry.1 entry.2) ++ [endRequest xbt false]

/-- How the calls end that return: after `earlier` attempts that the daemon wants repeated,
in `attempt`. -/
structure Ended (path : CString) (writes : List (CString × Nat)) (sent : List Sent) (attempts : List Attempt)
    (earlier : List Attempt) (attempt : Attempt) (ret : Int) (after : XenbusCall) : Prop where
  before : ∃ later, attempts = earlier ++ attempt :: later
  retried : ∀ e ∈ earlier, e.Retried writes.length
  final : ¬attempt.Retried writes.length
  ret_iff : ret = 0 ↔ attempt.Written writes.length
  requests : attempt.Committed writes.length → ∃ others xbt,
    after.sent = sent ++ others ++ transaction xbt path writes ∧ others.length = earlier.length * (writes.length + 2)

theorem Ended.again {path : CString} {writes : List (CString × Nat)} {sent chunk : List Sent}
    {attempts earlier : List Attempt} {first attempt : Attempt} {ret : Int} {after : XenbusCall}
    (retried : first.Retried writes.length) (length : chunk.length = writes.length + 2)
    (ended : Ended path writes (sent ++ chunk) attempts earlier attempt ret after) :
    Ended path writes sent (first :: attempts) (first :: earlier) attempt ret after := by
  obtain ⟨⟨later, rfl⟩, others, final, ret_iff, requests⟩ := ended
  refine ⟨⟨later, rfl⟩, ?_, final, ret_iff, ?_⟩
  · intro e member
    rcases List.mem_cons.mp member with rfl | old
    · exact retried
    · exact others e old
  · intro committed
    obtain ⟨between, xbt, sentAll, count⟩ := requests committed
    refine ⟨chunk ++ between, xbt, ?_, ?_⟩
    · rw [sentAll]
      simp only [List.append_assoc]
    · rw [List.length_append, count, length, List.length_cons, Nat.succ_mul, Nat.add_comm]

/-! ## The calls -/

section Calls
variable {answer : Answer} {call after : XenbusCall} {attempt : Attempt} {attempts : List Attempt} {first xbt n : Nat}
  {node path : CString} {dev : BlkDev} {ret : Int}

theorem printf_bind {α : Type} {next : Option Text → XenbusM α} {result : α × XenbusCall}
    (run : (xenbusPrintf answer xbt node path n >>= next) call = .ok result) :
    next (if answer.type = xsError then some (errorText call answer) else none)
      (served call answer (writeRequest xbt node path n)) = .ok result := by
  by_cases long : 256 ≤ (cString node).length + (cString path).length + 1
  · have stopped : (xenbusPrintf answer xbt node path n >>= next) call = .error .bug := by
      unfold xenbusPrintf
      rw [if_pos long]
      rfl
    cases stopped.symm.trans run
  · rwa [XenbusM.bind_ok (printf_run long)] at run

/-- The error of an abort is freed. -/
theorem connectedAbort_run (answer : Answer) (xbt : Nat) (ledger : Ledger first none call) :
    ∃ after, connectedAbort answer xbt call = .ok (1, after) ∧ Ledger first none after := by
  unfold connectedAbort
  by_cases failed : answer.type = xsError
  · by_cases again : Again answer
    · rw [XenbusM.bind_ok (transactionEnd_again failed again)]
      exact ⟨_, rfl, (ledger.served_failed _ failed).freeing⟩
    · rw [XenbusM.bind_ok (transactionEnd_refused failed again)]
      exact ⟨_, rfl, (ledger.served_failed _ failed).freeing⟩
  · rw [XenbusM.bind_ok (transactionEnd_done failed)]
    exact ⟨_, rfl, ledger.served_done _ failed⟩

theorem informAbort_run (answer : Answer) (xbt : Nat) {err : Text} (block : err.block = .data n)
    (ledger : Ledger first (some n) call) :
    ∃ after, informAbort answer xbt (some err) call = .ok (1, after) ∧ Ledger first none after := by
  obtain ⟨after, run, freed⟩ := connectedAbort_run answer xbt ledger.freeing
  rw [← block] at run
  exact ⟨after, run, freed⟩

/-- The writes of `blk_inform_back`. -/
def informWrites (dev : BlkDev) : List (CString × Nat) :=
  [(ringRefPath, dev.ringRef.toNat), (eventChannelPath, dev.evtchn.toNat), (statePath, xenbusStateInitialised)]

def connectedWrites : List (CString × Nat) := [(statePath, xenbusStateConnected)]

/-- Where a request before the end fails, the attempt is the last one. -/
theorem Ended.unwritten {writes : List (CString × Nat)} {sent : List Sent} {later : List Attempt}
    (unwritten : ¬attempt.Written writes.length) (nonzero : ret ≠ 0) :
    Ended path writes sent (attempt :: later) [] attempt ret after where
  before := ⟨later, rfl⟩
  retried := nofun
  final retried := unwritten retried.1
  ret_iff := iff_of_false nonzero unwritten
  requests committed := absurd committed.1 unwritten

theorem Ended.refused {writes : List (CString × Nat)} {sent : List Sent} {later : List Attempt}
    (refused : attempt.Refused writes.length) : Ended path writes sent (attempt :: later) [] attempt 0 after where
  before := ⟨later, rfl⟩
  retried := nofun
  final retried := refused.2.2 retried.2.2
  ret_iff := iff_of_true rfl refused.1
  requests committed := absurd refused.2.1 committed.2

theorem Ended.committed {writes : List (CString × Nat)} {sent : List Sent} {later : List Attempt}
    (committed : attempt.Committed writes.length) (requests : after.sent = sent ++ transaction xbt path writes) :
    Ended path writes sent (attempt :: later) [] attempt 0 after where
  before := ⟨later, rfl⟩
  retried := nofun
  final retried := committed.2 retried.2.1
  ret_iff := iff_of_true rfl committed.1
  requests _ := ⟨[], xbt, by rw [requests, List.append_nil], by simp⟩

/-- The end of a transaction whose writes are made: the daemon repeats, refuses or commits it. -/
theorem finish_ends {writes : List (CString × Nat)} {sent : List Sent} {again : XenbusM Int}
    (later : List Attempt) (ledger : Ledger first none call) (written : attempt.Written writes.length)
    (made : call.sent = sent ++ startRequest :: writes.map fun entry => writeRequest xbt path entry.1 entry.2)
    (run : (xenbusTransactionEnd attempt.finish xbt false >>= fun result =>
      if result.2 then again else freeError result.1 >>= fun _ => pure 0) call = .ok (ret, after)) :
    (∃ between, attempt.Retried writes.length ∧ again between = .ok (ret, after) ∧ Ledger first none between ∧
      between.sent = sent ++ transaction xbt path writes) ∨
    (Ended path writes sent (attempt :: later) [] attempt ret after ∧ Ledger first none after) := by
  have requests : (served call attempt.finish (endRequest xbt false)).sent = sent ++ transaction xbt path writes := by
    change call.sent ++ [endRequest xbt false] = _
    rw [made, transaction, List.append_assoc]
  by_cases failed : attempt.finish.type = xsError
  · by_cases repeated : Again attempt.finish
    · rw [XenbusM.bind_ok (transactionEnd_again failed repeated)] at run
      exact Or.inl ⟨_, ⟨written, failed, repeated⟩, run, (ledger.served_failed _ failed).freeing, requests⟩
    · rw [XenbusM.bind_ok (transactionEnd_refused failed repeated)] at run
      cases run
      exact Or.inr ⟨Ended.refused ⟨written, failed, repeated⟩, (ledger.served_failed _ failed).freeing⟩
  · rw [XenbusM.bind_ok (transactionEnd_done failed)] at run
    cases run
    exact Or.inr ⟨Ended.committed ⟨written, failed⟩ requests, ledger.served_done _ failed⟩

theorem transaction_length (xbt : Nat) (path : CString) (writes : List (CString × Nat)) :
    (transaction xbt path writes).length = writes.length + 2 := by
  simp [transaction]

theorem blkConnected_ends (ledger : Ledger first none call)
    (run : blkConnected path attempts xbt call = .ok (ret, after)) :
    ∃ earlier attempt, Ended path connectedWrites call.sent attempts earlier attempt ret after ∧
      ∃ owing, Ledger first owing after ∧ (owing = none ↔ attempt.start.type ≠ xsError) := by
  induction attempts generalizing call xbt with
  | nil => cases run
  | cons attempt later ih =>
    rw [blkConnected] at run
    by_cases started : attempt.start.type = xsError
    · rw [XenbusM.bind_ok (transactionStart_failed started)] at run
      cases run
      have unwritten : ¬attempt.Written connectedWrites.length := fun written => written.1 started
      exact ⟨[], attempt, Ended.unwritten unwritten (by decide), _, ledger.served_failed _ started,
        iff_of_false nofun (not_not_intro started)⟩
    · rw [XenbusM.bind_ok (transactionStart_done started)] at run
      have begun := ledger.served_done startRequest started
      have run := printf_bind run
      by_cases failed : (attempt.writes 0).type = xsError
      · rw [if_pos failed] at run
        have unwritten : ¬attempt.Written connectedWrites.length := fun written => written.2 0 (by decide) failed
        obtain ⟨last, aborted, freed⟩ := connectedAbort_run attempt.finish _ (begun.served_failed _ failed).freeing
        cases aborted.symm.trans run
        exact ⟨[], attempt, Ended.unwritten unwritten (by decide), none, freed, iff_of_true rfl started⟩
      · rw [if_neg failed] at run
        have written : attempt.Written connectedWrites.length := by
          refine ⟨started, fun k small => ?_⟩
          cases Nat.lt_one_iff.mp small
          exact failed
        rcases finish_ends later (begun.served_done _ failed) written (List.append_assoc ..) run with
          ⟨between, retried, rest, kept, requests⟩ | ⟨ended, freed⟩
        · obtain ⟨earlier, last, ended, freed⟩ := ih kept rest
          rw [requests] at ended
          exact ⟨attempt :: earlier, last, ended.again retried (transaction_length ..), freed⟩
        · exact ⟨[], attempt, ended, none, freed, iff_of_true rfl started⟩

theorem blkInformBack_ends (ledger : Ledger first none call)
    (run : blkInformBack path dev attempts xbt call = .ok (ret, after)) :
    ∃ earlier attempt, Ended path (informWrites dev) call.sent attempts earlier attempt ret after ∧
      Ledger first none after := by
  induction attempts generalizing call xbt with
  | nil => cases run
  | cons attempt later ih =>
    rw [blkInformBack] at run
    by_cases started : attempt.start.type = xsError
    · rw [XenbusM.bind_ok (transactionStart_failed started)] at run
      cases run
      have unwritten : ¬attempt.Written (informWrites dev).length := fun written => written.1 started
      exact ⟨[], attempt, Ended.unwritten unwritten (by decide), (ledger.served_failed _ started).freeing⟩
    · rw [XenbusM.bind_ok (transactionStart_done started)] at run
      have begun := ledger.served_done startRequest started
      have run := printf_bind run
      let trans := (scanUint attempt.start.payload).getD xbt
      -- a write that fails is the last one of its attempt
      have fails : ∀ {k err between}, k < 3 → (attempt.writes k).type = xsError →
          informAbort attempt.finish trans (some err) between = .ok (ret, after) →
          ∀ n, err.block = .data n → Ledger first (some n) between →
          ∃ earlier last, Ended path (informWrites dev) call.sent (attempt :: later) earlier last ret after ∧
            Ledger first none after := by
        intro k err between small failed run n block owing
        have unwritten : ¬attempt.Written (informWrites dev).length := fun written => written.2 k small failed
        obtain ⟨last, aborted, freed⟩ := informAbort_run attempt.finish _ block owing
        cases aborted.symm.trans run
        exact ⟨[], attempt, Ended.unwritten unwritten (by decide), freed⟩
      by_cases failed : (attempt.writes 0).type = xsError
      · rw [if_pos failed] at run
        exact fails (by decide) failed run _ rfl (begun.served_failed _ failed)
      rw [if_neg failed] at run
      have ringRef := begun.served_done (writeRequest trans path ringRefPath dev.ringRef.toNat) failed
      have run := printf_bind run
      by_cases failed' : (attempt.writes 1).type = xsError
      · rw [if_pos failed'] at run
        exact fails (by decide) failed' run _ rfl (ringRef.served_failed _ failed')
      rw [if_neg failed'] at run
      have eventChannel := ringRef.served_done (writeRequest trans path eventChannelPath dev.evtchn.toNat) failed'
      have run := printf_bind run
      by_cases failed'' : (attempt.writes 2).type = xsError
      · rw [if_pos failed''] at run
        exact fails (by decide) failed'' run _ rfl (eventChannel.served_failed _ failed'')
      rw [if_neg failed''] at run
      have written : attempt.Written (informWrites dev).length := by
        refine ⟨started, fun k small => ?_⟩
        match k, small with
        | 0, _ => exact failed
        | 1, _ => exact failed'
        | 2, _ => exact failed''
      have made (a b c d : Sent) : call.sent ++ [a] ++ [b] ++ [c] ++ [d] = call.sent ++ [a, b, c, d] := by simp
      rcases finish_ends later (eventChannel.served_done _ failed'') written (made _ _ _ _) run with
        ⟨between, retried, rest, kept, requests⟩ | ⟨ended, freed⟩
      · obtain ⟨earlier, last, ended, freed⟩ := ih kept rest
        rw [requests] at ended
        exact ⟨attempt :: earlier, last, ended.again retried (transaction_length ..), freed⟩
      · exact ⟨[], attempt, ended, freed⟩

end Calls

/-! ## What the calls report -/

/-- `0` is returned only if the last requests are a transaction with all the writes, to which
the daemon said yes each time, and each error was freed once. -/
def Truthful (path : CString) (writes : List (CString × Nat)) (before : XenbusCall)
    (attempts : List Attempt) (ret : Int) (after : XenbusCall) : Prop :=
  (ret = 0 → ∃ earlier attempt later others xbt, attempts = earlier ++ attempt :: later ∧
    (∀ e ∈ earlier, e.Retried writes.length) ∧ attempt.Committed writes.length ∧
    after.sent = before.sent ++ others ++ transaction xbt path writes ∧
    others.length = earlier.length * (writes.length + 2)) ∧
  FreesErrors before.next after

/-- The first attempt that the daemon does not want repeated. -/
def Decisive (attempts : List Attempt) (nrWrites : Nat) (attempt : Attempt) : Prop :=
  ∃ earlier later, attempts = earlier ++ attempt :: later ∧ (∀ e ∈ earlier, e.Retried nrWrites) ∧
    ¬attempt.Retried nrWrites

section Truth
variable {path : CString} {writes : List (CString × Nat)} {before after : XenbusCall}
  {attempts earlier : List Attempt} {attempt : Attempt} {ret : Int} {nrWrites : Nat}

theorem Decisive.unique {a b : Attempt} (first : Decisive attempts nrWrites a)
    (second : Decisive attempts nrWrites b) : a = b := by
  obtain ⟨earlier, later, rfl, retried, final⟩ := first
  obtain ⟨earlier', later', same, retried', final'⟩ := second
  induction earlier generalizing earlier' with
  | nil =>
    cases earlier' with
    | nil => exact (List.cons.inj same).1
    | cons e rest =>
      have head := (List.cons.inj same).1
      rw [head] at final
      exact absurd (retried' e (List.mem_cons_self ..)) final
  | cons e earlier ih =>
    cases earlier' with
    | nil =>
      have head := (List.cons.inj same).1
      rw [← head] at final'
      exact absurd (retried e (List.mem_cons_self ..)) final'
    | cons e' rest =>
      exact ih (fun x member => retried x (List.mem_cons_of_mem e member)) rest (List.cons.inj same).2
        fun x member => retried' x (List.mem_cons_of_mem e' member)

theorem Ended.decisive (ended : Ended path writes before.sent attempts earlier attempt ret after) :
    Decisive attempts writes.length attempt := by
  obtain ⟨later, same⟩ := ended.before
  exact ⟨earlier, later, same, ended.retried, ended.final⟩

theorem Ended.truthful_iff (ended : Ended path writes before.sent attempts earlier attempt ret after) :
    Truthful path writes before attempts ret after ↔
      ¬attempt.Refused writes.length ∧ FreesErrors before.next after := by
  refine and_congr_left fun _ => ⟨?_, ?_⟩
  · intro commits refused
    obtain ⟨earlier', last, later, others, xbt, same, retried, committed, _⟩ := commits (ended.ret_iff.mpr refused.1)
    have final : ¬last.Retried writes.length := fun retried => committed.2 retried.2.1
    cases ended.decisive.unique ⟨earlier', later, same, retried, final⟩
    exact committed.2 refused.2.1
  · intro accepted zero
    obtain ⟨later, same⟩ := ended.before
    have written := ended.ret_iff.mp zero
    have committed : attempt.Committed writes.length := by
      refine ⟨written, fun failed => ?_⟩
      by_cases again : Again attempt.finish
      · exact ended.final ⟨written, failed, again⟩
      · exact accepted ⟨written, failed, again⟩
    obtain ⟨others, xbt, requests, count⟩ := ended.requests committed
    exact ⟨earlier, attempt, later, others, xbt, same, ended.retried, committed, requests, count⟩

theorem Decisive.forall_iff {p : Attempt → Prop} (decisive : Decisive attempts nrWrites attempt) :
    (∀ a, Decisive attempts nrWrites a → p a) ↔ p attempt := by
  refine ⟨fun all => all attempt decisive, fun holds a other => ?_⟩
  rw [other.unique decisive]
  exact holds

end Truth

theorem ledger_start (next : Nat) (watches : List (Nat × Watch)) : Ledger next none (.start next watches) :=
  ⟨Nat.le_refl next, nofun, fun _ _ => rfl, fun _ low high => absurd high (Nat.not_lt.mpr low), nofun⟩

/-- Both calls report the truth unless the daemon refuses to commit for another reason than
`EAGAIN`; `blk_connected` also drops the error of a transaction that does not start. -/
theorem handshake_truthful_iff (path : CString) (dev : BlkDev) (attempts : List Attempt) (xbt next : Nat)
    (watches : List (Nat × Watch)) :
    (∀ ret after, blkInformBack path dev attempts xbt (.start next watches) = .ok (ret, after) →
      (Truthful path (informWrites dev) (.start next watches) attempts ret after ↔
        ∀ attempt, Decisive attempts 3 attempt → ¬attempt.Refused 3)) ∧
    (∀ ret after, blkConnected path attempts xbt (.start next watches) = .ok (ret, after) →
      (Truthful path connectedWrites (.start next watches) attempts ret after ↔
        ∀ attempt, Decisive attempts 1 attempt → ¬attempt.Refused 1 ∧ attempt.start.type ≠ xsError)) := by
  constructor
  · intro ret after run
    obtain ⟨earlier, attempt, ended, ledger⟩ := blkInformBack_ends (ledger_start next watches) run
    have decisive : Decisive attempts 3 attempt := ended.decisive
    rw [ended.truthful_iff, decisive.forall_iff]
    exact and_iff_left ledger.freesErrors
  · intro ret after run
    obtain ⟨earlier, attempt, ended, owing, ledger, kept⟩ := blkConnected_ends (ledger_start next watches) run
    have decisive : Decisive attempts 1 attempt := ended.decisive
    rw [ended.truthful_iff, decisive.forall_iff]
    refine and_congr_right fun _ => ?_
    rw [← kept]
    cases owing with
    | none => exact iff_of_true ledger.freesErrors rfl
    | some n => exact iff_of_false ledger.leaks nofun

/-- `"EINVAL"` -/
def einval : List UInt8 := [69, 73, 78, 86, 65, 76, 0]

/-- Every request is done, and the end of the transaction is answered by `finish`. -/
def writtenThen (finish : Answer) : Attempt :=
  { start := ⟨xsTransactionStart, [55, 0], []⟩, writes := fun _ => ⟨xsWrite, [79, 75, 0], []⟩, finish }

/-- The second attempt is committed. -/
def secondAttempt : List Attempt :=
  [writtenThen ⟨xsError, eagain ++ [0], []⟩, writtenThen ⟨xsTransactionEnd, [79, 75, 0], []⟩]

theorem returns_zero {result : Except Halt (Int × XenbusCall)} (zero : result.toOption.map Prod.fst = some 0) :
    ∃ after, result = .ok (0, after) := by
  cases result with
  | error halt => cases zero
  | ok value =>
    obtain ⟨ret, after⟩ := value
    cases zero
    exact ⟨after, rfl⟩

theorem handshake_truthful_iff_second :
    ∃ informed connected,
      blkInformBack [100] ⟨8, 5⟩ secondAttempt 0 (.start 0 []) = .ok (0, informed) ∧
      (Truthful [100] (informWrites ⟨8, 5⟩) (.start 0 []) secondAttempt 0 informed ↔
        ∀ attempt, Decisive secondAttempt 3 attempt → ¬attempt.Refused 3) ∧
      blkConnected [100] secondAttempt 0 (.start 0 []) = .ok (0, connected) ∧
      (Truthful [100] connectedWrites (.start 0 []) secondAttempt 0 connected ↔
        ∀ attempt, Decisive secondAttempt 1 attempt → ¬attempt.Refused 1 ∧ attempt.start.type ≠ xsError) := by
  obtain ⟨informed, first⟩ := @returns_zero (blkInformBack [100] ⟨8, 5⟩ secondAttempt 0 (.start 0 []))
    (by decide +kernel)
  obtain ⟨connected, second⟩ := @returns_zero (blkConnected [100] secondAttempt 0 (.start 0 []))
    (by decide +kernel)
  have both := handshake_truthful_iff [100] ⟨8, 5⟩ secondAttempt 0 0 []
  exact ⟨informed, connected, first, both.1 _ _ first, second, both.2 _ _ second⟩

theorem not_truthful_of_refused {path : CString} {writes : List (CString × Nat)} {before after : XenbusCall}
    {attempt : Attempt} (refused : attempt.finish.type = xsError) :
    ¬Truthful path writes before [attempt] 0 after := by
  rintro ⟨commits, _⟩
  obtain ⟨earlier, last, later, _, _, same, _, committed, _⟩ := commits rfl
  have member : last ∈ [attempt] := by
    rw [same]
    exact List.mem_append_right _ (List.mem_cons_self ..)
  cases List.mem_singleton.mp member
  exact committed.2 refused

/-- The daemon does not commit, and both calls say it did. -/
theorem refused_commit_reported :
    (∃ after, blkInformBack [100] ⟨8, 5⟩ [writtenThen ⟨xsError, einval, []⟩] 0 (.start 0 []) = .ok (0, after) ∧
      ¬Truthful [100] (informWrites ⟨8, 5⟩) (.start 0 []) [writtenThen ⟨xsError, einval, []⟩] 0 after) ∧
    ∃ after, blkConnected [100] [writtenThen ⟨xsError, einval, []⟩] 0 (.start 0 []) = .ok (0, after) ∧
      ¬Truthful [100] connectedWrites (.start 0 []) [writtenThen ⟨xsError, einval, []⟩] 0 after := by
  obtain ⟨informed, first⟩ := @returns_zero
    (blkInformBack [100] ⟨8, 5⟩ [writtenThen ⟨xsError, einval, []⟩] 0 (.start 0 [])) (by decide +kernel)
  obtain ⟨connected, second⟩ := @returns_zero
    (blkConnected [100] [writtenThen ⟨xsError, einval, []⟩] 0 (.start 0 [])) (by decide +kernel)
  exact ⟨⟨informed, first, not_truthful_of_refused rfl⟩, ⟨connected, second, not_truthful_of_refused rfl⟩⟩

end Stardust.Blkfront
