import Stardust.Xenbus.Watches

/-! # The xenbus operations and the reply they own

Each operation makes a request with `xenbus_msg_reply`, which hands it a reply in
a block of its own, and gives its result in fresh blocks.  `freed` is the trace of
the calls of `xfree`. -/
set_option autoImplicit false
namespace Stardust.Xenbus

/-- A block from `xmalloc`, by what it holds and the number of its allocation. -/
inductive Block
  | reply (n : Nat)
  | watch (n : Nat)
  | data (n : Nat)
  deriving DecidableEq

/-- `struct xsd_sockmsg` and its payload, as it was received. -/
structure Reply where
  block : Block
  type : Nat
  payload : List UInt8

/-- A string in a block. -/
structure Text where
  block : Block
  bytes : List UInt8

/-- `{ s, strlen(s) + 1 }` -/
def segment (s : CString) : List UInt8 := cString s ++ [0]

structure Sent where
  type : Nat
  trans : Nat
  req : List (List UInt8)
  deriving DecidableEq

structure XenbusCall where
  /-- the number of the next allocation -/
  next : Nat
  /-- `watch_list` with the number of each watch's block -/
  watches : List (Nat × Watch)
  /-- the requests made, and the blocks of their replies -/
  sent : List Sent
  replies : List Block
  freed : List Block

abbrev XenbusM := StateT XenbusCall (Except Halt)

/-- What an operation meets: the reply, and the watches when it runs again. -/
structure Answer where
  type : Nat
  payload : List UInt8
  watches : List (Nat × Watch)

def xmallocData : XenbusM Block := fun call =>
  .ok (.data call.next, { call with next := call.next + 1 })

def xfree (block : Block) : XenbusM Unit := fun call =>
  .ok ((), { call with freed := call.freed ++ [block] })

/-- `xenbus_msg_reply` -/
def xenbusMsgReply (answer : Answer) (type trans : Nat) (req : List (List UInt8)) : XenbusM Reply :=
  fun call => .ok (⟨.reply call.next, answer.type, answer.payload⟩, { call with
    next := call.next + 1
    watches := answer.watches
    sent := call.sent ++ [⟨type, trans, req⟩]
    replies := call.replies ++ [.reply call.next] })

/-! ## `enum xsd_sockmsg_type` -/

abbrev xsDirectory : Nat := 1
abbrev xsRead : Nat := 2
abbrev xsGetPerms : Nat := 3
abbrev xsWatch : Nat := 4
abbrev xsUnwatch : Nat := 5
abbrev xsTransactionStart : Nat := 6
abbrev xsTransactionEnd : Nat := 7
abbrev xsWrite : Nat := 11
abbrev xsRm : Nat := 13
abbrev xsSetPerms : Nat := 14
abbrev xsError : Nat := 16

/-! ## The code -/

/-- `errmsg`.  `xenbus_msg_reply` has read through its result, so it is not null. -/
def errmsg (rep : Reply) : XenbusM (Option Text) :=
  if rep.type ≠ xsError then pure none
  else do
    let res ← xmallocData
    xfree rep.block
    pure (some ⟨res, rep.payload ++ [0]⟩)

/-- An operation that wants to know only whether the request was done. -/
def doneRequest (answer : Answer) (type trans : Nat) (req : List (List UInt8)) :
    XenbusM (Option Text) := do
  let rep ← xenbusMsgReply answer type trans req
  let msg ← errmsg rep
  match msg with
  | some msg => pure (some msg)
  | none =>
    xfree rep.block
    pure none

/-- An operation that gives a copy of the payload: the error and `*value`. -/
def valueRequest (answer : Answer) (type trans : Nat) (req : List (List UInt8)) :
    XenbusM (Option Text × Option Text) := do
  let rep ← xenbusMsgReply answer type trans req
  let msg ← errmsg rep
  match msg with
  | some msg => pure (some msg, none)
  | none =>
    let res ← xmallocData
    xfree rep.block
    pure (none, some ⟨res, rep.payload ++ [0]⟩)

/-- The loop of `xenbus_ls`: as many strings as there are NULs. -/
def copyStrings : Nat → List UInt8 → XenbusM (List Text)
  | 0, _ => pure []
  | nrElems + 1, bytes => do
    let res ← xmallocData
    let l := (cString bytes).length
    let rest ← copyStrings nrElems (bytes.drop (l + 1))
    pure (⟨res, bytes.take (l + 1)⟩ :: rest)

/-- `xenbus_ls`: the error and `*contents`. -/
def xenbusLs (answer : Answer) (xbt : Nat) (pre : CString) :
    XenbusM (Option Text × Option (Block × List Text)) := do
  let repmsg ← xenbusMsgReply answer xsDirectory xbt [segment pre]
  let msg ← errmsg repmsg
  match msg with
  | some msg => pure (some msg, none)
  | none =>
    let res ← xmallocData
    let elems ← copyStrings (repmsg.payload.count 0) repmsg.payload
    xfree repmsg.block
    pure (none, some (res, elems))

def xenbusRead (answer : Answer) (xbt : Nat) (path : CString) :
    XenbusM (Option Text × Option Text) :=
  valueRequest answer xsRead xbt [segment path]

def xenbusWrite (answer : Answer) (xbt : Nat) (path value : CString) : XenbusM (Option Text) :=
  doneRequest answer xsWrite xbt [segment path, segment value]

/-- `find_watch` -/
def findEntry (watches : List (Nat × Watch)) (token : CString) : Option (Nat × Watch) :=
  watches.find? fun entry => entry.2.token = token

/-- `list_del` of a watch -/
def unlinkWatch (block : Nat) : XenbusM Unit := fun call =>
  .ok ((), { call with watches := call.watches.filter (·.1 ≠ block) })

def getWatches : XenbusM (List (Nat × Watch)) := fun call => .ok (call.watches, call)

/-- `BUG()` -/
def stop {α : Type} (halt : Halt) : XenbusM α := fun _ => .error halt

/-- The first part of `xenbus_watch_path`. -/
def registerWatch (path token : CString) : XenbusM Unit := fun call =>
  match findEntry call.watches token with
  | some _ => .error .bug
  | none => .ok ((), { call with
      next := call.next + 1
      watches := (call.next, ⟨token, path, 0, 0, fun _ => [], none⟩) :: call.watches })

def xenbusWatchPath (answer : Answer) (xbt : Nat) (path token : CString) :
    XenbusM (Option Text) := do
  registerWatch path token
  let rep ← xenbusMsgReply answer xsWatch xbt [segment path, segment token]
  let msg ← errmsg rep
  match msg with
  | some msg =>
    xfree rep.block
    let watches ← getWatches
    match findEntry watches token with
    | none => stop .bug
    | some (block, _) =>
      unlinkWatch block
      xfree (.watch block)
      pure (some msg)
  | none => pure none

def xenbusRmWatch (answer : Answer) (token : CString) : XenbusM Nat := do
  let watches ← getWatches
  match findEntry watches token with
  | none => pure 1
  | some (block, watch) =>
    let _ ← xenbusMsgReply answer xsUnwatch 0 [segment watch.path, segment watch.token]
    unlinkWatch block
    xfree (.watch block)
    pure 1

def xenbusRm (answer : Answer) (xbt : Nat) (path : CString) : XenbusM (Option Text) :=
  doneRequest answer xsRm xbt [segment path]

def xenbusGetPerms (answer : Answer) (xbt : Nat) (path : CString) :
    XenbusM (Option Text × Option Text) :=
  valueRequest answer xsGetPerms xbt [segment path]

/-- `snprintf(value, PERM_MAX_SIZE, "%c%hu", perm, dom)` -/
def permValue (dom : BitVec 16) (perm : UInt8) : List UInt8 :=
  perm :: (Nat.toDigits 10 dom.toNat).map fun digit => UInt8.ofNat digit.toNat

def xenbusSetPerms (answer : Answer) (xbt : Nat) (path : CString) (dom : BitVec 16) (perm : UInt8) :
    XenbusM (Option Text) :=
  doneRequest answer xsSetPerms xbt [segment path, segment (permValue dom perm)]

def isSpace (c : UInt8) : Bool := c = 32 ∨ c = 160 ∨ 9 ≤ c ∧ c ≤ 13

def isDigit (c : UInt8) : Bool := 48 ≤ c ∧ c ≤ 57

/-- `sscanf(buf, "%u", &value)`: what is stored, if anything is. -/
def scanUint (bytes : List UInt8) : Option Nat :=
  match ((cString bytes).dropWhile isSpace).takeWhile isDigit with
  | [] => none
  | digits => some (digits.foldl (fun value digit => value * 10 + (digit.toNat - 48)) 0 % 2 ^ 32)

/-- `xenbus_transaction_start`: the error and what is stored in `*xbt`. -/
def xenbusTransactionStart (answer : Answer) : XenbusM (Option Text × Option Nat) := do
  let rep ← xenbusMsgReply answer xsTransactionStart 0 [[0]]
  let err ← errmsg rep
  match err with
  | some err => pure (some err, none)
  | none =>
    let xbt := scanUint rep.payload
    xfree rep.block
    pure (none, xbt)

/-- `"EAGAIN"` -/
def eagain : CString := [69, 65, 71, 65, 73, 78]

/-- `xenbus_transaction_end`: the error and `*retry`. -/
def xenbusTransactionEnd (answer : Answer) (t : Nat) (abort : Bool) :
    XenbusM (Option Text × Bool) := do
  let rep ← xenbusMsgReply answer xsTransactionEnd t [[if abort then 70 else 84, 0]]
  let err ← errmsg rep
  match err with
  | some err =>
    if cString err.bytes = eagain then
      xfree err.block
      pure (none, true)
    else pure (some err, false)
  | none =>
    xfree rep.block
    pure (none, false)

/-! ## Every operation -/

inductive Operation
  | ls (xbt : Nat) (pre : CString)
  | read (xbt : Nat) (path : CString)
  | write (xbt : Nat) (path value : CString)
  | watchPath (xbt : Nat) (path token : CString)
  | rmWatch (token : CString)
  | rm (xbt : Nat) (path : CString)
  | getPerms (xbt : Nat) (path : CString)
  | setPerms (xbt : Nat) (path : CString) (dom : BitVec 16) (perm : UInt8)
  | transactionStart
  | transactionEnd (t : Nat) (abort : Bool)

def Operation.run (answer : Answer) : Operation → XenbusM Unit
  | .ls xbt pre => discard (xenbusLs answer xbt pre)
  | .read xbt path => discard (xenbusRead answer xbt path)
  | .write xbt path value => discard (xenbusWrite answer xbt path value)
  | .watchPath xbt path token => discard (xenbusWatchPath answer xbt path token)
  | .rmWatch token => discard (xenbusRmWatch answer token)
  | .rm xbt path => discard (xenbusRm answer xbt path)
  | .getPerms xbt path => discard (xenbusGetPerms answer xbt path)
  | .setPerms xbt path dom perm => discard (xenbusSetPerms answer xbt path dom perm)
  | .transactionStart => discard (xenbusTransactionStart answer)
  | .transactionEnd t abort => discard (xenbusTransactionEnd answer t abort)

/-- At the start of an operation. -/
def XenbusCall.start (next : Nat) (watches : List (Nat × Watch)) : XenbusCall :=
  { next := next, watches := watches, sent := [], replies := [], freed := [] }

/-- Each reply that the operation received was freed once. -/
def XenbusCall.FreesReplies (call : XenbusCall) : Prop :=
  ∀ block ∈ call.replies, call.freed.count block = 1

instance (call : XenbusCall) : Decidable call.FreesReplies :=
  inferInstanceAs (Decidable (∀ block ∈ call.replies, call.freed.count block = 1))

/-- The operation frees on success what `errmsg` frees on an error. -/
def Operation.Complements (watches : List (Nat × Watch)) : Operation → Prop
  | .watchPath _ _ _ => False
  | .rmWatch token => findEntry watches token = none
  | _ => True

section Frees
variable {answer : Answer} {call : XenbusCall}

@[simp] theorem XenbusM.pure_apply {α : Type} (value : α) :
    (pure value : XenbusM α) call = .ok (value, call) := rfl

theorem XenbusM.bind_ok {α β : Type} {first : XenbusM α} {next : α → XenbusM β} {value : α}
    {between : XenbusCall} (run : first call = .ok (value, between)) :
    (first >>= next) call = next value between := by
  change (first call >>= fun result => next result.1 result.2) = _
  rw [run]
  rfl

theorem xmallocData_ok :
    xmallocData call = .ok (.data call.next, { call with next := call.next + 1 }) := rfl

theorem xfree_ok (block : Block) :
    xfree block call = .ok ((), { call with freed := call.freed ++ [block] }) := rfl

theorem getWatches_ok : getWatches call = .ok (call.watches, call) := rfl

theorem errmsg_error {rep : Reply} (error : rep.type = xsError) :
    errmsg rep call = .ok (some ⟨.data call.next, rep.payload ++ [0]⟩,
      { call with next := call.next + 1, freed := call.freed ++ [rep.block] }) := by
  unfold errmsg
  rw [if_neg (not_not_intro error)]
  rfl

theorem errmsg_success {rep : Reply} (success : rep.type ≠ xsError) :
    errmsg rep call = .ok (none, call) := by
  unfold errmsg
  rw [if_pos success]
  rfl

theorem xenbusMsgReply_ok (type trans : Nat) (req : List (List UInt8)) :
    xenbusMsgReply answer type trans req call =
      .ok (⟨.reply call.next, answer.type, answer.payload⟩, { call with
        next := call.next + 1
        watches := answer.watches
        sent := call.sent ++ [⟨type, trans, req⟩]
        replies := call.replies ++ [.reply call.next] }) := rfl

/-- From one state to the other one reply was received, and freed that often. -/
def Frees (times : Nat) (before after : XenbusCall) : Prop :=
  ∃ reply blocks, after.replies = before.replies ++ [reply] ∧
    after.freed = before.freed ++ blocks ∧ blocks.count reply = times

/-- The operation returns, and has freed its reply once. -/
def FreesOnce {α : Type} (call : XenbusCall) (result : Except Halt (α × XenbusCall)) : Prop :=
  ∃ value after, result = .ok (value, after) ∧ Frees 1 call after

/-- `errmsg` frees the reply of an error, so what follows it only has to free any other reply. -/
theorem checked_frees {α : Type} (type trans : Nat) (req : List (List UInt8))
    {rest : Reply → Option Text → XenbusM α}
    (failed : ∀ rep msg now, ∃ value, rest rep (some msg) now = .ok (value, now))
    (done : ∀ (rep : Reply) (now : XenbusCall), ∃ value next, rest rep none now =
      .ok (value, { now with next := next, freed := now.freed ++ [rep.block] })) :
    FreesOnce call ((do
      let rep ← xenbusMsgReply answer type trans req
      let msg ← errmsg rep
      rest rep msg : XenbusM α) call) := by
  rw [XenbusM.bind_ok (xenbusMsgReply_ok type trans req)]
  by_cases error : answer.type = xsError
  · rw [XenbusM.bind_ok (errmsg_error error)]
    obtain ⟨value, run⟩ := failed _ _ _
    exact ⟨value, _, run, .reply call.next, [.reply call.next], rfl, rfl, List.count_singleton_self⟩
  · rw [XenbusM.bind_ok (errmsg_success error)]
    obtain ⟨value, next, run⟩ := done _ _
    exact ⟨value, _, run, .reply call.next, [.reply call.next], rfl, rfl, List.count_singleton_self⟩

theorem doneRequest_frees (type trans : Nat) (req : List (List UInt8)) :
    FreesOnce call (doneRequest answer type trans req call) :=
  checked_frees type trans req (fun _ msg _ => ⟨some msg, rfl⟩) fun _ now => ⟨none, now.next, rfl⟩

theorem valueRequest_frees (type trans : Nat) (req : List (List UInt8)) :
    FreesOnce call (valueRequest answer type trans req call) :=
  checked_frees type trans req (fun _ msg _ => ⟨(some msg, none), rfl⟩) fun rep now =>
    ⟨(none, some ⟨.data now.next, rep.payload ++ [0]⟩), now.next + 1, rfl⟩

/-- The strings of a listing are copied into fresh blocks, and nothing is freed. -/
theorem copyStrings_ok (nrElems : Nat) (bytes : List UInt8) :
    ∃ elems, copyStrings nrElems bytes call =
      .ok (elems, { call with next := call.next + nrElems }) := by
  induction nrElems generalizing bytes call with
  | zero => exact ⟨[], rfl⟩
  | succ nrElems ih =>
    obtain ⟨elems, run⟩ := @ih { call with next := call.next + 1 }
      (bytes.drop ((cString bytes).length + 1))
    refine ⟨⟨.data call.next, bytes.take ((cString bytes).length + 1)⟩ :: elems, ?_⟩
    rw [copyStrings, XenbusM.bind_ok xmallocData_ok, XenbusM.bind_ok run, XenbusM.pure_apply]
    simp only [Nat.add_right_comm, Nat.add_assoc]

theorem xenbusLs_frees (xbt : Nat) (pre : CString) :
    FreesOnce call (xenbusLs answer xbt pre call) := by
  refine checked_frees xsDirectory xbt [segment pre] (fun _ _ _ => ⟨_, rfl⟩) fun rep now => ?_
  obtain ⟨elems, run⟩ := @copyStrings_ok { now with next := now.next + 1 } (rep.payload.count 0) rep.payload
  refine ⟨(none, some ⟨.data now.next, elems⟩), now.next + 1 + rep.payload.count 0, ?_⟩
  simp only
  rw [XenbusM.bind_ok xmallocData_ok, XenbusM.bind_ok run]
  rfl

theorem xenbusTransactionStart_frees : FreesOnce call (xenbusTransactionStart answer call) :=
  checked_frees xsTransactionStart 0 [[0]] (fun _ _ _ => ⟨_, rfl⟩) fun _ now => ⟨_, now.next, rfl⟩

theorem xenbusTransactionEnd_frees (t : Nat) (abort : Bool) :
    FreesOnce call (xenbusTransactionEnd answer t abort call) := by
  unfold xenbusTransactionEnd
  rw [XenbusM.bind_ok (xenbusMsgReply_ok xsTransactionEnd t _)]
  by_cases error : answer.type = xsError
  · rw [XenbusM.bind_ok (errmsg_error error)]
    simp only
    split
    · -- the text of the error is freed too, which is no reply
      exact ⟨_, _, rfl, .reply call.next, [.reply call.next, .data (call.next + 1)], rfl,
        List.append_assoc .., by simp⟩
    · exact ⟨_, _, rfl, .reply call.next, [.reply call.next], rfl, rfl, List.count_singleton_self⟩
  · rw [XenbusM.bind_ok (errmsg_success error)]
    exact ⟨_, _, rfl, .reply call.next, [.reply call.next], rfl, rfl, List.count_singleton_self⟩

/-- On an error `errmsg` has freed the reply and it is freed again; on success
nobody frees it. -/
theorem xenbusWatchPath_frees {xbt : Nat} {path token : CString} {value : Option Text}
    {after : XenbusCall} (run : xenbusWatchPath answer xbt path token call = .ok (value, after)) :
    Frees (if answer.type = xsError then 2 else 0) call after := by
  unfold xenbusWatchPath at run
  cases registered : registerWatch path token call with
  | error halt =>
    change (registerWatch path token call >>= fun result => _) = _ at run
    rw [registered] at run
    nomatch run
  | ok result =>
    obtain ⟨_, between⟩ := result
    have kept : between.replies = call.replies ∧ between.freed = call.freed := by
      unfold registerWatch at registered
      split at registered
      · nomatch registered
      · cases registered
        exact ⟨rfl, rfl⟩
    rw [XenbusM.bind_ok registered, XenbusM.bind_ok (xenbusMsgReply_ok xsWatch xbt _)] at run
    by_cases error : answer.type = xsError
    · rw [if_pos error]
      rw [XenbusM.bind_ok (errmsg_error error)] at run
      simp only at run
      rw [XenbusM.bind_ok (xfree_ok _), XenbusM.bind_ok getWatches_ok] at run
      simp only at run
      cases found : findEntry answer.watches token with
      | none =>
        rw [found] at run
        nomatch run
      | some entry =>
        rw [found] at run
        cases run
        refine ⟨.reply between.next, [.reply between.next, .reply between.next, .watch entry.1], ?_, ?_,
          by simp⟩
        · rw [kept.1]
        · simp [kept.2]
    · rw [if_neg error]
      rw [XenbusM.bind_ok (errmsg_success error)] at run
      cases run
      refine ⟨.reply between.next, [], by rw [kept.1], ?_, rfl⟩
      rw [List.append_nil]
      exact kept.2

theorem xenbusRmWatch_frees {token : CString} {entry : Nat × Watch}
    (found : findEntry call.watches token = some entry) :
    ∃ value after, xenbusRmWatch answer token call = .ok (value, after) ∧ Frees 0 call after := by
  unfold xenbusRmWatch
  rw [XenbusM.bind_ok getWatches_ok, found]
  exact ⟨_, _, rfl, .reply call.next, [.watch entry.1], rfl, rfl, by simp⟩

/-- Without a watch for the token there is no request. -/
theorem xenbusRmWatch_unknown {token : CString} (unknown : findEntry call.watches token = none) :
    xenbusRmWatch answer token call = .ok (1, call) := by
  unfold xenbusRmWatch
  rw [XenbusM.bind_ok getWatches_ok, unknown]
  rfl

end Frees

/-! ## Which operations free their reply once -/

section FreesOnce
variable {answer : Answer} {next : Nat} {watches : List (Nat × Watch)} {after : XenbusCall}

theorem discard_ok {α : Type} {operation : XenbusM α} {call : XenbusCall} {value : Unit}
    (run : discard operation call = .ok (value, after)) :
    ∃ result, operation call = .ok (result, after) := by
  change (operation call >>= fun result => _) = _ at run
  obtain ⟨result, ran, same⟩ := Halt.bind_eq_ok.mp run
  cases same
  exact ⟨result.1, ran⟩

theorem Frees.freesReplies_iff {times : Nat} (frees : Frees times (.start next watches) after) :
    after.FreesReplies ↔ times = 1 := by
  obtain ⟨reply, blocks, replies, freed, count⟩ := frees
  unfold XenbusCall.FreesReplies
  rw [replies, freed]
  simp [XenbusCall.start, count]

theorem FreesOnce.freesReplies {α : Type} {operation : XenbusM α} {value : Unit}
    (once : FreesOnce (.start next watches) (operation (.start next watches)))
    (run : discard operation (.start next watches) = .ok (value, after)) : after.FreesReplies := by
  obtain ⟨result, ran⟩ := discard_ok run
  obtain ⟨other, last, same, frees⟩ := once
  cases ran.symm.trans same
  exact frees.freesReplies_iff.mpr rfl

theorem operation_frees_iff (op : Operation) (value : Unit)
    (run : op.run answer (.start next watches) = .ok (value, after)) :
    after.FreesReplies ↔ op.Complements watches := by
  cases op with
  | ls xbt pre => exact iff_of_true ((xenbusLs_frees xbt pre).freesReplies run) trivial
  | read xbt path => exact iff_of_true ((valueRequest_frees _ _ _).freesReplies run) trivial
  | write xbt path value => exact iff_of_true ((doneRequest_frees _ _ _).freesReplies run) trivial
  | rm xbt path => exact iff_of_true ((doneRequest_frees _ _ _).freesReplies run) trivial
  | getPerms xbt path => exact iff_of_true ((valueRequest_frees _ _ _).freesReplies run) trivial
  | setPerms xbt path dom perm =>
    exact iff_of_true ((doneRequest_frees _ _ _).freesReplies run) trivial
  | transactionStart => exact iff_of_true (xenbusTransactionStart_frees.freesReplies run) trivial
  | transactionEnd t abort =>
    exact iff_of_true ((xenbusTransactionEnd_frees t abort).freesReplies run) trivial
  | watchPath xbt path token =>
    obtain ⟨result, ran⟩ := discard_ok run
    have frees := (xenbusWatchPath_frees ran).freesReplies_iff
    refine iff_of_false (fun once => ?_) id
    have times := frees.mp once
    split at times <;> nomatch times
  | rmWatch token =>
    obtain ⟨result, ran⟩ := discard_ok run
    cases known : findEntry watches token with
    | none =>
      have same : xenbusRmWatch answer token (.start next watches) = .ok (1, .start next watches) :=
        xenbusRmWatch_unknown known
      cases same.symm.trans ran
      exact iff_of_true nofun known
    | some entry =>
      obtain ⟨other, last, same, frees⟩ :=
        @xenbusRmWatch_frees answer (.start next watches) token entry known
      cases ran.symm.trans same
      refine iff_of_false (fun once => ?_) ?_
      · nomatch frees.freesReplies_iff.mp once
      · intro complements
        rw [Operation.Complements, known] at complements
        nomatch complements

end FreesOnce

/-- The reply "OK" to a write. -/
theorem operation_frees_iff_write :
    ∃ after, (Operation.write 0 [97] [98]).run ⟨xsWrite, [79, 75, 0], []⟩ (.start 0 []) =
        .ok ((), after) ∧ (after.FreesReplies ↔ (Operation.write 0 [97] [98]).Complements []) := by
  have returns : ∃ after, (Operation.write 0 [97] [98]).run ⟨xsWrite, [79, 75, 0], []⟩ (.start 0 []) =
      .ok ((), after) := ⟨_, rfl⟩
  obtain ⟨after, run⟩ := returns
  exact ⟨after, run, operation_frees_iff (.write 0 [97] [98]) () run⟩

/-- The daemon refuses a watch: its reply is freed twice. -/
theorem refused_watch_frees_twice :
    ∃ after, (Operation.watchPath 0 [97] [98]).run
        ⟨xsError, eagain ++ [0], [(0, ⟨[98], [97], 0, 0, fun _ => [], none⟩)]⟩ (.start 0 []) =
        .ok ((), after) ∧ ¬after.FreesReplies :=
  ⟨_, rfl, by decide⟩

end Stardust.Xenbus
