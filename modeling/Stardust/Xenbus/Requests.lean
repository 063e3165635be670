import Mathlib.Data.List.Perm.Basic
import Mathlib.Logic.Function.Basic
import Stardust.Lib.Reach
import Stardust.Xenbus.Ring

/-! # Requests and replies

Any number of calls of `xenbus_msg_reply` share the 32 request ids.  A call puts
itself on the wait queue of its id, sends its request, gives up the processor
once, and takes what the reply slot of the id holds when it runs again. -/
set_option autoImplicit false
namespace Stardust.Xenbus

open Stardust.Lib

/-- A request or a reply.  `call` is a ghost: the call that the request is from. -/
structure ReqMessage where
  reqId : Nat
  call : Nat
  deriving DecidableEq

/-- `req_info`, with the counters of `allocate_xenbus_id`. -/
structure ReqInfo where
  inUse : Nat → Bool
  /-- the calls on the wait queue of an id -/
  waitq : Nat → List Nat
  reply : Nat → Option ReqMessage
  nrLiveReqs : Nat
  probe : Nat

/-- The loop of `allocate_xenbus_id` over the table. -/
def probeFrom (inUse : Nat → Bool) (probe : Nat) : Nat → Nat → Except Halt Nat
  | 0, _ => .error .fuel
  | fuel + 1, oProbe =>
    if inUse oProbe = false then .ok oProbe
    else if (oProbe + 1) % nrReqs = probe then .error .bug
    else probeFrom inUse probe fuel ((oProbe + 1) % nrReqs)

/-- `allocate_xenbus_id`, once fewer than `NR_REQS` requests are live. -/
def allocateXenbusId (info : ReqInfo) : Except Halt (Nat × ReqInfo) :=
  (probeFrom info.inUse info.probe nrReqs info.probe).map fun oProbe =>
    (oProbe, { info with
      inUse := Function.update info.inUse oProbe true
      waitq := Function.update info.waitq oProbe []
      nrLiveReqs := info.nrLiveReqs + 1
      probe := (oProbe + 1) % nrReqs })

/-- `release_xenbus_id` -/
def releaseXenbusId (info : ReqInfo) (id : Nat) : Except Halt ReqInfo :=
  if info.inUse id = false then .error .bug
  else .ok { info with
    inUse := Function.update info.inUse id false
    nrLiveReqs := info.nrLiveReqs - 1 }

/-- `add_wait_queue` -/
def ReqInfo.addWaitQueue (info : ReqInfo) (id call : Nat) : ReqInfo :=
  { info with waitq := Function.update info.waitq id (info.waitq id ++ [call]) }

/-- What `xenbus_thread_func` does with a reply, up to the wake-up. -/
def storeReply (info : ReqInfo) (msg : ReqMessage) : Except Halt ReqInfo :=
  if info.inUse msg.reqId = false then .error .bug
  else .ok { info with reply := Function.update info.reply msg.reqId (some msg) }

/-- `rep = req_info[id].reply; BUG_ON(rep->req_id != id)`.  `nullReqId` is what a
read through a null `rep` gives, if it does not fault. -/
def takeReply (nullReqId : Option Nat) (info : ReqInfo) (id : Nat) : Except Halt (Option ReqMessage) :=
  let rep := info.reply id
  match rep.map ReqMessage.reqId <|> nullReqId with
  | none => .error .fault
  | some reqId => if reqId = id then .ok rep else .error .bug

/-- Where a call of `xenbus_msg_reply` is. -/
inductive CallPhase
  | start
  | allocated (id : Nat)
  /-- after `add_waiter` -/
  | blocked (id : Nat)
  /-- after `xb_write`: in `schedule` -/
  | sent (id : Nat)
  | taken (id : Nat) (rep : Option ReqMessage)
  | returned (rep : Option ReqMessage)
  deriving DecidableEq

/-- The id that a call has in use. -/
def CallPhase.id? : CallPhase → Option Nat
  | .start => none
  | .allocated id => some id
  | .blocked id => some id
  | .sent id => some id
  | .taken id _ => some id
  | .returned _ => none

/-- The reply that a call has taken. -/
def CallPhase.rep? : CallPhase → Option (Option ReqMessage)
  | .taken _ rep => some rep
  | .returned rep => some rep
  | _ => none

def CallPhase.hasSent : CallPhase → Bool
  | .start => false
  | .allocated _ => false
  | .blocked _ => false
  | .sent _ => true
  | .taken _ _ => true
  | .returned _ => true

structure RequestRun where
  info : ReqInfo
  phase : Nat → CallPhase
  /-- the RUNNABLE and SUSPENDED flags of the calling thread -/
  runnable : Nat → Bool
  suspended : Nat → Bool
  /-- requests that the daemon has not answered -/
  requests : List ReqMessage
  /-- the response ring, oldest first -/
  answers : List ReqMessage

/-- The messages of a call that `xenbus_thread_func` has not taken yet. -/
def RequestRun.inFlight (state : RequestRun) : List ReqMessage := state.requests ++ state.answers

/-- The reply to a call's request is still to come. -/
def RequestRun.Outstanding (state : RequestRun) (call : Nat) : Prop :=
  call ∈ state.inFlight.map ReqMessage.call

instance (state : RequestRun) (call : Nat) : Decidable (state.Outstanding call) :=
  inferInstanceAs (Decidable (call ∈ state.inFlight.map ReqMessage.call))

inductive RequestOp
  | allocate (call : Nat)
  /-- `add_waiter`: `block` stops the system on a thread that is not RUNNABLE -/
  | block (call : Nat)
  /-- `xb_write`; `waits` when the ring was full and `wait_event` blocked in it -/
  | write (call : Nat) (waits : Bool)
  /-- the daemon answers one of the requests it has -/
  | answer (i : Nat)
  /-- `xenbus_thread_func` takes the oldest answer -/
  | deliver
  /-- `wake`, from anywhere -/
  | wake (call : Nat)
  | suspend (call : Nat)
  | resume (call : Nat)
  /-- `schedule` has returned: take the reply -/
  | take (call : Nat)
  | release (call : Nat)
  deriving DecidableEq

def RequestRun.moveTo (state : RequestRun) (call : Nat) (phase : CallPhase) : RequestRun :=
  { state with phase := Function.update state.phase call phase }

def RequestRun.setRunnable (state : RequestRun) (call : Nat) (value : Bool) : RequestRun :=
  { state with runnable := Function.update state.runnable call value }

/-- `wake_up` on a list of calls: `wake` leaves a suspended thread as it is. -/
def RequestRun.wakeUp (state : RequestRun) (calls : List Nat) : RequestRun :=
  { state with
    runnable := fun call => state.runnable call || (decide (call ∈ calls) && !state.suspended call) }

def requestStep (nullReqId : Option Nat) (state : RequestRun) : RequestOp → Option RequestRun
  | .allocate call =>
    if state.phase call = .start ∧ state.info.nrLiveReqs < nrReqs then
      (allocateXenbusId state.info).toOption.map fun result =>
        { state.moveTo call (.allocated result.1) with info := result.2 }
    else none
  | .block call =>
    match state.phase call with
    | .allocated id =>
      if state.runnable call then
        some { (state.moveTo call (.blocked id)).setRunnable call false with
          info := state.info.addWaitQueue id call }
      else none
    | _ => none
  | .write call waits =>
    match state.phase call with
    | .blocked id =>
      if waits = true ∧ state.runnable call = false then none
      else some { state.moveTo call (.sent id) with requests := state.requests ++ [⟨id, call⟩] }
    | _ => none
  | .answer i =>
    match state.requests[i]? with
    | some msg => some { state with
        requests := state.requests.eraseIdx i, answers := state.answers ++ [msg] }
    | none => none
  | .deliver =>
    match state.answers with
    | [] => none
    | msg :: rest => (storeReply state.info msg).toOption.map fun info =>
        { state.wakeUp (info.waitq msg.reqId) with info := info, answers := rest }
  | .wake call => some (state.wakeUp [call])
  | .suspend call =>
    if state.suspended call then none
    else some { state.setRunnable call false with
      suspended := Function.update state.suspended call true }
  | .resume call =>
    if state.suspended call then
      some { state.setRunnable call true with
        suspended := Function.update state.suspended call false }
    else none
  | .take call =>
    match state.phase call with
    | .sent id =>
      if state.runnable call then
        (takeReply nullReqId state.info id).toOption.map fun rep => state.moveTo call (.taken id rep)
      else none
    | _ => none
  | .release call =>
    match state.phase call with
    | .taken id rep => (releaseXenbusId state.info id).toOption.map fun info =>
        { state.moveTo call (.returned rep) with info := info }
    | _ => none

abbrev RequestStep (nullReqId : Option Nat) (before : RequestRun) (op : RequestOp)
    (after : RequestRun) : Prop := requestStep nullReqId before op = some after

/-- No id in use, no reply stored, no call in progress and nothing on the rings. -/
structure FreshRequests (state : RequestRun) : Prop where
  inUse : ∀ id, state.info.inUse id = false
  reply : ∀ id, state.info.reply id = none
  phase : ∀ call, state.phase call = .start
  requests : state.requests = []
  answers : state.answers = []

/-- A call runs on after `schedule` only when its reply is no longer to come. -/
def AfterReply (state : RequestRun) : RequestOp → Prop
  | .take call => ¬state.Outstanding call
  | _ => True

instance (state : RequestRun) (op : RequestOp) : Decidable (AfterReply state op) := by
  cases op <;> unfold AfterReply <;> infer_instance

section Runs
variable {nullReqId : Option Nat} {state after : RequestRun} {op : RequestOp}

/-! ## The code on the table -/

theorem probeFrom_ok {inUse : Nat → Bool} {probe fuel oProbe id : Nat}
    (run : probeFrom inUse probe fuel oProbe = .ok id) : inUse id = false := by
  induction fuel generalizing oProbe with
  | zero => nomatch run
  | succ fuel ih =>
    rw [probeFrom] at run
    by_cases free : inUse oProbe = false
    · rw [if_pos free] at run
      cases run
      exact free
    · rw [if_neg free] at run
      split at run
      · nomatch run
      · exact ih run

theorem allocateXenbusId_ok {info result : ReqInfo} {id : Nat}
    (run : allocateXenbusId info = .ok (id, result)) :
    info.inUse id = false ∧ result = { info with
      inUse := Function.update info.inUse id true
      waitq := Function.update info.waitq id []
      nrLiveReqs := info.nrLiveReqs + 1
      probe := (id + 1) % nrReqs } := by
  unfold allocateXenbusId at run
  cases found : probeFrom info.inUse info.probe nrReqs info.probe with
  | error halt =>
    rw [found] at run
    nomatch run
  | ok oProbe =>
    rw [found] at run
    cases run
    exact ⟨probeFrom_ok found, rfl⟩

theorem releaseXenbusId_ok {info result : ReqInfo} {id : Nat}
    (run : releaseXenbusId info id = .ok result) : result = { info with
      inUse := Function.update info.inUse id false, nrLiveReqs := info.nrLiveReqs - 1 } := by
  unfold releaseXenbusId at run
  split at run
  · nomatch run
  · cases run
    rfl

theorem storeReply_ok {info result : ReqInfo} {msg : ReqMessage}
    (run : storeReply info msg = .ok result) :
    result = { info with reply := Function.update info.reply msg.reqId (some msg) } := by
  unfold storeReply at run
  split at run
  · nomatch run
  · cases run
    rfl

theorem takeReply_some {info : ReqInfo} {id : Nat} {msg : ReqMessage}
    (stored : info.reply id = some msg) (matching : msg.reqId = id) :
    takeReply nullReqId info id = .ok (some msg) := by
  simp [takeReply, stored, matching]

theorem takeReply_ok {info : ReqInfo} {id : Nat} {rep : Option ReqMessage}
    (run : takeReply nullReqId info id = .ok rep) : rep = info.reply id := by
  unfold takeReply at run
  simp only at run
  split at run
  · nomatch run
  · split at run
    · cases run
      rfl
    · nomatch run

/-! ## One step -/

/-- What one step can do. -/
theorem requestStep_cases (move : requestStep nullReqId state op = some after) :
    (∃ call id info, op = .allocate call ∧ state.phase call = .start ∧
      allocateXenbusId state.info = .ok (id, info) ∧
      after = { state.moveTo call (.allocated id) with info := info }) ∨
    (∃ call id, op = .block call ∧ state.phase call = .allocated id ∧
      after = { (state.moveTo call (.blocked id)).setRunnable call false with
        info := state.info.addWaitQueue id call }) ∨
    (∃ call waits id, op = .write call waits ∧ state.phase call = .blocked id ∧
      after = { state.moveTo call (.sent id) with requests := state.requests ++ [⟨id, call⟩] }) ∨
    (∃ i msg, op = .answer i ∧ state.requests[i]? = some msg ∧
      after = { state with requests := state.requests.eraseIdx i, answers := state.answers ++ [msg] }) ∨
    (∃ msg rest info, op = .deliver ∧ state.answers = msg :: rest ∧
      storeReply state.info msg = .ok info ∧
      after = { state.wakeUp (info.waitq msg.reqId) with info := info, answers := rest }) ∨
    (∃ call, op = .wake call ∧ after = state.wakeUp [call]) ∨
    (∃ call, op = .suspend call ∧ after = { state.setRunnable call false with
      suspended := Function.update state.suspended call true }) ∨
    (∃ call, op = .resume call ∧ after = { state.setRunnable call true with
      suspended := Function.update state.suspended call false }) ∨
    (∃ call id rep, op = .take call ∧ state.phase call = .sent id ∧
      takeReply nullReqId state.info id = .ok rep ∧ after = state.moveTo call (.taken id rep)) ∨
    (∃ call id rep info, op = .release call ∧ state.phase call = .taken id rep ∧
      releaseXenbusId state.info id = .ok info ∧
      after = { state.moveTo call (.returned rep) with info := info }) := by
  cases op with
  | allocate call =>
    left
    obtain ⟨⟨phase, _⟩, move⟩ := Option.ite_none_right_eq_some.mp move
    obtain ⟨⟨id, info⟩, run, rfl⟩ := Halt.map_toOption_eq_some.mp move
    exact ⟨call, id, info, rfl, phase, run, rfl⟩
  | block call =>
    right; left
    simp only [requestStep] at move
    split at move
    · rename_i id phase
      obtain ⟨_, move⟩ := Option.ite_none_right_eq_some.mp move
      exact ⟨call, id, rfl, phase, (Option.some.inj move).symm⟩
    · nomatch move
  | write call waits =>
    right; right; left
    simp only [requestStep] at move
    split at move
    · rename_i id phase
      obtain ⟨_, move⟩ := Option.ite_none_left_eq_some.mp move
      exact ⟨call, waits, id, rfl, phase, (Option.some.inj move).symm⟩
    · nomatch move
  | answer i =>
    right; right; right; left
    simp only [requestStep] at move
    split at move
    · rename_i msg found
      exact ⟨i, msg, rfl, found, (Option.some.inj move).symm⟩
    · nomatch move
  | deliver =>
    right; right; right; right; left
    simp only [requestStep] at move
    split at move
    · nomatch move
    · rename_i msg rest ring
      obtain ⟨info, run, rfl⟩ := Halt.map_toOption_eq_some.mp move
      exact ⟨msg, rest, info, rfl, ring, run, rfl⟩
  | wake call =>
    right; right; right; right; right; left
    exact ⟨call, rfl, (Option.some.inj move).symm⟩
  | suspend call =>
    right; right; right; right; right; right; left
    obtain ⟨_, move⟩ := Option.ite_none_left_eq_some.mp move
    exact ⟨call, rfl, (Option.some.inj move).symm⟩
  | resume call =>
    right; right; right; right; right; right; right; left
    obtain ⟨_, move⟩ := Option.ite_none_right_eq_some.mp move
    exact ⟨call, rfl, (Option.some.inj move).symm⟩
  | take call =>
    right; right; right; right; right; right; right; right; left
    simp only [requestStep] at move
    split at move
    · rename_i id phase
      obtain ⟨_, move⟩ := Option.ite_none_right_eq_some.mp move
      obtain ⟨rep, run, rfl⟩ := Halt.map_toOption_eq_some.mp move
      exact ⟨call, id, rep, rfl, phase, run, rfl⟩
    · nomatch move
  | release call =>
    right; right; right; right; right; right; right; right; right
    simp only [requestStep] at move
    split at move
    · rename_i id rep phase
      obtain ⟨info, run, rfl⟩ := Halt.map_toOption_eq_some.mp move
      exact ⟨call, id, rep, info, rfl, phase, run, rfl⟩
    · nomatch move

/-! ## The invariant -/

/-- Each id in use by at most one call. -/
structure Owners (inUse : Nat → Bool) (phase : Nat → CallPhase) : Prop where
  held : ∀ call id, (phase call).id? = some id → inUse id = true
  unique : ∀ call other id, (phase call).id? = some id → (phase other).id? = some id → call = other

structure Matching (state : RequestRun) : Prop where
  owners : Owners state.info.inUse state.phase
  entries : ∀ msg ∈ state.inFlight, state.phase msg.call = .sent msg.reqId
  once : (state.inFlight.map ReqMessage.call).Nodup
  delivered : ∀ call id, state.phase call = .sent id → ¬state.Outstanding call →
    state.info.reply id = some ⟨id, call⟩ ∧
      (state.runnable call = true ∨ state.suspended call = true)
  queued : ∀ call id, state.phase call = .blocked id ∨ state.phase call = .sent id →
    call ∈ state.info.waitq id
  results : ∀ call rep, (state.phase call).rep? = some rep → ∃ id, rep = some ⟨id, call⟩
  /-- a stored reply is no longer in flight, and never will be again -/
  past : ∀ id msg, state.info.reply id = some msg →
    (state.phase msg.call).hasSent = true ∧ ¬state.Outstanding msg.call

theorem Owners.same {inUse : Nat → Bool} {phase : Nat → CallPhase} (owners : Owners inUse phase)
    {call : Nat} {next : CallPhase} (same : next.id? = (phase call).id?) :
    Owners inUse (Function.update phase call next) := by
  have ids : ∀ other, (Function.update phase call next other).id? = (phase other).id? := by
    intro other
    by_cases this : other = call
    · rw [this, Function.update_self, same]
    · rw [Function.update_of_ne this]
  constructor
  · intro other id holds
    exact owners.held other id (ids other ▸ holds)
  · intro other another id first second
    exact owners.unique other another id (ids other ▸ first) (ids another ▸ second)

theorem Owners.allocated {inUse : Nat → Bool} {phase : Nat → CallPhase} (owners : Owners inUse phase)
    {call id : Nat} (free : inUse id = false) :
    Owners (Function.update inUse id true) (Function.update phase call (.allocated id)) := by
  -- no other call has an id that is free
  have others : ∀ other, other ≠ call →
      (Function.update phase call (.allocated id) other).id? ≠ some id := by
    intro other different holds
    rw [Function.update_of_ne different] at holds
    have used := owners.held other id holds
    rw [free] at used
    nomatch used
  constructor
  · intro other used holds
    by_cases this : used = id
    · rw [this, Function.update_self]
    · rw [Function.update_of_ne this]
      by_cases same : other = call
      · rw [same, Function.update_self] at holds
        exact absurd (Option.some.inj holds).symm this
      · rw [Function.update_of_ne same] at holds
        exact owners.held other used holds
  · intro other another used first second
    by_cases this : used = id
    · rw [this] at first second
      have one : other = call := by
        by_contra different
        exact others other different first
      have two : another = call := by
        by_contra different
        exact others another different second
      rw [one, two]
    · have old : ∀ one, (Function.update phase call (.allocated id) one).id? = some used →
          (phase one).id? = some used := by
        intro one holds
        by_cases same : one = call
        · rw [same, Function.update_self] at holds
          exact absurd (Option.some.inj holds).symm this
        · rwa [Function.update_of_ne same] at holds
      exact owners.unique other another used (old other first) (old another second)

theorem Owners.released {inUse : Nat → Bool} {phase : Nat → CallPhase} (owners : Owners inUse phase)
    {call id : Nat} (holds : (phase call).id? = some id) (rep : Option ReqMessage) :
    Owners (Function.update inUse id false) (Function.update phase call (.returned rep)) := by
  have old : ∀ other used, (Function.update phase call (.returned rep) other).id? = some used →
      other ≠ call ∧ (phase other).id? = some used := by
    intro other used now
    by_cases same : other = call
    · rw [same, Function.update_self] at now
      nomatch now
    · rw [Function.update_of_ne same] at now
      exact ⟨same, now⟩
  constructor
  · intro other used now
    obtain ⟨different, before⟩ := old other used now
    have apart : used ≠ id := by
      intro same
      rw [same] at before
      exact different (owners.unique other call id before holds)
    rw [Function.update_of_ne apart]
    exact owners.held other used before
  · intro other another used first second
    exact owners.unique other another used (old other used first).2 (old another used second).2

theorem Matching.start (fresh : FreshRequests state) : Matching state := by
  obtain ⟨inUse, reply, phase, requests, answers⟩ := fresh
  have empty : state.inFlight = [] := by rw [RequestRun.inFlight, requests, answers, List.append_nil]
  refine ⟨⟨?_, ?_⟩, ?_, ?_, ?_, ?_, ?_, ?_⟩
  · intro call id holds
    rw [phase call] at holds
    nomatch holds
  · intro call other id holds
    rw [phase call] at holds
    nomatch holds
  · rw [empty]
    nofun
  · rw [empty]
    exact List.nodup_nil
  · intro call id now
    rw [phase call] at now
    nomatch now
  · intro call id now
    rw [phase call] at now
    rcases now with now | now <;> nomatch now
  · intro call rep now
    rw [phase call] at now
    nomatch now
  · intro id msg stored
    rw [reply id] at stored
    nomatch stored

/-- A phase after a move is the new one of the call that moved, or an old one. -/
theorem phase_moved {call other : Nat} {next phase : CallPhase}
    (now : Function.update state.phase call next other = phase) :
    (other = call ∧ next = phase) ∨ (other ≠ call ∧ state.phase other = phase) := by
  by_cases same : other = call
  · rw [same, Function.update_self] at now
    exact Or.inl ⟨same, now⟩
  · rw [Function.update_of_ne same] at now
    exact Or.inr ⟨same, now⟩

/-- A call that moves to a phase without a wait did not make another wait. -/
theorem waits_moved {call other used : Nat} {next : CallPhase}
    (quiet : next ≠ .blocked used ∧ next ≠ .sent used)
    (now : Function.update state.phase call next other = .blocked used ∨
      Function.update state.phase call next other = .sent used) :
    state.phase other = .blocked used ∨ state.phase other = .sent used := by
  rcases now with now | now
  · rcases phase_moved now with ⟨_, this⟩ | ⟨_, before⟩
    · exact absurd this quiet.1
    · exact Or.inl before
  · rcases phase_moved now with ⟨_, this⟩ | ⟨_, before⟩
    · exact absurd this quiet.2
    · exact Or.inr before

theorem Matching.delivered_moved (inv : Matching state) {call : Nat} {next : CallPhase}
    (quiet : ∀ id, next ≠ .sent id) :
    ∀ other used, Function.update state.phase call next other = .sent used → ¬state.Outstanding other →
      state.info.reply used = some ⟨used, other⟩ ∧
        (state.runnable other = true ∨ state.suspended other = true) := by
  intro other used now done
  rcases phase_moved now with ⟨_, this⟩ | ⟨_, before⟩
  · exact absurd this (quiet used)
  · exact inv.delivered other used before done

/-- A call that has not sent, or has taken its reply, has no message in flight. -/
theorem Matching.entries_moved (inv : Matching state) {call : Nat} (next : CallPhase)
    (idle : ¬state.Outstanding call) :
    ∀ msg ∈ state.inFlight, Function.update state.phase call next msg.call = .sent msg.reqId := by
  intro msg member
  have different : msg.call ≠ call := by
    intro same
    exact idle (same ▸ List.mem_map_of_mem member)
  rw [Function.update_of_ne different]
  exact inv.entries msg member

theorem Matching.not_outstanding (inv : Matching state) {call : Nat}
    (phase : ∀ id, state.phase call ≠ .sent id) : ¬state.Outstanding call := by
  intro outstanding
  obtain ⟨msg, member, rfl⟩ := List.mem_map.mp outstanding
  exact phase msg.reqId (inv.entries msg member)

theorem Matching.results_moved (inv : Matching state) {call : Nat} {next : CallPhase}
    (kept : next.rep? = none ∨ next.rep? = (state.phase call).rep?) :
    ∀ other rep, (Function.update state.phase call next other).rep? = some rep →
      ∃ id, rep = some ⟨id, other⟩ := by
  intro other rep now
  by_cases same : other = call
  · rw [same, Function.update_self] at now
    rcases kept with none | before
    · rw [none] at now
      nomatch now
    · rw [same]
      exact inv.results call rep (before ▸ now)
  · rw [Function.update_of_ne same] at now
    exact inv.results other rep now

theorem Matching.past_moved (inv : Matching state) {call : Nat} {next : CallPhase}
    (kept : (state.phase call).hasSent = true → next.hasSent = true) :
    ∀ id msg, state.info.reply id = some msg →
      (Function.update state.phase call next msg.call).hasSent = true ∧
        ¬state.Outstanding msg.call := by
  intro id msg stored
  obtain ⟨before, done⟩ := inv.past id msg stored
  refine ⟨?_, done⟩
  by_cases same : msg.call = call
  · rw [same, Function.update_self]
    exact kept (same ▸ before)
  · rwa [Function.update_of_ne same]

theorem Matching.allocate (inv : Matching state) {call id : Nat} {info : ReqInfo}
    (phase : state.phase call = .start) (run : allocateXenbusId state.info = .ok (id, info)) :
    Matching { state.moveTo call (.allocated id) with info := info } := by
  obtain ⟨free, rfl⟩ := allocateXenbusId_ok run
  have idle : ¬state.Outstanding call := inv.not_outstanding (by simp [phase])
  refine ⟨inv.owners.allocated free, inv.entries_moved _ idle, inv.once,
    inv.delivered_moved (by simp), ?_, inv.results_moved (Or.inl rfl),
    inv.past_moved (by simp [phase, CallPhase.hasSent])⟩
  intro other used now
  have before := waits_moved (by simp) now
  -- the wait queue that is emptied is that of an id nobody had
  have held : state.info.inUse used = true := by
    apply inv.owners.held other used
    rcases before with before | before <;> rw [before] <;> rfl
  have apart : used ≠ id := by
    intro same
    rw [same, free] at held
    nomatch held
  simp only [Function.update_of_ne apart]
  exact inv.queued other used before

theorem Matching.block (inv : Matching state) {call id : Nat} (phase : state.phase call = .allocated id) :
    Matching { (state.moveTo call (.blocked id)).setRunnable call false with
      info := state.info.addWaitQueue id call } := by
  have idle : ¬state.Outstanding call := inv.not_outstanding (by simp [phase])
  refine ⟨inv.owners.same (by rw [phase]; rfl), inv.entries_moved _ idle, inv.once, ?_, ?_,
    inv.results_moved (Or.inl rfl), inv.past_moved (by simp [phase, CallPhase.hasSent])⟩
  · intro other used now done
    rcases phase_moved now with ⟨_, this⟩ | ⟨different, before⟩
    · nomatch this
    · simpa [RequestRun.setRunnable, RequestRun.moveTo, ReqInfo.addWaitQueue, different]
        using inv.delivered other used before done
  · intro other used now
    have kept : other ∈ state.info.waitq used →
        other ∈ (state.info.addWaitQueue id call).waitq used := by
      intro member
      by_cases same : used = id
      · rw [same] at member ⊢
        simp [ReqInfo.addWaitQueue, member]
      · simpa [ReqInfo.addWaitQueue, same] using member
    rcases now with now | now
    · rcases phase_moved now with ⟨rfl, this⟩ | ⟨_, before⟩
      · cases this
        simp [ReqInfo.addWaitQueue]
      · exact kept (inv.queued other used (Or.inl before))
    · rcases phase_moved now with ⟨_, this⟩ | ⟨_, before⟩
      · nomatch this
      · exact kept (inv.queued other used (Or.inr before))

theorem Matching.write (inv : Matching state) {call id : Nat} (phase : state.phase call = .blocked id) :
    Matching { state.moveTo call (.sent id) with requests := state.requests ++ [⟨id, call⟩] } := by
  have idle : ¬state.Outstanding call := inv.not_outstanding (by simp [phase])
  have perm : (state.requests ++ [(⟨id, call⟩ : ReqMessage)] ++ state.answers).Perm
      (⟨id, call⟩ :: state.inFlight) := by
    rw [RequestRun.inFlight, List.append_assoc]
    exact List.perm_middle
  have still : ∀ other,
      other ∈ (state.requests ++ [(⟨id, call⟩ : ReqMessage)] ++ state.answers).map ReqMessage.call ↔
        other = call ∨ state.Outstanding other := by
    intro other
    rw [(perm.map ReqMessage.call).mem_iff]
    simp [RequestRun.Outstanding]
  refine ⟨inv.owners.same (by rw [phase]; rfl), ?_, ?_, ?_, ?_, inv.results_moved (Or.inl rfl), ?_⟩
  · intro msg member
    rcases List.mem_cons.mp (perm.mem_iff.mp member) with rfl | old
    · exact Function.update_self ..
    · exact inv.entries_moved _ idle msg old
  · exact (perm.map ReqMessage.call).nodup_iff.mpr (List.nodup_cons.mpr ⟨idle, inv.once⟩)
  · intro other used now done
    rcases phase_moved now with ⟨same, _⟩ | ⟨_, before⟩
    · exact absurd ((still other).mpr (Or.inl same)) done
    · exact inv.delivered other used before fun out => done ((still other).mpr (Or.inr out))
  · intro other used now
    rcases now with now | now
    · rcases phase_moved now with ⟨_, this⟩ | ⟨_, before⟩
      · nomatch this
      · exact inv.queued other used (Or.inl before)
    · rcases phase_moved now with ⟨rfl, this⟩ | ⟨_, before⟩
      · cases this
        exact inv.queued other id (Or.inl phase)
      · exact inv.queued other used (Or.inr before)
  · intro used msg stored
    obtain ⟨before, done⟩ := inv.past used msg stored
    have different : msg.call ≠ call := by
      intro same
      rw [same, phase] at before
      nomatch before
    refine ⟨by simp only [RequestRun.moveTo, Function.update_of_ne different, before], fun out => ?_⟩
    rcases (still msg.call).mp out with same | old
    · exact different same
    · exact done old

theorem Matching.answer (inv : Matching state) {i : Nat} {msg : ReqMessage}
    (found : state.requests[i]? = some msg) :
    Matching { state with requests := state.requests.eraseIdx i, answers := state.answers ++ [msg] } := by
  obtain ⟨index, item⟩ := List.getElem?_eq_some_iff.mp found
  have perm : (state.requests.eraseIdx i ++ (state.answers ++ [msg])).Perm state.inFlight := by
    have moved : (msg :: state.requests.eraseIdx i).Perm state.requests := by
      rw [← item]
      exact List.getElem_cons_eraseIdx_perm index
    rw [← List.append_assoc]
    have turned : (state.requests.eraseIdx i ++ state.answers ++ [msg]).Perm
        ([msg] ++ (state.requests.eraseIdx i ++ state.answers)) := List.perm_append_comm
    refine turned.trans ?_
    exact moved.append_right state.answers
  refine ⟨inv.owners, ?_, ?_, ?_, inv.queued, inv.results, ?_⟩
  · intro other member
    exact inv.entries other (perm.mem_iff.mp member)
  · exact (perm.map ReqMessage.call).nodup_iff.mpr inv.once
  · intro call id phase done
    exact inv.delivered call id phase fun out => done ((perm.map ReqMessage.call).mem_iff.mpr out)
  · intro id old stored
    obtain ⟨before, done⟩ := inv.past id old stored
    exact ⟨before, fun out => done ((perm.map ReqMessage.call).mem_iff.mp out)⟩

theorem Matching.deliver (inv : Matching state) {msg : ReqMessage} {rest : List ReqMessage} {info : ReqInfo}
    (ring : state.answers = msg :: rest) (run : storeReply state.info msg = .ok info) :
    Matching { state.wakeUp (info.waitq msg.reqId) with info := info, answers := rest } := by
  cases storeReply_ok run
  have perm : state.inFlight.Perm (msg :: (state.requests ++ rest)) := by
    rw [RequestRun.inFlight, ring]
    exact List.perm_middle
  have owner : state.phase msg.call = .sent msg.reqId :=
    inv.entries msg (perm.mem_iff.mpr List.mem_cons_self)
  have once := (perm.map ReqMessage.call).nodup_iff.mp inv.once
  rw [List.map_cons, List.nodup_cons] at once
  refine ⟨inv.owners, ?_, once.2, ?_, inv.queued, inv.results, ?_⟩
  · intro other member
    exact inv.entries other (perm.mem_iff.mpr (List.mem_cons_of_mem _ member))
  · intro call id phase done
    by_cases this : call = msg.call
    · -- its own reply: stored under its id, and it is on the wait queue
      rw [this] at phase ⊢
      cases owner.symm.trans phase
      refine ⟨Function.update_self .., ?_⟩
      have queued := inv.queued msg.call msg.reqId (Or.inr owner)
      simp only [RequestRun.wakeUp]
      cases state.suspended msg.call <;> simp [queued]
    · have before : ¬state.Outstanding call := by
        intro out
        rcases List.mem_cons.mp ((perm.map ReqMessage.call).mem_iff.mp out) with same | other
        · exact this same
        · exact done other
      obtain ⟨reply, awake⟩ := inv.delivered call id phase before
      have sent : state.phase call = .sent id := phase
      have apart : id ≠ msg.reqId := by
        intro same
        exact this (inv.owners.unique call msg.call id (by rw [sent]; rfl)
          (by rw [owner, same]; rfl))
      refine ⟨(Function.update_of_ne apart ..).trans reply, ?_⟩
      rcases awake with runs | rests
      · exact Or.inl (by simp [RequestRun.wakeUp, runs])
      · exact Or.inr rests
  · intro id old stored
    have kept : state.info.reply id = some old ∨ old = msg := by
      by_cases same : id = msg.reqId
      · rw [same] at stored
        simp only [Function.update_self] at stored
        exact Or.inr (Option.some.inj stored).symm
      · simp only [Function.update_of_ne same] at stored
        exact Or.inl stored
    rcases kept with before | rfl
    · obtain ⟨sent, done⟩ := inv.past id old before
      exact ⟨sent, fun out =>
        done ((perm.map ReqMessage.call).mem_iff.mpr (List.mem_cons_of_mem _ out))⟩
    · exact ⟨congrArg CallPhase.hasSent owner, once.1⟩

/-- A change of flags that leaves every delivered call RUNNABLE or SUSPENDED. -/
theorem Matching.flags (inv : Matching state) {runnable suspended : Nat → Bool}
    (awake : ∀ call, state.runnable call = true ∨ state.suspended call = true →
      runnable call = true ∨ suspended call = true) :
    Matching { state with runnable := runnable, suspended := suspended } := by
  refine ⟨inv.owners, inv.entries, inv.once, ?_, inv.queued, inv.results, inv.past⟩
  intro call id phase done
  obtain ⟨reply, woken⟩ := inv.delivered call id phase done
  exact ⟨reply, awake call woken⟩

theorem Matching.take (inv : Matching state) {call id : Nat} {rep : Option ReqMessage}
    (allowed : ¬state.Outstanding call) (phase : state.phase call = .sent id)
    (run : takeReply nullReqId state.info id = .ok rep) :
    Matching (state.moveTo call (.taken id rep)) := by
  obtain ⟨reply, _⟩ := inv.delivered call id phase allowed
  refine ⟨inv.owners.same (by rw [phase]; rfl), inv.entries_moved _ allowed, inv.once,
    inv.delivered_moved (by simp), fun other used now => inv.queued other used (waits_moved (by simp) now),
    ?_, inv.past_moved fun _ => rfl⟩
  intro other result now
  by_cases same : other = call
  · rw [same] at now ⊢
    simp only [RequestRun.moveTo, Function.update_self, CallPhase.rep?] at now
    cases now
    exact ⟨id, (takeReply_ok run).trans reply⟩
  · simp only [RequestRun.moveTo, Function.update_of_ne same] at now
    exact inv.results other result now

theorem Matching.release (inv : Matching state) {call id : Nat} {rep : Option ReqMessage}
    {info : ReqInfo} (phase : state.phase call = .taken id rep)
    (run : releaseXenbusId state.info id = .ok info) :
    Matching { state.moveTo call (.returned rep) with info := info } := by
  cases releaseXenbusId_ok run
  have idle : ¬state.Outstanding call := inv.not_outstanding (by simp [phase])
  exact ⟨inv.owners.released (by rw [phase]; rfl) rep, inv.entries_moved _ idle, inv.once,
    inv.delivered_moved (by simp), fun other used now => inv.queued other used (waits_moved (by simp) now),
    inv.results_moved (Or.inr (by rw [phase]; rfl)), inv.past_moved fun _ => rfl⟩

theorem Matching.step (inv : Matching state) (allowed : AfterReply state op)
    (move : RequestStep nullReqId state op after) : Matching after := by
  rcases requestStep_cases move with ⟨call, id, info, rfl, phase, run, rfl⟩ | ⟨call, id, rfl, phase, rfl⟩ |
    ⟨call, waits, id, rfl, phase, rfl⟩ | ⟨i, msg, rfl, found, rfl⟩ |
    ⟨msg, rest, info, rfl, ring, run, rfl⟩ | ⟨call, rfl, rfl⟩ | ⟨call, rfl, rfl⟩ | ⟨call, rfl, rfl⟩ |
    ⟨call, id, rep, rfl, phase, run, rfl⟩ | ⟨call, id, rep, info, rfl, phase, run, rfl⟩
  · exact inv.allocate phase run
  · exact inv.block phase
  · exact inv.write phase
  · exact inv.answer found
  · exact inv.deliver ring run
  · apply inv.flags
    intro other awake
    rcases awake with runs | rests
    · exact Or.inl (by rw [runs, Bool.true_or])
    · exact Or.inr rests
  · apply inv.flags
    intro other awake
    by_cases this : other = call
    · exact Or.inr (by rw [this, Function.update_self])
    · simpa [RequestRun.setRunnable, this] using awake
  · apply inv.flags
    intro other awake
    by_cases this : other = call
    · exact Or.inl (by simp [RequestRun.setRunnable, this])
    · simpa [RequestRun.setRunnable, this] using awake
  · exact inv.take allowed phase run
  · exact inv.release phase run

/-! ## Replies in any run -/

/-- Every call has the reply to its own request. -/
structure RepliesMatch (nullReqId : Option Nat) (state : RequestRun) : Prop where
  returned : ∀ call rep, state.phase call = .returned rep → ∃ id, rep = some ⟨id, call⟩
  /-- what a call would take now is its reply exactly when that has come -/
  takes : ∀ call id, state.phase call = .sent id →
    (takeReply nullReqId state.info id = .ok (some ⟨id, call⟩) ↔ ¬state.Outstanding call)
  /-- and then the call is not left asleep -/
  awake : ∀ call id, state.phase call = .sent id → ¬state.Outstanding call →
    state.runnable call = true ∨ state.suspended call = true

theorem replies_match (nullReqId : Option Nat)
    (reached : Reach FreshRequests (RequestStep nullReqId) AfterReply state) :
    RepliesMatch nullReqId state := by
  have inv : Matching state :=
    Reach.invariant Matching (fun _ fresh => Matching.start fresh)
      (fun _ _ _ inv allowed move => inv.step allowed move) reached
  refine ⟨?_, ?_, fun call id phase done => (inv.delivered call id phase done).2⟩
  · intro call rep phase
    exact inv.results call rep (by rw [phase]; rfl)
  · intro call id phase
    constructor
    · intro run
      exact (inv.past id _ (takeReply_ok run).symm).2
    · intro done
      exact takeReply_some (inv.delivered call id phase done).1 rfl

end Runs

/-! ## A spurious wake -/

def noRequests : RequestRun where
  info := { inUse := fun _ => false, waitq := fun _ => [], reply := fun _ => none,
            nrLiveReqs := 0, probe := 0 }
  phase _ := .start
  runnable _ := true
  suspended _ := false
  requests := []
  answers := []

theorem noRequests_fresh : FreshRequests noRequests := ⟨fun _ => rfl, fun _ => rfl, fun _ => rfl, rfl, rfl⟩

/-- Call 0 is woken too early but its reply is there when it runs; call 1 is
answered before it. -/
def twoCallsScript : List RequestOp :=
  [.allocate 0, .block 0, .write 0 false, .allocate 1, .block 1, .write 1 false, .suspend 0, .resume 0,
    .answer 1, .answer 0, .deliver, .deliver, .take 0, .release 0, .take 1]

theorem replies_match_two :
    ∃ state, runLabels (requestStep none) AfterReply twoCallsScript noRequests = some state ∧
      RepliesMatch none state := by
  have runs : (runLabels (requestStep none) AfterReply twoCallsScript noRequests).isSome := by
    decide +kernel
  obtain ⟨state, run⟩ := Option.isSome_iff_exists.mp runs
  exact ⟨state, run, replies_match none (Reach.of_runLabels (.start noRequests_fresh) run)⟩

/-- 32 calls in turn, which use every id once. -/
def lapScript : List RequestOp :=
  (List.range 32).flatMap fun call =>
    [.allocate call, .block call, .write call false, .answer 0, .deliver, .take call, .release call]

/-- Call 32 has id 0 again; a suspend and resume lets it run before its reply. -/
theorem resumed_call_takes_old_reply :
    ∃ state, Reach FreshRequests (RequestStep none) Always state ∧ ¬RepliesMatch none state := by
  have facts : (runLabels (requestStep none) Always (lapScript ++ [.allocate 32, .block 32,
      .write 32 false, .suspend 32, .resume 32, .take 32, .release 32]) noRequests).any fun state =>
      decide (state.phase 32 = .returned (some ⟨0, 0⟩)) := by
    decide +kernel
  obtain ⟨state, reached, checked⟩ := Reach.of_run_ends noRequests_fresh facts
  refine ⟨state, reached, fun safe => ?_⟩
  obtain ⟨id, same⟩ := safe.returned 32 _ (checked)
  nomatch Option.some.inj same

end Stardust.Xenbus
