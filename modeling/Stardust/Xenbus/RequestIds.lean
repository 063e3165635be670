import Mathlib.Data.Finset.Card
import Mathlib.Data.Finset.Range
import Mathlib.Data.Finset.Filter
import Stardust.Sched.WaitEvent
import Stardust.Xenbus.Requests

/-! # The request ids under contention

Any number of threads call `allocate_xenbus_id` and `release_xenbus_id`.  A thread that
finds no id waits in `wait_event` on `req_wq`; the test there is made without `req_lock`.
`suspend` is 0: nothing in the source sets it. -/
set_option autoImplicit false
namespace Stardust.Xenbus

open Stardust.Lib Stardust.Sched

/-- Where a thread is with `allocate_xenbus_id` and `release_xenbus_id`. -/
inductive IdPhase
  | out
  /-- at the top of the loop of `allocate_xenbus_id` -/
  | calls
  /-- in `wait_event` -/
  | waits
  | holds (id : Nat)
  /-- in `release_xenbus_id`, before `wake_up(&req_wq)` -/
  | wakes
  deriving DecidableEq

structure IdRun where
  info : ReqInfo
  threads : Threads
  /-- the threads of the entries on `req_wq` -/
  waitQueue : List Thread
  phase : Thread → WaitPhase
  onCpu : Thread → Bool
  caller : Thread → IdPhase
  /-- the thread that holds `req_lock` for a `wake_up` -/
  lock : Option Thread

/-- What `wait_event` and `wake_up` work with. -/
def IdRun.wait (state : IdRun) : WaitRun where
  threads := state.threads
  waitQueue := state.waitQueue
  phase := state.phase
  onCpu := state.onCpu
  condition := decide (state.info.nrLiveReqs < nrReqs)
  wakers := if state.lock.isSome then 1 else 0

def IdRun.withWait (state : IdRun) (wait : WaitRun) : IdRun :=
  { state with
    threads := wait.threads, waitQueue := wait.waitQueue, phase := wait.phase, onCpu := wait.onCpu }

def IdRun.setCaller (state : IdRun) (t : Thread) (caller : IdPhase) : IdRun :=
  { state with caller := Function.update state.caller t caller }

inductive IdOp
  | call (t : Thread)
  /-- the section of `allocate_xenbus_id` that holds `req_lock` -/
  | allocate (t : Thread)
  /-- the section of `release_xenbus_id` that holds `req_lock`, up to the `wake_up` in it -/
  | release (t : Thread)
  | wakeUp (t : Thread)
  /-- the first test of `wait_event` -/
  | enter (t : Thread)
  /-- the end of `wait_event` -/
  | leave (t : Thread)
  /-- a step in `wait_event`, or of the scheduler -/
  | wait (op : WaitOp)
  deriving DecidableEq

/-- The steps that only `wait_event` and the scheduler know. -/
def ofWaiter : WaitOp → Bool
  | .park _ | .test _ | .wakeSelf _ | .schedule _ | .preempt _ | .run _ => true
  | _ => false

/-- The thread runs, and is at `caller` outside of `wait_event`. -/
def IdRun.At (state : IdRun) (t : Thread) (caller : IdPhase) : Prop :=
  state.onCpu t = true ∧ state.caller t = caller

instance (state : IdRun) (t : Thread) (caller : IdPhase) : Decidable (state.At t caller) :=
  inferInstanceAs (Decidable (_ ∧ _))

def idStep (state : IdRun) : IdOp → Option IdRun
  | .call t => if state.At t .out then some (state.setCaller t .calls) else none
  | .allocate t =>
    if state.At t .calls ∧ state.lock = none then
      if state.info.nrLiveReqs < nrReqs then
        (allocateXenbusId state.info).toOption.map fun (oProbe, info) =>
          { state.setCaller t (.holds oProbe) with info := info }
      else some (state.setCaller t .waits)
    else none
  | .release t =>
    match state.caller t with
    | .holds id =>
      if state.onCpu t = true ∧ state.lock = none then
        (releaseXenbusId state.info id).toOption.map fun info =>
          if info.nrLiveReqs = nrReqs - 1 ∨ info.nrLiveReqs = 0 then
            { state.setCaller t .wakes with info := info, lock := some t }
          else { state.setCaller t .out with info := info }
      else none
    | _ => none
  | .wakeUp t =>
    if state.At t .wakes then
      (waitStep state.wait .wakeUp).map fun wait =>
        { (state.withWait wait).setCaller t .out with lock := none }
    else none
  | .enter t =>
    if state.caller t = .waits then
      (waitStep state.wait (.enter t)).map fun wait =>
        if state.info.nrLiveReqs < nrReqs then (state.withWait wait).setCaller t .calls
        else state.withWait wait
    else none
  | .leave t =>
    (waitStep state.wait (.leave t)).map fun wait => (state.withWait wait).setCaller t .calls
  | .wait op => if ofWaiter op then (waitStep state.wait op).map state.withWait else none

abbrev IdStep (before : IdRun) (op : IdOp) (after : IdRun) : Prop := idStep before op = some after

/-- Nothing is in use, every thread can run and none is in a call. -/
structure FreshIds (state : IdRun) : Prop where
  inUse : ∀ id, state.info.inUse id = false
  live : state.info.nrLiveReqs = 0
  probe : state.info.probe = 0
  wait : FreshWait state.wait
  caller : ∀ t, state.caller t = .out
  lock : state.lock = none

def inUseIds (inUse : Nat → Bool) : Finset Nat := (Finset.range nrReqs).filter fun id => inUse id = true

/-- The books are right, and nobody sleeps beside a free id. -/
structure IdsAgree (state : IdRun) : Prop where
  count : state.info.nrLiveReqs = (inUseIds state.info.inUse).card
  held : ∀ t id, state.caller t = .holds id → id < nrReqs ∧ state.info.inUse id = true
  unique : ∀ t u id, state.caller t = .holds id → state.caller u = .holds id → t = u
  /-- the `BUG_ON` of the probe does not fire -/
  probes : state.info.nrLiveReqs < nrReqs → ∃ result, allocateXenbusId state.info = .ok result
  /-- a sleeper sees a free id only while a `wake_up` is to come -/
  awake : ∀ t, state.caller t = .waits → state.onCpu t = false → (state.threads.flags t).runnable = false →
    (∃ id < nrReqs, state.info.inUse id = false) → state.lock ≠ none

/-- No thread is preempted between `block` in `wait_event` and its next test when an id is
free and no `wake_up` is to come. -/
def IdsPreemptSafely (state : IdRun) : IdOp → Prop
  | .wait op => PreemptsSafely state.wait op
  | _ => True

instance (state : IdRun) (op : IdOp) : Decidable (IdsPreemptSafely state op) := by
  cases op <;> unfold IdsPreemptSafely <;> infer_instance

/-! ## The table -/

section Table
variable {inUse : Nat → Bool} {id probe : Nat}

theorem mem_inUseIds : id ∈ inUseIds inUse ↔ id < nrReqs ∧ inUse id = true := by
  simp [inUseIds]

theorem card_inUseIds_le (inUse : Nat → Bool) : (inUseIds inUse).card ≤ nrReqs := by
  have all := Finset.card_filter_le (Finset.range nrReqs) fun id => inUse id = true
  rwa [Finset.card_range] at all

theorem inUseIds_allocated (free : inUse id = false) (bound : id < nrReqs) :
    (inUseIds (Function.update inUse id true)).card = (inUseIds inUse).card + 1 := by
  have added : inUseIds (Function.update inUse id true) = insert id (inUseIds inUse) := by
    ext other
    rw [mem_inUseIds, Finset.mem_insert, mem_inUseIds, Function.update_apply]
    by_cases this : other = id
    · simp [this, bound]
    · simp [this]
  rw [added, Finset.card_insert_of_notMem]
  simp [mem_inUseIds, free]

theorem inUseIds_released (used : inUse id = true) (bound : id < nrReqs) :
    (inUseIds (Function.update inUse id false)).card = (inUseIds inUse).card - 1 := by
  have removed : inUseIds (Function.update inUse id false) = (inUseIds inUse).erase id := by
    ext other
    rw [mem_inUseIds, Finset.mem_erase, mem_inUseIds, Function.update_apply]
    by_cases this : other = id
    · simp [this]
    · simp [this]
  rw [removed, Finset.card_erase_of_mem (mem_inUseIds.mpr ⟨bound, used⟩)]

/-- A slot is free as long as fewer than `NR_REQS` are in use. -/
theorem exists_free_iff : (∃ id < nrReqs, inUse id = false) ↔ (inUseIds inUse).card < nrReqs := by
  constructor
  · rintro ⟨id, bound, free⟩
    have more := inUseIds_allocated free bound
    have most := card_inUseIds_le (Function.update inUse id true)
    omega
  · intro fewer
    by_contra all
    have whole : inUseIds inUse = Finset.range nrReqs := by
      ext id
      rw [mem_inUseIds, Finset.mem_range]
      constructor
      · exact And.left
      · intro bound
        refine ⟨bound, ?_⟩
        by_contra free
        exact all ⟨id, bound, Bool.eq_false_iff.mpr free⟩
    rw [whole, Finset.card_range] at fewer
    exact absurd fewer (Nat.lt_irrefl _)

/-- The probe has passed `k` slots, all in use, and finds a free one. -/
theorem probeFrom_finds {fuel k : Nat} (lap : k + fuel = nrReqs) (index : probe < nrReqs)
    (passed : ∀ j < k, inUse ((probe + j) % nrReqs) = true) (free : ∃ id < nrReqs, inUse id = false) :
    ∃ id < nrReqs, probeFrom inUse probe fuel ((probe + k) % nrReqs) = .ok id := by
  -- the free slot is a number of places ahead of `probe`, and that is not among those passed
  obtain ⟨slot, slotBound, slotFree⟩ := free
  have ahead : ∀ m, (∀ j < m, inUse ((probe + j) % nrReqs) = true) →
      m ≤ (slot + nrReqs - probe) % nrReqs := by
    intro m passed
    by_contra before
    have used := passed ((slot + nrReqs - probe) % nrReqs) (by omega)
    rw [Nat.add_mod_mod, show probe + (slot + nrReqs - probe) = slot + nrReqs by omega,
      Nat.add_mod_right, Nat.mod_eq_of_lt slotBound, slotFree] at used
    cases used
  have within : (slot + nrReqs - probe) % nrReqs < nrReqs := Nat.mod_lt _ (by decide)
  induction fuel generalizing k with
  | zero =>
    have whole := ahead k passed
    omega
  | succ fuel ih =>
    rw [probeFrom]
    by_cases here : inUse ((probe + k) % nrReqs) = false
    · rw [if_pos here]
      exact ⟨_, Nat.mod_lt _ (by decide), rfl⟩
    · have passedOn : ∀ j < k + 1, inUse ((probe + j) % nrReqs) = true := by
        intro j before
        by_cases last : j = k
        · rw [last]
          simpa using here
        · exact passed j (by omega)
      have further := ahead (k + 1) passedOn
      have notBack : ((probe + k) % nrReqs + 1) % nrReqs ≠ probe := by
        simp only [nrReqs] at *
        omega
      rw [if_neg here, if_neg notBack, Nat.mod_add_mod, Nat.add_assoc]
      exact ih (by omega) passedOn

theorem allocateXenbusId_finds {info : ReqInfo} (index : info.probe < nrReqs)
    (free : ∃ id < nrReqs, info.inUse id = false) :
    ∃ id < nrReqs, ∃ after, allocateXenbusId info = .ok (id, after) := by
  obtain ⟨id, bound, found⟩ := probeFrom_finds (Nat.zero_add nrReqs) index
    (fun j before => absurd before (Nat.not_lt_zero j)) free
  rw [Nat.add_zero, Nat.mod_eq_of_lt index] at found
  refine ⟨id, bound, ?_⟩
  rw [allocateXenbusId, found]
  exact ⟨_, rfl⟩

end Table

/-! ## The invariant -/

/-- Each id that is held is in use, and by one thread. -/
structure Holders (inUse : Nat → Bool) (caller : Thread → IdPhase) : Prop where
  held : ∀ t id, caller t = .holds id → id < nrReqs ∧ inUse id = true
  unique : ∀ t u id, caller t = .holds id → caller u = .holds id → t = u

structure IdsHold (state : IdRun) : Prop where
  count : state.info.nrLiveReqs = (inUseIds state.info.inUse).card
  holders : Holders state.info.inUse state.caller
  probe : state.info.probe < nrReqs
  awaited : Awaited state.wait
  inWait : ∀ t, state.phase t ≠ .out → state.caller t = .waits
  unlocked : ∀ t, state.lock = some t → state.caller t = .wakes

section Callers
variable {inUse : Nat → Bool} {caller : Thread → IdPhase} {t : Thread} {next : IdPhase} {id : Nat}

theorem Holders.moved (holders : Holders inUse caller) (none : ∀ id, next ≠ .holds id) :
    Holders inUse (Function.update caller t next) := by
  have old : ∀ u id, Function.update caller t next u = .holds id → caller u = .holds id := by
    intro u id now
    by_cases this : u = t
    · rw [this, Function.update_self] at now
      exact absurd now (none id)
    · rwa [Function.update_of_ne this] at now
  exact ⟨fun u id now => holders.held u id (old u id now),
    fun u v id first second => holders.unique u v id (old u id first) (old v id second)⟩

theorem Holders.allocated (holders : Holders inUse caller) (free : inUse id = false) (bound : id < nrReqs) :
    Holders (Function.update inUse id true) (Function.update caller t (.holds id)) := by
  have others : ∀ u other, Function.update caller t (.holds id) u = .holds other →
      u = t ∧ other = id ∨ u ≠ t ∧ other ≠ id ∧ caller u = .holds other := by
    intro u other now
    by_cases this : u = t
    · rw [this, Function.update_self] at now
      exact .inl ⟨this, (IdPhase.holds.inj now).symm⟩
    · rw [Function.update_of_ne this] at now
      refine .inr ⟨this, ?_, now⟩
      rintro rfl
      have used := (holders.held u other now).2
      rw [free] at used
      cases used
  constructor
  · intro u other now
    rcases others u other now with ⟨_, rfl⟩ | ⟨_, apart, before⟩
    · exact ⟨bound, Function.update_self ..⟩
    · rw [Function.update_of_ne apart]
      exact holders.held u other before
  · intro u v other first second
    rcases others u other first with ⟨rfl, here⟩ | ⟨_, apart, before⟩
    · rcases others v other second with ⟨rfl, _⟩ | ⟨_, apart, _⟩
      · rfl
      · exact absurd here apart
    · rcases others v other second with ⟨_, here⟩ | ⟨_, _, also⟩
      · exact absurd here apart
      · exact holders.unique u v other before also

theorem Holders.released (holders : Holders inUse caller) (held : caller t = .holds id)
    (none : ∀ id, next ≠ .holds id) :
    Holders (Function.update inUse id false) (Function.update caller t next) := by
  have rest := holders.moved (t := t) none
  refine ⟨?_, rest.unique⟩
  intro u other now
  have apart : other ≠ id := by
    rintro rfl
    by_cases this : u = t
    · rw [this, Function.update_self] at now
      exact none other now
    · rw [Function.update_of_ne this] at now
      exact this (holders.unique u t other now held)
  rw [Function.update_of_ne apart]
  exact rest.held u other now

end Callers

section Runs
variable {state after : IdRun} {t : Thread}

theorem IdsHold.start (fresh : FreshIds state) : IdsHold state := by
  obtain ⟨inUse, live, probe, wait, caller, lock⟩ := fresh
  refine ⟨?_, ⟨?_, ?_⟩, ?_, Awaited.start wait, ?_, ?_⟩
  · have none : inUseIds state.info.inUse = ∅ := by
      ext id
      simp [mem_inUseIds, inUse]
    rw [live, none, Finset.card_empty]
  · intro t id now
    rw [caller] at now
    cases now
  · intro t u id now
    rw [caller] at now
    cases now
  · rw [probe]
    decide
  · intro t away
    exact absurd (wait.phase t) away
  · intro t locked
    rw [lock] at locked
    cases locked

/-- The callers in `wait_event` stay there when another one moves on. -/
theorem IdsHold.inWait_setCaller (inv : IdsHold state) {next : IdPhase} (outside : state.phase t = .out) (u : Thread)
    (away : state.phase u ≠ .out) : (state.setCaller t next).caller u = .waits := by
  have this : u ≠ t := by
    rintro rfl
    exact away outside
  simp only [IdRun.setCaller, Function.update_of_ne this]
  exact inv.inWait u away

theorem IdsHold.unlocked_setCaller (inv : IdsHold state) {next : IdPhase} (unlocked : state.lock ≠ some t)
    (u : Thread) (locked : state.lock = some u) : (state.setCaller t next).caller u = .wakes := by
  have this : u ≠ t := by
    rintro rfl
    exact unlocked locked
  simp only [IdRun.setCaller, Function.update_of_ne this]
  exact inv.unlocked u locked

/-- A caller that wakes no other has not the lock. -/
theorem IdsHold.not_locked (inv : IdsHold state) (elsewhere : state.caller t ≠ .wakes) : state.lock ≠ some t :=
  fun locked => elsewhere (inv.unlocked t locked)

/-- A call that moves on with the table and the queue as they are. -/
theorem IdsHold.moved (inv : IdsHold state) {next : IdPhase} (none : ∀ id, next ≠ .holds id)
    (outside : state.phase t = .out) (unlocked : state.lock ≠ some t) : IdsHold (state.setCaller t next) := by
  exact ⟨inv.count, inv.holders.moved none, inv.probe, inv.awaited, inv.inWait_setCaller outside,
    inv.unlocked_setCaller unlocked⟩

/-- A thread that is in no `wait_event`. -/
theorem IdsHold.outside (inv : IdsHold state) (elsewhere : state.caller t ≠ .waits) : state.phase t = .out := by
  by_contra away
  exact elsewhere (inv.inWait t away)

/-- The condition of `wait_event` can only become false here. -/
theorem awaited_lessOften {wait : WaitRun} (inv : Awaited wait) {condition : Bool} {wakers : Nat}
    (less : condition = true → wait.condition = true ∧ wait.wakers ≤ wakers) :
    Awaited { wait with condition := condition, wakers := wakers } := by
  refine ⟨inv.free, inv.queued, inv.running, ?_⟩
  intro u stopped
  rcases inv.wakeable u stopped with here | later
  · exact .inl here
  · refine .inr fun holds => ?_
    obtain ⟨before, more⟩ := less holds
    exact Nat.lt_of_lt_of_le (later before) more

theorem IdsHold.allocate (inv : IdsHold state) (here : state.caller t = .calls)
    (room : state.info.nrLiveReqs < nrReqs) {oProbe : Nat} {info : ReqInfo}
    (run : allocateXenbusId state.info = .ok (oProbe, info)) :
    IdsHold { state.setCaller t (.holds oProbe) with info := info } := by
  obtain ⟨id, bound, found⟩ := allocateXenbusId_finds inv.probe
    (exists_free_iff.mpr (by rw [← inv.count]; exact room))
  obtain ⟨_, found⟩ := found
  cases Except.ok.inj (found.symm.trans run)
  obtain ⟨free, rfl⟩ := allocateXenbusId_ok run
  have outside := inv.outside (t := t) (by rw [here]; nofun)
  refine ⟨?_, inv.holders.allocated free bound, Nat.mod_lt _ (by decide), ?_, inv.inWait_setCaller outside,
    inv.unlocked_setCaller (inv.not_locked (by rw [here]; nofun))⟩
  · exact (congrArg (· + 1) inv.count).trans (inUseIds_allocated free bound).symm
  · refine awaited_lessOften inv.awaited fun holds => ⟨decide_eq_true room, Nat.le_refl _⟩

/-- The table after a release; `condition` is what `wait_event` tests then. -/
theorem IdsHold.release (inv : IdsHold state) {id : Nat} {next : IdPhase} (lock : Option Thread)
    {info : ReqInfo} (here : state.caller t = .holds id) (none : ∀ id, next ≠ .holds id)
    (run : releaseXenbusId state.info id = .ok info) (free : state.lock = Option.none)
    (locked : ∀ u, lock = some u → u = t ∧ next = .wakes)
    (wakes : info.nrLiveReqs < nrReqs → state.info.nrLiveReqs < nrReqs ∨ lock.isSome = true) :
    IdsHold { state.setCaller t next with info := info, lock := lock } := by
  obtain ⟨bound, used⟩ := inv.holders.held t id here
  cases releaseXenbusId_ok run
  have outside := inv.outside (t := t) (by rw [here]; nofun)
  refine ⟨?_, inv.holders.released here none, inv.probe, ?_, inv.inWait_setCaller outside, ?_⟩
  · exact (congrArg (· - 1) inv.count).trans (inUseIds_released used bound).symm
  · by_cases waker : lock.isSome = true
    · refine ⟨inv.awaited.free, inv.awaited.queued, inv.awaited.running, fun u _ => .inr fun _ => ?_⟩
      simp [IdRun.wait, waker]
    · refine awaited_lessOften inv.awaited fun holds => ⟨?_, ?_⟩
      · exact decide_eq_true ((wakes (of_decide_eq_true holds)).resolve_right waker)
      · simp [IdRun.wait, free]
  · intro u now
    obtain ⟨rfl, rfl⟩ := locked u now
    exact Function.update_self ..

/-- What a step in `wait_event` leaves of the rest. -/
theorem waitStep_waiter {wait next : WaitRun} {op : WaitOp} (waiter : ofWaiter op = true)
    (move : waitStep wait op = some next) :
    next.condition = wait.condition ∧ next.wakers = wait.wakers ∧
      ∀ u, next.phase u ≠ .out → wait.phase u ≠ .out := by
  have moved : ∀ {t u : Thread} {phase old : WaitPhase}, wait.phase t = old → old ≠ .out →
      Function.update wait.phase t phase u ≠ .out → wait.phase u ≠ .out := by
    intro t u phase old was away now
    by_cases this : u = t
    · rw [this, was]
      exact away
    · rwa [Function.update_of_ne this] at now
  cases op with
  | park t =>
    obtain ⟨⟨_, phase⟩, move⟩ := Option.ite_none_right_eq_some.mp move
    obtain ⟨threads, _, rfl⟩ := Halt.map_toOption_eq_some.mp move
    exact ⟨rfl, rfl, fun u => moved phase nofun⟩
  | test t =>
    obtain ⟨⟨_, phase⟩, move⟩ := Option.ite_none_right_eq_some.mp move
    cases Option.some.inj move
    exact ⟨rfl, rfl, fun u => moved phase nofun⟩
  | wakeSelf t =>
    obtain ⟨⟨_, phase⟩, move⟩ := Option.ite_none_right_eq_some.mp move
    obtain ⟨threads, _, rfl⟩ := Halt.map_toOption_eq_some.mp move
    exact ⟨rfl, rfl, fun u => moved phase nofun⟩
  | schedule t =>
    obtain ⟨⟨_, phase⟩, move⟩ := Option.ite_none_right_eq_some.mp move
    cases Option.some.inj move
    exact ⟨rfl, rfl, fun u => moved phase nofun⟩
  | preempt t =>
    obtain ⟨_, move⟩ := Option.ite_none_right_eq_some.mp move
    cases Option.some.inj move
    exact ⟨rfl, rfl, fun u => id⟩
  | run t =>
    obtain ⟨_, move⟩ := Option.ite_none_right_eq_some.mp move
    cases Option.some.inj move
    exact ⟨rfl, rfl, fun u => id⟩
  | _ => cases waiter

/-- A step of `wait_event` or of the scheduler. -/
theorem IdsHold.waitStep (inv : IdsHold state) {op : WaitOp} {next : WaitRun}
    (safe : PreemptsSafely state.wait op) (move : Sched.waitStep state.wait op = some next)
    (condition : next.condition = state.wait.condition) (wakers : next.wakers = state.wait.wakers)
    (inWait : ∀ u, next.phase u ≠ .out → state.caller u = .waits) : IdsHold (state.withWait next) := by
  refine ⟨inv.count, inv.holders, inv.probe, ?_, inWait, inv.unlocked⟩
  have same : (state.withWait next).wait = next := by
    cases next
    cases condition
    cases wakers
    rfl
  rw [same]
  exact inv.awaited.step safe move

theorem IdsHold.enter (inv : IdsHold state) (here : state.caller t = .waits) {next : WaitRun}
    (move : Sched.waitStep state.wait (.enter t) = some next) :
    IdsHold (if state.info.nrLiveReqs < nrReqs then (state.withWait next).setCaller t .calls
      else state.withWait next) := by
  obtain ⟨⟨onCpu, phase⟩, tested⟩ := Option.ite_none_right_eq_some.mp move
  have unlocked := inv.not_locked (t := t) (by rw [here]; nofun)
  by_cases room : state.info.nrLiveReqs < nrReqs
  · have same : next = state.wait := by
      simpa [IdRun.wait, room] using tested.symm
    rw [if_pos room, same]
    exact inv.moved nofun phase unlocked
  · rw [if_neg room]
    have looping : next = state.wait.goTo t .looping := by
      simpa [IdRun.wait, room] using tested.symm
    subst looping
    have safe : PreemptsSafely state.wait (.enter t) := trivial
    refine inv.waitStep safe move rfl rfl ?_
    intro u away
    by_cases this : u = t
    · rw [this]
      exact here
    · apply inv.inWait u
      simpa [WaitRun.goTo, this, IdRun.wait] using away

theorem IdsHold.leave (inv : IdsHold state) {next : WaitRun}
    (move : Sched.waitStep state.wait (.leave t) = some next) :
    IdsHold ((state.withWait next).setCaller t .calls) := by
  obtain ⟨⟨onCpu, phase⟩, left⟩ := Option.ite_none_right_eq_some.mp move
  have waits : state.caller t = .waits := by
    apply inv.inWait t
    intro out
    cases phase.symm.trans out
  cases Option.some.inj left
  have safe : PreemptsSafely state.wait (.leave t) := trivial
  have kept := inv.waitStep safe move rfl rfl (fun u away => by
    by_cases this : u = t
    · rw [this]
      exact waits
    · apply inv.inWait u
      simpa [WaitRun.goTo, this, IdRun.wait] using away)
  exact kept.moved (by simp) (by simp [IdRun.withWait, WaitRun.goTo]) (inv.not_locked (by simp [waits]))

theorem IdsHold.wakeUp (inv : IdsHold state) (here : state.caller t = .wakes) {next : WaitRun}
    (move : Sched.waitStep state.wait .wakeUp = some next) :
    IdsHold { (state.withWait next).setCaller t .out with lock := none } := by
  have outside := inv.outside (t := t) (by rw [here]; nofun)
  have safe : PreemptsSafely state.wait .wakeUp := trivial
  have delivered := inv.awaited.step safe move
  obtain ⟨_, woken⟩ := Option.ite_none_right_eq_some.mp move
  obtain ⟨threads, _, rfl⟩ := Halt.map_toOption_eq_some.mp woken
  refine ⟨inv.count, inv.holders.moved nofun, inv.probe, ?_, inv.inWait_setCaller outside, nofun⟩
  refine awaited_lessOften delivered fun holds => ⟨holds, ?_⟩
  simp only [IdRun.wait]
  split
  · exact Nat.le_refl _
  · exact Nat.zero_le _

theorem IdsHold.step (inv : IdsHold state) {op : IdOp} (safe : IdsPreemptSafely state op)
    (move : idStep state op = some after) : IdsHold after := by
  cases op with
  | call t =>
    obtain ⟨⟨_, here⟩, move⟩ := Option.ite_none_right_eq_some.mp move
    cases Option.some.inj move
    exact inv.moved nofun (inv.outside (by rw [here]; nofun)) (inv.not_locked (by rw [here]; nofun))
  | allocate t =>
    obtain ⟨⟨⟨_, here⟩, free⟩, move⟩ := Option.ite_none_right_eq_some.mp move
    by_cases room : state.info.nrLiveReqs < nrReqs
    · rw [if_pos room] at move
      obtain ⟨⟨oProbe, info⟩, run, rfl⟩ := Halt.map_toOption_eq_some.mp move
      exact inv.allocate here room run
    · rw [if_neg room] at move
      cases Option.some.inj move
      exact inv.moved nofun (inv.outside (by rw [here]; nofun)) (by rw [free]; nofun)
  | release t =>
    simp only [idStep] at move
    split at move
    · rename_i id here
      obtain ⟨⟨_, free⟩, move⟩ := Option.ite_none_right_eq_some.mp move
      obtain ⟨info, run, rfl⟩ := Halt.map_toOption_eq_some.mp move
      split
      · refine inv.release (some t) here nofun run free ?_ (fun _ => .inr rfl)
        intro u now
        exact ⟨(Option.some.inj now).symm, rfl⟩
      · rename_i quiet
        have most := card_inUseIds_le state.info.inUse
        rw [← inv.count] at most
        refine inv.release state.lock here nofun run free ?_ ?_
        · intro u now
          rw [free] at now
          cases now
        · intro _
          left
          cases releaseXenbusId_ok run
          dsimp only at quiet
          omega
    · contradiction
  | wakeUp t =>
    obtain ⟨⟨_, here⟩, move⟩ := Option.ite_none_right_eq_some.mp move
    obtain ⟨next, woken, rfl⟩ := Option.map_eq_some_iff.mp move
    exact inv.wakeUp here woken
  | enter t =>
    obtain ⟨here, move⟩ := Option.ite_none_right_eq_some.mp move
    obtain ⟨next, tested, rfl⟩ := Option.map_eq_some_iff.mp move
    exact inv.enter here tested
  | leave t =>
    obtain ⟨next, left, rfl⟩ := Option.map_eq_some_iff.mp move
    exact inv.leave left
  | wait op =>
    obtain ⟨waiter, move⟩ := Option.ite_none_right_eq_some.mp move
    obtain ⟨next, moved, rfl⟩ := Option.map_eq_some_iff.mp move
    obtain ⟨condition, wakers, phases⟩ := waitStep_waiter waiter moved
    exact inv.waitStep safe moved condition wakers fun u away => inv.inWait u (phases u away)

theorem IdsHold.agree (inv : IdsHold state) : IdsAgree state := by
  refine ⟨inv.count, inv.holders.held, inv.holders.unique, ?_, ?_⟩
  · intro room
    obtain ⟨id, _, after, found⟩ := allocateXenbusId_finds inv.probe
      (exists_free_iff.mpr (by rw [← inv.count]; exact room))
    exact ⟨(id, after), found⟩
  · intro t _ off stopped free unlocked
    have room := exists_free_iff.mp free
    rw [← inv.count] at room
    have woken := inv.awaited.noLostWakeUp t off stopped (decide_eq_true room)
    simp [IdRun.wait, unlocked] at woken

/-- In every run whose preemptions are safe the ids agree; a next step keeps that exactly
when it is no unsafe preemption. -/
theorem request_ids_agree (reached : Reach FreshIds IdStep IdsPreemptSafely state) :
    IdsAgree state ∧ ∀ op after, IdStep state op after → (IdsAgree after ↔ IdsPreemptSafely state op) := by
  have inv : IdsHold state := by
    apply reached.invariant IdsHold
    · exact fun _ fresh => IdsHold.start fresh
    · intro before op after inv safe move
      exact inv.step safe move
  refine ⟨inv.agree, fun op after move => ⟨fun agree => ?_, fun safe => (inv.step safe move).agree⟩⟩
  cases op with
  | wait op =>
    cases op with
    | preempt t =>
      simp only [IdStep, idStep] at move
      obtain ⟨_, move⟩ := Option.ite_none_right_eq_some.mp move
      obtain ⟨next, moved, rfl⟩ := Option.map_eq_some_iff.mp move
      obtain ⟨_, moved⟩ := Option.ite_none_right_eq_some.mp moved
      cases Option.some.inj moved
      intro blocked stopped holds
      have waits : state.caller t = .waits := by
        apply inv.inWait t
        rcases blocked with parked | satisfied
        · exact fun out => by cases parked.symm.trans out
        · exact fun out => by cases satisfied.symm.trans out
      have free := exists_free_iff.mpr (by rw [← inv.count]; exact of_decide_eq_true holds)
      have locked : state.lock ≠ none :=
        agree.awake t waits (by simp [IdRun.withWait, WaitRun.setCpu]) stopped free
      simp [IdRun.wait, Option.isSome_iff_ne_none.mpr locked]
    | _ => trivial
  | _ => trivial

end Runs

/-! ## Two runs -/

def idsFree : IdRun where
  info := ⟨fun _ => false, fun _ => [], fun _ => none, 0, 0⟩
  threads :=
    { flags := fun _ => ⟨true, false, false, false, false, false, false⟩
      cpu := fun _ => none
      links := ⟨id, id⟩ }
  waitQueue := []
  phase _ := .out
  onCpu _ := true
  caller _ := .out
  lock := none

theorem idsFree_fresh : FreshIds idsFree :=
  ⟨fun _ => rfl, rfl, rfl, ⟨fun _ => ⟨rfl, rfl, rfl⟩, rfl, fun _ => rfl, rfl⟩, fun _ => rfl, rfl⟩

/-- 32 threads take all ids, and another one finds none. -/
def fullScript : List IdOp :=
  (List.range 33).flatMap (fun n => [.call (.thread n), .allocate (.thread n)]) ++ [.enter (.thread 32)]

/-- The waiter is preempted before an id is released, and gets it. -/
theorem request_ids_agree_contended :
    ∃ state, Reach FreshIds IdStep IdsPreemptSafely state ∧ IdsAgree state ∧
      state.caller (.thread 32) = .holds 0 := by
  have run : (runLabels idStep IdsPreemptSafely (fullScript ++
      [.wait (.park (.thread 32)), .wait (.preempt (.thread 32)), .release (.thread 0), .wakeUp (.thread 0),
        .wait (.run (.thread 32)), .wait (.test (.thread 32)), .wait (.wakeSelf (.thread 32)),
        .leave (.thread 32), .allocate (.thread 32)]) idsFree).any
      (fun state => decide (state.caller (.thread 32) = .holds 0)) = true := by
    decide +kernel
  obtain ⟨state, reached, holds⟩ := Reach.of_run_ends idsFree_fresh run
  exact ⟨state, reached, (request_ids_agree reached).1, holds⟩

/-- An id is released between the waiter's first test and its `block`, after which it is
preempted. -/
theorem preempted_caller_sleeps_beside_free_id :
    ∃ state, Reach FreshIds IdStep Always state ∧ ¬IdsAgree state := by
  have run : (runLabels idStep Always (fullScript ++
      [.release (.thread 0), .wakeUp (.thread 0), .wait (.park (.thread 32)),
        .wait (.preempt (.thread 32))]) idsFree).any
      (fun state => decide (state.caller (.thread 32) = .waits ∧ state.onCpu (.thread 32) = false ∧
        (state.threads.flags (.thread 32)).runnable = false ∧ state.info.inUse 0 = false ∧
        state.lock = none)) = true := by
    decide +kernel
  obtain ⟨state, reached, waits, off, stopped, free, unlocked⟩ := Reach.of_run_ends idsFree_fresh run
  exact ⟨state, reached, fun agree => agree.awake _ waits off stopped ⟨0, by decide, free⟩ unlocked⟩

end Stardust.Xenbus
