import Stardust.Lib.Reach
import Stardust.Pte.PosixSemaphore
import Stardust.Pte.PthreadKill

/-! # Condition variables

Each call is one step: a call holds `mtxUnblockLock` while it works on the counters,
and a waiter that comes while it waits for `semBlockLock` could as well have come before. -/
set_option autoImplicit false
namespace Stardust.Pte

open Stardust.Lib

def erange : Int := 34
def eperm : Int := 1
def intMax : Int := 2 ^ 31 - 1

/-- The value of an `int` after an assignment from a `long`. -/
def toInt (x : Int) : Int := x.bmod (2 ^ 32)

/-- `pthread_cond_t_`.  A destroyed lock or semaphore is `none`; otherwise a lock is
taken or not, and a semaphore has its value. -/
structure CondVar where
  nWaitersBlocked : Int
  nWaitersGone : Int
  nWaitersToUnblock : Int
  semBlockQueue : Option Int
  semBlockLock : Option Int
  mtxUnblockLock : Option Bool
  deriving DecidableEq

/-- What `pthread_testcancel` reads of the calling thread. -/
structure Canceller where
  state : PThreadState
  disabled : Bool

/-- How a call is left; `blocked` waits for ever. -/
inductive Left
  | returned (result : Int)
  | cancelled
  | blocked
  deriving DecidableEq

/-! ## Locks and semaphores -/

/-- Without a thread structure there is nothing to cancel. -/
def testcancel (self : Option Canceller) : Bool :=
  match self with
  | none => false
  | some thread => decide (thread.state = .cancelPending) && !thread.disabled

inductive Pend
  | taken
  | failed (errno : Int)
  | cancelled
  | blocked

/-- `pthread_mutex_lock` on `mtxUnblockLock`, no cancellation point. -/
def mutexLock (mutex : Option Bool) : Pend :=
  match mutex with
  | none => .failed einval
  | some false => .taken
  | some true => .blocked

def CondVar.unlock (cv : CondVar) : Int × CondVar :=
  match cv.mtxUnblockLock with
  | none => (einval, cv)
  | some false => (eperm, cv)
  | some true => (0, { cv with mtxUnblockLock := some false })

/-- `sem_wait` on `semBlockLock`: a cancellation comes before anything else. -/
def semWait (sem : Option Int) (self : Option Canceller) : Pend :=
  if testcancel self then .cancelled
  else match sem with
    | none => .failed einval
    | some value => if 0 < value then .taken else .blocked

/-- `sem_post` and `sem_post_multiple`: the error, or 0, and the semaphore. -/
def semPost (sem : Option Int) (count : Int) : Int × Option Int :=
  match sem with
  | none => (einval, none)
  | some value =>
    if count ≤ 0 then (einval, some value)
    else if value ≤ semValueMax - count then (0, some (value + count))
    else (erange, some value)

/-! ## The calls -/

/-- The waiters that have gone are not blocked any more. -/
def CondVar.settle (cv : CondVar) : CondVar :=
  if cv.nWaitersGone ≠ 0 then
    { cv with nWaitersBlocked := cv.nWaitersBlocked - cv.nWaitersGone, nWaitersGone := 0 }
  else cv

/-- The end of `pte_cond_unblock`. -/
def CondVar.issue (cv : CondVar) (nSignalsToIssue : Int) : Left × CondVar :=
  let (result, cv) := cv.unlock
  if result = 0 then
    let (errno, sem) := semPost cv.semBlockQueue nSignalsToIssue
    (.returned errno, { cv with semBlockQueue := sem })
  else (.returned result, cv)

/-- `pte_cond_unblock` on a condition variable that has been initialised. -/
def pteCondUnblock (cv : CondVar) (unblockAll : Bool) (self : Option Canceller) : Left × CondVar :=
  match mutexLock cv.mtxUnblockLock with
  | .failed errno => (.returned errno, cv)
  | .cancelled => (.cancelled, cv)
  | .blocked => (.blocked, cv)
  | .taken =>
    let cv := { cv with mtxUnblockLock := some true }
    if cv.nWaitersToUnblock ≠ 0 then
      if cv.nWaitersBlocked = 0 then
        let (result, cv) := cv.unlock
        (.returned result, cv)
      else if unblockAll then
        let nSignalsToIssue := toInt cv.nWaitersBlocked
        { cv with
          nWaitersToUnblock := cv.nWaitersToUnblock + nSignalsToIssue
          nWaitersBlocked := 0 }.issue nSignalsToIssue
      else
        { cv with
          nWaitersToUnblock := cv.nWaitersToUnblock + 1
          nWaitersBlocked := cv.nWaitersBlocked - 1 }.issue 1
    else if cv.nWaitersGone < cv.nWaitersBlocked then
      match semWait cv.semBlockLock self with
      | .cancelled => (.cancelled, cv)
      | .blocked => (.blocked, cv)
      | .failed errno => (.returned errno, cv.unlock.2)
      | .taken =>
        let cv := { cv with semBlockLock := cv.semBlockLock.map (· - 1) }.settle
        if unblockAll then
          { cv with nWaitersToUnblock := cv.nWaitersBlocked, nWaitersBlocked := 0 }.issue
            (toInt cv.nWaitersBlocked)
        else
          { cv with nWaitersToUnblock := 1, nWaitersBlocked := cv.nWaitersBlocked - 1 }.issue 1
    else
      let (result, cv) := cv.unlock
      (.returned result, cv)

/-- `pthread_cond_t *`: null or to a null, static and not initialised yet, or initialised. -/
inductive Cond
  | null
  | initializer
  | created (cv : CondVar)
  deriving DecidableEq

def Cond.unblock (cond : Cond) (unblockAll : Bool) (self : Option Canceller) : Left × Cond :=
  match cond with
  | .null => (.returned einval, .null)
  | .initializer => (.returned 0, .initializer)
  | .created cv =>
    let (left, after) := pteCondUnblock cv unblockAll self
    (left, .created after)

def pthreadCondSignal (cond : Cond) (self : Option Canceller) : Left × Cond := cond.unblock false self

def pthreadCondBroadcast (cond : Cond) (self : Option Canceller) : Left × Cond := cond.unblock true self

/-- The end of `pte_cond_wait_cleanup`; `relock` is what the lock of the user's mutex
returns. -/
def CondVar.leave (cv : CondVar) (nSignalsWasLeft relock : Int) (result : Int) : Left × CondVar :=
  let (errno, cv) := cv.unlock
  if errno ≠ 0 then (.returned errno, cv)
  else if nSignalsWasLeft = 1 then
    let (errno, sem) := semPost cv.semBlockLock 1
    let cv := { cv with semBlockLock := sem }
    if errno ≠ 0 then (.returned errno, cv)
    else (.returned (if relock ≠ 0 then relock else result), cv)
  else (.returned (if relock ≠ 0 then relock else result), cv)

/-- `pte_cond_wait_cleanup`; it returns what is then in `*resultPtr`, at first `result`. -/
def pteCondWaitCleanup (cv : CondVar) (self : Option Canceller) (relock result : Int) : Left × CondVar :=
  match mutexLock cv.mtxUnblockLock with
  | .failed errno => (.returned errno, cv)
  | .cancelled => (.cancelled, cv)
  | .blocked => (.blocked, cv)
  | .taken =>
    let cv := { cv with mtxUnblockLock := some true }
    let nSignalsWasLeft := toInt cv.nWaitersToUnblock
    if nSignalsWasLeft ≠ 0 then
      { cv with nWaitersToUnblock := cv.nWaitersToUnblock - 1 }.leave nSignalsWasLeft relock result
    else
      let cv := { cv with nWaitersGone := cv.nWaitersGone + 1 }
      if cv.nWaitersGone = intMax / 2 then
        match semWait cv.semBlockLock self with
        | .cancelled => (.cancelled, cv)
        | .blocked => (.blocked, cv)
        -- a fatal error for this variable: `mtxUnblockLock` stays locked
        | .failed errno => (.returned errno, cv)
        | .taken =>
          let cv := { cv with
            semBlockLock := cv.semBlockLock.map (· - 1)
            nWaitersBlocked := cv.nWaitersBlocked - cv.nWaitersGone }
          let (errno, sem) := semPost cv.semBlockLock 1
          let cv := { cv with semBlockLock := sem }
          if errno ≠ 0 then (.returned errno, cv)
          else { cv with nWaitersGone := 0 }.leave nSignalsWasLeft relock result
      else cv.leave nSignalsWasLeft relock result

/-- `pte_cond_timedwait` up to the wait on `semBlockQueue`. -/
def condEnter (cv : CondVar) (self : Option Canceller) : Left × CondVar :=
  match semWait cv.semBlockLock self with
  | .cancelled => (.cancelled, cv)
  | .blocked => (.blocked, cv)
  | .failed errno => (.returned errno, cv)
  | .taken =>
    let cv := { cv with
      semBlockLock := cv.semBlockLock.map (· - 1)
      nWaitersBlocked := cv.nWaitersBlocked + 1 }
    let (errno, sem) := semPost cv.semBlockLock 1
    (.returned errno, { cv with semBlockLock := sem })

/-- `mtxUnblockLock` is unlocked, and `semBlockLock` posted back unless waiters remain
to be unblocked. -/
def CondVar.Clean (cv : CondVar) : Prop :=
  cv.mtxUnblockLock = some false ∧ (cv.nWaitersToUnblock = 0 → cv.semBlockLock = some 1)

instance (cv : CondVar) : Decidable cv.Clean := inferInstanceAs (Decidable (_ ∧ _))

/-! ## The calls of all threads -/

/-- A condition variable and the number of threads in `pthread_cond_wait` on it. -/
structure Waiting where
  cv : CondVar
  inside : Nat

inductive CondCall
  | enter (self : Option Canceller)
  | signal (self : Option Canceller)
  | broadcast (self : Option Canceller)
  | cleanup (self : Option Canceller) (relock result : Int)

/-- A `pthread_cond_signal` or `pthread_cond_broadcast` that is left. -/
def Waiting.unblocked (s : Waiting) (call : Left × Cond) : Option Waiting :=
  match call with
  | (.blocked, _) => none
  | (_, .created cv) => some ⟨cv, s.inside⟩
  | (_, _) => none

/-- A call that is left.  There are no more than 2^16 threads, as many as `uint16_t` ids. -/
def Waiting.exec (s : Waiting) : CondCall → Option Waiting
  | .enter self =>
    if s.inside < 2 ^ 16 then
      match condEnter s.cv self with
      | (.blocked, _) => none
      | (.returned 0, cv) => some ⟨cv, s.inside + 1⟩
      | (_, cv) => some ⟨cv, s.inside⟩
    else none
  | .signal self => s.unblocked (pthreadCondSignal (.created s.cv) self)
  | .broadcast self => s.unblocked (pthreadCondBroadcast (.created s.cv) self)
  | .cleanup self relock result =>
    if s.inside = 0 then none
    else match pteCondWaitCleanup s.cv self relock result with
      | (.blocked, _) => none
      | (_, cv) => some ⟨cv, s.inside - 1⟩

/-- `pthread_cond_init` -/
def Waiting.Fresh (s : Waiting) : Prop :=
  s.cv = ⟨0, 0, 0, some 0, some 1, some false⟩ ∧ s.inside = 0

/-- The call comes to the `sem_wait` on `semBlockLock` that it makes with `mtxUnblockLock` locked. -/
def Waiting.WaitsLocked (s : Waiting) : CondCall → Prop
  | .enter _ => False
  | .signal _ | .broadcast _ => s.cv.nWaitersToUnblock = 0 ∧ s.cv.nWaitersGone < s.cv.nWaitersBlocked
  | .cleanup .. => s.cv.nWaitersToUnblock = 0 ∧ s.cv.nWaitersGone + 1 = intMax / 2

def CondCall.self : CondCall → Option Canceller
  | .enter self | .signal self | .broadcast self | .cleanup self _ _ => self

/-- No thread is cancelled at that `sem_wait`. -/
def Waiting.NotCancelled (s : Waiting) (call : CondCall) : Prop :=
  ¬(s.WaitsLocked call ∧ testcancel call.self = true)

/-- Every waiter is counted once, and none has gone while some are to be unblocked. -/
structure Counts (nBlocked nGone nToUnblock : Int) (inside : Nat) : Prop where
  unblocked : 0 ≤ nToUnblock
  gone : 0 ≤ nGone
  blocked : nGone ≤ nBlocked
  settled : nToUnblock ≠ 0 → nGone = 0
  count : (inside : Int) = nBlocked + nToUnblock - nGone
  threads : inside ≤ 2 ^ 16

section Counters
variable {b g u : Int} {inside : Nat}

/-- Signals to all, or to one, when none is left from before. -/
theorem Counts.closeAll (counts : Counts b g 0 inside) : Counts 0 0 (b - g) inside := by
  obtain ⟨unblocked, gone, blocked, settled, count, threads⟩ := counts
  constructor <;> omega

theorem Counts.closeOne (counts : Counts b g 0 inside) (waiters : g < b) : Counts (b - g - 1) 0 1 inside := by
  obtain ⟨unblocked, gone, blocked, settled, count, threads⟩ := counts
  constructor <;> omega

/-- Signals to all, or to one, on top of others. -/
theorem Counts.addAll (counts : Counts b g u inside) (some : u ≠ 0) : Counts 0 g (u + b) inside := by
  obtain ⟨unblocked, gone, blocked, settled, count, threads⟩ := counts
  constructor <;> omega

theorem Counts.addOne (counts : Counts b g u inside) (some : u ≠ 0) (waiters : b ≠ 0) :
    Counts (b - 1) g (u + 1) inside := by
  obtain ⟨unblocked, gone, blocked, settled, count, threads⟩ := counts
  constructor <;> omega

/-- A waiter leaves with a signal, or without. -/
theorem Counts.signalled (counts : Counts b g u inside) (some : u ≠ 0) :
    Counts b g (u - 1) (inside - 1) := by
  obtain ⟨unblocked, gone, blocked, settled, count, threads⟩ := counts
  constructor <;> omega

theorem Counts.went (counts : Counts b g 0 inside) (waiter : inside ≠ 0) :
    Counts b (g + 1) 0 (inside - 1) := by
  obtain ⟨unblocked, gone, blocked, settled, count, threads⟩ := counts
  constructor <;> omega

theorem Counts.settle (counts : Counts b g 0 inside) : Counts (b - g) 0 0 inside := by
  obtain ⟨unblocked, gone, blocked, settled, count, threads⟩ := counts
  constructor <;> omega

theorem Counts.enter (counts : Counts b g 0 inside) (more : inside < 2 ^ 16) :
    Counts (b + 1) g 0 (inside + 1) := by
  obtain ⟨unblocked, gone, blocked, settled, count, threads⟩ := counts
  constructor <;> omega

theorem toInt_of_small {x : Int} (least : 0 ≤ x) (most : x ≤ 2 ^ 16) : toInt x = x := by
  rw [toInt, Int.bmod_eq_of_le] <;> omega

theorem Counts.toInt_unblock (counts : Counts b g u inside) : toInt u = u := by
  obtain ⟨unblocked, gone, blocked, settled, count, threads⟩ := counts
  apply toInt_of_small unblocked
  omega

theorem Counts.toInt_blocked (counts : Counts b g u inside) (some : u ≠ 0) : toInt b = b := by
  obtain ⟨unblocked, gone, blocked, settled, count, threads⟩ := counts
  apply toInt_of_small <;> omega

end Counters

/-- What holds between the calls: `semBlockLock` is taken while waiters are to be unblocked. -/
structure Waiting.Sound (s : Waiting) : Prop where
  lock : s.cv.mtxUnblockLock = some false
  gate : s.cv.semBlockLock = some (if s.cv.nWaitersToUnblock = 0 then 1 else 0)
  counts : Counts s.cv.nWaitersBlocked s.cv.nWaitersGone s.cv.nWaitersToUnblock s.inside

/-! ## The parts of the calls -/

section Parts
variable {cv : CondVar} {self : Option Canceller} {n relock result : Int}

theorem settle_eq (cv : CondVar) : cv.settle =
    { cv with nWaitersBlocked := cv.nWaitersBlocked - cv.nWaitersGone, nWaitersGone := 0 } := by
  by_cases none : cv.nWaitersGone = 0
  · cases cv
    simp_all [CondVar.settle]
  · rw [CondVar.settle, if_pos none]

theorem semPost_zero : semPost (some 0) 1 = (0, some 1) := by decide

/-- A wait on an open gate and the post after it. -/
theorem semPost_taken : semPost (Option.map (fun value => value - 1) (some 1)) 1 = (0, some 1) := by decide

theorem semWait_open (uncancelled : testcancel self = false) : semWait (some 1) self = .taken := by
  simp [semWait, uncancelled]

theorem semWait_cancelled (cancelled : testcancel self = true) (sem : Option Int) :
    semWait sem self = .cancelled := by
  simp [semWait, cancelled]

/-- A call that is left by a return, and what it leaves is sound. -/
def Ends (inside : Nat) (call : Left × CondVar) : Prop :=
  ∃ result cv, call = (.returned result, cv) ∧ (Waiting.mk cv inside).Sound

variable {inside : Nat}

theorem unlock_ends (locked : cv.mtxUnblockLock = some true)
    (gate : cv.semBlockLock = some (if cv.nWaitersToUnblock = 0 then 1 else 0))
    (counts : Counts cv.nWaitersBlocked cv.nWaitersGone cv.nWaitersToUnblock inside) :
    Ends inside (.returned cv.unlock.1, cv.unlock.2) := by
  simp only [CondVar.unlock, locked]
  exact ⟨0, _, rfl, rfl, gate, counts⟩

theorem issue_ends (locked : cv.mtxUnblockLock = some true)
    (gate : cv.semBlockLock = some (if cv.nWaitersToUnblock = 0 then 1 else 0))
    (counts : Counts cv.nWaitersBlocked cv.nWaitersGone cv.nWaitersToUnblock inside) :
    Ends inside (cv.issue n) := by
  simp only [CondVar.issue, CondVar.unlock, locked, if_true]
  exact ⟨_, _, rfl, rfl, gate, counts⟩

/-- The waiter that took the last signal opens the gate. -/
theorem leave_last_ends (locked : cv.mtxUnblockLock = some true) (closed : cv.semBlockLock = some 0)
    (last : cv.nWaitersToUnblock = 0)
    (counts : Counts cv.nWaitersBlocked cv.nWaitersGone cv.nWaitersToUnblock inside) :
    Ends inside (cv.leave 1 relock result) := by
  simp only [CondVar.leave, CondVar.unlock, locked, closed, semPost_zero, ne_eq, not_true_eq_false, if_false,
    if_true]
  refine ⟨_, _, rfl, rfl, ?_, counts⟩
  rw [if_pos last]

theorem leave_other_ends (more : n ≠ 1) (locked : cv.mtxUnblockLock = some true)
    (gate : cv.semBlockLock = some (if cv.nWaitersToUnblock = 0 then 1 else 0))
    (counts : Counts cv.nWaitersBlocked cv.nWaitersGone cv.nWaitersToUnblock inside) :
    Ends inside (cv.leave n relock result) := by
  simp only [CondVar.leave, CondVar.unlock, locked, if_neg more, ne_eq, not_true_eq_false, if_false]
  exact ⟨_, _, rfl, rfl, gate, counts⟩

end Parts

/-! ## What each call keeps -/

section Calls
variable {s after : Waiting} {self : Option Canceller} {relock result : Int}

theorem Waiting.Sound.unblock (sound : s.Sound) (unblockAll : Bool) (self : Option Canceller)
    (allowed : ¬((s.cv.nWaitersToUnblock = 0 ∧ s.cv.nWaitersGone < s.cv.nWaitersBlocked) ∧
      testcancel self = true)) :
    Ends s.inside (pteCondUnblock s.cv unblockAll self) := by
  obtain ⟨cv, inside⟩ := s
  obtain ⟨lock, gate, counts⟩ := sound
  simp only at lock gate counts
  simp only [pteCondUnblock, lock, mutexLock]
  by_cases idle : cv.nWaitersToUnblock = 0
  · rw [if_neg (not_not.mpr idle)]
    by_cases waiters : cv.nWaitersGone < cv.nWaitersBlocked
    · have uncancelled : testcancel self = false := by
        rw [← Bool.not_eq_true]
        exact fun cancelled => allowed ⟨⟨idle, waiters⟩, cancelled⟩
      rw [if_pos idle] at gate
      rw [idle] at counts
      -- the gate closes
      simp only [if_pos waiters, gate, semWait_open uncancelled, settle_eq]
      split
      · have some : cv.nWaitersBlocked - cv.nWaitersGone ≠ 0 := by omega
        apply issue_ends rfl ?_ counts.closeAll
        simp only [if_neg some]
        rfl
      · exact issue_ends rfl rfl (counts.closeOne waiters)
    · rw [if_neg waiters]
      exact unlock_ends rfl gate counts
  · rw [if_pos idle]
    by_cases none : cv.nWaitersBlocked = 0
    · rw [if_pos none]
      exact unlock_ends rfl gate counts
    · have least := counts.unblocked
      have blocked := Int.le_trans counts.gone counts.blocked
      rw [if_neg idle] at gate
      rw [if_neg none]
      split
      · have some : cv.nWaitersToUnblock + cv.nWaitersBlocked ≠ 0 := by omega
        rw [counts.toInt_blocked idle]
        apply issue_ends rfl ?_ (counts.addAll idle)
        simp only [if_neg some]
        exact gate
      · have some : cv.nWaitersToUnblock + 1 ≠ 0 := by omega
        apply issue_ends rfl ?_ (counts.addOne idle none)
        simp only [if_neg some]
        exact gate

theorem Waiting.Sound.cleanup (sound : s.Sound) (waiter : s.inside ≠ 0)
    (allowed : s.NotCancelled (.cleanup self relock result)) :
    Ends (s.inside - 1) (pteCondWaitCleanup s.cv self relock result) := by
  obtain ⟨cv, inside⟩ := s
  obtain ⟨lock, gate, counts⟩ := sound
  simp only at lock gate counts waiter
  simp only [pteCondWaitCleanup, lock, mutexLock, counts.toInt_unblock]
  by_cases idle : cv.nWaitersToUnblock = 0
  · rw [if_pos idle] at gate
    rw [idle] at counts
    rw [if_neg (not_not.mpr idle), idle]
    have went := counts.went waiter
    by_cases many : cv.nWaitersGone + 1 = intMax / 2
    · have uncancelled : testcancel self = false := by
        rw [← Bool.not_eq_true]
        exact fun cancelled => allowed ⟨⟨idle, many⟩, cancelled⟩
      -- the gate closes and opens again
      simp only [if_pos many, gate, semWait_open uncancelled, semPost_taken, ne_eq, not_true_eq_false, if_false]
      exact leave_other_ends Int.zero_ne_one rfl rfl went.settle
    · rw [if_neg many]
      exact leave_other_ends Int.zero_ne_one rfl gate went
  · rw [if_neg idle] at gate
    rw [if_pos idle]
    have signalled := counts.signalled idle
    by_cases last : cv.nWaitersToUnblock = 1
    · simp only [last] at signalled ⊢
      exact leave_last_ends rfl gate rfl signalled
    · have some : cv.nWaitersToUnblock - 1 ≠ 0 := by omega
      apply leave_other_ends last rfl ?_ signalled
      simp only [if_neg some]
      exact gate

/-- A waiter comes in while the gate is open. -/
theorem Waiting.Sound.enter (sound : s.Sound) (self : Option Canceller) (more : s.inside < 2 ^ 16) :
    condEnter s.cv self = (.cancelled, s.cv) ∨ condEnter s.cv self = (.blocked, s.cv) ∨
      ∃ cv, condEnter s.cv self = (.returned 0, cv) ∧ (Waiting.mk cv (s.inside + 1)).Sound := by
  obtain ⟨cv, inside⟩ := s
  obtain ⟨lock, gate, counts⟩ := sound
  simp only at lock gate counts more
  cases cancel : testcancel self with
  | true => exact Or.inl (by simp [condEnter, semWait_cancelled cancel])
  | false =>
    by_cases idle : cv.nWaitersToUnblock = 0
    · rw [if_pos idle] at gate
      rw [idle] at counts
      simp only [condEnter, gate, semWait_open cancel, semPost_taken]
      refine Or.inr (Or.inr ⟨_, rfl, lock, ?_, ?_⟩)
      · simp [idle]
      · simp only [idle]
        exact counts.enter more
    · rw [if_neg idle] at gate
      exact Or.inr (Or.inl (by simp [condEnter, gate, semWait, cancel]))

/-- A signal or broadcast that is not blocked is left. -/
theorem Waiting.unblocked_of {unblockAll : Bool} {left : Left} {cv : CondVar}
    (run : pteCondUnblock s.cv unblockAll self = (left, cv)) (moves : left ≠ .blocked) :
    s.unblocked ((Cond.created s.cv).unblock unblockAll self) = some ⟨cv, s.inside⟩ := by
  cases left with
  | blocked => exact absurd rfl moves
  | returned result => simp only [Cond.unblock, run, Waiting.unblocked]
  | cancelled => simp only [Cond.unblock, run, Waiting.unblocked]

theorem Waiting.Sound.unblocked (sound : s.Sound) (unblockAll : Bool) (self : Option Canceller)
    (allowed : ¬((s.cv.nWaitersToUnblock = 0 ∧ s.cv.nWaitersGone < s.cv.nWaitersBlocked) ∧
      testcancel self = true))
    (move : s.unblocked ((Cond.created s.cv).unblock unblockAll self) = some after) : after.Sound := by
  obtain ⟨final, cv, ends, kept⟩ := sound.unblock unblockAll self allowed
  rw [Waiting.unblocked_of ends (by simp)] at move
  cases move
  exact kept

theorem Waiting.Sound.clean (sound : s.Sound) : s.cv.Clean := by
  refine ⟨sound.lock, fun idle => ?_⟩
  rw [sound.gate, if_pos idle]

theorem Waiting.Sound.exec {call : CondCall} (sound : s.Sound) (allowed : s.NotCancelled call)
    (move : s.exec call = some after) : after.Sound := by
  cases call with
  | enter self =>
    simp only [Waiting.exec, Option.ite_none_right_eq_some] at move
    obtain ⟨more, move⟩ := move
    rcases sound.enter self more with cancelled | waits | ⟨cv, ends, kept⟩
    · rw [cancelled] at move
      cases move
      exact sound
    · rw [waits] at move
      cases move
    · rw [ends] at move
      cases move
      exact kept
  | signal self => exact sound.unblocked false self allowed move
  | broadcast self => exact sound.unblocked true self allowed move
  | cleanup self relock result =>
    simp only [Waiting.exec, Option.ite_none_left_eq_some] at move
    obtain ⟨waiter, move⟩ := move
    obtain ⟨final, cv, ends, kept⟩ := sound.cleanup waiter allowed
    rw [ends] at move
    cases move
    exact kept

/-! ## Cancellation -/

/-- The call is left with `mtxUnblockLock` locked. -/
def Strands (call : Left × CondVar) : Prop :=
  ∃ cv, call = (.cancelled, cv) ∧ cv.mtxUnblockLock = some true

theorem Waiting.Sound.unblock_cancelled (sound : s.Sound) (unblockAll : Bool)
    (idle : s.cv.nWaitersToUnblock = 0) (waiters : s.cv.nWaitersGone < s.cv.nWaitersBlocked)
    (cancelled : testcancel self = true) : Strands (pteCondUnblock s.cv unblockAll self) := by
  simp only [pteCondUnblock, sound.lock, mutexLock, if_neg (not_not.mpr idle), if_pos waiters,
    semWait_cancelled cancelled]
  exact ⟨_, rfl, rfl⟩

theorem Waiting.Sound.cleanup_cancelled (sound : s.Sound) (idle : s.cv.nWaitersToUnblock = 0)
    (many : s.cv.nWaitersGone + 1 = intMax / 2) (cancelled : testcancel self = true)
    (relock result : Int) : Strands (pteCondWaitCleanup s.cv self relock result) := by
  simp only [pteCondWaitCleanup, sound.lock, mutexLock, sound.counts.toInt_unblock,
    if_neg (not_not.mpr idle), if_pos many, semWait_cancelled cancelled]
  exact ⟨_, rfl, rfl⟩

theorem Waiting.Sound.unblocked_locked (sound : s.Sound) (unblockAll : Bool)
    (idle : s.cv.nWaitersToUnblock = 0) (waiters : s.cv.nWaitersGone < s.cv.nWaitersBlocked)
    (cancelled : testcancel self = true)
    (move : s.unblocked ((Cond.created s.cv).unblock unblockAll self) = some after) :
    after.cv.mtxUnblockLock = some true := by
  obtain ⟨cv, left, locked⟩ := sound.unblock_cancelled unblockAll idle waiters cancelled
  rw [Waiting.unblocked_of left (by simp)] at move
  cases move
  exact locked

theorem Waiting.Sound.stranded {call : CondCall} (sound : s.Sound) (waits : s.WaitsLocked call)
    (cancelled : testcancel call.self = true) (move : s.exec call = some after) : ¬after.cv.Clean := by
  have locked : after.cv.mtxUnblockLock = some true := by
    cases call with
    | enter self => exact waits.elim
    | signal self => exact sound.unblocked_locked false waits.1 waits.2 cancelled move
    | broadcast self => exact sound.unblocked_locked true waits.1 waits.2 cancelled move
    | cleanup self relock result =>
      simp only [Waiting.exec, Option.ite_none_left_eq_some] at move
      obtain ⟨_, move⟩ := move
      obtain ⟨cv, left, locked⟩ := sound.cleanup_cancelled waits.1 waits.2 cancelled relock result
      simp only [CondCall.self] at left
      rw [left] at move
      cases move
      exact locked
  rintro ⟨unlocked, _⟩
  rw [locked] at unlocked
  cases unlocked

theorem Waiting.Sound.clean_iff {call : CondCall} (sound : s.Sound) (move : s.exec call = some after) :
    after.cv.Clean ↔ s.NotCancelled call := by
  constructor
  · rintro clean ⟨waits, cancelled⟩
    exact sound.stranded waits cancelled move clean
  · intro allowed
    exact (sound.exec allowed move).clean

/-- A signal and a broadcast come to an end. -/
theorem Waiting.Sound.unblock_left (sound : s.Sound) (unblockAll : Bool) (self : Option Canceller) :
    ∃ after, s.unblocked ((Cond.created s.cv).unblock unblockAll self) = some after := by
  by_cases cancelled : (s.cv.nWaitersToUnblock = 0 ∧ s.cv.nWaitersGone < s.cv.nWaitersBlocked) ∧
      testcancel self = true
  · obtain ⟨cv, left, _⟩ := sound.unblock_cancelled unblockAll cancelled.1.1 cancelled.1.2 cancelled.2
    exact ⟨_, Waiting.unblocked_of left (by simp)⟩
  · obtain ⟨final, cv, ends, _⟩ := sound.unblock unblockAll self cancelled
    exact ⟨_, Waiting.unblocked_of ends (by simp)⟩

theorem Waiting.Sound.cleanup_left (sound : s.Sound) (waiter : s.inside ≠ 0) (self : Option Canceller)
    (relock result : Int) : ∃ after, s.exec (.cleanup self relock result) = some after := by
  rw [Waiting.exec, if_neg waiter]
  by_cases allowed : s.NotCancelled (.cleanup self relock result)
  · obtain ⟨final, cv, ends, _⟩ := sound.cleanup waiter allowed
    exact ⟨⟨cv, s.inside - 1⟩, by rw [ends]⟩
  · obtain ⟨waits, cancelled⟩ := not_not.mp allowed
    obtain ⟨cv, left, _⟩ := sound.cleanup_cancelled waits.1 waits.2 cancelled relock result
    simp only [CondCall.self] at left
    exact ⟨⟨cv, s.inside - 1⟩, by rw [left]⟩

end Calls

/-! ## Runs -/

/-- As long as no thread is cancelled at a `sem_wait` under `mtxUnblockLock`, each call
leaves that lock unlocked and `semBlockLock` posted unless waiters remain to be
unblocked; the first call that is cancelled there leaves `mtxUnblockLock` locked.
Signals, broadcasts and the handler of a waiter always come to an end. -/
theorem cond_locks_released_iff {s : Waiting}
    (reached : Reach Waiting.Fresh (fun before call after => before.exec call = some after)
      Waiting.NotCancelled s) :
    s.cv.Clean ∧ (∀ call after, s.exec call = some after → (after.cv.Clean ↔ s.NotCancelled call)) ∧
      (∀ self, (∃ after, s.exec (.signal self) = some after) ∧
        ∃ after, s.exec (.broadcast self) = some after) ∧
      (s.inside ≠ 0 → ∀ self relock result, ∃ after, s.exec (.cleanup self relock result) = some after) := by
  have sound : s.Sound := by
    apply reached.invariant Waiting.Sound
    · rintro ⟨cv, inside⟩ ⟨rfl, rfl⟩
      refine ⟨rfl, rfl, ?_⟩
      constructor <;> simp
    · intro s call after sound allowed move
      exact sound.exec allowed move
  refine ⟨sound.clean, fun call after move => sound.clean_iff move, fun self => ?_, fun waiter => ?_⟩
  · exact ⟨sound.unblock_left false self, sound.unblock_left true self⟩
  · exact sound.cleanup_left waiter

/-- What `pthread_cond_init` makes. -/
def Waiting.initial : Waiting := ⟨⟨0, 0, 0, some 0, some 1, some false⟩, 0⟩

/-- One thread waits. -/
def Waiting.one : Waiting := ⟨⟨1, 0, 0, some 0, some 1, some false⟩, 1⟩

theorem Waiting.enter_one : Waiting.initial.exec (.enter none) = some Waiting.one := rfl

/-- A thread waits, and another signals it. -/
theorem cond_locks_released_iff_signal : ∃ after : Waiting,
    Waiting.one.exec (.signal none) = some after ∧ after.cv.nWaitersToUnblock = 1 ∧ after.cv.Clean := by
  have allowed : Waiting.initial.NotCancelled (.enter none) := fun both => both.1
  have reached : Reach Waiting.Fresh (fun before call after => before.exec call = some after)
      Waiting.NotCancelled Waiting.one := .next (.start ⟨rfl, rfl⟩) allowed Waiting.enter_one
  have signalled : Waiting.one.exec (.signal none) = some ⟨⟨0, 0, 1, some 1, some 0, some false⟩, 1⟩ := rfl
  have clean := (cond_locks_released_iff reached).2.1 (.signal none) _ signalled
  exact ⟨_, signalled, rfl, clean.mpr fun both => Bool.false_ne_true both.2⟩

/-- A thread waits; one that has been cancelled signals it, and leaves the lock locked. -/
theorem cancelled_signal_keeps_lock : ∃ s after : Waiting,
    Reach Waiting.Fresh (fun before call after => before.exec call = some after) Always s ∧
      s.exec (.signal (some ⟨.cancelPending, false⟩)) = some after ∧
        after.cv.mtxUnblockLock = some true ∧ ¬after.cv.Clean := by
  have reached : Reach Waiting.Fresh (fun before call after => before.exec call = some after) Always
      Waiting.one := .next (.start ⟨rfl, rfl⟩) trivial Waiting.enter_one
  exact ⟨_, ⟨⟨1, 0, 0, some 0, some 1, some true⟩, 1⟩, reached, rfl, rfl, by decide⟩

end Stardust.Pte
