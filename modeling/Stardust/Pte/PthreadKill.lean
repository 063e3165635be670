import Stardust.Sched.Core

/-! # Signals to a thread

`pthread_kill` with `suspend_pthread` and `resume_pthread`.  Other threads run in
between, so what a call reads of its target is given for each moment at which it reads. -/
set_option autoImplicit false
namespace Stardust.Pte

open Stardust.Sched

inductive PThreadState
  | initial
  | running
  | suspended
  | cancelPending
  | canceling
  | exception
  | last
  deriving DecidableEq

def esrch : Int := 3
def einval : Int := 22
def sigusr1 : Int := 10

/-- `pthread_t`; `disableSuspend` is there with `ENABLE_JAVA` only. -/
structure PthreadT where
  null : Bool
  x : Nat
  disableSuspend : Int

/-- `pte_thread_t`; without `os_thread_pntr` the pointer is null. -/
structure PteThread where
  x : Nat
  threadId : Nat
  state : PThreadState
  osThread : Option Thread

/-- What a call finds when it reads its target. -/
structure Look where
  pte : PteThread
  threads : Threads

/-- `pte_thread_reuse_lock` and what the caller has done with it. -/
structure ReuseLock where
  held : Bool
  locked : Nat
  unlocked : Nat
  deriving DecidableEq

/-- The caller comes without the lock. -/
def ReuseLock.free : ReuseLock := ⟨false, 0, 0⟩

def ReuseLock.lock (l : ReuseLock) : ReuseLock := ⟨true, l.locked + 1, l.unlocked⟩

/-- `BUG_ON(lock->owner != current)` -/
def ReuseLock.unlock (l : ReuseLock) : Except Halt ReuseLock :=
  if l.held then .ok ⟨false, l.locked, l.unlocked + 1⟩ else .error .bug

structure Killed where
  result : Int
  threads : Threads
  lock : ReuseLock

/-! ## The code -/

def suspendPthread (look : Look) (self : Bool) (lock : ReuseLock) : Except Halt (Threads × ReuseLock) :=
  match look.pte.osThread with
  | none => .ok (look.threads, lock)
  | some t =>
    if look.pte.state = .last then .ok (look.threads, lock)
    else if (look.threads.flags t).dying then .ok (look.threads, lock)
    else if (look.threads.flags t).suspended then .ok (look.threads, lock)
    else do
      let threads := suspendThread look.threads t
      -- `schedule` returns to a caller that suspended itself once another thread has resumed it
      let lock ← if self then lock.unlock else .ok lock
      .ok (threads, lock)

def resumePthread (look : Look) : Threads :=
  match look.pte.osThread with
  | none => look.threads
  | some t =>
    if look.pte.state = .last then look.threads
    else if (look.threads.flags t).dying then look.threads
    else if (look.threads.flags t).suspended = false then look.threads
    else wakeSuspendedThread look.threads t

/-- The section of `pthread_kill` for `SIGUSR1`. -/
def deliver (enableJava : Bool) (thread : PthreadT) (sig : Int) (self : Bool) (locked callee : Look)
    (lock : ReuseLock) : Except Halt (Threads × ReuseLock) :=
  if sig = sigusr1 then
    match locked.pte.osThread with
    | none => .error .fault
    | some osthread =>
      if (locked.threads.flags osthread).suspended then .ok (resumePthread callee, lock)
      else if enableJava = true ∧ thread.disableSuspend = 0 then suspendPthread callee self lock
      else .ok (locked.threads, lock)
  else .ok (locked.threads, lock)

/-- `current` calls; `entry` is what it finds before it takes the lock, `locked` after
that, and `callee` in `suspend_pthread` or `resume_pthread`. -/
def pthreadKill (enableJava : Bool) (current : Nat) (thread : PthreadT) (sig : Int)
    (entry locked callee : Look) : Except Halt Killed :=
  if thread.null = true ∨ thread.x ≠ entry.pte.x ∨ entry.pte.threadId = 0 ∨ entry.pte.state = .last then
    .ok ⟨esrch, entry.threads, .free⟩
  else if sig ≠ 0 ∧ sig ≠ sigusr1 then .ok ⟨einval, entry.threads, .free⟩
  else if sig = 0 then .ok ⟨0, entry.threads, .free⟩
  else do
    let self := decide (current = locked.pte.threadId)
    let (threads, lock) ← deliver enableJava thread sig self locked callee ReuseLock.free.lock
    let lock ← if self then .ok lock else lock.unlock
    .ok ⟨0, threads, lock⟩

/-! ## The lock -/

/-- `suspend_pthread` goes past its early returns. -/
def Look.Suspendable (look : Look) : Prop :=
  ∃ t, look.pte.osThread = some t ∧ look.pte.state ≠ .last ∧ (look.threads.flags t).dying = false ∧
    (look.threads.flags t).suspended = false

/-- `pthread_kill` goes past the returns before the lock. -/
def Look.Valid (entry : Look) (thread : PthreadT) (sig : Int) : Prop :=
  thread.null = false ∧ thread.x = entry.pte.x ∧ entry.pte.threadId ≠ 0 ∧ entry.pte.state ≠ .last ∧
    sig = sigusr1

/-- The branch in which `suspend_pthread` suspends the target. -/
def Suspends (enableJava : Bool) (thread : PthreadT) (locked callee : Look) : Prop :=
  enableJava = true ∧ thread.disableSuspend = 0 ∧
    (∀ t, locked.pte.osThread = some t → (locked.threads.flags t).suspended = false) ∧ callee.Suspendable

/-- Not held, and released as often as taken. -/
def ReuseLock.Balanced (l : ReuseLock) : Prop := l.held = false ∧ l.unlocked = l.locked

section Effects
variable {enableJava self : Bool} {current : Nat} {thread : PthreadT} {sig : Int}
  {entry locked callee look : Look} {threads : Threads} {lock l : ReuseLock} {killed : Killed}

/-- Only a caller that is its own target comes back without the lock, and only when it was suspended. -/
theorem suspendPthread_lock (returns : suspendPthread look self lock = .ok (threads, l)) :
    (self = true ∧ look.Suspendable ∧ lock.unlock = .ok l) ∨
      (¬(self = true ∧ look.Suspendable) ∧ l = lock) := by
  simp only [suspendPthread] at returns
  split at returns
  · rename_i none
    cases returns
    refine Or.inr ⟨?_, rfl⟩
    rintro ⟨_, t, pointer, _⟩
    rw [none] at pointer
    cases pointer
  · rename_i t pointer
    have checks : look.Suspendable → look.pte.state ≠ .last ∧ (look.threads.flags t).dying = false ∧
        (look.threads.flags t).suspended = false := by
      rintro ⟨u, same, passed⟩
      rw [pointer] at same
      cases same
      exact passed
    split at returns
    · rename_i last
      cases returns
      exact Or.inr ⟨fun both => (checks both.2).1 last, rfl⟩
    · rename_i alive
      split at returns
      · rename_i dying
        cases returns
        exact Or.inr ⟨fun both => Bool.eq_false_iff.mp (checks both.2).2.1 dying, rfl⟩
      · rename_i living
        split at returns
        · rename_i suspended
          cases returns
          exact Or.inr ⟨fun both => Bool.eq_false_iff.mp (checks both.2).2.2 suspended, rfl⟩
        · rename_i awake
          have suspendable : look.Suspendable :=
            ⟨t, pointer, alive, Bool.eq_false_iff.mpr living, Bool.eq_false_iff.mpr awake⟩
          cases self with
          | false =>
            cases returns
            exact Or.inr ⟨by simp, rfl⟩
          | true =>
            obtain ⟨released, unlock, rest⟩ := except_bind_ok.mp returns
            cases rest
            exact Or.inl ⟨rfl, suspendable, unlock⟩

theorem deliver_lock (returns : deliver enableJava thread sig self locked callee lock = .ok (threads, l))
    (signal : sig = sigusr1) :
    (self = true ∧ Suspends enableJava thread locked callee ∧ lock.unlock = .ok l) ∨
      (¬(self = true ∧ Suspends enableJava thread locked callee) ∧ l = lock) := by
  rw [deliver, if_pos signal] at returns
  split at returns
  · cases returns
  · rename_i t pointer
    split at returns
    · rename_i suspended
      cases returns
      refine Or.inr ⟨?_, rfl⟩
      rintro ⟨_, _, _, awake, _⟩
      rw [awake t pointer] at suspended
      cases suspended
    · rename_i awake
      have notSuspended : ∀ u, locked.pte.osThread = some u → (locked.threads.flags u).suspended = false := by
        intro u same
        rw [pointer] at same
        cases same
        exact Bool.eq_false_iff.mpr awake
      split at returns
      · rename_i java
        rcases suspendPthread_lock returns with ⟨own, suspendable, unlock⟩ | ⟨not, same⟩
        · exact Or.inl ⟨own, ⟨java.1, java.2, notSuspended, suspendable⟩, unlock⟩
        · exact Or.inr ⟨fun both => not ⟨both.1, both.2.2.2.2⟩, same⟩
      · rename_i java
        cases returns
        exact Or.inr ⟨fun both => java ⟨both.2.1, both.2.2.1⟩, rfl⟩

/-- The returns before the lock. -/
theorem pthreadKill_early (invalid : ¬entry.Valid thread sig)
    (returns : pthreadKill enableJava current thread sig entry locked callee = .ok killed) :
    killed.lock = .free := by
  simp only [pthreadKill] at returns
  split at returns
  · cases returns
    rfl
  · rename_i known
    split at returns
    · cases returns
      rfl
    · rename_i supported
      split at returns
      · cases returns
        rfl
      · rename_i signal
        simp only [not_or, Bool.not_eq_true, not_not] at known
        obtain ⟨pointer, x, threadId, state⟩ := known
        have usr1 : sig = sigusr1 := by
          by_contra other
          exact supported ⟨signal, other⟩
        exact absurd ⟨pointer, x, threadId, state, usr1⟩ invalid

/-- The call that takes the lock: what its two releases leave of it. -/
theorem pthreadKill_lock (valid : entry.Valid thread sig)
    (returns : pthreadKill enableJava current thread sig entry locked callee = .ok killed) :
    killed.lock.Balanced ↔ current ≠ locked.pte.threadId ∨ Suspends enableJava thread locked callee := by
  obtain ⟨pointer, x, threadId, state, signal⟩ := valid
  have nonzero : sig ≠ 0 := by
    rw [signal]
    decide
  rw [pthreadKill, if_neg (by simp [pointer, x, threadId, state]), if_neg (by simp [signal]),
    if_neg nonzero] at returns
  obtain ⟨⟨threads, lock⟩, delivery, rest⟩ := except_bind_ok.mp returns
  have delivered := deliver_lock delivery signal
  by_cases self : current = locked.pte.threadId
  · simp only [self, decide_true, true_and, if_true] at delivered rest
    cases rest
    rcases delivered with ⟨suspends, unlock⟩ | ⟨not, same⟩
    · cases unlock
      exact iff_of_true ⟨rfl, rfl⟩ (Or.inr suspends)
    · subst same
      refine iff_of_false ?_ (not_or.mpr ⟨not_not.mpr self, not⟩)
      rintro ⟨released, _⟩
      cases released
  · simp only [self, decide_false, Bool.false_eq_true, false_and, false_or, not_false_eq_true, true_and,
      if_false] at delivered rest
    subst delivered
    cases rest
    exact iff_of_true ⟨rfl, rfl⟩ (Or.inl self)

/-- `pthread_kill` comes back without the lock, released as often as taken, exactly when
it returned before the lock, or its caller is not the target, or it suspended its
caller. -/
theorem pthread_kill_unlocks_iff
    (returns : pthreadKill enableJava current thread sig entry locked callee = .ok killed) :
    killed.lock.Balanced ↔ ¬entry.Valid thread sig ∨ current ≠ locked.pte.threadId ∨
      Suspends enableJava thread locked callee := by
  by_cases valid : entry.Valid thread sig
  · rw [pthreadKill_lock valid returns]
    simp [valid]
  · have free := pthreadKill_early valid returns
    refine iff_of_true ?_ (Or.inl valid)
    rw [free]
    exact ⟨rfl, rfl⟩

end Effects

/-- Thread 7, which runs. -/
def runningTarget : Look where
  pte := { x := 0, threadId := 7, state := .running, osThread := some (.thread 7) }
  threads :=
    { flags := fun _ => ⟨false, true, false, false, false, false, false⟩
      cpu := fun _ => some 0
      links := ⟨id, id⟩ }

/-- Thread 5 suspends thread 7. -/
theorem pthread_kill_unlocks_iff_other : ∃ killed,
    pthreadKill true 5 ⟨false, 0, 0⟩ sigusr1 runningTarget runningTarget runningTarget = .ok killed ∧
      killed.lock.Balanced := by
  obtain ⟨killed, returns⟩ : ∃ killed, pthreadKill true 5 ⟨false, 0, 0⟩ sigusr1 runningTarget runningTarget
      runningTarget = .ok killed := ⟨_, rfl⟩
  exact ⟨killed, returns, (pthread_kill_unlocks_iff returns).mpr (Or.inr (Or.inl (by decide)))⟩

/-- Thread 7 signals itself with `disableSuspend` set: it comes back with the lock. -/
theorem own_signal_keeps_lock : ∃ killed,
    pthreadKill true 7 ⟨false, 0, 1⟩ sigusr1 runningTarget runningTarget runningTarget = .ok killed ∧
      killed.lock.held = true ∧ killed.lock.locked = 1 ∧ killed.lock.unlocked = 0 :=
  ⟨_, rfl, rfl, rfl, rfl⟩

end Stardust.Pte
