import Stardust.Sched.Queues

/-! # Suspending a blocked thread

`wake_suspended_thread` makes a thread RUNNABLE unless it hibernates, sleeps or joins.
A thread that has called `block` and waits for a `wake` is none of these, so a
suspension and its end do what the `wake` was to do. -/
set_option autoImplicit false
namespace Stardust.Sched

inductive BlockedOp
  | suspend (t : Thread)
  | wakeSuspended (t : Thread)
  | wake (t : Thread)
  deriving DecidableEq

def blockedStep (s : Threads) : BlockedOp → Except Halt Threads
  | .suspend t => .ok (suspendThread s t)
  | .wakeSuspended t => .ok (wakeSuspendedThread s t)
  | .wake t => wake s t

def runBlocked : List BlockedOp → Threads → Except Halt Threads
  | [], s => .ok s
  | op :: rest, s => do
    let s ← blockedStep s op
    runBlocked rest s

/-- The suspensions of `t` and their ends come in pairs; `suspended` if one is open. -/
def Paired (t : Thread) : Bool → List BlockedOp → Prop
  | suspended, [] => suspended = false
  | suspended, .suspend other :: rest =>
    if other = t then suspended = false ∧ Paired t true rest else Paired t suspended rest
  | suspended, .wakeSuspended other :: rest =>
    if other = t then suspended = true ∧ Paired t false rest else Paired t suspended rest
  | suspended, .wake _ :: rest => Paired t suspended rest

/-- Not sleeping, hibernating or joining. -/
structure PlainlyBlocked (flags : Flags) (suspended : Bool) : Prop where
  hibernating : flags.hibernating = false
  sleeping : flags.sleeping = false
  joining : flags.joining = false
  suspended : flags.suspended = suspended

section Runs
variable {s after : Threads} {t other : Thread} {ops : List BlockedOp} {suspended : Bool}

/-- What one step does to a plainly blocked thread. -/
theorem blockedStep_flags {op : BlockedOp} (plain : PlainlyBlocked (s.flags t) suspended)
    (move : blockedStep s op = .ok after) : after.flags t =
      if op = .suspend t then { s.flags t with runnable := false, running := false, suspended := true }
      else if op = .wakeSuspended t then { s.flags t with suspended := false, runnable := true }
      else if op = .wake t then { s.flags t with runnable := (s.flags t).runnable || !suspended }
      else s.flags t := by
  cases op with
  | suspend other =>
    cases move
    rw [suspendThread_flags]
    by_cases this : other = t
    · simp [this]
    · simp [this, Ne.symm this]
  | wakeSuspended other =>
    cases move
    rw [wakeSuspendedThread_flags]
    by_cases this : other = t
    · simp [this, plain.hibernating, plain.sleeping, plain.joining]
    · simp [this, Ne.symm this]
  | wake other =>
    rw [(wake_ok move).2]
    by_cases this : other = t
    · simp [this, plain.hibernating, plain.suspended]
    · simp [this, Ne.symm this]

/-- A thread is RUNNABLE in the end if it was, or has been woken, or suspended at all. -/
theorem runBlocked_runnable (plain : PlainlyBlocked (s.flags t) suspended)
    (paired : Paired t suspended ops) (run : runBlocked ops s = .ok after) :
    (after.flags t).runnable = true ↔
      suspended = true ∨ (s.flags t).runnable = true ∨ .wake t ∈ ops ∨ .suspend t ∈ ops := by
  induction ops generalizing s suspended with
  | nil =>
    cases run
    have closed : suspended = false := paired
    simp [closed]
  | cons op rest ih =>
    obtain ⟨next, move, run⟩ := Halt.bind_eq_ok.mp run
    have flags := blockedStep_flags plain move
    by_cases suspends : op = .suspend t
    · rw [if_pos suspends] at flags
      rw [suspends, Paired, if_pos rfl] at paired
      have plain' : PlainlyBlocked (next.flags t) true := by
        rw [flags]
        exact ⟨plain.hibernating, plain.sleeping, plain.joining, rfl⟩
      rw [ih plain' paired.2 run]
      simp [suspends]
    · by_cases resumes : op = .wakeSuspended t
      · rw [if_neg suspends, if_pos resumes] at flags
        rw [resumes, Paired, if_pos rfl] at paired
        have plain' : PlainlyBlocked (next.flags t) false := by
          rw [flags]
          exact ⟨plain.hibernating, plain.sleeping, plain.joining, rfl⟩
        rw [ih plain' paired.2 run, flags]
        simp [paired.1]
      · rw [if_neg suspends, if_neg resumes] at flags
        have later : Paired t suspended rest := by
          cases op with
          | suspend other => rwa [Paired, if_neg (by simpa using suspends)] at paired
          | wakeSuspended other => rwa [Paired, if_neg (by simpa using resumes)] at paired
          | wake other => exact paired
        by_cases wakes : op = .wake t
        · rw [if_pos wakes] at flags
          have plain' : PlainlyBlocked (next.flags t) suspended := by
            rw [flags]
            exact ⟨plain.hibernating, plain.sleeping, plain.joining, plain.suspended⟩
          rw [ih plain' later run, flags]
          cases suspended with
          | true => simp
          | false => simp [wakes]
        · rw [if_neg wakes] at flags
          have plain' : PlainlyBlocked (next.flags t) suspended := by
            rw [flags]
            exact plain
          rw [ih plain' later run, flags]
          simp [Ne.symm wakes, Ne.symm suspends]

end Runs

/-- The thread has blocked itself and is neither suspended, sleeping, hibernating nor
joining. -/
theorem resume_transparent_iff {running s after : Threads} {t : Thread} {ops : List BlockedOp}
    (plain : PlainlyBlocked (running.flags t) false) (blocks : block running t = .ok s)
    (paired : Paired t false ops) (run : runBlocked ops s = .ok after) :
    ((after.flags t).runnable = true ↔ .wake t ∈ ops) ↔ (.wake t ∈ ops ∨ .suspend t ∉ ops) := by
  have flags : s.flags t = { running.flags t with runnable := false } := by
    rw [(block_ok blocks).2.2, if_pos rfl]
  have blocked : PlainlyBlocked (s.flags t) false := by
    rw [flags]
    exact ⟨plain.hibernating, plain.sleeping, plain.joining, plain.suspended⟩
  rw [runBlocked_runnable blocked paired run, flags]
  by_cases wakes : BlockedOp.wake t ∈ ops
  · simp [wakes]
  · simp [wakes]

/-- A thread that runs, with no other. -/
def oneThread : Threads := startThread noThreads (.thread 1)

/-- Suspended, woken and resumed. -/
theorem resume_transparent_iff_woken :
    ∃ s after, block oneThread (.thread 1) = .ok s ∧
      runBlocked [.suspend (.thread 1), .wake (.thread 1), .wakeSuspended (.thread 1)] s = .ok after ∧
      ((after.flags (.thread 1)).runnable = true ↔
        BlockedOp.wake (.thread 1) ∈ [.suspend (.thread 1), .wake (.thread 1),
          .wakeSuspended (.thread 1)]) := by
  refine ⟨_, _, rfl, rfl, ?_⟩
  have plain : PlainlyBlocked (oneThread.flags (.thread 1)) false := ⟨rfl, rfl, rfl, rfl⟩
  apply (resume_transparent_iff plain rfl _ rfl).mpr
  · exact Or.inl (by decide)
  · simp [Paired]

/-- Resumed without a `wake`, the thread is RUNNABLE. -/
theorem resumed_without_wake :
    ∃ s after, block oneThread (.thread 1) = .ok s ∧
      PlainlyBlocked (oneThread.flags (.thread 1)) false ∧
      Paired (.thread 1) false [.suspend (.thread 1), .wakeSuspended (.thread 1)] ∧
      runBlocked [.suspend (.thread 1), .wakeSuspended (.thread 1)] s = .ok after ∧
      ¬((after.flags (.thread 1)).runnable = true ↔
        BlockedOp.wake (.thread 1) ∈ [.suspend (.thread 1), .wakeSuspended (.thread 1)]) := by
  refine ⟨_, _, rfl, ⟨rfl, rfl, rfl, rfl⟩, ?_, rfl, fun transparent => ?_⟩
  · simp [Paired]
  · simpa using transparent.mp rfl

end Stardust.Sched
