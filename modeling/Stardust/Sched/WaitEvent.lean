import Stardust.Lib.Reach
import Stardust.Sched.Core

/-! # `wait_event` and `wake_up`

Any number of threads wait on one queue for one condition, and any number of wakers
make it true and then call `wake_up`.  Between the sections that hold `wq.lock` the
code of a waiter can be preempted, and `schedule` does not come back to a thread
that is not RUNNABLE. -/
set_option autoImplicit false
namespace Stardust.Sched

open Stardust.Lib

/-! ## The code -/

/-- `__wake_up` -/
def wakeQueue : List Thread → Threads → Except Halt Threads
  | [], s => .ok s
  | curr :: next, s => do
    let s ← wake s curr
    wakeQueue next s

/-- Where a thread is in `wait_event`. -/
inductive WaitPhase
  | out
  /-- at the top of the loop -/
  | looping
  /-- after the unlock, with the condition to be tested -/
  | parked
  /-- the condition was true: before `wake(current)` -/
  | satisfied
  /-- the condition was false: before `schedule()` -/
  | unsatisfied
  /-- after the loop -/
  | leaving
  deriving DecidableEq

structure WaitRun where
  threads : Threads
  /-- the threads of the entries on `wq` -/
  waitQueue : List Thread
  phase : Thread → WaitPhase
  onCpu : Thread → Bool
  condition : Bool
  /-- ghost: the wakers that have made the condition true and not yet called `wake_up` -/
  wakers : Nat

inductive WaitOp
  /-- the first test of the condition -/
  | enter (t : Thread)
  /-- the section that holds `wq.lock`, up to the unlock -/
  | park (t : Thread)
  | test (t : Thread)
  | wakeSelf (t : Thread)
  | schedule (t : Thread)
  /-- the last section that holds `wq.lock` -/
  | leave (t : Thread)
  /-- `schedule` on the way out of `preempt_enable`, or of an interrupt -/
  | preempt (t : Thread)
  /-- a processor takes the thread -/
  | run (t : Thread)
  | makeTrue
  | makeFalse
  | wakeUp
  deriving DecidableEq

def WaitRun.goTo (state : WaitRun) (t : Thread) (phase : WaitPhase) : WaitRun :=
  { state with phase := Function.update state.phase t phase }

def WaitRun.setCpu (state : WaitRun) (t : Thread) (onCpu : Bool) : WaitRun :=
  { state with onCpu := Function.update state.onCpu t onCpu }

/-- The thread runs, and is at `phase`. -/
def WaitRun.At (state : WaitRun) (t : Thread) (phase : WaitPhase) : Prop :=
  state.onCpu t = true ∧ state.phase t = phase

instance WaitRun.decidableAt (state : WaitRun) (t : Thread) (phase : WaitPhase) :
    Decidable (state.At t phase) :=
  inferInstanceAs (Decidable (_ ∧ _))

def waitStep (state : WaitRun) : WaitOp → Option WaitRun
  | .enter t =>
    if state.At t .out then
      if state.condition then some state else some (state.goTo t .looping)
    else none
  | .park t =>
    if state.At t .looping then
      (block state.threads t).toOption.map fun threads => { state.goTo t .parked with
        threads := threads
        waitQueue := if t ∈ state.waitQueue then state.waitQueue else state.waitQueue ++ [t] }
    else none
  | .test t =>
    if state.At t .parked then
      some (state.goTo t (if state.condition then .satisfied else .unsatisfied))
    else none
  | .wakeSelf t =>
    if state.At t .satisfied then
      (wake state.threads t).toOption.map fun threads =>
        { state.goTo t .leaving with threads := threads }
    else none
  | .schedule t =>
    if state.At t .unsatisfied then some ((state.goTo t .looping).setCpu t false) else none
  | .leave t =>
    if state.At t .leaving then
      some { state.goTo t .out with waitQueue := state.waitQueue.erase t }
    else none
  | .preempt t => if state.onCpu t = true then some (state.setCpu t false) else none
  | .run t =>
    if state.onCpu t = false ∧ (state.threads.flags t).runnable = true then
      some (state.setCpu t true)
    else none
  | .makeTrue => some { state with condition := true, wakers := state.wakers + 1 }
  | .makeFalse => some { state with condition := false }
  | .wakeUp =>
    if 0 < state.wakers then
      (wakeQueue state.waitQueue state.threads).toOption.map fun threads =>
        { state with threads := threads, wakers := state.wakers - 1 }
    else none

abbrev WaitStep (before : WaitRun) (op : WaitOp) (after : WaitRun) : Prop :=
  waitStep before op = some after

/-- Every thread can run and nobody waits. -/
structure FreshWait (state : WaitRun) : Prop where
  flags : ∀ t, (state.threads.flags t).runnable = true ∧ (state.threads.flags t).suspended = false ∧
    (state.threads.flags t).hibernating = false
  waitQueue : state.waitQueue = []
  phase : ∀ t, state.phase t = .out
  wakers : state.wakers = 0

/-- No thread is off the processors and not RUNNABLE while the condition is true and
no `wake_up` is to come. -/
def NoLostWakeUp (state : WaitRun) : Prop :=
  ∀ t, state.onCpu t = false → (state.threads.flags t).runnable = false →
    state.condition = true → 0 < state.wakers

/-- A thread that has blocked itself and is preempted before its next `schedule` or
`wake(current)` has been woken, or finds the condition false, or a `wake_up` is to
come. -/
def PreemptsSafely (state : WaitRun) : WaitOp → Prop
  | .preempt t => state.phase t = .parked ∨ state.phase t = .satisfied →
      (state.threads.flags t).runnable = false → state.condition = true → 0 < state.wakers
  | _ => True

instance (state : WaitRun) (op : WaitOp) : Decidable (PreemptsSafely state op) := by
  cases op <;> unfold PreemptsSafely <;> infer_instance

section Runs
variable {state after : WaitRun} {op : WaitOp} {t : Thread}

/-- With nobody suspended or hibernating every thread on the queue is made RUNNABLE. -/
theorem wakeQueue_ok {queue : List Thread} {s woken : Threads}
    (free : ∀ t, (s.flags t).suspended = false ∧ (s.flags t).hibernating = false)
    (run : wakeQueue queue s = .ok woken) : ∀ t,
      (woken.flags t).suspended = false ∧ (woken.flags t).hibernating = false ∧
      (woken.flags t).runnable = ((s.flags t).runnable || decide (t ∈ queue)) := by
  induction queue generalizing s with
  | nil =>
    cases run
    intro t
    exact ⟨(free t).1, (free t).2, by simp⟩
  | cons curr next ih =>
    obtain ⟨middle, first, rest⟩ := Halt.bind_eq_ok.mp run
    have flags := (wake_ok first).2
    have freeMiddle : ∀ t, (middle.flags t).suspended = false ∧
        (middle.flags t).hibernating = false := by
      intro t
      rw [flags]
      split
      · exact free curr
      · exact free t
    intro t
    obtain ⟨suspended, hibernating, runnable⟩ := ih freeMiddle rest t
    refine ⟨suspended, hibernating, ?_⟩
    rw [runnable, flags]
    by_cases this : t = curr
    · subst this
      simp [free t]
    · simp [this]

/-! ## The invariant -/

/-- A thread that is not RUNNABLE is on the queue; unless it is on a processor with
its test of the condition to come, the condition is false or a `wake_up` is to come. -/
structure Awaited (state : WaitRun) : Prop where
  free : ∀ t, (state.threads.flags t).suspended = false ∧ (state.threads.flags t).hibernating = false
  queued : ∀ t, (state.threads.flags t).runnable = false → t ∈ state.waitQueue
  running : ∀ t, state.phase t = .out ∨ state.phase t = .leaving →
    (state.threads.flags t).runnable = true
  wakeable : ∀ t, (state.threads.flags t).runnable = false →
    (state.At t .parked ∨ state.At t .satisfied) ∨ (state.condition = true → 0 < state.wakers)

theorem Awaited.start (fresh : FreshWait state) : Awaited state := by
  obtain ⟨flags, _, _, _⟩ := fresh
  refine ⟨fun t => (flags t).2, fun t stopped => ?_, fun t _ => (flags t).1, fun t stopped => ?_⟩
  · rw [(flags t).1] at stopped
    cases stopped
  · rw [(flags t).1] at stopped
    cases stopped

theorem Awaited.noLostWakeUp (inv : Awaited state) : NoLostWakeUp state := by
  intro t off stopped
  rcases inv.wakeable t stopped with here | later
  · rcases here with here | here
    · exact absurd (off.symm.trans here.1) (by decide)
    · exact absurd (off.symm.trans here.1) (by decide)
  · exact later

/-- A move of one thread that leaves all flags and the queue alone. -/
theorem Awaited.moved (inv : Awaited state) {phase : WaitPhase} {onCpu : Bool}
    (running : phase = .out ∨ phase = .leaving → (state.threads.flags t).runnable = true)
    (wakeable : (state.threads.flags t).runnable = false →
      (onCpu = true ∧ (phase = .parked ∨ phase = .satisfied)) ∨
        (state.condition = true → 0 < state.wakers)) :
    Awaited ((state.goTo t phase).setCpu t onCpu) := by
  refine ⟨inv.free, inv.queued, fun other => ?_, fun other stopped => ?_⟩
  · simp only [WaitRun.setCpu, WaitRun.goTo, Function.update_apply]
    split
    · rename_i this
      rw [this]
      exact running
    · exact inv.running other
  · simp only [WaitRun.At, WaitRun.setCpu, WaitRun.goTo, Function.update_apply]
    by_cases this : other = t
    · subst this
      simp only [if_true]
      rcases wakeable stopped with ⟨here, phases⟩ | later
      · rcases phases with parked | satisfied
        · exact Or.inl (Or.inl ⟨here, parked⟩)
        · exact Or.inl (Or.inr ⟨here, satisfied⟩)
      · exact Or.inr later
    · simp only [if_neg this]
      exact inv.wakeable other stopped

theorem WaitRun.setCpu_same (state : WaitRun) {onCpu : Bool} (same : state.onCpu t = onCpu) :
    state.setCpu t onCpu = state := by
  rw [← same, WaitRun.setCpu, Function.update_eq_self]

theorem WaitRun.goTo_same (state : WaitRun) {phase : WaitPhase} (same : state.phase t = phase) :
    state.goTo t phase = state := by
  rw [← same, WaitRun.goTo, Function.update_eq_self]

/-- The section that holds the lock puts the thread on the queue as it blocks it. -/
theorem Awaited.park (inv : Awaited state) (here : state.onCpu t = true) {threads : Threads}
    (run : block state.threads t = .ok threads) :
    Awaited { state.goTo t .parked with
      threads := threads
      waitQueue := if t ∈ state.waitQueue then state.waitQueue else state.waitQueue ++ [t] } := by
  obtain ⟨_, _, flags⟩ := block_ok run
  have others : ∀ other, other ≠ t → threads.flags other = state.threads.flags other := by
    intro other this
    rw [flags, if_neg this]
  refine ⟨fun other => ?_, fun other stopped => ?_, fun other phase => ?_, fun other stopped => ?_⟩
  · simp only [flags]
    split
    · exact inv.free t
    · exact inv.free other
  · by_cases this : other = t
    · subst this
      dsimp only
      split
      · assumption
      · simp
    · rw [others other this] at stopped
      have member := inv.queued other stopped
      dsimp only
      split
      · exact member
      · exact List.mem_append_left _ member
  · by_cases this : other = t
    · subst this
      simp [WaitRun.goTo] at phase
    · rw [others other this]
      apply inv.running other
      simpa [WaitRun.goTo, this] using phase
  · by_cases this : other = t
    · subst this
      exact Or.inl (Or.inl ⟨here, by simp [WaitRun.goTo]⟩)
    · rw [others other this] at stopped
      simpa [WaitRun.At, WaitRun.goTo, this] using inv.wakeable other stopped

theorem Awaited.wakeSelf (inv : Awaited state) {threads : Threads}
    (run : wake state.threads t = .ok threads) :
    Awaited { state.goTo t .leaving with threads := threads } := by
  have flags := (wake_ok run).2
  have runs : (threads.flags t).runnable = true := by
    rw [flags, if_pos rfl]
    simp [inv.free t]
  have others : ∀ other, other ≠ t → threads.flags other = state.threads.flags other := by
    intro other this
    rw [flags, if_neg this]
  refine ⟨fun other => ?_, fun other stopped => ?_, fun other phase => ?_, fun other stopped => ?_⟩
  · simp only [flags]
    split
    · exact inv.free t
    · exact inv.free other
  · have this : other ≠ t := by
      intro same
      simp [same, runs] at stopped
    rw [others other this] at stopped
    exact inv.queued other stopped
  · by_cases this : other = t
    · rw [this]
      exact runs
    · rw [others other this]
      apply inv.running other
      simpa [WaitRun.goTo, this] using phase
  · have this : other ≠ t := by
      intro same
      simp [same, runs] at stopped
    rw [others other this] at stopped
    simpa [WaitRun.At, WaitRun.goTo, this] using inv.wakeable other stopped

/-- A `wake_up` makes every thread RUNNABLE that was not. -/
theorem Awaited.wakeUp (inv : Awaited state) {threads : Threads}
    (run : wakeQueue state.waitQueue state.threads = .ok threads) :
    Awaited { state with threads := threads, wakers := state.wakers - 1 } := by
  have woken := wakeQueue_ok inv.free run
  have runs : ∀ t, (threads.flags t).runnable = true := by
    intro t
    rw [(woken t).2.2]
    by_cases before : (state.threads.flags t).runnable = true
    · rw [before, Bool.true_or]
    · have member := inv.queued t (Bool.eq_false_iff.mpr before)
      simp [member]
  refine ⟨fun t => ⟨(woken t).1, (woken t).2.1⟩, fun t stopped => ?_, fun t _ => runs t,
    fun t stopped => ?_⟩
  · simp [runs t] at stopped
  · simp [runs t] at stopped

theorem Awaited.step (inv : Awaited state) (safe : PreemptsSafely state op)
    (move : waitStep state op = some after) : Awaited after := by
  cases op with
  | enter t =>
    obtain ⟨⟨here, phase⟩, move⟩ := Option.ite_none_right_eq_some.mp move
    split at move
    · cases Option.some.inj move
      exact inv
    · cases Option.some.inj move
      have runs := inv.running t (Or.inl phase)
      rw [← WaitRun.setCpu_same (state.goTo t .looping) (t := t) here]
      apply inv.moved
      · simp
      · simp [runs]
  | park t =>
    obtain ⟨⟨here, _⟩, move⟩ := Option.ite_none_right_eq_some.mp move
    obtain ⟨threads, run, rfl⟩ := Halt.map_toOption_eq_some.mp move
    exact inv.park here run
  | test t =>
    obtain ⟨⟨here, phase⟩, move⟩ := Option.ite_none_right_eq_some.mp move
    cases Option.some.inj move
    rw [← WaitRun.setCpu_same (state.goTo t _) (t := t) here]
    apply inv.moved
    · split <;> simp
    · intro _
      split
      · exact Or.inl ⟨rfl, Or.inr rfl⟩
      · rename_i fails
        exact Or.inr fun holds => absurd holds fails
  | wakeSelf t =>
    obtain ⟨_, move⟩ := Option.ite_none_right_eq_some.mp move
    obtain ⟨threads, run, rfl⟩ := Halt.map_toOption_eq_some.mp move
    exact inv.wakeSelf run
  | schedule t =>
    obtain ⟨⟨_, phase⟩, move⟩ := Option.ite_none_right_eq_some.mp move
    cases Option.some.inj move
    apply inv.moved
    · simp
    · intro stopped
      rcases inv.wakeable t stopped with here | later
      · simp [WaitRun.At, phase] at here
      · exact Or.inr later
  | leave t =>
    obtain ⟨⟨here, phase⟩, move⟩ := Option.ite_none_right_eq_some.mp move
    cases Option.some.inj move
    have runs := inv.running t (Or.inr phase)
    have left : Awaited ((state.goTo t .out).setCpu t true) := by
      apply inv.moved
      · exact fun _ => runs
      · simp [runs]
    rw [WaitRun.setCpu_same (state.goTo t .out) (t := t) here] at left
    refine ⟨left.free, fun other stopped => ?_, left.running, left.wakeable⟩
    apply (List.mem_erase_of_ne _).mpr (inv.queued other stopped)
    intro this
    have was : (state.threads.flags other).runnable = false := stopped
    rw [this, runs] at was
    cases was
  | preempt t =>
    obtain ⟨here, move⟩ := Option.ite_none_right_eq_some.mp move
    cases Option.some.inj move
    rw [← WaitRun.goTo_same state (t := t) rfl]
    apply inv.moved
    · exact inv.running t
    · intro stopped
      rcases inv.wakeable t stopped with here | later
      · exact Or.inr (safe (here.imp And.right And.right) stopped)
      · exact Or.inr later
  | run t =>
    obtain ⟨⟨_, runs⟩, move⟩ := Option.ite_none_right_eq_some.mp move
    cases Option.some.inj move
    rw [← WaitRun.goTo_same state (t := t) rfl]
    apply inv.moved
    · exact fun _ => runs
    · simp [runs]
  | makeTrue =>
    cases Option.some.inj move
    exact ⟨inv.free, inv.queued, inv.running, fun t _ => Or.inr fun _ => Nat.succ_pos _⟩
  | makeFalse =>
    cases Option.some.inj move
    refine ⟨inv.free, inv.queued, inv.running, fun t _ => Or.inr fun holds => ?_⟩
    cases holds
  | wakeUp =>
    obtain ⟨_, move⟩ := Option.ite_none_right_eq_some.mp move
    obtain ⟨threads, run, rfl⟩ := Halt.map_toOption_eq_some.mp move
    exact inv.wakeUp run

/-! ## Main result -/

/-- In every run whose preemptions are safe no wake-up is lost; a next step keeps
that exactly when it is no unsafe preemption. -/
theorem no_lost_wake_up (reached : Reach FreshWait WaitStep PreemptsSafely state) :
    NoLostWakeUp state ∧
      ∀ op after, WaitStep state op after → (NoLostWakeUp after ↔ PreemptsSafely state op) := by
  have inv : Awaited state := by
    apply Reach.invariant Awaited _ _ reached
    · exact fun _ fresh => Awaited.start fresh
    · intro before op after inv safe move
      exact inv.step safe move
  refine ⟨inv.noLostWakeUp, fun op after move => ⟨fun kept => ?_, fun safe => ?_⟩⟩
  · cases op with
    | preempt t =>
      obtain ⟨_, move⟩ := Option.ite_none_right_eq_some.mp move
      cases Option.some.inj move
      intro _ stopped holds
      exact kept t (by simp [WaitRun.setCpu]) stopped holds
    | _ => trivial
  · exact (inv.step safe move).noLostWakeUp

end Runs

/-! ## Two runs -/

def noWaiters : WaitRun :=
  { threads :=
      { flags := fun _ => ⟨true, false, false, false, false, false, false⟩
        cpu := fun _ => none
        links := ⟨id, id⟩ }
    waitQueue := []
    phase := fun _ => .out
    onCpu := fun _ => true
    condition := false
    wakers := 0 }

theorem noWaiters_fresh : FreshWait noWaiters :=
  ⟨fun _ => ⟨rfl, rfl, rfl⟩, rfl, fun _ => rfl, rfl⟩

/-- A waiter that is preempted before the condition is true is woken and returns. -/
theorem no_lost_wake_up_preempted :
    ∃ state, Reach FreshWait WaitStep PreemptsSafely state ∧ NoLostWakeUp state ∧
      state.At (.thread 1) .leaving := by
  have run : (runLabels waitStep PreemptsSafely
      [.enter (.thread 1), .park (.thread 1), .preempt (.thread 1), .makeTrue, .wakeUp,
        .run (.thread 1), .test (.thread 1), .wakeSelf (.thread 1)] noWaiters).any (fun state =>
      decide (state.At (.thread 1) .leaving)) = true := by
    decide +kernel
  obtain ⟨state, reached, leaving⟩ := Reach.of_run_ends noWaiters_fresh run
  exact ⟨state, reached, (no_lost_wake_up reached).1, leaving⟩

/-- The condition comes true and `wake_up` is called between the first test and the
lock; the waiter then blocks itself and is preempted at the unlock. -/
theorem preempted_waiter_lost :
    ∃ state, Reach FreshWait WaitStep Always state ∧ ¬NoLostWakeUp state := by
  have run : (runLabels waitStep Always
      [.enter (.thread 1), .makeTrue, .wakeUp, .park (.thread 1), .preempt (.thread 1)]
      noWaiters).any (fun state => decide (state.onCpu (.thread 1) = false ∧
        (state.threads.flags (.thread 1)).runnable = false ∧ state.condition = true ∧
          state.wakers = 0)) = true := by
    decide +kernel
  obtain ⟨state, reached, off, stopped, holds, none⟩ := Reach.of_run_ends noWaiters_fresh run
  refine ⟨state, reached, fun kept => ?_⟩
  have later := kept (.thread 1) off stopped holds
  omega

end Stardust.Sched
