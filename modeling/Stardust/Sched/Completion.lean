import Stardust.Sched.WaitEvent

/-! # Completions

`complete` sets `done` to 1 and wakes all waiters; each waiter takes one off `done`, or
blocks itself again when another was first.  A second `complete` before that is lost. -/
set_option autoImplicit false
namespace Stardust.Sched

open Stardust.Lib

/-- Where a thread is in `wait_for_completion`. -/
inductive CompletionPhase
  | out
  /-- after an unlock: before `schedule` -/
  | blocked
  /-- `schedule` has been called: before the next test of `done` -/
  | scheduled
  deriving DecidableEq

structure CompletionRun where
  threads : Threads
  done : Int
  /-- the threads of the entries on `wait` -/
  waitQueue : List Thread
  phase : Thread → CompletionPhase
  onCpu : Thread → Bool
  /-- ghost: calls of `complete` -/
  completes : Nat
  /-- ghost: calls of `wait_for_completion` -/
  waiters : Nat
  /-- ghost: those that have returned -/
  satisfied : Nat

inductive CompletionOp
  /-- the first section that holds the lock, up to the unlock -/
  | wait (t : Thread)
  | schedule (t : Thread)
  /-- the section from one turn of the loop to the next, or to the end -/
  | again (t : Thread)
  /-- `schedule` on the way out of `preempt_enable`, or of an interrupt -/
  | preempt (t : Thread)
  /-- a processor takes the thread -/
  | run (t : Thread)
  | complete
  deriving DecidableEq

def CompletionRun.goTo (state : CompletionRun) (t : Thread) (phase : CompletionPhase) (onCpu : Bool) :
    CompletionRun :=
  { state with
    phase := Function.update state.phase t phase
    onCpu := Function.update state.onCpu t onCpu }

/-- `block(current)` and the unlock. -/
def CompletionRun.blockOn (state : CompletionRun) (t : Thread) (waitQueue : List Thread) :
    Option CompletionRun :=
  (block state.threads t).toOption.map fun threads =>
    { state.goTo t .blocked true with threads := threads, waitQueue := waitQueue }

/-- `comp->done--` and the unlock. -/
def CompletionRun.take (state : CompletionRun) (t : Thread) (waitQueue : List Thread) :
    CompletionRun :=
  { state.goTo t .out true with
    done := intSub state.done 1
    waitQueue := waitQueue
    satisfied := state.satisfied + 1 }

def completionStep (state : CompletionRun) : CompletionOp → Option CompletionRun
  | .wait t =>
    if state.onCpu t = true ∧ state.phase t = .out then
      let state : CompletionRun := { state with waiters := state.waiters + 1 }
      if state.done = 0 then state.blockOn t (state.waitQueue ++ [t])
      else some (state.take t state.waitQueue)
    else none
  | .schedule t =>
    if state.onCpu t = true ∧ state.phase t = .blocked then some (state.goTo t .scheduled false)
    else none
  | .again t =>
    if state.onCpu t = true ∧ state.phase t = .scheduled then
      if state.done = 0 then state.blockOn t state.waitQueue
      else some (state.take t (state.waitQueue.erase t))
    else none
  | .preempt t => if state.onCpu t = true then some (state.goTo t (state.phase t) false) else none
  | .run t =>
    if state.onCpu t = false ∧ (state.threads.flags t).runnable = true then
      some (state.goTo t (state.phase t) true)
    else none
  | .complete =>
    (wakeQueue state.waitQueue state.threads).toOption.map fun threads =>
      { state with threads := threads, done := 1, completes := state.completes + 1 }

abbrev CompletionStep (before : CompletionRun) (op : CompletionOp) (after : CompletionRun) : Prop :=
  completionStep before op = some after

/-- `init_completion`, with nobody waiting. -/
structure FreshCompletion (state : CompletionRun) : Prop where
  flags : ∀ t, (state.threads.flags t).suspended = false ∧ (state.threads.flags t).hibernating = false
  done : state.done = 0
  waitQueue : state.waitQueue = []
  phase : ∀ t, state.phase t = .out
  completes : state.completes = 0
  waiters : state.waiters = 0
  satisfied : state.satisfied = 0

structure CompletionsCounted (state : CompletionRun) : Prop where
  done : 0 ≤ state.done
  /-- with a completion for each waiter nobody is left blocked -/
  woken : state.waiters ≤ state.completes → ∀ t, state.phase t ≠ .out →
    (state.threads.flags t).runnable = true
  /-- when all that wait are blocked, as many waits as possible are over -/
  satisfied : (∀ t, state.phase t ≠ .out → (state.threads.flags t).runnable = false) →
    state.satisfied = min state.completes state.waiters

/-- `complete` is not called before a waiter has taken the last completion. -/
def CompletesTaken (state : CompletionRun) : CompletionOp → Prop
  | .complete => state.done = 0
  | _ => True

instance (state : CompletionRun) (op : CompletionOp) : Decidable (CompletesTaken state op) := by
  cases op <;> unfold CompletesTaken <;> infer_instance

section Runs
variable {state after : CompletionRun} {op : CompletionOp} {t : Thread}

/-! ## The invariant -/

structure Counted (state : CompletionRun) : Prop where
  free : ∀ t, (state.threads.flags t).suspended = false ∧ (state.threads.flags t).hibernating = false
  queued : ∀ t, t ∈ state.waitQueue ↔ state.phase t ≠ .out
  nodup : state.waitQueue.Nodup
  /-- nobody is blocked while there is something to take -/
  ready : state.done ≠ 0 → ∀ t, state.phase t ≠ .out → (state.threads.flags t).runnable = true
  count : state.done = 0 ∧ state.completes = state.satisfied ∨
    state.done = 1 ∧ state.completes = state.satisfied + 1
  waiters : state.waiters = state.satisfied + state.waitQueue.length

theorem Counted.start (fresh : FreshCompletion state) : Counted state := by
  obtain ⟨flags, done, waitQueue, phase, completes, waiters, satisfied⟩ := fresh
  refine ⟨flags, ?_, ?_, ?_, ?_, ?_⟩
  · simp [waitQueue, phase]
  · simp [waitQueue]
  · simp [done]
  · simp [done, completes, satisfied]
  · simp [waiters, satisfied, waitQueue]

theorem Counted.correct (inv : Counted state) : CompletionsCounted state := by
  have waiters := inv.waiters
  refine ⟨?_, fun enough t waits => ?_, fun blocked => ?_⟩
  · rcases inv.count with ⟨done, _⟩ | ⟨done, _⟩
    · exact Int.le_of_eq done.symm
    · rw [done]
      decide
  · have member := List.length_pos_of_mem ((inv.queued t).mpr waits)
    apply inv.ready _ t waits
    rcases inv.count with ⟨_, taken⟩ | ⟨done, _⟩
    · omega
    · rw [done]
      decide
  · rcases inv.count with ⟨_, taken⟩ | ⟨done, left⟩
    · omega
    · -- nobody waits, or it could run
      have nobody : state.waitQueue = [] := by
        apply List.eq_nil_iff_forall_not_mem.mpr
        intro t member
        have waits := (inv.queued t).mp member
        have runs := inv.ready (by rw [done]; decide) t waits
        rw [blocked t waits] at runs
        cases runs
      rw [nobody] at waiters
      simp only [List.length_nil] at waiters
      omega

/-- A move to another phase on the same side of the test. -/
theorem Counted.goTo (inv : Counted state) {phase : CompletionPhase} {onCpu : Bool}
    (side : phase = .out ↔ state.phase t = .out) : Counted (state.goTo t phase onCpu) := by
  have same : ∀ u, (state.goTo t phase onCpu).phase u = .out ↔ state.phase u = .out := by
    intro u
    simp only [CompletionRun.goTo, Function.update_apply]
    split
    · rename_i this
      rw [this]
      exact side
    · exact Iff.rfl
  refine ⟨inv.free, fun u => ?_, inv.nodup, fun some u waits => ?_, inv.count, inv.waiters⟩
  · rw [ne_eq, same u]
    exact inv.queued u
  · rw [ne_eq, same u] at waits
    exact inv.ready some u waits

/-- One more thread on the queue, blocked, or one that blocks itself again. -/
theorem Counted.blockOn (inv : Counted state) {queue : List Thread} {calls : Nat} {threads : Threads}
    (empty : state.done = 0) (run : Sched.block state.threads t = .ok threads)
    (members : ∀ u, u ∈ queue ↔ u = t ∨ u ∈ state.waitQueue) (nodup : queue.Nodup)
    (waiters : calls = state.satisfied + queue.length) :
    Counted { state.goTo t .blocked true with
      threads := threads, waitQueue := queue, waiters := calls } := by
  have flags := (block_ok run).2.2
  refine ⟨fun u => ?_, fun u => ?_, nodup, fun some => absurd empty some, inv.count, waiters⟩
  · dsimp only
    rw [flags]
    split
    · exact inv.free t
    · exact inv.free u
  · dsimp only [CompletionRun.goTo]
    rw [members]
    by_cases this : u = t
    · simp [this]
    · simp [this, inv.queued u]

/-- A thread that takes a completion. -/
theorem Counted.take (inv : Counted state) {queue : List Thread} {calls : Nat}
    (some : state.done ≠ 0) (members : ∀ u, u ∈ queue ↔ u ≠ t ∧ u ∈ state.waitQueue)
    (nodup : queue.Nodup) (waiters : calls = state.satisfied + 1 + queue.length) :
    Counted { state.take t queue with waiters := calls } := by
  have left : state.done = 1 ∧ state.completes = state.satisfied + 1 :=
    inv.count.resolve_left fun none => some none.1
  have taken : intSub state.done 1 = 0 := by
    rw [left.1]
    rfl
  refine ⟨inv.free, fun u => ?_, nodup, fun more => absurd taken more, Or.inl ⟨taken, left.2⟩, waiters⟩
  dsimp only [CompletionRun.take, CompletionRun.goTo]
  rw [members]
  by_cases this : u = t
  · simp [this]
  · simp [this, inv.queued u]

theorem Counted.complete (inv : Counted state) (taken : state.done = 0) {threads : Threads}
    (run : wakeQueue state.waitQueue state.threads = .ok threads) :
    Counted { state with threads := threads, done := 1, completes := state.completes + 1 } := by
  have woken := wakeQueue_ok inv.free run
  refine ⟨fun u => ⟨(woken u).1, (woken u).2.1⟩, inv.queued, inv.nodup, fun _ u waits => ?_,
    Or.inr ⟨rfl, ?_⟩, inv.waiters⟩
  · dsimp only
    rw [(woken u).2.2]
    simp [(inv.queued u).mpr waits]
  · have all := inv.count.resolve_right fun left => by
      rw [left.1] at taken
      cases taken
    rw [all.2]

theorem Counted.wait (inv : Counted state) (move : CompletionStep state (.wait t) after) : Counted after := by
  obtain ⟨⟨_, out⟩, move⟩ := Option.ite_none_right_eq_some.mp move
  have new : t ∉ state.waitQueue := fun member => (inv.queued t).mp member out
  have waiters := inv.waiters
  split at move
  · rename_i empty
    obtain ⟨threads, run, rfl⟩ := Halt.map_toOption_eq_some.mp move
    apply inv.blockOn empty run
    · intro u
      rw [List.mem_append, List.mem_singleton]
      exact or_comm
    · exact List.nodup_append.mpr ⟨inv.nodup, List.nodup_singleton t, fun u member other mine => by
        rw [List.mem_singleton.mp mine]
        rintro rfl
        exact new member⟩
    · change state.waiters + 1 = state.satisfied + (state.waitQueue ++ [t]).length
      rw [List.length_append, List.length_singleton]
      omega
  · rename_i some
    cases Option.some.inj move
    apply inv.take some
    · intro u
      constructor
      · intro member
        exact ⟨fun same => new (same ▸ member), member⟩
      · exact And.right
    · exact inv.nodup
    · change state.waiters + 1 = state.satisfied + 1 + state.waitQueue.length
      omega

theorem Counted.again (inv : Counted state) (move : CompletionStep state (.again t) after) : Counted after := by
  obtain ⟨⟨_, scheduled⟩, move⟩ := Option.ite_none_right_eq_some.mp move
  have member : t ∈ state.waitQueue := by
    rw [inv.queued, scheduled]
    simp
  have waiters := inv.waiters
  split at move
  · rename_i empty
    obtain ⟨threads, run, rfl⟩ := Halt.map_toOption_eq_some.mp move
    apply inv.blockOn empty run _ inv.nodup waiters
    intro u
    constructor
    · exact Or.inr
    · rintro (rfl | other)
      · exact member
      · exact other
  · rename_i some
    cases Option.some.inj move
    apply inv.take some
    · intro u
      exact inv.nodup.mem_erase_iff
    · exact inv.nodup.erase t
    · have shorter := List.length_erase_of_mem member
      have nonempty := List.length_pos_of_mem member
      change state.waiters = state.satisfied + 1 + (state.waitQueue.erase t).length
      rw [shorter]
      omega

theorem Counted.step (inv : Counted state) (timely : CompletesTaken state op)
    (move : completionStep state op = some after) : Counted after := by
  cases op with
  | wait t => exact inv.wait move
  | schedule t =>
    obtain ⟨⟨_, blocked⟩, move⟩ := Option.ite_none_right_eq_some.mp move
    cases Option.some.inj move
    apply inv.goTo
    simp [blocked]
  | again t => exact inv.again move
  | preempt t =>
    obtain ⟨_, move⟩ := Option.ite_none_right_eq_some.mp move
    cases Option.some.inj move
    exact inv.goTo Iff.rfl
  | run t =>
    obtain ⟨_, move⟩ := Option.ite_none_right_eq_some.mp move
    cases Option.some.inj move
    exact inv.goTo Iff.rfl
  | complete =>
    obtain ⟨threads, run, rfl⟩ := Halt.map_toOption_eq_some.mp move
    exact inv.complete timely run

/-- In a run that makes no completion before the last one is taken, all are counted. -/
theorem completions_counted (reached : Reach FreshCompletion CompletionStep CompletesTaken state) :
    CompletionsCounted state := by
  have inv : Counted state := by
    apply Reach.invariant Counted _ _ reached
    · exact fun _ fresh => Counted.start fresh
    · exact fun _ _ _ inv timely move => inv.step timely move
  exact inv.correct

end Runs

/-! ## Two runs -/

def nobodyWaits : CompletionRun :=
  { threads :=
      { flags := fun _ => ⟨true, false, false, false, false, false, false⟩
        cpu := fun _ => none
        links := ⟨id, id⟩ }
    done := 0
    waitQueue := []
    phase := fun _ => .out
    onCpu := fun _ => true
    completes := 0
    waiters := 0
    satisfied := 0 }

theorem nobodyWaits_fresh : FreshCompletion nobodyWaits :=
  ⟨fun _ => ⟨rfl, rfl⟩, rfl, rfl, fun _ => rfl, rfl, rfl, rfl⟩

/-- Two threads wait, and the second completion comes when the first is taken. -/
theorem completions_counted_both :
    ∃ state, Reach FreshCompletion CompletionStep CompletesTaken state ∧ CompletionsCounted state ∧
      state.completes = 2 ∧ state.satisfied = 2 := by
  have run : (runLabels completionStep CompletesTaken
      [.wait (.thread 1), .schedule (.thread 1), .wait (.thread 2), .schedule (.thread 2), .complete,
        .run (.thread 1), .again (.thread 1), .complete, .run (.thread 2), .again (.thread 2)]
      nobodyWaits).any (fun state => decide (state.completes = 2 ∧ state.satisfied = 2)) = true := by
    decide +kernel
  obtain ⟨state, reached, both⟩ := Reach.of_run_ends nobodyWaits_fresh run
  exact ⟨state, reached, completions_counted reached, both⟩

/-- Two threads wait and both completions come before one of them runs: the second
waiter is blocked again. -/
theorem second_completion_lost :
    ∃ state, Reach FreshCompletion CompletionStep Always state ∧ ¬CompletionsCounted state := by
  have run : (runLabels completionStep Always
      [.wait (.thread 1), .schedule (.thread 1), .wait (.thread 2), .schedule (.thread 2), .complete,
        .complete, .run (.thread 1), .again (.thread 1), .run (.thread 2), .again (.thread 2)]
      nobodyWaits).any (fun state => decide (state.waiters = 2 ∧ state.completes = 2 ∧
        state.phase (.thread 2) = .blocked ∧
          (state.threads.flags (.thread 2)).runnable = false)) = true := by
    decide +kernel
  obtain ⟨state, reached, waiters, completes, phase, stopped⟩ := Reach.of_run_ends nobodyWaits_fresh run
  refine ⟨state, reached, fun counted => ?_⟩
  have runs := counted.woken (by omega) (.thread 2) (by simp [phase])
  rw [stopped] at runs
  cases runs

end Stardust.Sched
