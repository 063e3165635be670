import Stardust.Lib.Reach
import Stardust.Sched.Core

/-! # `schedule` on many processors

A call of `schedule` takes several steps: `pick_thread` with the lock, the check of
what was picked, the store of its `cpu`, the switch, and `sched_switch_thread_in`
on the other stack.  Between them other processors do anything to the flags. -/
set_option autoImplicit false
namespace Stardust.Sched

open Stardust.Lib

/-- Where a processor is in `schedule`; `cpu` is the local variable. -/
inductive CpuPhase
  | outside
  /-- `ready_lock` has been dropped -/
  | picked (cpu : Nat) (next : Thread)
  | checked (cpu : Nat) (next : Thread)
  /-- `next->cpu` is `cpu` -/
  | stored (next : Thread)
  /-- on the stack of the current thread, before `clear_running(prev)` -/
  | switched (prev : Thread)
  deriving DecidableEq

/-- The thread that the processor has chosen. -/
def CpuPhase.next? : CpuPhase → Option Thread
  | .outside => none
  | .picked _ next => some next
  | .checked _ next => some next
  | .stored next => some next
  | .switched _ => none

/-- The thread that it has chosen and whose `cpu` it has not stored yet. -/
def CpuPhase.pending? : CpuPhase → Option Thread
  | .outside => none
  | .picked _ next => some next
  | .checked _ next => some next
  | .stored _ => none
  | .switched _ => none

structure CpuRun where
  threads : Threads
  current : Nat → Thread
  phase : Nat → CpuPhase

inductive SchedOp
  /-- from the start of `schedule`; `up` is `cpu_state == CPU_UP` -/
  | pick (here : Nat) (up : Bool)
  | check (here : Nat)
  | store (here : Nat)
  | switch (here : Nat)
  | switchIn (here : Nat)
  | start (t : Thread)
  | block (t : Thread)
  | wake (t : Thread)
  | suspend (t : Thread)
  | wakeSuspended (t : Thread)
  | hibernate (t : Thread)
  | restore (t : Thread)
  deriving DecidableEq

def CpuRun.moveTo (state : CpuRun) (here : Nat) (phase : CpuPhase) : CpuRun :=
  { state with phase := Function.update state.phase here phase }

/-- `cpus` processors, and a limit of `threadId` nodes for the walk along the queue. -/
def schedStep (cpus threadId : Nat) (state : CpuRun) : SchedOp → Option CpuRun
  | .pick here up =>
    if state.phase here = .outside ∧ here < cpus then
      match state.threads.cpu (state.current here) with
      | none => none
      | some cpu =>
        if up then
          (pickThread threadId state.threads (state.current here) cpu here).toOption.map fun result =>
            { state.moveTo here (.picked cpu result.1) with threads := result.2 }
        else some (state.moveTo here (.picked cpu (.idle cpu)))
    else none
  | .check here =>
    match state.phase here with
    | .picked cpu next =>
      if ((state.threads.flags next).runnable = false ∧ next ≠ .idle cpu) ∨
          (state.threads.flags next).dying = true then none
      else some (state.moveTo here (.checked cpu next))
    | _ => none
  | .store here =>
    match state.phase here with
    | .checked cpu next => some { state.moveTo here (.stored next) with
        threads := if state.threads.cpu next = some cpu then state.threads
          else state.threads.setCpu next cpu }
    | _ => none
  | .switch here =>
    match state.phase here with
    | .stored next =>
      if state.current here = next then some (state.moveTo here .outside)
      else some { state.moveTo here (.switched (state.current here)) with
        current := Function.update state.current here next }
    | _ => none
  | .switchIn here =>
    match state.phase here with
    | .switched prev => some { state.moveTo here .outside with
        threads := state.threads.setFlags prev fun f => { f with running := false } }
    | _ => none
  | .start t => some { state with threads := startThread state.threads t }
  | .block t => (block state.threads t).toOption.map fun threads => { state with threads := threads }
  | .wake t => (wake state.threads t).toOption.map fun threads => { state with threads := threads }
  | .suspend t => some { state with threads := suspendThread state.threads t }
  | .wakeSuspended t => some { state with threads := wakeSuspendedThread state.threads t }
  | .hibernate t => some { state with threads := hibernate state.threads t }
  | .restore t => some { state with threads := restore state.threads t }

abbrev SchedStep (cpus threadId : Nat) (before : CpuRun) (op : SchedOp) (after : CpuRun) : Prop :=
  schedStep cpus threadId before op = some after

/-- Every processor runs a thread of its own, outside `schedule`. -/
structure FreshCpus (state : CpuRun) : Prop where
  idle : ∀ here, state.threads.cpu (.idle here) = some here
  current : ∀ here, state.threads.cpu (state.current here) = some here
  phase : ∀ here, state.phase here = .outside

/-- When a processor picks, no thread that another one has picked for the first
time, and whose `cpu` it has not stored, is RUNNABLE and no longer RUNNING. -/
def PlacedFirst (cpus : Nat) (state : CpuRun) : SchedOp → Prop
  | .pick _ _ => ∀ other < cpus, ∀ t ∈ (state.phase other).pending?, state.threads.cpu t = none →
      (state.threads.flags t).runnable = true → (state.threads.flags t).running = true
  | _ => True

instance (cpus : Nat) (state : CpuRun) (op : SchedOp) : Decidable (PlacedFirst cpus state op) := by
  cases op <;> unfold PlacedFirst <;> infer_instance

section Runs
variable {cpus threadId : Nat} {state after : CpuRun} {op : SchedOp}

/-! ## One step -/

/-- What one step can do: a part of `schedule`, or a change of flags. -/
theorem schedStep_cases (move : schedStep cpus threadId state op = some after) :
    (∃ here up cpu next threads, op = .pick here up ∧ state.phase here = .outside ∧ here < cpus ∧
      state.threads.cpu (state.current here) = some cpu ∧
      (state.threads.Eligible cpu next ∨ next = .idle here ∨ next = .idle cpu) ∧
      threads.cpu = state.threads.cpu ∧
      after = { state.moveTo here (.picked cpu next) with threads := threads }) ∨
    (∃ here cpu next, op = .check here ∧ state.phase here = .picked cpu next ∧
      after = state.moveTo here (.checked cpu next)) ∨
    (∃ here cpu next, op = .store here ∧ state.phase here = .checked cpu next ∧
      after = { state.moveTo here (.stored next) with
        threads := if state.threads.cpu next = some cpu then state.threads
          else state.threads.setCpu next cpu }) ∨
    (∃ here next, op = .switch here ∧ state.phase here = .stored next ∧
      (after = state.moveTo here .outside ∨
        after = { state.moveTo here (.switched (state.current here)) with
          current := Function.update state.current here next })) ∨
    (∃ here threads, op = .switchIn here ∧ threads.cpu = state.threads.cpu ∧
      after = { state.moveTo here .outside with threads := threads }) ∨
    (∃ threads : Threads, threads.cpu = state.threads.cpu ∧ after = { state with threads := threads }) := by
  cases op with
  | pick here up =>
    left
    obtain ⟨⟨phase, inside⟩, move⟩ := Option.ite_none_right_eq_some.mp move
    split at move
    · nomatch move
    · rename_i cpu place
      cases up with
      | true =>
        rw [if_pos rfl] at move
        obtain ⟨⟨next, threads⟩, run, rfl⟩ := Halt.map_toOption_eq_some.mp move
        obtain ⟨choice, kept, _⟩ := pickThread_ok run
        exact ⟨here, true, cpu, next, threads, rfl, phase, inside, place, by tauto, kept, rfl⟩
      | false =>
        cases Option.some.inj move
        exact ⟨here, false, cpu, .idle cpu, state.threads, rfl, phase, inside, place,
          Or.inr (Or.inr rfl), rfl, rfl⟩
  | check here =>
    right; left
    simp only [schedStep] at move
    split at move
    · rename_i cpu next phase
      obtain ⟨_, move⟩ := Option.ite_none_left_eq_some.mp move
      exact ⟨here, cpu, next, rfl, phase, (Option.some.inj move).symm⟩
    · nomatch move
  | store here =>
    right; right; left
    simp only [schedStep] at move
    split at move
    · rename_i cpu next phase
      exact ⟨here, cpu, next, rfl, phase, (Option.some.inj move).symm⟩
    · nomatch move
  | switch here =>
    right; right; right; left
    simp only [schedStep] at move
    split at move
    · rename_i next phase
      refine ⟨here, next, rfl, phase, ?_⟩
      split at move
      · exact Or.inl (Option.some.inj move).symm
      · exact Or.inr (Option.some.inj move).symm
    · nomatch move
  | switchIn here =>
    right; right; right; right; left
    simp only [schedStep] at move
    split at move
    · rename_i prev _
      exact ⟨here, state.threads.setFlags prev fun f => { f with running := false }, rfl, rfl,
        (Option.some.inj move).symm⟩
    · nomatch move
  | start t =>
    right; right; right; right; right
    exact ⟨startThread state.threads t, rfl, (Option.some.inj move).symm⟩
  | block t =>
    right; right; right; right; right
    obtain ⟨threads, run, rfl⟩ := Halt.map_toOption_eq_some.mp move
    exact ⟨threads, (block_ok run).2.1, rfl⟩
  | wake t =>
    right; right; right; right; right
    obtain ⟨threads, run, rfl⟩ := Halt.map_toOption_eq_some.mp move
    exact ⟨threads, (wake_ok run).1, rfl⟩
  | suspend t =>
    right; right; right; right; right
    exact ⟨suspendThread state.threads t, suspendThread_cpu, (Option.some.inj move).symm⟩
  | wakeSuspended t =>
    right; right; right; right; right
    exact ⟨wakeSuspendedThread state.threads t, wakeSuspendedThread_cpu, (Option.some.inj move).symm⟩
  | hibernate t =>
    right; right; right; right; right
    exact ⟨hibernate state.threads t, hibernate_cpu, (Option.some.inj move).symm⟩
  | restore t =>
    right; right; right; right; right
    exact ⟨restore state.threads t, restore_cpu, (Option.some.inj move).symm⟩

/-! ## The invariant -/

/-- A processor's threads have its number in `cpu`; only a thread that was picked
for the first time has none, and one processor has picked it. -/
structure Placed (cpus : Nat) (state : CpuRun) : Prop where
  idle : ∀ here, state.threads.cpu (.idle here) = some here
  current : ∀ here, state.threads.cpu (state.current here) = some here
  stored : ∀ here next, state.phase here = .stored next → state.threads.cpu next = some here
  pending : ∀ here cpu next,
    state.phase here = .picked cpu next ∨ state.phase here = .checked cpu next →
      cpu = here ∧ here < cpus ∧
        (state.threads.cpu next = some here ∨ state.threads.cpu next = none)
  first : ∀ here other next, (state.phase here).pending? = some next →
    (state.phase other).pending? = some next → state.threads.cpu next = none → here = other

theorem pending?_eq_some {phase : CpuPhase} {next : Thread} (pending : phase.pending? = some next) :
    ∃ cpu, phase = .picked cpu next ∨ phase = .checked cpu next := by
  cases phase with
  | picked cpu thread =>
    cases pending
    exact ⟨cpu, Or.inl rfl⟩
  | checked cpu thread =>
    cases pending
    exact ⟨cpu, Or.inr rfl⟩
  | outside => nomatch pending
  | stored thread => nomatch pending
  | switched prev => nomatch pending

theorem Placed.start (fresh : FreshCpus state) : Placed cpus state := by
  obtain ⟨idle, current, phase⟩ := fresh
  refine ⟨idle, current, ?_, ?_, ?_⟩
  · intro here next now
    rw [phase here] at now
    nomatch now
  · intro here cpu next now
    rw [phase here] at now
    rcases now with now | now <;> nomatch now
  · intro here other next now
    rw [phase here] at now
    nomatch now

/-- A phase after a move is the new one, or another processor's old one. -/
theorem cpuPhase_moved {here other : Nat} {next phase : CpuPhase}
    (now : Function.update state.phase here next other = phase) :
    (other = here ∧ next = phase) ∨ (other ≠ here ∧ state.phase other = phase) := by
  by_cases same : other = here
  · rw [same, Function.update_self] at now
    exact Or.inl ⟨same, now⟩
  · rw [Function.update_of_ne same] at now
    exact Or.inr ⟨same, now⟩

/-- A move to a phase in which nothing is chosen, with any change of flags. -/
theorem Placed.flags (inv : Placed cpus state) {threads : Threads}
    (kept : threads.cpu = state.threads.cpu) : Placed cpus { state with threads := threads } := by
  refine ⟨?_, ?_, ?_, ?_, ?_⟩
  · intro here
    rw [kept]
    exact inv.idle here
  · intro here
    rw [kept]
    exact inv.current here
  · intro here next now
    rw [kept]
    exact inv.stored here next now
  · intro here cpu next now
    rw [kept]
    exact inv.pending here cpu next now
  · intro here other next one two
    rw [kept]
    exact inv.first here other next one two

theorem Placed.moved (inv : Placed cpus state) {here : Nat} {phase : CpuPhase}
    (stored : ∀ next, phase = .stored next → state.threads.cpu next = some here)
    (pending : ∀ cpu next, phase = .picked cpu next ∨ phase = .checked cpu next →
      cpu = here ∧ here < cpus ∧ (state.threads.cpu next = some here ∨ state.threads.cpu next = none))
    (first : ∀ other next, other ≠ here → phase.pending? = some next →
      (state.phase other).pending? = some next → state.threads.cpu next ≠ none) :
    Placed cpus (state.moveTo here phase) := by
  refine ⟨inv.idle, inv.current, ?_, ?_, ?_⟩
  · intro other next now
    rcases cpuPhase_moved now with ⟨rfl, this⟩ | ⟨_, before⟩
    · exact stored next this
    · exact inv.stored other next before
  · intro other cpu next now
    have either : (other = here ∧ (phase = .picked cpu next ∨ phase = .checked cpu next)) ∨
        (state.phase other = .picked cpu next ∨ state.phase other = .checked cpu next) := by
      rcases now with now | now
      · rcases cpuPhase_moved now with ⟨same, this⟩ | ⟨_, before⟩ <;> tauto
      · rcases cpuPhase_moved now with ⟨same, this⟩ | ⟨_, before⟩ <;> tauto
    rcases either with ⟨rfl, this⟩ | before
    · exact pending cpu next this
    · exact inv.pending other cpu next before
  · intro one two next firstNow secondNow unplaced
    by_cases sameOne : one = here
    · by_cases sameTwo : two = here
      · rw [sameOne, sameTwo]
      · rw [sameOne] at firstNow
        simp only [CpuRun.moveTo, Function.update_self] at firstNow
        simp only [CpuRun.moveTo, Function.update_of_ne sameTwo] at secondNow
        exact absurd unplaced (first two next sameTwo firstNow secondNow)
    · simp only [CpuRun.moveTo, Function.update_of_ne sameOne] at firstNow
      by_cases sameTwo : two = here
      · rw [sameTwo] at secondNow
        simp only [CpuRun.moveTo, Function.update_self] at secondNow
        exact absurd unplaced (first one next sameOne secondNow firstNow)
      · simp only [CpuRun.moveTo, Function.update_of_ne sameTwo] at secondNow
        exact inv.first one two next firstNow secondNow unplaced

theorem Placed.pick (inv : Placed cpus state) {here cpu : Nat} {next : Thread} {up : Bool}
    (allowed : PlacedFirst cpus state (.pick here up)) (inside : here < cpus)
    (place : state.threads.cpu (state.current here) = some cpu)
    (choice : state.threads.Eligible cpu next ∨ next = .idle here ∨ next = .idle cpu) :
    Placed cpus (state.moveTo here (.picked cpu next)) := by
  have same : cpu = here := Option.some.inj (place.symm.trans (inv.current here))
  have home : state.threads.cpu next = some here ∨
      state.threads.cpu next = none ∧ state.threads.Eligible cpu next := by
    rcases choice with eligible | rfl | rfl
    · rcases eligible.2.2 with mine | unplaced
      · exact Or.inl (same ▸ mine)
      · exact Or.inr ⟨unplaced, eligible⟩
    · exact Or.inl (inv.idle here)
    · rw [same]
      exact Or.inl (inv.idle here)
  refine inv.moved nofun ?_ ?_
  · intro other thread now
    have is : other = cpu ∧ thread = next := by
      rcases now with now | now <;> cases now
      exact ⟨rfl, rfl⟩
    obtain ⟨rfl, rfl⟩ := is
    exact ⟨same, inside, home.imp_right And.left⟩
  · intro other thread different now pending unplaced
    cases now
    rcases home with placed | ⟨_, eligible⟩
    · rw [placed] at unplaced
      nomatch unplaced
    · -- the other processor's pick would be RUNNABLE and not RUNNING
      obtain ⟨otherCpu, phase⟩ := pending?_eq_some pending
      obtain ⟨_, bound, _⟩ := inv.pending other otherCpu next phase
      have running := allowed other bound next pending unplaced eligible.2.1
      rw [eligible.1] at running
      nomatch running

theorem Placed.store (inv : Placed cpus state) {here cpu : Nat} {next : Thread}
    (phase : state.phase here = .checked cpu next) :
    Placed cpus { state.moveTo here (.stored next) with
      threads := if state.threads.cpu next = some cpu then state.threads
        else state.threads.setCpu next cpu } := by
  obtain ⟨same, _, home⟩ := inv.pending here cpu next (Or.inr phase)
  have mine : (state.phase here).pending? = some next := by rw [phase]; rfl
  by_cases placed : state.threads.cpu next = some cpu
  · rw [if_pos placed]
    refine inv.moved ?_ (fun _ _ now => ?_) (fun _ _ _ now => nomatch now)
    · intro thread now
      cases now
      exact same ▸ placed
    · rcases now with now | now <;> nomatch now
  · rw [if_neg placed]
    have unplaced : state.threads.cpu next = none := home.resolve_left (same ▸ placed)
    -- whoever has a `cpu` keeps it, and nobody else has picked this thread
    have kept : ∀ thread cpu, state.threads.cpu thread = some cpu →
        (state.threads.setCpu next here).cpu thread = some cpu := by
      intro thread its has
      have different : thread ≠ next := by
        intro equal
        rw [equal, unplaced] at has
        nomatch has
      exact (Function.update_of_ne different ..).trans has
    rw [same]
    refine ⟨fun other => kept _ _ (inv.idle other), fun other => kept _ _ (inv.current other), ?_, ?_, ?_⟩
    · intro other thread now
      rcases cpuPhase_moved now with ⟨rfl, this⟩ | ⟨_, before⟩
      · cases this
        exact Function.update_self ..
      · exact kept _ _ (inv.stored other thread before)
    · intro other its thread now
      have before : other ≠ here ∧
          (state.phase other = .picked its thread ∨ state.phase other = .checked its thread) := by
        rcases now with now | now
        · rcases cpuPhase_moved now with ⟨_, this⟩ | ⟨different, before⟩
          · nomatch this
          · exact ⟨different, Or.inl before⟩
        · rcases cpuPhase_moved now with ⟨_, this⟩ | ⟨different, before⟩
          · nomatch this
          · exact ⟨different, Or.inr before⟩
      obtain ⟨is, bound, itsHome⟩ := inv.pending other its thread before.2
      have apart : thread ≠ next := by
        intro equal
        have its : (state.phase other).pending? = some next := by
          rcases before.2 with now | now <;> rw [now, equal] <;> rfl
        exact before.1 (inv.first other here next its mine unplaced)
      refine ⟨is, bound, ?_⟩
      simpa [Threads.setCpu, apart] using itsHome
    · intro one two thread firstNow secondNow free
      by_cases sameOne : one = here
      · rw [sameOne] at firstNow
        simp only [CpuRun.moveTo, Function.update_self] at firstNow
        nomatch firstNow
      · by_cases sameTwo : two = here
        · rw [sameTwo] at secondNow
          simp only [CpuRun.moveTo, Function.update_self] at secondNow
          nomatch secondNow
        · simp only [CpuRun.moveTo, Function.update_of_ne sameOne] at firstNow
          simp only [CpuRun.moveTo, Function.update_of_ne sameTwo] at secondNow
          have apart : thread ≠ next := by
            intro equal
            rw [equal] at firstNow
            exact sameOne (inv.first one here next firstNow mine unplaced)
          apply inv.first one two thread firstNow secondNow
          simpa [Threads.setCpu, apart] using free

/-- A move to a phase without a choice. -/
theorem Placed.leave (inv : Placed cpus state) {here : Nat} {phase : CpuPhase}
    (none : phase.next? = none) : Placed cpus (state.moveTo here phase) := by
  refine inv.moved ?_ ?_ ?_
  · intro next now
    rw [now] at none
    nomatch none
  · intro cpu next now
    rcases now with now | now <;> rw [now] at none <;> nomatch none
  · intro other next _ now
    obtain ⟨cpu, now⟩ := pending?_eq_some now
    rcases now with now | now <;> rw [now] at none <;> nomatch none

theorem Placed.step (inv : Placed cpus state) (allowed : PlacedFirst cpus state op)
    (move : SchedStep cpus threadId state op after) : Placed cpus after := by
  rcases schedStep_cases move with
    ⟨here, up, cpu, next, threads, rfl, phase, inside, place, choice, kept, rfl⟩ |
    ⟨here, cpu, next, rfl, phase, rfl⟩ | ⟨here, cpu, next, rfl, phase, rfl⟩ |
    ⟨here, next, rfl, phase, rfl | rfl⟩ | ⟨here, threads, rfl, kept, rfl⟩ | ⟨threads, kept, rfl⟩
  · exact (inv.pick allowed inside place choice).flags kept
  · refine inv.moved nofun ?_ ?_
    · intro its thread now
      rcases now with now | now <;> cases now
      exact inv.pending here cpu next (Or.inl phase)
    · intro other thread different now pending unplaced
      cases now
      exact different (inv.first other here next pending (by rw [phase]; rfl) unplaced)
  · exact inv.store phase
  · exact inv.leave rfl
  · have placed := inv.stored here next phase
    obtain ⟨idle, _, stored, pending, first⟩ :=
      @Placed.leave _ _ inv here (.switched (state.current here)) rfl
    refine ⟨idle, fun other => ?_, stored, pending, first⟩
    by_cases this : other = here
    · simp only [this, Function.update_self]
      exact placed
    · simp only [Function.update_of_ne this]
      exact inv.current other
  · exact (inv.leave rfl).flags kept
  · exact inv.flags kept

/-! ## One processor for each thread -/

/-- A thread that a processor runs or has chosen. -/
def CpuRun.Has (state : CpuRun) (here : Nat) (t : Thread) : Prop :=
  state.current here = t ∨ (state.phase here).next? = some t

/-- No thread runs, or is chosen, on two processors. -/
def Exclusive (state : CpuRun) : Prop :=
  ∀ here other t, state.Has here t → state.Has other t → here = other

theorem Placed.has (inv : Placed cpus state) {here : Nat} {t : Thread} (has : state.Has here t) :
    state.threads.cpu t = some here ∨
      (state.phase here).pending? = some t ∧ state.threads.cpu t = none := by
  rcases has with rfl | chosen
  · exact Or.inl (inv.current here)
  · cases phase : state.phase here with
    | outside =>
      rw [phase] at chosen
      nomatch chosen
    | picked cpu next =>
      rw [phase] at chosen
      cases chosen
      exact (inv.pending here cpu t (Or.inl phase)).2.2.imp_right fun free => ⟨rfl, free⟩
    | checked cpu next =>
      rw [phase] at chosen
      cases chosen
      exact (inv.pending here cpu t (Or.inr phase)).2.2.imp_right fun free => ⟨rfl, free⟩
    | stored next =>
      rw [phase] at chosen
      cases chosen
      exact Or.inl (inv.stored here t phase)
    | switched prev =>
      rw [phase] at chosen
      nomatch chosen

theorem Placed.exclusive (inv : Placed cpus state) : Exclusive state := by
  intro here other t one two
  rcases inv.has one with mine | ⟨pending, free⟩
  · rcases inv.has two with its | ⟨_, free⟩
    · exact Option.some.inj (mine.symm.trans its)
    · rw [mine] at free
      nomatch free
  · rcases inv.has two with its | ⟨also, _⟩
    · rw [its] at free
      nomatch free
    · exact inv.first here other t pending also free

theorem schedule_exclusive (cpus threadId : Nat)
    (reached : Reach FreshCpus (SchedStep cpus threadId) (PlacedFirst cpus) state) :
    Exclusive state := by
  have inv : Placed cpus state :=
    Reach.invariant (Placed cpus) (fun _ fresh => Placed.start fresh)
      (fun _ _ _ inv allowed move => inv.step allowed move) reached
  exact inv.exclusive

end Runs

/-! ## A thread that is suspended while it is picked -/

/-- Every processor is idle and no thread has been started. -/
def idleCpus : CpuRun where
  threads := {
    flags := fun _ => ⟨false, false, false, false, false, false, false⟩
    cpu := fun t => match t with
      | .idle here => some here
      | .thread _ => none
    links := ⟨id, id⟩ }
  current := .idle
  phase _ := .outside

theorem idleCpus_fresh : FreshCpus idleCpus := ⟨fun _ => rfl, fun _ => rfl, fun _ => rfl⟩

/-- Processor 0 takes the thread; it is suspended and resumed after it has been
switched to, so processor 1 leaves it alone. -/
def resumedScript : List SchedOp :=
  [.start (.thread 1), .pick 0 true, .check 0, .store 0, .suspend (.thread 1), .switch 0,
    .wakeSuspended (.thread 1), .switchIn 0, .pick 1 true]

theorem schedule_exclusive_resumed :
    ∃ state, runLabels (schedStep 2 8) (PlacedFirst 2) resumedScript idleCpus = some state ∧
      Exclusive state := by
  have runs : (runLabels (schedStep 2 8) (PlacedFirst 2) resumedScript idleCpus).isSome := by
    decide +kernel
  obtain ⟨state, run⟩ := Option.isSome_iff_exists.mp runs
  exact ⟨state, run, schedule_exclusive 2 8 (Reach.of_runLabels (.start idleCpus_fresh) run)⟩

/-- Suspended and resumed before processor 0 has stored its `cpu`, the thread is
picked by processor 1 too. -/
theorem picked_thread_picked_again :
    ∃ state, Reach FreshCpus (SchedStep 2 8) Always state ∧ ¬Exclusive state := by
  have facts : (runLabels (schedStep 2 8) Always [.start (.thread 1), .pick 0 true, .check 0,
      .suspend (.thread 1), .wakeSuspended (.thread 1), .pick 1 true, .check 1] idleCpus).any
        fun state => decide ((state.phase 0).next? = some (.thread 1) ∧
          (state.phase 1).next? = some (.thread 1)) := by
    decide +kernel
  obtain ⟨state, reached, zero, one⟩ := Reach.of_run_ends idleCpus_fresh facts
  refine ⟨state, reached, fun exclusive => ?_⟩
  nomatch exclusive 0 1 (.thread 1) (Or.inr zero) (Or.inr one)

end Stardust.Sched
