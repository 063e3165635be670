import Mathlib.Data.List.Nodup
import Mathlib.Logic.Function.Basic
import Stardust.Lib.Reach

/-! # The memory of a thread

A thread has a struct from the heap, a stack of its own unless the creator brings one,
and a page for its floating-point registers.  `sched_reap_dead` gives back the first
two.  A block is named by the number of allocations before it. -/
set_option autoImplicit false
namespace Stardust.Sched

open Stardust.Lib

/-- The calls of `xmalloc`, `alloc_pages`, `xfree` and `free_pages` so far. -/
structure Memory where
  allocations : Nat
  freed : List Nat

structure ThreadStruct where
  /-- the block of the struct -/
  self : Nat
  stack : Nat
  stackAllocated : Bool
  fpregs : Nat
  cpu : Option Nat
  running : Bool
  dying : Bool

/-! ## The code -/

/-- An allocation that succeeds if `ok`. -/
def Memory.alloc (mem : Memory) (ok : Bool) : Option Nat × Memory :=
  if ok then (some mem.allocations, { mem with allocations := mem.allocations + 1 }) else (none, mem)

def Memory.free (mem : Memory) (block : Nat) : Memory := { mem with freed := mem.freed ++ [block] }

/-- Which allocations of a thread succeed. -/
structure Allocs where
  struct : Bool
  stack : Bool
  fpregs : Bool
  deriving DecidableEq

/-- `arch_create_thread`: the struct and its stack. -/
def archCreateThread (mem : Memory) (stack : Option Nat) (ok : Allocs) :
    Option (Nat × Nat × Bool) × Memory :=
  match mem.alloc ok.struct with
  | (none, mem) => (none, mem)
  | (some self, mem) =>
    match stack with
    | some given => (some (self, given, false), mem)
    | none =>
      match mem.alloc ok.stack with
      | (none, mem) => (none, mem.free self)
      | (some own, mem) => (some (self, own, true), mem)

/-- `create_thread_with_id_stack` -/
def createThreadWithIdStack (mem : Memory) (stack : Option Nat) (ok : Allocs) :
    Option ThreadStruct × Memory :=
  match archCreateThread mem stack ok with
  | (none, mem) => (none, mem)
  | (some (self, stack, stackAllocated), mem) =>
    match mem.alloc ok.fpregs with
    | (none, mem) => (none, mem)
    | (some fpregs, mem) =>
      (some ⟨self, stack, stackAllocated, fpregs, none, false, false⟩, mem)

structure MemRun where
  mem : Memory
  /-- `thread_list` -/
  threads : Nat → Option ThreadStruct
  deadQueue : List Nat
  /-- ghost: the number of threads made -/
  made : Nat
  /-- ghost: what was allocated for each thread -/
  blocks : Nat → List Nat
  /-- ghost -/
  reaped : List Nat

def MemRun.setThread (state : MemRun) (t : Nat) (thread : ThreadStruct) : MemRun :=
  { state with threads := Function.update state.threads t (some thread) }

/-- What was allocated for a thread. -/
def ThreadStruct.blocks (thread : ThreadStruct) : List Nat :=
  thread.self :: ((if thread.stackAllocated then [thread.stack] else []) ++ [thread.fpregs])

/-- What `sched_reap_dead` on the processor `cpu` does with one entry of the dead queue. -/
def reapThread (cpu : Nat) (state : MemRun) (t : Nat) : MemRun :=
  match state.threads t with
  | none => state
  | some thread =>
    if thread.dying = true ∧ thread.running = false ∧ thread.cpu = some cpu then
      let mem := if thread.stackAllocated then state.mem.free thread.stack else state.mem
      { state with
        mem := mem.free thread.self
        threads := Function.update state.threads t none
        deadQueue := state.deadQueue.erase t
        reaped := state.reaped ++ [t] }
    else state

def schedReapDead (cpu : Nat) (state : MemRun) : MemRun :=
  state.deadQueue.foldl (reapThread cpu) state

inductive MemOp
  | create (stack : Option Nat) (ok : Allocs)
  /-- `schedule` switches to the thread on the processor -/
  | run (t cpu : Nat)
  /-- `exit_thread` -/
  | exit (t : Nat)
  /-- `sched_switch_thread_in(prev)` -/
  | switchIn (prev : Nat)
  | reap (cpu : Nat)
  deriving DecidableEq

def memStep (state : MemRun) : MemOp → Option MemRun
  | .create stack ok =>
    match createThreadWithIdStack state.mem stack ok with
    | (none, mem) => some { state with mem := mem }
    | (some thread, mem) => some { state with
        mem := mem
        threads := Function.update state.threads state.made (some thread)
        made := state.made + 1
        blocks := Function.update state.blocks state.made thread.blocks }
  | .run t cpu =>
    match state.threads t with
    | none => none
    | some thread =>
      if thread.dying then none
      else some (state.setThread t { thread with running := true, cpu := some cpu })
  | .exit t =>
    match state.threads t with
    | none => none
    | some thread =>
      if thread.running = true ∧ thread.dying = false then
        some { state.setThread t { thread with dying := true } with
          deadQueue := state.deadQueue ++ [t] }
      else none
  | .switchIn prev =>
    match state.threads prev with
    | none => none
    | some thread => some (state.setThread prev { thread with running := false })
  | .reap cpu => some (schedReapDead cpu state)

abbrev MemStep (before : MemRun) (op : MemOp) (after : MemRun) : Prop := memStep before op = some after

/-- No thread has been made. -/
structure FreshMem (state : MemRun) : Prop where
  freed : state.mem.freed = []
  threads : ∀ t, state.threads t = none
  deadQueue : state.deadQueue = []
  made : state.made = 0
  blocks : ∀ t, state.blocks t = []
  reaped : state.reaped = []

/-- Everything that was allocated for the threads reaped has been freed once. -/
def Conserved (state : MemRun) : Prop :=
  ∀ t ∈ state.reaped, ∀ block ∈ state.blocks t, state.mem.freed.count block = 1

/-! ## What the calls allocate and free -/

/-- From `before` to `after` only new blocks were freed. -/
structure Memory.Grown (before after : Memory) : Prop where
  allocations : before.allocations ≤ after.allocations
  freed : ∃ extra, after.freed = before.freed ++ extra ∧
    ∀ block ∈ extra, before.allocations ≤ block ∧ block < after.allocations

section Calls
variable {mem after : Memory} {stack : Option Nat} {ok : Allocs} {block : Nat}

theorem Memory.Grown.refl (mem : Memory) : mem.Grown mem :=
  ⟨Nat.le_refl _, [], by simp, by simp⟩

theorem Memory.Grown.count (grown : mem.Grown after) (old : block < mem.allocations) :
    after.freed.count block = mem.freed.count block := by
  obtain ⟨extra, freed, new⟩ := grown.freed
  have none : extra.count block = 0 := by
    apply List.count_eq_zero.mpr
    intro member
    exact Nat.not_le_of_lt old (new block member).1
  rw [freed, List.count_append, none, Nat.add_zero]

/-- The blocks of a new thread are new and differ. -/
structure MadeFor (before after : Memory) (thread : ThreadStruct) : Prop where
  freed : after.freed = before.freed
  nodup : thread.blocks.Nodup
  new : ∀ block ∈ thread.blocks, before.allocations ≤ block ∧ block < after.allocations

theorem ThreadStruct.mem_blocks {thread : ThreadStruct} {block : Nat} :
    block ∈ thread.blocks ↔ block = thread.self ∨
      (thread.stackAllocated = true ∧ block = thread.stack) ∨ block = thread.fpregs := by
  cases own : thread.stackAllocated <;> simp [ThreadStruct.blocks, own]

theorem createThreadWithIdStack_grown {result : Option ThreadStruct}
    (run : createThreadWithIdStack mem stack ok = (result, after)) :
    mem.Grown after ∧ ∀ thread, result = some thread → MadeFor mem after thread := by
  obtain ⟨struct, ownStack, fpregs⟩ := ok
  unfold createThreadWithIdStack archCreateThread Memory.alloc at run
  cases struct with
  | false =>
    cases run
    exact ⟨.refl mem, nofun⟩
  | true =>
    cases stack with
    | some given =>
      cases fpregs with
      | false =>
        cases run
        exact ⟨⟨Nat.le_succ _, [], by simp, by simp⟩, nofun⟩
      | true =>
        cases run
        refine ⟨⟨Nat.le_add_right _ 2, [], by simp, by simp⟩, ?_⟩
        rintro _ ⟨⟩
        refine ⟨rfl, ?_, ?_⟩
        · simp [ThreadStruct.blocks]
        · intro block owned
          obtain rfl | ⟨own, rfl⟩ | rfl := ThreadStruct.mem_blocks.1 owned
          · dsimp only
            omega
          · cases own
          · dsimp only
            omega
    | none =>
      cases ownStack with
      | false =>
        cases run
        exact ⟨⟨Nat.le_succ _, [mem.allocations], rfl, by simp [Memory.free]⟩, nofun⟩
      | true =>
        cases fpregs with
        | false =>
          cases run
          exact ⟨⟨Nat.le_add_right _ 2, [], by simp, by simp⟩, nofun⟩
        | true =>
          cases run
          refine ⟨⟨Nat.le_add_right _ 3, [], by simp, by simp⟩, ?_⟩
          rintro _ ⟨⟩
          refine ⟨rfl, ?_, ?_⟩
          · simp [ThreadStruct.blocks]
            omega
          · intro block owned
            obtain rfl | ⟨_, rfl⟩ | rfl := ThreadStruct.mem_blocks.1 owned <;> dsimp only <;> omega

end Calls

/-! ## The invariant -/

/-- Of the blocks of a reaped thread all are freed once but the page for the
floating-point registers. -/
structure Leaks (freed blocks : List Nat) (thread : ThreadStruct) : Prop where
  blocks : blocks = thread.blocks
  self : freed.count thread.self = 1
  stack : thread.stackAllocated = true → freed.count thread.stack = 1
  fpregs : freed.count thread.fpregs = 0

structure MemHold (state : MemRun) : Prop where
  live : ∀ t thread, state.threads t = some thread → state.blocks t = thread.blocks ∧
    ∀ block ∈ state.blocks t, state.mem.freed.count block = 0
  known : ∀ t, ∀ block ∈ state.blocks t, block < state.mem.allocations
  freed : ∀ block ∈ state.mem.freed, block < state.mem.allocations
  nodup : ∀ t, (state.blocks t).Nodup
  apart : ∀ t u, t ≠ u → ∀ block ∈ state.blocks t, block ∉ state.blocks u
  made : ∀ t, state.made ≤ t → state.threads t = none ∧ state.blocks t = [] ∧ t ∉ state.reaped
  reaped : ∀ t ∈ state.reaped, state.threads t = none ∧
    ∃ thread, Leaks state.mem.freed (state.blocks t) thread

section Runs
variable {state after : MemRun} {op : MemOp} {t : Nat} {thread : ThreadStruct}

theorem Leaks.congr {freed later blocks : List Nat} (leaks : Leaks freed blocks thread)
    (same : ∀ block ∈ blocks, later.count block = freed.count block) : Leaks later blocks thread := by
  rw [leaks.blocks] at same
  refine ⟨leaks.blocks, ?_, fun own => ?_, ?_⟩
  · rw [same _ (by simp [ThreadStruct.blocks])]
    exact leaks.self
  · rw [same _ (by simp [ThreadStruct.blocks, own])]
    exact leaks.stack own
  · rw [same _ (by simp [ThreadStruct.blocks])]
    exact leaks.fpregs

theorem MemHold.start (fresh : FreshMem state) : MemHold state := by
  obtain ⟨freed, threads, _, _, blocks, reaped⟩ := fresh
  refine ⟨?_, ?_, ?_, ?_, ?_, ?_, ?_⟩
  · simp [threads]
  · simp [blocks]
  · simp [freed]
  · simp [blocks]
  · simp [blocks]
  · simp [threads, blocks, reaped]
  · simp [reaped]

/-- Memory that grows elsewhere. -/
theorem MemHold.grown (inv : MemHold state) {mem : Memory} (grown : state.mem.Grown mem) :
    MemHold { state with mem := mem } := by
  have count : ∀ u, ∀ block ∈ state.blocks u, mem.freed.count block = state.mem.freed.count block :=
    fun u block member => grown.count (inv.known u block member)
  refine ⟨fun u thread here => ?_, fun u block member => ?_, fun block member => ?_, inv.nodup,
    inv.apart, inv.made, fun u gone => ?_⟩
  · refine ⟨(inv.live u thread here).1, fun block member => ?_⟩
    exact (count u block member).trans ((inv.live u thread here).2 block member)
  · exact Nat.lt_of_lt_of_le (inv.known u block member) grown.allocations
  · obtain ⟨extra, freed, new⟩ := grown.freed
    rw [freed] at member
    rcases List.mem_append.mp member with old | later
    · exact Nat.lt_of_lt_of_le (inv.freed block old) grown.allocations
    · exact (new block later).2
  · obtain ⟨none, thread, leaks⟩ := inv.reaped u gone
    exact ⟨none, thread, leaks.congr (count u)⟩

theorem MemHold.ne_of_unmade (inv : MemHold state) (here : state.threads t = some thread) {u : Nat}
    (later : state.made ≤ u) : u ≠ t := by
  rintro rfl
  rw [(inv.made u later).1] at here
  cases here

/-- A new thread with its blocks. -/
theorem MemHold.added (inv : MemHold state) {mem : Memory} (grown : state.mem.Grown mem)
    (made : MadeFor state.mem mem thread) :
    MemHold { state with
      mem := mem
      threads := Function.update state.threads state.made (some thread)
      made := state.made + 1
      blocks := Function.update state.blocks state.made thread.blocks } := by
  have larger := inv.grown grown
  have unused := inv.made state.made (Nat.le_refl _)
  have fresh : ∀ u, ∀ block ∈ state.blocks u, block ∉ thread.blocks := by
    intro u block member new
    exact Nat.not_le_of_lt (inv.known u block member) (made.new block new).1
  refine ⟨fun u found here => ?_, fun u block member => ?_, larger.freed, fun u => ?_,
    fun u v this block member => ?_, fun u later => ?_, fun u gone => ?_⟩
  · dsimp only at here ⊢
    by_cases this : u = state.made
    · rw [this, Function.update_self] at here
      cases here
      rw [this, Function.update_self]
      refine ⟨rfl, fun block member => ?_⟩
      rw [made.freed]
      apply List.count_eq_zero.mpr
      intro freed
      exact Nat.not_le_of_lt (inv.freed block freed) (made.new block member).1
    · rw [Function.update_of_ne this] at here ⊢
      exact larger.live u found here
  · dsimp only at member
    by_cases this : u = state.made
    · rw [this, Function.update_self] at member
      exact (made.new block member).2
    · rw [Function.update_of_ne this] at member
      exact larger.known u block member
  · dsimp only
    by_cases this : u = state.made
    · rw [this, Function.update_self]
      exact made.nodup
    · rw [Function.update_of_ne this]
      exact inv.nodup u
  · dsimp only at member ⊢
    by_cases first : u = state.made
    · rw [first, Function.update_self] at member
      rw [Function.update_of_ne (fun same => this (first.trans same.symm))]
      exact fun old => fresh v block old member
    · rw [Function.update_of_ne first] at member
      by_cases second : v = state.made
      · rw [second, Function.update_self]
        exact fresh u block member
      · rw [Function.update_of_ne second]
        exact inv.apart u v this block member
  · dsimp only
    have this : u ≠ state.made := fun same => Nat.not_succ_le_self _ (same ▸ later)
    rw [Function.update_of_ne this, Function.update_of_ne this]
    exact inv.made u (Nat.le_of_succ_le later)
  · dsimp only
    have this : u ≠ state.made := fun same => unused.2.2 (same ▸ gone)
    rw [Function.update_of_ne this, Function.update_of_ne this]
    exact larger.reaped u gone

/-- The struct changes, its blocks do not. -/
theorem MemHold.setThread (inv : MemHold state) (here : state.threads t = some thread)
    {changed : ThreadStruct} (same : changed.blocks = thread.blocks) :
    MemHold (state.setThread t changed) := by
  refine ⟨fun u found present => ?_, inv.known, inv.freed, inv.nodup, inv.apart, fun u later => ?_,
    fun u gone => ?_⟩
  · by_cases this : u = t
    · simp only [MemRun.setThread, this, Function.update_self] at present
      cases present
      have before := inv.live t thread here
      rw [this]
      exact ⟨before.1.trans same.symm, before.2⟩
    · simp only [MemRun.setThread, Function.update_of_ne this] at present
      exact inv.live u found present
  · simp only [MemRun.setThread, Function.update_of_ne (inv.ne_of_unmade here later)]
    exact inv.made u later
  · have before := inv.reaped u gone
    have this : u ≠ t := by
      rintro rfl
      rw [before.1] at here
      cases here
    simp only [MemRun.setThread, Function.update_of_ne this]
    exact before

/-- What the reaper frees. -/
def ThreadStruct.released (thread : ThreadStruct) : List Nat :=
  (if thread.stackAllocated then [thread.stack] else []) ++ [thread.self]

theorem ThreadStruct.released_subset : thread.released ⊆ thread.blocks := by
  intro block member
  unfold ThreadStruct.released at member
  unfold ThreadStruct.blocks
  cases own : thread.stackAllocated with
  | true =>
    rw [own] at member
    simp only [if_true, List.cons_append, List.nil_append, List.mem_cons] at member ⊢
    rcases member with stack | self | none
    · exact Or.inr (Or.inl stack)
    · exact Or.inl self
    · cases none
  | false =>
    rw [own] at member
    simp only [Bool.false_eq_true, if_false, List.nil_append, List.mem_singleton] at member
    exact List.mem_cons.mpr (Or.inl member)

/-- The struct and an own stack are freed, the page for the registers is not. -/
theorem released_leaks (nodup : thread.blocks.Nodup) {freed blocks : List Nat}
    (same : blocks = thread.blocks) (none : ∀ block ∈ thread.blocks, freed.count block = 0) :
    Leaks (freed ++ thread.released) blocks thread := by
  have count : ∀ block ∈ thread.blocks,
      (freed ++ thread.released).count block = thread.released.count block := by
    intro block member
    rw [List.count_append, none block member, Nat.zero_add]
  unfold ThreadStruct.blocks at nodup
  refine ⟨same, ?_, fun own => ?_, ?_⟩
  · rw [count _ (by simp [ThreadStruct.blocks]), ThreadStruct.released]
    cases own : thread.stackAllocated with
    | true =>
      rw [own] at nodup
      have apart : thread.stack ≠ thread.self := by
        rintro same
        simp [same] at nodup
      simp [apart]
    | false => simp
  · rw [count _ (by simp [ThreadStruct.blocks, own]), ThreadStruct.released, own]
    rw [own] at nodup
    have apart : thread.self ≠ thread.stack := by
      rintro same
      simp [same] at nodup
    simp [apart]
  · rw [count _ (by simp [ThreadStruct.blocks]), ThreadStruct.released]
    apply List.count_eq_zero.mpr
    cases own : thread.stackAllocated with
    | true =>
      rw [own] at nodup
      simp at nodup ⊢
      exact ⟨fun same => nodup.2 same.symm, fun same => nodup.1.2 same.symm⟩
    | false =>
      rw [own] at nodup
      simp at nodup ⊢
      exact fun same => nodup same.symm

theorem reapThread_mem (mem : Memory) :
    (if thread.stackAllocated = true then mem.free thread.stack else mem).free thread.self =
      { mem with freed := mem.freed ++ thread.released } := by
  cases own : thread.stackAllocated with
  | true => simp [Memory.free, ThreadStruct.released, own]
  | false => simp [Memory.free, ThreadStruct.released, own]

/-- What is freed for one thread leaves the blocks of the others alone. -/
theorem MemHold.count_released (inv : MemHold state) (blocks : state.blocks t = thread.blocks) {u : Nat}
    (this : u ≠ t) : ∀ block ∈ state.blocks u,
      (state.mem.freed ++ thread.released).count block = state.mem.freed.count block := by
  intro block member
  have kept : thread.released.count block = 0 := by
    apply List.count_eq_zero.mpr
    intro released
    have mine : block ∈ state.blocks t := by
      rw [blocks]
      exact ThreadStruct.released_subset released
    exact inv.apart u t this block member mine
  rw [List.count_append, kept, Nat.add_zero]

theorem MemHold.reaps (inv : MemHold state) (here : state.threads t = some thread) :
    MemHold { state with
      mem := { state.mem with freed := state.mem.freed ++ thread.released }
      threads := Function.update state.threads t none
      deadQueue := state.deadQueue.erase t
      reaped := state.reaped ++ [t] } := by
  obtain ⟨blocks, unfreed⟩ := inv.live t thread here
  have nodup := inv.nodup t
  rw [blocks] at nodup unfreed
  refine ⟨fun u found present => ?_, inv.known, fun block member => ?_, inv.nodup, inv.apart,
    fun u later => ?_, fun u gone => ?_⟩
  · dsimp only at present ⊢
    by_cases this : u = t
    · rw [this, Function.update_self] at present
      cases present
    · rw [Function.update_of_ne this] at present
      obtain ⟨same, zero⟩ := inv.live u found present
      exact ⟨same, fun block member => (inv.count_released blocks this block member).trans (zero block member)⟩
  · rcases List.mem_append.mp member with old | released
    · exact inv.freed block old
    · apply inv.known t
      rw [blocks]
      exact ThreadStruct.released_subset released
  · have this := inv.ne_of_unmade here later
    dsimp only
    rw [Function.update_of_ne this]
    simp [inv.made u later, this]
  · dsimp only
    by_cases this : u = t
    · rw [this, Function.update_self]
      exact ⟨rfl, thread, released_leaks nodup blocks unfreed⟩
    · rw [Function.update_of_ne this]
      have earlier : u ∈ state.reaped := by
        simpa [this] using gone
      obtain ⟨none, found, leaks⟩ := inv.reaped u earlier
      exact ⟨none, found, leaks.congr (inv.count_released blocks this)⟩

theorem MemHold.reapThread (inv : MemHold state) (cpu t : Nat) :
    MemHold (Sched.reapThread cpu state t) := by
  unfold Sched.reapThread
  split
  · exact inv
  · rename_i thread here
    split
    · simp only [reapThread_mem]
      exact inv.reaps here
    · exact inv

theorem MemHold.schedReapDead (inv : MemHold state) (cpu : Nat) :
    MemHold (Sched.schedReapDead cpu state) := by
  unfold Sched.schedReapDead
  generalize state.deadQueue = queue
  induction queue generalizing state with
  | nil => exact inv
  | cons t rest ih => exact ih (inv.reapThread cpu t)

theorem MemHold.step (inv : MemHold state) (move : memStep state op = some after) :
    MemHold after := by
  cases op with
  | create stack ok =>
    simp only [memStep] at move
    cases made : createThreadWithIdStack state.mem stack ok with
    | mk result mem =>
      obtain ⟨grown, blocks⟩ := createThreadWithIdStack_grown made
      rw [made] at move
      cases result with
      | none =>
        cases Option.some.inj move
        exact inv.grown grown
      | some thread =>
        cases Option.some.inj move
        exact inv.added grown (blocks thread rfl)
  | run t cpu =>
    simp only [memStep] at move
    split at move
    · cases move
    · rename_i thread here
      split at move
      · cases move
      · cases Option.some.inj move
        exact inv.setThread here rfl
  | exit t =>
    simp only [memStep] at move
    split at move
    · cases move
    · rename_i thread here
      obtain ⟨_, move⟩ := Option.ite_none_right_eq_some.mp move
      cases Option.some.inj move
      have dying : MemHold (state.setThread t { thread with dying := true }) := inv.setThread here rfl
      exact ⟨dying.live, dying.known, dying.freed, dying.nodup, dying.apart, dying.made, dying.reaped⟩
  | switchIn prev =>
    simp only [memStep] at move
    split at move
    · cases move
    · rename_i thread here
      cases Option.some.inj move
      exact inv.setThread here rfl
  | reap cpu =>
    cases Option.some.inj move
    exact inv.schedReapDead cpu

/-- Every thread that is reaped leaves the page for its floating-point registers behind. -/
theorem reaped_conserved_iff (reached : Reach FreshMem MemStep Always state) :
    Conserved state ↔ state.reaped = [] := by
  have inv : MemHold state := by
    apply Reach.invariant MemHold _ _ reached
    · exact fun _ fresh => MemHold.start fresh
    · exact fun _ _ _ inv _ move => inv.step move
  constructor
  · intro conserved
    apply List.eq_nil_iff_forall_not_mem.mpr
    intro t gone
    obtain ⟨_, thread, leaks⟩ := inv.reaped t gone
    have once := conserved t gone thread.fpregs (by
      rw [leaks.blocks]
      simp [ThreadStruct.blocks])
    rw [leaks.fpregs] at once
    cases once
  · intro none t gone
    rw [none] at gone
    cases gone

end Runs

/-! ## Runs of one thread -/

def memStart : MemRun :=
  { mem := ⟨0, []⟩
    threads := fun _ => none
    deadQueue := []
    made := 0
    blocks := fun _ => []
    reaped := [] }

theorem memStart_fresh : FreshMem memStart := ⟨rfl, fun _ => rfl, rfl, rfl, fun _ => rfl, rfl⟩

/-- Two threads are made, and the one that exits is reaped. -/
theorem reaped_conserved_iff_two :
    ∃ state, Reach FreshMem MemStep Always state ∧ state.reaped = [0] ∧ (state.threads 1).isSome ∧
      ¬Conserved state := by
  have run : (runLabels memStep Always [.create none ⟨true, true, true⟩, .create none ⟨true, true, true⟩,
      .run 0 0, .exit 0, .switchIn 0, .reap 0] memStart).any (fun state => decide (state.reaped = [0] ∧
        (state.threads 1).isSome)) = true := by
    decide +kernel
  obtain ⟨state, reached, reaped, other⟩ := Reach.of_run_ends memStart_fresh run
  refine ⟨state, reached, reaped, other, fun conserved => ?_⟩
  have none := (reaped_conserved_iff reached).mp conserved
  rw [reaped] at none
  cases none

/-- A thread is made, runs, exits and is reaped: three allocations, two frees. -/
theorem reaped_thread_leaks :
    ∃ state, Reach FreshMem MemStep Always state ∧ ¬Conserved state := by
  have run : (runLabels memStep Always [.create none ⟨true, true, true⟩, .run 0 0, .exit 0,
      .switchIn 0, .reap 0] memStart).any (fun state => decide (state.reaped = [0] ∧
        state.blocks 0 = [0, 1, 2] ∧ state.mem.freed = [1, 0])) = true := by
    decide +kernel
  obtain ⟨state, reached, reaped, blocks, freed⟩ := Reach.of_run_ends memStart_fresh run
  refine ⟨state, reached, fun conserved => ?_⟩
  have once := conserved 0 (by simp [reaped]) 2 (by simp [blocks])
  simp [freed] at once

end Stardust.Sched
