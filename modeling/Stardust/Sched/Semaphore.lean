import Mathlib.Data.List.Nodup
import Stardust.Lib.Reach
import Stardust.Sched.Core

/-! # Semaphores

A thread that has to wait puts itself at the end of the semaphore's list and
hibernates; a post takes the first one off and restores it.  Other threads may
suspend, resume and wake any thread at any time.  The ghosts count the calls, give
each pend a ticket, and keep the threads that posts have taken off the list and
whose pend has not returned. -/
set_option autoImplicit false
namespace Stardust.Sched

open Stardust.Lib

structure Semaphore where
  value : Int
  head : List Thread

/-! ## The code

The sections that hold the mutex. -/

def semaphoreListAppend (thread : Thread) : List Thread → List Thread
  | [] => [thread]
  | cursor :: next => cursor :: semaphoreListAppend thread next

def semaphoreListDeleteFirst : List Thread → List Thread
  | [] => []
  | _ :: head => head

/-- `hibernate_thread` up to `mutex_unlock` -/
def hibernateThread (sem : Semaphore) (s : Threads) (current : Thread) : Semaphore × Threads :=
  ({ sem with head := semaphoreListAppend current sem.head }, hibernate s current)

/-- `restore_thread` -/
def restoreThread (sem : Semaphore) (s : Threads) : Except Halt (Semaphore × Threads) :=
  match sem.head with
  | [] => .error .fault
  | thread :: _ => .ok ({ sem with head := semaphoreListDeleteFirst sem.head }, restore s thread)

/-- `semaphore_pend`; true if the caller goes on to `schedule`. -/
def semaphorePend (sem : Semaphore) (s : Threads) (current : Thread) : Bool × Semaphore × Threads :=
  let sem := { sem with value := intSub sem.value 1 }
  if sem.value < 0 then (true, hibernateThread sem s current) else (false, sem, s)

def semaphorePost (sem : Semaphore) (s : Threads) : Except Halt (Semaphore × Threads) :=
  let sem := { sem with value := intAdd sem.value 1 }
  if sem.value ≤ 0 then restoreThread sem s else .ok (sem, s)

def semaphoreTryPend (sem : Semaphore) : Bool × Semaphore :=
  if sem.value ≤ 0 then (false, sem) else (true, { sem with value := intSub sem.value 1 })

/-! ## Runs -/

inductive PendPhase
  /-- in no call of `semaphore_pend` -/
  | out
  /-- hibernated, up to the return of `schedule` -/
  | waiting
  | woken
  deriving DecidableEq

structure SemRun where
  sem : Semaphore
  threads : Threads
  phase : Thread → PendPhase
  restored : List Thread
  ticket : Thread → Nat
  posts : Nat
  pends : Nat
  /-- how many pends have returned -/
  returned : Nat
  /-- `restore_thread` was reached with an empty list -/
  faulted : Bool

inductive SemOp
  | pend (t : Thread)
  | tryPend
  | post
  /-- `schedule` takes the thread -/
  | run (t : Thread)
  | finish (t : Thread)
  | suspend (t : Thread)
  | wakeSuspended (t : Thread)
  | wake (t : Thread)
  deriving DecidableEq

def semStep (state : SemRun) : SemOp → Option SemRun
  | .pend t =>
    if state.phase t = .out ∧ state.faulted = false then
      let result := semaphorePend state.sem state.threads t
      if result.1 then
        some { state with
          sem := result.2.1
          threads := result.2.2
          phase := Function.update state.phase t .waiting
          ticket := Function.update state.ticket t state.pends
          pends := state.pends + 1 }
      else some { state with
        sem := result.2.1, pends := state.pends + 1, returned := state.returned + 1 }
    else none
  | .tryPend =>
    if state.faulted = false then
      let result := semaphoreTryPend state.sem
      if result.1 then some { state with
        sem := result.2, pends := state.pends + 1, returned := state.returned + 1 }
      else some state
    else none
  | .post =>
    if state.faulted = false then
      match semaphorePost state.sem state.threads with
      | .ok (sem, threads) => some { state with
          sem := sem
          threads := threads
          restored := state.restored ++ state.sem.head.take (state.sem.head.length - sem.head.length)
          posts := state.posts + 1 }
      | .error _ => some { state with faulted := true }
    else none
  | .run t =>
    if state.phase t = .waiting ∧ (state.threads.flags t).runnable = true then
      some { state with phase := Function.update state.phase t .woken }
    else none
  | .finish t =>
    if state.phase t = .woken then
      some { state with
        phase := Function.update state.phase t .out
        restored := state.restored.erase t
        returned := state.returned + 1 }
    else none
  | .suspend t => some { state with threads := suspendThread state.threads t }
  | .wakeSuspended t => some { state with threads := wakeSuspendedThread state.threads t }
  | .wake t => (wake state.threads t).toOption.map fun threads => { state with threads := threads }

abbrev SemStep (before : SemRun) (op : SemOp) (after : SemRun) : Prop := semStep before op = some after

/-- `semaphore_create(v0)`, with no call in progress. -/
structure FreshSem (v0 : Nat) (state : SemRun) : Prop where
  initial : v0 < 2 ^ 31
  value : state.sem.value = v0
  head : state.sem.head = []
  phase : ∀ t, state.phase t = .out
  restored : state.restored = []
  posts : state.posts = 0
  pends : state.pends = 0
  returned : state.returned = 0
  faulted : state.faulted = false

/-- The value can be counted up or down in an `int`. -/
def InRange (state : SemRun) : SemOp → Prop
  | .pend _ => state.sem.value ≠ -2 ^ 31
  | .post => state.sem.value ≠ 2 ^ 31 - 1
  | _ => True

instance (state : SemRun) (op : SemOp) : Decidable (InRange state op) := by
  cases op <;> unfold InRange <;> infer_instance

structure SemCorrect (v0 : Nat) (state : SemRun) : Prop where
  value : state.sem.value = v0 + state.posts - state.pends
  length : (state.sem.head.length : Int) = max 0 (-state.sem.value)
  /-- who pended first is first on the list -/
  fifo : state.sem.head.Pairwise fun first second => state.ticket first < state.ticket second
  restorable : state.faulted = false
  asleep : ∀ t ∈ state.sem.head, (state.threads.flags t).runnable = false
  returns : state.returned ≤ v0 + state.posts

section Runs
variable {v0 : Nat} {state after : SemRun} {op : SemOp} {t : Thread}

theorem semaphoreListAppend_eq (thread : Thread) (head : List Thread) :
    semaphoreListAppend thread head = head ++ [thread] := by
  induction head with
  | nil => rfl
  | cons cursor next ih => rw [semaphoreListAppend, ih, List.cons_append]

/-! ## The invariant -/

structure Waiting (v0 : Nat) (state : SemRun) : Prop where
  value : state.sem.value = v0 + state.posts - state.pends
  low : -2 ^ 31 ≤ state.sem.value
  high : state.sem.value < 2 ^ 31
  length : (state.sem.head.length : Int) = max 0 (-state.sem.value)
  fifo : state.sem.head.Pairwise fun first second => state.ticket first < state.ticket second
  tickets : ∀ t ∈ state.sem.head, state.ticket t < state.pends
  faulted : state.faulted = false
  /-- what keeps every other thread from making a waiter RUNNABLE -/
  hibernating : ∀ t ∈ state.sem.head,
    (state.threads.flags t).hibernating = true ∧ (state.threads.flags t).runnable = false
  queued : ∀ t ∈ state.sem.head, state.phase t = .waiting
  taken : ∀ t ∈ state.restored, state.phase t ≠ .out
  waiting : ∀ t, state.phase t = .waiting → t ∈ state.sem.head ∨ t ∈ state.restored
  woken : ∀ t, state.phase t = .woken → t ∈ state.restored
  once : (state.sem.head ++ state.restored).Nodup
  count : state.returned + state.restored.length + state.sem.head.length = state.pends

theorem Waiting.correct (inv : Waiting v0 state) : SemCorrect v0 state := by
  refine ⟨inv.value, inv.length, inv.fifo, inv.faulted, fun t member => (inv.hibernating t member).2, ?_⟩
  have value := inv.value
  have length := inv.length
  have count := inv.count
  omega

theorem Waiting.start (fresh : FreshSem v0 state) : Waiting v0 state := by
  obtain ⟨initial, value, head, phase, restored, posts, pends, returned, faulted⟩ := fresh
  refine ⟨by omega, by omega, by omega, ?_, ?_, ?_, faulted, ?_, ?_, ?_, ?_, ?_, ?_, ?_⟩
  · rw [head, value, List.length_nil]
    omega
  · rw [head]
    exact List.Pairwise.nil
  · rw [head]
    nofun
  · rw [head]
    nofun
  · rw [head]
    nofun
  · rw [restored]
    nofun
  · intro t now
    rw [phase t] at now
    nomatch now
  · intro t now
    rw [phase t] at now
    nomatch now
  · rw [head, restored]
    exact List.nodup_nil
  · rw [returned, restored, head, pends]
    rfl

/-- The list is empty unless the value is negative. -/
theorem Waiting.head_nil (inv : Waiting v0 state) (positive : 0 ≤ state.sem.value) :
    state.sem.head = [] := by
  have length := inv.length
  exact List.eq_nil_of_length_eq_zero (by omega)

/-- A pend or try_pend that does not wait. -/
theorem Waiting.passed (inv : Waiting v0 state) (positive : 0 < state.sem.value) :
    Waiting v0 { state with
      sem := { state.sem with value := state.sem.value - 1 }
      pends := state.pends + 1
      returned := state.returned + 1 } := by
  have value := inv.value
  have high := inv.high
  have count := inv.count
  have empty := inv.head_nil (by omega)
  refine ⟨?_, ?_, ?_, ?_, inv.fifo, ?_, inv.faulted, inv.hibernating, inv.queued, inv.taken,
    inv.waiting, inv.woken, inv.once, ?_⟩
  · simp only
    push_cast
    omega
  · simp only
    omega
  · simp only
    omega
  · simp only [empty, List.length_nil]
    omega
  · rw [empty]
    nofun
  · simp only
    omega

theorem Waiting.pend (inv : Waiting v0 state) (phase : state.phase t = .out)
    (negative : state.sem.value ≤ 0) (room : state.sem.value ≠ -2 ^ 31) :
    Waiting v0 { state with
      sem := ⟨state.sem.value - 1, state.sem.head ++ [t]⟩
      threads := hibernate state.threads t
      phase := Function.update state.phase t .waiting
      ticket := Function.update state.ticket t state.pends
      pends := state.pends + 1 } := by
  have value := inv.value
  have low := inv.low
  have length := inv.length
  have count := inv.count
  have notQueued : t ∉ state.sem.head := by
    intro member
    rw [inv.queued t member] at phase
    nomatch phase
  have notTaken : t ∉ state.restored := fun member => inv.taken t member phase
  have other : ∀ u ∈ state.sem.head, u ≠ t := fun u member same => notQueued (same ▸ member)
  refine ⟨?_, ?_, ?_, ?_, ?_, ?_, inv.faulted, ?_, ?_, ?_, ?_, ?_, ?_, ?_⟩
  · simp only
    push_cast
    omega
  · simp only
    omega
  · simp only
    omega
  · simp only [List.length_append, List.length_singleton]
    push_cast
    omega
  · refine List.pairwise_append.mpr ⟨?_, List.pairwise_singleton .., ?_⟩
    · apply inv.fifo.imp_of_mem
      intro first second one two earlier
      simpa only [Function.update_of_ne (other first one), Function.update_of_ne (other second two)]
        using earlier
    · intro first one second two
      rw [List.mem_singleton.mp two]
      simpa only [Function.update_of_ne (other first one), Function.update_self]
        using inv.tickets first one
  · intro u member
    rcases List.mem_append.mp member with old | new
    · have ticket := inv.tickets u old
      simp only [Function.update_of_ne (other u old)]
      omega
    · rw [List.mem_singleton.mp new]
      simp only [Function.update_self]
      omega
  · intro u member
    simp only [hibernate_flags]
    rcases List.mem_append.mp member with old | new
    · rw [if_neg (other u old)]
      exact inv.hibernating u old
    · rw [if_pos (List.mem_singleton.mp new)]
      exact ⟨rfl, rfl⟩
  · intro u member
    rcases List.mem_append.mp member with old | new
    · simp only [Function.update_of_ne (other u old)]
      exact inv.queued u old
    · rw [List.mem_singleton.mp new]
      exact Function.update_self ..
  · intro u member
    have different : u ≠ t := fun same => notTaken (same ▸ member)
    simp only [Function.update_of_ne different]
    exact inv.taken u member
  · intro u now
    by_cases this : u = t
    · exact Or.inl (List.mem_append_right _ (List.mem_singleton.mpr this))
    · simp only [Function.update_of_ne this] at now
      exact (inv.waiting u now).imp_left (List.mem_append_left _)
  · intro u now
    by_cases this : u = t
    · simp only [this, Function.update_self] at now
      nomatch now
    · simp only [Function.update_of_ne this] at now
      exact inv.woken u now
  · have perm : (state.sem.head ++ [t] ++ state.restored).Perm (t :: (state.sem.head ++ state.restored)) := by
      rw [List.append_assoc]
      exact List.perm_middle
    rw [perm.nodup_iff]
    refine List.nodup_cons.mpr ⟨fun member => ?_, inv.once⟩
    rcases List.mem_append.mp member with queued | taken
    · exact notQueued queued
    · exact notTaken taken
  · simp only [List.length_append, List.length_singleton]
    omega

/-- A post that finds nobody waiting. -/
theorem Waiting.posted (inv : Waiting v0 state) (positive : 0 ≤ state.sem.value)
    (room : state.sem.value ≠ 2 ^ 31 - 1) :
    Waiting v0 { state with
      sem := { state.sem with value := state.sem.value + 1 }, posts := state.posts + 1 } := by
  have value := inv.value
  have high := inv.high
  have empty := inv.head_nil positive
  refine ⟨?_, ?_, ?_, ?_, inv.fifo, inv.tickets, inv.faulted, inv.hibernating, inv.queued, inv.taken,
    inv.waiting, inv.woken, inv.once, inv.count⟩
  · simp only
    push_cast
    omega
  · simp only
    omega
  · simp only
    omega
  · simp only [empty, List.length_nil]
    omega

/-- A post that restores the first waiter. -/
theorem Waiting.restores (inv : Waiting v0 state) {rest : List Thread}
    (first : state.sem.head = t :: rest) :
    Waiting v0 { state with
      sem := ⟨state.sem.value + 1, rest⟩
      threads := restore state.threads t
      restored := state.restored ++ [t]
      posts := state.posts + 1 } := by
  have value := inv.value
  have low := inv.low
  have length := inv.length
  have count := inv.count
  have once := inv.once
  rw [first] at length count once
  simp only [List.length_cons] at length count
  push_cast at length
  have member : ∀ u ∈ rest, u ∈ state.sem.head := by
    intro u old
    rw [first]
    exact List.mem_cons_of_mem t old
  have perm : (rest ++ (state.restored ++ [t])).Perm (t :: rest ++ state.restored) := by
    rw [← List.append_assoc, List.cons_append]
    exact List.perm_append_singleton t (rest ++ state.restored)
  have different : ∀ u ∈ rest, u ≠ t := by
    intro u old same
    have fresh := (List.nodup_cons.mp (List.cons_append ▸ once)).1
    exact fresh (List.mem_append_left _ (same ▸ old))
  refine ⟨?_, ?_, ?_, ?_, ?_, ?_, inv.faulted, ?_, ?_, ?_, ?_, ?_, ?_, ?_⟩
  · simp only
    push_cast
    omega
  · simp only
    omega
  · simp only
    omega
  · simp only
    omega
  · have sorted := inv.fifo
    rw [first] at sorted
    exact (List.pairwise_cons.mp sorted).2
  · exact fun u old => inv.tickets u (member u old)
  · intro u old
    simp only [restore_flags, if_neg (different u old)]
    exact inv.hibernating u (member u old)
  · exact fun u old => inv.queued u (member u old)
  · intro u old
    rcases List.mem_append.mp old with taken | new
    · exact inv.taken u taken
    · have queued := inv.queued t (by rw [first]; exact List.mem_cons_self)
      rw [List.mem_singleton.mp new, queued]
      nofun
  · intro u now
    rcases inv.waiting u now with queued | taken
    · rw [first] at queued
      rcases List.mem_cons.mp queued with same | old
      · exact Or.inr (List.mem_append_right _ (List.mem_singleton.mpr same))
      · exact Or.inl old
    · exact Or.inr (List.mem_append_left _ taken)
  · exact fun u now => List.mem_append_left _ (inv.woken u now)
  · exact perm.nodup_iff.mpr once
  · simp only [List.length_append, List.length_singleton]
    omega

theorem Waiting.run (inv : Waiting v0 state) (phase : state.phase t = .waiting)
    (runs : (state.threads.flags t).runnable = true) :
    Waiting v0 { state with phase := Function.update state.phase t .woken } := by
  have notQueued : t ∉ state.sem.head := by
    intro member
    rw [(inv.hibernating t member).2] at runs
    nomatch runs
  have taken : t ∈ state.restored := (inv.waiting t phase).resolve_left notQueued
  refine ⟨inv.value, inv.low, inv.high, inv.length, inv.fifo, inv.tickets, inv.faulted,
    inv.hibernating, ?_, ?_, ?_, ?_, inv.once, inv.count⟩
  · intro u member
    have different : u ≠ t := fun same => notQueued (same ▸ member)
    simp only [Function.update_of_ne different]
    exact inv.queued u member
  · intro u member
    by_cases this : u = t
    · simp only [this, Function.update_self]
      nofun
    · simp only [Function.update_of_ne this]
      exact inv.taken u member
  · intro u now
    by_cases this : u = t
    · simp only [this, Function.update_self] at now
      nomatch now
    · simp only [Function.update_of_ne this] at now
      exact inv.waiting u now
  · intro u now
    by_cases this : u = t
    · exact this ▸ taken
    · simp only [Function.update_of_ne this] at now
      exact inv.woken u now

theorem Waiting.finish (inv : Waiting v0 state) (phase : state.phase t = .woken) :
    Waiting v0 { state with
      phase := Function.update state.phase t .out
      restored := state.restored.erase t
      returned := state.returned + 1 } := by
  have taken := inv.woken t phase
  have nodup := List.nodup_append.mp inv.once
  have notQueued : t ∉ state.sem.head := by
    intro member
    rw [inv.queued t member] at phase
    nomatch phase
  refine ⟨inv.value, inv.low, inv.high, inv.length, inv.fifo, inv.tickets, inv.faulted,
    inv.hibernating, ?_, ?_, ?_, ?_, ?_, ?_⟩
  · intro u member
    have different : u ≠ t := fun same => notQueued (same ▸ member)
    simp only [Function.update_of_ne different]
    exact inv.queued u member
  · intro u member
    obtain ⟨different, old⟩ := nodup.2.1.mem_erase_iff.mp member
    simp only [Function.update_of_ne different]
    exact inv.taken u old
  · intro u now
    by_cases this : u = t
    · simp only [this, Function.update_self] at now
      nomatch now
    · simp only [Function.update_of_ne this] at now
      exact (inv.waiting u now).imp_right (List.mem_erase_of_ne this).mpr
  · intro u now
    by_cases this : u = t
    · simp only [this, Function.update_self] at now
      nomatch now
    · simp only [Function.update_of_ne this] at now
      exact (List.mem_erase_of_ne this).mpr (inv.woken u now)
  · exact inv.once.sublist ((List.Sublist.refl _).append (List.erase_sublist ..))
  · have count := inv.count
    have some := List.length_pos_of_mem taken
    simp only [List.length_erase_of_mem taken]
    omega

/-- A change of flags by other threads, which leaves the waiters as they are. -/
theorem Waiting.flags (inv : Waiting v0 state) {threads : Threads}
    (kept : ∀ u, (state.threads.flags u).hibernating = true →
      (state.threads.flags u).runnable = false →
      (threads.flags u).hibernating = true ∧ (threads.flags u).runnable = false) :
    Waiting v0 { state with threads := threads } := by
  refine ⟨inv.value, inv.low, inv.high, inv.length, inv.fifo, inv.tickets, inv.faulted, ?_, inv.queued,
    inv.taken, inv.waiting, inv.woken, inv.once, inv.count⟩
  intro u member
  obtain ⟨hibernates, rests⟩ := inv.hibernating u member
  exact kept u hibernates rests

/-! ## One step -/

theorem Waiting.pend_step (inv : Waiting v0 state) (allowed : InRange state (.pend t))
    (move : SemStep state (.pend t) after) : Waiting v0 after := by
  obtain ⟨⟨phase, _⟩, move⟩ := Option.ite_none_right_eq_some.mp move
  have low := inv.low
  have high := inv.high
  have room : state.sem.value ≠ -2 ^ 31 := allowed
  have down : intSub state.sem.value 1 = state.sem.value - 1 := intSub_eq (by omega) (by omega)
  unfold semaphorePend at move
  simp only [down] at move
  by_cases waits : state.sem.value - 1 < 0
  · rw [if_pos waits, if_pos rfl] at move
    cases Option.some.inj move
    have pended := inv.pend phase (by omega) room
    rw [← semaphoreListAppend_eq] at pended
    exact pended
  · rw [if_neg waits, if_neg (by nofun)] at move
    cases Option.some.inj move
    exact inv.passed (by omega)

theorem Waiting.tryPend_step (inv : Waiting v0 state) (move : SemStep state .tryPend after) :
    Waiting v0 after := by
  obtain ⟨_, move⟩ := Option.ite_none_right_eq_some.mp move
  have high := inv.high
  unfold semaphoreTryPend at move
  by_cases none : state.sem.value ≤ 0
  · rw [if_pos none, if_neg (by nofun)] at move
    cases Option.some.inj move
    exact inv
  · have down : intSub state.sem.value 1 = state.sem.value - 1 := intSub_eq (by omega) (by omega)
    rw [if_neg none, if_pos rfl, down] at move
    cases Option.some.inj move
    exact inv.passed (by omega)

theorem Waiting.post_step (inv : Waiting v0 state) (allowed : InRange state .post)
    (move : SemStep state .post after) : Waiting v0 after := by
  obtain ⟨_, move⟩ := Option.ite_none_right_eq_some.mp move
  have low := inv.low
  have high := inv.high
  have room : state.sem.value ≠ 2 ^ 31 - 1 := allowed
  have up : intAdd state.sem.value 1 = state.sem.value + 1 := intAdd_eq (by omega) (by omega)
  unfold semaphorePost restoreThread at move
  simp only [up] at move
  by_cases waits : state.sem.value + 1 ≤ 0
  · rw [if_pos waits] at move
    have length := inv.length
    cases first : state.sem.head with
    | nil =>
      rw [first, List.length_nil] at length
      omega
    | cons thread rest =>
      rw [first] at move
      have gone : (thread :: rest).length - rest.length = 1 := by
        rw [List.length_cons]
        omega
      simp only [semaphoreListDeleteFirst, gone, List.take_succ_cons, List.take_zero] at move
      cases Option.some.inj move
      exact inv.restores first
  · rw [if_neg waits] at move
    simp only [Nat.sub_self, List.take_zero, List.append_nil] at move
    cases Option.some.inj move
    exact inv.posted (by omega) room

theorem Waiting.step (inv : Waiting v0 state) (allowed : InRange state op)
    (move : SemStep state op after) : Waiting v0 after := by
  cases op with
  | pend t => exact inv.pend_step allowed move
  | tryPend => exact inv.tryPend_step move
  | post => exact inv.post_step allowed move
  | run t =>
    obtain ⟨⟨phase, runs⟩, move⟩ := Option.ite_none_right_eq_some.mp move
    cases Option.some.inj move
    exact inv.run phase runs
  | finish t =>
    obtain ⟨phase, move⟩ := Option.ite_none_right_eq_some.mp move
    cases Option.some.inj move
    exact inv.finish phase
  | suspend t =>
    cases Option.some.inj move
    apply inv.flags
    intro u hibernates rests
    rw [suspendThread_flags]
    split
    · rename_i this
      exact ⟨this ▸ hibernates, rfl⟩
    · exact ⟨hibernates, rests⟩
  | wakeSuspended t =>
    cases Option.some.inj move
    apply inv.flags
    intro u hibernates rests
    rw [wakeSuspendedThread_flags]
    split
    · rename_i this
      rw [← this, hibernates, rests]
      exact ⟨rfl, rfl⟩
    · exact ⟨hibernates, rests⟩
  | wake t =>
    obtain ⟨threads, run, rfl⟩ := Halt.map_toOption_eq_some.mp move
    apply inv.flags
    intro u hibernates rests
    rw [(wake_ok run).2]
    split
    · rename_i this
      rw [← this, hibernates, rests]
      exact ⟨rfl, rfl⟩
    · exact ⟨hibernates, rests⟩

/-! ## Outside the range of an `int` -/

theorem Waiting.pend_wraps (inv : Waiting v0 state) (wraps : state.sem.value = -2 ^ 31)
    (move : SemStep state (.pend t) after) : ¬SemCorrect v0 after := by
  obtain ⟨_, move⟩ := Option.ite_none_right_eq_some.mp move
  have down : intSub state.sem.value 1 = 2 ^ 31 - 1 := by
    rw [wraps]
    rfl
  have value := inv.value
  have positive : ¬(2 ^ 31 - 1 : Int) < 0 := by decide
  unfold semaphorePend at move
  simp only [down] at move
  rw [if_neg positive, if_neg (by nofun)] at move
  cases Option.some.inj move
  intro correct
  have now := correct.value
  simp only at now
  push_cast at now
  omega

/-- The post finds a negative value and an empty list. -/
theorem Waiting.post_wraps (inv : Waiting v0 state) (wraps : state.sem.value = 2 ^ 31 - 1)
    (move : SemStep state .post after) : ¬SemCorrect v0 after := by
  obtain ⟨_, move⟩ := Option.ite_none_right_eq_some.mp move
  have up : intAdd state.sem.value 1 = -2 ^ 31 := by
    rw [wraps]
    rfl
  have negative : (-2 ^ 31 : Int) ≤ 0 := by decide
  unfold semaphorePost restoreThread at move
  simp only [up] at move
  rw [if_pos negative, inv.head_nil (by omega)] at move
  cases Option.some.inj move
  intro correct
  nomatch correct.restorable

/-! ## Semaphores in any run -/

theorem semaphore_correct (v0 : Nat) (reached : Reach (FreshSem v0) SemStep InRange state) :
    SemCorrect v0 state ∧
      ∀ op after, SemStep state op after → (SemCorrect v0 after ↔ InRange state op) := by
  have inv : Waiting v0 state :=
    Reach.invariant (Waiting v0) (fun _ fresh => Waiting.start fresh)
      (fun _ _ _ inv allowed move => inv.step allowed move) reached
  refine ⟨inv.correct, fun op after move => ⟨fun correct => ?_, fun allowed => ?_⟩⟩
  · cases op with
    | pend t => exact fun wraps => inv.pend_wraps wraps move correct
    | post => exact fun wraps => inv.post_wraps wraps move correct
    | tryPend => trivial
    | run t => trivial
    | finish t => trivial
    | suspend t => trivial
    | wakeSuspended t => trivial
    | wake t => trivial
  · exact (inv.step allowed move).correct

end Runs

/-! ## A waiter that is suspended, and the greatest value -/

/-- `semaphore_create(v0)`, with the flags of threads that are on a processor. -/
def newSemaphore (v0 : Nat) : SemRun where
  sem := ⟨v0, []⟩
  threads := { flags := fun _ => ⟨true, true, false, false, false, false, false⟩
               cpu := fun _ => some 0
               links := ⟨id, id⟩ }
  phase _ := .out
  restored := []
  ticket _ := 0
  posts := 0
  pends := 0
  returned := 0
  faulted := false

theorem newSemaphore_fresh {v0 : Nat} (initial : v0 < 2 ^ 31) : FreshSem v0 (newSemaphore v0) :=
  ⟨initial, rfl, rfl, fun _ => rfl, rfl, rfl, rfl, rfl, rfl⟩

/-- Thread 2 is restored while it is suspended, and returns after it is resumed. -/
def suspendedScript : List SemOp :=
  [.pend (.thread 1), .pend (.thread 2), .pend (.thread 3), .suspend (.thread 2), .wake (.thread 3),
    .post, .post, .run (.thread 3), .finish (.thread 3), .wakeSuspended (.thread 2), .run (.thread 2)]

theorem semaphore_correct_suspended :
    ∃ state, runLabels semStep InRange suspendedScript (newSemaphore 1) = some state ∧
      SemCorrect 1 state ∧
        ∀ op after, SemStep state op after → (SemCorrect 1 after ↔ InRange state op) := by
  have runs : (runLabels semStep InRange suspendedScript (newSemaphore 1)).isSome := by decide +kernel
  obtain ⟨state, run⟩ := Option.isSome_iff_exists.mp runs
  exact ⟨state, run, semaphore_correct 1
    (Reach.of_runLabels (.start (newSemaphore_fresh (by decide))) run)⟩

/-- A post to a semaphore with the greatest value looks for a waiter. -/
theorem post_to_full_semaphore_faults :
    ∃ state, Reach (FreshSem (2 ^ 31 - 1)) SemStep Always state ∧ ¬SemCorrect (2 ^ 31 - 1) state := by
  have facts : (runLabels semStep Always [.post] (newSemaphore (2 ^ 31 - 1))).any
      fun state => decide (state.faulted = true) := by
    decide +kernel
  obtain ⟨state, reached, checked⟩ := Reach.of_run_ends (newSemaphore_fresh (by decide)) facts
  refine ⟨state, reached, fun correct => ?_⟩
  have restorable := correct.restorable
  rw [checked] at restorable
  nomatch restorable

end Stardust.Sched
