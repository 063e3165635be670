import Mathlib.Logic.Function.Basic
import Stardust.Kernel
import Stardust.Lib.CircularList

/-! # Threads and the ready queue

The part of the scheduler that works on the flags of a thread and on its
`ready_list` node.  That node is on the ready queue or on another list, so the
links are over all nodes and heads. -/
set_option autoImplicit false
namespace Stardust.Sched

open Stardust.Lib

inductive Thread
  /-- the idle thread of a processor -/
  | idle (cpu : Nat)
  | thread (id : Nat)
  deriving DecidableEq

/-- The list nodes: heads of lists, and the `ready_list` of each thread. -/
inductive QNode
  | readyQueue
  | deadQueue
  | joiners (t : Thread)
  | readyList (t : Thread)
  deriving DecidableEq

structure Flags where
  runnable : Bool
  running : Bool
  dying : Bool
  suspended : Bool
  sleeping : Bool
  hibernating : Bool
  joining : Bool
  deriving DecidableEq

/-- What `thread->flags` and `thread->cpu` hold, with the links; no `cpu` is -1. -/
structure Threads where
  flags : Thread → Flags
  cpu : Thread → Option Nat
  links : Links QNode

def Threads.setFlags (s : Threads) (t : Thread) (f : Flags → Flags) : Threads :=
  { s with flags := Function.update s.flags t (f (s.flags t)) }

def Threads.setCpu (s : Threads) (t : Thread) (cpu : Nat) : Threads :=
  { s with cpu := Function.update s.cpu t (some cpu) }

/-- `list_del_init(&thread->ready_list)` -/
def Threads.unlink (s : Threads) (t : Thread) : Threads :=
  { s with links := s.links.listDelInit (.readyList t) }

/-- `list_add_tail(&thread->ready_list, &ready_queue)` -/
def Threads.enqueue (s : Threads) (t : Thread) : Threads :=
  { s with links := s.links.listAddTail (.readyList t) .readyQueue }

/-! ## The code

Each function is the section that holds `ready_lock`.  The kick of another
processor that follows some of them only makes it call `schedule`. -/

def hibernate (s : Threads) (t : Thread) : Threads :=
  let s := s.setFlags t fun f => { f with runnable := false, running := false, hibernating := true }
  if (s.flags t).suspended || (s.flags t).sleeping then s else s.unlink t

def restore (s : Threads) (t : Thread) : Threads :=
  let s := s.setFlags t fun f => { f with hibernating := false }
  if (s.flags t).suspended || (s.flags t).sleeping then s
  else (s.setFlags t fun f => { f with runnable := true }).enqueue t

def suspendThread (s : Threads) (t : Thread) : Threads :=
  let s := s.setFlags t fun f => { f with runnable := false, running := false, suspended := true }
  if (s.flags t).hibernating || (s.flags t).sleeping || (s.flags t).joining then s else s.unlink t

def wakeSuspendedThread (s : Threads) (t : Thread) : Threads :=
  let s := s.setFlags t fun f => { f with suspended := false }
  if (s.flags t).hibernating || (s.flags t).sleeping || (s.flags t).joining then s
  else (s.setFlags t fun f => { f with runnable := true }).enqueue t

def block (s : Threads) (t : Thread) : Except Halt Threads :=
  if (s.flags t).runnable = false then .error .bug
  else
    let s := s.setFlags t fun f => { f with runnable := false }
    .ok (if (s.flags t).hibernating || (s.flags t).suspended || (s.flags t).joining then s
      else s.unlink t)

def wake (s : Threads) (t : Thread) : Except Halt Threads :=
  if (s.flags t).dying then .error .bug
  else if (s.flags t).runnable then .ok s
  else if (s.flags t).hibernating || (s.flags t).suspended then .ok s
  else .ok ((s.setFlags t fun f => { f with runnable := true }).enqueue t)

def startThread (s : Threads) (t : Thread) : Threads :=
  (s.setFlags t fun f => { f with runnable := true }).enqueue t

/-- The threads that `pick_thread` takes for a processor. -/
def Threads.Eligible (s : Threads) (cpu : Nat) (t : Thread) : Prop :=
  (s.flags t).running = false ∧ (s.flags t).runnable = true ∧ (s.cpu t = some cpu ∨ s.cpu t = none)

instance (s : Threads) (cpu : Nat) (t : Thread) : Decidable (s.Eligible cpu t) :=
  inferInstanceAs (Decidable (_ ∧ _))

/-- The walk of `pick_thread` along the ready queue; a queue longer than
`thread_id` stops the system. -/
def findReady (s : Threads) (cpu : Nat) : Nat → QNode → Except Halt (Option Thread)
  | _, .readyQueue => .ok none
  | 0, _ => .error .bug
  | more + 1, .readyList t =>
    if s.Eligible cpu t then .ok (some t) else findReady s cpu more (s.links.next (.readyList t))
  | _ + 1, .deadQueue => .error .fault
  | _ + 1, .joiners _ => .error .fault

/-- `pick_thread(prev, cpu)` on the processor `here`. -/
def pickThread (threadId : Nat) (s : Threads) (prev : Thread) (cpu here : Nat) :
    Except Halt (Thread × Threads) := do
  let s := if (s.flags prev).runnable = true ∧ prev ≠ .idle here then (s.unlink prev).enqueue prev else s
  match ← findReady s cpu threadId (s.links.next .readyQueue) with
  | some next => .ok (next, s.setFlags next fun f => { f with running := true })
  | none => .ok (.idle here, s.setFlags (.idle here) fun f => { f with running := true })

/-! ## What the functions change -/

section Effects
variable {s after : Threads} {t other : Thread} {f : Flags → Flags}

theorem setFlags_flags :
    (s.setFlags t f).flags other = if other = t then f (s.flags t) else s.flags other := by
  simp [Threads.setFlags, Function.update_apply]

@[simp] theorem unlink_flags : (s.unlink t).flags = s.flags := rfl

@[simp] theorem enqueue_flags : (s.enqueue t).flags = s.flags := rfl

theorem hibernate_flags : (hibernate s t).flags other =
    if other = t then { s.flags t with runnable := false, running := false, hibernating := true }
    else s.flags other := by
  have marked : (hibernate s t).flags = (s.setFlags t fun f =>
      { f with runnable := false, running := false, hibernating := true }).flags := by
    unfold hibernate
    simp only
    split <;> rfl
  rw [marked, setFlags_flags]

@[simp] theorem hibernate_cpu : (hibernate s t).cpu = s.cpu := by
  unfold hibernate
  simp only
  split <;> rfl

theorem restore_flags : (restore s t).flags other =
    if other = t then { s.flags t with
      hibernating := false
      runnable := (s.flags t).runnable || !((s.flags t).suspended || (s.flags t).sleeping) }
    else s.flags other := by
  unfold restore
  simp only [setFlags_flags, if_true]
  by_cases this : other = t
  · rw [this]
    split <;> rename_i waits <;> simp [setFlags_flags, waits]
  · split <;> simp [setFlags_flags, this]

@[simp] theorem restore_cpu : (restore s t).cpu = s.cpu := by
  unfold restore
  simp only
  split <;> rfl

theorem suspendThread_flags : (suspendThread s t).flags other =
    if other = t then { s.flags t with runnable := false, running := false, suspended := true }
    else s.flags other := by
  have marked : (suspendThread s t).flags = (s.setFlags t fun f =>
      { f with runnable := false, running := false, suspended := true }).flags := by
    unfold suspendThread
    simp only
    split <;> rfl
  rw [marked, setFlags_flags]

@[simp] theorem suspendThread_cpu : (suspendThread s t).cpu = s.cpu := by
  unfold suspendThread
  simp only
  split <;> rfl

theorem wakeSuspendedThread_flags : (wakeSuspendedThread s t).flags other =
    if other = t then { s.flags t with
      suspended := false
      runnable := (s.flags t).runnable ||
        !((s.flags t).hibernating || (s.flags t).sleeping || (s.flags t).joining) }
    else s.flags other := by
  unfold wakeSuspendedThread
  simp only [setFlags_flags, if_true]
  by_cases this : other = t
  · rw [this]
    split <;> rename_i waits <;> simp [setFlags_flags, waits]
  · split <;> simp [setFlags_flags, this]

@[simp] theorem wakeSuspendedThread_cpu : (wakeSuspendedThread s t).cpu = s.cpu := by
  unfold wakeSuspendedThread
  simp only
  split <;> rfl

theorem block_ok (run : block s t = .ok after) : (s.flags t).runnable = true ∧ after.cpu = s.cpu ∧
    ∀ other, after.flags other =
      if other = t then { s.flags t with runnable := false } else s.flags other := by
  unfold block at run
  split at run
  · nomatch run
  · rename_i runs
    have marked : after.flags = (s.setFlags t fun f => { f with runnable := false }).flags ∧
        after.cpu = s.cpu := by
      cases run
      split <;> exact ⟨rfl, rfl⟩
    refine ⟨by simpa using runs, marked.2, fun other => ?_⟩
    rw [marked.1, setFlags_flags]

/-- `wake` sets RUNNABLE unless the thread hibernates or is suspended. -/
theorem wake_ok (run : wake s t = .ok after) : after.cpu = s.cpu ∧
    ∀ other, after.flags other =
      if other = t then { s.flags t with
        runnable := (s.flags t).runnable || !((s.flags t).hibernating || (s.flags t).suspended) }
      else s.flags other := by
  unfold wake at run
  split at run
  · nomatch run
  · split at run
    · rename_i _ runs
      cases run
      refine ⟨rfl, fun other => ?_⟩
      by_cases this : other = t
      · rw [this, if_pos rfl, runs, Bool.true_or, ← runs]
      · rw [if_neg this]
    · rename_i _ rests
      split at run
      · rename_i waits
        cases run
        refine ⟨rfl, fun other => ?_⟩
        by_cases this : other = t
        · rw [this, if_pos rfl, waits, Bool.not_true, Bool.or_false]
        · rw [if_neg this]
      · rename_i free
        cases run
        refine ⟨rfl, fun other => ?_⟩
        simp only [enqueue_flags, setFlags_flags]
        by_cases this : other = t
        · rw [if_pos this, if_pos this, Bool.eq_false_iff.mpr free, Bool.not_false, Bool.or_true]
        · rw [if_neg this, if_neg this]

@[simp] theorem startThread_cpu : (startThread s t).cpu = s.cpu := rfl

theorem startThread_flags : (startThread s t).flags other =
    if other = t then { s.flags t with runnable := true } else s.flags other := by
  rw [startThread, enqueue_flags, setFlags_flags]

theorem findReady_some {cpu more : Nat} {node : QNode}
    (found : findReady s cpu more node = .ok (some t)) : s.Eligible cpu t := by
  induction more generalizing node with
  | zero =>
    cases node <;> nomatch found
  | succ more ih =>
    cases node with
    | readyQueue => nomatch found
    | deadQueue => nomatch found
    | joiners joinee => nomatch found
    | readyList candidate =>
      rw [findReady] at found
      split at found
      · rename_i eligible
        cases found
        exact eligible
      · exact ih found

/-- The thread that is picked was eligible, or nobody on the queue was. -/
theorem pickThread_ok {threadId cpu here : Nat} {prev next : Thread}
    (run : pickThread threadId s prev cpu here = .ok (next, after)) :
    (s.Eligible cpu next ∨ next = .idle here) ∧ after.cpu = s.cpu ∧
      ∀ other, after.flags other =
        if other = next then { s.flags next with running := true } else s.flags other := by
  unfold pickThread at run
  obtain ⟨found, walk, run⟩ := Halt.bind_eq_ok.mp run
  -- taking `prev` to the end of the queue changes links only
  have kept : ∀ queue : Threads, queue = (if (s.flags prev).runnable = true ∧ prev ≠ .idle here then
      (s.unlink prev).enqueue prev else s) → queue.flags = s.flags ∧ queue.cpu = s.cpu := by
    intro queue same
    rw [same]
    split <;> exact ⟨rfl, rfl⟩
  obtain ⟨sameFlags, sameCpu⟩ := kept _ rfl
  cases found with
  | some thread =>
    cases run
    have eligible := findReady_some walk
    unfold Threads.Eligible at eligible
    rw [sameFlags, sameCpu] at eligible
    refine ⟨Or.inl eligible, sameCpu, fun other => ?_⟩
    rw [setFlags_flags, sameFlags]
  | none =>
    cases run
    refine ⟨Or.inr rfl, sameCpu, fun other => ?_⟩
    rw [setFlags_flags, sameFlags]

end Effects

end Stardust.Sched
