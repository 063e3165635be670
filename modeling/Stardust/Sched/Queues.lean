import Stardust.Sched.Core

/-! # The scheduler's lists and the RUNNABLE flag

The `ready_list` nodes hang on the ready queue, the dead queue or the `joiners` of
some thread, each on one of them at most; on the ready queue are those of the
RUNNABLE threads. -/
set_option autoImplicit false
namespace Stardust.Sched

open Stardust.Lib

def QNode.IsHead : QNode → Prop
  | .readyList _ => False
  | _ => True

structure Threads.Queues (s : Threads) (members : QNode → List QNode) : Prop where
  lists : ListFamily s.links QNode.IsHead members
  ready : ∀ t, .readyList t ∈ members .readyQueue ↔ (s.flags t).runnable = true

/-- The node of the thread is on no list. -/
def Free (members : QNode → List QNode) (t : Thread) : Prop :=
  ∀ h : QNode, h.IsHead → .readyList t ∉ members h

/-- `!list_empty(&thread->ready_list)` -/
def Threads.linked (s : Threads) (t : Thread) : Bool :=
  s.links.next (.readyList t) ≠ .readyList t

section Rules
variable {s : Threads} {members : QNode → List QNode} {t : Thread} {f : Flags → Flags}

theorem linked_of_isList {h : QNode} {nodes : List QNode} (list : IsList s.links h nodes)
    (member : .readyList t ∈ nodes) : s.linked t = true := by
  rw [Threads.linked, decide_eq_true_iff]
  exact list.next_ne member

theorem Threads.Queues.linked_of_free (queues : s.Queues members) (free : Free members t) :
    s.linked t = false := by
  have alone := queues.lists.alone (.readyList t) (fun head => head) free
  rw [Threads.linked, alone.1]
  simp

/-- A change of flags that leaves RUNNABLE alone. -/
theorem Threads.Queues.mark (queues : s.Queues members)
    (same : (f (s.flags t)).runnable = (s.flags t).runnable) : (s.setFlags t f).Queues members := by
  refine ⟨queues.lists, fun other => ?_⟩
  rw [queues.ready, setFlags_flags]
  by_cases this : other = t
  · rw [if_pos this, this, same]
  · rw [if_neg this]

theorem Threads.Queues.enqueue (queues : s.Queues members) (free : Free members t)
    (on : (f (s.flags t)).runnable = true) : ((s.setFlags t f).enqueue t).Queues
      (Function.update members .readyQueue (members .readyQueue ++ [.readyList t])) := by
  refine ⟨queues.lists.listAddTail trivial (fun head => head) free, fun other => ?_⟩
  rw [Function.update_self, List.mem_append, List.mem_singleton, queues.ready, enqueue_flags,
    setFlags_flags]
  by_cases this : other = t
  · simp [this, on]
  · simp [this]

/-- A RUNNABLE thread is taken off the ready queue as it stops being RUNNABLE. -/
theorem Threads.Queues.dequeue (queues : s.Queues members) (runs : (s.flags t).runnable = true)
    (off : (f (s.flags t)).runnable = false) : ((s.setFlags t f).unlink t).Queues
      (Function.update members .readyQueue ((members .readyQueue).erase (.readyList t))) := by
  have member := (queues.ready t).mpr runs
  have nodup := (List.nodup_cons.mp (queues.lists.list .readyQueue trivial).nodup).2
  refine ⟨queues.lists.listDelInit trivial member, fun other => ?_⟩
  rw [Function.update_self, nodup.mem_erase_iff, queues.ready, unlink_flags, setFlags_flags]
  by_cases this : other = t
  · simp [this, off]
  · simp [this]

theorem unlink_free (queues : s.Queues members) (free : Free members t) : s.unlink t = s := by
  have alone := queues.lists.alone (.readyList t) (fun head => head) free
  rw [Threads.unlink, listDelInit_alone alone.1 alone.2]

end Rules

/-! ## No threads -/

/-- Every list is empty. -/
def noThreads : Threads :=
  { flags := fun _ => ⟨false, false, false, false, false, false, false⟩
    cpu := fun _ => none
    links := ⟨id, id⟩ }

theorem noThreads_queues : noThreads.Queues fun _ => [] := by
  refine ⟨⟨fun h _ => ⟨⟨rfl, rfl⟩, List.nodup_singleton h⟩, fun _ _ _ member => ?_,
    fun _ _ _ _ _ member => ?_, fun n _ _ => ⟨rfl, rfl⟩⟩, fun t => ?_⟩
  · cases member
  · cases member
  · simp [noThreads]

theorem startThread_queues {s : Threads} {members : QNode → List QNode} {t : Thread}
    (queues : s.Queues members) (free : Free members t) : (startThread s t).Queues
      (Function.update members .readyQueue (members .readyQueue ++ [.readyList t])) :=
  queues.enqueue free rfl

end Stardust.Sched
