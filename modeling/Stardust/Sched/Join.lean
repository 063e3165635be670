import Stardust.Sched.Queues

/-! # Waiting for the exit of a thread

A joiner hangs its `ready_list` node on the `joiners` of the thread it waits for; the
thread hangs its own on the dead queue when it exits.  What `wake` is called for by
`sched_wake_joiners` is no longer on the `joiners`. -/
set_option autoImplicit false
namespace Stardust.Sched

open Stardust.Lib

/-! ## The code -/

/-- `list_add_tail(&this_thread->ready_list, &joinee->joiners)` -/
def Threads.addJoiner (s : Threads) (joinee t : Thread) : Threads :=
  { s with links := s.links.listAddTail (.readyList t) (.joiners joinee) }

/-- `list_add_tail(&thread->ready_list, &dead_queue)` -/
def Threads.addDead (s : Threads) (t : Thread) : Threads :=
  { s with links := s.links.listAddTail (.readyList t) .deadQueue }

@[simp] theorem addDead_flags (s : Threads) (t : Thread) : (s.addDead t).flags = s.flags := rfl

/-- The `list_for_each_safe` of `sched_wake_joiners`, from `iterator` on. -/
def wakeJoinersFrom (joinee : Thread) : Nat → QNode → Threads → Except Halt Threads
  | 0, iterator, s => if iterator = .joiners joinee then .ok s else .error .fuel
  | fuel + 1, iterator, s =>
    if iterator = .joiners joinee then .ok s
    else
      let tmp := s.links.next iterator
      match iterator with
      | .readyList thread => do
        let s ← wake (s.unlink thread) thread
        wakeJoinersFrom joinee fuel tmp s
      | _ => .error .fault

def schedWakeJoiners (fuel : Nat) (s : Threads) (joinee : Thread) : Except Halt Threads :=
  wakeJoinersFrom joinee fuel (s.links.next (.joiners joinee)) s

/-- `if(!list_empty(&thread->joiners)) sched_wake_joiners(thread);` -/
def wakeAnyJoiners (fuel : Nat) (s : Threads) (thread : Thread) : Except Halt Threads :=
  if s.links.next (.joiners thread) ≠ .joiners thread then schedWakeJoiners fuel s thread else .ok s

/-- The section of `exit_thread` that holds `dead_lock`. -/
def exitThread (fuel : Nat) (s : Threads) (thread : Thread) : Except Halt Threads :=
  wakeAnyJoiners fuel ((s.setFlags thread fun f => { f with dying := true }).addDead thread) thread

/-- What `sched_reap_dead` does to the lists for a thread that it frees. -/
def reapDead (fuel : Nat) (s : Threads) (thread : Thread) : Except Halt Threads :=
  wakeAnyJoiners fuel (s.unlink thread) thread

/-- Where the joinee is in its exit. -/
inductive JoineePhase
  | alive
  /-- in `exit_thread`, after `block` -/
  | exiting
  /-- on the dead queue -/
  | dead
  | reaped
  deriving DecidableEq

/-! ## The lists around one joinee -/

/-- `ready` are the threads on the ready queue and `parked` those on the joinee's
list; the joinee may be on the dead queue, and no other thread is waited for or dead. -/
structure JoinMembers (l : Links QNode) (joinee : Thread) (ready parked : List Thread) (dead : Prop)
    (members : QNode → List QNode) : Prop where
  lists : ListFamily l QNode.IsHead members
  ready : members .readyQueue = ready.map .readyList
  joiners : members (.joiners joinee) = parked.map .readyList
  buried : ∀ t, .readyList t ∈ members .deadQueue ↔ t = joinee ∧ dead
  others : ∀ other, other ≠ joinee → members (.joiners other) = []

def JoinLinks (l : Links QNode) (joinee : Thread) (ready parked : List Thread) (dead : Prop) : Prop :=
  ∃ members, JoinMembers l joinee ready parked dead members

theorem readyQueueHead : QNode.readyQueue.IsHead := trivial

theorem deadQueueHead : QNode.deadQueue.IsHead := trivial

theorem joinersHead (t : Thread) : (QNode.joiners t).IsHead := trivial

theorem readyList_entry (t : Thread) : ¬(QNode.readyList t).IsHead := fun head => head

theorem readyList_injective : Function.Injective QNode.readyList := fun _ _ => QNode.readyList.inj

theorem mem_map_readyList {t : Thread} {threads : List Thread} :
    .readyList t ∈ threads.map QNode.readyList ↔ t ∈ threads :=
  List.mem_map_of_injective readyList_injective

theorem not_dead {joinee t : Thread} (other : t ≠ joinee) (dead : Prop) : ¬(t = joinee ∧ dead) :=
  fun gone => other gone.1

/-- The flags of a thread that does not change are its old ones. -/
theorem flags_kept (s : Threads) (t u : Thread) :
    s.flags u = if u = t then s.flags t else s.flags u := by
  split
  · rename_i this
    rw [this]
  · rfl

section Rules
variable {l : Links QNode} {joinee t : Thread} {ready parked : List Thread} {dead : Prop}
  {members : QNode → List QNode}

theorem JoinMembers.free (lists : JoinMembers l joinee ready parked dead members) (idle : t ∉ ready)
    (unparked : t ∉ parked) (alive : ¬(t = joinee ∧ dead)) : Free members t := by
  intro h head member
  cases h with
  | readyQueue =>
    rw [lists.ready, mem_map_readyList] at member
    exact idle member
  | deadQueue => exact alive ((lists.buried t).mp member)
  | readyList other => exact head
  | joiners other =>
    by_cases this : other = joinee
    · rw [this, lists.joiners, mem_map_readyList] at member
      exact unparked member
    · rw [lists.others other this] at member
      cases member

theorem JoinLinks.readyList (lists : JoinLinks l joinee ready parked dead) :
    IsList l .readyQueue (ready.map .readyList) := by
  obtain ⟨members, lists⟩ := lists
  rw [← lists.ready]
  exact lists.lists.list .readyQueue trivial

theorem JoinLinks.isList (lists : JoinLinks l joinee ready parked dead) :
    IsList l (.joiners joinee) (parked.map .readyList) := by
  obtain ⟨members, lists⟩ := lists
  rw [← lists.joiners]
  exact lists.lists.list (.joiners joinee) trivial

theorem JoinLinks.nodup (lists : JoinLinks l joinee ready parked dead) : parked.Nodup :=
  (List.nodup_cons.mp lists.isList.nodup).2.of_map

theorem JoinLinks.nodup_ready (lists : JoinLinks l joinee ready parked dead) : ready.Nodup :=
  (List.nodup_cons.mp lists.readyList.nodup).2.of_map

/-- What is on some `joiners` list is on the joinee's. -/
theorem JoinLinks.mem_parked (lists : JoinLinks l joinee ready parked dead) {other : Thread}
    {nodes : List QNode} (list : IsList l (.joiners other) nodes) (member : .readyList t ∈ nodes) :
    t ∈ parked := by
  obtain ⟨members, lists⟩ := lists
  rw [list.unique (lists.lists.list (.joiners other) trivial)] at member
  by_cases this : other = joinee
  · rw [this, lists.joiners, mem_map_readyList] at member
    exact member
  · rw [lists.others other this] at member
    cases member

theorem JoinLinks.apart (lists : JoinLinks l joinee ready parked dead) (queued : t ∈ ready) :
    t ∉ parked := by
  obtain ⟨members, lists⟩ := lists
  intro park
  have onReady : .readyList t ∈ members .readyQueue := by
    rw [lists.ready, mem_map_readyList]
    exact queued
  have onJoiners : .readyList t ∈ members (.joiners joinee) := by
    rw [lists.joiners, mem_map_readyList]
    exact park
  have same := lists.lists.apart _ _ _ readyQueueHead (joinersHead joinee) onReady onJoiners
  cases same

/-- A node that is linked is on the ready queue, with the joiners or on the dead queue. -/
theorem JoinLinks.linked_iff (lists : JoinLinks l joinee ready parked dead) :
    l.next (.readyList t) ≠ .readyList t ↔ t ∈ ready ∨ t ∈ parked ∨ (t = joinee ∧ dead) := by
  obtain ⟨members, lists⟩ := lists
  constructor
  · intro linked
    by_contra nowhere
    simp only [not_or] at nowhere
    obtain ⟨idle, unparked, alive⟩ := nowhere
    have alone := lists.lists.alone (.readyList t) (fun head => head)
      (lists.free idle unparked alive)
    exact linked alone.1
  · intro somewhere
    have onList : ∃ h : QNode, h.IsHead ∧ .readyList t ∈ members h := by
      rcases somewhere with queued | park | gone
      · refine ⟨.readyQueue, trivial, ?_⟩
        rw [lists.ready, mem_map_readyList]
        exact queued
      · refine ⟨.joiners joinee, trivial, ?_⟩
        rw [lists.joiners, mem_map_readyList]
        exact park
      · exact ⟨.deadQueue, trivial, (lists.buried t).mpr gone⟩
    obtain ⟨h, head, member⟩ := onList
    exact (lists.lists.list h head).next_ne member

/-! ## The list operations -/

/-- At first every thread there is on the ready queue. -/
theorem joinLinks_fresh {s : Threads} {present : List Thread}
    (queues : s.Queues fun h => if h = .readyQueue then present.map .readyList else []) (alive : ¬dead) :
    JoinLinks s.links joinee present [] dead := by
  refine ⟨_, queues.lists, ?_, ?_, fun t => ?_, fun other _ => ?_⟩
  · simp
  · simp
  · simp [alive]
  · simp

/-- Another list at the head of the ready queue. -/
theorem JoinMembers.setReady {m : Links QNode} {nodes : List QNode} {queue : List Thread}
    (lists : JoinMembers l joinee ready parked dead members)
    (family : ListFamily m QNode.IsHead (Function.update members .readyQueue nodes))
    (same : nodes = queue.map .readyList) : JoinLinks m joinee queue parked dead := by
  refine ⟨_, family, ?_, ?_, fun other => ?_, fun other this => ?_⟩
  · rw [Function.update_self]
    exact same
  · rw [Function.update_of_ne (by simp)]
    exact lists.joiners
  · rw [Function.update_of_ne (by simp)]
    exact lists.buried other
  · rw [Function.update_of_ne (by simp)]
    exact lists.others other this

/-- Another list of joiners. -/
theorem JoinMembers.setJoiners {m : Links QNode} {nodes : List QNode} {joiners : List Thread}
    (lists : JoinMembers l joinee ready parked dead members)
    (family : ListFamily m QNode.IsHead (Function.update members (.joiners joinee) nodes))
    (same : nodes = joiners.map .readyList) : JoinLinks m joinee ready joiners dead := by
  refine ⟨_, family, ?_, ?_, fun other => ?_, fun other this => ?_⟩
  · rw [Function.update_of_ne (by simp)]
    exact lists.ready
  · rw [Function.update_self]
    exact same
  · rw [Function.update_of_ne (by simp)]
    exact lists.buried other
  · rw [Function.update_of_ne (by simpa using this)]
    exact lists.others other this

/-- Another dead queue. -/
theorem JoinMembers.setDead {m : Links QNode} {nodes : List QNode} {gone : Prop}
    (lists : JoinMembers l joinee ready parked dead members)
    (family : ListFamily m QNode.IsHead (Function.update members .deadQueue nodes))
    (same : ∀ t, .readyList t ∈ nodes ↔ t = joinee ∧ gone) : JoinLinks m joinee ready parked gone := by
  refine ⟨_, family, ?_, ?_, fun other => ?_, fun other this => ?_⟩
  · rw [Function.update_of_ne (by simp)]
    exact lists.ready
  · rw [Function.update_of_ne (by simp)]
    exact lists.joiners
  · rw [Function.update_self]
    exact same other
  · rw [Function.update_of_ne (by simp)]
    exact lists.others other this

theorem JoinLinks.addReady (lists : JoinLinks l joinee ready parked dead) (idle : t ∉ ready)
    (unparked : t ∉ parked) (alive : ¬(t = joinee ∧ dead)) :
    JoinLinks (l.listAddTail (.readyList t) .readyQueue) joinee (ready ++ [t]) parked dead := by
  obtain ⟨members, lists⟩ := lists
  have free := lists.free idle unparked alive
  have family := lists.lists.listAddTail readyQueueHead (readyList_entry t) free
  apply lists.setReady family
  rw [lists.ready, List.map_append, List.map_singleton]

theorem JoinLinks.removeReady (lists : JoinLinks l joinee ready parked dead) (queued : t ∈ ready) :
    JoinLinks (l.listDelInit (.readyList t)) joinee (ready.erase t) parked dead := by
  obtain ⟨members, lists⟩ := lists
  have member : .readyList t ∈ members .readyQueue := by
    rw [lists.ready, mem_map_readyList]
    exact queued
  apply lists.setReady (lists.lists.listDelInit readyQueueHead member)
  rw [lists.ready, List.map_erase readyList_injective]

theorem JoinLinks.addJoiner (lists : JoinLinks l joinee ready parked dead) (idle : t ∉ ready)
    (unparked : t ∉ parked) (alive : ¬(t = joinee ∧ dead)) :
    JoinLinks (l.listAddTail (.readyList t) (.joiners joinee)) joinee ready (parked ++ [t]) dead := by
  obtain ⟨members, lists⟩ := lists
  have free := lists.free idle unparked alive
  have family := lists.lists.listAddTail (joinersHead joinee) (readyList_entry t) free
  apply lists.setJoiners family
  rw [lists.joiners, List.map_append, List.map_singleton]

theorem JoinLinks.removeJoiner (lists : JoinLinks l joinee ready parked dead) (park : t ∈ parked) :
    JoinLinks (l.listDelInit (.readyList t)) joinee ready (parked.erase t) dead := by
  obtain ⟨members, lists⟩ := lists
  have member : .readyList t ∈ members (.joiners joinee) := by
    rw [lists.joiners, mem_map_readyList]
    exact park
  apply lists.setJoiners (lists.lists.listDelInit (joinersHead joinee) member)
  rw [lists.joiners, List.map_erase readyList_injective]

theorem JoinLinks.addDead (lists : JoinLinks l joinee ready parked dead) (idle : joinee ∉ ready)
    (unparked : joinee ∉ parked) (alive : ¬dead) :
    JoinLinks (l.listAddTail (.readyList joinee) .deadQueue) joinee ready parked True := by
  obtain ⟨members, lists⟩ := lists
  have free := lists.free idle unparked (fun gone => alive gone.2)
  have family := lists.lists.listAddTail deadQueueHead (readyList_entry joinee) free
  apply lists.setDead family
  intro t
  rw [List.mem_append, lists.buried, List.mem_singleton]
  simp [alive]

theorem JoinLinks.removeDead (lists : JoinLinks l joinee ready parked dead) (gone : dead) :
    JoinLinks (l.listDelInit (.readyList joinee)) joinee ready parked False := by
  obtain ⟨members, lists⟩ := lists
  have member := (lists.buried joinee).mpr ⟨rfl, gone⟩
  have nodup := (List.nodup_cons.mp (lists.lists.list .deadQueue trivial).nodup).2
  apply lists.setDead (lists.lists.listDelInit deadQueueHead member)
  intro t
  rw [nodup.mem_erase_iff, lists.buried]
  simp only [ne_eq, QNode.readyList.injEq, and_false, iff_false, not_and]
  exact fun away this => absurd this away

/-- Taking off a node that is on no list changes nothing. -/
theorem JoinLinks.delFree (lists : JoinLinks l joinee ready parked dead) (idle : t ∉ ready)
    (unparked : t ∉ parked) (alive : ¬(t = joinee ∧ dead)) : l.listDelInit (.readyList t) = l := by
  obtain ⟨members, lists⟩ := lists
  have alone := lists.lists.alone (.readyList t) (fun head => head) (lists.free idle unparked alive)
  exact listDelInit_alone alone.1 alone.2

end Rules

/-! ## `sched_wake_joiners` -/

/-- `wake` puts a thread on the queue that is not RUNNABLE, hibernates or is
suspended. -/
def WakesOnto (s : Threads) (t : Thread) : Prop :=
  (s.flags t).runnable = false ∧ (s.flags t).hibernating = false ∧ (s.flags t).suspended = false

/-- The flags after `wake` has been called for the threads of `woken`. -/
def WokenFlags (s after : Threads) (woken : List Thread) : Prop :=
  ∀ t, (t ∈ woken → after.flags t = { s.flags t with
      runnable := (s.flags t).runnable || !((s.flags t).hibernating || (s.flags t).suspended) }) ∧
    (t ∉ woken → after.flags t = s.flags t)

section Wakes
variable {s after : Threads} {joinee t : Thread} {ready parked : List Thread} {dead : Prop}

/-- `wake` on a thread that is on no list. -/
theorem wake_links (lists : JoinLinks s.links joinee ready parked dead) (idle : t ∉ ready)
    (unparked : t ∉ parked) (alive : ¬(t = joinee ∧ dead)) (run : wake s t = .ok after) :
    ∃ queue, JoinLinks after.links joinee queue parked dead ∧
      ∀ u, u ∈ queue ↔ u ∈ ready ∨ (u = t ∧ WakesOnto s t) := by
  unfold wake at run
  split at run
  · cases run
  split at run
  · rename_i runs
    cases run
    exact ⟨ready, lists, fun u => by simp [WakesOnto, runs]⟩
  · rename_i stopped
    split at run
    · rename_i waits
      cases run
      refine ⟨ready, lists, fun u => ?_⟩
      have held : ¬WakesOnto s t := by
        intro ⟨_, hibernating, suspended⟩
        simp [hibernating, suspended] at waits
      simp [held]
    · rename_i free
      cases run
      refine ⟨_, lists.addReady idle unparked alive, fun u => ?_⟩
      have woken : WakesOnto s t := by
        simp only [Bool.or_eq_true, not_or, Bool.not_eq_true] at free
        exact ⟨Bool.eq_false_iff.mpr stopped, free⟩
      simp [woken]

/-- The walk takes every node off the list and wakes its thread. -/
theorem schedWakeJoiners_links {fuel : Nat} (lists : JoinLinks s.links joinee ready parked dead)
    (apart : joinee ∉ parked) (run : schedWakeJoiners fuel s joinee = .ok after) :
    (∃ queue, JoinLinks after.links joinee queue [] dead ∧
        ∀ u, u ∈ queue ↔ u ∈ ready ∨ (u ∈ parked ∧ WakesOnto s u)) ∧
      WokenFlags s after parked := by
  rw [schedWakeJoiners, lists.isList.next_head] at run
  induction parked generalizing fuel s ready with
  | nil =>
    have same : after = s := by
      cases fuel <;> simpa [wakeJoinersFrom, eq_comm] using run
    rw [same]
    exact ⟨⟨ready, lists, fun u => by simp⟩,
      fun t => ⟨fun member => absurd member List.not_mem_nil, fun _ => rfl⟩⟩
  | cons t rest ih =>
    cases fuel with
    | zero => simp [wakeJoinersFrom] at run
    | succ fuel =>
      simp only [List.map_cons, List.headD_cons, wakeJoinersFrom] at run
      rw [if_neg (by simp)] at run
      obtain ⟨middle, first, run⟩ := Halt.bind_eq_ok.mp run
      have member : s.links.next (.readyList t) = (rest.map QNode.readyList).headD (.joiners joinee) := by
        have list : IsList s.links (.joiners joinee)
            ([] ++ .readyList t :: rest.map QNode.readyList) := lists.isList
        exact list.next_member
      have nodup := List.nodup_cons.mp lists.nodup
      have idle : t ∉ ready := fun queued => lists.apart queued (List.mem_cons_self ..)
      have removed := lists.removeJoiner (List.mem_cons_self ..)
      rw [List.erase_cons_head] at removed
      have alive : ¬(t = joinee ∧ dead) := fun gone => apart (gone.1 ▸ List.mem_cons_self ..)
      obtain ⟨queue, woken, onto⟩ := wake_links (s := s.unlink t) removed idle nodup.1 alive first
      rw [member] at run
      obtain ⟨⟨last, empty, onLast⟩, flags⟩ :=
        ih woken (fun later => apart (List.mem_cons_of_mem t later)) run
      have firstFlags : ∀ other, other ≠ t → middle.flags other = s.flags other := by
        intro other this
        rw [(wake_ok first).2, if_neg this, unlink_flags]
      refine ⟨⟨last, empty, fun other => ?_⟩, fun other => ?_⟩
      · rw [onLast, onto, List.mem_cons]
        by_cases this : other = t
        · subst this
          simp [nodup.1, WakesOnto]
        · simp [this, WakesOnto, firstFlags other this]
      · obtain ⟨inRest, outside⟩ := flags other
        by_cases this : other = t
        · subst this
          rw [outside nodup.1, (wake_ok first).2, if_pos rfl, unlink_flags]
          simp
        · rw [firstFlags other this] at inRest outside
          simp only [List.mem_cons, this, false_or]
          exact ⟨inRest, outside⟩

theorem wakeAnyJoiners_links {fuel : Nat} (lists : JoinLinks s.links joinee ready parked dead)
    (apart : joinee ∉ parked) (run : wakeAnyJoiners fuel s joinee = .ok after) :
    (∃ queue, JoinLinks after.links joinee queue [] dead ∧
        ∀ u, u ∈ queue ↔ u ∈ ready ∨ (u ∈ parked ∧ WakesOnto s u)) ∧
      WokenFlags s after parked := by
  unfold wakeAnyJoiners at run
  split at run
  · exact schedWakeJoiners_links lists apart run
  · rename_i empty
    have ran : schedWakeJoiners 0 s joinee = .ok after := by
      rw [schedWakeJoiners, wakeJoinersFrom, if_pos (not_not.mp empty)]
      exact run
    exact schedWakeJoiners_links lists apart ran

end Wakes

/-! ## The ready queue and RUNNABLE together -/

def Threads.JoinLists (s : Threads) (joinee : Thread) (parked : List Thread) (dead : Prop) : Prop :=
  ∃ ready, JoinLinks s.links joinee ready parked dead ∧ ∀ t, t ∈ ready ↔ (s.flags t).runnable = true

section Flagged
variable {s after : Threads} {joinee t : Thread} {parked : List Thread} {dead : Prop}
  {f : Flags → Flags}

theorem Threads.JoinLists.linked_iff (lists : s.JoinLists joinee parked dead) :
    s.linked t = true ↔ (s.flags t).runnable = true ∨ t ∈ parked ∨ (t = joinee ∧ dead) := by
  obtain ⟨ready, links, runs⟩ := lists
  rw [Threads.linked, decide_eq_true_iff, links.linked_iff, runs]

theorem Threads.JoinLists.isList (lists : s.JoinLists joinee parked dead) :
    IsList s.links (.joiners joinee) (parked.map .readyList) := by
  obtain ⟨ready, links, _⟩ := lists
  exact links.isList

theorem Threads.JoinLists.nodup (lists : s.JoinLists joinee parked dead) : parked.Nodup := by
  obtain ⟨ready, links, _⟩ := lists
  exact links.nodup

theorem Threads.JoinLists.mark (lists : s.JoinLists joinee parked dead)
    (same : (f (s.flags t)).runnable = (s.flags t).runnable) :
    (s.setFlags t f).JoinLists joinee parked dead := by
  obtain ⟨ready, links, runs⟩ := lists
  refine ⟨ready, links, fun other => ?_⟩
  rw [runs, setFlags_flags]
  by_cases this : other = t
  · rw [if_pos this, this, same]
  · rw [if_neg this]

theorem Threads.JoinLists.enqueue (lists : s.JoinLists joinee parked dead)
    (stopped : (s.flags t).runnable = false) (unparked : t ∉ parked) (alive : ¬(t = joinee ∧ dead))
    (on : (f (s.flags t)).runnable = true) :
    ((s.setFlags t f).enqueue t).JoinLists joinee parked dead := by
  obtain ⟨ready, links, runs⟩ := lists
  have idle : t ∉ ready := by
    rw [runs, stopped]
    decide
  refine ⟨_, links.addReady idle unparked alive, fun other => ?_⟩
  rw [List.mem_append, List.mem_singleton, runs, enqueue_flags, setFlags_flags]
  by_cases this : other = t
  · simp [this, on]
  · simp [this]

theorem Threads.JoinLists.dequeue (lists : s.JoinLists joinee parked dead)
    (running : (s.flags t).runnable = true) (off : (f (s.flags t)).runnable = false) :
    ((s.setFlags t f).unlink t).JoinLists joinee parked dead := by
  obtain ⟨ready, links, runs⟩ := lists
  refine ⟨_, links.removeReady ((runs t).mpr running), fun other => ?_⟩
  rw [links.nodup_ready.mem_erase_iff, runs, unlink_flags, setFlags_flags]
  by_cases this : other = t
  · simp [this, off]
  · simp [this]

theorem Threads.JoinLists.unlink_free (lists : s.JoinLists joinee parked dead)
    (stopped : (s.flags t).runnable = false) (unparked : t ∉ parked) (alive : ¬(t = joinee ∧ dead)) :
    s.unlink t = s := by
  obtain ⟨ready, links, runs⟩ := lists
  have idle : t ∉ ready := by
    rw [runs, stopped]
    decide
  rw [Threads.unlink, links.delFree idle unparked alive]

theorem Threads.JoinLists.addJoiner (lists : s.JoinLists joinee parked dead)
    (stopped : (s.flags t).runnable = false) (unparked : t ∉ parked) (alive : ¬(t = joinee ∧ dead)) :
    (s.addJoiner joinee t).JoinLists joinee (parked ++ [t]) dead := by
  obtain ⟨ready, links, runs⟩ := lists
  have idle : t ∉ ready := by
    rw [runs, stopped]
    decide
  exact ⟨ready, links.addJoiner idle unparked alive, runs⟩

theorem Threads.JoinLists.removeJoiner (lists : s.JoinLists joinee parked dead) (park : t ∈ parked) :
    (s.unlink t).JoinLists joinee (parked.erase t) dead := by
  obtain ⟨ready, links, runs⟩ := lists
  exact ⟨ready, links.removeJoiner park, runs⟩

/-- What is woken is RUNNABLE and on the queue, or waits for its resumption. -/
theorem wakeAnyJoiners_ok {fuel : Nat} (lists : s.JoinLists joinee parked dead)
    (apart : joinee ∉ parked) (run : wakeAnyJoiners fuel s joinee = .ok after) :
    after.JoinLists joinee [] dead ∧ WokenFlags s after parked := by
  obtain ⟨ready, links, runs⟩ := lists
  obtain ⟨⟨queue, empty, onto⟩, flags⟩ := wakeAnyJoiners_links links apart run
  refine ⟨⟨queue, empty, fun u => ?_⟩, flags⟩
  rw [onto, runs]
  by_cases member : u ∈ parked
  · rw [(flags u).1 member]
    by_cases running : (s.flags u).runnable = true
    · simp [running]
    · simp [member, WakesOnto, Bool.eq_false_iff.mpr running]
  · rw [(flags u).2 member]
    simp [member]

theorem exitThread_ok {fuel : Nat} (lists : s.JoinLists joinee parked False)
    (apart : joinee ∉ parked) (stopped : (s.flags joinee).runnable = false)
    (run : exitThread fuel s joinee = .ok after) : after.JoinLists joinee [] True ∧
      WokenFlags (s.setFlags joinee fun f => { f with dying := true }) after parked := by
  obtain ⟨ready, links, runs⟩ := lists.mark (t := joinee) (f := fun f => { f with dying := true }) rfl
  have idle : joinee ∉ ready := by
    rw [runs, setFlags_flags, if_pos rfl]
    simp [stopped]
  have buried : ((s.setFlags joinee fun f => { f with dying := true }).addDead joinee).JoinLists
      joinee parked True := ⟨ready, links.addDead idle apart not_false, runs⟩
  obtain ⟨empty, flags⟩ := wakeAnyJoiners_ok buried apart run
  exact ⟨empty, flags⟩

theorem reapDead_ok {fuel : Nat} (lists : s.JoinLists joinee parked True) (apart : joinee ∉ parked)
    (run : reapDead fuel s joinee = .ok after) :
    after.JoinLists joinee [] False ∧ WokenFlags s after parked := by
  obtain ⟨ready, links, runs⟩ := lists
  have removed : (s.unlink joinee).JoinLists joinee parked False :=
    ⟨ready, links.removeDead trivial, runs⟩
  obtain ⟨empty, flags⟩ := wakeAnyJoiners_ok removed apart run
  exact ⟨empty, flags⟩

end Flagged

/-! ## Two threads -/

/-- Thread 1 runs, and thread 2 does. -/
def twoThreads : Threads :=
  (startThread (startThread noThreads (.thread 1)) (.thread 2)).setFlags (.thread 1) fun f =>
    { f with running := true }

theorem twoThreads_queues : twoThreads.Queues fun h =>
    if h = .readyQueue then [Thread.thread 1, .thread 2].map .readyList else [] := by
  have first := startThread_queues (t := .thread 1) noThreads_queues fun _ _ => List.not_mem_nil
  have second := startThread_queues (t := .thread 2) first fun h _ => by
    by_cases this : h = .readyQueue
    · simp [this]
    · simp [this]
  have marked := second.mark (t := .thread 1) (f := fun f => { f with running := true }) rfl
  have members : (fun h => if h = .readyQueue then
      [Thread.thread 1, .thread 2].map QNode.readyList else []) =
      Function.update (Function.update (fun _ => []) QNode.readyQueue
        ([] ++ [.readyList (.thread 1)])) .readyQueue
        (Function.update (fun _ => []) QNode.readyQueue ([] ++ [.readyList (.thread 1)]) .readyQueue ++
          [.readyList (.thread 2)]) := by
    funext h
    by_cases this : h = .readyQueue
    · simp [this]
    · simp [this]
  rw [members]
  exact marked

end Stardust.Sched
