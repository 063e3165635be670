import Mathlib.Data.Set.List
import Stardust.Lib.Reach
import Stardust.Sched.Queues

/-! # The ready queue under sleep, semaphores and suspension

Threads start, block, sleep and wait for semaphores, other threads wake, suspend and
resume them, and processors pick from the queue, in any order.  A thread is in
one call of its own at a time; what others do to it needs it only to exist. -/
set_option autoImplicit false
namespace Stardust.Sched

open Stardust.Lib

/-! ## The state and its steps -/

/-- Where a thread is in its own code. -/
inductive Place
  /-- `create_thread` has not been followed by `start_thread` -/
  | created
  | outside
  /-- in `nanosleep`, after `block` -/
  | blocked
  /-- in `nanosleep`, with the SLEEP flag set -/
  | flagged
  /-- in `nanosleep`, on the sleep queue -/
  | asleep
  /-- waiting for a semaphore -/
  | hibernated
  deriving DecidableEq

structure QueueRun where
  threads : Threads
  place : Nat → Place
  /-- ghost: a node was put on the ready queue that was on a list -/
  relinked : Bool

inductive QueueOp
  | start (t : Nat)
  | block (t : Nat)
  | wake (t : Nat)
  | nanosleepBlock (t : Nat)
  | nanosleepFlag (t : Nat)
  | sleepQueueAdd (t : Nat)
  /-- `sched_wake_expired` comes to the entry of the thread -/
  | expire (t : Nat)
  /-- the rest of `nanosleep`, after `schedule` -/
  | cleanUp (t : Nat)
  | hibernate (t : Nat)
  | restore (t : Nat)
  | suspend (t : Nat)
  | wakeSuspended (t : Nat)
  | pick (prev : Thread) (cpu here : Nat)
  deriving DecidableEq

/-! Whether a call puts the thread on the queue. -/

def wakeAdds (s : Threads) (t : Thread) : Bool :=
  !(s.flags t).runnable && !((s.flags t).hibernating || (s.flags t).suspended)

def restoreAdds (s : Threads) (t : Thread) : Bool := !((s.flags t).suspended || (s.flags t).sleeping)

def wakeSuspendedAdds (s : Threads) (t : Thread) : Bool :=
  !((s.flags t).hibernating || (s.flags t).sleeping || (s.flags t).joining)

/-- The state after a call on `t`. -/
def QueueRun.call (state : QueueRun) (t : Nat) (adds : Bool) (threads : Threads) : QueueRun :=
  { state with
    threads := threads
    relinked := state.relinked || (adds && state.threads.linked (.thread t)) }

def QueueRun.goTo (state : QueueRun) (t : Nat) (place : Place) : QueueRun :=
  { state with place := Function.update state.place t place }

/-- A limit of `threadId` nodes for the walk along the queue.  The handle that
`suspend_pthread` needs is stored after `start_thread`. -/
def queueStep (threadId : Nat) (state : QueueRun) : QueueOp → Option QueueRun
  | .start t =>
    if state.place t = .created then
      some ((state.call t true (startThread state.threads (.thread t))).goTo t .outside)
    else none
  | .block t =>
    if state.place t = .outside then
      (block state.threads (.thread t)).toOption.map fun threads => state.call t false threads
    else none
  | .wake t =>
    if state.place t ≠ .created then
      (wake state.threads (.thread t)).toOption.map fun threads =>
        state.call t (wakeAdds state.threads (.thread t)) threads
    else none
  | .nanosleepBlock t =>
    if state.place t = .outside then
      (block state.threads (.thread t)).toOption.map fun threads =>
        (state.call t false threads).goTo t .blocked
    else none
  | .nanosleepFlag t =>
    if state.place t = .blocked then
      some ((state.call t false
        (state.threads.setFlags (.thread t) fun f => { f with sleeping := true })).goTo t .flagged)
    else none
  | .sleepQueueAdd t => if state.place t = .flagged then some (state.goTo t .asleep) else none
  | .expire t =>
    if state.place t = .asleep then
      (wake state.threads (.thread t)).toOption.map fun threads =>
        state.call t (wakeAdds state.threads (.thread t)) threads
    else none
  | .cleanUp t =>
    if state.place t = .asleep then
      some ((state.call t false (if (state.threads.flags (.thread t)).sleeping
        then state.threads.setFlags (.thread t) fun f => { f with sleeping := false }
        else state.threads)).goTo t .outside)
    else none
  | .hibernate t =>
    if state.place t = .outside then
      some ((state.call t false (hibernate state.threads (.thread t))).goTo t .hibernated)
    else none
  | .restore t =>
    if state.place t = .hibernated then
      some ((state.call t (restoreAdds state.threads (.thread t))
        (restore state.threads (.thread t))).goTo t .outside)
    else none
  | .suspend t =>
    if state.place t ≠ .created ∧ (state.threads.flags (.thread t)).dying = false ∧
        (state.threads.flags (.thread t)).suspended = false then
      some (state.call t false (suspendThread state.threads (.thread t)))
    else none
  | .wakeSuspended t =>
    if state.place t ≠ .created ∧ (state.threads.flags (.thread t)).dying = false ∧
        (state.threads.flags (.thread t)).suspended = true then
      some (state.call t (wakeSuspendedAdds state.threads (.thread t))
        (wakeSuspendedThread state.threads (.thread t)))
    else none
  | .pick prev cpu here =>
    (pickThread threadId state.threads prev cpu here).toOption.map fun result =>
      { state with threads := result.2 }

abbrev QueueStep (threadId : Nat) (before : QueueRun) (op : QueueOp) (after : QueueRun) : Prop :=
  queueStep threadId before op = some after

/-- No thread has been started and all lists are empty. -/
structure FreshQueue (state : QueueRun) : Prop where
  flags : ∀ t, state.threads.flags (.thread t) = ⟨false, false, false, false, false, false, false⟩
  idle : ∀ cpu, (state.threads.flags (.idle cpu)).runnable = false
  links : ∀ n, state.threads.links.next n = n ∧ state.threads.links.prev n = n
  place : ∀ t, state.place t = .created
  relinked : state.relinked = false

/-- No linked node was linked again, and the ready queue holds the RUNNABLE threads
once each. -/
structure QueueIntact (state : QueueRun) : Prop where
  relinked : state.relinked = false
  ready : ∃ queue : List Nat,
    IsList state.threads.links .readyQueue (queue.map fun t => .readyList (.thread t)) ∧
      ∀ t, t ∈ queue ↔ (state.threads.flags (.thread t)).runnable = true

/-- `suspend_thread` is not called on a thread that is RUNNABLE with its SLEEP flag
set: one that has been woken in `nanosleep` and has not cleaned up. -/
def SuspendsSettled (state : QueueRun) : QueueOp → Prop
  | .suspend t => ¬((state.threads.flags (.thread t)).runnable = true ∧
      (state.threads.flags (.thread t)).sleeping = true)
  | _ => True

instance (state : QueueRun) (op : QueueOp) : Decidable (SuspendsSettled state op) := by
  cases op <;> unfold SuspendsSettled <;> infer_instance

/-! ## The ready queue as the only list in use -/

def Threads.OnReadyQueue (s : Threads) : Prop :=
  ∃ members, s.Queues members ∧ ∀ h : QNode, h.IsHead → h ≠ .readyQueue → members h = []

section Lists
variable {s after : Threads} {t : Thread} {f : Flags → Flags}

theorem free_of_stopped {members : QNode → List QNode} (queues : s.Queues members)
    (only : ∀ h : QNode, h.IsHead → h ≠ .readyQueue → members h = [])
    (stopped : (s.flags t).runnable = false) : Free members t := by
  intro h head member
  by_cases ready : h = .readyQueue
  · rw [ready, queues.ready, stopped] at member
    cases member
  · rw [only h head ready] at member
    cases member

theorem Threads.OnReadyQueue.linked_of_stopped (lists : s.OnReadyQueue)
    (stopped : (s.flags t).runnable = false) : s.linked t = false := by
  obtain ⟨members, queues, only⟩ := lists
  exact queues.linked_of_free (free_of_stopped queues only stopped)

theorem Threads.OnReadyQueue.mark (lists : s.OnReadyQueue)
    (same : (f (s.flags t)).runnable = (s.flags t).runnable) : (s.setFlags t f).OnReadyQueue := by
  obtain ⟨members, queues, only⟩ := lists
  exact ⟨members, queues.mark same, only⟩

theorem Threads.OnReadyQueue.enqueue (lists : s.OnReadyQueue)
    (stopped : (s.flags t).runnable = false) (on : (f (s.flags t)).runnable = true) :
    ((s.setFlags t f).enqueue t).OnReadyQueue := by
  obtain ⟨members, queues, only⟩ := lists
  refine ⟨_, queues.enqueue (free_of_stopped queues only stopped) on, fun h head other => ?_⟩
  rw [Function.update_of_ne other]
  exact only h head other

theorem Threads.OnReadyQueue.unlink (lists : s.OnReadyQueue)
    (off : (f (s.flags t)).runnable = false) : ((s.setFlags t f).unlink t).OnReadyQueue := by
  obtain ⟨members, queues, only⟩ := lists
  by_cases runs : (s.flags t).runnable = true
  · refine ⟨_, queues.dequeue runs off, fun h head other => ?_⟩
    rw [Function.update_of_ne other]
    exact only h head other
  · have stopped := Bool.eq_false_iff.mpr runs
    have marked := queues.mark (off.trans stopped.symm)
    rw [unlink_free marked (free_of_stopped queues only stopped)]
    exact ⟨members, marked, only⟩

/-- `pick_thread` takes a RUNNABLE thread to the end of the queue. -/
theorem Threads.OnReadyQueue.requeue (lists : s.OnReadyQueue)
    (runs : (s.flags t).runnable = true) : ((s.unlink t).enqueue t).OnReadyQueue := by
  have off := lists.unlink (t := t) (f := fun f => { f with runnable := false }) rfl
  have on := off.enqueue (t := t) (f := fun f => { f with runnable := true })
    (by rw [unlink_flags, setFlags_flags, if_pos rfl]) rfl
  have same : (((s.setFlags t fun f => { f with runnable := false }).unlink t).setFlags t fun f =>
      { f with runnable := true }).enqueue t = (s.unlink t).enqueue t := by
    have flags : { s.flags t with runnable := true } = s.flags t := by
      rw [← runs]
    simp [Threads.enqueue, Threads.unlink, Threads.setFlags, flags, Function.update_eq_self]
  rw [same] at on
  exact on

/-- What hangs on the queue are nodes of the RUNNABLE threads. -/
theorem Threads.OnReadyQueue.queue (lists : s.OnReadyQueue) : ∃ queue : List Thread,
    IsList s.links .readyQueue (queue.map .readyList) ∧
      ∀ t, t ∈ queue ↔ (s.flags t).runnable = true := by
  obtain ⟨members, queues, _⟩ := lists
  have nodes : members .readyQueue ∈ Set.range (List.map QNode.readyList) := by
    rw [Set.range_list_map]
    intro n member
    have entry := queues.lists.entry .readyQueue trivial n member
    cases n with
    | readyList t => exact ⟨t, rfl⟩
    | readyQueue => exact absurd trivial entry
    | deadQueue => exact absurd trivial entry
    | joiners t => exact absurd trivial entry
  obtain ⟨queue, same⟩ := nodes
  refine ⟨queue, ?_, fun t => ?_⟩
  · rw [same]
    exact queues.lists.list .readyQueue trivial
  · rw [← queues.ready, ← same, List.mem_map]
    simp

end Lists

/-! ## What each call keeps -/

structure Threads.Settled (s : Threads) : Prop where
  lists : s.OnReadyQueue
  idle : ∀ cpu, (s.flags (.idle cpu)).runnable = false
  resting : ∀ t, (s.flags t).suspended = true ∨ (s.flags t).hibernating = true →
    (s.flags t).runnable = false
  joining : ∀ t, (s.flags (.thread t)).joining = false

section Calls
variable {s after : Threads} {t : Nat} {g : Flags}

/-- The flags of one thread have become `g`. -/
theorem Threads.Settled.changed (settled : s.Settled) (lists : after.OnReadyQueue)
    (flags : ∀ other, after.flags other = if other = .thread t then g else s.flags other)
    (resting : g.suspended = true ∨ g.hibernating = true → g.runnable = false)
    (joining : g.joining = false) : after.Settled := by
  refine ⟨lists, fun cpu => ?_, fun other => ?_, fun other => ?_⟩
  · rw [flags, if_neg (by simp)]
    exact settled.idle cpu
  · rw [flags]
    split
    · exact resting
    · exact settled.resting other
  · rw [flags]
    split
    · exact joining
    · exact settled.joining other

theorem Threads.Settled.mark (settled : s.Settled) {f : Flags → Flags}
    (runnable : (f (s.flags (.thread t))).runnable = (s.flags (.thread t)).runnable)
    (suspended : (f (s.flags (.thread t))).suspended = (s.flags (.thread t)).suspended)
    (hibernating : (f (s.flags (.thread t))).hibernating = (s.flags (.thread t)).hibernating)
    (joining : (f (s.flags (.thread t))).joining = (s.flags (.thread t)).joining) :
    (s.setFlags (.thread t) f).Settled := by
  apply settled.changed (settled.lists.mark runnable) (fun other => setFlags_flags)
  · rw [runnable, suspended, hibernating]
    exact settled.resting _
  · rw [joining]
    exact settled.joining t

theorem startThread_settled (settled : s.Settled)
    (stopped : (s.flags (.thread t)).runnable = false)
    (suspended : (s.flags (.thread t)).suspended = false)
    (hibernating : (s.flags (.thread t)).hibernating = false) :
    (startThread s (.thread t)).Settled := by
  apply settled.changed (settled.lists.enqueue stopped rfl) (fun other => startThread_flags)
  · simp [suspended, hibernating]
  · exact settled.joining t

theorem block_settled (settled : s.Settled) (run : block s (.thread t) = .ok after) :
    after.Settled := by
  obtain ⟨runs, _, flags⟩ := block_ok run
  apply settled.changed _ flags (fun _ => rfl) (settled.joining t)
  have awake : ¬((s.flags (.thread t)).suspended = true ∨
      (s.flags (.thread t)).hibernating = true) := by
    intro rests
    rw [settled.resting _ rests] at runs
    cases runs
  have joining := settled.joining t
  unfold block at run
  rw [if_neg (by simp [runs])] at run
  cases run
  simp only [setFlags_flags, if_true]
  rw [if_neg (by simp_all)]
  exact settled.lists.unlink rfl

theorem wake_settled (settled : s.Settled) (run : wake s (.thread t) = .ok after) :
    after.Settled := by
  obtain ⟨_, flags⟩ := wake_ok run
  apply settled.changed _ flags
  · intro rests
    have stopped := settled.resting _ rests
    rcases rests with suspended | hibernating <;> simp_all
  · exact settled.joining t
  · unfold wake at run
    split at run
    · cases run
    split at run
    · cases run
      exact settled.lists
    · rename_i stopped
      split at run
      · cases run
        exact settled.lists
      · cases run
        exact settled.lists.enqueue (Bool.eq_false_iff.mpr stopped) rfl

theorem hibernate_settled (settled : s.Settled) (awake : (s.flags (.thread t)).sleeping = false) :
    (hibernate s (.thread t)).Settled := by
  apply settled.changed _ (fun other => hibernate_flags) (fun _ => rfl) (settled.joining t)
  unfold hibernate
  simp only [setFlags_flags, if_true, awake, Bool.or_false]
  split
  · rename_i suspended
    apply settled.lists.mark
    exact (settled.resting _ (Or.inl suspended)).symm
  · exact settled.lists.unlink rfl

theorem restore_settled (settled : s.Settled)
    (hibernating : (s.flags (.thread t)).hibernating = true) :
    (restore s (.thread t)).Settled := by
  have stopped := settled.resting _ (Or.inr hibernating)
  apply settled.changed _ (fun other => restore_flags)
  · intro rests
    simp_all
  · exact settled.joining t
  · unfold restore
    simp only [setFlags_flags, if_true]
    have marked := settled.lists.mark (t := .thread t) (f := fun f => { f with hibernating := false }) rfl
    split
    · exact marked
    · apply marked.enqueue _ rfl
      rw [setFlags_flags, if_pos rfl]
      exact stopped

theorem suspendThread_settled (settled : s.Settled)
    (awake : ¬((s.flags (.thread t)).runnable = true ∧ (s.flags (.thread t)).sleeping = true)) :
    (suspendThread s (.thread t)).Settled := by
  apply settled.changed _ (fun other => suspendThread_flags) (fun _ => rfl) (settled.joining t)
  unfold suspendThread
  simp only [setFlags_flags, if_true, settled.joining t, Bool.or_false]
  split
  · rename_i waits
    apply settled.lists.mark
    apply Eq.symm
    rcases Bool.or_eq_true_iff.mp waits with hibernating | sleeping
    · exact settled.resting _ (Or.inr hibernating)
    · exact Bool.eq_false_iff.mpr fun runs => awake ⟨runs, sleeping⟩
  · exact settled.lists.unlink rfl

theorem wakeSuspendedThread_settled (settled : s.Settled)
    (suspended : (s.flags (.thread t)).suspended = true) :
    (wakeSuspendedThread s (.thread t)).Settled := by
  have stopped := settled.resting _ (Or.inl suspended)
  apply settled.changed _ (fun other => wakeSuspendedThread_flags)
  · intro rests
    simp_all
  · exact settled.joining t
  · unfold wakeSuspendedThread
    simp only [setFlags_flags, if_true]
    have marked := settled.lists.mark (t := .thread t) (f := fun f => { f with suspended := false }) rfl
    split
    · exact marked
    · apply marked.enqueue _ rfl
      rw [setFlags_flags, if_pos rfl]
      exact stopped

theorem pickThread_settled (settled : s.Settled) {threadId cpu here : Nat} {prev next : Thread}
    (run : pickThread threadId s prev cpu here = .ok (next, after)) : after.Settled := by
  obtain ⟨_, _, flags⟩ := pickThread_ok run
  have runnable : ∀ other, (after.flags other).runnable = (s.flags other).runnable := by
    intro other
    rw [flags]
    split
    · rename_i this
      rw [this]
    · rfl
  refine ⟨?_, fun cpu => ?_, fun other rests => ?_, fun other => ?_⟩
  · unfold pickThread at run
    obtain ⟨found, walk, run⟩ := Halt.bind_eq_ok.mp run
    have lists : (if (s.flags prev).runnable = true ∧ prev ≠ .idle here then
        (s.unlink prev).enqueue prev else s).OnReadyQueue := by
      split
      · rename_i runs
        exact settled.lists.requeue runs.1
      · exact settled.lists
    cases found with
    | some thread =>
      cases run
      exact lists.mark rfl
    | none =>
      cases run
      exact lists.mark rfl
  · rw [runnable]
    exact settled.idle cpu
  · rw [runnable]
    apply settled.resting
    rw [flags] at rests
    split at rests
    · rename_i this
      rw [this]
      exact rests
    · exact rests
  · rw [flags]
    split
    · rename_i this
      rw [← this]
      exact settled.joining other
    · exact settled.joining other

end Calls

/-! ## The invariant -/

/-- Where the threads are explains their flags. -/
structure Queued (state : QueueRun) : Prop where
  relinked : state.relinked = false
  settled : state.threads.Settled
  created : ∀ t, state.place t = .created →
    (state.threads.flags (.thread t)).runnable = false ∧
      (state.threads.flags (.thread t)).suspended = false
  sleeping : ∀ t, (state.threads.flags (.thread t)).sleeping = true →
    state.place t = .flagged ∨ state.place t = .asleep
  hibernating : ∀ t, (state.threads.flags (.thread t)).hibernating = true ↔
    state.place t = .hibernated

section Runs
variable {threadId : Nat} {state after : QueueRun} {op : QueueOp} {t : Nat}

theorem Queued.start (fresh : FreshQueue state) : Queued state := by
  obtain ⟨flags, idle, links, place, relinked⟩ := fresh
  refine ⟨relinked, ⟨⟨fun _ => [], ⟨?_, fun other => ?_⟩, fun _ _ _ => rfl⟩, idle, ?_, ?_⟩, ?_, ?_, ?_⟩
  · refine ⟨fun h head => ⟨links h, List.nodup_singleton h⟩, fun _ _ _ member => ?_,
      fun _ _ _ _ _ member => ?_, fun n _ _ => links n⟩
    · cases member
    · cases member
  · cases other with
    | idle cpu => simp [idle]
    | thread t => simp [flags]
  · intro other rests
    cases other with
    | idle cpu => exact idle cpu
    | thread t => rw [flags]
  · intro t
    rw [flags]
  · intro t _
    rw [flags]
    exact ⟨rfl, rfl⟩
  · intro t sleeps
    rw [flags] at sleeps
    cases sleeps
  · intro t
    rw [flags, place]
    simp

/-- A call on `t` that leaves it with the flags `g` in the place `place`. -/
theorem Queued.call (inv : Queued state) {adds : Bool} {threads : Threads} {g : Flags}
    {place : Place} (settled : threads.Settled)
    (flags : ∀ other, threads.flags other = if other = .thread t then g
      else state.threads.flags other)
    (free : adds = true → (state.threads.flags (.thread t)).runnable = false)
    (started : place ≠ .created)
    (sleeping : g.sleeping = true → place = .flagged ∨ place = .asleep)
    (hibernating : g.hibernating = true ↔ place = .hibernated) :
    Queued ((state.call t adds threads).goTo t place) := by
  have others : ∀ other, other ≠ t → threads.flags (.thread other) =
      state.threads.flags (.thread other) := by
    intro other this
    rw [flags, if_neg (by simpa using this)]
  have mine : threads.flags (.thread t) = g := by
    rw [flags, if_pos rfl]
  refine ⟨?_, settled, fun other => ?_, fun other => ?_, fun other => ?_⟩
  · simp only [QueueRun.goTo, QueueRun.call, inv.relinked, Bool.false_or]
    cases adds with
    | false => rfl
    | true => exact inv.settled.lists.linked_of_stopped (free rfl)
  · simp only [QueueRun.goTo, QueueRun.call]
    by_cases this : other = t
    · rw [this, Function.update_self]
      exact fun same => absurd same started
    · rw [Function.update_of_ne this, others other this]
      exact inv.created other
  · simp only [QueueRun.goTo, QueueRun.call]
    by_cases this : other = t
    · rw [this, Function.update_self, mine]
      exact sleeping
    · rw [Function.update_of_ne this, others other this]
      exact inv.sleeping other
  · simp only [QueueRun.goTo, QueueRun.call]
    by_cases this : other = t
    · rw [this, Function.update_self, mine]
      exact hibernating
    · rw [Function.update_of_ne this, others other this]
      exact inv.hibernating other

/-- A call that leaves the thread where it is. -/
theorem Queued.callStay (inv : Queued state) {adds : Bool} {threads : Threads} {g : Flags}
    (settled : threads.Settled)
    (flags : ∀ other, threads.flags other = if other = .thread t then g
      else state.threads.flags other)
    (free : adds = true → (state.threads.flags (.thread t)).runnable = false)
    (started : state.place t ≠ .created)
    (sleeping : g.sleeping = (state.threads.flags (.thread t)).sleeping)
    (hibernating : g.hibernating = (state.threads.flags (.thread t)).hibernating) :
    Queued (state.call t adds threads) := by
  have stays : state.call t adds threads =
      (state.call t adds threads).goTo t (state.place t) := by
    simp [QueueRun.goTo, QueueRun.call, Function.update_eq_self]
  rw [stays]
  apply inv.call settled flags free started
  · rw [sleeping]
    exact inv.sleeping t
  · rw [hibernating]
    exact inv.hibernating t

theorem Queued.wake (inv : Queued state) (started : state.place t ≠ .created) {threads : Threads}
    (run : wake state.threads (.thread t) = .ok threads) :
    Queued (state.call t (wakeAdds state.threads (.thread t)) threads) := by
  apply inv.callStay (wake_settled inv.settled run) (wake_ok run).2 _ started rfl rfl
  intro adds
  simp only [wakeAdds, Bool.and_eq_true, Bool.not_eq_true'] at adds
  exact adds.1

theorem Queued.awake (inv : Queued state) (outside : state.place t ≠ .flagged)
    (up : state.place t ≠ .asleep) : (state.threads.flags (.thread t)).sleeping = false := by
  apply Bool.eq_false_iff.mpr
  intro sleeps
  rcases inv.sleeping t sleeps with place | place
  · exact outside place
  · exact up place

theorem Queued.warm (inv : Queued state) (place : state.place t ≠ .hibernated) :
    (state.threads.flags (.thread t)).hibernating = false :=
  Bool.eq_false_iff.mpr fun cold => place ((inv.hibernating t).mp cold)

@[simp] theorem QueueRun.call_self (state : QueueRun) (t : Nat) :
    state.call t false state.threads = state := by
  simp [QueueRun.call]

theorem flags_self (s : Threads) (other : Thread) :
    s.flags other = if other = .thread t then s.flags (.thread t) else s.flags other := by
  split
  · rename_i this
    rw [this]
  · rfl

theorem Queued.pick (inv : Queued state) {cpu here : Nat} {prev next : Thread} {threads : Threads}
    (run : pickThread threadId state.threads prev cpu here = .ok (next, threads)) :
    Queued { state with threads := threads } := by
  obtain ⟨_, _, flags⟩ := pickThread_ok run
  have kept : ∀ t, ∃ running, threads.flags t = { state.threads.flags t with running := running } := by
    intro t
    rw [flags]
    split
    · rename_i this
      rw [this]
      exact ⟨true, rfl⟩
    · exact ⟨(state.threads.flags t).running, rfl⟩
  refine ⟨inv.relinked, pickThread_settled inv.settled run, fun t => ?_, fun t => ?_, fun t => ?_⟩
  · obtain ⟨_, same⟩ := kept (.thread t)
    rw [same]
    exact inv.created t
  · obtain ⟨_, same⟩ := kept (.thread t)
    rw [same]
    exact inv.sleeping t
  · obtain ⟨_, same⟩ := kept (.thread t)
    rw [same]
    exact inv.hibernating t

theorem Queued.step (inv : Queued state) (settles : SuspendsSettled state op)
    (move : queueStep threadId state op = some after) : Queued after := by
  cases op with
  | start t =>
    obtain ⟨place, move⟩ := Option.ite_none_right_eq_some.mp move
    cases Option.some.inj move
    obtain ⟨stopped, resumed⟩ := inv.created t place
    have warm := inv.warm (t := t) (by simp [place])
    have awake := inv.awake (t := t) (by simp [place]) (by simp [place])
    apply inv.call (startThread_settled inv.settled stopped resumed warm)
      (fun other => startThread_flags) (fun _ => stopped) (by decide)
    · simp [awake]
    · simp [warm]
  | block t =>
    obtain ⟨place, move⟩ := Option.ite_none_right_eq_some.mp move
    obtain ⟨threads, run, rfl⟩ := Halt.map_toOption_eq_some.mp move
    exact inv.callStay (block_settled inv.settled run) (block_ok run).2.2 (by simp)
      (by simp [place]) rfl rfl
  | wake t =>
    obtain ⟨place, move⟩ := Option.ite_none_right_eq_some.mp move
    obtain ⟨threads, run, rfl⟩ := Halt.map_toOption_eq_some.mp move
    exact inv.wake place run
  | nanosleepBlock t =>
    obtain ⟨place, move⟩ := Option.ite_none_right_eq_some.mp move
    obtain ⟨threads, run, rfl⟩ := Halt.map_toOption_eq_some.mp move
    have warm := inv.warm (t := t) (by simp [place])
    have awake := inv.awake (t := t) (by simp [place]) (by simp [place])
    apply inv.call (block_settled inv.settled run) (block_ok run).2.2 (by simp) (by decide)
    · simp [awake]
    · simp [warm]
  | nanosleepFlag t =>
    obtain ⟨place, move⟩ := Option.ite_none_right_eq_some.mp move
    cases Option.some.inj move
    have warm := inv.warm (t := t) (by simp [place])
    apply inv.call (inv.settled.mark rfl rfl rfl rfl) (fun other => setFlags_flags) (by simp)
      (by decide)
    · exact fun _ => Or.inl rfl
    · simp [warm]
  | sleepQueueAdd t =>
    obtain ⟨place, move⟩ := Option.ite_none_right_eq_some.mp move
    cases Option.some.inj move
    have warm := inv.warm (t := t) (by simp [place])
    rw [← state.call_self t]
    apply inv.call inv.settled (fun other => flags_self _ other) (by simp) (by decide)
    · exact fun _ => Or.inr rfl
    · simp [warm]
  | expire t =>
    obtain ⟨place, move⟩ := Option.ite_none_right_eq_some.mp move
    obtain ⟨threads, run, rfl⟩ := Halt.map_toOption_eq_some.mp move
    exact inv.wake (by simp [place]) run
  | cleanUp t =>
    obtain ⟨place, move⟩ := Option.ite_none_right_eq_some.mp move
    cases Option.some.inj move
    have warm := inv.warm (t := t) (by simp [place])
    split
    · apply inv.call (inv.settled.mark rfl rfl rfl rfl) (fun other => setFlags_flags) (by simp)
        (by decide)
      · simp
      · simp [warm]
    · rename_i awake
      apply inv.call inv.settled (fun other => flags_self _ other) (by simp) (by decide)
      · simp [awake]
      · simp [warm]
  | hibernate t =>
    obtain ⟨place, move⟩ := Option.ite_none_right_eq_some.mp move
    cases Option.some.inj move
    have awake := inv.awake (t := t) (by simp [place]) (by simp [place])
    apply inv.call (hibernate_settled inv.settled awake) (fun other => hibernate_flags) (by simp)
      (by decide)
    · simp [awake]
    · simp
  | restore t =>
    obtain ⟨place, move⟩ := Option.ite_none_right_eq_some.mp move
    cases Option.some.inj move
    have cold := (inv.hibernating t).mpr place
    have awake := inv.awake (t := t) (by simp [place]) (by simp [place])
    apply inv.call (restore_settled inv.settled cold) (fun other => restore_flags)
      (fun _ => inv.settled.resting _ (Or.inr cold)) (by decide)
    · simp [awake]
    · simp
  | suspend t =>
    obtain ⟨⟨started, _, _⟩, move⟩ := Option.ite_none_right_eq_some.mp move
    cases Option.some.inj move
    exact inv.callStay (suspendThread_settled inv.settled settles)
      (fun other => suspendThread_flags) (by simp) started rfl rfl
  | wakeSuspended t =>
    obtain ⟨⟨started, _, suspended⟩, move⟩ := Option.ite_none_right_eq_some.mp move
    cases Option.some.inj move
    exact inv.callStay (wakeSuspendedThread_settled inv.settled suspended)
      (fun other => wakeSuspendedThread_flags)
      (fun _ => inv.settled.resting _ (Or.inl suspended)) started rfl rfl
  | pick prev cpu here =>
    obtain ⟨⟨next, threads⟩, run, rfl⟩ := Halt.map_toOption_eq_some.mp move
    exact inv.pick run

theorem Queued.intact (inv : Queued state) : QueueIntact state := by
  obtain ⟨queue, list, ready⟩ := inv.settled.lists.queue
  -- no idle thread is RUNNABLE
  have threads : queue ∈ Set.range (List.map Thread.thread) := by
    rw [Set.range_list_map]
    intro t member
    cases t with
    | idle cpu =>
      have runs := (ready _).mp member
      rw [inv.settled.idle cpu] at runs
      cases runs
    | thread t => exact ⟨t, rfl⟩
  obtain ⟨ids, rfl⟩ := threads
  refine ⟨inv.relinked, ids, ?_, fun t => ?_⟩
  · rw [List.map_map] at list
    exact list
  · rw [← ready, List.mem_map]
    simp

/-- Every suspension that the condition excludes leaves the thread on the queue
without RUNNABLE. -/
theorem suspend_awake_breaks (intact : QueueIntact state)
    (runs : (state.threads.flags (.thread t)).runnable = true)
    (sleeps : (state.threads.flags (.thread t)).sleeping = true) :
    ¬QueueIntact (state.call t false (suspendThread state.threads (.thread t))) := by
  intro broken
  obtain ⟨queue, list, ready⟩ := intact.ready
  obtain ⟨other, otherList, otherReady⟩ := broken.ready
  have links : (suspendThread state.threads (.thread t)).links = state.threads.links := by
    unfold suspendThread
    simp only [setFlags_flags, if_true, sleeps, Bool.or_true, Bool.true_or]
    rfl
  have same : IsList (suspendThread state.threads (.thread t)).links .readyQueue
      (other.map fun t => .readyList (.thread t)) := otherList
  rw [links] at same
  have member : QNode.readyList (.thread t) ∈ queue.map fun t => QNode.readyList (.thread t) :=
    List.mem_map_of_mem ((ready t).mpr runs)
  rw [list.unique same] at member
  have still : t ∈ other := by simpa using member
  have stopped : ((suspendThread state.threads (.thread t)).flags (.thread t)).runnable = true :=
    (otherReady t).mp still
  rw [suspendThread_flags, if_pos rfl] at stopped
  cases stopped

/-! ## Main result -/

/-- In every run that suspends no thread between its wake-up in `nanosleep` and the
clean-up, no linked node is linked again and the queue holds the RUNNABLE threads;
a next step keeps that exactly when it is no such suspension. -/
theorem ready_queue_intact (threadId : Nat)
    (reached : Reach FreshQueue (QueueStep threadId) SuspendsSettled state) :
    QueueIntact state ∧ ∀ op after, QueueStep threadId state op after →
      (QueueIntact after ↔ SuspendsSettled state op) := by
  have inv : Queued state := by
    apply Reach.invariant Queued _ _ reached
    · exact fun _ fresh => Queued.start fresh
    · intro before op after inv settles move
      exact inv.step settles move
  refine ⟨inv.intact, fun op after move => ⟨fun intact => ?_, fun settles => ?_⟩⟩
  · cases op with
    | suspend t =>
      intro ⟨runs, sleeps⟩
      obtain ⟨_, move⟩ := Option.ite_none_right_eq_some.mp move
      cases Option.some.inj move
      exact suspend_awake_breaks inv.intact runs sleeps intact
    | _ => trivial
  · exact (inv.step settles move).intact

end Runs

/-! ## Two runs -/

/-- Before any thread has been started. -/
def emptyQueue : QueueRun :=
  { threads :=
      { flags := fun _ => ⟨false, false, false, false, false, false, false⟩
        cpu := fun _ => none
        links := ⟨id, id⟩ }
    place := fun _ => .created
    relinked := false }

theorem emptyQueue_fresh : FreshQueue emptyQueue :=
  ⟨fun _ => rfl, fun _ => rfl, fun _ => ⟨rfl, rfl⟩, fun _ => rfl, rfl⟩

/-- Thread 40 is put to sleep, woken, suspended after it has cleaned up, and resumed. -/
theorem ready_queue_intact_resumed :
    ∃ state, Reach FreshQueue (QueueStep 50) SuspendsSettled state ∧ QueueIntact state ∧
      (state.threads.flags (.thread 40)).runnable = true := by
  have run : (runLabels (queueStep 50) SuspendsSettled
      [.start 40, .start 41, .nanosleepBlock 40, .nanosleepFlag 40, .sleepQueueAdd 40, .expire 40,
        .cleanUp 40, .suspend 40, .wakeSuspended 40] emptyQueue).any (fun state =>
      (state.threads.flags (.thread 40)).runnable) = true := by
    decide +kernel
  obtain ⟨state, ran, runs⟩ := (Option.any_eq_true _ _).mp run
  have reached := Reach.of_runLabels (.start emptyQueue_fresh) ran
  exact ⟨state, reached, (ready_queue_intact 50 reached).1, runs⟩

/-- Thread 40 is suspended after its sleep has expired and before it runs, resumed,
and woken by the entry that is still on the sleep queue. -/
theorem suspended_sleeper_linked_twice :
    ∃ state, Reach FreshQueue (QueueStep 50) Always state ∧ ¬QueueIntact state := by
  have run : (runLabels (queueStep 50) Always
      [.start 40, .start 41, .nanosleepBlock 40, .nanosleepFlag 40, .sleepQueueAdd 40, .expire 40,
        .suspend 40, .wakeSuspended 40, .expire 40] emptyQueue).any (fun state =>
      state.relinked) = true := by
    decide +kernel
  obtain ⟨state, ran, relinked⟩ := (Option.any_eq_true _ _).mp run
  refine ⟨state, Reach.of_runLabels (.start emptyQueue_fresh) ran, fun intact => ?_⟩
  rw [intact.relinked] at relinked
  cases relinked

end Stardust.Sched
