import Mathlib.Data.List.Perm.Subperm
import Stardust.Sched.ReadyQueue

/-! # Ids of threads

`thread_id` is a 16-bit counter that gives each new thread its id; `pick_thread` also
takes it as the greatest length that the ready queue can have. -/
set_option autoImplicit false
namespace Stardust.Sched

open Stardust.Lib

/-- `MAX_VIRT_CPUS` -/
abbrev maxVirtCpus : Nat := 64

structure IdRun where
  threads : Threads
  /-- `thread_id` -/
  threadId : BitVec 16
  /-- `thread->id` -/
  id : Nat → BitVec 16
  threadList : List Nat
  deadQueue : List Nat
  /-- ghost: the number of thread structs that have been made -/
  made : Nat
  /-- the system has stopped in `BUG()` -/
  bug : Bool

/-- What `create_thread_with_id_stack` writes to a new thread struct. -/
def Threads.initThread (s : Threads) (t : Thread) : Threads :=
  { flags := Function.update s.flags t ⟨false, false, false, false, false, false, false⟩
    cpu := Function.update s.cpu t none
    links := (s.links.initListHead (.joiners t)).initListHead (.readyList t) }

/-- `create_thread`: with the memory for a thread, or without. -/
def createThread (state : IdRun) (ukernel allocated : Bool) : Except Halt IdRun :=
  let id := state.threadId
  let state := { state with threadId := state.threadId + 1 }
  if allocated then
    let thread := state.made
    let threads := state.threads.initThread (.thread thread)
    if id = 0 then .error .bug
    else .ok { state with
      threads := if ukernel then startThread threads (.thread thread) else threads
      id := Function.update state.id thread id
      threadList := state.threadList ++ [thread]
      made := state.made + 1 }
  else .ok state

def schedGetThread (state : IdRun) (id : BitVec 16) : Option Nat :=
  state.threadList.find? fun thread => state.id thread = id

inductive IdOp
  | create (ukernel allocated : Bool)
  | block (t : Nat)
  /-- `wake`, or `start_thread` by the creator -/
  | wake (t : Nat)
  | exit (t : Nat)
  /-- `sched_switch_thread_in(prev)` -/
  | switchIn (prev : Thread)
  | reap (t : Nat)
  | pick (prev : Thread) (cpu here : Nat)
  deriving DecidableEq

/-- The state after a call that may end in `BUG()`. -/
def IdRun.after (state : IdRun) : Except Halt IdRun → IdRun
  | .ok next => next
  | .error _ => { state with bug := true }

/-- The `ready_list` of a dead thread is on the dead queue, which is a list of its own here. -/
def idStep (state : IdRun) (op : IdOp) : Option IdRun :=
  if state.bug then none
  else match op with
    | .create ukernel allocated => some (state.after (createThread state ukernel allocated))
    | .block t =>
      if t ∈ state.threadList then
        (block state.threads (.thread t)).toOption.map fun threads => { state with threads := threads }
      else none
    | .wake t =>
      if t ∈ state.threadList then
        (wake state.threads (.thread t)).toOption.map fun threads => { state with threads := threads }
      else none
    | .exit t =>
      if t ∈ state.threadList ∧ (state.threads.flags (.thread t)).running = true then
        (block state.threads (.thread t)).toOption.map fun threads => { state with
          threads := threads.setFlags (.thread t) fun f => { f with dying := true }
          deadQueue := state.deadQueue ++ [t] }
      else none
    | .switchIn prev =>
      some { state with threads := state.threads.setFlags prev fun f => { f with running := false } }
    | .reap t =>
      if t ∈ state.deadQueue ∧ (state.threads.flags (.thread t)).running = false then
        some { state with
          threadList := state.threadList.erase t
          deadQueue := state.deadQueue.erase t }
      else none
    | .pick prev cpu here =>
      some (state.after ((pickThread state.threadId.toNat state.threads prev cpu here).map fun result =>
        { state with threads := result.2 }))

abbrev IdStep (before : IdRun) (op : IdOp) (after : IdRun) : Prop := idStep before op = some after

/-- The idle threads of `cpus` processors, and no other threads. -/
structure FreshIds (cpus : Nat) (state : IdRun) : Prop where
  cpus : cpus ≤ maxVirtCpus
  flags : ∀ t, state.threads.flags t =
    { state.threads.flags t with
      runnable := false, dying := false, suspended := false, sleeping := false, hibernating := false,
      joining := false }
  links : ∀ n, state.threads.links.next n = n ∧ state.threads.links.prev n = n
  threadId : state.threadId = .ofNat 16 maxVirtCpus
  threadList : state.threadList = []
  deadQueue : state.deadQueue = []
  bug : state.bug = false

/-- The ids of the threads and of the idle threads differ, and no `BUG()` was reached. -/
structure IdsIntact (cpus : Nat) (state : IdRun) : Prop where
  bug : state.bug = false
  distinct : ((List.range cpus).map (BitVec.ofNat 16) ++ state.threadList.map state.id).Nodup
  found : ∀ t ∈ state.threadList, schedGetThread state (state.id t) = some t

/-- `create_thread` is not called once `thread_id` has reached its greatest value. -/
def IdsLeft (state : IdRun) : IdOp → Prop
  | .create _ _ => state.threadId.toNat + 1 < 2 ^ 16
  | _ => True

instance (state : IdRun) (op : IdOp) : Decidable (IdsLeft state op) := by
  cases op <;> unfold IdsLeft <;> infer_instance

/-! ## The walk of `pick_thread` -/

section Walk
variable {s : Threads} {t : Thread} {cpu : Nat} {queue : List Thread}

/-- A queue that is not longer than the limit is walked to its end at most. -/
theorem findReady_isOk {more : Nat} {node : QNode}
    (seg : Seg s.links node (queue.map .readyList) .readyQueue) (enough : queue.length ≤ more) :
    ∃ found, findReady s cpu more (s.links.next node) = .ok found := by
  induction queue generalizing node more with
  | nil =>
    have last : s.links.next node = .readyQueue := seg.1
    rw [last]
    cases more with
    | zero => exact ⟨none, rfl⟩
    | succ more => exact ⟨none, rfl⟩
  | cons t rest ih =>
    obtain ⟨⟨here, _⟩, later⟩ := seg
    cases more with
    | zero => simp at enough
    | succ more =>
      rw [here, findReady]
      split
      · exact ⟨some t, rfl⟩
      · exact ih later (Nat.le_of_succ_le_succ enough)

theorem pickThread_isOk (lists : s.OnReadyQueue) (prev : Thread) (cpu here : Nat) {threadId : Nat}
    (short : ∀ queue : List Thread, queue.Nodup →
      (∀ t ∈ queue, (s.flags t).runnable = true) → queue.length ≤ threadId) :
    ∃ result, pickThread threadId s prev cpu here = .ok result := by
  have requeued : ∀ after : Threads, after = (if (s.flags prev).runnable = true ∧ prev ≠ .idle here then
      (s.unlink prev).enqueue prev else s) → after.OnReadyQueue ∧ after.flags = s.flags := by
    intro after same
    rw [same]
    split
    · rename_i runs
      exact ⟨lists.requeue runs.1, rfl⟩
    · exact ⟨lists, rfl⟩
  unfold pickThread
  generalize same : (if (s.flags prev).runnable = true ∧ prev ≠ .idle here then
    (s.unlink prev).enqueue prev else s) = after
  obtain ⟨lists, flags⟩ := requeued after same.symm
  obtain ⟨queue, list, ready⟩ := lists.queue
  have nodup : queue.Nodup := (List.nodup_cons.mp list.nodup).2.of_map
  have length := short queue nodup fun t member => by
    rw [← flags]
    exact (ready t).mp member
  obtain ⟨found, walk⟩ : ∃ found,
      findReady after cpu threadId (after.links.next .readyQueue) = .ok found :=
    findReady_isOk list.seg length
  simp only [walk, Halt.ok_bind]
  cases found with
  | some next => exact ⟨_, rfl⟩
  | none => exact ⟨_, rfl⟩

/-- The only RUNNABLE thread is picked. -/
theorem pickThread_only (lists : s.OnReadyQueue) (prev : Thread) (here : Nat) {threadId : Nat}
    (only : ∀ u, (s.flags u).runnable = true ↔ u = t) (eligible : s.Eligible cpu t)
    (room : 0 < threadId) (other : prev ≠ t) :
    pickThread threadId s prev cpu here = .ok (t, s.setFlags t fun f => { f with running := true }) := by
  obtain ⟨queue, list, ready⟩ := lists.queue
  have nodup : queue.Nodup := (List.nodup_cons.mp list.nodup).2.of_map
  have single : queue = [t] := by
    apply List.perm_singleton.mp
    apply (List.perm_ext_iff_of_nodup nodup (List.nodup_singleton t)).mpr
    intro u
    rw [ready, only, List.mem_singleton]
  rw [single] at list
  have first : s.links.next .readyQueue = .readyList t := list.seg.1.1
  have stays : ¬((s.flags prev).runnable = true ∧ prev ≠ .idle here) :=
    fun runs => other ((only prev).mp runs.1)
  obtain ⟨more, rfl⟩ := Nat.exists_eq_succ_of_ne_zero (Nat.ne_of_gt room)
  unfold pickThread
  rw [if_neg stays]
  simp only [first, findReady, if_pos eligible, Halt.ok_bind]

/-- The nodes of a struct that was on no list are empty already. -/
theorem Threads.OnReadyQueue.initThread (lists : s.OnReadyQueue)
    (stopped : (s.flags t).runnable = false) : (s.initThread t).OnReadyQueue := by
  have marked := lists.mark (t := t) (f := fun _ => ⟨false, false, false, false, false, false, false⟩)
    stopped.symm
  have links : (s.links.initListHead (.joiners t)).initListHead (.readyList t) = s.links := by
    obtain ⟨members, queues, only⟩ := lists
    have empty := queues.lists.list (.joiners t) trivial
    rw [only (.joiners t) trivial (by simp)] at empty
    obtain ⟨next, prev⟩ := empty.seg
    have alone := queues.lists.alone (.readyList t) (fun head => head)
      (free_of_stopped queues only stopped)
    rw [initListHead_alone next prev, initListHead_alone alone.1 alone.2]
  unfold Threads.initThread
  rw [links]
  obtain ⟨members, queues, only⟩ := marked
  exact ⟨members, ⟨queues.lists, queues.ready⟩, only⟩

end Walk

/-! ## The invariant -/

/-- The ids given so far are below `thread_id`, and a RUNNABLE thread is on `thread_list`. -/
structure IdsHold (state : IdRun) : Prop where
  bug : state.bug = false
  settled : state.threads.Settled
  runnable : ∀ t, (state.threads.flags (.thread t)).runnable = true → t ∈ state.threadList
  dead : ∀ t ∈ state.deadQueue, (state.threads.flags (.thread t)).runnable = false ∧
    (state.threads.flags (.thread t)).dying = true
  counter : maxVirtCpus ≤ state.threadId.toNat
  range : ∀ t ∈ state.threadList, maxVirtCpus ≤ (state.id t).toNat ∧
    (state.id t).toNat < state.threadId.toNat
  nodup : (state.threadList.map state.id).Nodup
  made : ∀ t, state.made ≤ t → t ∉ state.threadList ∧ t ∉ state.deadQueue

section Runs
variable {cpus : Nat} {state after : IdRun} {op : IdOp} {t : Nat}

theorem IdsHold.start (fresh : FreshIds cpus state) : IdsHold state := by
  obtain ⟨_, flags, links, threadId, threadList, deadQueue, bug⟩ := fresh
  have stopped : ∀ t, (state.threads.flags t).runnable = false := by
    intro t
    rw [flags]
  refine ⟨bug, ⟨⟨fun _ => [], ⟨?_, fun t => ?_⟩, fun _ _ _ => rfl⟩, fun cpu => stopped _, fun t _ =>
    stopped t, fun t => ?_⟩, fun t runs => ?_, ?_, ?_, ?_, ?_, ?_⟩
  · refine ⟨fun h head => ⟨links h, List.nodup_singleton h⟩, fun _ _ _ member => ?_,
      fun _ _ _ _ _ member => ?_, fun n _ _ => links n⟩
    · cases member
    · cases member
  · simp [stopped]
  · rw [flags]
  · rw [stopped] at runs
    cases runs
  · simp [deadQueue]
  · rw [threadId]
    decide
  · simp [threadList]
  · simp [threadList]
  · simp [threadList, deadQueue]

theorem IdsHold.length (inv : IdsHold state) : state.threadList.length ≤ state.threadId.toNat := by
  have nodup : (state.threadList.map fun t => (state.id t).toNat).Nodup := by
    have injective := inv.nodup.map (f := BitVec.toNat) fun _ _ => BitVec.eq_of_toNat_eq
    rwa [List.map_map] at injective
  have inside : state.threadList.map (fun t => (state.id t).toNat) ⊆ List.range state.threadId.toNat := by
    intro n member
    obtain ⟨t, listed, rfl⟩ := List.mem_map.mp member
    exact List.mem_range.mpr (inv.range t listed).2
  have bound := (List.subperm_of_subset nodup inside).length_le
  simpa using bound

theorem IdsHold.intact (inv : IdsHold state) (few : cpus ≤ maxVirtCpus) : IdsIntact cpus state := by
  refine ⟨inv.bug, ?_, fun t listed => ?_⟩
  · rw [List.nodup_append]
    refine ⟨?_, inv.nodup, fun id idle other listed => ?_⟩
    · apply List.Nodup.map_on _ List.nodup_range
      intro a memberA b memberB same
      have boundA := List.mem_range.mp memberA
      have boundB := List.mem_range.mp memberB
      have equal := congrArg BitVec.toNat same
      rw [BitVec.toNat_ofNat, BitVec.toNat_ofNat] at equal
      simp only [maxVirtCpus] at few
      omega
    · rintro rfl
      obtain ⟨cpu, member, rfl⟩ := List.mem_map.mp idle
      obtain ⟨t, member', same⟩ := List.mem_map.mp listed
      have bound := List.mem_range.mp member
      have least := (inv.range t member').1
      rw [same, BitVec.toNat_ofNat] at least
      simp only [maxVirtCpus] at few least
      omega
  · unfold schedGetThread
    cases found : state.threadList.find? fun thread => state.id thread = state.id t with
    | none =>
      have missing := List.find?_eq_none.mp found t listed
      simp at missing
    | some other =>
      have same : state.id other = state.id t := by
        simpa using List.find?_some found
      have member := List.mem_of_find?_eq_some found
      rw [List.inj_on_of_nodup_map inv.nodup member listed same]

/-- A call that leaves `thread_list` alone and wakes only threads that are on it. -/
theorem IdsHold.changed (inv : IdsHold state) {threads : Threads} (settled : threads.Settled)
    (runnable : ∀ u, (threads.flags (.thread u)).runnable = true →
      (state.threads.flags (.thread u)).runnable = true ∨ u ∈ state.threadList ∧ u ∉ state.deadQueue)
    (dying : ∀ u ∈ state.deadQueue, (threads.flags (.thread u)).dying = true) :
    IdsHold { state with threads := threads } := by
  refine ⟨inv.bug, settled, fun u runs => ?_, fun u member => ⟨?_, dying u member⟩, inv.counter,
    inv.range, inv.nodup, inv.made⟩
  · rcases runnable u runs with before | listed
    · exact inv.runnable u before
    · exact listed.1
  · apply Bool.eq_false_iff.mpr
    intro runs
    rcases runnable u runs with before | listed
    · rw [(inv.dead u member).1] at before
      cases before
    · exact listed.2 member

theorem threadId_next (left : state.threadId.toNat + 1 < 2 ^ 16) :
    (state.threadId + 1).toNat = state.threadId.toNat + 1 := by
  have one : (1 : BitVec 16).toNat = 1 := rfl
  rw [BitVec.toNat_add, one]
  exact Nat.mod_eq_of_lt left

/-- A new thread has the next id. -/
theorem IdsHold.added (inv : IdsHold state) (left : state.threadId.toNat + 1 < 2 ^ 16)
    {threads : Threads} (settled : threads.Settled)
    (others : ∀ u, u ≠ state.made → threads.flags (.thread u) = state.threads.flags (.thread u)) :
    IdsHold { state with
      threads := threads
      threadId := state.threadId + 1
      id := Function.update state.id state.made state.threadId
      threadList := state.threadList ++ [state.made]
      made := state.made + 1 } := by
  have next := threadId_next left
  have old : ∀ t ∈ state.threadList, t ≠ state.made := by
    intro t listed same
    exact (inv.made t (Nat.le_of_eq same.symm)).1 listed
  have ids : (state.threadList ++ [state.made]).map
      (Function.update state.id state.made state.threadId) =
      state.threadList.map state.id ++ [state.threadId] := by
    rw [List.map_append, List.map_singleton, Function.update_self]
    congr 1
    apply List.map_congr_left
    intro t listed
    exact Function.update_of_ne (old t listed) ..
  refine ⟨inv.bug, settled, fun t runs => ?_, fun t member => ?_, ?_, fun t listed => ?_, ?_,
    fun t later => ?_⟩
  · rw [List.mem_append, List.mem_singleton]
    by_cases this : t = state.made
    · exact Or.inr this
    · rw [others t this] at runs
      exact Or.inl (inv.runnable t runs)
  · have this : t ≠ state.made := fun same => (inv.made t (Nat.le_of_eq same.symm)).2 member
    rw [others t this]
    exact inv.dead t member
  · rw [next]
    exact Nat.le_succ_of_le inv.counter
  · dsimp only
    rw [next]
    rcases List.mem_append.mp listed with before | new
    · rw [Function.update_of_ne (old t before)]
      have bounds := inv.range t before
      exact ⟨bounds.1, Nat.lt_succ_of_lt bounds.2⟩
    · rw [List.mem_singleton.mp new, Function.update_self]
      exact ⟨inv.counter, Nat.lt_succ_self _⟩
  · rw [ids, List.nodup_append]
    refine ⟨inv.nodup, List.nodup_singleton _, fun id before other new => ?_⟩
    rw [List.mem_singleton.mp new]
    rintro rfl
    obtain ⟨t, listed, same⟩ := List.mem_map.mp before
    have below := (inv.range t listed).2
    rw [same] at below
    exact Nat.lt_irrefl _ below
  · have before := inv.made t (Nat.le_of_succ_le later)
    have this : t ≠ state.made := by
      rintro rfl
      exact Nat.not_succ_le_self _ later
    simp [before, this]

/-- An id that no thread gets. -/
theorem IdsHold.skipped (inv : IdsHold state) (left : state.threadId.toNat + 1 < 2 ^ 16) :
    IdsHold { state with threadId := state.threadId + 1 } := by
  have next := threadId_next left
  refine ⟨inv.bug, inv.settled, inv.runnable, inv.dead, ?_, fun t listed => ?_, inv.nodup, inv.made⟩
  · rw [next]
    exact Nat.le_succ_of_le inv.counter
  · have bounds := inv.range t listed
    rw [next]
    exact ⟨bounds.1, Nat.lt_succ_of_lt bounds.2⟩

theorem IdsHold.create (inv : IdsHold state) (left : state.threadId.toNat + 1 < 2 ^ 16)
    (ukernel allocated : Bool) :
    IdsHold (state.after (createThread state ukernel allocated)) := by
  unfold createThread
  cases allocated with
  | false => exact inv.skipped left
  | true =>
    have used : state.threadId ≠ 0 := by
      intro zero
      have least := inv.counter
      rw [zero] at least
      exact absurd least (by decide)
    have stopped : (state.threads.flags (.thread state.made)).runnable = false := by
      apply Bool.eq_false_iff.mpr
      intro runs
      exact (inv.made state.made (Nat.le_refl _)).1 (inv.runnable _ runs)
    have flags : ∀ other, (state.threads.initThread (.thread state.made)).flags other =
        if other = .thread state.made then ⟨false, false, false, false, false, false, false⟩
        else state.threads.flags other := by
      intro other
      simp [Threads.initThread, Function.update_apply]
    have settled : (state.threads.initThread (.thread state.made)).Settled :=
      inv.settled.changed (inv.settled.lists.initThread stopped) flags (fun _ => rfl) rfl
    simp only [if_true, if_neg used]
    cases ukernel with
    | false =>
      apply inv.added left settled
      intro u this
      rw [flags, if_neg (by simpa using this)]
    | true =>
      have mine := flags (.thread state.made)
      rw [if_pos rfl] at mine
      apply inv.added left
      · apply startThread_settled settled
        · rw [mine]
        · rw [mine]
        · rw [mine]
      · intro u this
        rw [if_pos rfl, startThread_flags, if_neg (by simpa using this), flags, if_neg (by simpa using this)]

theorem IdsHold.pick (inv : IdsHold state) (prev : Thread) (cpu here : Nat) :
    IdsHold (state.after ((pickThread state.threadId.toNat state.threads prev cpu here).map
      fun result => { state with threads := result.2 })) := by
  have short : ∀ queue : List Thread, queue.Nodup →
      (∀ t ∈ queue, (state.threads.flags t).runnable = true) → queue.length ≤ state.threadId.toNat := by
    intro queue nodup runs
    have listed : queue ⊆ state.threadList.map .thread := by
      intro t member
      cases t with
      | idle cpu =>
        have stopped := inv.settled.idle cpu
        rw [runs _ member] at stopped
        cases stopped
      | thread t => exact List.mem_map_of_mem (inv.runnable t (runs _ member))
    have bound := (List.subperm_of_subset nodup listed).length_le
    rw [List.length_map] at bound
    exact Nat.le_trans bound inv.length
  obtain ⟨⟨next, after⟩, run⟩ := pickThread_isOk inv.settled.lists prev cpu here short
  obtain ⟨_, _, flags⟩ := pickThread_ok run
  rw [run]
  apply inv.changed (pickThread_settled inv.settled run)
  · intro u runs
    rw [flags] at runs
    split at runs
    · rename_i this
      rw [this]
      exact Or.inl runs
    · exact Or.inl runs
  · intro u member
    rw [flags]
    split
    · rename_i this
      rw [← this]
      exact (inv.dead u member).2
    · exact (inv.dead u member).2

theorem IdsHold.block (inv : IdsHold state) {threads : Threads}
    (run : Sched.block state.threads (.thread t) = .ok threads) :
    IdsHold { state with threads := threads } := by
  have flags := (block_ok run).2.2
  apply inv.changed (block_settled inv.settled run)
  · intro u runs
    rw [flags] at runs
    split at runs
    · cases runs
    · exact Or.inl runs
  · intro u member
    rw [flags]
    split
    · rename_i this
      rw [← this]
      exact (inv.dead u member).2
    · exact (inv.dead u member).2

theorem IdsHold.wake (inv : IdsHold state) (listed : t ∈ state.threadList) {threads : Threads}
    (run : Sched.wake state.threads (.thread t) = .ok threads) :
    IdsHold { state with threads := threads } := by
  have flags := (wake_ok run).2
  have alive : t ∉ state.deadQueue := by
    intro member
    unfold Sched.wake at run
    rw [if_pos (inv.dead t member).2] at run
    cases run
  apply inv.changed (wake_settled inv.settled run)
  · intro u runs
    by_cases this : u = t
    · rw [this]
      exact Or.inr ⟨listed, alive⟩
    · rw [flags, if_neg (by simpa using this)] at runs
      exact Or.inl runs
  · intro u member
    have this : u ≠ t := by
      rintro rfl
      exact alive member
    rw [flags, if_neg (by simpa using this)]
    exact (inv.dead u member).2

/-- A change of flags other than RUNNABLE and those that `wake` asks for. -/
theorem IdsHold.mark (inv : IdsHold state) {u : Thread} (running : Bool) :
    IdsHold { state with
      threads := state.threads.setFlags u fun f => { f with running := running } } := by
  have kept : ∀ other, ((state.threads.setFlags u fun f => { f with running := running }).flags other).runnable =
      (state.threads.flags other).runnable ∧
      ((state.threads.setFlags u fun f => { f with running := running }).flags other).dying =
        (state.threads.flags other).dying := by
    intro other
    rw [setFlags_flags]
    split
    · rename_i this
      rw [this]
      exact ⟨rfl, rfl⟩
    · exact ⟨rfl, rfl⟩
  apply inv.changed
  · cases u with
    | idle cpu =>
      refine ⟨inv.settled.lists.mark rfl, fun other => ?_, fun other rests => ?_, fun other => ?_⟩
      · rw [(kept _).1]
        exact inv.settled.idle other
      · rw [(kept _).1]
        apply inv.settled.resting
        rw [setFlags_flags] at rests
        split at rests
        · rename_i this
          rw [this]
          exact rests
        · exact rests
      · rw [setFlags_flags, if_neg (by simp)]
        exact inv.settled.joining other
    | thread n => exact inv.settled.mark rfl rfl rfl rfl
  · intro other runs
    rw [(kept _).1] at runs
    exact Or.inl runs
  · intro other member
    rw [(kept _).2]
    exact (inv.dead other member).2

theorem IdsHold.exit (inv : IdsHold state) (listed : t ∈ state.threadList) {threads : Threads}
    (run : Sched.block state.threads (.thread t) = .ok threads) :
    IdsHold { state with
      threads := threads.setFlags (.thread t) fun f => { f with dying := true }
      deadQueue := state.deadQueue ++ [t] } := by
  have blocked := inv.block run
  have settled : threads.Settled := blocked.settled
  have flags := (block_ok run).2.2
  have mine : threads.flags (.thread t) = { state.threads.flags (.thread t) with runnable := false } := by
    rw [flags, if_pos rfl]
  have others : ∀ u, u ≠ t → (threads.setFlags (.thread t) fun f => { f with dying := true }).flags
      (.thread u) = threads.flags (.thread u) := by
    intro u this
    rw [setFlags_flags, if_neg (by simpa using this)]
  have self : (threads.setFlags (.thread t) fun f => { f with dying := true }).flags (.thread t) =
      { state.threads.flags (.thread t) with runnable := false, dying := true } := by
    rw [setFlags_flags, if_pos rfl, mine]
  have dies : (threads.setFlags (.thread t) fun f => { f with dying := true }).Settled :=
    settled.mark rfl rfl rfl rfl
  refine ⟨inv.bug, dies, fun u runs => ?_, fun u member => ?_,
    inv.counter, inv.range, inv.nodup, fun u later => ?_⟩
  · by_cases this : u = t
    · rw [this, self] at runs
      cases runs
    · rw [others u this] at runs
      exact blocked.runnable u runs
  · by_cases this : u = t
    · rw [this, self]
      exact ⟨rfl, rfl⟩
    · rw [others u this]
      exact blocked.dead u (by simpa [this] using member)
  · have before := inv.made u later
    have this : u ≠ t := by
      rintro rfl
      exact before.1 listed
    simp [before, this]

theorem IdsHold.reap (inv : IdsHold state) (dead : t ∈ state.deadQueue) :
    IdsHold { state with
      threadList := state.threadList.erase t
      deadQueue := state.deadQueue.erase t } := by
  refine ⟨inv.bug, inv.settled, fun u runs => ?_, fun u member => ?_, inv.counter, fun u listed => ?_,
    ?_, fun u later => ?_⟩
  · have this : u ≠ t := by
      rintro rfl
      rw [(inv.dead u dead).1] at runs
      cases runs
    exact (List.mem_erase_of_ne this).mpr (inv.runnable u runs)
  · exact inv.dead u (List.mem_of_mem_erase member)
  · exact inv.range u (List.mem_of_mem_erase listed)
  · exact inv.nodup.sublist (List.erase_sublist.map _)
  · have before := inv.made u later
    exact ⟨fun member => before.1 (List.mem_of_mem_erase member),
      fun member => before.2 (List.mem_of_mem_erase member)⟩

theorem IdsHold.step (inv : IdsHold state) (move : idStep state op = some after)
    (left : IdsLeft state op) : IdsHold after := by
  unfold idStep at move
  rw [if_neg (by simp [inv.bug])] at move
  cases op with
  | create ukernel allocated =>
    cases Option.some.inj move
    exact inv.create left ukernel allocated
  | block t =>
    obtain ⟨_, move⟩ := Option.ite_none_right_eq_some.mp move
    obtain ⟨threads, run, rfl⟩ := Halt.map_toOption_eq_some.mp move
    exact inv.block run
  | wake t =>
    obtain ⟨listed, move⟩ := Option.ite_none_right_eq_some.mp move
    obtain ⟨threads, run, rfl⟩ := Halt.map_toOption_eq_some.mp move
    exact inv.wake listed run
  | exit t =>
    obtain ⟨⟨listed, _⟩, move⟩ := Option.ite_none_right_eq_some.mp move
    obtain ⟨threads, run, rfl⟩ := Halt.map_toOption_eq_some.mp move
    exact inv.exit listed run
  | switchIn prev =>
    cases Option.some.inj move
    exact inv.mark false
  | reap t =>
    obtain ⟨⟨dead, _⟩, move⟩ := Option.ite_none_right_eq_some.mp move
    cases Option.some.inj move
    exact inv.reap dead
  | pick prev cpu here =>
    cases Option.some.inj move
    exact inv.pick prev cpu here

/-- In a run that makes no thread after `thread_id` has reached its greatest value, all
ids differ and no `BUG()` is reached. -/
theorem thread_ids_intact (cpus : Nat)
    (reached : Reach (FreshIds cpus) IdStep IdsLeft state) : IdsIntact cpus state := by
  have inv : IdsHold state ∧ cpus ≤ maxVirtCpus := by
    apply Reach.invariant (fun state => IdsHold state ∧ cpus ≤ maxVirtCpus) _ _ reached
    · exact fun _ fresh => ⟨IdsHold.start fresh, fresh.cpus⟩
    · exact fun _ _ _ inv left move => ⟨inv.1.step move left, inv.2⟩
  exact inv.1.intact inv.2

/-! ## Many short-lived threads -/

theorem block_isOk {s : Threads} {u : Thread} (runs : (s.flags u).runnable = true) :
    ∃ threads, Sched.block s u = .ok threads := by
  unfold Sched.block
  rw [if_neg (by simp [runs])]
  exact ⟨_, rfl⟩

/-- The state after the last thread has gone. -/
structure AllGone (state : IdRun) : Prop where
  hold : IdsHold state
  threadList : state.threadList = []
  deadQueue : state.deadQueue = []

/-- The only thread, after `create_thread` has started it. -/
structure JustStarted (before after : IdRun) (t : Nat) : Prop where
  threadId : after.threadId = before.threadId + 1
  threadList : after.threadList = [t]
  deadQueue : after.deadQueue = []
  flags : ∀ u, after.threads.flags u =
    if u = .thread t then ⟨true, false, false, false, false, false, false⟩
    else before.threads.flags u
  cpu : after.threads.cpu (.thread t) = none

theorem AllGone.create (gone : AllGone state) (left : state.threadId.toNat + 1 < 2 ^ 16) :
    ∃ after, idStep state (.create true true) = some after ∧ IdsHold after ∧
      JustStarted state after state.made := by
  have used : state.threadId ≠ 0 := by
    intro zero
    have least := gone.hold.counter
    rw [zero] at least
    exact absurd least (by decide)
  have inv := gone.hold.create left true true
  refine ⟨_, ?_, inv, ?_⟩
  · simp [idStep, gone.hold.bug]
  · have made : ∀ u, (startThread (state.threads.initThread (.thread state.made))
        (.thread state.made)).flags u =
        if u = .thread state.made then ⟨true, false, false, false, false, false, false⟩
        else state.threads.flags u := by
      intro u
      rw [startThread_flags]
      by_cases this : u = .thread state.made
      · simp [Threads.initThread, this]
      · simp [Threads.initThread, this]
    simp only [createThread, if_true, if_neg used, IdRun.after]
    refine ⟨rfl, ?_, gone.deadQueue, made, ?_⟩
    · rw [gone.threadList, List.nil_append]
    · rw [startThread_cpu]
      exact Function.update_self ..

theorem AllGone.stopped (gone : AllGone state) (u : Thread) : (state.threads.flags u).runnable = false := by
  apply Bool.eq_false_iff.mpr
  intro runs
  cases u with
  | idle cpu =>
    rw [gone.hold.settled.idle cpu] at runs
    cases runs
  | thread u =>
    have listed := gone.hold.runnable u runs
    rw [gone.threadList] at listed
    cases listed

/-- An idle processor picks the only thread. -/
theorem AllGone.picks (gone : AllGone state) (inv : IdsHold after) (started : JustStarted state after t) :
    idStep after (.pick (.idle 0) 0 0) = some { after with
      threads := after.threads.setFlags (.thread t) fun f => { f with running := true } } := by
  have only : ∀ u, (after.threads.flags u).runnable = true ↔ u = .thread t := by
    intro u
    rw [started.flags]
    by_cases this : u = .thread t
    · simp [this]
    · simp [this, gone.stopped]
  have mine := started.flags (.thread t)
  rw [if_pos rfl] at mine
  have eligible : after.threads.Eligible 0 (.thread t) := by
    refine ⟨?_, (only _).mpr rfl, Or.inr started.cpu⟩
    rw [mine]
  have room : 0 < after.threadId.toNat := Nat.lt_of_lt_of_le (by decide) inv.counter
  have picked := pickThread_only inv.settled.lists (.idle 0) 0 only eligible room (by simp)
  simp [idStep, inv.bug, picked, IdRun.after, Except.map]

/-- The only thread exits, another runs, and it is reaped. -/
theorem IdsHold.last_exits (inv : IdsHold state) (alone : state.threadList = [t])
    (none : state.deadQueue = []) (runnable : (state.threads.flags (.thread t)).runnable = true)
    (running : (state.threads.flags (.thread t)).running = true)
    (reached : Reach (FreshIds cpus) IdStep Always state) :
    ∃ after, Reach (FreshIds cpus) IdStep Always after ∧ AllGone after ∧
      after.threadId = state.threadId := by
  obtain ⟨threads, blocked⟩ := block_isOk runnable
  have exited : idStep state (.exit t) = some { state with
      threads := threads.setFlags (.thread t) fun f => { f with dying := true }
      deadQueue := [t] } := by
    simp [idStep, inv.bug, alone, none, running, blocked, Except.toOption]
  have invExited := inv.step exited trivial
  have switched : idStep { state with
        threads := threads.setFlags (.thread t) fun f => { f with dying := true }
        deadQueue := [t] } (.switchIn (.thread t)) = some { state with
      threads := (threads.setFlags (.thread t) fun f => { f with dying := true }).setFlags (.thread t)
        fun f => { f with running := false }
      deadQueue := [t] } := by
    simp [idStep, inv.bug]
  have invSwitched := invExited.step switched trivial
  have reaped : idStep { state with
      threads := (threads.setFlags (.thread t) fun f => { f with dying := true }).setFlags (.thread t)
        fun f => { f with running := false }
      deadQueue := [t] } (.reap t) = some { state with
      threads := (threads.setFlags (.thread t) fun f => { f with dying := true }).setFlags (.thread t)
        fun f => { f with running := false }
      threadList := []
      deadQueue := [] } := by
    simp [idStep, inv.bug, alone, setFlags_flags]
  have invReaped := invSwitched.step reaped trivial
  exact ⟨_, ((reached.next trivial exited).next trivial switched).next trivial reaped,
    ⟨invReaped, rfl, rfl⟩, rfl⟩

/-- A thread is made, runs, exits and is reaped. -/
theorem AllGone.cycle (gone : AllGone state) (left : state.threadId.toNat + 1 < 2 ^ 16)
    (reached : Reach (FreshIds cpus) IdStep Always state) :
    ∃ after, Reach (FreshIds cpus) IdStep Always after ∧ AllGone after ∧
      after.threadId = state.threadId + 1 := by
  obtain ⟨one, created, inv, started⟩ := gone.create left
  have picked := gone.picks inv started
  have running : (one.threads.setFlags (.thread state.made) fun f => { f with running := true }).flags
      (.thread state.made) = ⟨true, true, false, false, false, false, false⟩ := by
    rw [setFlags_flags, if_pos rfl, started.flags, if_pos rfl]
  obtain ⟨after, reached, gone, same⟩ := (inv.step picked trivial).last_exits started.threadList
    started.deadQueue (by rw [running]) (by rw [running])
    ((reached.next trivial created).next trivial picked)
  exact ⟨after, reached, gone, same.trans started.threadId⟩

/-- After `n` threads. -/
theorem AllGone.cycles (gone : AllGone state) (n : Nat)
    (left : state.threadId.toNat + n < 2 ^ 16)
    (reached : Reach (FreshIds cpus) IdStep Always state) :
    ∃ after, Reach (FreshIds cpus) IdStep Always after ∧ AllGone after ∧
      after.threadId.toNat = state.threadId.toNat + n := by
  induction n generalizing state with
  | zero => exact ⟨state, reached, gone, rfl⟩
  | succ n ih =>
    have room : state.threadId.toNat + 1 < 2 ^ 16 := by omega
    obtain ⟨next, reachedNext, goneNext, counter⟩ := gone.cycle room reached
    have nextId := threadId_next room
    rw [← counter] at nextId
    obtain ⟨after, reachedAfter, goneAfter, final⟩ := ih goneNext (by omega) reachedNext
    exact ⟨after, reachedAfter, goneAfter, by omega⟩

end Runs

/-! ## Two runs -/

def idsStart : IdRun :=
  { threads := noThreads
    threadId := 64
    id := fun _ => 0
    threadList := []
    deadQueue := []
    made := 0
    bug := false }

theorem idsStart_fresh : FreshIds 64 idsStart :=
  ⟨Nat.le_refl _, fun _ => rfl, fun _ => ⟨rfl, rfl⟩, rfl, rfl, rfl, rfl⟩

theorem thread_ids_intact_two :
    ∃ state, Reach (FreshIds 64) IdStep IdsLeft state ∧ IdsIntact 64 state ∧
      state.threadList.map state.id = [64, 65] := by
  have run : (runLabels idStep IdsLeft [.create true true, .create false true,
      .pick (.idle 0) 0 0] idsStart).any (fun state =>
        decide (state.threadList.map state.id = [64, 65])) = true := by
    decide +kernel
  obtain ⟨state, reached, ids⟩ := Reach.of_run_ends idsStart_fresh run
  exact ⟨state, reached, thread_ids_intact 64 reached, ids⟩

/-- Threads are made and exit one after the other until `thread_id` is 0; then
`create_thread` reaches its `BUG_ON`. -/
theorem thread_id_wraps :
    ∃ state, Reach (FreshIds 64) IdStep Always state ∧ state.bug = true ∧
      state.threadList.length ≤ 1 := by
  have gone : AllGone idsStart := ⟨IdsHold.start idsStart_fresh, rfl, rfl⟩
  obtain ⟨last, reached, gone, counter⟩ := gone.cycles 65471 (by decide)
    (.start idsStart_fresh)
  have greatest : last.threadId = 65535 := BitVec.eq_of_toNat_eq counter
  have used : last.threadId ≠ 0 := by
    rw [greatest]
    decide
  have first : ∃ next, idStep last (.create true true) = some next ∧ next.threadId = 0 ∧
      next.bug = false ∧ next.threadList.length = 1 := by
    refine ⟨last.after (createThread last true true), ?_, ?_, ?_, ?_⟩
    · simp [idStep, gone.hold.bug]
    · simp only [createThread, if_true, if_neg used, IdRun.after]
      rw [greatest]
      rfl
    · simp only [createThread, if_true, if_neg used, IdRun.after, gone.hold.bug]
    · simp only [createThread, if_true, if_neg used, IdRun.after, gone.threadList]
      rfl
  obtain ⟨next, one, zero, runs, alone⟩ := first
  have two : idStep next (.create true true) = some { next with bug := true } := by
    simp [idStep, runs, createThread, zero, IdRun.after]
  exact ⟨_, (reached.next trivial one).next trivial two, rfl, Nat.le_of_eq alone⟩

end Stardust.Sched
