import Stardust.Lib.Reach
import Stardust.Sched.Join

/-! # Joining and cancellation

Any number of threads wait for the end of one thread with `pte_osThreadWaitForEnd`,
and any number of calls of `pte_osThreadCancel` are made for them.  A cancel reads
JOINING, takes the node of the joiner off its list, wakes the joiner and marks it,
with no lock over these steps. -/
set_option autoImplicit false
namespace Stardust.Sched

open Stardust.Lib

/-- Where a thread is in `pte_osThreadWaitForEnd`. -/
inductive WaitForEndPhase
  | out
  /-- it was not cancelled: before `join_thread` -/
  | checked
  /-- in `join_thread`, after the section that holds `dead_lock` -/
  | parked
  /-- after `set_joining` -/
  | flagged
  /-- `schedule` has been called -/
  | scheduled
  /-- after `clear_joining` -/
  | returned
  deriving DecidableEq

/-- Where a call of `pte_osThreadCancel` is. -/
inductive CancelStage
  /-- JOINING was clear -/
  | unseen
  /-- JOINING was set -/
  | seen
  /-- after the `list_del_init` of `sched_wake_joiner` -/
  | unlinked
  /-- after its `wake` -/
  | woken
  deriving DecidableEq

structure CancelRun where
  threads : Threads
  phase : Thread → WaitForEndPhase
  onCpu : Thread → Bool
  joinee : JoineePhase
  /-- the joinee's `state` is `PThreadStateLast` -/
  last : Bool
  cancelled : Thread → Bool
  /-- ghost: the calls of `pte_osThreadCancel` in progress, with their threads -/
  calls : List (Thread × CancelStage)

inductive CancelOp
  /-- the tests of `pte_osThreadWaitForEnd` before `join_thread` -/
  | check (t : Thread)
  /-- the section of `join_thread` that holds `dead_lock` -/
  | park (t : Thread)
  | setJoining (t : Thread)
  | schedule (t : Thread)
  | clearJoining (t : Thread)
  /-- the tests after `join_thread` -/
  | finish (t : Thread)
  /-- `schedule` on the way out of `preempt_enable`, or of an interrupt -/
  | preempt (t : Thread)
  /-- a processor takes the thread -/
  | run (t : Thread)
  | setLast
  | exitBlock
  | exitDead (fuel : Nat)
  /-- `sched_switch_thread_in` after the last `schedule` of the joinee -/
  | exitSwitch
  | reap (fuel : Nat)
  | test (t : Thread)
  | unlink (t : Thread)
  | wake (t : Thread)
  /-- `set_cancelled`, for a call that is at `stage` -/
  | mark (t : Thread) (stage : CancelStage)
  deriving DecidableEq

/-- What `pick_thread` does with the thread that calls it. -/
def requeue (s : Threads) (prev : Thread) : Threads :=
  if (s.flags prev).runnable = true then (s.unlink prev).enqueue prev else s

/-- `pte_osThreadWaitForEnd` returns without joining, or after it has joined. -/
def CancelRun.Closed (joinee : Thread) (state : CancelRun) (t : Thread) : Prop :=
  (state.threads.flags joinee).dying = true ∨ state.last = true ∨ state.cancelled t = true

instance (joinee : Thread) (state : CancelRun) (t : Thread) : Decidable (state.Closed joinee t) :=
  inferInstanceAs (Decidable (_ ∨ _))

/-- The thread goes to `phase`, with the flags and lists `threads`. -/
def CancelRun.move (state : CancelRun) (t : Thread) (phase : WaitForEndPhase) (onCpu : Bool)
    (threads : Threads) : CancelRun :=
  { state with
    threads := threads
    phase := Function.update state.phase t phase
    onCpu := Function.update state.onCpu t onCpu }

/-- The thread runs, and is at `phase`. -/
def CancelRun.At (state : CancelRun) (t : Thread) (phase : WaitForEndPhase) : Prop :=
  state.onCpu t = true ∧ state.phase t = phase

instance CancelRun.decidableAt (state : CancelRun) (t : Thread) (phase : WaitForEndPhase) :
    Decidable (state.At t phase) :=
  inferInstanceAs (Decidable (_ ∧ _))

/-- One call for `t` goes from one stage to the next. -/
def CancelRun.advance (state : CancelRun) (t : Thread) (before after : CancelStage)
    (threads : Threads) : CancelRun :=
  { state with threads := threads, calls := state.calls.erase (t, before) ++ [(t, after)] }

/-- A joiner that neither finds the joinee at its end nor itself cancelled ends in `BUG()`. -/
def cancelStep (joinee : Thread) (state : CancelRun) : CancelOp → Option CancelRun
  | .check t =>
    if state.At t .out ∧ t ≠ joinee then
      if state.Closed joinee t then some state else some (state.move t .checked true state.threads)
    else none
  | .park t =>
    if state.At t .checked then
      if (state.threads.flags t).dying = false ∧ state.joinee ≠ .reaped then
        (block state.threads t).toOption.map fun threads =>
          state.move t .parked true (threads.addJoiner joinee t)
      else some (state.move t .out true state.threads)
    else none
  | .setJoining t =>
    if state.At t .parked then
      some (state.move t .flagged true (state.threads.setFlags t fun f => { f with joining := true }))
    else none
  | .schedule t =>
    if state.At t .flagged then some (state.move t .scheduled false (requeue state.threads t)) else none
  | .clearJoining t =>
    if state.At t .scheduled then
      some (state.move t .returned true
        (state.threads.setFlags t fun f => { f with joining := false }))
    else none
  | .finish t =>
    if state.At t .returned ∧ state.Closed joinee t then some (state.move t .out true state.threads)
    else none
  | .preempt t =>
    if state.onCpu t = true then some (state.move t (state.phase t) false (requeue state.threads t))
    else none
  | .run t =>
    if state.onCpu t = false ∧ (state.threads.flags t).runnable = true then
      some (state.move t (state.phase t) true state.threads)
    else none
  | .setLast => some { state with last := true }
  | .exitBlock =>
    if state.joinee = .alive ∧ (state.threads.flags joinee).running = true then
      (block state.threads joinee).toOption.map fun threads =>
        { state with threads := threads, joinee := .exiting }
    else none
  | .exitDead fuel =>
    if state.joinee = .exiting then
      (exitThread fuel state.threads joinee).toOption.map fun threads =>
        { state with threads := threads, joinee := .dead }
    else none
  | .exitSwitch =>
    if state.joinee = .dead then
      some { state with
        threads := state.threads.setFlags joinee fun f => { f with running := false } }
    else none
  | .reap fuel =>
    if state.joinee = .dead ∧ (state.threads.flags joinee).running = false then
      (reapDead fuel state.threads joinee).toOption.map fun threads =>
        { state with threads := threads, joinee := .reaped }
    else none
  | .test t =>
    if t ≠ joinee then
      some { state with
        calls := state.calls ++
          [(t, if (state.threads.flags t).joining = true then .seen else .unseen)] }
    else none
  | .unlink t =>
    if (t, .seen) ∈ state.calls then
      some (state.advance t .seen .unlinked (state.threads.unlink t))
    else none
  | .wake t =>
    if (t, .unlinked) ∈ state.calls then
      (Sched.wake state.threads t).toOption.map fun threads => state.advance t .unlinked .woken threads
    else none
  | .mark t stage =>
    if (stage = .unseen ∨ stage = .woken) ∧ (t, stage) ∈ state.calls then
      some { state with
        cancelled := Function.update state.cancelled t true
        calls := state.calls.erase (t, stage) }
    else none

abbrev CancelStep (joinee : Thread) (before : CancelRun) (op : CancelOp) (after : CancelRun) : Prop :=
  cancelStep joinee before op = some after

/-- The threads `present` are on the ready queue; no call is in progress. -/
structure FreshCancel (joinee : Thread) (present : List Thread) (state : CancelRun) : Prop where
  queues : state.threads.Queues fun h => if h = .readyQueue then present.map .readyList else []
  joinee : joinee ∈ present
  flags : ∀ t, state.threads.flags t =
    { state.threads.flags t with
      dying := false, suspended := false, sleeping := false, hibernating := false, joining := false }
  phase : ∀ t, state.phase t = .out
  alive : state.joinee = .alive
  cancelled : ∀ t, state.cancelled t = false
  calls : state.calls = []

/-- A RUNNABLE thread runs or is on the ready queue, and one that has been cancelled
is on no `joiners` list. -/
structure CancelSafe (state : CancelRun) : Prop where
  queued : ∀ t, (state.threads.flags t).runnable = true → state.onCpu t = true ∨
    ∃ nodes, IsList state.threads.links .readyQueue nodes ∧ .readyList t ∈ nodes
  unparked : ∀ t, state.cancelled t = true → ∀ other nodes,
    IsList state.threads.links (.joiners other) nodes → .readyList t ∉ nodes

/-- A cancel does not read JOINING between the joiner's test for cancellation and its
`set_joining`, the joiner does not make that test between such a read and
`set_cancelled`, and a cancel takes no RUNNABLE thread off its list that does not run. -/
def CancelsTimely (state : CancelRun) : CancelOp → Prop
  | .test t => state.phase t ≠ .checked ∧ state.phase t ≠ .parked
  | .check t => (t, .unseen) ∉ state.calls
  | .unlink t => (state.threads.flags t).runnable = true → state.onCpu t = true
  | _ => True

instance (state : CancelRun) (op : CancelOp) : Decidable (CancelsTimely state op) := by
  cases op <;> unfold CancelsTimely <;> infer_instance

section Runs
variable {joinee t : Thread} {present ready parked : List Thread} {state after : CancelRun}
  {op : CancelOp}

/-! ## The invariant -/

/-- What a call at some stage knows of the joiner it is for. -/
def CallOk (closed : Prop) (phase : WaitForEndPhase) (listed : Prop) : CancelStage → Prop
  | .unseen => ¬listed ∧ (phase = .out ∨ phase = .returned)
  | .seen => phase ≠ .checked ∧ phase ≠ .parked ∧ (phase = .out → closed)
  | .unlinked => ¬listed ∧ phase ≠ .checked ∧ phase ≠ .parked ∧ (phase = .out → closed)
  | .woken => ¬listed ∧ phase ≠ .checked ∧ phase ≠ .parked ∧ (phase = .out → closed)

structure WaiterOk (closed : Prop) (flags : Flags) (phase : WaitForEndPhase) (onCpu : Bool)
    (listed : Prop) (cancelled : Bool) (stages : CancelStage → Prop) : Prop where
  free : flags.hibernating = false ∧ flags.suspended = false ∧ flags.dying = false
  joining : flags.joining = true ↔ phase = .flagged ∨ phase = .scheduled
  parked : listed → flags.runnable = false ∧
    (phase = .parked ∨ phase = .flagged ∨ (phase = .scheduled ∧ onCpu = false))
  cancelled : cancelled = true → ¬listed ∧ phase ≠ .checked ∧ phase ≠ .parked
  calls : ∀ stage, stages stage → CallOk closed phase listed stage

structure Cancelling (joinee : Thread) (state : CancelRun) (ready parked : List Thread) : Prop where
  links : JoinLinks state.threads.links joinee ready parked (state.joinee = .dead)
  apart : joinee ∉ parked
  outside : state.phase joinee = .out
  named : ∀ t stage, (t, stage) ∈ state.calls → t ≠ joinee
  queued : ∀ t, t ∈ ready → (state.threads.flags t).runnable = true
  placed : ∀ t, (state.threads.flags t).runnable = true → state.onCpu t = true ∨ t ∈ ready
  waiters : ∀ t, t ≠ joinee → WaiterOk (state.Closed joinee t) (state.threads.flags t)
    (state.phase t) (state.onCpu t) (t ∈ parked) (state.cancelled t) fun stage =>
      (t, stage) ∈ state.calls
  alive : (state.threads.flags joinee).runnable = true ↔ state.joinee = .alive
  settled : (state.threads.flags joinee).suspended = false ∧
    (state.threads.flags joinee).hibernating = false ∧ (state.threads.flags joinee).joining = false

theorem Cancelling.start (fresh : FreshCancel joinee present state) :
    Cancelling joinee state present [] := by
  obtain ⟨queues, here, flags, phase, alive, cancelled, calls⟩ := fresh
  have clear : ∀ t, (state.threads.flags t).suspended = false ∧
      (state.threads.flags t).hibernating = false ∧ (state.threads.flags t).dying = false ∧
      (state.threads.flags t).joining = false := by
    intro t
    rw [flags t]
    exact ⟨rfl, rfl, rfl, rfl⟩
  have links : JoinLinks state.threads.links joinee present [] (state.joinee = .dead) :=
    joinLinks_fresh queues (by simp [alive])
  have runs : ∀ t, t ∈ present ↔ (state.threads.flags t).runnable = true := by
    intro t
    rw [← queues.ready, if_pos rfl, mem_map_readyList]
  refine ⟨links, List.not_mem_nil, phase joinee, by simp [calls], fun t => (runs t).mp,
    fun t running => Or.inr ((runs t).mpr running), fun t _ => ?_, ?_, (clear joinee).1,
    (clear joinee).2.1, (clear joinee).2.2.2⟩
  · obtain ⟨suspended, hibernating, dying, joining⟩ := clear t
    refine ⟨⟨hibernating, suspended, dying⟩, ?_, ?_, ?_, ?_⟩
    · simp [joining, phase]
    · simp
    · simp [cancelled]
    · simp [calls]
  · simp [(runs joinee).mp here, alive]

theorem Cancelling.safe (inv : Cancelling joinee state ready parked) : CancelSafe state := by
  refine ⟨fun t running => ?_, fun t cancelled other nodes list member => ?_⟩
  · rcases inv.placed t running with here | queued
    · exact Or.inl here
    · exact Or.inr ⟨_, inv.links.readyList, mem_map_readyList.mpr queued⟩
  · have park := inv.links.mem_parked list member
    have this : t ≠ joinee := fun same => inv.apart (same ▸ park)
    exact ((inv.waiters t this).cancelled cancelled).1 park

/-! ## Steps of one thread -/

theorem WaiterOk.weaken {closed later : Prop} {flags : Flags} {phase : WaitForEndPhase} {onCpu : Bool}
    {listed : Prop} {cancelled : Bool} {stages : CancelStage → Prop}
    (ok : WaiterOk closed flags phase onCpu listed cancelled stages) (implied : closed → later) :
    WaiterOk later flags phase onCpu listed cancelled stages := by
  refine ⟨ok.free, ok.joining, ok.parked, ok.cancelled, fun stage called => ?_⟩
  have before := ok.calls stage called
  cases stage with
  | unseen => exact before
  | seen => exact ⟨before.1, before.2.1, fun out => implied (before.2.2 out)⟩
  | unlinked => exact ⟨before.1, before.2.1, before.2.2.1, fun out => implied (before.2.2.2 out)⟩
  | woken => exact ⟨before.1, before.2.1, before.2.2.1, fun out => implied (before.2.2.2 out)⟩

theorem CallOk.elsewhere {closed : Prop} {phase : WaitForEndPhase} {listed : Prop}
    {stage : CancelStage} (ok : CallOk closed phase listed stage) :
    phase ≠ .checked ∧ phase ≠ .parked := by
  cases stage with
  | unseen => rcases ok.2 with out | returned <;> simp_all
  | seen => exact ⟨ok.1, ok.2.1⟩
  | unlinked => exact ⟨ok.2.1, ok.2.2.1⟩
  | woken => exact ⟨ok.2.1, ok.2.2.1⟩

/-- From one phase with JOINING set to the next. -/
theorem CallOk.onwards {closed : Prop} {phase next : WaitForEndPhase} {listed : Prop}
    {stage : CancelStage} (ok : CallOk closed phase listed stage)
    (inside : phase = .flagged ∨ phase = .scheduled) (later : next = .scheduled ∨ next = .returned) :
    CallOk closed next listed stage := by
  have apart : next ≠ .checked ∧ next ≠ .parked ∧ (next = .out → closed) := by
    rcases later with rfl | rfl <;> simp
  cases stage with
  | unseen =>
    rcases inside with rfl | rfl <;> simp [CallOk] at ok
  | seen => exact apart
  | unlinked => exact ⟨ok.1, apart⟩
  | woken => exact ⟨ok.1, apart⟩

/-- A joiner that is off the list. -/
theorem WaiterOk.unlist {closed : Prop} {flags g : Flags} {phase : WaitForEndPhase} {onCpu : Bool}
    {listed now : Prop} {cancelled : Bool} {stages : CancelStage → Prop}
    (ok : WaiterOk closed flags phase onCpu listed cancelled stages) (away : ¬now)
    (free : g.hibernating = false ∧ g.suspended = false ∧ g.dying = false)
    (joining : g.joining = flags.joining) : WaiterOk closed g phase onCpu now cancelled stages := by
  refine ⟨free, by rw [joining]; exact ok.joining, fun member => absurd member away,
    fun marked => ⟨away, (ok.cancelled marked).2⟩, fun stage called => ?_⟩
  have before := ok.calls stage called
  cases stage with
  | unseen => exact ⟨away, before.2⟩
  | seen => exact before
  | unlinked => exact ⟨away, before.2⟩
  | woken => exact ⟨away, before.2⟩

/-- A step of `t`, or on its node. -/
theorem Cancelling.moved (inv : Cancelling joinee state ready parked) {threads : Threads}
    {queue now : List Thread} {g : Flags} {phase : WaitForEndPhase} {onCpu : Bool}
    (links : JoinLinks threads.links joinee queue now (state.joinee = .dead))
    (apart : joinee ∉ now)
    (flags : ∀ u, threads.flags u = if u = t then g else state.threads.flags u)
    (queues : ∀ u, u ≠ t → (u ∈ queue ↔ u ∈ ready)) (members : ∀ u, u ≠ t → (u ∈ now ↔ u ∈ parked))
    (queued : t ∈ queue → g.runnable = true) (placed : g.runnable = true → onCpu = true ∨ t ∈ queue)
    (self : t = joinee → phase = .out ∧ g = state.threads.flags joinee)
    (ok : t ≠ joinee → WaiterOk (state.Closed joinee t) g phase onCpu (t ∈ now) (state.cancelled t)
      fun stage => (t, stage) ∈ state.calls) :
    Cancelling joinee (state.move t phase onCpu threads) queue now := by
  have same : threads.flags joinee = state.threads.flags joinee := by
    rw [flags]
    split
    · rename_i this
      exact (self this.symm).2
    · rfl
  refine ⟨links, apart, ?_, inv.named, fun u => ?_, fun u => ?_, fun u this => ?_, ?_, ?_⟩
  · simp only [CancelRun.move, Function.update_apply]
    split
    · rename_i this
      exact (self this.symm).1
    · exact inv.outside
  · simp only [CancelRun.move, flags]
    split
    · rename_i mine
      rw [mine]
      exact queued
    · rename_i mine
      rw [queues u mine]
      exact inv.queued u
  · simp only [CancelRun.move, flags, Function.update_apply]
    split
    · rename_i mine
      rw [mine]
      exact placed
    · rename_i mine
      rw [queues u mine]
      exact inv.placed u
  · simp only [CancelRun.move, CancelRun.Closed, same, Function.update_apply]
    by_cases mine : u = t
    · subst mine
      rw [if_pos rfl, if_pos rfl, flags, if_pos rfl]
      exact ok this
    · rw [if_neg mine, if_neg mine, flags, if_neg mine, members u mine]
      exact inv.waiters u this
  · rw [CancelRun.move, same]
    exact inv.alive
  · rw [CancelRun.move, same]
    exact inv.settled

/-- The calls for `t`, and its mark, change. -/
theorem Cancelling.recorded (inv : Cancelling joinee state ready parked)
    {calls : List (Thread × CancelStage)} {mark : Bool}
    (other : t ≠ joinee)
    (others : ∀ u, u ≠ t → ∀ stage, (u, stage) ∈ calls → (u, stage) ∈ state.calls)
    (ok : WaiterOk ((state.threads.flags joinee).dying = true ∨ state.last = true ∨
        mark = true) (state.threads.flags t) (state.phase t) (state.onCpu t) (t ∈ parked) mark
      fun stage => (t, stage) ∈ calls) :
    Cancelling joinee { state with
      cancelled := Function.update state.cancelled t mark, calls := calls } ready parked := by
  refine ⟨inv.links, inv.apart, inv.outside, fun u stage called => ?_, inv.queued, inv.placed,
    fun u this => ?_, inv.alive, inv.settled⟩
  · by_cases mine : u = t
    · rw [mine]
      exact other
    · exact inv.named u stage (others u mine stage called)
  · simp only [CancelRun.Closed, Function.update_apply]
    by_cases mine : u = t
    · subst mine
      simp only [if_true]
      exact ok
    · simp only [if_neg mine]
      have before := inv.waiters u this
      exact ⟨before.free, before.joining, before.parked, before.cancelled,
        fun stage called => before.calls stage (others u mine stage called)⟩

theorem Cancelling.ne_joinee (inv : Cancelling joinee state ready parked)
    (inside : state.phase t ≠ .out) : t ≠ joinee := by
  rintro rfl
  exact inside inv.outside

theorem Cancelling.idle (inv : Cancelling joinee state ready parked)
    (stopped : (state.threads.flags t).runnable = false) : t ∉ ready := by
  intro queued
  rw [inv.queued t queued] at stopped
  cases stopped

/-- A RUNNABLE thread is neither parked nor dead. -/
theorem Cancelling.unparked (inv : Cancelling joinee state ready parked)
    (running : (state.threads.flags t).runnable = true) :
    t ∉ parked ∧ ¬(t = joinee ∧ state.joinee = .dead) := by
  refine ⟨fun park => ?_, fun gone => ?_⟩
  · have this : t ≠ joinee := fun same => inv.apart (same ▸ park)
    rw [((inv.waiters t this).parked park).1] at running
    cases running
  · rw [gone.1] at running
    have alive := inv.alive.mp running
    rw [gone.2] at alive
    cases alive

theorem requeue_flags (s : Threads) (prev : Thread) : (requeue s prev).flags = s.flags := by
  unfold requeue
  split
  · rfl
  · rfl

/-- The caller of `pick_thread` is on the queue afterwards if it is RUNNABLE. -/
theorem Cancelling.requeue (inv : Cancelling joinee state ready parked) (t : Thread) :
    ∃ queue, JoinLinks (requeue state.threads t).links joinee queue parked (state.joinee = .dead) ∧
      ∀ u, u ∈ queue ↔ u ∈ ready ∨ (u = t ∧ (state.threads.flags t).runnable = true) := by
  unfold Sched.requeue
  split
  · rename_i running
    obtain ⟨unparked, alive⟩ := inv.unparked running
    by_cases queued : t ∈ ready
    · have removed := inv.links.removeReady queued
      have idle : t ∉ ready.erase t := inv.links.nodup_ready.not_mem_erase
      refine ⟨_, removed.addReady idle unparked alive, fun u => ?_⟩
      rw [List.mem_append, inv.links.nodup_ready.mem_erase_iff, List.mem_singleton]
      by_cases this : u = t
      · simp [this, queued]
      · simp [this]
    · have same : state.threads.unlink t = state.threads := by
        rw [Threads.unlink, inv.links.delFree queued unparked alive]
      rw [same]
      refine ⟨_, inv.links.addReady queued unparked alive, fun u => ?_⟩
      simp [running]
  · rename_i stopped
    exact ⟨ready, inv.links, fun u => by simp [stopped]⟩

/-- A move to another phase that leaves flags and lists alone. -/
theorem Cancelling.goTo (inv : Cancelling joinee state ready parked) (other : t ≠ joinee)
    {phase : WaitForEndPhase} {onCpu : Bool} (here : onCpu = true)
    (ok : WaiterOk (state.Closed joinee t) (state.threads.flags t) phase onCpu (t ∈ parked)
      (state.cancelled t) fun stage => (t, stage) ∈ state.calls) :
    Cancelling joinee (state.move t phase onCpu state.threads) ready parked :=
  inv.moved inv.links inv.apart (flags_kept state.threads t) (fun _ _ => Iff.rfl) (fun _ _ => Iff.rfl)
    (inv.queued t) (fun _ => Or.inl here) (fun same => absurd same other) (fun _ => ok)

/-- Off the processor: a RUNNABLE thread is on the queue then. -/
theorem Cancelling.off (inv : Cancelling joinee state ready parked) {phase : WaitForEndPhase}
    (self : t = joinee → phase = .out)
    (ok : t ≠ joinee → WaiterOk (state.Closed joinee t) (state.threads.flags t) phase false
      (t ∈ parked) (state.cancelled t) fun stage => (t, stage) ∈ state.calls) :
    ∃ queue, Cancelling joinee (state.move t phase false (Sched.requeue state.threads t)) queue
      parked := by
  obtain ⟨queue, links, onto⟩ := inv.requeue t
  refine ⟨queue, inv.moved links inv.apart (g := state.threads.flags t) (fun u => ?_) (fun u this => ?_)
    (fun _ _ => Iff.rfl) (fun queued => ?_) (fun running => ?_) (fun same => ?_) ok⟩
  · rw [requeue_flags]
    exact flags_kept state.threads t u
  · rw [onto]
    simp [this]
  · rcases (onto t).mp queued with before | ⟨_, running⟩
    · exact inv.queued t before
    · exact running
  · exact Or.inr ((onto t).mpr (Or.inr ⟨rfl, running⟩))
  · exact ⟨self same, by rw [same]⟩

/-- `block` takes the thread off the ready queue if it is there. -/
theorem Cancelling.blocks (inv : Cancelling joinee state ready parked) {threads : Threads}
    (suspended : (state.threads.flags t).suspended = false)
    (hibernating : (state.threads.flags t).hibernating = false)
    (joining : (state.threads.flags t).joining = false)
    (run : Sched.block state.threads t = .ok threads) :
    ∃ queue, JoinLinks threads.links joinee queue parked (state.joinee = .dead) ∧
      ∀ u, u ∈ queue ↔ u ∈ ready ∧ u ≠ t := by
  have running := (block_ok run).1
  obtain ⟨unparked, alive⟩ := inv.unparked running
  have links : threads.links = state.threads.links.listDelInit (.readyList t) := by
    unfold Sched.block at run
    rw [if_neg (by simp [running])] at run
    cases run
    simp only [setFlags_flags, if_true, suspended, hibernating, joining, Bool.or_self]
    rfl
  rw [links]
  by_cases queued : t ∈ ready
  · refine ⟨_, inv.links.removeReady queued, fun u => ?_⟩
    rw [inv.links.nodup_ready.mem_erase_iff]
    exact and_comm
  · rw [inv.links.delFree queued unparked alive]
    refine ⟨ready, inv.links, fun u => ⟨fun member => ⟨member, ?_⟩, And.left⟩⟩
    rintro rfl
    exact queued member

theorem Cancelling.park (inv : Cancelling joinee state ready parked)
    (checked : state.phase t = .checked) {threads : Threads}
    (run : Sched.block state.threads t = .ok threads) :
    ∃ queue, Cancelling joinee (state.move t .parked true (threads.addJoiner joinee t)) queue
      (parked ++ [t]) := by
  have other := inv.ne_joinee (t := t) (by simp [checked])
  have ok := inv.waiters t other
  have unflagged : (state.threads.flags t).joining = false := by
    apply Bool.eq_false_iff.mpr
    intro joining
    simpa [checked] using ok.joining.mp joining
  obtain ⟨running, _, flags⟩ := block_ok run
  have unparked := (inv.unparked running).1
  obtain ⟨queue, links, onto⟩ := inv.blocks ok.free.2.1 ok.free.1 unflagged run
  have idle : t ∉ queue := fun queued => ((onto t).mp queued).2 rfl
  refine ⟨queue, inv.moved (links.addJoiner idle unparked (not_dead other _)) ?_ flags
    (fun u this => ?_) (fun u this => ?_) (fun queued => absurd queued idle) (fun running => ?_)
    (fun same => absurd same other) fun _ => ?_⟩
  · simp [inv.apart, other.symm]
  · rw [onto]
    simp [this]
  · simp [this]
  · cases running
  · refine ⟨ok.free, ?_, fun _ => ⟨rfl, Or.inl rfl⟩, fun cancelled => ?_, fun stage called => ?_⟩
    · simp [unflagged]
    · exact absurd checked (ok.cancelled cancelled).2.1
    · -- no call is in progress for a thread that has passed its test
      exact absurd checked (ok.calls stage called).elsewhere.1

theorem Cancelling.setJoining (inv : Cancelling joinee state ready parked) (other : t ≠ joinee)
    {phase : WaitForEndPhase} {joining : Bool}
    (ok : WaiterOk (state.Closed joinee t) { state.threads.flags t with joining := joining } phase
      true (t ∈ parked) (state.cancelled t) fun stage => (t, stage) ∈ state.calls) :
    Cancelling joinee (state.move t phase true
      (state.threads.setFlags t fun f => { f with joining := joining })) ready parked := by
  have queued : t ∈ ready → (state.threads.flags t).runnable = true := inv.queued t
  exact inv.moved (g := { state.threads.flags t with joining := joining }) inv.links inv.apart
    (fun u => setFlags_flags) (fun _ _ => Iff.rfl) (fun _ _ => Iff.rfl) queued (fun _ => Or.inl rfl)
    (fun same => absurd same other) fun _ => ok

/-! ## Steps of a cancel -/

/-- The `list_del_init` of a cancel: off the joiners, off the ready queue if the thread
runs, or off nothing. -/
theorem Cancelling.unlink (inv : Cancelling joinee state ready parked) (other : t ≠ joinee)
    (timely : (state.threads.flags t).runnable = true → state.onCpu t = true) :
    ∃ queue now, Cancelling joinee
      (state.move t (state.phase t) (state.onCpu t) (state.threads.unlink t)) queue now ∧ t ∉ now := by
  have ok := inv.waiters t other
  by_cases park : t ∈ parked
  · have away : t ∉ parked.erase t := inv.links.nodup.not_mem_erase
    refine ⟨ready, parked.erase t, inv.moved (inv.links.removeJoiner park) ?_
      (flags_kept state.threads t) (fun _ _ => Iff.rfl) (fun u this => List.mem_erase_of_ne this)
      (inv.queued t) (inv.placed t) (fun same => absurd same other)
      (fun _ => ok.unlist away ok.free rfl), away⟩
    exact fun member => inv.apart (List.mem_of_mem_erase member)
  · by_cases queued : t ∈ ready
    · refine ⟨ready.erase t, parked, inv.moved (inv.links.removeReady queued) inv.apart
        (flags_kept state.threads t) (fun u this => List.mem_erase_of_ne this) (fun _ _ => Iff.rfl)
        (fun member => inv.queued t (List.mem_of_mem_erase member))
        (fun running => Or.inl (timely running)) (fun same => absurd same other)
        (fun _ => ok.unlist park ok.free rfl), park⟩
    · have same : state.threads.unlink t = state.threads := by
        rw [Threads.unlink, inv.links.delFree queued park (not_dead other _)]
      rw [same]
      exact ⟨ready, parked, inv.moved inv.links inv.apart (flags_kept state.threads t)
        (fun _ _ => Iff.rfl) (fun _ _ => Iff.rfl) (inv.queued t) (inv.placed t)
        (fun this => absurd this other) (fun _ => ok.unlist park ok.free rfl), park⟩

/-- The `wake` of a cancel. -/
theorem Cancelling.wake (inv : Cancelling joinee state ready parked) (other : t ≠ joinee)
    (away : t ∉ parked) {threads : Threads} (run : Sched.wake state.threads t = .ok threads) :
    ∃ queue, Cancelling joinee
      (state.move t (state.phase t) (state.onCpu t) threads) queue parked := by
  have ok := inv.waiters t other
  have flags := (wake_ok run).2
  by_cases running : (state.threads.flags t).runnable = true
  · have same : threads = state.threads := by
      unfold Sched.wake at run
      rw [if_neg (by simp [ok.free.2.2]), if_pos running] at run
      cases run
      rfl
    rw [same]
    exact ⟨ready, inv.moved inv.links inv.apart (flags_kept state.threads t) (fun _ _ => Iff.rfl)
      (fun _ _ => Iff.rfl) (inv.queued t) (inv.placed t) (fun this => absurd this other)
      (fun _ => ok)⟩
  · have stopped := Bool.eq_false_iff.mpr running
    obtain ⟨queue, links, onto⟩ := wake_links inv.links (inv.idle stopped) away (not_dead other _) run
    have member : t ∈ queue := (onto t).mpr (Or.inr ⟨rfl, stopped, ok.free.1, ok.free.2.1⟩)
    refine ⟨queue, inv.moved links inv.apart flags (fun u this => ?_) (fun _ _ => Iff.rfl)
      (fun _ => ?_) (fun _ => Or.inr member) (fun this => absurd this other) fun _ => ?_⟩
    · rw [onto]
      simp [this]
    · simp [ok.free]
    · exact ok.unlist away ok.free rfl

/-! ## Steps of the joinee -/

/-- All joiners are off the list, and RUNNABLE on the ready queue. -/
theorem Cancelling.woken (inv : Cancelling joinee state ready parked) {threads : Threads}
    {gone : JoineePhase} {queue : List Thread} (links : JoinLinks threads.links joinee queue [] (gone = .dead))
    (onto : ∀ u, u ∈ queue ↔ u ∈ ready ∨ (u ∈ parked ∧ WakesOnto state.threads u))
    (flags : ∀ u, u ≠ joinee → (u ∈ parked → threads.flags u = { state.threads.flags u with
        runnable := (state.threads.flags u).runnable ||
          !((state.threads.flags u).hibernating || (state.threads.flags u).suspended) }) ∧
      (u ∉ parked → threads.flags u = state.threads.flags u))
    {dying : Bool} (mine : threads.flags joinee = { state.threads.flags joinee with dying := dying })
    (dies : (state.threads.flags joinee).dying = true → dying = true)
    (alive : (state.threads.flags joinee).runnable = true ↔ gone = .alive) :
    Cancelling joinee { state with threads := threads, joinee := gone } queue [] := by
  have runnable : ∀ u, (threads.flags u).runnable = true ↔
      (state.threads.flags u).runnable = true ∨ (u ∈ parked ∧ WakesOnto state.threads u) := by
    intro u
    by_cases this : u = joinee
    · rw [this, mine]
      simp [inv.apart]
    · by_cases member : u ∈ parked
      · have ok := inv.waiters u this
        rw [(flags u this).1 member]
        simp [member, WakesOnto, ok.free, (ok.parked member).1]
      · rw [(flags u this).2 member]
        simp [member]
  refine ⟨links, List.not_mem_nil, inv.outside, inv.named, fun u member => ?_, fun u running => ?_,
    fun u this => ?_, ?_, ?_⟩
  · rw [runnable]
    exact ((onto u).mp member).imp_left (inv.queued u)
  · rcases (runnable u).mp running with before | woken
    · exact (inv.placed u before).imp_right fun member => (onto u).mpr (Or.inl member)
    · exact Or.inr ((onto u).mpr (Or.inr woken))
  · have closed : state.Closed joinee u → CancelRun.Closed joinee
        { state with threads := threads, joinee := gone } u := by
      intro before
      refine before.imp_left fun dead => ?_
      simp only [mine]
      exact dies dead
    have ok := (inv.waiters u this).weaken closed
    by_cases member : u ∈ parked
    · have same := (flags u this).1 member
      apply ok.unlist List.not_mem_nil
      · rw [same]
        exact ok.free
      · rw [same]
    · have same := (flags u this).2 member
      apply ok.unlist List.not_mem_nil
      · rw [same]
        exact ok.free
      · rw [same]
  · rw [mine]
    exact alive
  · rw [mine]
    exact inv.settled

theorem Cancelling.exitBlock (inv : Cancelling joinee state ready parked)
    (alive : state.joinee = .alive) {threads : Threads}
    (run : Sched.block state.threads joinee = .ok threads) :
    ∃ queue, Cancelling joinee { state with threads := threads, joinee := .exiting } queue parked := by
  obtain ⟨suspended, hibernating, joining⟩ := inv.settled
  obtain ⟨_, _, flags⟩ := block_ok run
  obtain ⟨queue, links, onto⟩ := inv.blocks suspended hibernating joining run
  have mine : threads.flags joinee = { state.threads.flags joinee with runnable := false } := by
    rw [flags, if_pos rfl]
  have others : ∀ u, u ≠ joinee → threads.flags u = state.threads.flags u := by
    intro u this
    rw [flags, if_neg this]
  rw [alive] at links
  refine ⟨queue, by simpa using links, inv.apart, inv.outside, inv.named, fun u member => ?_,
    fun u running => ?_, fun u this => ?_, ?_, ?_⟩
  · obtain ⟨before, this⟩ := (onto u).mp member
    dsimp only
    rw [others u this]
    exact inv.queued u before
  · by_cases this : u = joinee
    · dsimp only at running
      rw [this, mine] at running
      cases running
    · dsimp only at running
      rw [others u this] at running
      exact (inv.placed u running).imp_right fun before => (onto u).mpr ⟨before, this⟩
  · simp only [CancelRun.Closed, others u this, mine]
    exact inv.waiters u this
  · simp [mine]
  · rw [mine]
    exact ⟨suspended, hibernating, joining⟩

theorem Cancelling.exitDead (inv : Cancelling joinee state ready parked)
    (exiting : state.joinee = .exiting) {fuel : Nat} {threads : Threads}
    (run : exitThread fuel state.threads joinee = .ok threads) :
    ∃ queue, Cancelling joinee { state with threads := threads, joinee := .dead } queue [] := by
  have stopped : (state.threads.flags joinee).runnable = false := by
    apply Bool.eq_false_iff.mpr
    intro running
    have alive := inv.alive.mp running
    rw [exiting] at alive
    cases alive
  have links : JoinLinks ((state.threads.setFlags joinee fun f => { f with dying := true }).addDead
      joinee).links joinee ready parked True := by
    have before := inv.links
    rw [exiting] at before
    exact before.addDead (inv.idle stopped) inv.apart (by simp)
  obtain ⟨⟨queue, empty, onto⟩, flags⟩ := wakeAnyJoiners_links links inv.apart run
  have same : ∀ u, u ≠ joinee → ((state.threads.setFlags joinee fun f =>
      { f with dying := true }).addDead joinee).flags u = state.threads.flags u := by
    intro u this
    rw [addDead_flags, setFlags_flags, if_neg this]
  have mine : threads.flags joinee = { state.threads.flags joinee with dying := true } := by
    rw [(flags joinee).2 inv.apart, addDead_flags, setFlags_flags, if_pos rfl]
  refine ⟨queue, inv.woken (by simpa using empty) (fun u => ?_) (fun u this => ?_) mine
    (fun _ => rfl) ?_⟩
  · rw [onto]
    by_cases this : u = joinee
    · simp [this, inv.apart]
    · simp only [WakesOnto, same u this]
  · have each := flags u
    rw [same u this] at each
    exact each
  · simp [stopped]

theorem Cancelling.reap (inv : Cancelling joinee state ready parked) (dead : state.joinee = .dead)
    {fuel : Nat} {threads : Threads} (run : reapDead fuel state.threads joinee = .ok threads) :
    ∃ queue, Cancelling joinee { state with threads := threads, joinee := .reaped } queue [] := by
  have links : JoinLinks (state.threads.unlink joinee).links joinee ready parked False := by
    have before := inv.links
    rw [dead] at before
    exact before.removeDead rfl
  obtain ⟨⟨queue, empty, onto⟩, flags⟩ := wakeAnyJoiners_links links inv.apart run
  refine ⟨queue, inv.woken (by simpa using empty) onto (fun u _ => flags u)
    ((flags joinee).2 inv.apart) (fun dies => dies) ?_⟩
  rw [inv.alive, dead]
  simp

theorem Cancelling.exitSwitch (inv : Cancelling joinee state ready parked) :
    Cancelling joinee { state with
      threads := state.threads.setFlags joinee fun f => { f with running := false } } ready
        parked := by
  have kept : ∀ u, ∃ running, (state.threads.setFlags joinee fun f =>
      { f with running := false }).flags u = { state.threads.flags u with running := running } := by
    intro u
    rw [setFlags_flags]
    split
    · rename_i this
      rw [this]
      exact ⟨false, rfl⟩
    · exact ⟨(state.threads.flags u).running, rfl⟩
  refine ⟨inv.links, inv.apart, inv.outside, inv.named, fun u => ?_, fun u => ?_, fun u this => ?_,
    ?_, ?_⟩
  · obtain ⟨_, same⟩ := kept u
    rw [same]
    exact inv.queued u
  · obtain ⟨_, same⟩ := kept u
    rw [same]
    exact inv.placed u
  · obtain ⟨_, same⟩ := kept joinee
    simp only [CancelRun.Closed, same]
    rw [setFlags_flags, if_neg this]
    exact inv.waiters u this
  · obtain ⟨_, same⟩ := kept joinee
    rw [same]
    exact inv.alive
  · obtain ⟨_, same⟩ := kept joinee
    rw [same]
    exact inv.settled

/-- A cancel that is begun reads JOINING in time. -/
theorem Cancelling.test (inv : Cancelling joinee state ready parked) (other : t ≠ joinee)
    (timely : CancelsTimely state (.test t)) :
    Cancelling joinee { state with
      calls := state.calls ++
        [(t, if (state.threads.flags t).joining = true then .seen else .unseen)] } ready parked := by
  have ok := inv.waiters t other
  have marked : Function.update state.cancelled t (state.cancelled t) = state.cancelled :=
    Function.update_eq_self t state.cancelled
  have fresh : CallOk (state.Closed joinee t) (state.phase t) (t ∈ parked)
      (if (state.threads.flags t).joining = true then .seen else .unseen) := by
    by_cases joining : (state.threads.flags t).joining = true
    · rw [if_pos joining]
      refine ⟨timely.1, timely.2, fun out => ?_⟩
      simpa [out] using ok.joining.mp joining
    · rw [if_neg joining]
      have outside : ¬(state.phase t = .flagged ∨ state.phase t = .scheduled) :=
        fun place => joining (ok.joining.mpr place)
      have place : state.phase t = .out ∨ state.phase t = .returned := by
        have one := timely.1
        have two := timely.2
        cases phase : state.phase t <;> simp_all
      refine ⟨fun park => ?_, place⟩
      have places := (ok.parked park).2
      rcases place with out | returned
      · simp [out] at places
      · simp [returned] at places
  have called : ∀ u stage, (u, stage) ∈ state.calls ++
      [(t, if (state.threads.flags t).joining = true then .seen else .unseen)] →
      (u, stage) ∈ state.calls ∨ (u = t ∧ stage =
        if (state.threads.flags t).joining = true then .seen else .unseen) := by
    intro u stage member
    simpa using member
  have recorded := inv.recorded other
    (fun u this stage member => (called u stage member).resolve_right fun new => this new.1)
    (⟨ok.free, ok.joining, ok.parked, ok.cancelled, fun stage member => ?_⟩ :
      WaiterOk (state.Closed joinee t) (state.threads.flags t) (state.phase t) (state.onCpu t)
        (t ∈ parked) (state.cancelled t) _)
  · rw [marked] at recorded
    exact recorded
  · rcases called t stage member with before | ⟨_, rfl⟩
    · exact ok.calls stage before
    · exact fresh

theorem CancelRun.move_phase {phase : WaitForEndPhase} {onCpu : Bool} {threads : Threads} :
    (state.move t phase onCpu threads).phase t = phase :=
  Function.update_self ..

/-- A call goes on to a stage at which it knows enough. -/
theorem Cancelling.advance {threads : Threads} {queue now : List Thread} {before next : CancelStage}
    (inv : Cancelling joinee (state.move t (state.phase t) (state.onCpu t) threads) queue now)
    (calling : (t, before) ∈ state.calls)
    (ok : CallOk ((state.move t (state.phase t) (state.onCpu t) threads).Closed joinee t)
      (state.phase t) (t ∈ now) next) :
    Cancelling joinee (state.advance t before next threads) queue now := by
  have other : t ≠ joinee := inv.named t before calling
  have waiter := inv.waiters t other
  have called : ∀ u stage, (u, stage) ∈ state.calls.erase (t, before) ++ [(t, next)] →
      (u, stage) ∈ state.calls ∨ (u = t ∧ stage = next) := by
    intro u stage member
    rcases List.mem_append.mp member with old | new
    · exact Or.inl (List.mem_of_mem_erase old)
    · exact Or.inr (by simpa using new)
  have recorded := inv.recorded other
    (fun u this stage member => (called u stage member).resolve_right fun new => this new.1)
    ⟨waiter.free, waiter.joining, waiter.parked, waiter.cancelled, fun stage member => ?_⟩
  · have same : state.advance t before next threads =
        { state.move t (state.phase t) (state.onCpu t) threads with
          cancelled := Function.update state.cancelled t (state.cancelled t)
          calls := state.calls.erase (t, before) ++ [(t, next)] } := by
      simp [CancelRun.advance, CancelRun.move]
    rw [same]
    exact recorded
  · rw [CancelRun.move_phase]
    rcases called t stage member with old | ⟨_, rfl⟩
    · have knows := waiter.calls stage old
      rw [CancelRun.move_phase] at knows
      exact knows
    · exact ok

theorem Cancelling.mark (inv : Cancelling joinee state ready parked) {stage : CancelStage}
    (last : stage = .unseen ∨ stage = .woken) (calling : (t, stage) ∈ state.calls) :
    Cancelling joinee { state with
      cancelled := Function.update state.cancelled t true
      calls := state.calls.erase (t, stage) } ready parked := by
  have other := inv.named t stage calling
  have ok := inv.waiters t other
  have mine := ok.calls stage calling
  have away : t ∉ parked := by
    rcases last with rfl | rfl
    · exact mine.1
    · exact mine.1
  refine inv.recorded other (fun u _ stage member => List.mem_of_mem_erase member) ?_
  have closed : state.Closed joinee t →
      (state.threads.flags joinee).dying = true ∨ state.last = true ∨ true = true :=
    fun _ => Or.inr (Or.inr rfl)
  have marked := ok.weaken closed
  exact ⟨ok.free, ok.joining, ok.parked, fun _ => ⟨away, mine.elsewhere⟩,
    fun stage member => marked.calls stage (List.mem_of_mem_erase member)⟩

theorem Cancelling.check_step (inv : Cancelling joinee state ready parked) (timely : CancelsTimely state (.check t))
    (move : CancelStep joinee state (.check t) after) :
    ∃ queue now, Cancelling joinee after queue now := by
  obtain ⟨⟨⟨_, out⟩, other⟩, move⟩ := Option.ite_none_right_eq_some.mp move
  split at move
  · cases Option.some.inj move
    exact ⟨ready, parked, inv⟩
  · rename_i wide
    cases Option.some.inj move
    have ok := inv.waiters t other
    refine ⟨ready, parked, inv.goTo other rfl ⟨ok.free, ?_, fun park => ?_, fun cancelled => ?_,
      fun stage called => ?_⟩⟩
    · simpa [out] using ok.joining
    · simpa [out] using (ok.parked park).2
    · exact absurd (Or.inr (Or.inr cancelled)) wide
    · have before := ok.calls stage called
      cases stage with
      | unseen => exact absurd called timely
      | seen => exact absurd (before.2.2 out) wide
      | unlinked => exact absurd (before.2.2.2 out) wide
      | woken => exact absurd (before.2.2.2 out) wide

theorem Cancelling.schedule_step (inv : Cancelling joinee state ready parked)
    (move : CancelStep joinee state (.schedule t) after) :
    ∃ queue now, Cancelling joinee after queue now := by
  obtain ⟨⟨_, flagged⟩, move⟩ := Option.ite_none_right_eq_some.mp move
  cases Option.some.inj move
  have other := inv.ne_joinee (t := t) (by simp [flagged])
  have ok := inv.waiters t other
  have scheduled : WaiterOk (state.Closed joinee t) (state.threads.flags t) .scheduled false
      (t ∈ parked) (state.cancelled t) fun stage => (t, stage) ∈ state.calls := by
    refine ⟨ok.free, ?_, fun park => ?_, fun cancelled => ?_, fun stage called => ?_⟩
    · simpa [flagged] using ok.joining
    · exact ⟨(ok.parked park).1, Or.inr (Or.inr ⟨rfl, rfl⟩)⟩
    · exact ⟨(ok.cancelled cancelled).1, by simp⟩
    · exact (ok.calls stage called).onwards (Or.inl flagged) (Or.inl rfl)
  obtain ⟨queue, moved⟩ := inv.off (fun same => absurd same other) fun _ => scheduled
  exact ⟨queue, parked, moved⟩

theorem Cancelling.clearJoining_step (inv : Cancelling joinee state ready parked)
    (move : CancelStep joinee state (.clearJoining t) after) :
    ∃ queue now, Cancelling joinee after queue now := by
  obtain ⟨⟨here, place⟩, move⟩ := Option.ite_none_right_eq_some.mp move
  cases Option.some.inj move
  have other := inv.ne_joinee (t := t) (by simp [place])
  have ok := inv.waiters t other
  -- a parked thread does not run
  have unparked : t ∉ parked := by
    intro park
    simpa [place, here] using (ok.parked park).2
  refine ⟨ready, parked, inv.setJoining other ⟨ok.free, by simp, fun park => absurd park unparked,
    fun cancelled => ?_, fun stage called => ?_⟩⟩
  · exact ⟨unparked, by simp⟩
  · exact (ok.calls stage called).onwards (Or.inr place) (Or.inr rfl)

theorem Cancelling.finish_step (inv : Cancelling joinee state ready parked)
    (move : CancelStep joinee state (.finish t) after) :
    ∃ queue now, Cancelling joinee after queue now := by
  obtain ⟨⟨⟨_, place⟩, closed⟩, move⟩ := Option.ite_none_right_eq_some.mp move
  cases Option.some.inj move
  have other := inv.ne_joinee (t := t) (by simp [place])
  have ok := inv.waiters t other
  refine ⟨ready, parked, inv.goTo other rfl ⟨ok.free, ?_, fun park => ?_, fun cancelled => ?_,
    fun stage called => ?_⟩⟩
  · simpa [place] using ok.joining
  · simpa [place] using (ok.parked park).2
  · exact ⟨(ok.cancelled cancelled).1, by simp⟩
  · have before := ok.calls stage called
    cases stage with
    | unseen => exact ⟨before.1, Or.inl rfl⟩
    | seen => exact ⟨by simp, by simp, fun _ => closed⟩
    | unlinked => exact ⟨before.1, by simp, by simp, fun _ => closed⟩
    | woken => exact ⟨before.1, by simp, by simp, fun _ => closed⟩

theorem Cancelling.preempt_step (inv : Cancelling joinee state ready parked)
    (move : CancelStep joinee state (.preempt t) after) :
    ∃ queue now, Cancelling joinee after queue now := by
  obtain ⟨_, move⟩ := Option.ite_none_right_eq_some.mp move
  cases Option.some.inj move
  have kept : t = joinee → state.phase t = .out := by
    intro same
    rw [same]
    exact inv.outside
  have preempted : t ≠ joinee → WaiterOk (state.Closed joinee t) (state.threads.flags t)
      (state.phase t) false (t ∈ parked) (state.cancelled t) fun stage => (t, stage) ∈ state.calls := by
    intro other
    have ok := inv.waiters t other
    refine ⟨ok.free, ok.joining, fun park => ?_, ok.cancelled, ok.calls⟩
    obtain ⟨stopped, places⟩ := ok.parked park
    exact ⟨stopped, places.imp_right fun later => later.imp_right fun place => ⟨place.1, rfl⟩⟩
  obtain ⟨queue, moved⟩ := inv.off kept preempted
  exact ⟨queue, parked, moved⟩

theorem Cancelling.run_step (inv : Cancelling joinee state ready parked)
    (move : CancelStep joinee state (.run t) after) :
    ∃ queue now, Cancelling joinee after queue now := by
  obtain ⟨⟨_, running⟩, move⟩ := Option.ite_none_right_eq_some.mp move
  cases Option.some.inj move
  refine ⟨ready, parked, inv.moved inv.links inv.apart (flags_kept state.threads t)
    (fun _ _ => Iff.rfl) (fun _ _ => Iff.rfl) (inv.queued t) (fun _ => Or.inl rfl) (fun same => ?_)
    fun other => ?_⟩
  · rw [same]
    exact ⟨inv.outside, rfl⟩
  · have ok := inv.waiters t other
    have unparked := (inv.unparked running).1
    exact ⟨ok.free, ok.joining, fun park => absurd park unparked, ok.cancelled, ok.calls⟩

theorem Cancelling.step (inv : Cancelling joinee state ready parked)
    (timely : CancelsTimely state op) (move : cancelStep joinee state op = some after) :
    ∃ queue now, Cancelling joinee after queue now := by
  cases op with
  | check t => exact inv.check_step timely move
  | park t =>
    obtain ⟨⟨_, checked⟩, move⟩ := Option.ite_none_right_eq_some.mp move
    split at move
    · obtain ⟨threads, run, rfl⟩ := Halt.map_toOption_eq_some.mp move
      obtain ⟨queue, parked⟩ := inv.park checked run
      exact ⟨queue, _, parked⟩
    · cases Option.some.inj move
      have other := inv.ne_joinee (t := t) (by simp [checked])
      have ok := inv.waiters t other
      refine ⟨ready, parked, inv.goTo other rfl ⟨ok.free, ?_, fun park => ?_, fun cancelled => ?_,
        fun stage called => ?_⟩⟩
      · simpa [checked] using ok.joining
      · simpa [checked] using (ok.parked park).2
      · exact absurd checked (ok.cancelled cancelled).2.1
      · exact absurd checked (ok.calls stage called).elsewhere.1
  | setJoining t =>
    obtain ⟨⟨_, place⟩, move⟩ := Option.ite_none_right_eq_some.mp move
    cases Option.some.inj move
    have other := inv.ne_joinee (t := t) (by simp [place])
    have ok := inv.waiters t other
    refine ⟨ready, parked, inv.setJoining other ⟨ok.free, by simp, fun park => ?_, fun cancelled => ?_,
      fun stage called => ?_⟩⟩
    · exact ⟨(ok.parked park).1, Or.inr (Or.inl rfl)⟩
    · exact absurd place (ok.cancelled cancelled).2.2
    · exact absurd place (ok.calls stage called).elsewhere.2
  | schedule t => exact inv.schedule_step move
  | clearJoining t => exact inv.clearJoining_step move
  | finish t => exact inv.finish_step move
  | preempt t => exact inv.preempt_step move
  | run t => exact inv.run_step move
  | setLast =>
    cases Option.some.inj move
    refine ⟨ready, parked, inv.links, inv.apart, inv.outside, inv.named, inv.queued, inv.placed,
      fun u this => ?_, inv.alive, inv.settled⟩
    exact (inv.waiters u this).weaken fun closed => closed.imp_right fun _ => Or.inl rfl
  | exitBlock =>
    obtain ⟨⟨alive, _⟩, move⟩ := Option.ite_none_right_eq_some.mp move
    obtain ⟨threads, run, rfl⟩ := Halt.map_toOption_eq_some.mp move
    obtain ⟨queue, exiting⟩ := inv.exitBlock alive run
    exact ⟨queue, parked, exiting⟩
  | exitDead fuel =>
    obtain ⟨exiting, move⟩ := Option.ite_none_right_eq_some.mp move
    obtain ⟨threads, run, rfl⟩ := Halt.map_toOption_eq_some.mp move
    obtain ⟨queue, dead⟩ := inv.exitDead exiting run
    exact ⟨queue, [], dead⟩
  | exitSwitch =>
    obtain ⟨dead, move⟩ := Option.ite_none_right_eq_some.mp move
    cases Option.some.inj move
    exact ⟨ready, parked, inv.exitSwitch⟩
  | reap fuel =>
    obtain ⟨⟨dead, _⟩, move⟩ := Option.ite_none_right_eq_some.mp move
    obtain ⟨threads, run, rfl⟩ := Halt.map_toOption_eq_some.mp move
    obtain ⟨queue, reaped⟩ := inv.reap dead run
    exact ⟨queue, [], reaped⟩
  | test t =>
    obtain ⟨other, move⟩ := Option.ite_none_right_eq_some.mp move
    cases Option.some.inj move
    exact ⟨ready, parked, inv.test other timely⟩
  | unlink t =>
    obtain ⟨seen, move⟩ := Option.ite_none_right_eq_some.mp move
    cases Option.some.inj move
    have other := inv.named t .seen seen
    obtain ⟨queue, now, moved, away⟩ := inv.unlink other timely
    have ok := (moved.waiters t other).calls .seen seen
    rw [CancelRun.move_phase] at ok
    exact ⟨queue, now, moved.advance seen ⟨away, ok⟩⟩
  | wake t =>
    obtain ⟨unlinked, move⟩ := Option.ite_none_right_eq_some.mp move
    obtain ⟨threads, run, rfl⟩ := Halt.map_toOption_eq_some.mp move
    have other := inv.named t .unlinked unlinked
    have away := ((inv.waiters t other).calls .unlinked unlinked).1
    obtain ⟨queue, moved⟩ := inv.wake other away run
    have ok := (moved.waiters t other).calls .unlinked unlinked
    rw [CancelRun.move_phase] at ok
    exact ⟨queue, parked, moved.advance unlinked ok⟩
  | mark t stage =>
    obtain ⟨⟨last, calling⟩, move⟩ := Option.ite_none_right_eq_some.mp move
    cases Option.some.inj move
    exact ⟨ready, parked, inv.mark last calling⟩

theorem cancelled_joiner_returns (joinee : Thread) (present : List Thread)
    (reached : Reach (FreshCancel joinee present) (CancelStep joinee) CancelsTimely state) :
    CancelSafe state := by
  have inv : ∃ ready parked, Cancelling joinee state ready parked := by
    apply Reach.invariant (fun state => ∃ ready parked, Cancelling joinee state ready parked) _ _ reached
    · exact fun _ fresh => ⟨present, [], Cancelling.start fresh⟩
    · intro before op after ⟨ready, parked, inv⟩ timely move
      exact inv.step timely move
  obtain ⟨ready, parked, inv⟩ := inv
  exact inv.safe

end Runs

/-! ## Three runs -/

def joinerToCancel : CancelRun :=
  { threads := twoThreads
    phase := fun _ => .out
    onCpu := fun _ => true
    joinee := .alive
    last := false
    cancelled := fun _ => false
    calls := [] }

theorem joinerToCancel_fresh : FreshCancel (.thread 1) [.thread 1, .thread 2] joinerToCancel := by
  refine ⟨twoThreads_queues, by decide, fun t => ?_, fun _ => rfl, rfl, fun _ => rfl, rfl⟩
  simp only [joinerToCancel, twoThreads, setFlags_flags, startThread_flags, noThreads]
  repeat' split
  all_goals rfl

/-- The joiner waits when it is cancelled, and returns. -/
theorem cancelled_joiner_returns_waiting :
    ∃ state, Reach (FreshCancel (.thread 1) [.thread 1, .thread 2]) (CancelStep (.thread 1))
        CancelsTimely state ∧
      CancelSafe state ∧ state.cancelled (.thread 2) = true ∧ state.phase (.thread 2) = .out := by
  have run : (runLabels (cancelStep (.thread 1)) CancelsTimely
      [.check (.thread 2), .park (.thread 2), .setJoining (.thread 2), .schedule (.thread 2),
        .test (.thread 2), .unlink (.thread 2), .wake (.thread 2), .mark (.thread 2) .woken,
        .run (.thread 2), .clearJoining (.thread 2), .finish (.thread 2)] joinerToCancel).any
      (fun state => decide (state.cancelled (.thread 2) = true ∧ state.phase (.thread 2) = .out)) =
        true := by
    decide +kernel
  obtain ⟨state, reached, ends⟩ := Reach.of_run_ends joinerToCancel_fresh run
  exact ⟨state, reached, cancelled_joiner_returns _ _ reached, ends⟩

/-- The cancel takes a joiner that the exit has woken off the ready queue; or it reads
JOINING before the joiner sets it, and leaves the joiner parked. -/
theorem cancelled_joiner_lost :
    (∃ state, Reach (FreshCancel (.thread 1) [.thread 1, .thread 2]) (CancelStep (.thread 1)) Always
        state ∧
      (state.threads.flags (.thread 2)).runnable = true ∧ state.onCpu (.thread 2) = false ∧
      ∀ nodes, IsList state.threads.links .readyQueue nodes → .readyList (.thread 2) ∉ nodes) ∧
    ∃ state nodes, Reach (FreshCancel (.thread 1) [.thread 1, .thread 2]) (CancelStep (.thread 1))
        Always state ∧
      state.cancelled (.thread 2) = true ∧ state.calls = [] ∧
      IsList state.threads.links (.joiners (.thread 1)) nodes ∧ .readyList (.thread 2) ∈ nodes := by
  constructor
  · have run : (runLabels (cancelStep (.thread 1)) Always
        [.check (.thread 2), .park (.thread 2), .setJoining (.thread 2), .schedule (.thread 2),
          .exitBlock, .exitDead 1, .test (.thread 2), .unlink (.thread 2), .wake (.thread 2),
          .mark (.thread 2) .woken] joinerToCancel).any (fun state =>
        decide ((state.threads.flags (.thread 2)).runnable = true ∧ state.onCpu (.thread 2) = false ∧
          state.threads.linked (.thread 2) = false)) = true := by
      decide +kernel
    obtain ⟨state, reached, runnable, off, unlinked⟩ := Reach.of_run_ends joinerToCancel_fresh run
    refine ⟨state, reached, runnable, off, fun nodes list member => ?_⟩
    rw [linked_of_isList list member] at unlinked
    cases unlinked
  · have run : (runLabels (cancelStep (.thread 1)) Always
        [.check (.thread 2), .park (.thread 2), .test (.thread 2), .mark (.thread 2) .unseen]
          joinerToCancel).any (fun state =>
        decide (state.cancelled (.thread 2) = true ∧ state.calls = [] ∧
          (state.threads.links.next (.joiners (.thread 1)) = .readyList (.thread 2) ∧
            state.threads.links.prev (.readyList (.thread 2)) = .joiners (.thread 1)) ∧
          state.threads.links.next (.readyList (.thread 2)) = .joiners (.thread 1) ∧
          state.threads.links.prev (.joiners (.thread 1)) = .readyList (.thread 2))) = true := by
      decide +kernel
    obtain ⟨state, reached, cancelled, calls, links⟩ := Reach.of_run_ends joinerToCancel_fresh run
    have list : IsList state.threads.links (.joiners (.thread 1)) [.readyList (.thread 2)] :=
      ⟨links, by decide⟩
    exact ⟨state, _, reached, cancelled, calls, list, List.mem_singleton_self _⟩

end Stardust.Sched
