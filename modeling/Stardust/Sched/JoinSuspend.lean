import Stardust.Lib.Reach
import Stardust.Sched.Join

/-! # Joining and suspension

Any number of threads join one thread, which exits and is reaped, and others suspend
and resume the joiners at any time.  `join_thread` blocks and parks the joiner under
`dead_lock`, which the suspension does not take, and sets JOINING after it has
dropped the lock. -/
set_option autoImplicit false
namespace Stardust.Sched

open Stardust.Lib

/-- Where a thread is in `join_thread`. -/
inductive JoinPhase
  | out
  /-- after `block`, with `dead_lock` -/
  | blocked
  /-- after `list_add_tail`, with `dead_lock` -/
  | listed
  | unlocked
  /-- after `set_joining` -/
  | flagged
  /-- `schedule` has been called -/
  | scheduled
  deriving DecidableEq

structure JoinRun where
  threads : Threads
  phase : Thread → JoinPhase
  onCpu : Thread → Bool
  deadLock : Option Thread
  joinee : JoineePhase

inductive JoinOp
  | block (t : Thread)
  | park (t : Thread)
  | unlock (t : Thread)
  | setJoining (t : Thread)
  | schedule (t : Thread)
  | clearJoining (t : Thread)
  /-- `schedule` on the way out of `preempt_enable`, or of an interrupt -/
  | preempt (t : Thread)
  /-- a processor takes the thread -/
  | run (t : Thread)
  | suspend (t : Thread)
  | wakeSuspended (t : Thread)
  | exitBlock
  | exitDead (fuel : Nat)
  /-- `sched_switch_thread_in` after the last `schedule` of the joinee -/
  | exitSwitch
  | reap (fuel : Nat)
  deriving DecidableEq

/-- The thread goes to `phase`, with the flags and lists `threads`. -/
def JoinRun.move (state : JoinRun) (t : Thread) (phase : JoinPhase) (onCpu : Bool)
    (threads : Threads) : JoinRun :=
  { state with
    threads := threads
    phase := Function.update state.phase t phase
    onCpu := Function.update state.onCpu t onCpu }

/-- The thread runs, and is at `phase`. -/
def JoinRun.At (state : JoinRun) (t : Thread) (phase : JoinPhase) : Prop :=
  state.onCpu t = true ∧ state.phase t = phase

instance JoinRun.decidableAt (state : JoinRun) (t : Thread) (phase : JoinPhase) :
    Decidable (state.At t phase) :=
  inferInstanceAs (Decidable (_ ∧ _))

/-- `join_thread(joinee)` by other threads, and the end of `joinee`; `sched_get_thread`
finds it until it is reaped. -/
def joinStep (joinee : Thread) (state : JoinRun) : JoinOp → Option JoinRun
  | .block t =>
    if state.At t .out ∧ t ≠ joinee ∧ state.deadLock = none then
      if (state.threads.flags t).dying = false ∧ state.joinee ≠ .reaped then
        (block state.threads t).toOption.map fun threads =>
          { state.move t .blocked true threads with deadLock := some t }
      else some state
    else none
  | .park t =>
    if state.At t .blocked then
      some (state.move t .listed true (state.threads.addJoiner joinee t))
    else none
  | .unlock t =>
    if state.At t .listed then
      some { state.move t .unlocked true state.threads with deadLock := none }
    else none
  | .setJoining t =>
    if state.At t .unlocked then
      some (state.move t .flagged true (state.threads.setFlags t fun f => { f with joining := true }))
    else none
  | .schedule t =>
    if state.At t .flagged then some (state.move t .scheduled false state.threads) else none
  | .clearJoining t =>
    if state.At t .scheduled then
      some (state.move t .out true (state.threads.setFlags t fun f => { f with joining := false }))
    else none
  | .preempt t =>
    if state.onCpu t = true ∧ state.phase t ≠ .blocked ∧ state.phase t ≠ .listed then
      some (state.move t (state.phase t) false state.threads)
    else none
  | .run t =>
    if state.onCpu t = false ∧ (state.threads.flags t).runnable = true then
      some (state.move t (state.phase t) true state.threads)
    else none
  | .suspend t =>
    if t ≠ joinee ∧ (state.threads.flags t).dying = false ∧
        (state.threads.flags t).suspended = false then
      some (state.move t (state.phase t) (state.onCpu t) (suspendThread state.threads t))
    else none
  | .wakeSuspended t =>
    if t ≠ joinee ∧ (state.threads.flags t).dying = false ∧
        (state.threads.flags t).suspended = true then
      some (state.move t (state.phase t) (state.onCpu t) (wakeSuspendedThread state.threads t))
    else none
  | .exitBlock =>
    if state.joinee = .alive ∧ (state.threads.flags joinee).running = true then
      (block state.threads joinee).toOption.map fun threads =>
        { state with threads := threads, joinee := .exiting }
    else none
  | .exitDead fuel =>
    if state.joinee = .exiting ∧ state.deadLock = none then
      (exitThread fuel state.threads joinee).toOption.map fun threads =>
        { state with threads := threads, joinee := .dead }
    else none
  | .exitSwitch =>
    if state.joinee = .dead then
      some { state with
        threads := state.threads.setFlags joinee fun f => { f with running := false } }
    else none
  | .reap fuel =>
    if state.joinee = .dead ∧ state.deadLock = none ∧
        (state.threads.flags joinee).running = false then
      (reapDead fuel state.threads joinee).toOption.map fun threads =>
        { state with threads := threads, joinee := .reaped }
    else none

abbrev JoinStep (joinee : Thread) (before : JoinRun) (op : JoinOp) (after : JoinRun) : Prop :=
  joinStep joinee before op = some after

/-- The threads `present` are on the ready queue, in no call of `join_thread`. -/
structure FreshJoin (joinee : Thread) (present : List Thread) (state : JoinRun) : Prop where
  queues : state.threads.Queues fun h => if h = .readyQueue then present.map .readyList else []
  joinee : joinee ∈ present
  flags : ∀ t, state.threads.flags t =
    { state.threads.flags t with
      dying := false, suspended := false, sleeping := false, hibernating := false, joining := false }
  phase : ∀ t, state.phase t = .out
  alive : state.joinee = .alive

/-- Once the joinee has exited, a thread that is on no `joiners` list any more and is
not SUSPENDED is RUNNABLE. -/
def JoinWakesKept (joinee : Thread) (present : List Thread) (state : JoinRun) : Prop :=
  state.joinee = .dead ∨ state.joinee = .reaped → ∀ t ∈ present, t ≠ joinee →
    state.phase t ≠ .blocked →
    (∀ other nodes, IsList state.threads.links (.joiners other) nodes → .readyList t ∉ nodes) →
    (state.threads.flags t).suspended = false → (state.threads.flags t).runnable = true

/-- A suspension does not hit a thread that has JOINING and RUNNABLE set; a thread is
resumed only when JOINING tells whether its node is on a list, or about to be put on
one by `join_thread`. -/
def FlagsTruthful (state : JoinRun) : JoinOp → Prop
  | .suspend t => ¬((state.threads.flags t).joining = true ∧
      (state.threads.flags t).runnable = true)
  | .wakeSuspended t => (state.threads.flags t).joining = true ↔
      state.phase t = .blocked ∨ state.threads.linked t = true
  | _ => True

instance (state : JoinRun) (op : JoinOp) : Decidable (FlagsTruthful state op) := by
  cases op <;> unfold FlagsTruthful <;> infer_instance

section Runs
variable {joinee t : Thread} {present parked : List Thread} {state after : JoinRun} {op : JoinOp}

/-! ## The invariant -/

/-- What the flags of a joiner, its place and the joinee's list say of each other. -/
structure JoinerOk (here : Prop) (flags : Flags) (phase : JoinPhase) (onCpu : Bool) (listed : Prop) :
    Prop where
  free : flags.hibernating = false ∧ flags.sleeping = false ∧ flags.dying = false
  joining : flags.joining = true ↔ phase = .flagged ∨ phase = .scheduled
  resting : flags.suspended = true → flags.runnable = false
  blocked : phase = .blocked → flags.runnable = false
  parked : listed → flags.runnable = false ∧ phase ≠ .out ∧ phase ≠ .blocked ∧
    (phase = .scheduled → onCpu = false)
  awaited : here → flags.runnable = false → flags.suspended = false → phase = .blocked ∨ listed

structure Joining (joinee : Thread) (present : List Thread) (state : JoinRun) (parked : List Thread) :
    Prop where
  lists : state.threads.JoinLists joinee parked (state.joinee = .dead)
  apart : joinee ∉ parked
  outside : state.phase joinee = .out
  joiners : ∀ t, t ≠ joinee →
    JoinerOk (t ∈ present) (state.threads.flags t) (state.phase t) (state.onCpu t) (t ∈ parked)
  alive : (state.threads.flags joinee).runnable = true ↔ state.joinee = .alive
  settled : (state.threads.flags joinee).suspended = false ∧
    (state.threads.flags joinee).hibernating = false ∧ (state.threads.flags joinee).joining = false

theorem Joining.start (fresh : FreshJoin joinee present state) : Joining joinee present state [] := by
  obtain ⟨queues, here, flags, phase, alive⟩ := fresh
  have clear : ∀ t, (state.threads.flags t).suspended = false ∧
      (state.threads.flags t).hibernating = false ∧ (state.threads.flags t).sleeping = false ∧
      (state.threads.flags t).dying = false ∧ (state.threads.flags t).joining = false := by
    intro t
    rw [flags t]
    exact ⟨rfl, rfl, rfl, rfl, rfl⟩
  have links : JoinLinks state.threads.links joinee present [] (state.joinee = .dead) :=
    joinLinks_fresh queues (by simp [alive])
  have ready : ∀ t, t ∈ present ↔ (state.threads.flags t).runnable = true := by
    intro t
    rw [← queues.ready, if_pos rfl, mem_map_readyList]
  refine ⟨⟨present, links, ready⟩, List.not_mem_nil, phase joinee, fun t _ => ?_, ?_,
    (clear joinee).1, (clear joinee).2.1, (clear joinee).2.2.2.2⟩
  · obtain ⟨suspended, hibernating, sleeping, dying, joining⟩ := clear t
    refine ⟨⟨hibernating, sleeping, dying⟩, ?_, ?_, ?_, ?_, ?_⟩
    · simp [joining, phase]
    · simp [suspended]
    · simp [phase]
    · simp
    · intro member stopped
      rw [(ready t).mp member] at stopped
      cases stopped
  · simp [(ready joinee).mp here, alive]

theorem Joining.wakesKept (inv : Joining joinee present state parked) :
    JoinWakesKept joinee present state := by
  intro _ t member other unblocked nowhere awake
  by_contra rests
  have stopped := Bool.eq_false_iff.mpr rests
  rcases (inv.joiners t other).awaited member stopped awake with blocked | park
  · exact unblocked blocked
  · exact nowhere joinee _ inv.lists.isList (List.mem_map_of_mem park)

/-- A step of, or on, the joiner `t`. -/
theorem Joining.moved (inv : Joining joinee present state parked) (other : t ≠ joinee)
    {threads : Threads} {now : List Thread} {g : Flags} {phase : JoinPhase} {onCpu : Bool}
    (lists : threads.JoinLists joinee now (state.joinee = .dead))
    (flags : ∀ u, threads.flags u = if u = t then g else state.threads.flags u)
    (members : ∀ u, u ≠ t → (u ∈ now ↔ u ∈ parked))
    (ok : JoinerOk (t ∈ present) g phase onCpu (t ∈ now)) :
    Joining joinee present (state.move t phase onCpu threads) now := by
  have same : threads.flags joinee = state.threads.flags joinee := by
    rw [flags, if_neg other.symm]
  refine ⟨lists, fun member => inv.apart ((members joinee other.symm).mp member), ?_,
    fun u this => ?_, ?_, ?_⟩
  · simp only [JoinRun.move, Function.update_of_ne other.symm]
    exact inv.outside
  · simp only [JoinRun.move, Function.update_apply]
    by_cases mine : u = t
    · rw [if_pos mine, if_pos mine, mine, flags, if_pos rfl]
      exact ok
    · rw [if_neg mine, if_neg mine, flags, if_neg mine, members u mine]
      exact inv.joiners u this
  · rw [JoinRun.move, same]
    exact inv.alive
  · rw [JoinRun.move, same]
    exact inv.settled

theorem Joining.block (inv : Joining joinee present state parked) (other : t ≠ joinee)
    (outside : state.phase t = .out) {threads : Threads} (run : block state.threads t = .ok threads) :
    Joining joinee present (state.move t .blocked true threads) parked := by
  obtain ⟨runs, _, flags⟩ := block_ok run
  have ok := inv.joiners t other
  have awake : (state.threads.flags t).suspended = false := by
    apply Bool.eq_false_iff.mpr
    intro suspended
    rw [ok.resting suspended] at runs
    cases runs
  have unflagged : (state.threads.flags t).joining = false := by
    apply Bool.eq_false_iff.mpr
    intro joining
    simpa [outside] using ok.joining.mp joining
  have unparked : t ∉ parked := fun member => (ok.parked member).2.1 outside
  have same : threads = (state.threads.setFlags t fun f => { f with runnable := false }).unlink t := by
    unfold Sched.block at run
    rw [if_neg (by simp [runs])] at run
    cases run
    simp only [setFlags_flags, if_true, ok.free.1, awake, unflagged, Bool.or_self]
    rfl
  apply inv.moved other _ flags (fun _ _ => Iff.rfl)
  · refine ⟨ok.free, ?_, fun _ => rfl, fun _ => rfl, ?_, fun _ _ _ => Or.inl rfl⟩
    · simp [unflagged]
    · intro member
      exact absurd member unparked
  · rw [same]
    exact inv.lists.dequeue runs rfl

/-- The suspension takes the thread off the list it is on, unless JOINING is set. -/
theorem Joining.suspend (inv : Joining joinee present state parked) (other : t ≠ joinee)
    (truthful : FlagsTruthful state (.suspend t)) : ∃ now, Joining joinee present
      (state.move t (state.phase t) (state.onCpu t) (suspendThread state.threads t)) now := by
  have ok := inv.joiners t other
  by_cases joining : (state.threads.flags t).joining = true
  · have stopped : (state.threads.flags t).runnable = false :=
      Bool.eq_false_iff.mpr fun runs => truthful ⟨joining, runs⟩
    refine ⟨parked, inv.moved other ?_ (fun u => suspendThread_flags) (fun _ _ => Iff.rfl) ?_⟩
    · unfold suspendThread
      simp only [setFlags_flags, if_true, joining, Bool.or_true]
      exact inv.lists.mark stopped.symm
    · refine ⟨ok.free, ok.joining, fun _ => rfl, fun _ => rfl, fun member => ?_, fun _ _ awake => ?_⟩
      · exact ⟨rfl, (ok.parked member).2⟩
      · cases awake
  · have unflagged := Bool.eq_false_iff.mpr joining
    have unlinked : suspendThread state.threads t = (state.threads.setFlags t fun f =>
        { f with runnable := false, running := false, suspended := true }).unlink t := by
      unfold suspendThread
      simp only [setFlags_flags, if_true, unflagged, ok.free.1, ok.free.2.1, Bool.or_self]
      rfl
    have gone : ∀ now : List Thread, t ∉ now → JoinerOk (t ∈ present)
        { state.threads.flags t with runnable := false, running := false, suspended := true }
        (state.phase t) (state.onCpu t) (t ∈ now) := by
      intro now away
      refine ⟨ok.free, ok.joining, fun _ => rfl, fun _ => rfl, fun member => absurd member away,
        fun _ _ awake => ?_⟩
      cases awake
    by_cases runs : (state.threads.flags t).runnable = true
    · have unparked : t ∉ parked := by
        intro member
        rw [(ok.parked member).1] at runs
        cases runs
      refine ⟨parked, inv.moved other ?_ (fun u => suspendThread_flags) (fun _ _ => Iff.rfl)
        (gone parked unparked)⟩
      rw [unlinked]
      exact inv.lists.dequeue runs rfl
    · have stopped := Bool.eq_false_iff.mpr runs
      have marked := inv.lists.mark (t := t)
        (f := fun f => { f with runnable := false, running := false, suspended := true }) stopped.symm
      by_cases member : t ∈ parked
      · have away : t ∉ parked.erase t := inv.lists.nodup.not_mem_erase
        refine ⟨parked.erase t, inv.moved other ?_ (fun u => suspendThread_flags)
          (fun u this => List.mem_erase_of_ne this) (gone _ away)⟩
        rw [unlinked]
        exact marked.removeJoiner member
      · refine ⟨parked, inv.moved other ?_ (fun u => suspendThread_flags) (fun _ _ => Iff.rfl)
          (gone parked member)⟩
        rw [unlinked, marked.unlink_free (by rw [setFlags_flags, if_pos rfl]) member
          (not_dead other _)]
        exact marked

/-- With JOINING set the resumed thread is parked and stays so; otherwise its node is
free and it becomes RUNNABLE. -/
theorem Joining.wakeSuspended (inv : Joining joinee present state parked) (other : t ≠ joinee)
    (suspended : (state.threads.flags t).suspended = true)
    (truthful : FlagsTruthful state (.wakeSuspended t)) : Joining joinee present
      (state.move t (state.phase t) (state.onCpu t) (wakeSuspendedThread state.threads t)) parked := by
  have ok := inv.joiners t other
  have stopped := ok.resting suspended
  have linked : state.threads.linked t = true ↔ t ∈ parked := by
    rw [inv.lists.linked_iff, stopped]
    simp [other]
  have truth : (state.threads.flags t).joining = true ↔ state.phase t = .blocked ∨ t ∈ parked := by
    rw [← linked]
    exact truthful
  have marked := inv.lists.mark (t := t) (f := fun f => { f with suspended := false }) rfl
  apply inv.moved other _ (fun u => wakeSuspendedThread_flags) (fun _ _ => Iff.rfl)
  · by_cases joining : (state.threads.flags t).joining = true
    · refine ⟨ok.free, ok.joining, ?_, ?_, ?_, ?_⟩
      · simp
      · simp [joining, stopped]
      · intro member
        exact ⟨by simp [joining, stopped], (ok.parked member).2⟩
      · intro _ _ _
        exact truth.mp joining
    · have unflagged := Bool.eq_false_iff.mpr joining
      have apart : ¬(state.phase t = .blocked ∨ t ∈ parked) := fun park => joining (truth.mpr park)
      obtain ⟨unblocked, unparked⟩ := not_or.mp apart
      refine ⟨ok.free, ok.joining, ?_, ?_, ?_, ?_⟩
      · simp
      · exact fun blocked => absurd blocked unblocked
      · exact fun member => absurd member unparked
      · intro _ rests
        simp [unflagged, ok.free] at rests
  · unfold wakeSuspendedThread
    simp only [setFlags_flags, if_true, ok.free.1, ok.free.2.1, Bool.false_or]
    by_cases joining : (state.threads.flags t).joining = true
    · rw [if_pos joining]
      exact marked
    · have apart : t ∉ parked := fun member => joining (truth.mpr (Or.inr member))
      rw [if_neg joining]
      apply marked.enqueue _ apart (not_dead other _) rfl
      rw [setFlags_flags, if_pos rfl]
      exact stopped

/-- All joiners are off the list, and RUNNABLE unless they are suspended. -/
theorem Joining.woken (inv : Joining joinee present state parked) {threads : Threads}
    {gone : JoineePhase} (lists : threads.JoinLists joinee [] (gone = .dead))
    (flags : ∀ u, u ≠ joinee → (u ∈ parked → threads.flags u = { state.threads.flags u with
        runnable := (state.threads.flags u).runnable ||
          !((state.threads.flags u).hibernating || (state.threads.flags u).suspended) }) ∧
      (u ∉ parked → threads.flags u = state.threads.flags u))
    (alive : (threads.flags joinee).runnable = true ↔ gone = .alive)
    (settled : (threads.flags joinee).suspended = false ∧
      (threads.flags joinee).hibernating = false ∧ (threads.flags joinee).joining = false) :
    Joining joinee present { state with threads := threads, joinee := gone } [] := by
  refine ⟨lists, List.not_mem_nil, inv.outside, fun u this => ?_, alive, settled⟩
  have ok := inv.joiners u this
  obtain ⟨inside, outside⟩ := flags u this
  by_cases member : u ∈ parked
  · obtain ⟨stopped, _, unblocked, _⟩ := ok.parked member
    dsimp only
    rw [inside member]
    refine ⟨ok.free, ok.joining, ?_, fun blocked => absurd blocked unblocked,
      fun none => absurd none List.not_mem_nil, ?_⟩
    · intro suspended
      have held : (state.threads.flags u).suspended = true := suspended
      simp [stopped, held]
    · intro _ rests awake
      have released : (state.threads.flags u).suspended = false := awake
      simp [ok.free.1, released] at rests
  · dsimp only
    rw [outside member]
    refine ⟨ok.free, ok.joining, ok.resting, ok.blocked, fun none => absurd none List.not_mem_nil, ?_⟩
    intro here stopped awake
    exact Or.inl ((ok.awaited here stopped awake).resolve_right member)

/-- A move to another phase that leaves flags and lists alone. -/
theorem Joining.goTo (inv : Joining joinee present state parked) (other : t ≠ joinee)
    {phase : JoinPhase} {onCpu : Bool}
    (joining : (phase = .flagged ∨ phase = .scheduled) ↔
      (state.phase t = .flagged ∨ state.phase t = .scheduled))
    (blocked : phase = .blocked ↔ state.phase t = .blocked)
    (waits : t ∈ parked → phase ≠ .out ∧ (phase = .scheduled → onCpu = false)) :
    Joining joinee present (state.move t phase onCpu state.threads) parked := by
  have ok := inv.joiners t other
  apply inv.moved other inv.lists (flags_kept state.threads t) (fun _ _ => Iff.rfl)
  refine ⟨ok.free, ok.joining.trans joining.symm, ok.resting, ?_, fun member => ?_, ?_⟩
  · rw [blocked]
    exact ok.blocked
  · refine ⟨(ok.parked member).1, (waits member).1, ?_, (waits member).2⟩
    rw [Ne, blocked]
    exact (ok.parked member).2.2.1
  · rw [blocked]
    exact ok.awaited

theorem Joining.ne_joinee (inv : Joining joinee present state parked) (inside : state.phase t ≠ .out) :
    t ≠ joinee := by
  rintro rfl
  exact inside inv.outside

/-- Off a processor, or on one again. -/
theorem Joining.setCpu (inv : Joining joinee present state parked) {onCpu : Bool}
    (waits : t ∈ parked → state.phase t = .scheduled → onCpu = false) :
    Joining joinee present (state.move t (state.phase t) onCpu state.threads) parked := by
  by_cases this : t = joinee
  · refine ⟨inv.lists, inv.apart, ?_, fun u other => ?_, inv.alive, inv.settled⟩
    · rw [JoinRun.move, Function.update_eq_self]
      exact inv.outside
    · rw [JoinRun.move, Function.update_eq_self]
      dsimp only
      rw [Function.update_of_ne (this ▸ other)]
      exact inv.joiners u other
  · apply inv.goTo this Iff.rfl Iff.rfl
    intro member
    exact ⟨((inv.joiners t this).parked member).2.1, waits member⟩

theorem Joining.park (inv : Joining joinee present state parked) (blocked : state.phase t = .blocked) :
    Joining joinee present (state.move t .listed true (state.threads.addJoiner joinee t))
      (parked ++ [t]) := by
  have other := inv.ne_joinee (t := t) (by simp [blocked])
  have ok := inv.joiners t other
  have stopped := ok.blocked blocked
  have unparked : t ∉ parked := fun member => (ok.parked member).2.2.1 blocked
  apply inv.moved other (inv.lists.addJoiner stopped unparked (not_dead other _))
    (flags_kept state.threads t)
  · intro u this
    simp [this]
  · refine ⟨ok.free, ?_, ok.resting, fun same => ?_, fun _ => ?_, fun _ _ _ => ?_⟩
    · have unflagged := ok.joining
      simpa [blocked] using unflagged
    · cases same
    · exact ⟨stopped, by simp⟩
    · exact Or.inr (by simp)

theorem Joining.setJoining (inv : Joining joinee present state parked) {joining onCpu : Bool}
    {phase : JoinPhase} (other : t ≠ joinee)
    (flagged : joining = true ↔ phase = .flagged ∨ phase = .scheduled)
    (unblocked : state.phase t ≠ .blocked) (runs : phase ≠ .blocked)
    (waits : t ∈ parked → phase ≠ .out ∧ (phase = .scheduled → onCpu = false)) :
    Joining joinee present (state.move t phase onCpu
      (state.threads.setFlags t fun f => { f with joining := joining })) parked := by
  have ok := inv.joiners t other
  apply inv.moved other (inv.lists.mark rfl) (fun u => setFlags_flags) (fun _ _ => Iff.rfl)
  refine ⟨ok.free, flagged, ok.resting, fun same => absurd same runs, fun member => ?_, ?_⟩
  · exact ⟨(ok.parked member).1, (waits member).1, runs, (waits member).2⟩
  · intro here stopped awake
    exact Or.inr ((ok.awaited here stopped awake).resolve_left unblocked)

theorem Joining.exitBlock (inv : Joining joinee present state parked) (alive : state.joinee = .alive)
    {threads : Threads} (run : Sched.block state.threads joinee = .ok threads) :
    Joining joinee present { state with threads := threads, joinee := .exiting } parked := by
  obtain ⟨runs, _, flags⟩ := block_ok run
  have mine : threads.flags joinee = { state.threads.flags joinee with runnable := false } := by
    rw [flags, if_pos rfl]
  have lists : threads.JoinLists joinee parked (state.joinee = .dead) := by
    unfold Sched.block at run
    rw [if_neg (by simp [runs])] at run
    cases run
    simp only [setFlags_flags, if_true, inv.settled.1, inv.settled.2.1, inv.settled.2.2, Bool.or_self]
    exact inv.lists.dequeue runs rfl
  rw [alive] at lists
  refine ⟨by simpa using lists, inv.apart, inv.outside, fun u this => ?_, ?_, ?_⟩
  · dsimp only
    rw [flags, if_neg this]
    exact inv.joiners u this
  · simp [mine]
  · rw [mine]
    exact inv.settled

theorem Joining.clearJoining_step (inv : Joining joinee present state parked)
    (move : JoinStep joinee state (.clearJoining t) after) : ∃ now, Joining joinee present after now := by
  obtain ⟨⟨here, scheduled⟩, move⟩ := Option.ite_none_right_eq_some.mp move
  cases Option.some.inj move
  have other := inv.ne_joinee (t := t) (by simp [scheduled])
  -- a parked thread does not run
  have unparked : t ∉ parked := by
    intro member
    have off := ((inv.joiners t other).parked member).2.2.2 scheduled
    rw [here] at off
    cases off
  refine ⟨parked, inv.setJoining other ?_ ?_ ?_ fun member => absurd member unparked⟩
  · simp
  · simp [scheduled]
  · simp

theorem Joining.exitDead_step (inv : Joining joinee present state parked) {fuel : Nat}
    (move : JoinStep joinee state (.exitDead fuel) after) : ∃ now, Joining joinee present after now := by
  obtain ⟨⟨exiting, _⟩, move⟩ := Option.ite_none_right_eq_some.mp move
  obtain ⟨threads, run, rfl⟩ := Halt.map_toOption_eq_some.mp move
  have stopped : (state.threads.flags joinee).runnable = false := by
    apply Bool.eq_false_iff.mpr
    intro runs
    have alive := inv.alive.mp runs
    rw [exiting] at alive
    cases alive
  have lists : state.threads.JoinLists joinee parked False := by
    have before := inv.lists
    rw [exiting] at before
    simpa using before
  obtain ⟨empty, flags⟩ := exitThread_ok lists inv.apart stopped run
  have mine := (flags joinee).2 inv.apart
  rw [setFlags_flags, if_pos rfl] at mine
  refine ⟨[], inv.woken (by simpa using empty) (fun u this => ?_) ?_ ?_⟩
  · have each := flags u
    rw [setFlags_flags, if_neg this] at each
    exact each
  · simp [mine, stopped]
  · rw [mine]
    exact inv.settled

theorem Joining.exitSwitch_step (inv : Joining joinee present state parked)
    (move : JoinStep joinee state (.exitSwitch) after) : ∃ now, Joining joinee present after now := by
  obtain ⟨dead, move⟩ := Option.ite_none_right_eq_some.mp move
  cases Option.some.inj move
  have mine : ((state.threads.setFlags joinee fun f => { f with running := false }).flags joinee) =
      { state.threads.flags joinee with running := false } := by
    rw [setFlags_flags, if_pos rfl]
  have lists := inv.lists.mark (t := joinee) (f := fun f => { f with running := false }) rfl
  refine ⟨parked, lists, inv.apart, inv.outside, fun u this => ?_, ?_, ?_⟩
  · dsimp only
    rw [setFlags_flags, if_neg this]
    exact inv.joiners u this
  · rw [mine]
    exact inv.alive
  · rw [mine]
    exact inv.settled

theorem Joining.reap_step (inv : Joining joinee present state parked) {fuel : Nat}
    (move : JoinStep joinee state (.reap fuel) after) : ∃ now, Joining joinee present after now := by
  obtain ⟨⟨dead, _, _⟩, move⟩ := Option.ite_none_right_eq_some.mp move
  obtain ⟨threads, run, rfl⟩ := Halt.map_toOption_eq_some.mp move
  have lists : state.threads.JoinLists joinee parked True := by
    have before := inv.lists
    rw [dead] at before
    simpa using before
  obtain ⟨empty, flags⟩ := reapDead_ok lists inv.apart run
  have mine := (flags joinee).2 inv.apart
  refine ⟨[], inv.woken (by simpa using empty) (fun u _ => flags u) ?_ ?_⟩
  · rw [mine]
    constructor
    · intro runs
      have alive := inv.alive.mp runs
      rw [dead] at alive
      cases alive
    · intro alive
      cases alive
  · rw [mine]
    exact inv.settled

theorem Joining.step (inv : Joining joinee present state parked) (truthful : FlagsTruthful state op)
    (move : joinStep joinee state op = some after) : ∃ now, Joining joinee present after now := by
  cases op with
  | block t =>
    obtain ⟨⟨⟨_, outside⟩, other, _⟩, move⟩ := Option.ite_none_right_eq_some.mp move
    split at move
    · obtain ⟨threads, run, rfl⟩ := Halt.map_toOption_eq_some.mp move
      have blocked := inv.block other outside run
      exact ⟨parked, blocked.lists, blocked.apart, blocked.outside, blocked.joiners, blocked.alive,
        blocked.settled⟩
    · cases Option.some.inj move
      exact ⟨parked, inv⟩
  | park t =>
    obtain ⟨⟨_, blocked⟩, move⟩ := Option.ite_none_right_eq_some.mp move
    cases Option.some.inj move
    exact ⟨_, inv.park blocked⟩
  | unlock t =>
    obtain ⟨⟨_, listed⟩, move⟩ := Option.ite_none_right_eq_some.mp move
    cases Option.some.inj move
    have other := inv.ne_joinee (t := t) (by simp [listed])
    have unlocked : Joining joinee present (state.move t .unlocked true state.threads) parked := by
      apply inv.goTo other
      · simp [listed]
      · simp [listed]
      · simp
    exact ⟨parked, unlocked.lists, unlocked.apart, unlocked.outside, unlocked.joiners, unlocked.alive,
      unlocked.settled⟩
  | setJoining t =>
    obtain ⟨⟨_, unlocked⟩, move⟩ := Option.ite_none_right_eq_some.mp move
    cases Option.some.inj move
    have other := inv.ne_joinee (t := t) (by simp [unlocked])
    refine ⟨parked, inv.setJoining other ?_ ?_ ?_ ?_⟩
    · simp
    · simp [unlocked]
    · simp
    · simp
  | schedule t =>
    obtain ⟨⟨_, flagged⟩, move⟩ := Option.ite_none_right_eq_some.mp move
    cases Option.some.inj move
    have other := inv.ne_joinee (t := t) (by simp [flagged])
    refine ⟨parked, inv.goTo other ?_ ?_ ?_⟩
    · simp [flagged]
    · simp [flagged]
    · simp
  | clearJoining t => exact inv.clearJoining_step move
  | preempt t =>
    obtain ⟨_, move⟩ := Option.ite_none_right_eq_some.mp move
    cases Option.some.inj move
    exact ⟨parked, inv.setCpu fun _ _ => rfl⟩
  | run t =>
    obtain ⟨⟨_, runs⟩, move⟩ := Option.ite_none_right_eq_some.mp move
    cases Option.some.inj move
    refine ⟨parked, inv.setCpu fun member _ => ?_⟩
    have other : t ≠ joinee := fun same => inv.apart (same ▸ member)
    rw [((inv.joiners t other).parked member).1] at runs
    cases runs
  | suspend t =>
    obtain ⟨⟨other, _, _⟩, move⟩ := Option.ite_none_right_eq_some.mp move
    cases Option.some.inj move
    exact inv.suspend other truthful
  | wakeSuspended t =>
    obtain ⟨⟨other, _, suspended⟩, move⟩ := Option.ite_none_right_eq_some.mp move
    cases Option.some.inj move
    exact ⟨parked, inv.wakeSuspended other suspended truthful⟩
  | exitBlock =>
    obtain ⟨⟨alive, _⟩, move⟩ := Option.ite_none_right_eq_some.mp move
    obtain ⟨threads, run, rfl⟩ := Halt.map_toOption_eq_some.mp move
    exact ⟨parked, inv.exitBlock alive run⟩
  | exitDead fuel => exact inv.exitDead_step move
  | exitSwitch => exact inv.exitSwitch_step move
  | reap fuel => exact inv.reap_step move


/-! ## Main result -/

theorem join_wakes_kept (joinee : Thread) (present : List Thread)
    (reached : Reach (FreshJoin joinee present) (JoinStep joinee) FlagsTruthful state) :
    JoinWakesKept joinee present state := by
  have inv : ∃ parked, Joining joinee present state parked := by
    apply Reach.invariant (fun state => ∃ parked, Joining joinee present state parked) _ _ reached
    · exact fun _ fresh => ⟨[], Joining.start fresh⟩
    · intro before op after ⟨parked, inv⟩ truthful move
      exact inv.step truthful move
  obtain ⟨parked, inv⟩ := inv
  exact inv.wakesKept

end Runs

/-! ## Two runs -/

def joinerAndJoinee : JoinRun :=
  { threads := twoThreads
    phase := fun _ => .out
    onCpu := fun _ => true
    deadLock := none
    joinee := .alive }

theorem joinerAndJoinee_fresh :
    FreshJoin (.thread 1) [.thread 1, .thread 2] joinerAndJoinee := by
  refine ⟨twoThreads_queues, by decide, fun t => ?_, fun _ => rfl, rfl⟩
  simp only [joinerAndJoinee, twoThreads, setFlags_flags, startThread_flags, noThreads]
  repeat' split
  all_goals rfl

/-- The joiner is suspended and resumed before the joinee exits. -/
theorem join_wakes_kept_resumed :
    ∃ state, Reach (FreshJoin (.thread 1) [.thread 1, .thread 2]) (JoinStep (.thread 1))
        FlagsTruthful state ∧
      JoinWakesKept (.thread 1) [.thread 1, .thread 2] state ∧ state.joinee = .dead := by
  have run : (runLabels (joinStep (.thread 1)) FlagsTruthful
      [.block (.thread 2), .park (.thread 2), .unlock (.thread 2), .setJoining (.thread 2),
        .schedule (.thread 2), .suspend (.thread 2), .wakeSuspended (.thread 2), .exitBlock,
        .exitDead 1] joinerAndJoinee).any (fun state => decide (state.joinee = .dead)) = true := by
    decide +kernel
  obtain ⟨state, reached, dead⟩ := Reach.of_run_ends joinerAndJoinee_fresh run
  exact ⟨state, reached, join_wakes_kept _ _ reached, dead⟩

/-- The joinee exits while the joiner is suspended: the resumption finds JOINING set
and leaves the joiner for good. -/
theorem suspended_joiner_lost :
    ∃ state, Reach (FreshJoin (.thread 1) [.thread 1, .thread 2]) (JoinStep (.thread 1)) Always state ∧
      ¬JoinWakesKept (.thread 1) [.thread 1, .thread 2] state := by
  have run : (runLabels (joinStep (.thread 1)) Always
      [.block (.thread 2), .park (.thread 2), .unlock (.thread 2), .setJoining (.thread 2),
        .schedule (.thread 2), .suspend (.thread 2), .exitBlock, .exitDead 1,
        .wakeSuspended (.thread 2)] joinerAndJoinee).any (fun state =>
      decide (state.joinee = .dead ∧ state.phase (.thread 2) = .scheduled ∧
        state.threads.linked (.thread 2) = false ∧
        (state.threads.flags (.thread 2)).suspended = false ∧
        (state.threads.flags (.thread 2)).runnable = false)) = true := by
    decide +kernel
  obtain ⟨state, reached, dead, phase, unlinked, awake, stopped⟩ :=
    Reach.of_run_ends joinerAndJoinee_fresh run
  refine ⟨state, reached, fun kept => ?_⟩
  have runs := kept (Or.inl dead) (.thread 2) (by decide) (by decide) (by simp [phase])
    (fun other nodes list member => by
      rw [linked_of_isList list member] at unlinked
      cases unlinked) awake
  rw [stopped] at runs
  cases runs

end Stardust.Sched
