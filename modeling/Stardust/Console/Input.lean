import Stardust.Lib.Ring
import Stardust.Sched.WaitEvent

/-! # Console input

One thread calls `readbytes` again and again; the daemon appends to the in ring and raises
the event of the console, whose handler calls `wake_up` for `console_queue`.  The reader
holds the console's lock while it reads the ring, and not from there to its `block`. -/
set_option autoImplicit false
namespace Stardust.Console

open Stardust.Lib
open Stardust.Sched (Thread Threads)

/-- `sizeof(intf->in)` -/
def inSize : Nat := 1024

/-- Where the reader is in `readbytes(buf, len)`. -/
inductive ReadPhase
  | out
  /-- before `xencons_ring_avail` -/
  | entered (len : Nat)
  /-- nothing was available: before `add_waiter` -/
  | missed (len : Nat)
  /-- `schedule` has been called -/
  | scheduled (len : Nat)
  /-- before `xencons_ring_recv`, the one in the loop if `waited` -/
  | receiving (waited : Bool) (len : Nat)
  /-- in the loop of `xencons_ring_recv`, with `data` the bytes filled -/
  | copying (waited : Bool) (cons prod : Nat) (data : List UInt8) (len : Nat)
  /-- it has returned 0: before `block(current)` -/
  | emptied (len : Nat)
  /-- before `remove_waiter` -/
  | leaving (data : List UInt8)
  deriving DecidableEq

structure InputRun where
  threads : Threads
  /-- the threads of the entries on `console_queue` -/
  waitQueue : List Thread
  phase : ReadPhase
  input : Nat → UInt8
  inCons : Nat
  inProd : Nat
  bugged : Bool
  /-- what the calls of `readbytes` have returned -/
  results : List (List UInt8)
  /-- the daemon has appended input, and has yet to raise the event -/
  owed : Bool
  /-- the event is pending -/
  raised : Bool
  /-- the calls of `handle_input` that have yet to call `wake_up` -/
  handlers : Nat
  /-- ghost: a `wake_up` has been called since the reader last read `in_prod` -/
  handled : Bool
  /-- ghost: what the daemon has appended -/
  appended : List UInt8

inductive InputOp
  | readbytes (len : Nat)
  /-- the reader's next access -/
  | read
  | append (byte : UInt8)
  | raise
  /-- the event is cleared, and `handle_input` is called -/
  | deliver
  | wakeUp
  deriving DecidableEq

/-- The reader blocks itself, and calls `schedule`. -/
def sleepOn (reader : Thread) (state : InputRun) (waitQueue : List Thread) (len : Nat) :
    Option InputRun :=
  (Sched.block state.threads reader).toOption.map fun threads =>
    { state with threads := threads, waitQueue := waitQueue, phase := .scheduled len }

def readStep (reader : Thread) (state : InputRun) : Option InputRun :=
  match state.phase with
  | .out => none
  | .entered len =>
    if inSize < uintSub state.inProd state.inCons then some { state with bugged := true }
    else some { state with
      handled := false
      phase := if uintSub state.inProd state.inCons ≠ 0 then .receiving false len else .missed len }
  | .missed len => sleepOn reader state (state.waitQueue ++ [reader]) len
  | .scheduled len =>
    if (state.threads.flags reader).runnable = true then
      some { state with phase := .receiving true len }
    else none
  | .receiving waited len =>
    if inSize < uintSub state.inProd state.inCons then some { state with bugged := true }
    else some { state with
      handled := false
      phase := .copying waited state.inCons state.inProd [] len }
  | .copying waited cons prod data len =>
    if data.length < len ∧ uintAdd cons data.length ≠ prod then
      let byte := state.input (uintAdd cons data.length % inSize)
      some { state with phase := .copying waited cons prod (data ++ [byte]) len }
    else
      let after : InputRun := { state with inCons := uintAdd cons data.length }
      if waited then
        some { after with phase := if data.length ≠ 0 then .leaving data else .emptied len }
      else some { after with phase := .out, results := state.results ++ [data] }
  | .emptied len => sleepOn reader state state.waitQueue len
  | .leaving data =>
    some { state with
      waitQueue := state.waitQueue.erase reader
      phase := .out
      results := state.results ++ [data] }

def inputStep (reader : Thread) (state : InputRun) : InputOp → Option InputRun
  | .readbytes len =>
    if state.phase = .out ∧ 0 < len then some { state with phase := .entered len } else none
  | .read => readStep reader state
  | .append byte =>
    if uintSub state.inProd state.inCons < inSize then
      some { state with
        input := Function.update state.input (state.inProd % inSize) byte
        inProd := uintAdd state.inProd 1
        owed := true
        appended := state.appended ++ [byte] }
    else none
  -- the daemon raises the event when it has read output, too
  | .raise => some { state with owed := false, raised := true }
  | .deliver =>
    if state.raised then some { state with raised := false, handlers := state.handlers + 1 } else none
  | .wakeUp =>
    if 0 < state.handlers then
      (Sched.wakeQueue state.waitQueue state.threads).toOption.map fun threads =>
        { state with threads := threads, handlers := state.handlers - 1, handled := true }
    else none

abbrev InputStep (reader : Thread) (before : InputRun) (op : InputOp) (after : InputRun) : Prop :=
  inputStep reader before op = some after

/-- What the ring holds. -/
def InputRun.pending (state : InputRun) : List UInt8 :=
  ringRead state.input inSize state.inCons (uintSub state.inProd state.inCons)

/-- A `wake_up` for input is to come. -/
def InputRun.Outstanding (state : InputRun) : Prop :=
  state.owed = true ∨ state.raised = true ∨ 0 < state.handlers

instance (state : InputRun) : Decidable state.Outstanding :=
  inferInstanceAs (Decidable (_ ∨ _))

/-- After `init_console`, with any indices that the ring can have; every thread can run. -/
structure FreshInput (state : InputRun) : Prop where
  flags : ∀ t, (state.threads.flags t).runnable = true ∧ (state.threads.flags t).suspended = false ∧
    (state.threads.flags t).hibernating = false
  phase : state.phase = .out
  indices : state.inCons < 2 ^ 32 ∧ state.inProd < 2 ^ 32 ∧
    uintSub state.inProd state.inCons ≤ inSize
  bugged : state.bugged = false
  results : state.results = []
  appended : state.appended = state.pending

/-- The reader is RUNNABLE, or the ring is empty, or a `wake_up` is to come. -/
def NeverSleepsOnInput (reader : Thread) (state : InputRun) : Prop :=
  (state.threads.flags reader).runnable = false → state.inCons ≠ state.inProd → state.Outstanding

/-- The ring was empty when the reader looked, and its `block` comes next. -/
def ReadPhase.beforeBlock : ReadPhase → Bool
  | .missed _ | .emptied _ => true
  | _ => false

/-- No `wake_up` comes between the reader's look at `in_prod` that finds nothing and its
`block`; unless the ring is empty when it blocks, or another `wake_up` is to come. -/
def BlocksInTime (state : InputRun) : InputOp → Prop
  | .read => state.phase.beforeBlock = true → state.handled = true → state.inCons ≠ state.inProd →
      state.Outstanding
  | _ => True

instance (state : InputRun) (op : InputOp) : Decidable (BlocksInTime state op) := by
  cases op <;> unfold BlocksInTime <;> infer_instance

section Runs
variable {reader : Thread} {state after : InputRun} {op : InputOp} {len : Nat}

/-! ## The invariant -/

/-- What holds at a phase: `runs` that the reader is RUNNABLE, `queued` that it is on
`console_queue`, `told` that a `wake_up` is to come for what the ring holds, and `noticed`
the same of a `wake_up` that may also be past. -/
def ReaderOk (runs queued told noticed : Prop) (inCons : Nat) : ReadPhase → Prop
  | .out => runs
  | .entered len => runs ∧ 0 < len
  | .missed len => runs ∧ 0 < len ∧ noticed
  | .scheduled len => queued ∧ 0 < len ∧ (runs ∨ told)
  | .receiving waited len => runs ∧ 0 < len ∧ (waited = true → queued)
  | .copying waited cons prod _ len =>
    runs ∧ 0 < len ∧ (waited = true → queued) ∧ cons = inCons ∧ (cons = prod → noticed)
  | .emptied len => runs ∧ 0 < len ∧ noticed ∧ queued
  | .leaving _ => runs

def InputRun.Told (state : InputRun) : Prop :=
  state.inCons ≠ state.inProd → state.Outstanding

def InputRun.Noticed (state : InputRun) : Prop :=
  state.inCons ≠ state.inProd → state.Outstanding ∨ state.handled = true

structure Alert (reader : Thread) (state : InputRun) : Prop where
  free : ∀ t, (state.threads.flags t).suspended = false ∧ (state.threads.flags t).hibernating = false
  indices : state.inCons < 2 ^ 32 ∧ state.inProd < 2 ^ 32
  reader : ReaderOk ((state.threads.flags reader).runnable = true) (reader ∈ state.waitQueue)
    state.Told state.Noticed state.inCons state.phase

theorem Alert.start (fresh : FreshInput state) : Alert reader state := by
  refine ⟨fun t => (fresh.flags t).2, ⟨fresh.indices.1, fresh.indices.2.1⟩, ?_⟩
  rw [fresh.phase]
  exact (fresh.flags reader).1

theorem Alert.neverSleeps (inv : Alert reader state) : NeverSleepsOnInput reader state := by
  intro stopped
  have ok := inv.reader
  have asleep : ¬(state.threads.flags reader).runnable = true := by
    rw [stopped]
    exact Bool.false_ne_true
  cases phase : state.phase with
  | scheduled len =>
    rw [phase] at ok
    exact ok.2.2.resolve_left asleep
  | out =>
    rw [phase] at ok
    exact absurd ok asleep
  | leaving data =>
    rw [phase] at ok
    exact absurd ok asleep
  | _ =>
    rw [phase] at ok
    exact absurd ok.1 asleep

theorem ReaderOk.mono {runs queued told noticed runs' told' noticed' : Prop} {inCons : Nat}
    {phase : ReadPhase} (ok : ReaderOk runs queued told noticed inCons phase) (wakes : runs → runs')
    (tells : queued → runs ∨ told → runs' ∨ told') (notices : noticed → noticed') :
    ReaderOk runs' queued told' noticed' inCons phase := by
  cases phase with
  | out => exact wakes ok
  | entered len => exact ⟨wakes ok.1, ok.2⟩
  | missed len => exact ⟨wakes ok.1, ok.2.1, notices ok.2.2⟩
  | scheduled len => exact ⟨ok.1, ok.2.1, tells ok.1 ok.2.2⟩
  | receiving waited len => exact ⟨wakes ok.1, ok.2⟩
  | copying waited cons prod data len =>
    obtain ⟨runs, wants, queued, same, empty⟩ := ok
    exact ⟨wakes runs, wants, queued, same, fun none => notices (empty none)⟩
  | emptied len => exact ⟨wakes ok.1, ok.2.1, notices ok.2.2.1, ok.2.2.2⟩
  | leaving data => exact wakes ok

/-! ## Steps of the daemon and the handler -/

/-- A step after which a `wake_up` is to come. -/
theorem Alert.told (inv : Alert reader state) (threads : after.threads = state.threads)
    (waitQueue : after.waitQueue = state.waitQueue) (phase : after.phase = state.phase)
    (inCons : after.inCons = state.inCons) (inProd : after.inProd < 2 ^ 32)
    (outstanding : after.Outstanding) : Alert reader after := by
  refine ⟨?_, ⟨?_, inProd⟩, ?_⟩
  · rw [threads]
    exact inv.free
  · rw [inCons]
    exact inv.indices.1
  · rw [threads, waitQueue, phase, inCons]
    exact inv.reader.mono (fun runs => runs) (fun _ _ => Or.inr fun _ => outstanding)
      fun _ _ => Or.inl outstanding

/-- The reader is RUNNABLE if it is on the queue. -/
theorem Alert.wakeUp (inv : Alert reader state) {threads : Threads}
    (run : Sched.wakeQueue state.waitQueue state.threads = .ok threads) :
    Alert reader { state with
      threads := threads, handlers := state.handlers - 1, handled := true } := by
  have woken := Sched.wakeQueue_ok inv.free run
  have runs : (threads.flags reader).runnable =
      ((state.threads.flags reader).runnable || decide (reader ∈ state.waitQueue)) :=
    (woken reader).2.2
  refine ⟨fun t => ⟨(woken t).1, (woken t).2.1⟩, inv.indices, ?_⟩
  apply inv.reader.mono
  · intro before
    simp [runs, before]
  · intro queued _
    exact Or.inl (by simp [runs, queued])
  · exact fun _ _ => Or.inr rfl

/-! ## Steps of the reader -/

/-- The reader blocks itself; what came since its look has a `wake_up` to come. -/
theorem Alert.sleepOn (inv : Alert reader state) {waitQueue : List Thread}
    (queued : reader ∈ waitQueue) (wants : 0 < len) (noticed : state.Noticed)
    (unhandled : state.handled = true → state.inCons ≠ state.inProd → state.Outstanding)
    (move : sleepOn reader state waitQueue len = some after) : Alert reader after := by
  obtain ⟨threads, run, rfl⟩ := Halt.map_toOption_eq_some.mp move
  obtain ⟨_, _, flags⟩ := Sched.block_ok run
  refine ⟨fun t => ?_, inv.indices, queued, wants, Or.inr fun unread => ?_⟩
  · simp only [flags]
    split
    · exact inv.free reader
    · exact inv.free t
  · rcases noticed unread with outstanding | handled
    · exact outstanding
    · exact unhandled handled unread

/-- A reader that blocks itself sleeps on what the ring holds. -/
theorem told_of_neverSleeps (kept : NeverSleepsOnInput reader after)
    (blocks : state.phase.beforeBlock = true) (move : readStep reader state = some after) :
    state.Told := by
  have slept : ∀ waitQueue len, sleepOn reader state waitQueue len = some after → state.Told := by
    intro waitQueue len move
    obtain ⟨threads, run, rfl⟩ := Halt.map_toOption_eq_some.mp move
    have stopped : (threads.flags reader).runnable = false := by
      rw [(Sched.block_ok run).2.2, if_pos rfl]
    exact kept stopped
  unfold readStep at move
  cases phase : state.phase with
  | missed len =>
    rw [phase] at move
    exact slept _ len move
  | emptied len =>
    rw [phase] at move
    exact slept _ len move
  | _ =>
    rw [phase] at blocks
    cases blocks

/-- The end of `xencons_ring_recv`; it has found nothing only if `in_prod` was `in_cons`. -/
theorem Alert.received (inv : Alert reader state) {waited : Bool} {cons prod : Nat}
    {data : List UInt8} (phase : state.phase = .copying waited cons prod data len)
    (ends : ¬(data.length < len ∧ uintAdd cons data.length ≠ prod)) :
    Alert reader (if waited then { state with
        inCons := uintAdd cons data.length
        phase := if data.length ≠ 0 then .leaving data else .emptied len }
      else { state with
        inCons := uintAdd cons data.length, phase := .out, results := state.results ++ [data] }) := by
  have ok := inv.reader
  rw [phase] at ok
  obtain ⟨runs, wants, queued, same, empty⟩ := ok
  have indices : uintAdd cons data.length < 2 ^ 32 ∧ state.inProd < 2 ^ 32 :=
    ⟨uintAdd_lt cons data.length, inv.indices.2⟩
  cases waited with
  | false => exact ⟨inv.free, indices, runs⟩
  | true =>
    by_cases filled : data.length ≠ 0
    · refine ⟨inv.free, indices, ?_⟩
      simp only [if_true, if_pos filled]
      exact runs
    · have none : data.length = 0 := Decidable.not_not.mp filled
      have kept : uintAdd cons data.length = cons := by
        rw [none, same]
        exact uintAdd_zero inv.indices.1
      have found : cons = prod := by
        by_contra more
        exact ends ⟨by omega, by rw [kept]; exact more⟩
      refine ⟨inv.free, indices, ?_⟩
      simp only [if_true, if_neg filled]
      refine ⟨runs, wants, fun unread => ?_, queued rfl⟩
      apply empty found
      rw [← same, ← kept]
      exact unread

theorem Alert.read (inv : Alert reader state) (inTime : BlocksInTime state .read)
    (move : readStep reader state = some after) : Alert reader after := by
  have ok := inv.reader
  unfold readStep at move
  unfold BlocksInTime at inTime
  cases phase : state.phase with
  | out =>
    rw [phase] at move
    cases move
  | entered len =>
    rw [phase] at move ok
    simp only at move
    split at move
    · cases Option.some.inj move
      exact ⟨inv.free, inv.indices, ok⟩
    · cases Option.some.inj move
      refine ⟨inv.free, inv.indices, ?_⟩
      by_cases none : uintSub state.inProd state.inCons = 0
      · have empty : state.inCons = state.inProd := by
          have indices := inv.indices
          unfold uintSub at none
          omega
        simp only [none, ne_eq, not_true, if_false]
        exact ⟨ok.1, ok.2, fun unread => absurd empty unread⟩
      · simp only [ne_eq, none, not_false_eq_true, if_true]
        exact ⟨ok.1, ok.2, fun first => absurd first Bool.false_ne_true⟩
  | missed len =>
    rw [phase] at move ok inTime
    exact inv.sleepOn (List.mem_append_right _ List.mem_cons_self) ok.2.1 ok.2.2 (inTime rfl) move
  | scheduled len =>
    rw [phase] at move ok
    obtain ⟨runs, move⟩ := Option.ite_none_right_eq_some.mp move
    cases Option.some.inj move
    exact ⟨inv.free, inv.indices, runs, ok.2.1, fun _ => ok.1⟩
  | receiving waited len =>
    rw [phase] at move ok
    simp only at move
    split at move
    · cases Option.some.inj move
      exact ⟨inv.free, inv.indices, ok⟩
    · cases Option.some.inj move
      exact ⟨inv.free, inv.indices, ok.1, ok.2.1, ok.2.2, rfl, fun empty unread => absurd empty unread⟩
  | copying waited cons prod data len =>
    rw [phase] at move ok
    simp only at move
    split at move
    · cases Option.some.inj move
      exact ⟨inv.free, inv.indices, ok⟩
    · rename_i ends
      have received := inv.received phase ends
      cases waited with
      | false =>
        cases Option.some.inj move
        exact received
      | true =>
        cases Option.some.inj move
        exact received
  | emptied len =>
    rw [phase] at move ok inTime
    exact inv.sleepOn ok.2.2.2 ok.2.1 ok.2.2.1 (inTime rfl) move
  | leaving data =>
    rw [phase] at move ok
    cases Option.some.inj move
    exact ⟨inv.free, inv.indices, ok⟩

theorem Alert.step (inv : Alert reader state) (inTime : BlocksInTime state op)
    (move : inputStep reader state op = some after) : Alert reader after := by
  cases op with
  | readbytes len =>
    obtain ⟨⟨out, wants⟩, move⟩ := Option.ite_none_right_eq_some.mp move
    cases Option.some.inj move
    have ok := inv.reader
    rw [out] at ok
    exact ⟨inv.free, inv.indices, ok, wants⟩
  | read => exact inv.read inTime move
  | append byte =>
    obtain ⟨_, move⟩ := Option.ite_none_right_eq_some.mp move
    cases Option.some.inj move
    exact inv.told rfl rfl rfl rfl (uintAdd_lt _ _) (Or.inl rfl)
  | raise =>
    cases Option.some.inj move
    exact inv.told rfl rfl rfl rfl inv.indices.2 (Or.inr (Or.inl rfl))
  | deliver =>
    obtain ⟨_, move⟩ := Option.ite_none_right_eq_some.mp move
    cases Option.some.inj move
    exact inv.told rfl rfl rfl rfl inv.indices.2 (Or.inr (Or.inr (Nat.succ_pos _)))
  | wakeUp =>
    obtain ⟨_, move⟩ := Option.ite_none_right_eq_some.mp move
    obtain ⟨threads, run, rfl⟩ := Halt.map_toOption_eq_some.mp move
    exact inv.wakeUp run

/-- In every run in which the reader blocks in time it never sleeps on input; a next step
keeps that exactly when the reader does not block too late in it. -/
theorem readbytes_never_sleeps_on_input
    (reached : Reach FreshInput (InputStep reader) BlocksInTime state) :
    NeverSleepsOnInput reader state ∧
      ∀ op after, InputStep reader state op after →
        (NeverSleepsOnInput reader after ↔ BlocksInTime state op) := by
  have inv : Alert reader state := by
    apply Reach.invariant (Alert reader) _ _ reached
    · exact fun _ fresh => Alert.start fresh
    · intro before op after inv inTime move
      exact inv.step inTime move
  refine ⟨inv.neverSleeps, fun op after move => ⟨fun kept => ?_, fun inTime => ?_⟩⟩
  · cases op with
    | read =>
      intro blocks _
      exact told_of_neverSleeps kept blocks move
    | _ => trivial
  · exact (inv.step inTime move).neverSleeps

end Runs

/-! ## Three runs -/

/-- Nothing is in the ring and nobody waits. -/
def noInput : InputRun :=
  { threads := Sched.noWaiters.threads
    waitQueue := []
    phase := .out
    input := fun _ => 0
    inCons := 0
    inProd := 0
    bugged := false
    results := []
    owed := false
    raised := false
    handlers := 0
    handled := false
    appended := [] }

theorem noInput_fresh : FreshInput noInput :=
  ⟨fun _ => ⟨rfl, rfl, rfl⟩, rfl, ⟨by decide, by decide, by decide⟩, rfl, rfl, rfl⟩

/-- The reader waits, is woken for one byte and returns it. -/
theorem readbytes_never_sleeps_on_input_woken :
    ∃ state, Reach FreshInput (InputStep (.thread 1)) BlocksInTime state ∧
      NeverSleepsOnInput (.thread 1) state ∧ state.results = [[104]] := by
  have run : (runLabels (inputStep (.thread 1)) BlocksInTime
      ([.readbytes 8, .read, .read, .append 104, .raise, .deliver, .wakeUp] ++
        List.replicate 5 .read) noInput).any (fun state =>
      decide (state.results = [[104]])) = true := by
    decide +kernel
  obtain ⟨state, reached, results⟩ := Reach.of_run_ends noInput_fresh run
  exact ⟨state, reached, (readbytes_never_sleeps_on_input reached).1, results⟩

/-- The byte comes, and is handled, between the first test and `add_waiter`; or after a
wake-up for nothing, between `xencons_ring_recv` and `block`. -/
theorem reader_sleeps_on_input :
    (∃ state after, Reach FreshInput (InputStep (.thread 1)) Always state ∧
      state.phase = .missed 8 ∧ InputStep (.thread 1) state .read after ∧
      ¬NeverSleepsOnInput (.thread 1) after) ∧
    ∃ state after, Reach FreshInput (InputStep (.thread 1)) Always state ∧
      state.phase = .emptied 8 ∧ InputStep (.thread 1) state .read after ∧
      ¬NeverSleepsOnInput (.thread 1) after := by
  have lost : ∀ labels phase, (runLabels (inputStep (.thread 1)) Always labels noInput).any
      (fun state => decide (state.phase = phase ∧
        (readStep (.thread 1) state).any (fun after => decide
          ((after.threads.flags (.thread 1)).runnable = false ∧ after.inCons ≠ after.inProd ∧
            ¬after.Outstanding)) = true)) = true →
      ∃ state after, Reach FreshInput (InputStep (.thread 1)) Always state ∧
        state.phase = phase ∧ InputStep (.thread 1) state .read after ∧
        ¬NeverSleepsOnInput (.thread 1) after := by
    intro labels phase run
    obtain ⟨state, reached, here, blocks⟩ := Reach.of_run_ends noInput_fresh run
    obtain ⟨after, move, sleeps⟩ := (Option.any_eq_true _ _).mp blocks
    obtain ⟨stopped, unread, none⟩ := of_decide_eq_true sleeps
    exact ⟨state, after, reached, here, move, fun kept => none (kept stopped unread)⟩
  constructor
  · apply lost [.readbytes 8, .read, .append 104, .raise, .deliver, .wakeUp]
    decide +kernel
  · apply lost [.readbytes 8, .read, .read, .raise, .deliver, .wakeUp, .read, .read, .read,
      .append 104, .raise, .deliver, .wakeUp]
    decide +kernel

end Stardust.Console
