import Stardust.Console.Rings

/-! # The console before `init_console`

The daemon is not notified and takes nothing from the out ring, so `checked_print` turns
for ever once the ring is full.  What stands before it looks at the in ring. -/
set_option autoImplicit false
namespace Stardust.Console

open Stardust.Lib

structure EarlyConsole where
  dying : Bool
  out : Nat → UInt8
  outCons : Nat
  outProd : Nat
  inCons : Nat
  inProd : Nat

/-- How a call of `console_print` ends. -/
inductive EarlyEnd
  | printed (console : EarlyConsole)
  /-- the text `init_overflow` has gone out, and `BUG` is next -/
  | initOverflow

/-- `strlen(init_overflow)` -/
def initOverflowLength : Nat := 15

def xenconsRingAvail (console : EarlyConsole) : Except Halt Int :=
  if inSize < uintSub console.inProd console.inCons then .error .bug
  else .ok (uintSub console.inProd console.inCons : Nat)

/-- The loop of `xencons_ring_send_no_notify` over the bytes that are left. -/
def sendLoop (cons : Nat) : List UInt8 → (Nat → UInt8) → Nat → Nat → (Nat → UInt8) × Nat × Nat
  | [], out, prod, sent => (out, prod, sent)
  | byte :: rest, out, prod, sent =>
    if uintSub prod cons < outSize then
      sendLoop cons rest (Function.update out (prod % outSize) byte) (uintAdd prod 1) (sent + 1)
    else (out, prod, sent)

def xenconsRingSendNoNotify (console : EarlyConsole) (data : List UInt8) : Except Halt (EarlyConsole × Nat) :=
  if outSize < uintSub console.outProd console.outCons then .error .bug
  else
    let (out, prod, sent) := sendLoop console.outCons data console.out console.outProd 0
    .ok ({ console with out := out, outProd := prod }, sent)

/-- `checked_print`, for so many turns at most. -/
def checkedPrint : Nat → EarlyConsole → List UInt8 → Except Halt EarlyConsole
  | 0, _, _ => .error .fuel
  | turns + 1, console, data =>
    if data = [] then .ok console
    else do
      let (console, printed) ← xenconsRingSendNoNotify console data
      checkedPrint turns console (data.drop printed)

/-- The calls of `checked_print` in turn. -/
def printChunks (turns : Nat) : List (List UInt8) → EarlyConsole → Except Halt EarlyConsole
  | [], console => .ok console
  | chunk :: rest, console => do
    let console ← checkedPrint turns console chunk
    printChunks turns rest console

/-- `console_print` while `console_initialised` is 0; the guard compares as `unsigned long`. -/
def earlyPrint (turns : Nat) (console : EarlyConsole) (data : List UInt8) : Except Halt EarlyEnd :=
  if console.dying then .ok (.printed console)
  else do
    let avail ← xenconsRingAvail console
    if ulongOfInt (intSub avail data.length) < initOverflowLength then .ok .initOverflow
    else do
      let console ← printChunks turns (consolePrint data).1 console
      .ok (.printed console)

section Send
variable {cons prod sent : Nat} {out : Nat → UInt8} {data content : List UInt8} {console : EarlyConsole}

theorem sendLoop_queue (queue : Queue out outSize cons prod content) :
    ∃ out' prod', sendLoop cons data out prod sent =
        (out', prod', sent + min data.length (outSize - content.length)) ∧
      Queue out' outSize cons prod' (content ++ data.take (outSize - content.length)) := by
  induction data generalizing out prod sent content with
  | nil => exact ⟨out, prod, by simp [sendLoop], by simpa using queue⟩
  | cons byte rest ih =>
    rw [sendLoop, queue.used (by decide)]
    by_cases room : content.length < outSize
    · rw [if_pos room]
      obtain ⟨out', prod', loop, after⟩ :
        ∃ out' prod', sendLoop cons rest _ _ (sent + 1) = (out', prod', _) ∧ _ :=
          ih (queue.push out_laps room byte)
      have free : outSize - content.length = outSize - (content ++ [byte]).length + 1 := by
        rw [List.length_append, List.length_singleton]
        omega
      refine ⟨out', prod', ?_, ?_⟩
      · refine loop.trans ?_
        rw [free, List.length_cons, Nat.succ_min_succ]
        congr 2
        omega
      · rw [free, List.take_succ_cons, List.append_cons]
        exact after
    · rw [if_neg room]
      have none : outSize - content.length = 0 := by omega
      refine ⟨out, prod, ?_, ?_⟩
      · rw [none, Nat.min_zero, Nat.add_zero]
      · rw [none, List.take_zero, List.append_nil]
        exact queue

/-- What the console holds for the daemon. -/
abbrev Holds (console : EarlyConsole) (content : List UInt8) : Prop :=
  Queue console.out outSize console.outCons console.outProd content

theorem send_queue (holds : Holds console content) (data : List UInt8) :
    ∃ after, xenconsRingSendNoNotify console data =
        .ok (after, min data.length (outSize - content.length)) ∧
      Holds after (content ++ data.take (outSize - content.length)) := by
  have fits := holds.fits
  obtain ⟨out', prod', loop, after⟩ :
    ∃ out' prod', sendLoop console.outCons data console.out console.outProd 0 = (out', prod', _) ∧ _ :=
      sendLoop_queue holds
  rw [Nat.zero_add] at loop
  unfold xenconsRingSendNoNotify
  rw [if_neg (by rw [holds.used (by decide)]; omega), loop]
  exact ⟨_, rfl, after⟩

/-- A text that fits is queued whole, when there are two turns for it. -/
theorem checkedPrint_fits (holds : Holds console content) (room : content.length + data.length ≤ outSize)
    (turns : Nat) : (turns < 2 ∧ checkedPrint turns console data = .error .fuel) ∨
      ∃ after, checkedPrint turns console data = .ok after ∧ Holds after (content ++ data) := by
  cases turns with
  | zero => exact Or.inl ⟨by decide, rfl⟩
  | succ turns =>
    rw [checkedPrint]
    split
    · rename_i empty
      exact Or.inr ⟨console, rfl, by rw [empty, List.append_nil]; exact holds⟩
    · obtain ⟨after, sent, queued⟩ := send_queue holds data
      rw [Nat.min_eq_left (by omega)] at sent
      rw [List.take_of_length_le (by omega)] at queued
      rw [sent, Halt.ok_bind]
      dsimp only
      rw [List.drop_length]
      cases turns with
      | zero => exact Or.inl ⟨by decide, rfl⟩
      | succ turns => exact Or.inr ⟨after, rfl, queued⟩

/-- One that does not fit leaves `checked_print` in its loop. -/
theorem checkedPrint_spins (holds : Holds console content) (long : outSize < content.length + data.length)
    (turns : Nat) : checkedPrint turns console data = .error .fuel := by
  induction turns generalizing console content data with
  | zero => rfl
  | succ turns ih =>
    have fits := holds.fits
    have some : data ≠ [] := by
      rintro rfl
      rw [List.length_nil] at long
      omega
    obtain ⟨after, sent, queued⟩ := send_queue holds data
    rw [checkedPrint, if_neg some, sent, Halt.ok_bind]
    apply ih queued
    rw [List.length_append, List.length_take, List.length_drop]
    omega

theorem printChunks_fits {chunks : List (List UInt8)} (holds : Holds console content)
    (room : content.length + chunks.flatten.length ≤ outSize) :
    ∃ after, printChunks 2 chunks console = .ok after ∧ Holds after (content ++ chunks.flatten) := by
  induction chunks generalizing console content with
  | nil => exact ⟨console, rfl, by simpa using holds⟩
  | cons chunk rest ih =>
    rw [List.flatten_cons, List.length_append] at room
    rcases checkedPrint_fits holds (by omega : content.length + chunk.length ≤ outSize) 2 with
      ⟨short, _⟩ | ⟨middle, first, queued⟩
    · exact absurd short (Nat.lt_irrefl 2)
    · obtain ⟨after, last, done⟩ := ih queued (by rw [List.length_append]; omega)
      refine ⟨after, ?_, ?_⟩
      · rw [printChunks, first]
        exact last
      · rw [List.flatten_cons, ← List.append_assoc]
        exact done

theorem printChunks_spins {chunks : List (List UInt8)} (holds : Holds console content)
    (long : outSize < content.length + chunks.flatten.length) (turns : Nat) :
    printChunks turns chunks console = .error .fuel := by
  induction chunks generalizing console content with
  | nil =>
    have fits := holds.fits
    rw [List.flatten_nil, List.length_nil] at long
    omega
  | cons chunk rest ih =>
    rw [printChunks]
    by_cases here : outSize < content.length + chunk.length
    · rw [checkedPrint_spins holds here]
      rfl
    · rcases checkedPrint_fits holds (Nat.le_of_not_lt here) turns with ⟨_, spent⟩ | ⟨middle, first, queued⟩
      · rw [spent]
        rfl
      · rw [first]
        apply ih queued
        rw [List.flatten_cons, List.length_append] at long
        rw [List.length_append]
        omega

/-- With indices that no ring can have, the first byte is a `BUG`. -/
theorem printChunks_beyond {chunks : List (List UInt8)} {after : EarlyConsole} {turns : Nat}
    (beyond : outSize < uintSub console.outProd console.outCons) (some : chunks.flatten ≠ []) :
    printChunks turns chunks console ≠ .ok after := by
  induction chunks with
  | nil => exact absurd rfl some
  | cons chunk rest ih =>
    intro ran
    obtain ⟨middle, first, ran⟩ := except_bind_ok.mp ran
    cases turns with
    | zero => cases first
    | succ turns =>
      rw [checkedPrint] at first
      split at first
      · rename_i empty
        cases first
        rw [empty] at some
        exact ih some ran
      · rw [xenconsRingSendNoNotify, if_pos beyond] at first
        cases first

end Send

/-! ## `console_print` -/

/-- The out ring as the daemon will find it. -/
def EarlyConsole.queued (console : EarlyConsole) : List UInt8 :=
  ringRead console.out outSize console.outCons (uintSub console.outProd console.outCons)

/-- All of the text is in the out ring, or the exit was taken before any of it. -/
def EndsEarly (console : EarlyConsole) (data : List UInt8) : Prop :=
  ∃ turns, earlyPrint turns console data = .ok .initOverflow ∨
    ∃ after, earlyPrint turns console data = .ok (.printed after) ∧
      after.queued = console.queued ++ expandNewlines data

/-- `xencons_ring_avail() - length` is from 0 to 14. -/
def Overflows (console : EarlyConsole) (data : List UInt8) : Prop :=
  data.length ≤ uintSub console.inProd console.inCons ∧
    uintSub console.inProd console.inCons < data.length + initOverflowLength

/-- The expanded text fits in what is free of the out ring. -/
def FitsOut (console : EarlyConsole) (data : List UInt8) : Prop :=
  uintSub console.outProd console.outCons + (expandNewlines data).length ≤ outSize

section Print
variable {console : EarlyConsole} {data : List UInt8}

theorem expandNewlines_ne_nil (some : data ≠ []) : expandNewlines data ≠ [] := by
  cases data with
  | nil => exact absurd rfl some
  | cons c rest =>
    unfold expandNewlines
    rw [List.flatMap_cons]
    split
    · exact List.cons_ne_nil _ _
    · exact List.cons_ne_nil _ _

theorem guard_iff (within : uintSub console.inProd console.inCons ≤ inSize) (int : data.length < 2 ^ 31) :
    ulongOfInt (intSub (uintSub console.inProd console.inCons : Nat) data.length) < initOverflowLength ↔
      Overflows console data := by
  have small : inSize = 1024 := rfl
  rw [intSub_eq (by omega) (by omega)]
  unfold ulongOfInt Overflows initOverflowLength
  omega

theorem earlyPrint_exit (alive : console.dying = false) (within : uintSub console.inProd console.inCons ≤ inSize)
    (int : data.length < 2 ^ 31) (overflows : Overflows console data) (turns : Nat) :
    earlyPrint turns console data = .ok .initOverflow := by
  unfold earlyPrint xenconsRingAvail
  rw [alive, if_neg (by decide), if_neg (Nat.not_lt_of_le within), Halt.ok_bind,
    if_pos ((guard_iff within int).mpr overflows)]

theorem earlyPrint_chunks (alive : console.dying = false)
    (within : uintSub console.inProd console.inCons ≤ inSize) (int : data.length < 2 ^ 31)
    (passes : ¬Overflows console data) (turns : Nat) : earlyPrint turns console data =
      printChunks turns (consolePrint data).1 console >>= fun after => .ok (.printed after) := by
  unfold earlyPrint xenconsRingAvail
  rw [alive, if_neg (by decide), if_neg (Nat.not_lt_of_le within), Halt.ok_bind,
    if_neg fun overflows => passes ((guard_iff within int).mp overflows)]

/-- Past the guard, a text that does not fit is never printed. -/
theorem earlyPrint_spins (alive : console.dying = false)
    (indices : console.outCons < 2 ^ 32 ∧ console.outProd < 2 ^ 32) (some : data ≠ []) (int : data.length < 2 ^ 31)
    (within : uintSub console.inProd console.inCons ≤ inSize)
    (used : uintSub console.outProd console.outCons ≤ outSize) (passes : ¬Overflows console data)
    (long : ¬FitsOut console data) (turns : Nat) : earlyPrint turns console data = .error .fuel := by
  have holds : Holds console console.queued := Queue.of_indices indices.1 indices.2 used
  have length : console.queued.length = uintSub console.outProd console.outCons := ringRead_length
  rw [earlyPrint_chunks alive within int passes, printChunks_spins holds]
  · rfl
  · rw [length, (consolePrint_spec some).1]
    exact Nat.lt_of_not_le long

/-- A call ends as it should exactly when the in ring is such that the guard fires, or the text fits. -/
theorem early_print_ends_iff (alive : console.dying = false)
    (indices : console.outCons < 2 ^ 32 ∧ console.outProd < 2 ^ 32) (some : data ≠ [])
    (int : data.length < 2 ^ 31) : EndsEarly console data ↔
      uintSub console.inProd console.inCons ≤ inSize ∧ (Overflows console data ∨ FitsOut console data) := by
  by_cases within : uintSub console.inProd console.inCons ≤ inSize
  · by_cases overflows : Overflows console data
    · exact ⟨fun _ => ⟨within, Or.inl overflows⟩, fun _ => ⟨0, Or.inl (earlyPrint_exit alive within int overflows 0)⟩⟩
    · have passed := earlyPrint_chunks alive within int overflows
      constructor
      · rintro ⟨turns, exit | ⟨after, printed, queued⟩⟩
        · rw [passed] at exit
          obtain ⟨_, _, exit⟩ := except_bind_ok.mp exit
          cases exit
        · refine ⟨within, Or.inr ?_⟩
          by_contra long
          by_cases used : uintSub console.outProd console.outCons ≤ outSize
          · rw [earlyPrint_spins alive indices some int within used overflows long] at printed
            cases printed
          · rw [passed] at printed
            obtain ⟨middle, chunks, _⟩ := except_bind_ok.mp printed
            have text : (consolePrint data).1.flatten ≠ [] := by
              rw [(consolePrint_spec some).1]
              exact expandNewlines_ne_nil some
            exact printChunks_beyond (Nat.lt_of_not_le used) text chunks
      · rintro ⟨_, other | fits⟩
        · exact absurd other overflows
        · unfold FitsOut at fits
          have holds : Holds console console.queued := Queue.of_indices indices.1 indices.2 (by omega)
          have length : console.queued.length = uintSub console.outProd console.outCons := ringRead_length
          have room : console.queued.length + (consolePrint data).1.flatten.length ≤ outSize := by
            rw [length, (consolePrint_spec some).1]
            exact fits
          obtain ⟨after, printed, queued⟩ := printChunks_fits holds room
          rw [(consolePrint_spec some).1] at queued
          refine ⟨2, Or.inr ⟨after, ?_, ?_⟩⟩
          · rw [passed, printed]
            rfl
          · rw [EarlyConsole.queued, queued.used (by decide), queued.read]
  · constructor
    · rintro ⟨turns, exit | ⟨after, printed, _⟩⟩
      · unfold earlyPrint xenconsRingAvail at exit
        rw [alive, if_neg (by decide), if_pos (Nat.lt_of_not_le within)] at exit
        cases exit
      · unfold earlyPrint xenconsRingAvail at printed
        rw [alive, if_neg (by decide), if_pos (Nat.lt_of_not_le within)] at printed
        cases printed
    · rintro ⟨inside, _⟩
      exact absurd inside within

end Print

/-- Nothing in either ring. -/
def newEarly : EarlyConsole := ⟨false, fun _ => 0, 0, 0, 0, 0⟩

/-- A line into an empty ring. -/
theorem early_print_ends_iff_line : EndsEarly newEarly [104, 10] :=
  (early_print_ends_iff rfl ⟨by decide, by decide⟩ (by decide) (by decide)).mpr
    ⟨by decide, Or.inr (by unfold FitsOut; decide)⟩

/-- One byte, with the out ring full and the in ring empty. -/
theorem full_ring_spins :
    ∃ console, console.dying = false ∧ (∀ turns, earlyPrint turns console [65] = .error .fuel) ∧
      ¬EndsEarly console [65] := by
  have spins : ∀ turns, earlyPrint turns { newEarly with outProd := 2048 } [65] = .error .fuel := by
    apply earlyPrint_spins rfl ⟨by decide, by decide⟩ (by decide) (by decide) (by decide) (by decide)
    · unfold Overflows
      decide
    · unfold FitsOut
      decide
  refine ⟨{ newEarly with outProd := 2048 }, rfl, spins, ?_⟩
  rintro ⟨turns, exit | ⟨after, printed, _⟩⟩
  · rw [spins] at exit
    cases exit
  · rw [spins] at printed
    cases printed

end Stardust.Console
