import Stardust.Console.Print
import Stardust.Kernel
import Stardust.Lib.Reach
import Stardust.Lib.Ring

/-! # Console output

The daemon reads the out ring byte by byte and moves `out_cons` when it likes.  The printer
holds the console's lock for a whole call of `console_print`, and each byte it copies is a
step. -/
set_option autoImplicit false
namespace Stardust.Console

open Stardust.Lib

/-- `sizeof(intf->out)` -/
def outSize : Nat := 2048

inductive PrintPhase
  | out
  /-- in `checked_print`, with the calls of it still to come -/
  | checked (data : List UInt8) (chunks : List (List UInt8))
  /-- in the loop of `xencons_ring_send_no_notify` -/
  | sending (cons prod sent : Nat) (data : List UInt8) (chunks : List (List UInt8))
  deriving DecidableEq

structure ConsoleRun where
  initialised : Bool
  dying : Bool
  bugged : Bool
  out : Nat → UInt8
  outCons : Nat
  outProd : Nat
  phase : PrintPhase
  /-- the daemon has read up to here -/
  seen : Nat
  /-- ghost: what was in the ring at the start -/
  begun : List UInt8
  /-- ghosts: the buffers before and after each call -/
  inputs : List (List UInt8)
  left : List (List UInt8)
  /-- ghost: what the daemon has read -/
  read : List UInt8

inductive ConsoleOp
  | print (data : List UInt8)
  /-- the printer's next access -/
  | send
  | daemonRead
  | daemonRelease (n : Nat)
  deriving DecidableEq

def nextChunk : List (List UInt8) → PrintPhase
  | [] => .out
  | data :: chunks => .checked data chunks

def sendStep (state : ConsoleRun) : Option ConsoleRun :=
  match state.phase with
  | .out => none
  | .checked data chunks =>
    if data = [] then some { state with phase := nextChunk chunks }
    else if outSize < uintSub state.outProd state.outCons then some { state with bugged := true }
    else some { state with phase := .sending state.outCons state.outProd 0 data chunks }
  | .sending cons prod sent data chunks =>
    if sent < data.length ∧ uintSub prod cons < outSize then
      some { state with
        out := Function.update state.out (prod % outSize) (data.getD sent 0)
        phase := .sending cons (uintAdd prod 1) (sent + 1) data chunks }
    else some { state with outProd := prod, phase := .checked (data.drop sent) chunks }

def consoleStep (state : ConsoleRun) : ConsoleOp → Option ConsoleRun
  | .print data =>
    if state.phase = .out ∧ data ≠ [] then
      let before : ConsoleRun := { state with inputs := state.inputs ++ [data] }
      if state.dying then some { before with left := state.left ++ [data] }
      else if state.initialised then
        let (chunks, buf) := consolePrint data
        some { before with phase := nextChunk chunks, left := state.left ++ [buf] }
      else none
    else none
  | .send => sendStep state
  | .daemonRead =>
    if state.seen ≠ state.outProd then
      some { state with
        read := state.read ++ [state.out (state.seen % outSize)], seen := uintAdd state.seen 1 }
    else none
  | .daemonRelease n =>
    if n ≤ uintSub state.seen state.outCons then
      some { state with outCons := uintAdd state.outCons n }
    else none

abbrev ConsoleStep (before : ConsoleRun) (op : ConsoleOp) (after : ConsoleRun) : Prop :=
  consoleStep before op = some after

/-- What the daemon has still to read. -/
def ConsoleRun.pending (state : ConsoleRun) : List UInt8 :=
  ringRead state.out outSize state.seen (uintSub state.outProd state.seen)

/-- What the call that runs has still to publish. -/
def ConsoleRun.unsent (state : ConsoleRun) : List UInt8 :=
  match state.phase with
  | .out => []
  | .checked data chunks | .sending _ _ _ data chunks => data ++ chunks.flatten

/-- After `init_console`, with any indices that the ring can have. -/
structure FreshConsole (state : ConsoleRun) : Prop where
  flags : state.initialised = true ∧ state.dying = false ∧ state.bugged = false
  indices : state.outCons < 2 ^ 32 ∧ state.outProd < 2 ^ 32 ∧
    uintSub state.outProd state.outCons ≤ outSize
  phase : state.phase = .out
  seen : state.seen = state.outCons
  begun : state.begun = state.pending
  ghosts : state.inputs = [] ∧ state.left = [] ∧ state.read = []

structure ConsoleExact (state : ConsoleRun) : Prop where
  /-- nothing lost, repeated or overwritten -/
  stream : state.read ++ state.pending ++ state.unsent =
    state.begun ++ state.inputs.flatMap expandNewlines
  /-- when all is printed and read -/
  read : state.phase = .out → state.seen = state.outProd →
    state.read = state.begun ++ state.inputs.flatMap expandNewlines
  buffers : state.left = state.inputs
  bugged : state.bugged = false

section Runs
variable {state after : ConsoleRun} {op : ConsoleOp} {cons seen prod : Nat}

/-- The bytes of the ring that are written but not published. -/
def SendingAt (state : ConsoleRun) (cons prod : Nat) : Prop :=
  match state.phase with
  | .sending snapshot index sent data _ =>
    ∃ old, snapshot = old % 2 ^ 32 ∧ old ≤ cons ∧ index = (prod + sent) % 2 ^ 32 ∧
      prod + sent ≤ old + outSize ∧ sent ≤ data.length ∧
        ringRead state.out outSize prod sent = data.take sent
  | _ => True

/-- `cons`, `seen` and `prod` are the positions in the stream that the indices stand for. -/
structure Flows (state : ConsoleRun) (cons seen prod : Nat) : Prop where
  consIndex : state.outCons = cons % 2 ^ 32
  seenIndex : state.seen = seen % 2 ^ 32
  prodIndex : state.outProd = prod % 2 ^ 32
  order : cons ≤ seen ∧ seen ≤ prod ∧ prod ≤ cons + outSize
  stream : state.read ++ ringRead state.out outSize seen (prod - seen) ++ state.unsent =
    state.begun ++ state.inputs.flatMap expandNewlines
  sending : SendingAt state cons prod
  buffers : state.left = state.inputs
  flags : state.initialised = true ∧ state.dying = false ∧ state.bugged = false

theorem lap_mod (n : Nat) : n % 2 ^ 32 ≡ n [MOD outSize] :=
  Nat.mod_mod_of_dvd n (by decide)

theorem Flows.pending (inv : Flows state cons seen prod) :
    state.pending = ringRead state.out outSize seen (prod - seen) := by
  have order := inv.order
  have near : outSize < 2 ^ 32 := by decide
  rw [ConsoleRun.pending, inv.seenIndex, inv.prodIndex, uintSub_mod (by omega) (by omega)]
  exact ringRead_lap (lap_mod seen)

theorem Flows.correct (inv : Flows state cons seen prod) : ConsoleExact state := by
  have stream := inv.stream
  have order := inv.order
  have near : outSize < 2 ^ 32 := by decide
  refine ⟨?_, fun out all => ?_, inv.buffers, inv.flags.2.2⟩
  · rw [inv.pending]
    exact stream
  · have none : prod - seen = 0 := by
      rw [inv.seenIndex, inv.prodIndex] at all
      omega
    have sent : state.unsent = [] := by
      rw [ConsoleRun.unsent, out]
    rw [none, ringRead_zero, sent, List.append_nil, List.append_nil] at stream
    exact stream

theorem Flows.start (fresh : FreshConsole state) :
    ∃ cons seen prod, Flows state cons seen prod := by
  obtain ⟨flags, ⟨consIndex, prodIndex, used⟩, phase, seen, begun, inputs, left, read⟩ := fresh
  have near : outSize < 2 ^ 32 := by decide
  have index : state.outProd = (state.outCons + uintSub state.outProd state.outCons) % 2 ^ 32 := by
    unfold uintSub
    omega
  refine ⟨state.outCons, state.outCons, state.outCons + uintSub state.outProd state.outCons,
    (Nat.mod_eq_of_lt consIndex).symm, ?_, index, ?_, ?_, ?_, ?_, flags⟩
  · rw [seen, Nat.mod_eq_of_lt consIndex]
  · omega
  · have nothing : state.unsent = [] := by
      rw [ConsoleRun.unsent, phase]
    rw [read, nothing, inputs, begun, ConsoleRun.pending, seen, Nat.add_sub_cancel_left]
    simp
  · unfold SendingAt
    rw [phase]
    trivial
  · rw [left, inputs]

/-! ## One step -/

theorem unsent_nextChunk {chunks : List (List UInt8)} (phase : state.phase = nextChunk chunks) :
    state.unsent = chunks.flatten := by
  rw [ConsoleRun.unsent, phase]
  cases chunks with
  | nil => rfl
  | cons data chunks => rfl

theorem sendingAt_nextChunk {chunks : List (List UInt8)} (phase : state.phase = nextChunk chunks) :
    SendingAt state cons prod := by
  unfold SendingAt
  rw [phase]
  cases chunks with
  | nil => trivial
  | cons data chunks => trivial

theorem Flows.print (inv : Flows state cons seen prod) {data : List UInt8}
    (move : consoleStep state (.print data) = some after) : Flows after cons seen prod := by
  obtain ⟨⟨out, some⟩, move⟩ := Option.ite_none_right_eq_some.mp move
  obtain ⟨initialised, dying, bugged⟩ := inv.flags
  obtain ⟨chunks, buf⟩ := consolePrint_spec some
  simp only [dying, initialised] at move
  cases Option.some.inj move
  have stream := inv.stream
  have idle : state.unsent = [] := by
    rw [ConsoleRun.unsent, out]
  rw [idle, List.append_nil] at stream
  refine ⟨inv.consIndex, inv.seenIndex, inv.prodIndex, inv.order, ?_, sendingAt_nextChunk rfl, ?_,
    ⟨rfl, rfl, bugged⟩⟩
  · rw [unsent_nextChunk rfl, chunks]
    simp only [List.flatMap_append, List.flatMap_singleton]
    rw [← List.append_assoc, ← stream]
  · dsimp only
    rw [inv.buffers, buf]

section Sending
variable {snapshot index sent : Nat} {data : List UInt8} {chunks : List (List UInt8)}

/-- The byte goes behind what the daemon has still to read. -/
theorem Flows.sendByte (inv : Flows state cons seen prod)
    (phase : state.phase = .sending snapshot index sent data chunks) (some : sent < data.length)
    (free : uintSub index snapshot < outSize) :
    Flows { state with
      out := Function.update state.out (index % outSize) (data.getD sent 0)
      phase := .sending snapshot (uintAdd index 1) (sent + 1) data chunks } cons seen prod := by
  have order := inv.order
  have near : outSize < 2 ^ 32 := by decide
  have stream := inv.stream
  have sending := inv.sending
  unfold SendingAt at sending
  unfold ConsoleRun.unsent at stream
  rw [phase] at stream sending
  obtain ⟨old, same, least, here, room, part, copied⟩ := sending
  rw [here, same, uintSub_mod (by omega) (by omega)] at free
  have cell : index % outSize = (prod + sent) % outSize := by
    rw [here]
    exact lap_mod _
  have unread : ringRead (Function.update state.out (index % outSize) (data.getD sent 0)) outSize seen
      (prod - seen) = ringRead state.out outSize seen (prod - seen) := by
    rw [cell]
    exact ringRead_update_behind (by omega) (by omega)
  refine ⟨inv.consIndex, inv.seenIndex, inv.prodIndex, order, ?_,
    ⟨old, same, least, ?_, by omega, by omega, ?_⟩, inv.buffers, inv.flags⟩
  · dsimp only
    rw [unread]
    exact stream
  · rw [here, uintAdd_mod, Nat.add_assoc]
  · dsimp only
    rw [cell, ringRead_push (by omega), copied, List.take_add_one, List.getD_eq_getElem?_getD,
      List.getElem?_eq_getElem some]
    rfl

theorem Flows.publish (inv : Flows state cons seen prod)
    (phase : state.phase = .sending snapshot index sent data chunks) :
    Flows { state with outProd := index, phase := .checked (data.drop sent) chunks } cons seen
      (prod + sent) := by
  have order := inv.order
  have stream := inv.stream
  have sending := inv.sending
  unfold SendingAt at sending
  unfold ConsoleRun.unsent at stream
  rw [phase] at stream sending
  obtain ⟨old, same, least, here, room, part, copied⟩ := sending
  refine ⟨inv.consIndex, inv.seenIndex, here, by omega, ?_, trivial, inv.buffers, inv.flags⟩
  have longer : prod + sent - seen = (prod - seen) + sent := by omega
  have upto : seen + (prod - seen) = prod := by omega
  rw [longer, ringRead_add, upto, copied]
  change _ ++ (data.drop sent ++ chunks.flatten) = _
  have whole : data.take sent ++ (data.drop sent ++ chunks.flatten) = data ++ chunks.flatten := by
    rw [← List.append_assoc, List.take_append_drop]
  rw [← stream]
  simp only [List.append_assoc]
  rw [whole]

end Sending

theorem Flows.send (inv : Flows state cons seen prod) (move : sendStep state = some after) :
    ∃ prod, Flows after cons seen prod := by
  have order := inv.order
  have near : outSize < 2 ^ 32 := by decide
  have stream := inv.stream
  unfold ConsoleRun.unsent at stream
  unfold sendStep at move
  cases phase : state.phase with
  | out =>
    rw [phase] at move
    cases move
  | checked data chunks =>
    rw [phase] at move stream
    simp only at move
    split at move
    · rename_i empty
      cases Option.some.inj move
      refine ⟨prod, inv.consIndex, inv.seenIndex, inv.prodIndex, order, ?_, sendingAt_nextChunk rfl, inv.buffers,
        inv.flags⟩
      rw [unsent_nextChunk rfl]
      simpa [empty] using stream
    · split at move
      · rename_i beyond
        rw [inv.prodIndex, inv.consIndex, uintSub_mod (by omega) (by omega)] at beyond
        omega
      · cases Option.some.inj move
        refine ⟨prod, inv.consIndex, inv.seenIndex, inv.prodIndex, order, stream,
          ⟨cons, inv.consIndex, Nat.le_refl _, inv.prodIndex, order.2.2, Nat.zero_le _, rfl⟩, inv.buffers,
          inv.flags⟩
  | sending snapshot index sent data chunks =>
    rw [phase] at move
    simp only at move
    split at move
    · rename_i more
      cases Option.some.inj move
      exact ⟨prod, inv.sendByte phase more.1 more.2⟩
    · cases Option.some.inj move
      exact ⟨prod + sent, inv.publish phase⟩

theorem Flows.daemonRead (inv : Flows state cons seen prod) (more : state.seen ≠ state.outProd) :
    Flows { state with
      read := state.read ++ [state.out (state.seen % outSize)], seen := uintAdd state.seen 1 }
      cons (seen + 1) prod := by
  have order := inv.order
  have stream := inv.stream
  have unread : seen ≠ prod := by
    rintro rfl
    exact more (inv.seenIndex.trans inv.prodIndex.symm)
  refine ⟨inv.consIndex, ?_, inv.prodIndex, by omega, ?_, inv.sending, inv.buffers, inv.flags⟩
  · dsimp only
    rw [inv.seenIndex, uintAdd_mod]
  · have one : prod - seen = prod - (seen + 1) + 1 := by omega
    have cell : state.seen % outSize = seen % outSize := by
      rw [inv.seenIndex]
      exact lap_mod _
    rw [one, ringRead_succ] at stream
    dsimp only
    rw [cell, ← stream]
    simp [ConsoleRun.unsent]

theorem Flows.daemonRelease (inv : Flows state cons seen prod) {n : Nat}
    (within : n ≤ uintSub state.seen state.outCons) :
    Flows { state with outCons := uintAdd state.outCons n } (cons + n) seen prod := by
  have order := inv.order
  have near : outSize < 2 ^ 32 := by decide
  rw [inv.seenIndex, inv.consIndex, uintSub_mod (by omega) (by omega)] at within
  refine ⟨?_, inv.seenIndex, inv.prodIndex, by omega, inv.stream, ?_, inv.buffers, inv.flags⟩
  · dsimp only
    rw [inv.consIndex, uintAdd_mod]
  · have sending := inv.sending
    unfold SendingAt at sending ⊢
    dsimp only
    cases phase : state.phase with
    | sending snapshot index sent data chunks =>
      rw [phase] at sending
      obtain ⟨old, same, least, rest⟩ := sending
      exact ⟨old, same, by omega, rest⟩
    | _ => trivial

theorem Flows.step (inv : Flows state cons seen prod) (move : consoleStep state op = some after) :
    ∃ cons seen prod, Flows after cons seen prod := by
  cases op with
  | print data => exact ⟨cons, seen, prod, inv.print move⟩
  | send =>
    obtain ⟨prod, next⟩ := inv.send move
    exact ⟨cons, seen, prod, next⟩
  | daemonRead =>
    obtain ⟨more, move⟩ := Option.ite_none_right_eq_some.mp move
    cases Option.some.inj move
    exact ⟨cons, seen + 1, prod, inv.daemonRead more⟩
  | daemonRelease n =>
    obtain ⟨within, move⟩ := Option.ite_none_right_eq_some.mp move
    cases Option.some.inj move
    exact ⟨cons + n, seen, prod, inv.daemonRelease within⟩

/-- In every run the daemon reads the expanded texts, and the buffers stay as they are. -/
theorem console_output_exact (reached : Reach FreshConsole ConsoleStep Always state) :
    ConsoleExact state := by
  have inv : ∃ cons seen prod, Flows state cons seen prod := by
    apply Reach.invariant (fun state => ∃ cons seen prod, Flows state cons seen prod) _ _ reached
    · exact fun _ fresh => Flows.start fresh
    · intro before op after inv _ move
      obtain ⟨cons, seen, prod, inv⟩ := inv
      exact inv.step move
  obtain ⟨cons, seen, prod, inv⟩ := inv
  exact inv.correct

end Runs

/-! ## A run -/

/-- The indices are about to wrap. -/
def newConsole : ConsoleRun :=
  { initialised := true
    dying := false
    bugged := false
    out := fun _ => 0
    outCons := 2 ^ 32 - 1
    outProd := 2 ^ 32 - 1
    phase := .out
    seen := 2 ^ 32 - 1
    begun := []
    inputs := []
    left := []
    read := [] }

theorem newConsole_fresh : FreshConsole newConsole := by
  refine ⟨⟨rfl, rfl, rfl⟩, ⟨by decide, by decide, by decide⟩, rfl, rfl, rfl, rfl, rfl, rfl⟩

/-- Two lines, the second empty. -/
theorem console_output_exact_lines :
    ∃ state, Reach FreshConsole ConsoleStep Always state ∧ ConsoleExact state ∧
      state.read = [104, 13, 10, 13, 10] := by
  have run : (runLabels consoleStep Always
      ([.print [104, 10, 10]] ++ List.replicate 12 .send ++ List.replicate 3 .daemonRead ++
        [.daemonRelease 2] ++ List.replicate 2 .daemonRead) newConsole).any (fun state =>
      decide (state.read = [104, 13, 10, 13, 10])) = true := by
    decide +kernel
  obtain ⟨state, reached, read⟩ := Reach.of_run_ends newConsole_fresh run
  exact ⟨state, reached, console_output_exact reached, read⟩

end Stardust.Console
