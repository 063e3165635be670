import Mathlib.Data.BitVec
import Stardust.Xenbus.Ring
import Stardust.Xenbus.Watches

/-! # Reading the response ring

`xenbus_thread_func` looks at a header, waits until the whole message is there,
copies it out and moves `rsp_cons` past it.  Between these steps the daemon may
put more bytes in.  `sent` is what the daemon writes, message after message; how
many of its bytes are in the ring already is `produced`. -/
set_option autoImplicit false
namespace Stardust.Xenbus

open Stardust.Lib

/-! ## The code -/

abbrev xsWatchEvent : BitVec 32 := 15

def parseWord (bytes : List UInt8) (off : Nat) : BitVec 32 :=
  (bytes.getD (off + 3) 0).toBitVec ++ (bytes.getD (off + 2) 0).toBitVec ++
    (bytes.getD (off + 1) 0).toBitVec ++ (bytes.getD off 0).toBitVec

/-- The header of a message and its `len`. -/
def parseHeader (bytes : List UInt8) : SockMsg × Nat :=
  (⟨parseWord bytes 0, parseWord bytes 4, parseWord bytes 8⟩, (parseWord bytes 12).toNat)

structure Reader where
  buf : XenstoreBuf
  watches : List Watch
  /-- `in_use` and `reply` of `req_info` -/
  inUse : Nat → Bool
  reply : Nat → Option (List UInt8)

/-- `rsp_prod - rsp_cons` -/
def Reader.available (reader : Reader) : Nat := used reader.buf.rspProd reader.buf.rspCons

/-- `memcpy_from_ring` at the consumer index. -/
def Reader.copyOut (reader : Reader) (len : Nat) : List UInt8 :=
  memcpyFromRing reader.buf.rsp (mask reader.buf.rspCons) len

def Reader.peek (reader : Reader) : SockMsg × Nat := parseHeader (reader.copyOut headerSize)

/-- The path in a watch event, and the token behind its NUL. -/
def eventPath (bytes : List UInt8) : CString := cString (bytes.drop headerSize)

def eventToken (bytes : List UInt8) : CString :=
  cString (bytes.drop (headerSize + (eventPath bytes).length + 1))

/-- A watch event goes to its watch, an answer to the slot of its request. -/
def Reader.dispatch (reader : Reader) (msg : SockMsg) (bytes : List UInt8) : Except Halt Reader :=
  if msg.type = xsWatchEvent then do
    let watches ← watchEvent reader.watches (eventPath bytes) (eventToken bytes)
    .ok { reader with watches := watches }
  else if nrReqs ≤ msg.reqId.toNat then .error .fault
  else if reader.inUse msg.reqId.toNat = false then .error .bug
  else .ok { reader with reply := Function.update reader.reply msg.reqId.toNat (some bytes) }

def Reader.takeMessage (reader : Reader) (msg : SockMsg) (len : Nat) : Except Halt Reader := do
  let reader ← reader.dispatch msg (reader.copyOut (headerSize + len))
  .ok { reader with buf.rspCons := uintAdd reader.buf.rspCons (headerSize + len) }

/-- One pass of the inner loop; `none` when the loop is left. -/
def Reader.pass (reader : Reader) : Except Halt (Option Reader) :=
  if reader.available < headerSize then .ok none
  else
    let (msg, len) := reader.peek
    if reader.available < headerSize + len then .ok none
    else (reader.takeMessage msg len).map some

/-! ## Messages -/

/-- A message of the daemon. -/
structure Message where
  msg : SockMsg
  payload : List UInt8
  short : payload.length < 2 ^ 32

def Message.bytes (message : Message) : List UInt8 :=
  headerBytes message.msg message.payload.length ++ message.payload

theorem word_join (word : BitVec 32) :
    word.extractLsb' 24 8 ++ word.extractLsb' 16 8 ++ word.extractLsb' 8 8 ++ word.extractLsb' 0 8 =
      word := by
  apply BitVec.eq_of_getLsbD_eq
  intro i within
  simp only [BitVec.getLsbD_append, BitVec.getLsbD_extractLsb']
  by_cases first : i < 8
  · simp [first]
  by_cases second : i < 16
  · have low : i - 8 < 8 := by omega
    simp [first, low]
    congr 1
    omega
  have notSecond : ¬i - 8 < 8 := by omega
  by_cases third : i < 24
  · have low : i - 8 - 8 < 8 := by omega
    simp [first, notSecond, low]
    congr 1
    omega
  · have notThird : ¬i - 8 - 8 < 8 := by omega
    have low : i - 8 - 8 - 8 < 8 := by omega
    simp [first, notSecond, notThird, low]
    congr 1
    omega

theorem parseHeader_headerBytes (msg : SockMsg) {len : Nat} (short : len < 2 ^ 32)
    (rest : List UInt8) : parseHeader (headerBytes msg len ++ rest) = (msg, len) := by
  have type : parseWord (headerBytes msg len ++ rest) 0 = msg.type := word_join msg.type
  have reqId : parseWord (headerBytes msg len ++ rest) 4 = msg.reqId := word_join msg.reqId
  have txId : parseWord (headerBytes msg len ++ rest) 8 = msg.txId := word_join msg.txId
  have length : parseWord (headerBytes msg len ++ rest) 12 = .ofNat 32 len := word_join (.ofNat 32 len)
  rw [parseHeader, type, reqId, txId, length, BitVec.toNat_ofNat, Nat.mod_eq_of_lt short]

theorem Message.bytes_length (message : Message) :
    message.bytes.length = headerSize + message.payload.length := by
  rw [Message.bytes, List.length_append, headerBytes_length]

theorem Message.parse (message : Message) :
    parseHeader (message.bytes.take headerSize) = (message.msg, message.payload.length) := by
  have header : message.bytes.take headerSize =
      headerBytes message.msg message.payload.length ++ [] := by
    rw [Message.bytes, List.append_nil]
    exact List.take_left' (headerBytes_length ..)
  rw [header]
  exact parseHeader_headerBytes _ message.short []

/-! ## Runs -/

/-- Where the thread is in its pass. -/
inductive ReaderPc
  | outside
  /-- there are enough bytes for a header -/
  | header
  | peeked (msg : SockMsg) (len : Nat)
  /-- there are enough bytes for the message -/
  | whole (msg : SockMsg) (len : Nat)
  deriving DecidableEq

structure ReaderRun where
  reader : Reader
  pc : ReaderPc
  produced : Nat
  /-- the bytes of the messages dispatched, in order -/
  dispatched : List (List UInt8)

inductive ReaderOp
  /-- the daemon makes `n` more bytes visible -/
  | produce (n : Nat)
  | check
  | peek
  | recheck
  | take
  /-- other threads register watches, read them and take and release request ids -/
  | callers (watches : List Watch) (inUse : Nat → Bool)

/-- The bytes that the daemon writes. -/
def stream (sent : List Message) : List UInt8 := (sent.map Message.bytes).flatten

def readerStep (sent : List Message) (state : ReaderRun) : ReaderOp → Option ReaderRun
  | .produce n =>
    if state.produced + n ≤ (stream sent).length ∧ state.reader.available + n ≤ ringSize then
      some { state with
        reader.buf.rsp := ringWrite state.reader.buf.rsp ringSize state.reader.buf.rspProd
          (((stream sent).drop state.produced).take n)
        reader.buf.rspProd := uintAdd state.reader.buf.rspProd n
        produced := state.produced + n }
    else none
  | .check =>
    if state.pc = .outside then
      if state.reader.available < headerSize then some state else some { state with pc := .header }
    else none
  | .peek =>
    if state.pc = .header then
      some { state with pc := .peeked state.reader.peek.1 state.reader.peek.2 }
    else none
  | .recheck =>
    match state.pc with
    | .peeked msg len =>
      if state.reader.available < headerSize + len then some { state with pc := .outside }
      else some { state with pc := .whole msg len }
    | _ => none
  | .take =>
    match state.pc with
    | .whole msg len =>
      (state.reader.takeMessage msg len).toOption.map fun reader =>
        { state with
          reader := reader, pc := .outside
          dispatched := state.dispatched ++ [state.reader.copyOut (headerSize + len)] }
    | _ => none
  | .callers watches inUse =>
    some { state with reader.watches := watches, reader.inUse := inUse }

abbrev ReaderStep (sent : List Message) (before : ReaderRun) (op : ReaderOp) (after : ReaderRun) :
    Prop := readerStep sent before op = some after

/-- An empty ring, its indices at `start`. -/
structure FreshReader (start : Nat) (state : ReaderRun) : Prop where
  index : start < 2 ^ 32
  consumer : state.reader.buf.rspCons = start
  empty : state.reader.buf.rspProd = state.reader.buf.rspCons
  pc : state.pc = .outside
  produced : state.produced = 0
  dispatched : state.dispatched = []
  reply : ∀ id, state.reader.reply id = none

/-- An answer to the request, not a watch event. -/
def answersTo (id : Nat) (bytes : List UInt8) : Bool :=
  (parseHeader (bytes.take headerSize)).1.type ≠ xsWatchEvent ∧
    (parseHeader (bytes.take headerSize)).1.reqId.toNat = id

/-- What the thread knows of the message that it looks at. -/
def ReaderPc.Knows (pc : ReaderPc) (rest : List UInt8) (available : Nat) : Prop :=
  match pc with
  | .outside => True
  | .header => headerSize ≤ available
  | .peeked msg len => headerSize ≤ available ∧ parseHeader (rest.take headerSize) = (msg, len)
  | .whole msg len => headerSize + len ≤ available ∧ parseHeader (rest.take headerSize) = (msg, len)

/-- Whole messages have been dispatched; what is in the ring comes next in the stream. -/
structure Framed (sent : List Message) (start : Nat) (state : ReaderRun) : Prop where
  messages : state.dispatched <+: sent.map Message.bytes
  consumer : state.reader.buf.rspCons = (start + state.dispatched.flatten.length) % 2 ^ 32
  producer : state.reader.buf.rspProd = (start + state.produced) % 2 ^ 32
  order : state.dispatched.flatten.length ≤ state.produced
  most : state.produced ≤ state.dispatched.flatten.length + ringSize
  bound : state.produced ≤ (stream sent).length
  ring : ringRead state.reader.buf.rsp ringSize (start + state.dispatched.flatten.length)
      (state.produced - state.dispatched.flatten.length) =
    ((stream sent).drop state.dispatched.flatten.length).take
      (state.produced - state.dispatched.flatten.length)
  knows : state.pc.Knows ((stream sent).drop state.dispatched.flatten.length)
    (state.produced - state.dispatched.flatten.length)
  replies : ∀ id, state.reader.reply id = (state.dispatched.filter (answersTo id)).getLast?

section Framing
variable {sent : List Message} {start : Nat} {state after : ReaderRun} {op : ReaderOp}

theorem Framed.available (framed : Framed sent start state) :
    state.reader.available = state.produced - state.dispatched.flatten.length := by
  have order := framed.order
  have most := framed.most
  have position : start + state.produced = start + state.dispatched.flatten.length +
      (state.produced - state.dispatched.flatten.length) := by omega
  rw [Reader.available, framed.producer, position]
  exact used_of_position framed.consumer (by omega)

/-- What is copied out of the ring comes next in the stream. -/
theorem Framed.copyOut (framed : Framed sent start state) {len : Nat}
    (there : len ≤ state.produced - state.dispatched.flatten.length) :
    state.reader.copyOut len = ((stream sent).drop state.dispatched.flatten.length).take len := by
  have most := framed.most
  have lap : state.reader.buf.rspCons ≡ start + state.dispatched.flatten.length [MOD ringSize] := by
    rw [framed.consumer]
    exact mod_lap _
  have window := congrArg (List.take len) framed.ring
  rw [ringRead_take there, List.take_take, Nat.min_eq_left there] at window
  rw [Reader.copyOut, memcpyFromRing_eq _ (by omega), ringRead_lap lap, window]

/-- The stream goes on with a whole message. -/
theorem Framed.next (framed : Framed sent start state)
    (more : 0 < state.produced - state.dispatched.flatten.length) :
    ∃ (message : Message) (rest : List (List UInt8)),
      sent.map Message.bytes = state.dispatched ++ message.bytes :: rest ∧
      (stream sent).drop state.dispatched.flatten.length = message.bytes ++ rest.flatten := by
  obtain ⟨rest, split⟩ := framed.messages
  have whole : stream sent = state.dispatched.flatten ++ rest.flatten := by
    rw [stream, ← split, List.flatten_append]
  have bound := framed.bound
  rw [whole, List.length_append] at bound
  cases rest with
  | nil =>
    rw [List.flatten_nil, List.length_nil] at bound
    omega
  | cons bytes rest =>
    have member : bytes ∈ sent.map Message.bytes := by simp [← split]
    obtain ⟨message, _, rfl⟩ := List.mem_map.mp member
    exact ⟨message, rest, split.symm, by rw [whole, List.drop_left, List.flatten_cons]⟩

theorem Message.parse_append (message : Message) (rest : List UInt8) :
    parseHeader ((message.bytes ++ rest).take headerSize) = (message.msg, message.payload.length) := by
  have long : headerSize ≤ message.bytes.length := by
    rw [message.bytes_length]
    omega
  rw [List.take_append_of_le_length long, message.parse]

/-! ## One step -/

theorem Framed.produce (framed : Framed sent start state) {n : Nat}
    (bound : state.produced + n ≤ (stream sent).length)
    (room : state.reader.available + n ≤ ringSize) :
    Framed sent start { state with
      reader.buf.rsp := ringWrite state.reader.buf.rsp ringSize state.reader.buf.rspProd
        (((stream sent).drop state.produced).take n)
      reader.buf.rspProd := uintAdd state.reader.buf.rspProd n
      produced := state.produced + n } := by
  have available := framed.available
  rw [available] at room
  obtain ⟨messages, consumer, producer, order, most, _, ring, knows, replies⟩ := framed
  have length : (((stream sent).drop state.produced).take n).length = n := by
    rw [List.length_take, List.length_drop]
    omega
  have more : state.produced + n - state.dispatched.flatten.length =
      (state.produced - state.dispatched.flatten.length) + n := by omega
  have stop : start + state.dispatched.flatten.length +
      (state.produced - state.dispatched.flatten.length) = start + state.produced := by omega
  have lap : state.reader.buf.rspProd ≡ start + state.produced [MOD ringSize] := by
    rw [producer]
    exact mod_lap _
  refine ⟨messages, consumer, ?_, by dsimp only; omega, by dsimp only; omega, bound, ?_, ?_, replies⟩
  · simp only [uintAdd, producer]
    omega
  · -- the new bytes go behind those in the ring
    have room : state.produced - state.dispatched.flatten.length +
        (((stream sent).drop state.produced).take n).length ≤ ringSize := by
      rw [length]
      omega
    have behind := @ringRead_ringWrite_append _ state.reader.buf.rsp ringSize
      (start + state.dispatched.flatten.length) _ _ room
    rw [length, stop] at behind
    simp only [more]
    rw [ringWrite_lap lap, behind, ring]
    have drop : (stream sent).drop state.produced =
        ((stream sent).drop state.dispatched.flatten.length).drop
          (state.produced - state.dispatched.flatten.length) := by
      rw [List.drop_drop]
      congr 1
      omega
    rw [drop, ← List.take_add]
  · cases pc : state.pc with
    | outside => trivial
    | header =>
      rw [pc] at knows
      simp only [ReaderPc.Knows] at knows ⊢
      omega
    | peeked msg len =>
      rw [pc] at knows
      exact ⟨by have least := knows.1; simp only; omega, knows.2⟩
    | whole msg len =>
      rw [pc] at knows
      exact ⟨by have least := knows.1; simp only; omega, knows.2⟩

theorem Framed.moveTo (framed : Framed sent start state) {pc : ReaderPc}
    (knows : pc.Knows ((stream sent).drop state.dispatched.flatten.length)
      (state.produced - state.dispatched.flatten.length)) :
    Framed sent start { state with pc := pc } :=
  ⟨framed.messages, framed.consumer, framed.producer, framed.order, framed.most, framed.bound,
    framed.ring, knows, framed.replies⟩

/-- What a message that is taken does to the reader. -/
theorem takeMessage_ok {reader next : Reader} {msg : SockMsg} {len : Nat}
    (run : reader.takeMessage msg len = .ok next) :
    next.buf = { reader.buf with rspCons := uintAdd reader.buf.rspCons (headerSize + len) } ∧
      ∀ id, next.reply id =
        if msg.type ≠ xsWatchEvent ∧ msg.reqId.toNat = id then
          some (reader.copyOut (headerSize + len))
        else reader.reply id := by
  obtain ⟨dispatched, dispatch, same⟩ := Halt.bind_eq_ok.mp run
  cases Except.ok.inj same
  unfold Reader.dispatch at dispatch
  split at dispatch
  · rename_i event
    obtain ⟨watches, _, same⟩ := Halt.bind_eq_ok.mp dispatch
    cases Except.ok.inj same
    refine ⟨rfl, fun id => ?_⟩
    simp [event]
  · rename_i answer
    split at dispatch
    · nomatch dispatch
    · split at dispatch
      · nomatch dispatch
      · cases Except.ok.inj dispatch
        refine ⟨rfl, fun id => ?_⟩
        by_cases mine : id = msg.reqId.toNat
        · rw [mine, if_pos ⟨answer, rfl⟩]
          exact Function.update_self ..
        · rw [if_neg fun both => mine both.2.symm]
          exact Function.update_of_ne mine ..

theorem Framed.take (framed : Framed sent start state) {msg : SockMsg} {len : Nat} {next : Reader}
    (pc : state.pc = .whole msg len) (run : state.reader.takeMessage msg len = .ok next) :
    Framed sent start { state with
      reader := next, pc := .outside
      dispatched := state.dispatched ++ [state.reader.copyOut (headerSize + len)] } := by
  have knows := framed.knows
  rw [pc] at knows
  obtain ⟨there, header⟩ := knows
  obtain ⟨message, rest, messages, stream'⟩ := framed.next (by simp only [headerSize] at there; omega)
  have parsed := message.parse_append rest.flatten
  rw [← stream', header] at parsed
  obtain ⟨sameMsg, sameLen⟩ := Prod.mk.inj parsed
  have total : headerSize + len = message.bytes.length := by
    rw [message.bytes_length, sameLen]
  have bytes : state.reader.copyOut (headerSize + len) = message.bytes := by
    rw [framed.copyOut there, stream', total, List.take_left']
    rfl
  obtain ⟨buf, reply⟩ := takeMessage_ok run
  obtain ⟨_, consumer, producer, order, most, bound, ring, _, replies⟩ := framed
  have length : (state.dispatched ++ [message.bytes]).flatten.length =
      state.dispatched.flatten.length + (headerSize + len) := by
    rw [List.flatten_append, List.length_append, List.flatten_singleton, total]
  rw [bytes] at reply ⊢
  refine ⟨?_, ?_, ?_, ?_, ?_, bound, ?_, trivial, ?_⟩
  · rw [messages]
    exact ⟨rest, by rw [List.append_assoc]; rfl⟩
  · simp only [buf, uintAdd, length, consumer]
    omega
  · rw [buf]
    exact producer
  · simp only [length]
    omega
  · simp only [length]
    omega
  · -- the rest of the ring is the rest of the stream
    simp only [buf, length]
    have split : state.produced - state.dispatched.flatten.length = headerSize + len +
        (state.produced - (state.dispatched.flatten.length + (headerSize + len))) := by omega
    rw [split, ringRead_add, List.take_add] at ring
    have tails := (List.append_inj ring (by
      rw [ringRead_length, List.length_take, List.length_drop]
      omega)).2
    rw [List.drop_drop, Nat.add_assoc] at tails
    exact tails
  · intro id
    have mine : answersTo id message.bytes = decide (msg.type ≠ xsWatchEvent ∧ msg.reqId.toNat = id) := by
      rw [answersTo, message.parse, sameMsg]
    simp only [reply, List.filter_append, List.filter_cons, List.filter_nil, mine]
    by_cases answer : msg.type ≠ xsWatchEvent ∧ msg.reqId.toNat = id
    · rw [if_pos answer, decide_eq_true answer, if_pos rfl, List.getLast?_concat]
    · rw [if_neg answer, decide_eq_false answer, if_neg Bool.false_ne_true, List.append_nil, replies]

theorem Framed.step (framed : Framed sent start state) (move : ReaderStep sent state op after) :
    Framed sent start after := by
  cases op with
  | produce n =>
    obtain ⟨⟨bound, room⟩, move⟩ := Option.ite_none_right_eq_some.mp move
    cases Option.some.inj move
    exact framed.produce bound room
  | check =>
    obtain ⟨_, move⟩ := Option.ite_none_right_eq_some.mp move
    split at move
    · cases Option.some.inj move
      exact framed
    · rename_i enough
      cases Option.some.inj move
      rw [framed.available] at enough
      exact framed.moveTo (Nat.le_of_not_lt enough)
  | peek =>
    obtain ⟨pc, move⟩ := Option.ite_none_right_eq_some.mp move
    cases Option.some.inj move
    have there := framed.knows
    rw [pc] at there
    refine framed.moveTo ⟨there, ?_⟩
    rw [← framed.copyOut there]
    rfl
  | recheck =>
    simp only [ReaderStep, readerStep] at move
    split at move
    · rename_i msg len pc
      have known := framed.knows
      rw [pc] at known
      split at move
      · cases Option.some.inj move
        exact framed.moveTo trivial
      · rename_i enough
        cases Option.some.inj move
        rw [framed.available] at enough
        exact framed.moveTo ⟨Nat.le_of_not_lt enough, known.2⟩
    · nomatch move
  | take =>
    simp only [ReaderStep, readerStep] at move
    split at move
    · rename_i msg len pc
      obtain ⟨next, run, rfl⟩ := Halt.map_toOption_eq_some.mp move
      exact framed.take pc run
    · nomatch move
  | callers watches inUse =>
    cases Option.some.inj move
    exact ⟨framed.messages, framed.consumer, framed.producer, framed.order, framed.most,
      framed.bound, framed.ring, framed.knows, framed.replies⟩

/-! ## Framing in every run -/

/-- The messages dispatched are the first ones sent, byte for byte; each answer is in
the slot of its request; the consumer index is behind a whole message. -/
theorem reader_framing (sent : List Message) (start : Nat)
    (reached : Reach (FreshReader start) (ReaderStep sent) Always state) :
    state.dispatched <+: sent.map Message.bytes ∧
      (∀ id, state.reader.reply id = (state.dispatched.filter (answersTo id)).getLast?) ∧
      state.reader.buf.rspCons = (start + state.dispatched.flatten.length) % 2 ^ 32 := by
  have framed : Framed sent start state := by
    refine Reach.invariant (Framed sent start) ?_ (fun _ _ _ framed _ move => framed.step move) reached
    intro begin fresh
    obtain ⟨index, consumer, empty, pc, produced, dispatched, reply⟩ := fresh
    refine ⟨?_, ?_, ?_, ?_, ?_, ?_, ?_, ?_, ?_⟩
    · rw [dispatched]
      exact List.nil_prefix
    · rw [consumer, dispatched]
      exact (Nat.mod_eq_of_lt index).symm
    · rw [empty, consumer, produced]
      exact (Nat.mod_eq_of_lt index).symm
    · simp [dispatched]
    · simp [produced]
    · simp [produced]
    · simp [produced]
    · rw [pc]
      trivial
    · intro id
      rw [reply, dispatched]
      rfl
  exact ⟨framed.messages, framed.replies, framed.consumer⟩

end Framing

/-! ## A message in two chunks -/

/-- An answer to request 3. -/
def shortAnswer : Message := ⟨⟨2, 3, 0⟩, [65, 0], by decide⟩

/-- All requests are in use, and the indices are about to wrap. -/
def lateReader : ReaderRun where
  reader :=
    { buf :=
        { req := fun _ => 0, rsp := fun _ => 0, reqCons := 0, reqProd := 0
          rspCons := 2 ^ 32 - 5, rspProd := 2 ^ 32 - 5 }
      watches := []
      inUse := fun _ => true
      reply := fun _ => none }
  pc := .outside
  produced := 0
  dispatched := []

theorem lateReader_fresh : FreshReader (2 ^ 32 - 5) lateReader :=
  ⟨by decide, rfl, rfl, rfl, rfl, rfl, fun _ => rfl⟩

def chunkScript : List ReaderOp :=
  [.produce 10, .check, .produce 6, .check, .peek, .produce 2, .recheck, .take]

theorem reader_framing_chunks :
    ∃ state, runLabels (readerStep [shortAnswer]) Always chunkScript lateReader = some state ∧
      state.dispatched <+: [shortAnswer].map Message.bytes ∧
      (∀ id, state.reader.reply id = (state.dispatched.filter (answersTo id)).getLast?) ∧
      state.reader.buf.rspCons = (2 ^ 32 - 5 + state.dispatched.flatten.length) % 2 ^ 32 := by
  have runs : (runLabels (readerStep [shortAnswer]) Always chunkScript lateReader).isSome := by
    decide +kernel
  obtain ⟨state, run⟩ := Option.isSome_iff_exists.mp runs
  exact ⟨state, run,
    reader_framing [shortAnswer] (2 ^ 32 - 5) (Reach.of_runLabels (.start lateReader_fresh) run)⟩

/-! ## A full ring -/

section Full
variable {reader : Reader}

/-- The watch does not stop the thread: it has at most as many paths as slots, and its
index is not negative. -/
def Watch.Accepts (watch : Watch) : Prop :=
  ¬maxPaths < intSub watch.pathProdIdx watch.pathConsIdx ∧ ¬watch.pathProdIdx.tmod maxPaths < 0

theorem Watch.put_isOk (watch : Watch) (path : CString) :
    (∃ after, watch.put path = .ok after) ↔ watch.Accepts := by
  unfold Watch.put Watch.Accepts
  constructor
  · rintro ⟨after, run⟩
    split at run
    · nomatch run
    · rename_i notOver
      split at run
      · nomatch run
      · rename_i notNegative
        exact ⟨notOver, notNegative⟩
  · rintro ⟨notOver, notNegative⟩
    exact ⟨_, by rw [if_neg notOver, if_neg notNegative]⟩

theorem watchEvent_isOk (watches : List Watch) (path token : CString) :
    (∃ after, watchEvent watches path token = .ok after) ↔
      ∀ watch ∈ findWatch watches token, watch.Accepts := by
  unfold watchEvent
  cases found : findWatch watches token with
  | none => simp
  | some watch =>
    constructor
    · rintro ⟨after, run⟩ other same
      cases Option.some.inj same
      obtain ⟨next, put, _⟩ := Halt.bind_eq_ok.mp run
      exact (watch.put_isOk path).mp ⟨next, put⟩
    · intro accepts
      obtain ⟨next, put⟩ := (watch.put_isOk path).mpr (accepts watch rfl)
      refine ⟨setWatch watches token next, ?_⟩
      dsimp only
      rw [put, Halt.ok_bind]

/-- The message at the consumer index, as far as it is in the ring. -/
def Reader.head (reader : Reader) : List UInt8 := reader.copyOut (headerSize + reader.peek.2)

/-- The event is for a watch that does not stop the thread. -/
def Reader.HeadAccepted (reader : Reader) : Prop :=
  reader.peek.1.type = xsWatchEvent →
    ∀ watch ∈ findWatch reader.watches (eventToken reader.head), watch.Accepts

/-- An answer is to a request in use. -/
def Reader.HeadLive (reader : Reader) : Prop :=
  reader.peek.1.type ≠ xsWatchEvent →
    reader.peek.1.reqId.toNat < nrReqs ∧ reader.inUse reader.peek.1.reqId.toNat = true

theorem Reader.dispatch_isOk (live : reader.HeadLive) :
    (∃ after, reader.dispatch reader.peek.1 reader.head = .ok after) ↔ reader.HeadAccepted := by
  unfold Reader.dispatch Reader.HeadAccepted
  by_cases event : reader.peek.1.type = xsWatchEvent
  · rw [if_pos event]
    constructor
    · rintro ⟨after, run⟩ _
      obtain ⟨watches, put, _⟩ := Halt.bind_eq_ok.mp run
      exact (watchEvent_isOk ..).mp ⟨watches, put⟩
    · intro accepted
      obtain ⟨watches, put⟩ := (watchEvent_isOk reader.watches (eventPath reader.head)
        (eventToken reader.head)).mpr (accepted event)
      exact ⟨_, by rw [put, Halt.ok_bind]⟩
  · obtain ⟨known, inUse⟩ := live event
    have notFree : ¬reader.inUse reader.peek.1.reqId.toNat = false := by simp [inUse]
    rw [if_neg event, if_neg (Nat.not_le_of_lt known), if_neg notFree]
    constructor
    · exact fun _ impossible => absurd impossible event
    · exact fun _ => ⟨_, rfl⟩

/-- With the ring full, a pass moves the consumer index exactly if the message there
fits the ring with its header. -/
theorem full_ring_advances_iff (full : reader.available = ringSize) (live : reader.HeadLive) :
    (∃ after, reader.pass = .ok (some after) ∧ after.buf.rspCons ≠ reader.buf.rspCons) ↔
      headerSize + reader.peek.2 ≤ ringSize ∧ reader.HeadAccepted := by
  have header : ¬ringSize < headerSize := by decide
  unfold Reader.pass
  rw [full, if_neg header]
  dsimp only
  by_cases fits : ringSize < headerSize + reader.peek.2
  · rw [if_pos fits]
    constructor
    · rintro ⟨after, impossible, _⟩
      nomatch impossible
    · rintro ⟨least, _⟩
      omega
  rw [if_neg fits, ← Reader.dispatch_isOk live]
  constructor
  · rintro ⟨after, run, _⟩
    refine ⟨Nat.le_of_not_lt fits, ?_⟩
    unfold Reader.takeMessage at run
    cases dispatch : reader.dispatch reader.peek.1 reader.head with
    | ok next => exact ⟨next, rfl⟩
    | error halt =>
      rw [show reader.copyOut (headerSize + reader.peek.2) = reader.head from rfl, dispatch] at run
      nomatch run
  · rintro ⟨_, next, dispatch⟩
    have taken : reader.takeMessage reader.peek.1 reader.peek.2 = .ok
        { next with buf.rspCons := uintAdd next.buf.rspCons (headerSize + reader.peek.2) } := by
      unfold Reader.takeMessage
      rw [show reader.copyOut (headerSize + reader.peek.2) = reader.head from rfl, dispatch,
        Halt.ok_bind]
    rw [taken]
    refine ⟨_, rfl, ?_⟩
    rw [(takeMessage_ok taken).1]
    simp only [uintAdd, headerSize, ringSize] at *
    omega

/-- A full ring that begins with an answer of `len` bytes to request 3. -/
def fullReader (len : Nat) : Reader :=
  { lateReader.reader with
    buf :=
      { req := fun _ => 0
        rsp := fun i => (headerBytes ⟨2, 3, 0⟩ len).getD i 65
        reqCons := 0, reqProd := 0, rspCons := 0, rspProd := 1024 } }

theorem full_ring_advances_iff_short :
    (∃ after, (fullReader 2).pass = .ok (some after) ∧
        after.buf.rspCons ≠ (fullReader 2).buf.rspCons) ↔
      headerSize + (fullReader 2).peek.2 ≤ ringSize ∧ (fullReader 2).HeadAccepted :=
  full_ring_advances_iff (by decide) fun _ => ⟨by decide +kernel, rfl⟩

/-- An answer of 2000 bytes, which the protocol allows, never fits: the pass leaves the
loop without taking anything, and the daemon has no room to go on. -/
theorem full_ring_wedges :
    (fullReader 2000).available = ringSize ∧ (fullReader 2000).HeadLive ∧
      (fullReader 2000).peek.2 = 2000 ∧ (fullReader 2000).pass = .ok none := by
  have length : (fullReader 2000).peek.2 = 2000 := by decide +kernel
  have full : (fullReader 2000).available = ringSize := by decide
  refine ⟨full, fun _ => ⟨by decide +kernel, rfl⟩, length, ?_⟩
  rw [Reader.pass, full, if_neg (by decide)]
  dsimp only
  rw [length, if_pos (by decide)]

end Full

end Stardust.Xenbus
