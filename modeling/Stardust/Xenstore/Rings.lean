import Stardust.Xenstore.Client

/-! # What the client does to the two byte streams

The request stream is what the daemon has taken and what lies unread in the ring, the
response stream what lies in the ring and what the daemon has still to put in.  A piece
that is being written or read is not in the indices yet. -/
set_option autoImplicit false
namespace Stardust.Xenstore

open Stardust.Lib Stardust.Xenbus

/-- All that was put on the request ring. -/
def Channel.published (s : Channel) : List UInt8 :=
  s.taken ++ ringRead s.buf.req ringSize s.buf.reqCons (used s.buf.reqProd s.buf.reqCons)

/-- All that is to be read from the response ring. -/
def Channel.unread (s : Channel) : List UInt8 :=
  ringRead s.buf.rsp ringSize s.buf.rspCons (used s.buf.rspProd s.buf.rspCons) ++ s.coming

/-- Indices of 32 bits, no more than a lap apart. -/
structure Channel.Valid (s : Channel) : Prop where
  reqProd : s.buf.reqProd < 2 ^ 32
  reqCons : s.buf.reqCons < 2 ^ 32
  rspProd : s.buf.rspProd < 2 ^ 32
  rspCons : s.buf.rspCons < 2 ^ 32
  requests : used s.buf.reqProd s.buf.reqCons ≤ ringSize
  responses : used s.buf.rspProd s.buf.rspCons ≤ ringSize
  notices : s.notified ≤ used s.buf.reqProd s.buf.reqCons
  offers : used s.buf.rspProd s.buf.rspCons + s.offered ≤ ringSize

/-- The bytes on the request ring that no event has told the daemon of. -/
def Channel.unnotified (s : Channel) : Nat := used s.buf.reqProd s.buf.reqCons - s.notified

/-- The daemon looks at the rings only after an event. -/
def Daemon.AwaitsEvents (daemon : Daemon) : Prop := ∀ time, daemon.peeks time = 0 ∧ daemon.fills time = 0

/-- At most `n` bytes wait for an event, and all `n` when the daemon waits for it too. -/
def Channel.Pending (daemon : Daemon) (n : Nat) (s : Channel) : Prop :=
  s.unnotified ≤ n ∧ (daemon.AwaitsEvents → s.unnotified = n)

/-- At least `n` bytes of responses are there or have room that the daemon was told of, and
no more when the daemon waits for an event. -/
def Channel.Promised (daemon : Daemon) (n : Nat) (s : Channel) : Prop :=
  n ≤ used s.buf.rspProd s.buf.rspCons + s.offered ∧
    (daemon.AwaitsEvents → used s.buf.rspProd s.buf.rspCons + s.offered = n)

/-- `written` is in the ring behind the request stream, and `requests` is that stream. -/
structure Writing (requests written : List UInt8) (s : Channel) : Prop where
  room : used s.buf.reqProd s.buf.reqCons + written.length ≤ ringSize
  content : s.taken ++ ringRead s.buf.req ringSize s.buf.reqCons
    (used s.buf.reqProd s.buf.reqCons + written.length) = requests ++ written

section Looks
variable {daemon : Daemon} {s : Channel} {requests written : List UInt8} {n : Nat}

theorem used_take {prod cons n : Nat} (available : n ≤ used prod cons) :
    used prod (uintAdd cons n) = used prod cons - n := by
  simp only [used, uintAdd, uintSub] at *
  omega

theorem used_put {prod cons n : Nat} (room : used prod cons + n ≤ ringSize) :
    used (uintAdd prod n) cons = used prod cons + n := by
  simp only [used, uintAdd, uintSub, ringSize] at *
  omega

theorem look_valid (valid : s.Valid) : (look daemon s).Valid := by
  have responses := valid.responses
  have requests := valid.requests
  have notices := valid.notices
  have offers := valid.offers
  refine ⟨valid.reqProd, uintAdd_lt .., uintAdd_lt .., valid.rspCons, ?_, ?_, ?_, ?_⟩
  · simp only [look]
    rw [used_take (Nat.min_le_right ..)]
    omega
  · simp only [look]
    rw [used_put (by omega)]
    omega
  · simp only [look]
    rw [used_take (Nat.min_le_right ..)]
    omega
  · simp only [look]
    rw [used_put (by omega)]
    omega

/-- What no event has told of is taken only by a daemon that looks without one. -/
theorem look_pending (pending : s.Pending daemon n) : (look daemon s).Pending daemon n := by
  obtain ⟨most, awaited⟩ := pending
  simp only [Channel.unnotified] at most awaited
  constructor
  · simp only [Channel.unnotified, look]
    rw [used_take (Nat.min_le_right ..)]
    omega
  · intro awaits
    have told := awaited awaits
    simp only [Channel.unnotified, look, (awaits s.clock).1]
    rw [used_take (Nat.min_le_right ..)]
    omega

/-- More than was promised comes only from a daemon that looks without an event. -/
theorem look_promised (valid : s.Valid) (promised : s.Promised daemon n) :
    (look daemon s).Promised daemon n := by
  obtain ⟨least, awaited⟩ := promised
  have responses := valid.responses
  constructor
  · simp only [look]
    rw [used_put (by omega)]
    omega
  · intro awaits
    have told := awaited awaits
    simp only [look, (awaits s.clock).2]
    rw [used_put (by omega)]
    omega

theorem Channel.Pending.most (pending : s.Pending daemon n) (valid : s.Valid)
    (awaits : daemon.AwaitsEvents) : n ≤ ringSize := by
  rw [← pending.2 awaits]
  exact (Nat.sub_le ..).trans valid.requests

theorem look_writing (writing : Writing requests written s) :
    Writing requests written (look daemon s) := by
  obtain ⟨room, content⟩ := writing
  have available := Nat.min_le_right (max (min (daemon.takes s.clock) s.notified) (daemon.peeks s.clock))
    (used s.buf.reqProd s.buf.reqCons)
  constructor
  · simp only [look]
    rw [used_take available]
    omega
  · simp only [look]
    generalize min (max (min (daemon.takes s.clock) s.notified) (daemon.peeks s.clock))
      (used s.buf.reqProd s.buf.reqCons) = n at *
    -- the bytes that the daemon takes go from the ring to what it has taken
    have lap : uintAdd s.buf.reqCons n ≡ s.buf.reqCons + n [MOD ringSize] := mod_lap _
    rw [used_take available, List.append_assoc, ringRead_lap lap, ← ringRead_add]
    rw [show n + (used s.buf.reqProd s.buf.reqCons - n + written.length) =
      used s.buf.reqProd s.buf.reqCons + written.length by omega]
    exact content

theorem look_unread (valid : s.Valid) : (look daemon s).unread = s.unread := by
  have responses := valid.responses
  simp only [Channel.unread, look]
  generalize amount : min (max (min (daemon.puts s.clock) s.offered) (daemon.fills s.clock))
    (min s.coming.length (ringSize - used s.buf.rspProd s.buf.rspCons)) = n
  have length : (s.coming.take n).length = n := by
    rw [List.length_take]
    omega
  have start : s.buf.rspProd ≡ s.buf.rspCons + used s.buf.rspProd s.buf.rspCons [MOD ringSize] := by
    have position := position_of_used s.buf.rspCons valid.rspProd
    exact (congrArg (· % ringSize) position).trans (mod_lap _)
  rw [used_put (by omega), ringWrite_lap start]
  have appended := @ringRead_ringWrite_append _ s.buf.rsp ringSize s.buf.rspCons
    (used s.buf.rspProd s.buf.rspCons) (s.coming.take n) (by omega)
  rw [length] at appended
  rw [appended, List.append_assoc, List.take_append_drop]

theorem pending_self : s.Pending daemon s.unnotified := ⟨Nat.le_refl _, fun _ => rfl⟩

theorem notify_valid (valid : s.Valid) : s.notify.Valid :=
  ⟨valid.reqProd, valid.reqCons, valid.rspProd, valid.rspCons, valid.requests, valid.responses, Nat.le_refl _,
    (Nat.add_sub_cancel' valid.responses).le⟩

/-- An event promises a ring full of responses. -/
theorem notify_promised (valid : s.Valid) : s.notify.Promised daemon ringSize := by
  have whole : used s.buf.rspProd s.buf.rspCons + (ringSize - used s.buf.rspProd s.buf.rspCons) = ringSize :=
    Nat.add_sub_cancel' valid.responses
  exact ⟨whole.ge, fun _ => whole⟩

theorem writing_nil : Writing requests [] s ↔
    used s.buf.reqProd s.buf.reqCons ≤ ringSize ∧ s.published = requests := by
  constructor
  · rintro ⟨room, content⟩
    exact ⟨room, content.trans (List.append_nil _)⟩
  · rintro ⟨room, content⟩
    exact ⟨room, content.trans (List.append_nil _).symm⟩

theorem look_published (valid : s.Valid) : (look daemon s).published = s.published :=
  (writing_nil.mp (look_writing (writing_nil.mpr ⟨valid.requests, rfl⟩))).2

end Looks

/-! ## A piece of a request -/

section Writes
variable {daemon : Daemon} {s out : Channel} {requests written rest : List UInt8} {fuel i n : Nat}

/-- The cell behind what is written takes one byte more. -/
theorem Writing.push (valid : s.Valid) (writing : Writing requests written s) (byte : UInt8)
    (more : used s.buf.reqProd s.buf.reqCons + written.length < ringSize) :
    Writing requests (written ++ [byte]) (s.store (uintAdd s.buf.reqProd written.length) byte) := by
  have length : (written ++ [byte]).length = written.length + 1 := by
    rw [List.length_append, List.length_singleton]
  have cell : mask (uintAdd s.buf.reqProd written.length) =
      (s.buf.reqCons + (used s.buf.reqProd s.buf.reqCons + written.length)) % ringSize := by
    have position := position_of_used s.buf.reqCons valid.reqProd
    calc mask (uintAdd s.buf.reqProd written.length)
        = (s.buf.reqProd + written.length) % ringSize := mod_lap _
      _ = (s.buf.reqCons + used s.buf.reqProd s.buf.reqCons + written.length) % ringSize :=
          Nat.ModEq.add_right _ ((congrArg (· % ringSize) position).trans (mod_lap _))
      _ = _ := by rw [Nat.add_assoc]
  constructor
  · rw [length]
    exact more
  · simp only [Channel.store]
    rw [length, cell, ← Nat.add_assoc (used _ _), ringRead_push more, ← List.append_assoc, writing.content,
      List.append_assoc]

/-- What the looks in a spin keep. -/
structure SpinsFor (daemon : Daemon) (n : Nat) (requests written : List UInt8) (start s : Channel) : Prop where
  valid : s.Valid
  writing : Writing requests written s
  reqProd : s.buf.reqProd = start.buf.reqProd
  unread : s.unread = start.unread
  pending : s.Pending daemon n

theorem SpinsFor.look (spins : SpinsFor daemon n requests written out s) :
    SpinsFor daemon n requests written out (look daemon s) :=
  ⟨look_valid spins.valid, look_writing spins.writing, spins.reqProd,
    (look_unread spins.valid).trans spins.unread, look_pending spins.pending⟩

/-- The test of the spin, at the index behind what is written. -/
theorem room_iff (room : used s.buf.reqProd s.buf.reqCons + written.length ≤ ringSize) :
    uintSub (uintAdd s.buf.reqProd written.length) s.buf.reqCons < ringSize ↔
      used s.buf.reqProd s.buf.reqCons + written.length < ringSize := by
  have behind := used_put room
  rw [used] at behind
  rw [behind]

/-- A byte goes in when the spin is over. -/
theorem SpinsFor.push {start : Channel} (spins : SpinsFor daemon n requests written start s) (byte : UInt8)
    (test : uintSub (uintAdd start.buf.reqProd written.length) s.buf.reqCons < ringSize) :
    SpinsFor daemon n requests (written ++ [byte]) start
      (s.store (uintAdd start.buf.reqProd written.length) byte) := by
  obtain ⟨valid, writing, same, unread, pending⟩ := spins
  rw [← same] at test ⊢
  exact ⟨⟨valid.reqProd, valid.reqCons, valid.rspProd, valid.rspCons, valid.requests, valid.responses,
    valid.notices, valid.offers⟩, writing.push valid byte ((room_iff writing.room).mp test), same, unread, pending⟩

/-- The spins go on from where a piece stands. -/
theorem SpinsFor.restart {start : Channel} (spins : SpinsFor daemon n requests written start s) :
    SpinsFor daemon n requests written s s :=
  ⟨spins.valid, spins.writing, rfl, rfl, spins.pending⟩

/-- The index behind one byte more. -/
theorem index_push (a : Nat) (written : List UInt8) (byte : UInt8) :
    uintAdd (uintAdd a written.length) 1 = uintAdd a (written ++ [byte]).length := by
  rw [List.length_append, List.length_singleton, uintAdd, uintAdd, uintAdd, Nat.mod_add_mod, Nat.add_assoc]

theorem writeLoop_some (spins : SpinsFor daemon n requests written s s)
    (index : i = uintAdd s.buf.reqProd written.length) (run : writeLoop daemon fuel rest i s = some out) :
    out.Valid ∧ out.published = requests ++ (written ++ rest) ∧ out.unread = s.unread ∧
      out.Pending daemon (n + (written ++ rest).length) := by
  induction rest generalizing written i s with
  | nil =>
    cases Option.some.inj run
    obtain ⟨valid, writing, _, _, pending⟩ := spins
    have behind := used_put writing.room
    have notices := valid.notices
    rw [← index] at behind
    rw [List.append_nil]
    refine ⟨⟨?_, valid.reqCons, valid.rspProd, valid.rspCons, ?_, valid.responses, ?_, valid.offers⟩, ?_, rfl, ?_⟩
    · rw [index]
      exact uintAdd_lt ..
    · dsimp only
      rw [behind]
      exact writing.room
    · dsimp only
      omega
    · simp only [Channel.published]
      rw [behind]
      exact writing.content
    · obtain ⟨most, awaited⟩ := pending
      simp only [Channel.Pending, Channel.unnotified, behind] at most awaited ⊢
      exact ⟨by omega, fun awaits => by have told := awaited awaits; omega⟩
  | cons byte rest ih =>
    rw [writeLoop] at run
    obtain ⟨between, spun, run⟩ := Option.bind_eq_some_iff.mp run
    obtain ⟨kept, test⟩ := spin_some (SpinsFor daemon n requests written s) (fun _ => SpinsFor.look) spins spun
    rw [index] at run test
    have pushed := kept.push byte (of_decide_eq_true test)
    obtain ⟨valid, published, unread, pending⟩ := ih pushed.restart
      (by rw [pushed.reqProd, index_push _ _ byte]) run
    rw [List.append_assoc, List.singleton_append] at published pending
    exact ⟨valid, published, unread.trans pushed.unread, pending⟩

theorem writeLoop_settles (takes : Recurs fun time => 0 < daemon.takes time)
    (spins : SpinsFor daemon n requests written s s) (index : i = uintAdd s.buf.reqProd written.length)
    (fits : n + (written.length + rest.length) ≤ ringSize) :
    ∃ out, Settles (fun fuel => writeLoop daemon fuel rest i s) out := by
  induction rest generalizing written i s with
  | nil => exact ⟨_, Settles.const _⟩
  | cons byte rest ih =>
    rw [List.length_cons] at fits
    obtain ⟨between, spun⟩ := spin_settles (look daemon)
      (fun s => decide (uintSub i s.buf.reqCons < ringSize)) takes Channel.clock
      (fun s => used s.buf.reqProd s.buf.reqCons) (SpinsFor daemon n requests written s) (fun _ => SpinsFor.look)
      (fun _ => rfl) (fun s _ => by simp only [look]; rw [used_take (Nat.min_le_right ..)]; omega)
      (fun s' kept acts => by
        have after : SpinsFor daemon n requests written s (look daemon s') := kept.look
        have notices := kept.valid.notices
        by_cases told : s'.notified = 0
        · -- all that is on the ring waits for an event, and leaves room for the piece
          left
          have most := kept.pending.1
          rw [Channel.unnotified, told] at most
          apply decide_eq_true
          rw [index, ← after.reqProd, room_iff after.writing.room]
          simp only [look]
          rw [used_take (Nat.min_le_right ..)]
          omega
        · right
          simp only [look]
          rw [used_take (Nat.min_le_right ..)]
          omega) spins
    obtain ⟨fuel, run⟩ := spun.some
    obtain ⟨kept, test⟩ := spin_some (SpinsFor daemon n requests written s) (fun _ => SpinsFor.look) spins run
    rw [index] at test
    have pushed := kept.push byte (of_decide_eq_true test)
    rw [← index] at pushed
    obtain ⟨out, settled⟩ := ih (i := uintAdd i 1) pushed.restart
      (by rw [pushed.reqProd, index, index_push _ _ byte])
      (by rw [List.length_append, List.length_singleton]; omega)
    exact ⟨out, spun.bind settled⟩

end Writes

/-- The part of the message that goes on the ring. -/
def piece (message : List UInt8) (length : Int) : List UInt8 :=
  if (ringSize : Int) < length then [] else message.take length.toNat

section Requests
variable {daemon : Daemon} {s out : Channel} {fuel n : Nat} {message : List UInt8} {length : Int}

theorem piece_length (message : List UInt8) (length : Int) :
    (piece message length).length ≤ ringSize ∧ (piece message length).length ≤ message.length := by
  unfold piece
  split
  · exact ⟨Nat.zero_le _, Nat.zero_le _⟩
  · rw [List.length_take]
    omega

theorem piece_eq (whole : length = message.length) (fits : message.length ≤ ringSize) :
    piece message length = message := by
  rw [piece, whole, if_neg (by omega), Int.toNat_natCast, List.take_length]

theorem spinsFor_start (valid : s.Valid) (pending : s.Pending daemon n) :
    SpinsFor daemon n s.published [] s s :=
  ⟨valid, writing_nil.mpr ⟨valid.requests, rfl⟩, rfl, rfl, pending⟩

theorem xenstoreWriteRequest_some (valid : s.Valid) (pending : s.Pending daemon n)
    (run : xenstoreWriteRequest daemon fuel message length s = some out) :
    out.Valid ∧ out.published = s.published ++ piece message length ∧ out.unread = s.unread ∧
      out.Pending daemon (n + (piece message length).length) := by
  unfold xenstoreWriteRequest at run
  unfold piece
  split at run
  · rename_i long
    cases Option.some.inj run
    rw [if_pos long, List.append_nil]
    exact ⟨valid, rfl, rfl, pending⟩
  · rename_i fits
    rw [if_neg fits]
    exact writeLoop_some (spinsFor_start valid pending) (uintAdd_zero valid.reqProd).symm run

theorem xenstoreWriteRequest_settles (takes : Recurs fun time => 0 < daemon.takes time) (valid : s.Valid)
    (pending : s.Pending daemon n) (message : List UInt8) (length : Int)
    (fits : n + (piece message length).length ≤ ringSize) :
    ∃ out, Settles (fun fuel => xenstoreWriteRequest daemon fuel message length s) out := by
  unfold piece at fits
  unfold xenstoreWriteRequest
  split
  · exact ⟨s, Settles.const s⟩
  · rename_i short
    rw [if_neg short] at fits
    refine writeLoop_settles takes (spinsFor_start valid pending) (uintAdd_zero valid.reqProd).symm ?_
    rw [List.length_nil, Nat.zero_add]
    exact fits

end Requests

/-! ## A piece of a response -/

section Reads
variable {daemon : Daemon} {s out : Channel} {fuel i m n left : Nat} {stored : List UInt8}

/-- `n` bytes of the response stream have been read and are still in the ring; `m` are promised. -/
structure ReadsOn (daemon : Daemon) (m n : Nat) (start s : Channel) : Prop where
  valid : s.Valid
  arrived : n ≤ used s.buf.rspProd s.buf.rspCons
  rspCons : s.buf.rspCons = start.buf.rspCons
  unread : s.unread = start.unread
  published : s.published = start.published
  promised : s.Promised daemon m

theorem ReadsOn.look (reads : ReadsOn daemon m n out s) : ReadsOn daemon m n out (look daemon s) := by
  obtain ⟨valid, least, same, unread, published, promised⟩ := reads
  refine ⟨look_valid valid, ?_, same, (look_unread valid).trans unread,
    (look_published valid).trans published, look_promised valid promised⟩
  have responses := valid.responses
  simp only [Xenstore.look]
  rw [used_put (by omega)]
  omega

/-- The test of the spin, at the index behind what is read. -/
theorem data_iff (valid : s.Valid) (least : n ≤ used s.buf.rspProd s.buf.rspCons) :
    uintSub s.buf.rspProd (uintAdd s.buf.rspCons n) ≠ 0 ↔ n < used s.buf.rspProd s.buf.rspCons := by
  have behind := used_take least
  have responses := valid.responses
  rw [used] at behind
  rw [behind]
  omega

/-- The byte that the loop takes is the next one of the stream. -/
theorem ReadsOn.next {start : Channel} (reads : ReadsOn daemon m n start s)
    (test : uintSub s.buf.rspProd (uintAdd start.buf.rspCons n) ≠ 0) :
    ReadsOn daemon m (n + 1) start s ∧
      start.unread[n]? = some (s.buf.rsp (mask (uintAdd start.buf.rspCons n))) := by
  obtain ⟨valid, least, same, unread, published, promised⟩ := reads
  rw [← same] at test ⊢
  have more := (data_iff valid least).mp test
  refine ⟨⟨valid, more, same, unread, published, promised⟩, ?_⟩
  have cell : mask (uintAdd s.buf.rspCons n) = (s.buf.rspCons + n) % ringSize := mod_lap _
  rw [← unread, Channel.unread, List.getElem?_append_left (by rw [ringRead_length]; exact more),
    ringRead_get more, cell]

/-- The spins go on from where a piece stands. -/
theorem ReadsOn.restart {start : Channel} (reads : ReadsOn daemon m n start s) : ReadsOn daemon m n s s :=
  ⟨reads.valid, reads.arrived, rfl, rfl, rfl, reads.promised⟩

theorem ReadsOn.done (reads : ReadsOn daemon m n s s) :
    ({ s with buf.rspCons := uintAdd s.buf.rspCons n } : Channel).Valid ∧
      ({ s with buf.rspCons := uintAdd s.buf.rspCons n } : Channel).unread = s.unread.drop n ∧
      ({ s with buf.rspCons := uintAdd s.buf.rspCons n } : Channel).Promised daemon (m - n) := by
  obtain ⟨valid, least, _, _, _, some, awaited⟩ := reads
  have behind := used_take least
  have responses := valid.responses
  have offers := valid.offers
  refine ⟨⟨valid.reqProd, valid.reqCons, valid.rspProd, uintAdd_lt .., valid.requests, ?_, valid.notices, ?_⟩,
    ?_, ?_, fun awaits => ?_⟩
  · dsimp only
    rw [behind]
    omega
  · dsimp only
    rw [behind]
    omega
  · have lap : uintAdd s.buf.rspCons n ≡ s.buf.rspCons + n [MOD ringSize] := mod_lap _
    have split : ringRead s.buf.rsp ringSize s.buf.rspCons
        (n + (used s.buf.rspProd s.buf.rspCons - n)) =
        ringRead s.buf.rsp ringSize s.buf.rspCons (used s.buf.rspProd s.buf.rspCons) := by
      rw [Nat.add_sub_cancel' least]
    rw [ringRead_add] at split
    simp only [Channel.unread]
    rw [behind, ringRead_lap lap, ← split, List.append_assoc, List.drop_left' ringRead_length]
  · dsimp only
    rw [behind]
    omega
  · have told := awaited awaits
    dsimp only
    rw [behind]
    omega

/-- The loop returns with the next piece of the stream, and only with one that was promised
when the daemon waits for events. -/
theorem readLoop_some (reads : ReadsOn daemon m n s s) (index : i = uintAdd s.buf.rspCons n)
    (run : readLoop daemon fuel left i s = some (stored, out)) :
    (daemon.AwaitsEvents → n + left ≤ m) ∧ n + left ≤ s.unread.length ∧
      stored = (s.unread.drop n).take left ∧ out.Valid ∧ out.unread = s.unread.drop (n + left) ∧
      out.published = s.published ∧ out.Promised daemon (m - (n + left)) := by
  induction left generalizing n i s stored out with
  | zero =>
    cases Option.some.inj run
    obtain ⟨valid, unread, promised⟩ := reads.done
    rw [← index] at valid unread promised
    have arrived := reads.arrived
    refine ⟨fun awaits => ?_, ?_, rfl, valid, unread, rfl, promised⟩
    · have told := reads.promised.2 awaits
      omega
    · rw [Channel.unread, List.length_append, ringRead_length]
      omega
  | succ left ih =>
    rw [readLoop] at run
    obtain ⟨between, spun, run⟩ := Option.bind_eq_some_iff.mp run
    obtain ⟨⟨rest, after⟩, later, same⟩ := Option.map_eq_some_iff.mp run
    cases same
    obtain ⟨kept, test⟩ := spin_some (ReadsOn daemon m n s) (fun _ => ReadsOn.look) reads spun
    rw [index] at test later
    obtain ⟨further, byte⟩ := kept.next (of_decide_eq_true test)
    obtain ⟨fits, there, took, result⟩ := ih further.restart
      (by rw [further.rspCons, uintAdd, uintAdd, uintAdd, Nat.mod_add_mod, Nat.add_assoc]) later
    rw [further.unread] at there took result
    rw [further.published] at result
    rw [show n + (left + 1) = n + 1 + left by omega]
    refine ⟨fits, there, ?_, result⟩
    · obtain ⟨here, value⟩ := List.getElem?_eq_some_iff.mp byte
      rw [List.drop_eq_getElem_cons here, List.take_succ_cons, value, took, index]

theorem readLoop_settles (puts : Recurs fun time => 0 < daemon.puts time) (reads : ReadsOn daemon m n s s)
    (index : i = uintAdd s.buf.rspCons n) (fits : n + left ≤ m) (there : n + left ≤ s.unread.length) :
    ∃ result, Settles (fun fuel => readLoop daemon fuel left i s) result := by
  induction left generalizing n i s with
  | zero => exact ⟨_, Settles.const _⟩
  | succ left ih =>
    obtain ⟨between, spun⟩ := spin_settles (look daemon)
      (fun s => decide (uintSub s.buf.rspProd i ≠ 0)) puts Channel.clock (fun _ => 0) (ReadsOn daemon m n s)
      (fun _ => ReadsOn.look) (fun _ => rfl) (fun _ _ => Nat.le_refl 0)
      (fun s' kept acts => by
        -- when all that has arrived is read there is more to come, and room for it
        left
        have after : ReadsOn daemon m n s (look daemon s') := kept.look
        obtain ⟨valid, least, _, unread, _, promised, _⟩ := kept
        apply decide_eq_true
        rw [index, ← after.rspCons, data_iff after.valid after.arrived]
        rw [← unread, Channel.unread, List.length_append, ringRead_length] at there
        have offers := valid.offers
        simp only [look]
        rw [used_put (by omega)]
        omega) reads
    obtain ⟨fuel, run⟩ := spun.some
    obtain ⟨kept, test⟩ := spin_some (ReadsOn daemon m n s) (fun _ => ReadsOn.look) reads run
    rw [index] at test
    obtain ⟨further, _⟩ := kept.next (of_decide_eq_true test)
    obtain ⟨result, settled⟩ := ih (i := uintAdd i 1) further.restart
      (by rw [further.rspCons, index, uintAdd, uintAdd, uintAdd, Nat.mod_add_mod, Nat.add_assoc]) (by omega)
      (by rw [further.unread]; omega)
    exact ⟨_, spun.bind (settled.map fun behind => (between.buf.rsp (mask i) :: behind.1, behind.2))⟩

theorem readsOn_start (valid : s.Valid) (promised : s.Promised daemon m) : ReadsOn daemon m 0 s s :=
  ⟨valid, Nat.zero_le _, rfl, rfl, rfl, promised⟩

theorem xenstoreReadResponse_some {length : Int} (valid : s.Valid) (promised : s.Promised daemon m)
    (run : xenstoreReadResponse daemon fuel length s = some (stored, out)) :
    (daemon.AwaitsEvents → length.toNat ≤ m) ∧ length.toNat ≤ s.unread.length ∧
      stored = s.unread.take length.toNat ∧ out.Valid ∧ out.unread = s.unread.drop length.toNat ∧
      out.published = s.published ∧ out.Promised daemon (m - length.toNat) := by
  have outcome := readLoop_some (readsOn_start valid promised) (uintAdd_zero valid.rspCons).symm run
  rwa [Nat.zero_add, List.drop_zero] at outcome

theorem xenstoreReadResponse_settles (puts : Recurs fun time => 0 < daemon.puts time) (valid : s.Valid)
    (promised : s.Promised daemon m) (length : Int) (fits : length.toNat ≤ m)
    (there : length.toNat ≤ s.unread.length) :
    ∃ result, Settles (fun fuel => xenstoreReadResponse daemon fuel length s) result :=
  readLoop_settles puts (readsOn_start valid promised) (uintAdd_zero valid.rspCons).symm (by omega) (by omega)

end Reads

end Stardust.Xenstore
