import Stardust.Xenstore.Rings

/-! # One message out, one reply in

The header of a request goes out before the pieces that it counts, a piece longer than the
ring is refused, and the daemon hears of none of it before the last piece is out; a reply is
taken in pieces, and the daemon never hears of the room that they leave. -/
set_option autoImplicit false
namespace Stardust.Xenstore

open Stardust.Lib Stardust.Xenbus

/-- A daemon that takes what it was told of, and puts what it has to say in the room that it
was told of, again and again. -/
structure Daemon.Fair (daemon : Daemon) : Prop where
  takes : Recurs fun time => 0 < daemon.takes time
  puts : Recurs fun time => 0 < daemon.puts time

/-- A request on the wire. -/
def requestBytes (type reqId : BitVec 32) (payload : List UInt8) : List UInt8 :=
  headerBytes ⟨type, reqId, 0⟩ payload.length ++ payload

/-- `xenstore_write` returns, has put on one message and has taken one reply. -/
def WriteFramed (daemon : Daemon) (key value : CString) (reqId : BitVec 32) (s : Channel)
    (rest : List UInt8) : Prop :=
  ∃ fuel out, xenstoreWrite daemon fuel key value reqId s = some out ∧
    out.channel.published = s.published ++ requestBytes typeWrite reqId (key ++ [0] ++ (value ++ [0])) ∧
    out.channel.unread = rest

/-- So does a call that asks for a value, and what it stores is the start of the payload. -/
def ReadFramed (call : Daemon → Nat → CString → Int → BitVec 32 → Channel → Option Outcome) (type : BitVec 32)
    (daemon : Daemon) (key : CString) (valueLength : Int) (reqId : BitVec 32) (s : Channel)
    (payload rest : List UInt8) : Prop :=
  ∃ fuel out, call daemon fuel key valueLength reqId s = some out ∧
    out.channel.published = s.published ++ requestBytes type reqId (key ++ [0]) ∧
    out.channel.unread = rest ∧ out.stored = payload.take valueLength.toNat

section Pieces
variable {daemon : Daemon} {s out : Channel} {fuel m : Nat} {reply : Message} {rest : List UInt8}

/-! ## The integers -/

/-- The length of a string and its NUL, when that is no more than a ring. -/
theorem intAdd_length {n : Nat} (fits : n + 1 ≤ ringSize) : intAdd (intOfUlong n) 1 = (n + 1 : Nat) := by
  simp only [ringSize] at fits
  rw [intOfUlong_eq (by omega), intAdd_eq (by omega) (by omega)]
  rfl

theorem uintOfInt_eq {a : Int} (natural : 0 ≤ a) (int : a < 2 ^ 31) : uintOfInt a = a.toNat := by
  unfold uintOfInt
  omega

theorem uintSub_eq {a b : Nat} (least : b ≤ a) (word : a < 2 ^ 32) : uintSub a b = a - b := by
  unfold uintSub
  omega

/-! ## The reply -/

theorem readHeader_some {header : List UInt8} (valid : s.Valid) (promised : s.Promised daemon m)
    (stream : s.unread = reply.bytes ++ rest)
    (run : xenstoreReadResponse daemon fuel 16 s = some (header, out)) :
    parseHeader header = (reply.msg, reply.payload.length) ∧ out.Valid ∧
      out.unread = reply.payload ++ rest ∧ out.published = s.published ∧
      out.Promised daemon (m - headerSize) := by
  obtain ⟨_, _, took, outValid, unread, published, left⟩ := xenstoreReadResponse_some valid promised run
  have length := reply.bytes_length
  rw [stream] at took unread
  refine ⟨?_, outValid, ?_, published, left⟩
  · rw [took, show (16 : Int).toNat = headerSize from rfl, List.take_append_of_le_length (by omega)]
    exact reply.parse
  · rw [unread, Message.bytes, List.append_assoc]
    exact List.drop_left' (headerBytes_length ..)

theorem readHeader_settles (fair : daemon.Fair) (valid : s.Valid) (promised : s.Promised daemon m)
    (fits : headerSize ≤ m) (stream : s.unread = reply.bytes ++ rest) :
    ∃ result, Settles (fun fuel => xenstoreReadResponse daemon fuel 16 s) result := by
  refine xenstoreReadResponse_settles fair.puts valid promised 16 fits ?_
  rw [stream, List.length_append, reply.bytes_length, Nat.add_assoc]
  exact Nat.le_add_right ..

theorem ignore_some {n : Nat} (valid : s.Valid) (promised : s.Promised daemon m)
    (run : ignore daemon fuel n s = some out) :
    (daemon.AwaitsEvents → (intOfUlong n).toNat ≤ m) ∧ out.unread = s.unread.drop (intOfUlong n).toNat ∧
      out.published = s.published := by
  obtain ⟨⟨_, _⟩, read, rfl⟩ := Option.map_eq_some_iff.mp run
  obtain ⟨fits, _, _, _, unread, published, _⟩ := xenstoreReadResponse_some valid promised read
  exact ⟨fits, unread, published⟩

theorem ignore_settles (fair : daemon.Fair) (valid : s.Valid) (promised : s.Promised daemon m) {n : Nat}
    (fits : n ≤ m) (there : n ≤ s.unread.length) :
    ∃ out, Settles (fun fuel => ignore daemon fuel n s) out := by
  have least := intOfUlong_toNat_le n
  obtain ⟨result, settled⟩ := xenstoreReadResponse_settles fair.puts valid promised (intOfUlong n)
    (by omega) (by omega)
  exact ⟨_, settled.map Prod.snd⟩

/-- What is dropped is all of `first` only if as much is dropped as `first` has. -/
theorem drop_append_eq {first last : List UInt8} {n : Nat} (least : n ≤ first.length)
    (same : (first ++ last).drop n = last) : n = first.length := by
  have lengths := congrArg List.length same
  rw [List.length_drop, List.length_append] at lengths
  omega

/-- Two pieces behind the header. -/
theorem pieces_fit {header ring first last : Nat} (least : header ≤ ring) (fits : first ≤ ring - header)
    (more : last ≤ ring - header - first) : header + first + last ≤ ring := by
  omega

/-! ## The request -/

theorem header_piece (msg : SockMsg) (len : Nat) : piece (headerBytes msg len) 16 = headerBytes msg len :=
  piece_eq rfl (by rw [headerBytes_length]; decide)

/-- The piece of a string and its NUL. -/
def stringPiece (string : CString) : List UInt8 := piece (string ++ [0]) (intAdd (intOfUlong string.length) 1)

theorem stringPiece_eq {string : CString} (fits : string.length + 1 ≤ ringSize) :
    stringPiece string = string ++ [0] := by
  have length : (string ++ [0]).length = string.length + 1 := by
    rw [List.length_append, List.length_singleton]
  exact piece_eq (by rw [intAdd_length fits, length]) (by rw [length]; exact fits)

theorem stringPiece_size {string : CString} (fits : string.length + 1 ≤ ringSize) :
    (stringPiece string).length = string.length + 1 := by
  rw [stringPiece_eq fits, List.length_append, List.length_singleton]

theorem stringPiece_length (string : CString) :
    (stringPiece string).length ≤ ringSize ∧ (stringPiece string).length ≤ string.length + 1 := by
  have length : (string ++ [0]).length = string.length + 1 := by
    rw [List.length_append, List.length_singleton]
  rw [← length]
  exact piece_length _ _

/-- The writes that each call starts with. -/
theorem headerKey_some {msg : SockMsg} {len : Nat} {key : CString} {first : Channel} (valid : s.Valid)
    (wroteHeader : xenstoreWriteRequest daemon fuel (headerBytes msg len) 16 s = some first)
    (wroteKey : xenstoreWriteRequest daemon fuel (key ++ [0]) (intAdd (intOfUlong key.length) 1) first = some out) :
    out.Valid ∧ out.published = s.published ++ (headerBytes msg len ++ stringPiece key) ∧
      out.unread = s.unread ∧
      out.Pending daemon (s.unnotified + headerSize + (stringPiece key).length) := by
  obtain ⟨valid, published, unread, pending⟩ := xenstoreWriteRequest_some valid pending_self wroteHeader
  rw [header_piece, headerBytes_length] at pending
  obtain ⟨valid, thenPublished, thenUnread, pending⟩ := xenstoreWriteRequest_some valid pending wroteKey
  refine ⟨valid, ?_, thenUnread.trans unread, pending⟩
  rw [thenPublished, published, header_piece, List.append_assoc]
  rfl

theorem headerKey_settles (fair : daemon.Fair) (valid : s.Valid) (msg : SockMsg) (len : Nat) {key : CString}
    (fits : s.unnotified + headerSize + (stringPiece key).length ≤ ringSize) :
    ∃ first out, Settles (fun fuel => xenstoreWriteRequest daemon fuel (headerBytes msg len) 16 s) first ∧
      Settles (fun fuel =>
        xenstoreWriteRequest daemon fuel (key ++ [0]) (intAdd (intOfUlong key.length) 1) first) out ∧
      out.Valid ∧ out.unread = s.unread ∧
      out.Pending daemon (s.unnotified + headerSize + (stringPiece key).length) := by
  obtain ⟨first, wroteHeader⟩ := xenstoreWriteRequest_settles fair.takes valid pending_self
    (headerBytes msg len) 16 (by rw [header_piece, headerBytes_length]; exact (Nat.le_add_right ..).trans fits)
  obtain ⟨_, run⟩ := wroteHeader.some
  obtain ⟨between, _, unread, pending⟩ := xenstoreWriteRequest_some valid pending_self run
  rw [header_piece, headerBytes_length] at pending
  obtain ⟨out, wroteKey⟩ := xenstoreWriteRequest_settles fair.takes between pending (key ++ [0])
    (intAdd (intOfUlong key.length) 1) fits
  obtain ⟨_, run⟩ := wroteKey.some
  obtain ⟨after, _, thenUnread, pending⟩ := xenstoreWriteRequest_some between pending run
  exact ⟨first, out, wroteHeader, wroteKey, after, thenUnread.trans unread, pending⟩

/-- The header and the pieces that went out make a message just when no piece was refused
or cut. -/
theorem request_iff (type reqId : BitVec 32) {len : Nat} {strings : List CString}
    (counted : (∀ string ∈ strings, string.length + 1 ≤ ringSize) →
      len = (strings.flatMap fun string => string ++ [0]).length) :
    headerBytes ⟨type, reqId, 0⟩ len ++ strings.flatMap stringPiece =
        requestBytes type reqId (strings.flatMap fun string => string ++ [0]) ↔
      ∀ string ∈ strings, string.length + 1 ≤ ringSize := by
  constructor
  · intro same
    have lengths := congrArg List.length same
    rw [requestBytes, List.length_append, List.length_append, headerBytes_length, headerBytes_length] at lengths
    clear counted same
    -- a piece is never longer than its string, so none is shorter
    have shorter : ∀ others : List CString, (others.flatMap stringPiece).length ≤
        (others.flatMap fun string => string ++ [0]).length := by
      intro others
      induction others with
      | nil => rw [List.flatMap_nil, List.flatMap_nil]
      | cons string others ih =>
        have most := (stringPiece_length string).2
        simp only [List.flatMap_cons, List.length_append, List.length_singleton] at ih ⊢
        omega
    induction strings with
    | nil => nofun
    | cons string others ih =>
      have most := stringPiece_length string
      have rest := shorter others
      simp only [List.flatMap_cons, List.length_append, List.length_singleton] at lengths rest ih
      intro other member
      rcases List.mem_cons.mp member with rfl | later
      · omega
      · exact ih (by omega) other later
  · intro fits
    rw [requestBytes, counted fits, List.append_right_inj]
    clear counted
    induction strings with
    | nil => rw [List.flatMap_nil, List.flatMap_nil]
    | cons string others ih =>
      rw [List.flatMap_cons, List.flatMap_cons, stringPiece_eq (fits string List.mem_cons_self),
        ih fun other later => fits other (List.mem_cons_of_mem _ later)]

end Pieces

/-! ## The calls -/

section Calls
variable {daemon : Daemon} {s : Channel} {fuel : Nat} {reply : Message} {rest : List UInt8}
  {key value : CString} {reqId type : BitVec 32} {result : Nat → Int} {valueLength : Int} {out : Outcome}

/-- What a run of `xenstore_write` has done when it returns. -/
theorem xenstoreWrite_some (valid : s.Valid) (stream : s.unread = reply.bytes ++ rest)
    (run : xenstoreWrite daemon fuel key value reqId s = some out) :
    out.channel.published = s.published ++ (headerBytes ⟨typeWrite, reqId, 0⟩
        (uintOfInt (intAdd (intAdd 2 (intOfUlong key.length)) (intOfUlong value.length))) ++
          [key, value].flatMap stringPiece) ∧
      (daemon.AwaitsEvents → s.unnotified + headerSize + (stringPiece key).length +
        (stringPiece value).length ≤ ringSize) ∧
      (daemon.AwaitsEvents → (intOfUlong reply.payload.length).toNat ≤ ringSize - headerSize) ∧
      out.channel.unread = (reply.payload ++ rest).drop (intOfUlong reply.payload.length).toNat := by
  simp only [xenstoreWrite] at run
  obtain ⟨first, wroteHeader, run⟩ := Option.bind_eq_some_iff.mp run
  obtain ⟨second, wroteKey, run⟩ := Option.bind_eq_some_iff.mp run
  obtain ⟨third, wroteValue, run⟩ := Option.bind_eq_some_iff.mp run
  obtain ⟨⟨header, fourth⟩, readHeader, run⟩ := Option.bind_eq_some_iff.mp run
  obtain ⟨last, ignored, rfl⟩ := Option.map_eq_some_iff.mp run
  obtain ⟨valid, published, unread, pending⟩ := headerKey_some valid wroteHeader wroteKey
  obtain ⟨valid, lastPublished, lastUnread, pending⟩ := xenstoreWriteRequest_some valid pending wroteValue
  have room := pending.most valid
  obtain ⟨parsed, valid, left, kept, promised⟩ := readHeader_some (notify_valid valid) (notify_promised valid)
    (lastUnread.trans (unread.trans stream)) readHeader
  rw [parsed] at ignored
  obtain ⟨fits, dropped, same⟩ := ignore_some valid promised ignored
  rw [left] at dropped
  refine ⟨?_, room, fits, dropped⟩
  rw [same, kept]
  refine lastPublished.trans ?_
  rw [published]
  simp [stringPiece]

theorem xenstoreWrite_settles (fair : daemon.Fair) (valid : s.Valid) (stream : s.unread = reply.bytes ++ rest)
    (room : s.unnotified + headerSize + (stringPiece key).length + (stringPiece value).length ≤ ringSize)
    (fits : headerSize + reply.payload.length ≤ ringSize) :
    ∃ out, Settles (fun fuel => xenstoreWrite daemon fuel key value reqId s) out := by
  obtain ⟨first, second, wroteHeader, wroteKey, valid, unread, pending⟩ := headerKey_settles fair valid
    ⟨typeWrite, reqId, 0⟩ (uintOfInt (intAdd (intAdd 2 (intOfUlong key.length)) (intOfUlong value.length)))
    ((Nat.le_add_right ..).trans room)
  obtain ⟨third, wroteValue⟩ := xenstoreWriteRequest_settles fair.takes valid pending (value ++ [0])
    (intAdd (intOfUlong value.length) 1) room
  obtain ⟨_, run⟩ := wroteValue.some
  obtain ⟨valid, _, lastUnread, _⟩ := xenstoreWriteRequest_some valid pending run
  have stream : third.notify.unread = _ := lastUnread.trans (unread.trans stream)
  have promised : third.notify.Promised daemon ringSize := notify_promised valid
  have valid := notify_valid valid
  obtain ⟨⟨header, fourth⟩, readHeader⟩ := readHeader_settles fair valid promised (by decide) stream
  obtain ⟨_, run⟩ := readHeader.some
  obtain ⟨parsed, valid, left, _, promised⟩ := readHeader_some valid promised stream run
  obtain ⟨last, ignored⟩ := ignore_settles fair valid promised (Nat.le_sub_of_add_le' fits)
    (by rw [left, List.length_append]; omega)
  have len : (parseHeader header).2 = reply.payload.length := by rw [parsed]
  rw [← len] at ignored
  exact ⟨_, wroteHeader.bind (wroteKey.bind (wroteValue.bind (readHeader.bind (ignored.map _))))⟩

/-- The buffer of the caller takes its part of the payload, and the rest is dropped. -/
theorem readCall_some (valid : s.Valid) (stream : s.unread = reply.bytes ++ rest)
    (echoed : reply.msg.reqId = reqId) (natural : 0 ≤ valueLength) (int : valueLength < 2 ^ 31)
    (run : readCall type result daemon fuel key valueLength reqId s = some out) :
    out.channel.published = s.published ++ (headerBytes ⟨type, reqId, 0⟩
        (uintOfInt (intAdd 1 (intOfUlong key.length))) ++ [key].flatMap stringPiece) ∧
      (daemon.AwaitsEvents → s.unnotified + headerSize + (stringPiece key).length ≤ ringSize) ∧
      out.stored = reply.payload.take valueLength.toNat ∧
      (daemon.AwaitsEvents → headerSize + min reply.payload.length valueLength.toNat +
        (intOfUlong (reply.payload.length - valueLength.toNat : Nat)).toNat ≤ ringSize) ∧
      out.channel.unread = (reply.payload.drop valueLength.toNat ++ rest).drop
        (intOfUlong (reply.payload.length - valueLength.toNat : Nat)).toNat := by
  simp only [readCall] at run
  obtain ⟨first, wroteHeader, run⟩ := Option.bind_eq_some_iff.mp run
  obtain ⟨second, wroteKey, run⟩ := Option.bind_eq_some_iff.mp run
  obtain ⟨⟨header, third⟩, readHeader, run⟩ := Option.bind_eq_some_iff.mp run
  obtain ⟨valid, published, unread, pending⟩ := headerKey_some valid wroteHeader wroteKey
  have room := pending.most valid
  obtain ⟨parsed, valid, left, kept, promised⟩ := readHeader_some (notify_valid valid) (notify_promised valid)
    (unread.trans stream) readHeader
  have header : headerSize ≤ ringSize := by decide
  have sent : third.published = s.published ++ (headerBytes ⟨type, reqId, 0⟩
      (uintOfInt (intAdd 1 (intOfUlong key.length))) ++ [key].flatMap stringPiece) := by
    rw [kept]
    refine published.trans ?_
    simp
  have short := reply.short
  simp only [parsed, echoed, ne_eq, not_true_eq_false, if_false, uintOfInt_eq natural int] at run
  split at run
  · rename_i fits
    obtain ⟨⟨stored, last⟩, took, rfl⟩ := Option.map_eq_some_iff.mp run
    obtain ⟨least, _, bytes, _, after, same, _⟩ := xenstoreReadResponse_some valid promised took
    rw [intOfUlong_eq (by omega), Int.toNat_natCast, left] at bytes after
    rw [intOfUlong_eq (by omega), Int.toNat_natCast] at least
    have whole : daemon.AwaitsEvents → headerSize + min reply.payload.length valueLength.toNat + 0 ≤ ringSize :=
      fun awaits => by
        have told := least awaits
        omega
    have none : (intOfUlong 0).toNat = 0 := rfl
    rw [Nat.sub_eq_zero_of_le fits, none, List.drop_eq_nil_of_le fits, List.take_of_length_le fits]
    exact ⟨same.trans sent, room, bytes.trans List.take_left, whole, after.trans List.drop_left⟩
  · rename_i long
    obtain ⟨⟨stored, fourth⟩, took, run⟩ := Option.bind_eq_some_iff.mp run
    obtain ⟨last, ignored, rfl⟩ := Option.map_eq_some_iff.mp run
    obtain ⟨least, _, bytes, valid, after, same, promised⟩ := xenstoreReadResponse_some valid promised took
    obtain ⟨fits, dropped, unchanged⟩ := ignore_some valid promised ignored
    have behind : uintSub reply.payload.length valueLength.toNat =
        reply.payload.length - valueLength.toNat := uintSub_eq (by omega) (by omega)
    rw [left] at bytes after
    rw [List.take_append_of_le_length (by omega)] at bytes
    rw [behind, after, List.drop_append_of_le_length (by omega)] at dropped
    rw [behind] at fits
    refine ⟨unchanged.trans (same.trans sent), room, bytes, fun awaits => ?_, dropped⟩
    rw [Nat.min_eq_right (Nat.le_of_not_le long)]
    exact pieces_fit (by decide) (least awaits) (fits awaits)

theorem readCall_settles (fair : daemon.Fair) (valid : s.Valid) (stream : s.unread = reply.bytes ++ rest)
    (echoed : reply.msg.reqId = reqId) (natural : 0 ≤ valueLength) (int : valueLength < 2 ^ 31)
    (room : s.unnotified + headerSize + (stringPiece key).length ≤ ringSize)
    (fits : headerSize + reply.payload.length ≤ ringSize) :
    ∃ out, Settles (fun fuel => readCall type result daemon fuel key valueLength reqId s) out := by
  obtain ⟨first, second, wroteHeader, wroteKey, valid, unread, _⟩ := headerKey_settles fair valid
    ⟨type, reqId, 0⟩ (uintOfInt (intAdd 1 (intOfUlong key.length))) room
  have stream : second.notify.unread = _ := unread.trans stream
  have promised : second.notify.Promised daemon ringSize := notify_promised valid
  have valid := notify_valid valid
  obtain ⟨⟨header, third⟩, readHeader⟩ := readHeader_settles fair valid promised (by decide) stream
  obtain ⟨_, run⟩ := readHeader.some
  obtain ⟨parsed, valid, left, _, promised⟩ := readHeader_some valid promised stream run
  have short := reply.short
  have there : reply.payload.length ≤ third.unread.length := by
    rw [left, List.length_append]
    exact Nat.le_add_right ..
  suffices last : ∃ out, Settles (fun fuel =>
      if (parseHeader header).1.reqId ≠ reqId then
        (ignore daemon fuel (parseHeader header).2 third).map fun s => (⟨-1, [], reqId + 1, s⟩ : Outcome)
      else if (parseHeader header).2 ≤ uintOfInt valueLength then
        (xenstoreReadResponse daemon fuel (intOfUlong (parseHeader header).2) third).map fun read =>
          ⟨result (parseHeader header).2, read.1, reqId + 1, read.2⟩
      else
        (xenstoreReadResponse daemon fuel valueLength third).bind fun read =>
        (ignore daemon fuel (uintSub (parseHeader header).2 (uintOfInt valueLength)) read.2).map fun s =>
          ⟨-2, read.1, reqId + 1, s⟩) out by
    obtain ⟨out, last⟩ := last
    exact ⟨out, wroteHeader.bind (wroteKey.bind (readHeader.bind last))⟩
  simp only [parsed, echoed, ne_eq, not_true_eq_false, if_false, uintOfInt_eq natural int]
  by_cases stores : reply.payload.length ≤ valueLength.toNat
  · simp only [stores, if_true]
    obtain ⟨result, took⟩ := xenstoreReadResponse_settles fair.puts valid promised
      (intOfUlong reply.payload.length) (by rw [intOfUlong_eq (by omega)]; omega)
      (by rw [intOfUlong_eq (by omega)]; omega)
    exact ⟨_, took.map _⟩
  · simp only [stores, if_false]
    obtain ⟨⟨stored, fourth⟩, took⟩ := xenstoreReadResponse_settles fair.puts valid promised valueLength
      (by omega) (by omega)
    obtain ⟨_, run⟩ := took.some
    have drops : reply.payload.length - valueLength.toNat ≤ ringSize - headerSize - valueLength.toNat :=
      Nat.sub_le_sub_right (Nat.le_sub_of_add_le' fits) _
    obtain ⟨_, _, _, valid, after, _, promised⟩ := xenstoreReadResponse_some valid promised run
    have behind : uintSub reply.payload.length valueLength.toNat =
        reply.payload.length - valueLength.toNat := uintSub_eq (by omega) (by omega)
    obtain ⟨last, ignored⟩ := ignore_settles fair valid promised drops
      (by rw [after, List.length_drop]; omega)
    rw [← behind] at ignored
    exact ⟨_, took.bind (ignored.map _)⟩

/-- A daemon that takes and puts a byte before each look, and waits for events. -/
def steadyDaemon : Daemon := ⟨fun _ => 1, fun _ => 0, fun _ => 1, fun _ => 0⟩

theorem steadyDaemon_fair : steadyDaemon.Fair :=
  ⟨fun time => ⟨time, Nat.le_refl _, Nat.one_pos⟩, fun time => ⟨time, Nat.le_refl _, Nat.one_pos⟩⟩

theorem steadyDaemon_awaits : steadyDaemon.AwaitsEvents := fun _ => ⟨rfl, rfl⟩

/-- The messages that the calls send are whole just when no string is refused. -/
theorem writeRequest_iff (reqId : BitVec 32) (key value : CString) :
    headerBytes ⟨typeWrite, reqId, 0⟩
          (uintOfInt (intAdd (intAdd 2 (intOfUlong key.length)) (intOfUlong value.length))) ++
        [key, value].flatMap stringPiece =
      requestBytes typeWrite reqId (key ++ [0] ++ (value ++ [0])) ↔
      key.length + 1 ≤ ringSize ∧ value.length + 1 ≤ ringSize := by
  have counted : (∀ string ∈ [key, value], string.length + 1 ≤ ringSize) →
      uintOfInt (intAdd (intAdd 2 (intOfUlong key.length)) (intOfUlong value.length)) =
        ([key, value].flatMap fun string => string ++ [0]).length := by
    intro fits
    have keyFits := fits key (by simp)
    have valueFits := fits value (by simp)
    simp only [ringSize] at keyFits valueFits
    have sum : intAdd 2 key.length = 2 + key.length := intAdd_eq (by omega) (by omega)
    rw [intOfUlong_eq (by omega), intOfUlong_eq (by omega), sum, intAdd_eq (by omega) (by omega)]
    simp [uintOfInt]
    omega
  have strings : ([key, value].flatMap fun string => string ++ [0]) = key ++ [0] ++ (value ++ [0]) := by
    simp
  have request := request_iff typeWrite reqId counted
  rwa [strings, List.forall_mem_cons, List.forall_mem_singleton] at request

theorem readRequest_iff (type reqId : BitVec 32) (key : CString) :
    headerBytes ⟨type, reqId, 0⟩ (uintOfInt (intAdd 1 (intOfUlong key.length))) ++ [key].flatMap stringPiece =
      requestBytes type reqId (key ++ [0]) ↔ key.length + 1 ≤ ringSize := by
  have counted : (∀ string ∈ [key], string.length + 1 ≤ ringSize) →
      uintOfInt (intAdd 1 (intOfUlong key.length)) =
        ([key].flatMap fun string => string ++ [0]).length := by
    intro fits
    have keyFits := fits key (by simp)
    simp only [ringSize] at keyFits
    rw [intOfUlong_eq (by omega), intAdd_eq (by omega) (by omega)]
    simp [uintOfInt]
    omega
  have strings : ([key].flatMap fun string => string ++ [0]) = key ++ [0] := by
    simp
  have request := request_iff type reqId counted
  rwa [strings, List.forall_mem_singleton] at request

/-- Before the event nothing of the message leaves the ring, and behind it no more than a ring
of the reply comes. -/
theorem WriteFramed.fits (awaits : daemon.AwaitsEvents) (valid : s.Valid)
    (stream : s.unread = reply.bytes ++ rest) (framed : WriteFramed daemon key value reqId s rest) :
    s.unnotified + headerSize + (key.length + 1) + (value.length + 1) ≤ ringSize ∧
      headerSize + reply.payload.length ≤ ringSize := by
  obtain ⟨fuel, out, run, published, unread⟩ := framed
  obtain ⟨sent, room, fits, left⟩ := xenstoreWrite_some valid stream run
  obtain ⟨keyFits, valueFits⟩ :=
    (writeRequest_iff reqId key value).mp (List.append_cancel_left (sent.symm.trans published))
  have room := room awaits
  rw [stringPiece_size keyFits, stringPiece_size valueFits] at room
  have told := fits awaits
  have header : headerSize ≤ ringSize := by decide
  have all := drop_append_eq (intOfUlong_toNat_le _) (left.symm.trans unread)
  exact ⟨room, by omega⟩

theorem xenstoreWrite_framed (fair : daemon.Fair) (valid : s.Valid) (stream : s.unread = reply.bytes ++ rest)
    (room : s.unnotified + headerSize + (key.length + 1) + (value.length + 1) ≤ ringSize)
    (fits : headerSize + reply.payload.length ≤ ringSize) : WriteFramed daemon key value reqId s rest := by
  have keyFits : key.length + 1 ≤ ringSize := by omega
  have valueFits : value.length + 1 ≤ ringSize := by omega
  obtain ⟨out, settled⟩ : ∃ out, Settles (fun fuel => xenstoreWrite daemon fuel key value reqId s) out :=
    xenstoreWrite_settles fair valid stream
      (by rwa [stringPiece_size keyFits, stringPiece_size valueFits]) fits
  obtain ⟨fuel, run⟩ := settled.some
  obtain ⟨sent, _, _, left⟩ := xenstoreWrite_some valid stream run
  rw [(writeRequest_iff reqId key value).mpr ⟨keyFits, valueFits⟩] at sent
  simp only [headerSize, ringSize] at fits
  rw [intOfUlong_eq (by omega), Int.toNat_natCast, List.drop_left] at left
  exact ⟨fuel, out, run, sent, left⟩

theorem ReadFramed.fits (awaits : daemon.AwaitsEvents) (valid : s.Valid)
    (stream : s.unread = reply.bytes ++ rest) (echoed : reply.msg.reqId = reqId) (natural : 0 ≤ valueLength)
    (int : valueLength < 2 ^ 31)
    (framed : ReadFramed (readCall type result) type daemon key valueLength reqId s reply.payload rest) :
    s.unnotified + headerSize + (key.length + 1) ≤ ringSize ∧
      headerSize + reply.payload.length ≤ ringSize := by
  obtain ⟨fuel, out, run, published, unread, _⟩ := framed
  obtain ⟨sent, room, _, whole, left⟩ := readCall_some valid stream echoed natural int run
  have keyFits := (readRequest_iff type reqId key).mp (List.append_cancel_left (sent.symm.trans published))
  have room := room awaits
  rw [stringPiece_size keyFits] at room
  have length := @List.length_drop _ valueLength.toNat reply.payload
  have least := intOfUlong_toNat_le (reply.payload.length - valueLength.toNat)
  have all := drop_append_eq (by rw [length]; exact least) (left.symm.trans unread)
  have told := whole awaits
  have parts : ∀ a b : Nat, min a b + (a - b) = a := fun a b => by omega
  rw [all, length, Nat.add_assoc, parts] at told
  exact ⟨room, told⟩

theorem readCall_framed (fair : daemon.Fair) (valid : s.Valid) (stream : s.unread = reply.bytes ++ rest)
    (echoed : reply.msg.reqId = reqId) (natural : 0 ≤ valueLength) (int : valueLength < 2 ^ 31)
    (room : s.unnotified + headerSize + (key.length + 1) ≤ ringSize)
    (fits : headerSize + reply.payload.length ≤ ringSize) :
    ReadFramed (readCall type result) type daemon key valueLength reqId s reply.payload rest := by
  have keyFits : key.length + 1 ≤ ringSize := by omega
  obtain ⟨out, settled⟩ : ∃ out,
      Settles (fun fuel => readCall type result daemon fuel key valueLength reqId s) out :=
    readCall_settles fair valid stream echoed natural int (by rwa [stringPiece_size keyFits]) fits
  obtain ⟨fuel, run⟩ := settled.some
  obtain ⟨sent, _, stored, _, left⟩ := readCall_some valid stream echoed natural int run
  rw [(readRequest_iff type reqId key).mpr keyFits] at sent
  simp only [headerSize, ringSize] at fits
  rw [intOfUlong_eq (by omega), Int.toNat_natCast, ← List.length_drop, List.drop_left] at left
  exact ⟨fuel, out, run, sent, left, stored⟩

theorem readCall_framed_iff (valid : s.Valid) (stream : s.unread = reply.bytes ++ rest)
    (echoed : reply.msg.reqId = reqId) (natural : 0 ≤ valueLength) (int : valueLength < 2 ^ 31) :
    (∀ daemon : Daemon, daemon.Fair →
        ReadFramed (readCall type result) type daemon key valueLength reqId s reply.payload rest) ↔
      s.unnotified + headerSize + (key.length + 1) ≤ ringSize ∧
        headerSize + reply.payload.length ≤ ringSize :=
  ⟨fun framed => (framed steadyDaemon steadyDaemon_fair).fits steadyDaemon_awaits valid stream echoed natural int,
    fun ⟨room, fits⟩ _ fair => readCall_framed fair valid stream echoed natural int room fits⟩

end Calls

/-- Each call frames its message and takes its reply, whatever the daemon, just when the whole
message fits the ring beside what no event has told the daemon of, and the whole reply fits
the other one. -/
theorem calls_framed_iff {s : Channel} {reply : Message} {rest : List UInt8} {reqId : BitVec 32}
    (valid : s.Valid) (stream : s.unread = reply.bytes ++ rest) (echoed : reply.msg.reqId = reqId)
    (valueLength : Int) (natural : 0 ≤ valueLength) (int : valueLength < 2 ^ 31) (key value : CString) :
    ((∀ daemon : Daemon, daemon.Fair → WriteFramed daemon key value reqId s rest) ↔
      s.unnotified + headerSize + (key.length + 1) + (value.length + 1) ≤ ringSize ∧
        headerSize + reply.payload.length ≤ ringSize) ∧
    ((∀ daemon : Daemon, daemon.Fair →
        ReadFramed xenstoreRead typeRead daemon key valueLength reqId s reply.payload rest) ↔
      s.unnotified + headerSize + (key.length + 1) ≤ ringSize ∧
        headerSize + reply.payload.length ≤ ringSize) ∧
    ((∀ daemon : Daemon, daemon.Fair →
        ReadFramed xenstoreLs typeDirectory daemon key valueLength reqId s reply.payload rest) ↔
      s.unnotified + headerSize + (key.length + 1) ≤ ringSize ∧
        headerSize + reply.payload.length ≤ ringSize) :=
  ⟨⟨fun framed => (framed steadyDaemon steadyDaemon_fair).fits steadyDaemon_awaits valid stream,
      fun ⟨room, fits⟩ _ fair => xenstoreWrite_framed fair valid stream room fits⟩,
    readCall_framed_iff valid stream echoed natural int, readCall_framed_iff valid stream echoed natural int⟩

/-- Empty rings shortly before their indices wrap, and one reply to come. -/
def quietChannel (reply : Message) : Channel :=
  ⟨⟨fun _ => 0, fun _ => 0, 2 ^ 32 - 8, 2 ^ 32 - 8, 2 ^ 32 - 8, 2 ^ 32 - 8⟩, [], reply.bytes, 0, 0, 0⟩

theorem quietChannel_valid (reply : Message) : (quietChannel reply).Valid := by
  constructor <;> simp [quietChannel, used, uintSub]

theorem quietChannel_unread (reply : Message) : (quietChannel reply).unread = reply.bytes ++ [] := by
  have none : used (2 ^ 32 - 8) (2 ^ 32 - 8) = 0 := by decide
  simp only [Channel.unread, quietChannel, none, ringRead_zero, List.nil_append, List.append_nil]

/-- An answer with `n` bytes to a request with number 0. -/
def reading (n : Nat) (short : n < 2 ^ 32) : Message :=
  ⟨⟨typeRead, 0, 0⟩, List.replicate n 48, by rwa [List.length_replicate]⟩

theorem short_calls_framed :
    WriteFramed steadyDaemon [97] [98] 0 (quietChannel (reading 3 (by decide))) [] ∧
      ReadFramed xenstoreRead typeRead steadyDaemon [97] 2 0 (quietChannel (reading 3 (by decide)))
        (reading 3 (by decide)).payload [] :=
  have framed := calls_framed_iff (quietChannel_valid (reading 3 (by decide)))
    (quietChannel_unread _) (show (reading 3 (by decide)).msg.reqId = 0 from rfl) 2 (by decide) (by decide)
    [97] [98]
  ⟨framed.1.mpr ⟨by decide, by decide⟩ _ steadyDaemon_fair,
    framed.2.1.mpr ⟨by decide, by decide⟩ _ steadyDaemon_fair⟩

/-- With a key of 1008 bytes the request has one byte more than the ring, and the client waits
for room before it tells the daemon; with a payload of 1009 bytes the reply has one more, and
the client does not tell the daemon of the room that the header leaves. -/
theorem long_calls_unframed :
    ¬ ReadFramed xenstoreRead typeRead steadyDaemon (List.replicate 1008 97) 2 0
        (quietChannel (reading 3 (by decide))) (reading 3 (by decide)).payload [] ∧
      ¬ ReadFramed xenstoreRead typeRead steadyDaemon [97] 4096 0 (quietChannel (reading 1009 (by decide)))
        (reading 1009 (by decide)).payload [] := by
  constructor
  · intro framed
    have echoed : (reading 3 (by decide)).msg.reqId = 0 := rfl
    have fits := (framed.fits steadyDaemon_awaits (quietChannel_valid _) (quietChannel_unread _) echoed
      (by decide) (by decide)).1
    rw [List.length_replicate] at fits
    simp only [headerSize, ringSize] at fits
    omega
  · intro framed
    have echoed : (reading 1009 (by decide)).msg.reqId = 0 := rfl
    have length : (reading 1009 (by decide)).payload.length = 1009 := List.length_replicate
    have fits := (framed.fits steadyDaemon_awaits (quietChannel_valid _) (quietChannel_unread _) echoed
      (by decide) (by decide)).2
    rw [length] at fits
    exact absurd fits (by decide)

end Stardust.Xenstore
