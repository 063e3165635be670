import Stardust.Xenbus.Ring

/-! # Writing a request

`xb_write` copies a header and the segments of a request into the request ring.
The copy goes segment by segment and is cut again where the ring ends. -/
set_option autoImplicit false
namespace Stardust.Xenbus

open Stardust.Lib

/-! ## The code -/

/-- The loop variables of the copy. -/
structure Copy where
  req : Nat → UInt8
  prod : Nat
  reqOff : Nat
  totalOff : Nat

/-- One `memcpy` of the copy: up to the segment's end or the ring's end. -/
def copyChunk (copy : Copy) (cur : List UInt8) : Copy :=
  let thisChunk := min (cur.length - copy.reqOff) (ringSize - mask copy.prod)
  { req := store copy.req (mask copy.prod) ((cur.drop copy.reqOff).take thisChunk)
    prod := uintAdd copy.prod thisChunk
    reqOff := copy.reqOff + thisChunk
    totalOff := copy.totalOff + thisChunk }

/-- The copy; the list is `cur_req` and what follows it. -/
def copyLoop (len : Nat) : Nat → Copy → List (List UInt8) → Except Halt Copy
  | 0, _, _ => .error .fuel
  | fuel + 1, copy, segments =>
    if copy.totalOff < len then
      match segments with
      | [] => .error .fault
      | cur :: rest =>
        let next := copyChunk copy cur
        if next.reqOff = cur.length then copyLoop len fuel { next with reqOff := 0 } rest
        else copyLoop len fuel next (cur :: rest)
    else .ok copy

/-- The bytes that a request puts on the wire. -/
def messageBytes (msg : SockMsg) (req : List (List UInt8)) : List UInt8 :=
  headerBytes msg req.flatten.length ++ req.flatten

/-- What `xb_write` does with the lock held, once there is room. -/
def xbCopy (buf : XenstoreBuf) (msg : SockMsg) (req : List (List UInt8)) :
    Except Halt XenstoreBuf := do
  let len := req.flatten.length + headerSize
  let copy ← copyLoop len (len + req.length + 2) ⟨buf.req, buf.reqProd, 0, 0⟩
    (headerBytes msg req.flatten.length :: req)
  if copy.reqOff ≠ 0 then .error .bug
  else if copy.totalOff ≠ len then .error .bug
  else if uintAdd buf.reqCons ringSize < copy.prod then .error .bug
  else .ok { buf with req := copy.req, reqProd := uintAdd buf.reqProd len }

/-- The test that `xb_write` makes, and waits for if it fails. -/
def XenstoreBuf.HasRoom (buf : XenstoreBuf) (len : Nat) : Prop :=
  uintSub (uintAdd buf.reqProd len) buf.reqCons ≤ ringSize

instance (buf : XenstoreBuf) (len : Nat) : Decidable (buf.HasRoom len) :=
  inferInstanceAs (Decidable (_ ≤ _))

inductive XbWrite
  | sent (buf : XenstoreBuf)
  /-- the lock is dropped and the caller waits for room -/
  | waits

def xbWrite (buf : XenstoreBuf) (msg : SockMsg) (req : List (List UInt8)) : Except Halt XbWrite :=
  let len := req.flatten.length + headerSize
  if ringSize < len then .error .bug
  else if buf.HasRoom len then (xbCopy buf msg req).map .sent
  else .ok .waits

/-! ## The copy -/

/-- What is left to copy. -/
def Copy.remaining (copy : Copy) (segments : List (List UInt8)) : List UInt8 :=
  segments.flatten.drop copy.reqOff

/-- The loop's offset lies inside the current segment, or has just been reset. -/
def Copy.Placed (copy : Copy) (segments : List (List UInt8)) : Prop :=
  copy.reqOff = 0 ∨ ∃ cur rest, segments = cur :: rest ∧ copy.reqOff < cur.length

/-- One chunk moves bytes from what is left to the ring. -/
theorem copyChunk_spec {position : Nat} {copy : Copy} {cur : List UInt8} (rest : List (List UInt8))
    (inside : copy.reqOff ≤ cur.length) (index : copy.prod = position % 2 ^ 32) :
    ∃ bytes, (copyChunk copy cur).req = ringWrite copy.req ringSize position bytes ∧
      (copyChunk copy cur).prod = (position + bytes.length) % 2 ^ 32 ∧
      (copyChunk copy cur).totalOff = copy.totalOff + bytes.length ∧
      (copyChunk copy cur).reqOff = copy.reqOff + bytes.length ∧
      copy.remaining (cur :: rest) = bytes ++ (cur.drop (copy.reqOff + bytes.length) ++ rest.flatten) ∧
      copy.reqOff + bytes.length ≤ cur.length ∧
      (copy.reqOff + bytes.length = cur.length ∨ 0 < bytes.length) := by
  have cell : mask copy.prod < ringSize := Nat.mod_lt _ (by decide)
  have sameCell : position % ringSize = mask copy.prod := by
    rw [index]
    exact (mod_lap position).symm
  have length : ((cur.drop copy.reqOff).take
      (min (cur.length - copy.reqOff) (ringSize - mask copy.prod))).length =
      min (cur.length - copy.reqOff) (ringSize - mask copy.prod) := by
    rw [List.length_take, List.length_drop]
    omega
  refine ⟨(cur.drop copy.reqOff).take (min (cur.length - copy.reqOff) (ringSize - mask copy.prod)),
    ?_, ?_, ?_, ?_, ?_, ?_, ?_⟩
  · exact store_eq_ringWrite sameCell (by omega)
  · rw [length, copyChunk, index]
    exact Nat.mod_add_mod ..
  · rw [length, copyChunk]
  · rw [length, copyChunk]
  · rw [length, ← List.append_assoc, ← List.drop_drop, List.take_append_drop, Copy.remaining,
      List.flatten_cons, List.drop_append_of_le_length inside]
  · omega
  · omega

theorem copyLoop_spec {len fuel position : Nat} {copy : Copy} {segments : List (List UInt8)}
    (placed : copy.Placed segments) (index : copy.prod = position % 2 ^ 32)
    (total : copy.totalOff + (copy.remaining segments).length = len)
    (enough : (copy.remaining segments).length + segments.length < fuel) :
    copyLoop len fuel copy segments = .ok
      ⟨ringWrite copy.req ringSize position (copy.remaining segments),
        (position + (copy.remaining segments).length) % 2 ^ 32, 0, len⟩ := by
  induction fuel generalizing position copy segments with
  | zero => omega
  | succ fuel ih =>
    by_cases more : copy.totalOff < len
    swap
    · -- nothing is left, so the offset was reset
      have none : copy.remaining segments = [] := List.eq_nil_of_length_eq_zero (by omega)
      have reset : copy.reqOff = 0 := by
        rcases placed with zero | ⟨cur, rest, rfl, inside⟩
        · exact zero
        · rw [Copy.remaining, List.drop_eq_nil_iff, List.flatten_cons, List.length_append] at none
          omega
      have done : copy.totalOff = len := by
        rw [none] at total
        exact total
      unfold copyLoop
      rw [if_neg more, none, List.length_nil, Nat.add_zero, ← index, ← done]
      cases copy
      cases reset
      rfl
    cases segments with
    | nil =>
      rw [Copy.remaining, List.flatten_nil, List.drop_nil, List.length_nil] at total
      omega
    | cons cur rest =>
      have inside : copy.reqOff ≤ cur.length := by
        rcases placed with zero | ⟨_, _, same, less⟩
        · omega
        · cases same
          omega
      obtain ⟨bytes, req, prod, totalOff, reqOff, remaining, bound, progress⟩ :=
        copyChunk_spec rest inside index
      rw [remaining, List.length_append] at total enough
      rw [List.length_cons] at enough
      have run : copyLoop len (fuel + 1) copy (cur :: rest) =
          if (copyChunk copy cur).reqOff = cur.length then
            copyLoop len fuel { copyChunk copy cur with reqOff := 0 } rest
          else copyLoop len fuel (copyChunk copy cur) (cur :: rest) := if_pos more
      rw [run, remaining, ringWrite_append, List.length_append, ← Nat.add_assoc, ← req]
      by_cases last : (copyChunk copy cur).reqOff = cur.length
      · -- the segment is finished
        have left : Copy.remaining { copyChunk copy cur with reqOff := 0 } rest =
            cur.drop (copy.reqOff + bytes.length) ++ rest.flatten := by
          rw [← reqOff, last, List.drop_length, List.nil_append]
          rfl
        rw [if_pos last, ← left]
        refine @ih (position + bytes.length) { copyChunk copy cur with reqOff := 0 } rest
          (Or.inl rfl) prod ?_ ?_
        · rw [left, totalOff]
          omega
        · rw [left]
          omega
      · have left : (copyChunk copy cur).remaining (cur :: rest) =
            cur.drop (copy.reqOff + bytes.length) ++ rest.flatten := by
          rw [← reqOff, Copy.remaining, List.flatten_cons, List.drop_append_of_le_length (by omega)]
        rw [if_neg last, ← left]
        apply ih (Or.inr ⟨cur, rest, rfl, by omega⟩) prod
        · rw [left, totalOff]
          omega
        · rw [left, List.length_cons]
          omega

/-! ## The whole call -/

theorem messageBytes_length (msg : SockMsg) (req : List (List UInt8)) :
    (messageBytes msg req).length = req.flatten.length + headerSize := by
  rw [messageBytes, List.length_append, headerBytes_length, Nat.add_comm]

/-- The ring after a message has been put in. -/
def XenstoreBuf.written (buf : XenstoreBuf) (bytes : List UInt8) : XenstoreBuf :=
  { buf with
    req := ringWrite buf.req ringSize buf.reqProd bytes
    reqProd := uintAdd buf.reqProd bytes.length }

theorem xbCopy_eq (buf : XenstoreBuf) (msg : SockMsg) (req : List (List UInt8))
    (prodIndex : buf.reqProd < 2 ^ 32) :
    xbCopy buf msg req =
      if uintAdd buf.reqCons ringSize < uintAdd buf.reqProd (messageBytes msg req).length then
        .error .bug
      else .ok (buf.written (messageBytes msg req)) := by
  have length := messageBytes_length msg req
  have whole : Copy.remaining ⟨buf.req, buf.reqProd, 0, 0⟩
      (headerBytes msg req.flatten.length :: req) = messageBytes msg req := rfl
  have copied := @copyLoop_spec (req.flatten.length + headerSize)
    (req.flatten.length + headerSize + req.length + 2) buf.reqProd ⟨buf.req, buf.reqProd, 0, 0⟩
    (headerBytes msg req.flatten.length :: req) (Or.inl rfl) (Nat.mod_eq_of_lt prodIndex).symm
    (by rw [whole, length, Nat.zero_add]) (by rw [whole, length, List.length_cons]; omega)
  rw [whole] at copied
  rw [xbCopy, copied, Halt.ok_bind, length]
  dsimp only
  rw [if_neg (not_not.mpr rfl), if_neg (not_not.mpr rfl)]
  simp only [XenstoreBuf.written, length]
  rfl

/-- What `xb_write` is for: the message lies in the ring at the producer index, can
be read back from there, and what was not consumed yet is as it was. -/
structure Written (buf : XenstoreBuf) (bytes : List UInt8) (after : XenstoreBuf) : Prop where
  placed : ∀ i, (within : i < bytes.length) →
    after.req (mask (uintAdd buf.reqProd i)) = bytes.get ⟨i, within⟩
  readBack : memcpyFromRing after.req (mask buf.reqProd) bytes.length = bytes
  kept : ∀ i, i < used buf.reqProd buf.reqCons →
    after.req (mask (uintAdd buf.reqCons i)) = buf.req (mask (uintAdd buf.reqCons i))
  advanced : after.reqProd = uintAdd buf.reqProd bytes.length
  consumer : after.reqCons = buf.reqCons

theorem mask_uintAdd (a i : Nat) : mask (uintAdd a i) = (a + i) % ringSize :=
  mod_lap (a + i)

theorem written_spec {buf : XenstoreBuf} {bytes : List UInt8}
    (prodIndex : buf.reqProd < 2 ^ 32)
    (room : used buf.reqProd buf.reqCons + bytes.length ≤ ringSize) :
    Written buf bytes (buf.written bytes) := by
  have back : ringRead (buf.written bytes).req ringSize buf.reqProd bytes.length = bytes :=
    ringRead_ringWrite (by omega)
  refine ⟨fun i within => ?_, ?_, fun i within => ?_, rfl, rfl⟩
  · have cell : (ringRead (buf.written bytes).req ringSize buf.reqProd bytes.length)[i]? =
        some ((buf.written bytes).req ((buf.reqProd + i) % ringSize)) := ringRead_get within
    rw [back, List.getElem?_eq_getElem within] at cell
    rw [mask_uintAdd]
    exact (Option.some.inj cell).symm
  · rw [memcpyFromRing_eq _ (by omega), back]
  · -- the unread bytes end where the message begins, less than a lap earlier
    rw [mask_uintAdd]
    have position := position_of_used buf.reqCons prodIndex
    have start : ringWrite buf.req ringSize buf.reqProd bytes =
        ringWrite buf.req ringSize (buf.reqCons + used buf.reqProd buf.reqCons) bytes := by
      apply ringWrite_lap
      exact (congrArg (· % ringSize) position).trans (mod_lap _)
    have same : (buf.written bytes).req =
        ringWrite buf.req ringSize (buf.reqCons + used buf.reqProd buf.reqCons) bytes := start
    rw [same]
    apply ringWrite_outside
    intro j inside meets
    exact cells_differ (by omega : buf.reqCons + i <
      buf.reqCons + used buf.reqProd buf.reqCons + j) (by omega) meets.symm

/-- The sanity check compares indices that run freely: it fails when the end of
the ring's lap has passed 2^32 and the message has not. -/
theorem sanityCheck_iff {prod cons len : Nat} (consIndex : cons < 2 ^ 32)
    (room : used prod cons + len ≤ ringSize) :
    uintAdd cons ringSize < uintAdd prod len ↔
      2 ^ 32 ≤ cons + ringSize ∧ cons + (used prod cons + len) < 2 ^ 32 := by
  simp only [used, uintAdd, uintSub, ringSize] at *
  omega

theorem hasRoom_of {buf : XenstoreBuf} {len : Nat}
    (room : used buf.reqProd buf.reqCons + len ≤ ringSize) :
    buf.HasRoom len := by
  simp only [XenstoreBuf.HasRoom, used, uintAdd, uintSub, ringSize] at *
  omega

/-- With enough room `xb_write` does what it is for, unless its check stops it. -/
theorem xbWrite_iff {buf : XenstoreBuf} (msg : SockMsg) (req : List (List UInt8))
    (prodIndex : buf.reqProd < 2 ^ 32) (consIndex : buf.reqCons < 2 ^ 32)
    (room : used buf.reqProd buf.reqCons + (messageBytes msg req).length ≤ ringSize) :
    (∃ after, xbWrite buf msg req = .ok (.sent after) ∧ Written buf (messageBytes msg req) after) ↔
      ¬(2 ^ 32 ≤ buf.reqCons + ringSize ∧
        buf.reqCons + (used buf.reqProd buf.reqCons + (messageBytes msg req).length) < 2 ^ 32) := by
  rw [← sanityCheck_iff consIndex room]
  have length := messageBytes_length msg req
  have short : ¬ringSize < req.flatten.length + headerSize := by omega
  have enough : buf.HasRoom (req.flatten.length + headerSize) :=
    hasRoom_of (by rw [← length]; exact room)
  have run : xbWrite buf msg req = (xbCopy buf msg req).map .sent := by
    rw [xbWrite, if_neg short, if_pos enough]
  rw [run, xbCopy_eq buf msg req prodIndex]
  by_cases stops : uintAdd buf.reqCons ringSize < uintAdd buf.reqProd (messageBytes msg req).length
  · rw [if_pos stops]
    constructor
    · rintro ⟨after, impossible, _⟩
      nomatch impossible
    · intro passes
      exact absurd stops passes
  · rw [if_neg stops]
    constructor
    · intro _
      exact stops
    · intro _
      exact ⟨buf.written (messageBytes msg req), rfl, written_spec prodIndex room⟩

/-- An empty ring whose indices are 1000 short of 2^32. -/
def lateRing : XenstoreBuf where
  req _ := 0
  rsp _ := 0
  reqCons := 2 ^ 32 - 1000
  reqProd := 2 ^ 32 - 1000
  rspCons := 0
  rspProd := 0

/-- An empty ring at the start, a request of one segment. -/
theorem xbWrite_iff_start :
    ∃ after, xbWrite { lateRing with reqCons := 0, reqProd := 0 } ⟨2, 0, 0⟩ [[47, 0]] =
        .ok (.sent after) ∧
      Written { lateRing with reqCons := 0, reqProd := 0 } (messageBytes ⟨2, 0, 0⟩ [[47, 0]]) after :=
  (@xbWrite_iff { lateRing with reqCons := 0, reqProd := 0 } ⟨2, 0, 0⟩ [[47, 0]] (by decide)
    (by decide) (by decide)).mpr (by decide)

/-- There is room for the header alone, and the check stops it. -/
theorem sanityCheck_stops_lateRing :
    used lateRing.reqProd lateRing.reqCons + (messageBytes ⟨2, 0, 0⟩ []).length ≤ ringSize ∧
      xbWrite lateRing ⟨2, 0, 0⟩ [] = .error .bug := by
  constructor
  · decide
  · have run : xbWrite lateRing ⟨2, 0, 0⟩ [] = (xbCopy lateRing ⟨2, 0, 0⟩ []).map .sent := by
      rw [xbWrite, if_neg (by decide), if_pos (by decide)]
    rw [run, xbCopy_eq lateRing _ _ (by decide), if_pos (by decide)]
    rfl

end Stardust.Xenbus
