import Stardust.Blkfront.RequestRuns
import Stardust.Blkfront.Transfer

/-! # The segments of a transfer

What the split of a buffer and `blk_do_io` make of it, for the two calls with a buffer. -/
set_option autoImplicit false
namespace Stardust.Blkfront

/-! ## The split -/

/-- Pages before the last one of a transfer. -/
def fullPages (size : Nat) : Nat := (size - 1) / pageSize

section Split
variable {pages first size : Nat} {array : Nat → Nat} {indexed : List Nat}

theorem fullPages_next (more : pageSize < size) : fullPages size = fullPages (size - pageSize) + 1 := by
  unfold fullPages pageSize at *
  omega

theorem fullPages_eq_zero : fullPages size = 0 ↔ size ≤ pageSize := by
  unfold fullPages pageSize
  omega

structure Splits (pages : Nat) (array : Nat → Nat) (indexed : List Nat) (first size : Nat)
    (split : Split) : Prop where
  last : split.i = first + fullPages size
  left : split.size = size - pageSize * fullPages size
  indexed : split.indexed = indexed ++ List.range' first (fullPages size + 1)
  filled : ∀ j, first ≤ j → j ≤ first + fullPages size → split.pages j = pages + j * pageSize
  before : ∀ j < first, split.pages j = array j

theorem splitPages_splits :
    Splits pages array indexed first size (splitPages pages array indexed first size) := by
  induction array, indexed, first, size using splitPages.induct pages with
  | case1 array indexed first size array' indexed' more ih =>
    have next := fullPages_next more
    rw [splitPages, if_pos more]
    refine ⟨?_, ?_, ?_, fun j least most => ?_, fun j less => ?_⟩
    · rw [ih.last, next]
      omega
    · rw [ih.left, next, Nat.mul_add, Nat.mul_one]
      omega
    · rw [ih.indexed, next, List.append_assoc, List.singleton_append, ← List.range'_succ]
    · by_cases here : j = first
      · rw [ih.before j (by omega), here]
        exact Function.update_self ..
      · exact ih.filled j (by omega) (by omega)
    · rw [ih.before j (by omega)]
      exact Function.update_of_ne (by omega) ..
  | case2 array indexed first size last =>
    rw [splitPages, if_neg last]
    have none := fullPages_eq_zero.mpr (Nat.le_of_not_lt last)
    refine ⟨?_, ?_, ?_, fun j least most => ?_, fun j less => ?_⟩
    · rw [none, Nat.add_zero]
    · rw [none, Nat.mul_zero, Nat.sub_zero]
    · rw [none]
      rfl
    · have here : j = first := by omega
      rw [here]
      exact Function.update_self ..
    · exact Function.update_of_ne (by omega) ..

end Split

/-! ## The segments -/

section Fill
variable {grant mfn frames : Nat → Nat} {entry : RingRequest} {left i j n : Nat}

theorem RingRequest.setSeg_seg {seg : Segment} :
    (entry.setSeg i seg).seg j = if j = i then seg else entry.seg j := by
  unfold RingRequest.setSeg
  dsimp only
  rw [Function.update_apply]

theorem fillSegments_seg : (fillSegments grant left i entry).seg j =
    if i ≤ j ∧ j < i + left then ⟨grant j, 0, sectorsPerPage - 1⟩ else entry.seg j := by
  induction left generalizing i entry with
  | zero => rw [fillSegments, if_neg (by omega)]
  | succ left ih =>
    rw [fillSegments, ih]
    by_cases here : j = i
    · rw [if_neg (by omega), if_pos (by omega), here]
      exact RingRequest.setSeg_seg.trans (if_pos rfl)
    · rw [RingRequest.setSeg_seg, if_neg here]
      by_cases inside : i + 1 ≤ j ∧ j < i + 1 + left
      · rw [if_pos inside, if_pos (by omega)]
      · rw [if_neg inside, if_neg (by omega)]

/-- References are not given out twice: each page keeps its own. -/
theorem grantPages_grant (distinct : Function.Injective grant) (less : j < n) :
    grantPages grant mfn frames n (grant j) = mfn j := by
  induction n with
  | zero => exact absurd less (Nat.not_lt_zero j)
  | succ n ih =>
    have step : grantPages grant mfn frames (n + 1) =
        Function.update (grantPages grant mfn frames n) (grant n) (mfn n) := by
      unfold grantPages
      rw [List.range_succ, List.foldl_append]
      rfl
    rw [step]
    rcases Nat.lt_succ_iff_lt_or_eq.mp less with earlier | rfl
    · have other : grant j ≠ grant n := fun same => by
        have index := distinct same
        omega
      rw [Function.update_of_ne other]
      exact ih earlier
    · exact Function.update_self ..

end Fill

section Request
variable {grant mfn frames : Nat → Nat} {req : BlkRequest} {id k : Nat} {entry : RingRequest}

theorem fillRequest_single (single : req.numPages = 1) :
    (fillRequest grant req id entry).seg 0 = ⟨grant 0, req.startSector % 256, byteOfInt req.endSector⟩ ∧
      (fillRequest grant req id entry).written = [0] := by
  unfold fillRequest
  dsimp only
  rw [if_pos single]
  exact ⟨RingRequest.setSeg_seg.trans (if_pos rfl), rfl⟩

/-- Of several pages each is granted whole. -/
theorem fillRequest_whole (several : 1 < req.numPages) (start : req.startSector = 0) (less : k < req.numPages) :
    (fillRequest grant req id entry).seg k = ⟨grant k, 0, sectorsPerPage - 1⟩ := by
  unfold fillRequest
  dsimp only
  rw [if_neg (by omega), Nat.max_eq_right (by omega), start]
  rw [RingRequest.setSeg_seg, if_neg (by omega), fillSegments_seg, RingRequest.setSeg_seg]
  by_cases first : k = 0
  · rw [if_neg (by omega), if_pos first, first]
  · rw [if_pos (by omega)]

/-- Behind the last of several segments `last_sect` is written again. -/
theorem fillRequest_stray (several : 1 < req.numPages) :
    req.numPages ∈ (fillRequest grant req id entry).written := by
  unfold fillRequest
  dsimp only
  rw [if_neg (by omega), Nat.max_eq_right (by omega)]
  exact List.mem_append_right _ (List.mem_singleton.mpr rfl)

end Request

section Transfer
variable {grant mfn frames : Nat → Nat} {pages address size : Nat} {operation : Operation} {id : Nat}
  {entry : RingRequest}

abbrev transferSplit (pages size : Nat) : Split := splitPages pages (fun _ => 0) [] 0 size

theorem transfer_splits : Splits pages (fun _ => 0) [] 0 size (transferSplit pages size) := splitPages_splits

theorem transfer_numPages :
    ((transferSplit pages size).request address operation).numPages = fullPages size + 1 := by
  change (transferSplit pages size).i + 1 = _
  rw [transfer_splits.last, Nat.zero_add]

theorem transfer_nrSegments (few : size ≤ maxPagesPerRequest * pageSize) :
    (fillRequest grant ((transferSplit pages size).request address operation) id entry).nrSegments =
      fullPages size + 1 := by
  change ((transferSplit pages size).request address operation).numPages % 256 = _
  rw [transfer_numPages]
  unfold fullPages maxPagesPerRequest pageSize at *
  omega

/-- `last_sect` of every segment. -/
def lastSect (size : Nat) : Nat :=
  if fullPages size = 0 then byteOfInt ((size / sectorSize : Nat) - 1) else sectorsPerPage - 1

theorem transfer_endSector : ((transferSplit pages size).request address operation).endSector =
    ((size - pageSize * fullPages size) / sectorSize : Nat) - 1 := by
  change (((transferSplit pages size).size / sectorSize : Nat) : Int) - 1 = _
  rw [transfer_splits.left]

theorem transfer_seg {k : Nat} (page : k ≤ fullPages size) :
    (fillRequest grant ((transferSplit pages size).request address operation) id entry).seg k =
      ⟨grant k, 0, lastSect size⟩ := by
  unfold lastSect
  by_cases none : fullPages size = 0
  · have single : ((transferSplit pages size).request address operation).numPages = 1 := by
      rw [transfer_numPages, none]
    have zero : k = 0 := by omega
    rw [if_pos none, zero, (fillRequest_single single).1, transfer_endSector, none]
    rfl
  · rw [if_neg none]
    have several : 1 < ((transferSplit pages size).request address operation).numPages := by
      rw [transfer_numPages]
      omega
    exact fillRequest_whole several rfl (by rw [transfer_numPages]; omega)

end Transfer

/-! ## The calls -/

section Calls
variable {w : World} {m : Machine} {address buf pages size : Nat} {operation : Operation} {done : Done}

/-- The machine that `blk_do_io` is called on: a write has filled its pages. -/
structure Handed (w : World) (m : Machine) (address buf size : Nat) (operation : Operation) (done : Done) : Prop where
  aligned : address % sectorSize = 0 ∧ size % sectorSize = 0
  req : done.req = (transferSplit (w.pagesFor buf) size).request address operation
  io : ∃ memory, (({ m with memory := memory } : Machine).prepare w.request).blkDoIo w done.req =
    .ok (done.handed, done.err)

theorem bounces_iff (whole : size % sectorSize = 0) :
    decide (buf % pageSize ≠ 0 ∨ size % sectorSize ≠ 0) = decide (buf % pageSize ≠ 0) := by
  simp [whole]

theorem World.pagesFor_eq :
    (if decide (buf % pageSize ≠ 0) = true then w.alloc else buf) = w.pagesFor buf := by
  simp [World.pagesFor]

/-- The two ways in which `blk_read` returns. -/
theorem blkRead_cases (ran : blkRead w m address buf size = .ok done) :
    (address % sectorSize = 0 ∧ size % sectorSize = 0) ∧ ∃ handed err,
      (m.prepare w.request).blkDoIo w ((transferSplit (w.pagesFor buf) size).request address .read) =
        .ok (handed, err) ∧
      ((err ≠ 0 ∧ done = ⟨handed, -1, if buf % pageSize ≠ 0 then [(w.alloc, getOrder size)] else [], [],
          (transferSplit (w.pagesFor buf) size).request address .read, handed, err⟩) ∨
        (err = 0 ∧ ∃ machine, (machine = if buf % pageSize ≠ 0 then
            { w.wait handed with
              memory := (w.wait handed).pages.copy pageSize (w.wait handed).memory buf (w.pagesFor buf)
                (transferSplit (w.pagesFor buf) size).size }
          else w.wait handed) ∧
          done = ⟨machine,
            if machine.run.ioState w.request = .doneSuccess then ((size / sectorSize : Nat) : Int) else -1,
            if buf % pageSize ≠ 0 then [(w.alloc, getOrder size)] else [],
            if buf % pageSize ≠ 0 then [(w.alloc, getOrder size)] else [],
            (transferSplit (w.pagesFor buf) size).request address .read, handed, err⟩)) := by
  unfold blkRead at ran
  split at ran
  · cases ran
  · rename_i aligned
    rw [not_or, not_not, not_not] at aligned
    dsimp only at ran
    rw [bounces_iff aligned.2, World.pagesFor_eq] at ran
    simp only [decide_eq_true_eq] at ran
    obtain ⟨⟨handed, err⟩, io, ran⟩ := except_bind_ok.mp ran
    dsimp only at ran
    refine ⟨aligned, handed, err, io, ?_⟩
    split at ran
    · rename_i failed
      cases ran
      exact Or.inl ⟨failed, rfl⟩
    · rename_i placed
      cases ran
      exact Or.inr ⟨not_not.mp placed, _, rfl, rfl⟩

theorem transfer_handed (ran : transfer operation w m address buf size = .ok done) :
    Handed w m address buf size operation done := by
  cases operation with
  | read =>
    obtain ⟨aligned, handed, err, io, ends⟩ := blkRead_cases ran
    rcases ends with ⟨_, rfl⟩ | ⟨_, machine, _, rfl⟩
    · exact ⟨aligned, rfl, m.memory, io⟩
    · exact ⟨aligned, rfl, m.memory, io⟩
  | write =>
    change blkWrite w m address buf size = _ at ran
    unfold blkWrite at ran
    split at ran
    · cases ran
    · rename_i aligned
      rw [not_or, not_not, not_not] at aligned
      dsimp only at ran
      rw [bounces_iff aligned.2, World.pagesFor_eq] at ran
      obtain ⟨⟨handed, err⟩, io, ran⟩ := except_bind_ok.mp ran
      cases ran
      refine ⟨aligned, rfl, ?_⟩
      split at io
      · exact ⟨_, io⟩
      · exact ⟨m.memory, io⟩

/-- A call of `blk_do_io` that places the request. -/
theorem Machine.blkDoIo_placed {req : BlkRequest} {after : Machine} (io : m.blkDoIo w req = .ok (after, 0)) :
    after.entries m.slot = fillRequest w.grant req (m.run.freelist 0) (m.entries m.slot) ∧
      after.frames = grantPages w.grant (fun i => m.virtToMfn (req.page w.behind i)) m.frames req.numPages ∧
      after.memory = m.memory ∧ after.pages = m.pages := by
  unfold Machine.blkDoIo at io
  split at io
  · cases io
  · split at io
    · cases io
    · dsimp only at io
      split at io
      · cases io
      · cases io
        exact ⟨Function.update_self .., rfl, rfl, rfl⟩

/-- It fails for want of an id only. -/
theorem Machine.blkDoIo_err {req : BlkRequest} {after : Machine} {err : Int}
    (io : m.blkDoIo w req = .ok (after, err)) : err = 0 ↔ m.run.freelist 0 ≠ 0 := by
  unfold Machine.blkDoIo at io
  split at io
  · cases io
  · split at io
    · cases io
    · dsimp only at io
      split at io
      · rename_i none
        cases io
        exact ⟨fun zero => absurd zero (by decide), fun free => absurd none free⟩
      · rename_i free
        cases io
        exact ⟨fun _ => free, fun _ => rfl⟩

theorem blkDoIo_returns {req : BlkRequest} (empty : m.run.ioState w.request = .empty)
    (fits : ulongAdd (req.address / sectorSize) (ulongOfInt req.endSector) ≤ ulongOfInt m.sectors) :
    ∃ result, m.blkDoIo w req = .ok result := by
  unfold Machine.blkDoIo
  rw [if_neg (not_not.mpr empty), if_neg (Nat.not_lt_of_le fits)]
  dsimp only
  split
  · exact ⟨_, rfl⟩
  · exact ⟨_, rfl⟩

/-- A call returns where the check of the device's end passes. -/
theorem transfer_returns (aligned : address % sectorSize = 0 ∧ size % sectorSize = 0)
    (fits : ulongAdd (address / sectorSize)
      (ulongOfInt (((size - pageSize * fullPages size) / sectorSize : Nat) - 1)) ≤ ulongOfInt m.sectors) : ∃ done, transfer operation w m address buf size = .ok done := by
  have last : ((transferSplit (w.pagesFor buf) size).request address operation).endSector = _ :=
    transfer_endSector
  rw [← last] at fits
  have pass : ¬(address % sectorSize ≠ 0 ∨ size % sectorSize ≠ 0) := by
    rw [not_or, not_not, not_not]
    exact aligned
  have io : ∀ memory, ∃ result, (({ m with memory := memory } : Machine).prepare w.request).blkDoIo w
      ((transferSplit (w.pagesFor buf) size).request address operation) = .ok result :=
    fun memory => blkDoIo_returns (Function.update_self ..) fits
  cases operation with
  | read =>
    obtain ⟨⟨handed, err⟩, io⟩ := io m.memory
    change ∃ done, blkRead w m address buf size = _
    unfold blkRead
    rw [if_neg pass]
    dsimp only
    rw [bounces_iff aligned.2, World.pagesFor_eq]
    rw [io, Halt.ok_bind]
    dsimp only
    split
    · exact ⟨_, rfl⟩
    · exact ⟨_, rfl⟩
  | write =>
    change ∃ done, blkWrite w m address buf size = _
    unfold blkWrite
    rw [if_neg pass]
    dsimp only
    rw [bounces_iff aligned.2, World.pagesFor_eq]
    by_cases bounce : decide (buf % pageSize ≠ 0) = true
    · rw [if_pos bounce]
      obtain ⟨⟨handed, err⟩, io⟩ := io (m.pages.copy pageSize m.memory (w.pagesFor buf) buf size)
      rw [io]
      exact ⟨_, rfl⟩
    · rw [if_neg bounce]
      obtain ⟨⟨handed, err⟩, io⟩ := io m.memory
      rw [io]
      exact ⟨_, rfl⟩

theorem Handed.placed_iff (handed : Handed w m address buf size operation done) :
    done.err = 0 ↔ m.run.freelist 0 ≠ 0 := by
  obtain ⟨memory, io⟩ := handed.io
  have placed := Machine.blkDoIo_err io
  exact placed

end Calls

/-! ## One device -/

/-- A device of a thousand sectors, and nothing outstanding. -/
def newMachine : Machine where
  run := newBlk
  sectors := 1000
  entries := fun _ => ⟨fun _ => ⟨0, 0, 0⟩, [], 0, 0, 0, 0, .read⟩
  frames := fun _ => 0
  pages := ⟨id, Function.injective_id⟩
  memory := fun _ _ => 0

/-- The allocator has the pages from 256 on free; nothing happens in the wait. -/
def idleWorld : World where
  alloc := 256 * pageSize
  request := 0
  behind := fun _ => 0
  grant := (· + 8)
  distinct := fun _ _ same => Nat.add_right_cancel same
  wait := id

theorem newMachine_places (operation : Operation) (sectors : Int) (address buf size : Nat)
    (aligned : address % sectorSize = 0 ∧ size % sectorSize = 0)
    (fits : ulongAdd (address / sectorSize)
      (ulongOfInt (((size - pageSize * fullPages size) / sectorSize : Nat) - 1)) ≤ ulongOfInt sectors) :
    ∃ done, transfer operation idleWorld { newMachine with sectors := sectors } address buf size = .ok done ∧
      done.err = 0 := by
  have free : initBuffers 0 ≠ 0 := by decide
  obtain ⟨done, ran⟩ : ∃ done, transfer operation idleWorld { newMachine with sectors := sectors } address buf size =
    .ok done := transfer_returns aligned fits
  exact ⟨done, ran, (transfer_handed ran).placed_iff.mpr free⟩

/-! ## Covered transfers -/

section Covered
variable {w : World} {m : Machine} {address buf size : Nat} {operation : Operation} {done : Done}

/-- The entry of a request that was placed, and the frames that are granted in it. -/
structure Granted (w : World) (m : Machine) (pages address size : Nat) (handed : Machine) : Prop where
  count : (handed.entries m.slot).nrSegments = fullPages size + 1
  sector : (handed.entries m.slot).sectorNumber = address / sectorSize
  seg : ∀ k ≤ fullPages size, (handed.entries m.slot).seg k = ⟨w.grant k, 0, lastSect size⟩
  frame : ∀ k ≤ fullPages size, handed.frames (w.grant k) = m.virtToMfn (pages + k * pageSize)
  single : fullPages size = 0 → (handed.entries m.slot).written = [0]
  stray : fullPages size ≠ 0 → fullPages size + 1 ∈ (handed.entries m.slot).written
  map : handed.pages = m.pages

theorem Handed.granted (handed : Handed w m address buf size operation done) (placed : done.err = 0)
    (few : size ≤ maxPagesPerRequest * pageSize) : Granted w m (w.pagesFor buf) address size done.handed := by
  obtain ⟨_, req, memory, io⟩ := handed
  rw [placed] at io
  obtain ⟨entry, frames, _, map⟩ := Machine.blkDoIo_placed io
  have here : done.handed.entries m.slot = fillRequest w.grant
      ((transferSplit (w.pagesFor buf) size).request address operation) (m.run.freelist 0)
        (m.entries m.slot) := by
    rw [← req]
    exact entry
  have numPages : done.req.numPages = fullPages size + 1 := by rw [req, transfer_numPages]
  refine ⟨?_, ?_, fun k page => ?_, fun k page => ?_, fun none => ?_, fun some => ?_, map⟩
  · rw [here]
    exact transfer_nrSegments few
  · rw [here]
    rfl
  · rw [here]
    exact transfer_seg page
  · have inside : k < maxPagesPerRequest := by
      unfold fullPages maxPagesPerRequest pageSize at *
      omega
    have less : k < done.req.numPages := by
      rw [numPages]
      exact Nat.lt_succ_of_le page
    rw [frames, grantPages_grant w.distinct less, BlkRequest.page, if_pos inside, req]
    exact congrArg m.virtToMfn (transfer_splits.filled k (Nat.zero_le k) (by omega))
  · rw [here, ← req]
    exact (fillRequest_single (by rw [numPages, none])).2
  · rw [here, ← req, ← numPages]
    exact fillRequest_stray (by omega)

/-- Segment `k` is page `k` of the transfer, and nothing is written behind the last one. -/
structure RingRequest.Covers (entry : RingRequest) (frames mfn : Nat → Nat) (size : Nat) : Prop where
  page : ∀ k < entry.nrSegments, frames (entry.seg k).gref = mfn k ∧ (entry.seg k).firstSect = 0 ∧
    (entry.seg k).lastSect + 1 = min sectorsPerPage (size / sectorSize - k * sectorsPerPage)
  total : ∑ k ∈ Finset.range entry.nrSegments,
    ((entry.seg k).lastSect - (entry.seg k).firstSect + 1) = size / sectorSize
  within : ∀ i ∈ entry.written, i < entry.nrSegments

theorem Handed.covers_iff (handed : Handed w m address buf size operation done) (placed : done.err = 0)
    (positive : 0 < size) (few : size ≤ maxPagesPerRequest * pageSize) :
    (done.handed.entries m.slot).Covers done.handed.frames
      (fun k => m.virtToMfn (w.pagesFor buf + k * pageSize)) size ↔ size ≤ pageSize := by
  have granted := handed.granted placed few
  constructor
  · intro covers
    by_contra more
    have some : fullPages size ≠ 0 := fun none => more (fullPages_eq_zero.mp none)
    have stray := covers.within _ (granted.stray some)
    rw [granted.count] at stray
    exact Nat.lt_irrefl _ stray
  · intro within
    have none := fullPages_eq_zero.mpr within
    have whole := handed.aligned.2
    have sectors : lastSect size + 1 = size / sectorSize ∧ size / sectorSize ≤ sectorsPerPage := by
      unfold lastSect byteOfInt
      rw [if_pos none]
      unfold sectorsPerPage sectorSize pageSize at *
      omega
    have first := granted.seg 0 (Nat.zero_le _)
    refine ⟨fun k less => ?_, ?_, fun i member => ?_⟩
    · rw [granted.count, none] at less
      have zero : k = 0 := by omega
      rw [zero, first]
      refine ⟨granted.frame 0 (Nat.zero_le _), rfl, ?_⟩
      dsimp only
      omega
    · rw [granted.count, none, Nat.zero_add, Finset.sum_range_one, first]
      exact sectors.1
    · rw [granted.single none] at member
      rw [granted.count, List.mem_singleton.mp member]
      exact Nat.zero_lt_succ _

/-- The request of a call covers its transfer exactly when that is one page. -/
theorem blk_request_covers_iff (positive : 0 < size) (few : size ≤ maxPagesPerRequest * pageSize)
    (ran : transfer operation w m address buf size = .ok done) (placed : done.err = 0) :
    (done.handed.entries m.slot).Covers done.handed.frames
      (fun k => m.virtToMfn (w.pagesFor buf + k * pageSize)) size ↔ size ≤ pageSize := by
  have handed := transfer_handed ran
  exact handed.covers_iff placed positive few

end Covered

/-- A sector. -/
theorem blk_request_covers_iff_sector :
    ∃ done, transfer .write idleWorld newMachine 1024 100 512 = .ok done ∧
      (done.handed.entries newMachine.slot).Covers done.handed.frames
        (fun k => newMachine.virtToMfn (idleWorld.pagesFor 100 + k * pageSize)) 512 := by
  obtain ⟨done, ran, placed⟩ := newMachine_places .write 1000 1024 100 512 (by decide) (by decide)
  exact ⟨done, ran, (blk_request_covers_iff (by decide) (by decide) ran placed).mpr (by decide)⟩

/-- Nine sectors: both pages are transferred whole, and the segment behind them is written. -/
theorem nine_sectors_not_covered :
    ∃ done, transfer .read idleWorld newMachine 0 0 4608 = .ok done ∧ done.err = 0 ∧
      ¬(done.handed.entries newMachine.slot).Covers done.handed.frames
        (fun k => newMachine.virtToMfn (idleWorld.pagesFor 0 + k * pageSize)) 4608 := by
  obtain ⟨done, ran, placed⟩ := newMachine_places .read 1000 0 0 4608 (by decide) (by decide)
  refine ⟨done, ran, placed, fun covers => ?_⟩
  have one := ((transfer_handed ran).covers_iff placed (by decide) (by decide)).mp covers
  exact absurd one (by decide)

/-! ## Bounds -/

section Bounds
variable {w : World} {m : Machine} {address buf size : Nat} {operation : Operation} {done : Done}

/-- A request within its array of pages and the sectors of the device. -/
structure Done.InBounds (done : Done) (sectors : Int) (size : Nat) : Prop where
  pages : 1 ≤ done.req.numPages ∧ done.req.numPages ≤ maxPagesPerRequest
  indexed : ∀ i ∈ done.req.indexed, i < maxPagesPerRequest
  sectors : (done.req.address / sectorSize + size / sectorSize : Nat) ≤ sectors

theorem Handed.inBounds_iff (handed : Handed w m address buf size operation done) (positive : 0 < size) :
    done.InBounds m.sectors size ↔ size ≤ maxPagesPerRequest * pageSize ∧
      (address / sectorSize + size / sectorSize : Nat) ≤ m.sectors := by
  have req := handed.req
  have numPages : done.req.numPages = fullPages size + 1 := by rw [req, transfer_numPages]
  have start : done.req.address = address := by rw [req]; rfl
  have few : fullPages size + 1 ≤ maxPagesPerRequest ↔ size ≤ maxPagesPerRequest * pageSize := by
    unfold fullPages maxPagesPerRequest pageSize
    omega
  constructor
  · intro inside
    refine ⟨few.mp (numPages ▸ inside.pages.2), ?_⟩
    rw [← start]
    exact inside.sectors
  · rintro ⟨small, sectors⟩
    refine ⟨⟨?_, ?_⟩, fun i member => ?_, start ▸ sectors⟩
    · omega
    · rw [numPages]
      exact few.mpr small
    · have entries : done.req.indexed = List.range' 0 (fullPages size + 1) := by
        rw [req]
        exact transfer_splits.indexed
      rw [entries] at member
      have less := (List.mem_range'_1.mp member).2
      have pages := few.mpr small
      omega

/-- A request that is placed is in bounds exactly when the transfer is: no check sees to either. -/
theorem blk_request_in_bounds_iff (positive : 0 < size)
    (ran : transfer operation w m address buf size = .ok done) :
    (done.err = 0 → done.InBounds m.sectors size) ↔ m.run.freelist 0 = 0 ∨
      size ≤ maxPagesPerRequest * pageSize ∧ (address / sectorSize + size / sectorSize : Nat) ≤ m.sectors := by
  have handed := transfer_handed ran
  rw [← handed.inBounds_iff positive, handed.placed_iff]
  exact or_iff_not_imp_left.symm

end Bounds

/-- The last page of the device. -/
theorem blk_request_in_bounds_iff_last :
    ∃ done, transfer .read idleWorld { newMachine with sectors := 8 } 0 0 4096 = .ok done ∧
      done.InBounds 8 4096 := by
  obtain ⟨done, ran, placed⟩ := newMachine_places .read 8 0 0 4096 (by decide) (by decide)
  exact ⟨done, ran, (blk_request_in_bounds_iff (by decide) ran).mpr (Or.inr (by decide)) placed⟩

/-- Two pages are read from a device of one. -/
theorem two_pages_out_of_bounds :
    ∃ done, transfer .read idleWorld { newMachine with sectors := 8 } 0 0 8192 = .ok done ∧ done.err = 0 ∧
      ¬done.InBounds 8 8192 := by
  obtain ⟨done, ran, placed⟩ := newMachine_places .read 8 0 0 8192 (by decide) (by decide)
  refine ⟨done, ran, placed, fun inside => ?_⟩
  have bounds := ((transfer_handed ran).inBounds_iff (by decide)).mp inside
  exact absurd bounds.2 (by decide)

end Stardust.Blkfront
