import Stardust.Blkfront.Segments

/-! # What a read leaves in the buffer

The back end fills the granted frames; a buffer that is not page-aligned gets its bytes by
a copy from the pages behind it. -/
set_option autoImplicit false
namespace Stardust.Blkfront

open Stardust.Lib

/-! ## The back end -/

/-- The sectors of the segments in turn. -/
def serveRead (disk : Nat → UInt8) (frames : Nat → Nat) :
    List Segment → Nat → (Nat → Nat → UInt8) → Nat → Nat → UInt8
  | [], _, memory => memory
  | seg :: rest, sector, memory =>
    let count := seg.lastSect - seg.firstSect + 1
    serveRead disk frames rest (sector + count)
      (fillFrame memory (frames seg.gref) (seg.firstSect * sectorSize) (count * sectorSize) fun i =>
        disk (sector * sectorSize + i))

def RingRequest.segments (entry : RingRequest) : List Segment := (List.range entry.nrSegments).map entry.seg

section Serve
variable {disk : Nat → UInt8} {frames : Nat → Nat} {segments : List Segment} {sector last k o f : Nat}
  {memory : Nat → Nat → UInt8} {seg : Segment}

theorem serveRead_other (apart : ∀ seg ∈ segments, f ≠ frames seg.gref) :
    serveRead disk frames segments sector memory f o = memory f o := by
  induction segments generalizing sector memory with
  | nil => rfl
  | cons first rest ih =>
    rw [serveRead, ih fun seg member => apart seg (List.mem_cons_of_mem first member)]
    exact fillFrame_other (apart first List.mem_cons_self)

/-- The bytes of segment `k`, when all before it have as many sectors. -/
theorem serveRead_segment (uniform : ∀ seg ∈ segments, seg.firstSect = 0 ∧ seg.lastSect = last)
    (nodup : (segments.map (frames ·.gref)).Nodup) (found : segments[k]? = some seg)
    (inside : o < (last + 1) * sectorSize) :
    serveRead disk frames segments sector memory (frames seg.gref) o =
      disk ((sector + k * (last + 1)) * sectorSize + o) := by
  induction segments generalizing sector memory k with
  | nil => cases found
  | cons first rest ih =>
    obtain ⟨start, lastSect⟩ := uniform first List.mem_cons_self
    obtain ⟨once, nodup⟩ := List.nodup_cons.mp nodup
    simp only [serveRead, start, lastSect, Nat.sub_zero, Nat.zero_mul]
    cases k with
    | zero =>
      cases found
      have apart : ∀ other ∈ rest, frames seg.gref ≠ frames other.gref := by
        intro other member same
        exact once (List.mem_map.mpr ⟨other, member, same.symm⟩)
      rw [serveRead_other apart, fillFrame_inside (Nat.zero_le o) (by omega), Nat.sub_zero, Nat.zero_mul,
        Nat.add_zero]
    | succ k =>
      rw [List.getElem?_cons_succ] at found
      have next : sector + (last + 1) + k * (last + 1) = sector + (k + 1) * (last + 1) := by
        rw [Nat.add_mul, Nat.one_mul]
        omega
      rw [ih (fun other member => uniform other (List.mem_cons_of_mem first member)) nodup found, next]

end Serve

/-- The back end fills the pages of the request that was handed to it with the sectors that it asks for. -/
def Serves (disk : Nat → UInt8) (w : World) (handed : Machine) (slot : Nat) : Prop :=
  (w.wait handed).pages = handed.pages ∧
    (w.wait handed).memory = serveRead disk handed.frames (handed.entries slot).segments
      (handed.entries slot).sectorNumber handed.memory

/-- Pages from the allocator are apart from a buffer in use. -/
structure World.Allocates (w : World) (buf size : Nat) : Prop where
  aligned : w.alloc % pageSize = 0
  apart : buf + size ≤ w.alloc ∨ w.alloc + 2 ^ getOrder size * pageSize ≤ buf

def Machine.load (m : Machine) (address : Nat) : UInt8 := m.pages.load pageSize m.memory address

section Read
variable {disk : Nat → UInt8} {w : World} {m : Machine} {pages address buf size j : Nat} {done : Done}

theorem Granted.segments {handed : Machine} (granted : Granted w m pages address size handed) :
    (handed.entries m.slot).segments =
      (List.range (fullPages size + 1)).map fun k => ⟨w.grant k, 0, lastSect size⟩ := by
  unfold RingRequest.segments
  rw [granted.count]
  apply List.map_congr_left
  intro k member
  exact granted.seg k (Nat.le_of_lt_succ (List.mem_range.mp member))

theorem page_of_transfer (aligned : pages % pageSize = 0) :
    (pages + j) / pageSize = pages / pageSize + j / pageSize ∧ (pages + j) % pageSize = j % pageSize := by
  unfold pageSize at *
  omega

theorem Granted.frame_eq {handed : Machine} (granted : Granted w m pages address size handed)
    (aligned : pages % pageSize = 0) {k : Nat} (page : k ≤ fullPages size) :
    handed.frames (w.grant k) = m.pages.frame (pages / pageSize + k) := by
  rw [granted.frame k page, Machine.virtToMfn, (page_of_transfer aligned).1,
    Nat.mul_div_cancel k (by decide : 0 < pageSize)]

/-- The back end has put the sectors of the device in the pages of the transfer. -/
theorem Granted.served {handed : Machine} (granted : Granted w m pages address size handed)
    (serves : Serves disk w handed m.slot) (aligned : pages % pageSize = 0)
    (sector : address % sectorSize = 0) (whole : size % sectorSize = 0) (less : j < size) :
    (w.wait handed).load (pages + j) = disk (address + j) := by
  obtain ⟨map, memory⟩ := serves
  have page : j / pageSize ≤ fullPages size := by
    unfold fullPages
    exact Nat.div_le_div_right (by omega)
  have sectors : j % pageSize < (lastSect size + 1) * sectorSize ∧
      (address / sectorSize + j / pageSize * (lastSect size + 1)) * sectorSize + j % pageSize = address + j := by
    unfold lastSect byteOfInt
    split
    · rename_i none
      have within := fullPages_eq_zero.mp none
      have first : j / pageSize = 0 := Nat.div_eq_of_lt (by omega)
      rw [first, Nat.zero_mul]
      unfold sectorSize pageSize at *
      omega
    · unfold sectorsPerPage sectorSize pageSize at *
      omega
  have nodup : ((handed.entries m.slot).segments.map (handed.frames ·.gref)).Nodup := by
    rw [granted.segments, List.map_map]
    apply List.Nodup.map_on _ List.nodup_range
    intro a first b second same
    have least := List.mem_range.mp first
    have other := List.mem_range.mp second
    change handed.frames (w.grant a) = handed.frames (w.grant b) at same
    rw [granted.frame_eq aligned (by omega), granted.frame_eq aligned (by omega)] at same
    have index := m.pages.injective same
    omega
  have uniform : ∀ seg ∈ (handed.entries m.slot).segments, seg.firstSect = 0 ∧ seg.lastSect = lastSect size := by
    intro seg member
    rw [granted.segments] at member
    obtain ⟨k, _, rfl⟩ := List.mem_map.mp member
    exact ⟨rfl, rfl⟩
  have found : (handed.entries m.slot).segments[j / pageSize]? =
      some ⟨w.grant (j / pageSize), 0, lastSect size⟩ := by
    rw [granted.segments, List.getElem?_map, List.getElem?_range (by omega)]
    rfl
  unfold Machine.load PageMap.load
  rw [map, granted.map, memory, (page_of_transfer aligned).1, (page_of_transfer aligned).2,
    ← granted.frame_eq aligned page, serveRead_segment uniform nodup found sectors.1, granted.sector, sectors.2]

/-- Other pages are left alone. -/
theorem Granted.served_other {handed : Machine} (granted : Granted w m pages address size handed)
    (serves : Serves disk w handed m.slot) (aligned : pages % pageSize = 0) {a : Nat}
    (apart : ∀ k ≤ fullPages size, a / pageSize ≠ pages / pageSize + k) :
    (w.wait handed).load a = handed.load a := by
  obtain ⟨map, memory⟩ := serves
  unfold Machine.load PageMap.load
  rw [map, granted.map, memory]
  apply serveRead_other
  intro seg member same
  rw [granted.segments] at member
  obtain ⟨k, less, rfl⟩ := List.mem_map.mp member
  have page := Nat.le_of_lt_succ (List.mem_range.mp less)
  rw [granted.frame_eq aligned page] at same
  exact apart k page (m.pages.injective same)

/-- A read whose request was placed, after the wait. -/
theorem blkRead_placed (ran : blkRead w m address buf size = .ok done) (placed : done.err = 0) :
    done.handed.memory = m.memory ∧
      (done.machine = if buf % pageSize ≠ 0 then
        { w.wait done.handed with
          memory := (w.wait done.handed).pages.copy pageSize (w.wait done.handed).memory buf w.alloc
            (size - pageSize * fullPages size) }
      else w.wait done.handed) ∧
      done.result =
        if done.machine.run.ioState w.request = .doneSuccess then ((size / sectorSize : Nat) : Int) else -1 := by
  obtain ⟨_, handed, err, io, ends⟩ := blkRead_cases ran
  rcases ends with ⟨failed, rfl⟩ | ⟨zero, machine, waited, rfl⟩
  · exact absurd placed failed
  · rw [zero] at io
    refine ⟨(Machine.blkDoIo_placed io).2.2.1, ?_, rfl⟩
    dsimp only
    rw [waited]
    by_cases bounces : buf % pageSize ≠ 0
    · have pages : w.pagesFor buf = w.alloc := if_pos bounces
      have left : (transferSplit w.alloc size).size = _ := transfer_splits.left
      rw [if_pos bounces, if_pos bounces, pages, left]
    · rw [if_neg bounces, if_neg bounces]

/-- Without an id a read fails. -/
theorem blkRead_success (ran : blkRead w m address buf size = .ok done) (success : done.result ≠ -1) :
    done.err = 0 := by
  obtain ⟨_, handed, err, _, ends⟩ := blkRead_cases ran
  rcases ends with ⟨_, rfl⟩ | ⟨zero, _, _, rfl⟩
  · exact absurd rfl success
  · exact zero

/-- The bytes of a transfer within its pages. -/
theorem World.Allocates.page_bytes (allocates : w.Allocates buf size) (less : j < size) :
    w.alloc + j < buf ∨ buf + size ≤ w.alloc + j := by
  obtain ⟨_, apart⟩ := allocates
  have enough : fullPages size < 2 ^ getOrder size := Nat.lt_size_self _
  unfold fullPages pageSize at *
  omega

theorem World.Allocates.page_ne (allocates : w.Allocates buf size) (less : j < size) {k : Nat}
    (page : k ≤ fullPages size) : (buf + j) / pageSize ≠ w.alloc / pageSize + k := by
  obtain ⟨aligned, apart⟩ := allocates
  have enough : fullPages size < 2 ^ getOrder size := Nat.lt_size_self _
  unfold pageSize at *
  omega

theorem blkRead_aligned (aligned : buf % pageSize = 0) (few : size ≤ maxPagesPerRequest * pageSize)
    (ran : blkRead w m address buf size = .ok done) (placed : done.err = 0)
    (serves : Serves disk w done.handed m.slot) (less : j < size) :
    done.machine.load (buf + j) = disk (address + j) := by
  have handed : Handed w m address buf size .read done := transfer_handed ran
  have granted := handed.granted placed few
  have pages : w.pagesFor buf = buf := if_neg (not_not.mpr aligned)
  obtain ⟨_, machine, _⟩ := blkRead_placed ran placed
  rw [if_neg (not_not.mpr aligned)] at machine
  rw [pages] at granted
  rw [machine]
  exact granted.served serves aligned handed.aligned.1 handed.aligned.2 less

section Bounce
variable (bounces : buf % pageSize ≠ 0) (allocates : w.Allocates buf size)
  (few : size ≤ maxPagesPerRequest * pageSize) (ran : blkRead w m address buf size = .ok done)
  (placed : done.err = 0) (serves : Serves disk w done.handed m.slot)
include bounces allocates few ran placed serves

/-- What is copied behind the wait is the length of the last page, from the first. -/
theorem blkRead_copied (less : j < size - pageSize * fullPages size) :
    done.machine.load (buf + j) = disk (address + j) := by
  have handed : Handed w m address buf size .read done := transfer_handed ran
  have granted := handed.granted placed few
  have pages : w.pagesFor buf = w.alloc := if_pos bounces
  obtain ⟨_, machine, _⟩ := blkRead_placed ran placed
  rw [if_pos bounces] at machine
  rw [pages] at granted
  have different : ∀ i < size - pageSize * fullPages size, ∀ l < size - pageSize * fullPages size,
      w.alloc + i ≠ buf + l := fun i first l second same => by
    have within := allocates.page_bytes (Nat.lt_of_lt_of_le first (Nat.sub_le _ _))
    omega
  rw [machine]
  apply (PageMap.load_copy less different).trans
  exact granted.served serves allocates.aligned handed.aligned.1 handed.aligned.2
    (Nat.lt_of_lt_of_le less (Nat.sub_le _ _))

theorem blkRead_kept (less : j < size) (beyond : size - pageSize * fullPages size ≤ j) :
    done.machine.load (buf + j) = m.load (buf + j) := by
  have handed : Handed w m address buf size .read done := transfer_handed ran
  have granted := handed.granted placed few
  have pages : w.pagesFor buf = w.alloc := if_pos bounces
  obtain ⟨memory, machine, _⟩ := blkRead_placed ran placed
  rw [if_pos bounces] at machine
  rw [pages] at granted
  rw [machine]
  apply (PageMap.load_copy_outside fun i first same => by omega).trans
  apply (granted.served_other serves allocates.aligned fun k page => allocates.page_ne less page).trans
  unfold Machine.load
  rw [memory, granted.map]

end Bounce

/-- A read that succeeds leaves the bytes of the device in the buffer exactly when this is
aligned, or has them already from where the copy ends. -/
theorem blk_read_bytes_iff (few : size ≤ maxPagesPerRequest * pageSize)
    (allocates : buf % pageSize ≠ 0 → w.Allocates buf size) (ran : blkRead w m address buf size = .ok done)
    (success : done.result ≠ -1) (serves : Serves disk w done.handed m.slot) :
    (∀ j < size, done.machine.load (buf + j) = disk (address + j)) ↔
      buf % pageSize = 0 ∨
        ∀ j < size, size - pageSize * fullPages size ≤ j → m.load (buf + j) = disk (address + j) := by
  have placed := blkRead_success ran success
  by_cases aligned : buf % pageSize = 0
  · exact ⟨fun _ => Or.inl aligned, fun _ j less => blkRead_aligned aligned few ran placed serves less⟩
  · have apart := allocates aligned
    constructor
    · intro all
      refine Or.inr fun j less beyond => ?_
      rw [← blkRead_kept aligned apart few ran placed serves less beyond]
      exact all j less
    · rintro (other | rest) j less
      · exact absurd other aligned
      · by_cases beyond : size - pageSize * fullPages size ≤ j
        · rw [blkRead_kept aligned apart few ran placed serves less beyond]
          exact rest j less beyond
        · exact blkRead_copied aligned apart few ran placed serves (Nat.lt_of_not_le beyond)

end Read

/-- The back end answers the first request with the bytes of the device. -/
def servingWorld (disk : Nat → UInt8) : World where
  alloc := idleWorld.alloc
  request := 0
  behind := fun _ => 0
  grant := idleWorld.grant
  distinct := idleWorld.distinct
  wait := fun handed => { handed with
    run := { handed.run with ioState := fun _ => .doneSuccess }
    memory := serveRead disk handed.frames (handed.entries 0).segments (handed.entries 0).sectorNumber
      handed.memory }

/-- A call of it that succeeds. -/
theorem servingWorld_reads (disk : Nat → UInt8) (address buf size : Nat)
    (aligned : address % sectorSize = 0 ∧ size % sectorSize = 0)
    (fits : ulongAdd (address / sectorSize)
      (ulongOfInt (((size - pageSize * fullPages size) / sectorSize : Nat) - 1)) ≤ ulongOfInt 1000) :
    ∃ done, blkRead (servingWorld disk) newMachine address buf size = .ok done ∧ done.result ≠ -1 ∧ done.err = 0 ∧
      Serves disk (servingWorld disk) done.handed newMachine.slot := by
  have free : initBuffers 0 ≠ 0 := by decide
  obtain ⟨done, ran⟩ : ∃ done, transfer .read (servingWorld disk) newMachine address buf size = .ok done :=
    transfer_returns aligned fits
  have placed := (transfer_handed ran).placed_iff.mpr free
  obtain ⟨_, machine, result⟩ := blkRead_placed ran placed
  have success : done.machine.run.ioState (servingWorld disk).request = .doneSuccess := by
    rw [machine]
    split <;> rfl
  rw [if_pos success] at result
  refine ⟨done, ran, ?_, placed, rfl, rfl⟩
  have sectors : (0 : Int) ≤ (size / sectorSize : Nat) := Int.natCast_nonneg _
  intro failed
  rw [failed] at result
  rw [← result] at sectors
  exact absurd sectors (by decide)

/-- Two pages into an aligned buffer. -/
theorem blk_read_bytes_iff_aligned :
    ∃ done, blkRead (servingWorld fun _ => 1) newMachine 0 8192 8192 = .ok done ∧
      ∀ j < 8192, done.machine.load (8192 + j) = 1 := by
  obtain ⟨done, ran, success, _, serves⟩ :=
    servingWorld_reads (fun _ => 1) 0 8192 8192 (by decide) (by decide)
  have bytes := (blk_read_bytes_iff (by decide) (fun bounces => absurd rfl bounces) ran success serves).mpr
    (Or.inl rfl)
  exact ⟨done, ran, bytes⟩

/-- The same into an unaligned one: the second page is not copied. -/
theorem unaligned_read_incomplete :
    ∃ done, blkRead (servingWorld fun _ => 1) newMachine 0 100 8192 = .ok done ∧ done.result ≠ -1 ∧
      Serves (fun _ => 1) (servingWorld fun _ => 1) done.handed newMachine.slot ∧
        ¬∀ j < 8192, done.machine.load (100 + j) = 1 := by
  obtain ⟨done, ran, success, placed, serves⟩ :=
    servingWorld_reads (fun _ => 1) 0 100 8192 (by decide) (by decide)
  have allocates : (servingWorld fun _ => 1).Allocates 100 8192 := ⟨by decide, Or.inl (by decide)⟩
  refine ⟨done, ran, success, serves, fun all => ?_⟩
  have kept := blkRead_kept (by decide) allocates (by decide) ran placed serves (j := 4096) (by decide) (by decide)
  rw [all 4096 (by decide)] at kept
  exact absurd kept (by decide)

end Stardust.Blkfront
