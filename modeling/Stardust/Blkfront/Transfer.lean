import Mathlib.Algebra.BigOperators.Group.Finset.Basic
import Mathlib.Data.Nat.Size
import Stardust.Blkfront.Driver
import Stardust.Lib.PagedMemory

/-! # Transfers between a buffer and the block device

`blk_write`, `blk_read` and `read_block` split a buffer into pages, grant them in the
segments of one request and wait for it.  There is one device, and it is ready. -/
set_option autoImplicit false
namespace Stardust.Blkfront

open Stardust.Lib

def pageSize : Nat := 4096

/-- `1 << SECTOR_BITS` -/
def sectorSize : Nat := 512

def sectorsPerPage : Nat := pageSize / sectorSize

def enomem : Int := 12

inductive Operation
  | read
  | write
  deriving DecidableEq

/-- `struct blk_request`; the ghost lists the entries of `pages` that were written. -/
structure BlkRequest where
  pages : Nat → Nat
  indexed : List Nat
  numPages : Nat
  startSector : Nat
  endSector : Int
  address : Nat
  operation : Operation

structure Segment where
  gref : Nat
  firstSect : Nat
  lastSect : Nat
  deriving DecidableEq

/-- An entry of the ring as a request; the ghost lists the segments that were written. -/
structure RingRequest where
  seg : Nat → Segment
  written : List Nat
  id : Nat
  nrSegments : Nat
  sectorNumber : Nat
  handle : Nat
  operation : Operation

/-- The driver with its device and the memory of the guest. -/
structure Machine where
  run : BlkRun
  /-- `device.sectors` -/
  sectors : Int
  /-- the requests in the entries of the ring -/
  entries : Nat → RingRequest
  /-- what each grant is for -/
  frames : Nat → Nat
  pages : PageMap
  memory : Nat → Nat → UInt8

/-- What the rest of the system does in a call. -/
structure World where
  /-- what `alloc_pages` returns -/
  alloc : Nat
  /-- the request on the stack -/
  request : Nat
  /-- what lies behind the array `pages` of the request -/
  behind : Nat → Nat
  /-- what `gnttab_grant_access` returns for each page -/
  grant : Nat → Nat
  distinct : Function.Injective grant
  /-- until the completion -/
  wait : Machine → Machine

/-! ## `blk_do_io` -/

def BlkRequest.page (req : BlkRequest) (behind : Nat → Nat) (i : Nat) : Nat :=
  if i < maxPagesPerRequest then req.pages i else behind i

def RingRequest.setSeg (entry : RingRequest) (i : Nat) (seg : Segment) : RingRequest :=
  { entry with seg := Function.update entry.seg i seg, written := entry.written ++ [i] }

/-- The loop over the pages from `i` on, of which there are `left`. -/
def fillSegments (grant : Nat → Nat) : Nat → Nat → RingRequest → RingRequest
  | 0, _, entry => entry
  | left + 1, i, entry =>
    fillSegments grant left (i + 1) (entry.setSeg i ⟨grant i, 0, sectorsPerPage - 1⟩)

/-- Conversion of an `int` to `uint8_t`. -/
def byteOfInt (a : Int) : Nat := (a % 256).toNat

/-- The entry that `blk_do_io` makes; the fields are bytes. -/
def fillRequest (grant : Nat → Nat) (req : BlkRequest) (id : Nat) (entry : RingRequest) : RingRequest :=
  let first := req.startSector % 256
  let last := byteOfInt req.endSector
  let entry := { entry with written := [] }
  let entry :=
    if req.numPages = 1 then entry.setSeg 0 ⟨grant 0, first, last⟩
    else
      let entry := entry.setSeg 0 ⟨grant 0, first, sectorsPerPage - 1⟩
      let entry := fillSegments grant (req.numPages - 1) 1 entry
      -- `i` is the number of pages here
      let i := max 1 req.numPages
      entry.setSeg i { entry.seg i with lastSect := last }
  { entry with
    id := id
    nrSegments := req.numPages % 256
    sectorNumber := req.address / sectorSize
    handle := 0x12
    operation := req.operation }

/-- The grants of the pages from the first on. -/
def grantPages (grant mfn : Nat → Nat) (frames : Nat → Nat) (numPages : Nat) : Nat → Nat :=
  (List.range numPages).foldl (fun frames i => Function.update frames (grant i) (mfn i)) frames

/-- `virt_to_mfn`; the kernel is linked at 0. -/
def Machine.virtToMfn (m : Machine) (address : Nat) : Nat := m.pages.frame (address / pageSize)

/-- The entry at `req_prod_pvt`. -/
def Machine.slot (m : Machine) : Nat := m.run.reqProdPvt % blkRingSize

def Machine.blkDoIo (m : Machine) (w : World) (req : BlkRequest) : Except Halt (Machine × Int) :=
  if m.run.ioState w.request ≠ .empty then .error .bug
  else if ulongOfInt m.sectors < ulongAdd (req.address / sectorSize) (ulongOfInt req.endSector) then .error .bug
  else
    let id := m.run.freelist 0
    let refs := (List.range req.numPages).map w.grant
    let run := Blkfront.blkDoIo m.run w.request refs (byteOfInt req.endSector)
    if id = 0 then .ok ({ m with run := run }, enomem)
    else .ok ({ m with
      run := run
      entries := Function.update m.entries m.slot (fillRequest w.grant req id (m.entries m.slot))
      frames := grantPages w.grant (fun i => m.virtToMfn (req.page w.behind i)) m.frames req.numPages }, 0)

/-! ## The calls -/

/-- The pages that a transfer is made of: the array, the entries written, the last `i` and
what is left of `size`. -/
structure Split where
  pages : Nat → Nat
  indexed : List Nat
  i : Nat
  size : Nat

/-- `while (size > PAGE_SIZE)` and the entry behind it. -/
def splitPages (pages : Nat) (array : Nat → Nat) (indexed : List Nat) (i size : Nat) : Split :=
  let array := Function.update array i (pages + i * pageSize)
  let indexed := indexed ++ [i]
  if pageSize < size then splitPages pages array indexed (i + 1) (size - pageSize)
  else ⟨array, indexed, i, size⟩
termination_by size
decreasing_by
  have page : 0 < pageSize := by decide
  omega

/-- The request for a split transfer. -/
def Split.request (split : Split) (address : Nat) (operation : Operation) : BlkRequest where
  pages := split.pages
  indexed := split.indexed
  numPages := split.i + 1
  startSector := 0
  endSector := (split.size / sectorSize : Nat) - 1
  address := address
  operation := operation

/-- `req.state = BLK_EMPTY` -/
def Machine.prepare (m : Machine) (request : Nat) : Machine :=
  { m with run := { m.run with ioState := Function.update m.run.ioState request .empty } }

/-- What a call leaves.  The logs have the pages that it took from the allocator and gave
back, by pointer and order; the other ghosts are the request and where `blk_do_io` left
the system, with its result. -/
structure Done where
  machine : Machine
  result : Int
  taken : List (Nat × Nat)
  given : List (Nat × Nat)
  req : BlkRequest
  handed : Machine
  err : Int

def getOrder (size : Nat) : Nat := Nat.size ((size - 1) / pageSize)

def blkWrite (w : World) (m : Machine) (address buf size : Nat) : Except Halt Done :=
  if address % sectorSize ≠ 0 ∨ size % sectorSize ≠ 0 then .error .bug
  else do
    let freeBuf := decide (buf % pageSize ≠ 0 ∨ size % sectorSize ≠ 0)
    let bounce := if freeBuf then [(w.alloc, getOrder size)] else []
    let pages := if freeBuf then w.alloc else buf
    let m := if freeBuf then { m with memory := m.pages.copy pageSize m.memory pages buf size } else m
    let req := (splitPages pages (fun _ => 0) [] 0 size).request address .write
    let (handed, err) ← (m.prepare w.request).blkDoIo w req
    let sectors : Int := if err ≠ 0 then -1 else (size / sectorSize : Nat)
    let m := if err ≠ 0 then handed else w.wait handed
    .ok ⟨m, if m.run.ioState w.request = .doneSuccess then sectors else -1, bounce, bounce, req, handed, err⟩

def blkRead (w : World) (m : Machine) (address buf size : Nat) : Except Halt Done :=
  if address % sectorSize ≠ 0 ∨ size % sectorSize ≠ 0 then .error .bug
  else do
    let freeBuf := decide (buf % pageSize ≠ 0 ∨ size % sectorSize ≠ 0)
    let bounce := if freeBuf then [(w.alloc, getOrder size)] else []
    let pages := if freeBuf then w.alloc else buf
    let split := splitPages pages (fun _ => 0) [] 0 size
    let req := split.request address .read
    let (handed, err) ← (m.prepare w.request).blkDoIo w req
    if err ≠ 0 then .ok ⟨handed, -1, bounce, [], req, handed, err⟩
    else
      let m := w.wait handed
      -- the loop has left `size` at what is in the last page
      let m := if freeBuf then { m with memory := m.pages.copy pageSize m.memory buf pages split.size } else m
      .ok ⟨m, if m.run.ioState w.request = .doneSuccess then (size / sectorSize : Nat) else -1, bounce, bounce, req,
        handed, err⟩

/-- `read_block`: the size is passed as the order of the pages, and `free_buf` is 0. -/
def readBlock (w : World) (m : Machine) (address size : Nat) : Except Halt Done :=
  if address % sectorSize ≠ 0 ∨ size % sectorSize ≠ 0 then .error .bug
  else do
    let buf := w.alloc
    let req := (splitPages buf (fun _ => 0) [] 0 size).request address .read
    let (handed, err) ← (m.prepare w.request).blkDoIo w req
    if err ≠ 0 then .ok ⟨handed, -1, [(buf, size)], [], req, handed, err⟩
    else
      let m := w.wait handed
      .ok ⟨m, if m.run.ioState w.request = .doneSuccess then (size / sectorSize : Nat) else -1, [(buf, size)], [],
        req, handed, err⟩

/-- The two calls with a buffer. -/
def transfer (operation : Operation) : World → Machine → Nat → Nat → Nat → Except Halt Done :=
  match operation with
  | .read => blkRead
  | .write => blkWrite

/-- The pages that are granted: the buffer's own, or the ones it bounces through. -/
def World.pagesFor (w : World) (buf : Nat) : Nat := if buf % pageSize ≠ 0 then w.alloc else buf

end Stardust.Blkfront
