import Stardust.Mm.Bitmap

/-! # The page allocator

`mm.c` keeps one run of page frames, split into a small region below
`first_bulk_page` and a bulk region above it, and scans the bitmap for free
runs from two cached hints.  When the bulk region is exhausted it asks the
hypervisor to populate memory holes. -/
set_option autoImplicit false
namespace Stardust.Mm

open Stardust.Lib

def pageSize : Nat := 4096

/-- `VIRT_START` is `&_text`, which the linker script puts at address 0. -/
def virtStart : Nat := 0

def toVirt (phys : Nat) : Nat := ulongAdd phys virtStart

/-- `PFN_PHYS` -/
def pfnPhys (pfn : Nat) : Nat := pfn * pageSize % 2 ^ 64

def pfnToVirt (pfn : Nat) : Nat := toVirt (pfnPhys pfn)

def virtToPfn (pointer : Nat) : Nat := ulongSub pointer virtStart / pageSize

structure MemoryHole where
  startPfn : Nat
  endPfn : Nat
  deriving DecidableEq

structure PageAllocator where
  /-- the address in `alloc_bitmap`, and the words found from there on -/
  allocBitmapAddress : Nat
  allocBitmap : Bitmap
  firstAllocPage : Nat
  endAllocPage : Nat
  maxEndAllocPage : Nat
  firstFreePage : Nat
  firstBulkPage : Nat
  firstFreeBulkPage : Nat
  numFreePages : Nat
  numFreeBulkPages : Nat
  memoryHoleList : List MemoryHole
  inIncreaseMemory : Bool
  /-- frames that `pfn_alloc_alloc` took for page tables; nothing gives them back -/
  pageTableFrames : List Nat
  /-- how often the hypervisor has been asked for memory -/
  reservations : Nat

def PageAllocator.allocated (mm : PageAllocator) (page : Nat) : Bool :=
  allocatedInMap mm.allocBitmap page

def bulkAllocation : Nat := 512

def isBulk (n : Nat) : Bool := bulkAllocation ≤ n

/-! ## Searching the bitmap -/

/-- `next_free`; its `int` parameter is compared with `end_alloc_page` as an
`unsigned long`. -/
def nextFreeLoop (mm : PageAllocator) : Nat → Int → Int
  | 0, page => page
  | fuel + 1, page =>
    if ulongOfInt page < mm.endAllocPage then
      if !mm.allocated (ulongOfInt page) then page
      else nextFreeLoop mm fuel (Int.bmod (page + 1) (2 ^ 32))
    else page

def nextFree (mm : PageAllocator) (page : Int) : Int := nextFreeLoop mm mm.endAllocPage page

/-- The inner loop `while (nn > 1 && npage < end_page)`: the `nn` it ends with,
and the allocated page it stopped at, if that is what ended it. -/
def extendRun (mm : PageAllocator) (endPage : Nat) : Nat → Nat → Nat × Option Nat
  | 0, _ => (0, none)
  | 1, _ => (1, none)
  | nn + 2, npage =>
    if npage < endPage then
      if !mm.allocated npage then extendRun mm endPage (nn + 1) (npage + 1)
      else (nn + 2, some npage)
    else (nn + 2, none)

/-- The loop `while (page < end_page)`. -/
def scan (mm : PageAllocator) (endPage n : Nat) : Nat → Nat → Option Nat
  | 0, _ => none
  | fuel + 1, page =>
    if page < endPage then
      if !mm.allocated page then
        match extendRun mm endPage n (page + 1) with
        | (1, _) => some page
        | (_, some npage) => scan mm endPage n fuel (npage + 1)
        | (_, none) => scan mm endPage n fuel (page + 1)
      else scan mm endPage n fuel (page + 1)
    else none

def endPageOf (mm : PageAllocator) (isBulkAlloc : Bool) : Nat :=
  if isBulkAlloc then mm.endAllocPage else mm.firstBulkPage

def startPageOf (mm : PageAllocator) (isBulkAlloc : Bool) : Nat :=
  if isBulkAlloc then mm.firstFreeBulkPage else mm.firstFreePage

def search (mm : PageAllocator) (n : Nat) (isBulkAlloc : Bool) : Option Nat :=
  scan mm (endPageOf mm isBulkAlloc) n (endPageOf mm isBulkAlloc - startPageOf mm isBulkAlloc)
    (startPageOf mm isBulkAlloc)

/-- What `_allocate_pages` does once it has found a run at `page`. -/
def claimPages (mm : PageAllocator) (page n : Nat) (isBulkAlloc : Bool) : PageAllocator :=
  let after := ulongOfInt (nextFree mm (intOfUlong (page + n)))
  let hinted :=
    if isBulkAlloc then
      { mm with
        numFreeBulkPages := ulongSub mm.numFreeBulkPages n
        firstFreeBulkPage := if page = mm.firstFreeBulkPage then after else mm.firstFreeBulkPage }
    else
      { mm with firstFreePage := if page = mm.firstFreePage then after else mm.firstFreePage }
  { hinted with
    numFreePages := ulongSub mm.numFreePages n
    allocBitmap := mapAlloc mm.allocBitmap page n }

/-! ## Growing into a memory hole -/

/-- What the hypervisor and the page tables answer to the `call`-th request for
`nrPages` pages: how many extents were populated, how many page-table frames
`build_pagetable` asks for, and whether it finds a machine frame for each page. -/
structure Hypervisor where
  populatePhysmap : (call nrPages : Nat) → Int
  populated_le : ∀ call nrPages, populatePhysmap call nrPages ≤ nrPages
  pageTableFrames : (call nrPages : Nat) → Nat
  mapped : (call nrPages : Nat) → Bool

/-- The page-table frames taken by `build_pagetable` through `pfn_alloc_alloc`,
each by an `allocate_pages(1, PAGE_FRAME_VM)` of its own. -/
def takeFrames (allocateOne : PageAllocator → Except Halt (PageAllocator × Nat)) :
    Nat → PageAllocator → Except Halt (PageAllocator × Bool)
  | 0, mm => .ok (mm, true)
  | count + 1, mm => do
    let (mm, va) ← allocateOne mm
    if va = 0 then .ok (mm, false)
    else
      let taken := { mm with pageTableFrames := virtToPfn va :: mm.pageTableFrames }
      takeFrames allocateOne count taken

def increaseReservation (hv : Hypervisor)
    (allocateOne : PageAllocator → Except Halt (PageAllocator × Nat))
    (mm : PageAllocator) (nrPages : Nat) (hole : MemoryHole) :
    Except Halt (PageAllocator × Int) :=
  if ulongSub hole.endPfn hole.startPfn < nrPages then .error .bug
  else
    let call := mm.reservations
    let rc := hv.populatePhysmap call nrPages
    let mm := { mm with reservations := call + 1 }
    if 0 < rc then do
      let (mm, built) ← takeFrames allocateOne (hv.pageTableFrames call nrPages) mm
      .ok (mm, if built && hv.mapped call nrPages then rc else 0)
    else .ok (mm, rc)

def canIncrease : List MemoryHole → Nat → Nat
  | [], _ => 0
  | hole :: rest, n =>
    let size := ulongSub hole.endPfn hole.startPfn
    if n ≤ size then n else canIncrease rest (ulongSub n size)

/-- `rc` pages were populated at the start of the first hole, of size `holeSize`. -/
def absorbHole (mm : PageAllocator) (hole : MemoryHole) (rest : List MemoryHole)
    (holeSize rc : Nat) : Except Halt PageAllocator := do
  let freed ← mapFree mm.allocBitmap hole.startPfn rc
  .ok { mm with
    allocBitmap := freed
    endAllocPage :=
      if mm.endAllocPage < hole.startPfn + rc then hole.startPfn + rc else mm.endAllocPage
    numFreePages := ulongAdd mm.numFreePages rc
    numFreeBulkPages := ulongAdd mm.numFreeBulkPages rc
    memoryHoleList :=
      if holeSize = rc then rest else { hole with startPfn := hole.startPfn + rc } :: rest }

/-- The loop `while (n > 0)` of `increase_memory_holding_lock`; every turn that
does not break populates at least one page, so `n` turns suffice. -/
def growLoop (hv : Hypervisor) (allocateOne : PageAllocator → Except Halt (PageAllocator × Nat)) :
    Nat → PageAllocator → Nat → Nat → Except Halt (PageAllocator × Nat)
  | fuel, mm, n, result =>
    if n = 0 then .ok (mm, result)
    else
      match fuel with
      | 0 => .error .fuel
      | fuel + 1 =>
        match mm.memoryHoleList with
        | [] => .error .fault
        | hole :: rest => do
          let holeSize := ulongSub hole.endPfn hole.startPfn
          let (mm, rc) ←
            increaseReservation hv allocateOne mm (if holeSize ≤ n then holeSize else n) hole
          if 0 < rc then do
            let mm ← absorbHole mm hole rest holeSize rc.toNat
            growLoop hv allocateOne fuel mm (ulongSub n rc.toNat) (result + rc.toNat)
          else .ok (mm, result)

def increaseMemoryHoldingLock (hv : Hypervisor)
    (allocateOne : PageAllocator → Except Halt (PageAllocator × Nat))
    (mm : PageAllocator) (n : Nat) : Except Halt (PageAllocator × Nat) :=
  if mm.inIncreaseMemory then .ok ({ mm with inIncreaseMemory := false }, 0)
  else
    let mm := { mm with inIncreaseMemory := true }
    if canIncrease mm.memoryHoleList n ≠ 0 then do
      let (mm, result) ← growLoop hv allocateOne n mm n 0
      .ok ({ mm with inIncreaseMemory := false }, result)
    else .ok ({ mm with inIncreaseMemory := false }, 0)

/-! ## Allocation and release -/

/-- One search of a region: the address of the run claimed there, or `NULL`. -/
def tryClaim (mm : PageAllocator) (n : Nat) (isBulkAlloc : Bool) : PageAllocator × Nat :=
  match search mm n isBulkAlloc with
  | some page => (claimPages mm page n isBulkAlloc, pfnToVirt page)
  | none => (mm, 0)

/-- The loop `while (result == 0)` of `_allocate_pages`. -/
def allocateLoop (grow : PageAllocator → Except Halt (PageAllocator × Nat)) (n : Nat) :
    Nat → Bool → PageAllocator → Except Halt (PageAllocator × Nat)
  | 0, _, _ => .error .fuel
  | fuel + 1, isBulkAlloc, mm =>
    let claimed := tryClaim mm n isBulkAlloc
    if 0 < claimed.2 then .ok claimed
    else if !isBulkAlloc then allocateLoop grow n fuel true claimed.1
    else do
      let (mm, grown) ← grow claimed.1
      if grown = 0 then .ok (mm, 0) else allocateLoop grow n fuel true mm

/-- `_allocate_pages`; `n` is a C `int`, here one that is not negative.  The
lock is released while the hypervisor is asked for memory, and the page-table
frames needed for the new pages come from a nested call. -/
def allocatePagesWithin (hv : Hypervisor) : Nat → PageAllocator → Nat →
    Except Halt (PageAllocator × Nat)
  | 0, _, _ => .error .fuel
  | fuel + 1, mm, n => do
    let allocateOne := fun mm => allocatePagesWithin hv fuel mm 1
    let (mm, result) ← allocateLoop (fun mm => increaseMemoryHoldingLock hv allocateOne mm n) n
      (fuel + 1) (isBulk n) mm
    if result = 0 && !isBulk n then .error .crash else .ok (mm, result)

def holePages (holes : List MemoryHole) : Nat :=
  (holes.map fun hole => ulongSub hole.endPfn hole.startPfn).sum

/-- Every turn of the loop but the first two populates a page of some hole. -/
def allocatePages (hv : Hypervisor) (mm : PageAllocator) (n : Nat) :
    Except Halt (PageAllocator × Nat) :=
  allocatePagesWithin hv (holePages mm.memoryHoleList + 3) mm n

/-- The hint and bulk count that `deallocate_pages` adjusts. -/
def releaseHint (mm : PageAllocator) (page n : Nat) : PageAllocator :=
  if isBulk n then
    { mm with
      firstFreeBulkPage := if page < mm.firstFreeBulkPage then page else mm.firstFreeBulkPage
      numFreeBulkPages := ulongAdd mm.numFreeBulkPages n }
  else
    { mm with firstFreePage := if page < mm.firstFreePage then page else mm.firstFreePage }

def deallocatePages (mm : PageAllocator) (pointer n : Nat) : Except Halt PageAllocator := do
  let page := virtToPfn pointer
  let mm := releaseHint mm page n
  let freed ← mapFree mm.allocBitmap page n
  .ok { mm with
    allocBitmap := freed
    numFreePages := ulongAdd mm.numFreePages n }

/-! ## Boot -/

def bitsPerPage : Nat := 4096 * 8

def defaultSmallPercentage : Nat := 2

/-- `init_page_allocator`; `maxReservation` is the hypervisor's answer to
`XENMEM_maximum_reservation` and `memory` what the words from `pfn_to_virt(min)`
on hold beforehand. -/
def initPageAllocator (memory : Bitmap) (maxReservation min max : Nat) :
    Except Halt PageAllocator := do
  let bitmapPages := maxReservation / bitsPerPage
  let firstAllocPage := ulongAdd min bitmapPages
  let bulk := ulongAdd firstAllocPage (maxReservation * defaultSmallPercentage % 2 ^ 64 / 100)
  let firstBulkPage := if max < bulk then max else bulk
  let numFreePages := ulongSub max firstAllocPage
  let cleared := fillWords (BitVec.allOnes 64) (bitmapPages * 4096 / 8) 0 memory
  let freed ← mapFree cleared firstAllocPage numFreePages
  .ok {
    allocBitmapAddress := pfnToVirt min
    allocBitmap := freed
    firstAllocPage := firstAllocPage
    endAllocPage := max
    maxEndAllocPage := maxReservation
    firstFreePage := firstAllocPage
    firstBulkPage := firstBulkPage
    firstFreeBulkPage := firstBulkPage
    numFreePages := numFreePages
    numFreeBulkPages := ulongSub max firstBulkPage
    memoryHoleList := []
    inIncreaseMemory := false
    pageTableFrames := []
    reservations := 0 }

end Stardust.Mm
