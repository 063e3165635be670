import Stardust.Kernel
import Stardust.Mm.PageAllocator

/-! # The small-block heap

`xmalloc.c` keeps a `struct xmalloc_hdr` of three words before every block: its
size, and the links of `freelist`, both `NULL` while the block is in use.  Blocks
of a page or more get pages of their own; smaller ones are carved out of single
pages and coalesced when they are freed. -/
set_option autoImplicit false
namespace Stardust.Xmalloc

open Stardust.Mm (pageSize isBulk)

/-- Memory by the byte address of its 8-byte words. -/
abbrev Mem := Nat → Nat

def Mem.store (mem : Mem) (address value : Nat) : Mem := Function.update mem address value

/-- `sizeof(struct xmalloc_hdr)` -/
abbrev headerSize : Nat := 24

/-- `&hdr->freelist` -/
abbrev node (hdr : Nat) : Nat := hdr + 8

/-- `list_entry(pointer, struct xmalloc_hdr, freelist)` -/
def listEntry (pointer : Nat) : Nat := ulongSub pointer 8

/-! ## `list_head` in memory: `next` at the node, `prev` in the word after it -/

def Mem.insertBetween (mem : Mem) (new before after : Nat) : Mem :=
  (((mem.store (after + 8) new).store new after).store (new + 8) before).store before new

/-- `list_add`, with the `LIST_BUG_ON` that follows the insertion. -/
def Mem.listAdd (mem : Mem) (new head : Nat) : Except Halt Mem :=
  let linked := mem.insertBetween new head (mem head)
  if linked new = new then .error .bug else .ok linked

def Mem.listDel (mem : Mem) (entry : Nat) : Mem :=
  (mem.store (mem entry + 8) (mem (entry + 8))).store (mem (entry + 8)) (mem entry)

/-- `memcpy` between 8-aligned buffers that do not overlap. -/
def Mem.memcpy (mem : Mem) (result p n : Nat) : Mem := fun address =>
  if result ≤ address ∧ address < result + n then
    if address + 8 ≤ result + n then mem (p + (address - result))
    else
      -- the last word is copied in part
      let bits := 8 * (result + n - address)
      mem address / 2 ^ bits * 2 ^ bits + mem (p + (address - result)) % 2 ^ bits
  else mem address

/-- `memset` of an 8-aligned buffer. -/
def Mem.memset (mem : Mem) (x c n : Nat) : Mem := fun address =>
  let fill := c * 0x0101010101010101
  if x ≤ address ∧ address < x + n then
    if address + 8 ≤ x + n then fill
    else
      let bits := 8 * (x + n - address)
      mem address / 2 ^ bits * 2 ^ bits + fill % 2 ^ bits
  else mem address

/-- The byte at an address; words are little-endian. -/
def Mem.byte (mem : Mem) (address : Nat) : Nat :=
  mem (address - address % 8) / 2 ^ (8 * (address % 8)) % 2 ^ 8

/-! ## The heap and its pages -/

/-- A run of pages that the page allocator handed to the heap. -/
structure Run where
  base : Nat
  count : Nat
  deriving DecidableEq

def Run.bytes (run : Run) : Nat := run.count * pageSize

structure Heap where
  /-- the address of the list head `freelist` -/
  freelist : Nat
  mem : Mem
  /-- the runs the heap holds now, has ever taken and has given back -/
  held : List Run
  taken : List Run
  given : List Run

def Heap.take (heap : Heap) (run : Run) : Heap :=
  { heap with held := run :: heap.held, taken := run :: heap.taken }

def Heap.give (heap : Heap) (run : Run) : Heap :=
  { heap with held := heap.held.erase run, given := run :: heap.given }

/-- `allocate_pages(n)`, where `page` is what it finds for an `n` of one or more, and 0 if
that is nothing.  Then it crashes unless the `n` pages are a bulk allocation. -/
def allocatePages (heap : Heap) (n : Int) (page : Nat) : Except Halt (Heap × Nat) :=
  if n ≤ 0 then .error .crash
  else if page = 0 then
    if isBulk n.toNat then .ok (heap, 0) else .error .crash
  else .ok (heap.take ⟨page, n.toNat⟩, page)

/-- `freelist` has no more nodes than headers fit the pages held. -/
def traversalBound (heap : Heap) : Nat := (heap.held.map Run.bytes).sum / headerSize + 1

/-! ## Allocation -/

def alignUp (size align : Nat) : Nat :=
  let sum := ulongSub (ulongAdd size align) 1
  sum - sum % align

/-- The header of a block that is handed out: its size, and no links. -/
def Mem.publish (mem : Mem) (hdr size : Nat) : Mem :=
  ((mem.store hdr size).store (node hdr + 8) 0).store (node hdr) 0

def maybeSplit (heap : Heap) (hdr size block : Nat) : Except Halt Heap := do
  let leftover := ulongSub block size
  if 2 * headerSize ≤ leftover then
    let extra := ulongAdd hdr size
    let mem ← (heap.mem.store extra leftover).listAdd (node extra) heap.freelist
    .ok { heap with mem := mem.publish hdr size }
  else .ok { heap with mem := heap.mem.publish hdr block }

def xmallocNewPage (heap : Heap) (size page : Nat) : Except Halt (Heap × Nat) := do
  let (heap, hdr) ← allocatePages heap 1 page
  if hdr = 0 then .ok (heap, 0)
  else
    let heap ← maybeSplit heap hdr size pageSize
    .ok (heap, hdr + headerSize)

def xmallocWholePages (heap : Heap) (size page : Nat) : Except Halt (Heap × Nat) := do
  let asize := alignUp size pageSize
  let (heap, hdr) ← allocatePages heap (intOfUlong (asize / pageSize)) page
  if hdr = 0 then .ok (heap, 0)
  else
    .ok ({ heap with mem := heap.mem.publish hdr asize }, hdr + headerSize)

/-- The first entry of `freelist` that is large enough. -/
def findEntry (mem : Mem) (freelist size : Nat) : Nat → Nat → Except Halt (Option Nat)
  | 0, _ => .error .fuel
  | fuel + 1, pos =>
    if pos = freelist then .ok none
    else if mem (listEntry pos) < size then findEntry mem freelist size fuel (mem pos)
    else .ok (some (listEntry pos))

/-- The header-inclusive size of a request, aligned for a header. -/
def requestSize (asize : Nat) : Nat := alignUp (ulongAdd asize headerSize) 8

/-- `xmalloc_align`; the code makes no use of its second argument. -/
def xmallocAlign (heap : Heap) (asize page : Nat) : Except Halt (Heap × Nat) := do
  let size := requestSize asize
  if pageSize ≤ size then xmallocWholePages heap size page
  else
    let found ← findEntry heap.mem heap.freelist size (traversalBound heap) (heap.mem heap.freelist)
    match found with
    | some i =>
      let unlinked := heap.mem.listDel (node i)
      let heap ← maybeSplit { heap with mem := unlinked } i size (unlinked i)
      .ok (heap, i + headerSize)
    | none => xmallocNewPage heap size page

/-- `xmalloc_array_align`; `UINT_MAX` is `2^32 - 1`. -/
def xmallocArrayAlign (heap : Heap) (size num page : Nat) : Except Halt (Heap × Nat) :=
  if size ≠ 0 ∧ (2 ^ 32 - 1) / size < num then .ok (heap, 0)
  else xmallocAlign heap (ulongMul size num) page

def xcalloc (heap : Heap) (n size page : Nat) : Except Halt (Heap × Nat) := do
  let total := ulongMul size n
  let (heap, x) ← xmallocAlign heap total page
  if x ≠ 0 then .ok ({ heap with mem := heap.mem.memset x 0 total }, x)
  else .ok (heap, x)

/-! ## Release -/

/-- Two addresses that `PAGE_MASK` sends to one page. -/
abbrev samePage (a b : Nat) : Prop := a / pageSize = b / pageSize

/-- One turn of the loop of `xfree`: `hdr` takes in a neighbour below, then one
above, the address compared being the one `hdr` had when the turn began. -/
def coalesce (mem : Mem) (hdr i : Nat) : Mem × Nat :=
  if samePage i hdr then
    let lower : Mem × Nat :=
      if ulongAdd i (mem i) = hdr then
        let unlinked := mem.listDel (node i)
        (unlinked.store i (ulongAdd (unlinked i) (unlinked hdr)), i)
      else (mem, hdr)
    if ulongAdd hdr (lower.1 lower.2) = i then
      let unlinked := lower.1.listDel (node i)
      (unlinked.store lower.2 (ulongAdd (unlinked lower.2) (unlinked i)), lower.2)
    else lower
  else (mem, hdr)

/-- `list_for_each_entry_safe`: the successor is read before the turn. -/
def coalesceLoop (freelist : Nat) : Nat → Mem → Nat → Nat → Nat → Except Halt (Mem × Nat)
  | 0, _, _, _, _ => .error .fuel
  | fuel + 1, mem, hdr, pos, tmp =>
    if pos = freelist then .ok (mem, hdr)
    else
      let turn := coalesce mem hdr (listEntry pos)
      coalesceLoop freelist fuel turn.1 turn.2 tmp (turn.1 tmp)

def xfree (heap : Heap) (p : Nat) : Except Halt Heap := do
  if p = 0 then .ok heap
  else
    let hdr := ulongSub p headerSize
    if ¬samePage p hdr then .error .fault
    else if heap.mem (node hdr) ≠ 0 ∨ heap.mem (node hdr + 8) ≠ 0 then .ok heap
    else if pageSize ≤ heap.mem hdr then
      .ok (heap.give ⟨hdr, (intOfUlong (heap.mem hdr / pageSize)).toNat⟩)
    else
      let first := heap.mem heap.freelist
      let (mem, hdr) ← coalesceLoop heap.freelist (traversalBound heap) heap.mem hdr first
        (heap.mem first)
      if mem hdr = pageSize then
        if hdr % pageSize ≠ 0 then .error .fault
        else .ok ({ heap with mem := mem }.give ⟨hdr, 1⟩)
      else
        let mem ← mem.listAdd (node hdr) heap.freelist
        .ok { heap with mem := mem }

/-! ## Reallocation -/

/-- The `int psize` of `xrealloc`. -/
def payloadSize (mem : Mem) (hdr : Nat) : Int := intOfUlong (ulongSub (mem hdr) headerSize)

/-- `xrealloc`; `psize >= size` compares as `unsigned long`, and page 0, where a
`NULL` result would be copied to, is not mapped. -/
def xrealloc (heap : Heap) (p size page : Nat) : Except Halt (Heap × Nat) := do
  if p = 0 then xmallocAlign heap size page
  else
    let psize := ulongOfInt (payloadSize heap.mem (ulongSub p headerSize))
    if size ≤ psize then .ok (heap, p)
    else
      let (heap, result) ← xmallocAlign heap size page
      if result = 0 ∧ psize ≠ 0 then .error .fault
      else
        let heap ← xfree { heap with mem := heap.mem.memcpy result p psize } p
        .ok (heap, result)

/-- `xmalloc_at`, which is `xrealloc` without an alignment. -/
def xmallocAt (heap : Heap) (p size page : Nat) : Except Halt (Heap × Nat) := do
  if p = 0 then xmallocAlign heap size page
  else
    let psize := ulongOfInt (payloadSize heap.mem (ulongSub p headerSize))
    if size ≤ psize then .ok (heap, p)
    else
      let (heap, result) ← xmallocAlign heap size page
      if result = 0 ∧ psize ≠ 0 then .error .fault
      else
        let heap ← xfree { heap with mem := heap.mem.memcpy result p psize } p
        .ok (heap, result)

end Stardust.Xmalloc
