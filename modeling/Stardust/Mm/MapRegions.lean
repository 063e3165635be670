import Mathlib.Data.Nat.Size
import Stardust.Mm.AllocatorTermination
import Stardust.Mm.Completeness

/-! # Requests for a length

`mmap` and `munmap` of `lib.c` and `xfree_at` of `xmalloc.c` take a length and turn it into
an order, and `alloc_pages` and `free_pages` shift it back into a number of pages.  The
shift is one of `int`s, which lengths above `2^43` bytes do not survive. -/
set_option autoImplicit false
namespace Stardust.Mm

open Stardust.Lib

/-! ## The code -/

/-- The loop `for (order = 0; size; order++) size >>= 1;`. -/
def orderLoop : Nat → Nat → Nat → Nat
  | 0, _, order => order
  | fuel + 1, size, order => if size = 0 then order else orderLoop fuel (size / 2) (order + 1)

def getOrder (size : Nat) : Nat := orderLoop 64 (ulongSub size 1 / pageSize) 0

/-- `1 << order`; the processor takes the count modulo 32, and a set sign bit is the least
`int`. -/
def intShift (order : Nat) : Int := intOfUlong (2 ^ (order % 32))

/-- `_allocate_pages` of any `int`.  No run has a length below 1, `is_bulk` compares `int`s,
and `increase_memory_holding_lock` takes an `unsigned long`. -/
def allocateIntPages (hv : Hypervisor) (mm : PageAllocator) (n : Int) :
    Except Halt (PageAllocator × Nat) := do
  let fuel := holePages mm.memoryHoleList + 2
  let allocateOne := fun mm => allocatePagesWithin hv fuel mm 1
  let (mm, result) ← allocateLoop (fun mm => increaseMemoryHoldingLock hv allocateOne mm (ulongOfInt n)) n.toNat
    (fuel + 1) (isBulk n.toNat) mm
  if result = 0 && !isBulk n.toNat then .error .crash else .ok (mm, result)

/-- `deallocate_pages` of any `int`. -/
def deallocateIntPages (mm : PageAllocator) (pointer : Nat) (n : Int) : Except Halt PageAllocator := do
  let page := virtToPfn pointer
  let mm := releaseHint mm page n.toNat
  let freed ← mapFree mm.allocBitmap page (ulongOfInt n)
  .ok { mm with
    allocBitmap := freed
    numFreePages := ulongAdd mm.numFreePages (ulongOfInt n) }

def allocPages (hv : Hypervisor) (mm : PageAllocator) (order : Nat) : Except Halt (PageAllocator × Nat) :=
  allocateIntPages hv mm (intShift order)

def freePagesOf (mm : PageAllocator) (pointer order : Nat) : Except Halt PageAllocator :=
  deallocateIntPages mm pointer (intShift order)

def mmap (hv : Hypervisor) (mm : PageAllocator) (length : Nat) : Except Halt (PageAllocator × Nat) :=
  allocPages hv mm (getOrder length)

def munmap (mm : PageAllocator) (start length : Nat) : Except Halt PageAllocator :=
  freePagesOf mm start (getOrder length)

def xfreeAt (mm : PageAllocator) (start length : Nat) : Except Halt PageAllocator :=
  freePagesOf mm start (getOrder length)

/-! ## Orders -/

section Orders
variable {size order length : Nat}

theorem orderLoop_eq {fuel : Nat} (enough : Nat.size size ≤ fuel) :
    orderLoop fuel size order = order + Nat.size size := by
  induction fuel generalizing size order with
  | zero =>
    rw [orderLoop]
    omega
  | succ fuel ih =>
    rw [orderLoop]
    by_cases zero : size = 0
    · rw [if_pos zero, zero, Nat.size_zero]
      rfl
    · have halves := Nat.bit_bodd_div2 size
      rw [Nat.div2_val] at halves
      have longer : Nat.size (Nat.bit size.bodd (size / 2)) = Nat.size (size / 2) + 1 :=
        Nat.size_bit (by rwa [halves])
      rw [halves] at longer
      rw [if_neg zero, ih (by omega), longer]
      omega

theorem getOrder_eq (positive : 1 ≤ length) (ulong : length < 2 ^ 64) :
    getOrder length = Nat.size ((length - 1) / pageSize) := by
  have few : Nat.size ((length - 1) / pageSize) ≤ 64 := by
    rw [Nat.size_le]
    unfold pageSize
    omega
  rw [getOrder, ulongSub_eq positive ulong, orderLoop_eq few, Nat.zero_add]

/-- The order is the least one whose pages hold the length. -/
theorem getOrder_le_iff (positive : 1 ≤ length) (ulong : length < 2 ^ 64) :
    getOrder length ≤ order ↔ length ≤ 2 ^ order * pageSize := by
  rw [getOrder_eq positive ulong, Nat.size_le, Nat.div_lt_iff_lt_mul (by decide)]
  omega

theorem intShift_eq (small : order < 31) : intShift order = (2 ^ order : Nat) := by
  have bound : 2 ^ order ≤ 2 ^ 30 := Nat.pow_le_pow_right (by decide) (by omega)
  rw [intShift, Nat.mod_eq_of_lt (by omega), intOfUlong_eq (by omega)]

theorem intShift_negative : intShift 31 = -2 ^ 31 := by decide

/-- From 32 on, orders are shifted as if they were 32 less. -/
theorem intShift_wraps (large : 32 ≤ order) (bound : order ≤ 52) :
    ∃ n : Nat, intShift order = n ∧ 1 ≤ n ∧ n ≤ 2 ^ 20 := by
  refine ⟨2 ^ (order - 32), ?_, Nat.one_le_two_pow, Nat.pow_le_pow_right (by decide) (by omega)⟩
  rw [← intShift_eq (by omega), intShift, intShift, show order % 32 = (order - 32) % 32 by omega]

end Orders

/-! ## The pages of a length -/

section Pages
variable {hv : Hypervisor} {mm after : PageAllocator} {live : List Block} {n address order : Nat}

theorem allocateIntPages_natCast (fits : n < 2 ^ 64) : allocateIntPages hv mm n = allocatePages hv mm n := by
  rw [allocateIntPages, ulongOfInt_natCast fits]
  rfl

theorem deallocateIntPages_natCast (fits : n < 2 ^ 64) :
    deallocateIntPages mm address n = deallocatePages mm address n := by
  rw [deallocateIntPages, ulongOfInt_natCast fits]
  rfl

/-- No run of a negative number of pages is found, however far the memory grows. -/
theorem allocateLoop_none {grow : PageAllocator → Except Halt (PageAllocator × Nat)} {fuel : Nat} {isBulkAlloc : Bool}
    (run : allocateLoop grow 0 fuel isBulkAlloc mm = .ok (after, address)) : address = 0 := by
  induction fuel generalizing isBulkAlloc mm with
  | zero => cases run
  | succ fuel ih =>
    have missed : search mm 0 isBulkAlloc = none := by
      cases found : search mm 0 isBulkAlloc with
      | none => rfl
      | some page => exact absurd (search_sound mm found).2.1 (by decide)
    rw [allocateLoop, tryClaim_none missed] at run
    simp only [Nat.lt_irrefl, if_false] at run
    split at run
    · exact ih run
    · obtain ⟨⟨mid, grown⟩, _, rest⟩ := Halt.bind_eq_ok.mp run
      simp only at rest
      split at rest
      · cases Except.ok.inj rest
        rfl
      · exact ih rest

theorem allocateIntPages_negative {n : Int} (negative : n ≤ 0)
    (run : allocateIntPages hv mm n = .ok (after, address)) : address = 0 := by
  obtain ⟨⟨mid, value⟩, loopRun, rest⟩ := Halt.bind_eq_ok.mp run
  rw [show n.toNat = 0 by omega] at loopRun rest
  have none := allocateLoop_none loopRun
  simp only at rest
  split at rest
  · cases rest
  · cases Except.ok.inj rest
    exact none

/-- The caller of a request holds the block at the address that it got. -/
structure Took (mm : PageAllocator) (live : List Block) (address : Nat) (block : Block) : Prop where
  start : address = pfnToVirt block.page
  held : Guarded mm (block :: blocksOf mm live)

theorem allocatePages_address (run : allocatePages hv mm n = .ok (after, address)) :
    pfnToVirt (virtToPfn address) = address := by
  obtain ⟨⟨mid, value⟩, loopRun, rest⟩ := Halt.bind_eq_ok.mp run
  simp only at rest
  split at rest
  · cases rest
  · cases Except.ok.inj rest
    rcases allocateLoop_claims loopRun with rfl | ⟨_, page, _, _, rfl, _⟩
    · rfl
    · simp only [pfnToVirt, virtToPfn, toVirt, pfnPhys, virtStart, ulongAdd, ulongSub, pageSize]
      omega

theorem allocatePages_took (guarded : Guarded mm (blocksOf mm live))
    (run : allocatePages hv mm n = .ok (after, address)) (some_ : address ≠ 0) :
    Took after live address ⟨virtToPfn address, n⟩ := by
  have kept := guarded_preserved.allocatePages hv n guarded run
  rw [granted, if_neg some_] at kept
  exact ⟨(allocatePages_address run).symm, kept⟩

theorem Took.page {block : Block} (took : Took mm live address block) : block.page = virtToPfn address := by
  obtain ⟨some_, _, inside⟩ := took.held.inside block (List.mem_cons_self ..)
  have addressable := took.held.addressable
  rw [took.start, virtToPfn_pfnToVirt (by omega)]

/-- The address and the bitmap tell the block. -/
theorem Took.count_le {b c : Block} (first : Took mm live address b) (second : Took mm live address c) :
    b.count ≤ c.count := by
  by_contra longer
  have start := first.page.trans second.page.symm
  obtain ⟨_, low, high⟩ := first.held.inside b (List.mem_cons_self ..)
  have taken := (first.held.exact (c.page + c.count) (by omega) (by omega)).mpr
    ⟨b, List.mem_cons_self .., by omega⟩
  obtain ⟨d, member, inRange⟩ := (second.held.exact (c.page + c.count) (by omega) (by omega)).mp taken
  rcases List.mem_cons.mp member with rfl | other
  · omega
  · have apart := (List.pairwise_cons.mp first.held.apart).1 d other
    unfold Block.Apart at apart
    omega

/-- A block that is given back is free again, and no other page is touched. -/
theorem deallocatePages_exact {block : Block} {others : List Block} (guarded : Guarded mm (block :: others)) :
    ∃ given, deallocatePages mm (pfnToVirt block.page) block.count = .ok given ∧ Guarded given others ∧
      ∀ page, given.allocated page = (mm.allocated page && !decide (InRange block.page block.count page)) := by
  obtain ⟨some_, low, high⟩ := guarded.inside block (List.mem_cons_self ..)
  have addressable := guarded.addressable
  have page : virtToPfn (pfnToVirt block.page) = block.page := virtToPfn_pfnToVirt (by omega)
  unfold maxPages at addressable
  have fits : virtToPfn (pfnToVirt block.page) + block.count < 2 ^ 64 := by omega
  obtain ⟨given, run, marked, _⟩ := deallocatePages_ok mm _ fits
  rw [page] at marked
  exact ⟨given, run, guarded.release run, marked⟩

end Pages

/-! ## A mapping and its release -/

/-- If `mmap` returns an address, the caller got a block there that holds the length, and
while it holds that block, `munmap` and `xfree_at` of the length give exactly it back. -/
def WholeMapping (hv : Hypervisor) (mm : PageAllocator) (live : List Block) (length : Nat) : Prop :=
  ∀ after address, mmap hv mm length = .ok (after, address) → address ≠ 0 →
    ∃ block, Took after live address block ∧ length ≤ block.count * pageSize ∧
      ∀ later others, Guarded later (block :: others) →
        ∃ given, munmap later address length = .ok given ∧ xfreeAt later address length = .ok given ∧
          Guarded given others ∧
          ∀ page, given.allocated page = (later.allocated page && !decide (InRange block.page block.count page))

section Mappings
variable {hv : Hypervisor} {mm : PageAllocator} {live : List Block} {length : Nat}

theorem wholeMapping_of_le (guarded : Guarded mm (blocksOf mm live)) (positive : 1 ≤ length)
    (small : length ≤ 2 ^ 43) : WholeMapping hv mm live length := by
  intro after address run some_
  have order : getOrder length ≤ 31 := (getOrder_le_iff positive (by omega)).mpr (by unfold pageSize; omega)
  unfold mmap allocPages at run
  by_cases last : getOrder length = 31
  · rw [last, intShift_negative] at run
    exact absurd (allocateIntPages_negative (by decide) run) some_
  · have shifted : intShift (getOrder length) = (2 ^ getOrder length : Nat) := intShift_eq (by omega)
    have fits : 2 ^ getOrder length < 2 ^ 64 := Nat.pow_lt_pow_right (by decide) (by omega)
    rw [shifted, allocateIntPages_natCast fits] at run
    have took := allocatePages_took guarded run some_
    refine ⟨_, took, (getOrder_le_iff positive (by omega)).mp (Nat.le_refl _), ?_⟩
    intro later others held
    obtain ⟨given, freed, kept, marked⟩ := deallocatePages_exact held
    have release : freePagesOf later address (getOrder length) = .ok given := by
      rw [freePagesOf, shifted, deallocateIntPages_natCast fits, took.start]
      exact freed
    exact ⟨given, release, release, kept, marked⟩

end Mappings

/-- `2 ^ 20` free pages, all for bulk requests. -/
def gigabytes : PageAllocator where
  allocBitmapAddress := 4096
  allocBitmap := Function.update (fun _ => 0#64) 0 1#64
  firstAllocPage := 1
  endAllocPage := 2 ^ 20 + 1
  maxEndAllocPage := 2 ^ 20 + 1
  firstFreePage := 1
  firstBulkPage := 1
  firstFreeBulkPage := 1
  numFreePages := 2 ^ 20
  numFreeBulkPages := 2 ^ 20
  memoryHoleList := []
  inIncreaseMemory := false
  pageTableFrames := []
  reservations := 0

theorem gigabytes_allocated (page : Nat) : gigabytes.allocated page = false ↔ 1 ≤ page := by
  rw [PageAllocator.allocated, allocatedInMap_eq_bitAt]
  change (Function.update (fun _ => 0#64) 0 1#64 (page / 64)).getLsbD (page % 64) = false ↔ 1 ≤ page
  by_cases first : page / 64 = 0
  · have place : page % 64 = page := by omega
    rw [first, place, Function.update_self, BitVec.getLsbD_one]
    simp
    omega
  · rw [Function.update_of_ne first, BitVec.getLsbD_zero]
    simp only [true_iff]
    omega

theorem gigabytes_fresh : Fresh gigabytes where
  positive := by decide
  ordered := by decide
  addressable := by decide
  regions := by decide
  holes := Or.inl rfl
  marked page _ := gigabytes_allocated page
  counted := rfl
  noFrames := rfl

theorem gigabytes_guarded : Guarded gigabytes (blocksOf gigabytes []) := gigabytes_fresh.guarded

/-- Up to `2 ^ 20` pages are served at once. -/
theorem gigabytes_serves {n : Nat} (positive : 1 ≤ n) (few : n ≤ 2 ^ 20) :
    ∃ after address, allocatePages exhaustedHypervisor gigabytes n = .ok (after, address) ∧ address ≠ 0 := by
  cases found : search gigabytes n true with
  | none =>
    have none := search_complete gigabytes positive found 1 (Nat.le_refl 1) (by change 1 + n ≤ 2 ^ 20 + 1; omega)
    exact absurd (fun page inside => (gigabytes_allocated page).mpr inside.1) none
  | some page =>
    obtain ⟨low, _, high, _⟩ := search_sound gigabytes found
    have address : 0 < pfnToVirt page := by
      change 1 ≤ page at low
      change page + n ≤ 2 ^ 20 + 1 at high
      exact pfnToVirt_pos low (by unfold maxPages; omega)
    have claimed : tryClaim gigabytes n true = (claimPages gigabytes page n true, pfnToVirt page) := by
      rw [tryClaim, found]
    refine ⟨claimPages gigabytes page n true, pfnToVirt page, ?_, Nat.ne_of_gt address⟩
    rw [← claimed]
    exact allocatePages_serves exhaustedHypervisor (by simp) (fun _ _ => rfl) (by rwa [claimed])

theorem not_wholeMapping {length : Nat} (large : 2 ^ 43 < length) (ulong : length < 2 ^ 64) :
    ¬WholeMapping exhaustedHypervisor gigabytes [] length := by
  intro whole
  have low : ¬getOrder length ≤ 31 := by
    rw [getOrder_le_iff (by omega) ulong]
    unfold pageSize
    omega
  have high : getOrder length ≤ 52 := (getOrder_le_iff (by omega) ulong).mpr (by unfold pageSize; omega)
  obtain ⟨n, shifted, positive, few⟩ := intShift_wraps (by omega) high
  obtain ⟨after, address, run, some_⟩ := gigabytes_serves positive few
  have mapped : mmap exhaustedHypervisor gigabytes length = .ok (after, address) := by
    rw [mmap, allocPages, shifted, allocateIntPages_natCast (by omega)]
    exact run
  obtain ⟨block, took, covers, _⟩ := whole after address mapped some_
  have small := took.count_le (allocatePages_took gigabytes_guarded run some_)
  unfold pageSize at covers
  dsimp only at small
  omega

/-- Lengths up to `2 ^ 43`, and no others, get the pages they need, and give them back. -/
theorem mmap_whole_iff {length : Nat} (positive : 1 ≤ length) (ulong : length < 2 ^ 64) :
    (∀ hv mm live, Guarded mm (blocksOf mm live) → WholeMapping hv mm live length) ↔ length ≤ 2 ^ 43 := by
  constructor
  · intro all
    by_contra large
    exact not_wholeMapping (by omega) ulong (all _ _ _ gigabytes_guarded)
  · intro small hv mm live guarded
    exact wholeMapping_of_le guarded positive small

/-- A page and a byte. -/
theorem mmap_whole_iff_pages : ∃ after address, mmap exhaustedHypervisor gigabytes 4097 = .ok (after, address) ∧
    address ≠ 0 ∧ WholeMapping exhaustedHypervisor gigabytes [] 4097 := by
  have shifted : intShift (getOrder 4097) = (2 : Nat) := by decide
  obtain ⟨after, address, run, some_⟩ := gigabytes_serves (show 1 ≤ 2 by decide) (by decide)
  have whole := (mmap_whole_iff (show 1 ≤ 4097 by decide) (by decide)).mpr (by decide)
  refine ⟨after, address, ?_, some_, whole exhaustedHypervisor gigabytes [] gigabytes_guarded⟩
  rw [mmap, allocPages, shifted, allocateIntPages_natCast (by decide)]
  exact run

/-- One byte more, and the request is for a single page. -/
theorem mmap_takes_one_page :
    ¬∀ hv mm live length, Guarded mm (blocksOf mm live) → 1 ≤ length → length < 2 ^ 64 →
      WholeMapping hv mm live length := by
  intro all
  have whole := all exhaustedHypervisor gigabytes [] (2 ^ 43 + 1) gigabytes_guarded (by decide) (by decide)
  exact not_wholeMapping (by decide) (by decide) whole

end Stardust.Mm
