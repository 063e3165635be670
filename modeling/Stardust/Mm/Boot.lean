import Stardust.Mm.AllocatorSafety

/-! # The bitmap that `init_page_allocator` leaves

The bitmap takes `max_end_alloc_page / BITS_PER_PAGE` pages, rounded down.  The
words of the frames past the last whole page of bits lie behind those pages, in
the first frames that the allocator hands out. -/
set_option autoImplicit false
namespace Stardust.Mm

open Stardust.Lib

def bitmapPages (maxReservation : Nat) : Nat := maxReservation / bitsPerPage

/-- The address of the word that holds the bit of `pfn`. -/
def storageWord (mm : PageAllocator) (pfn : Nat) : Nat :=
  mm.allocBitmapAddress + pfn / pagesPerMapword * 8

/-! ## What the memset and `map_free` leave -/

theorem allocatedInMap_fillWords (memory : Bitmap) (pages page : Nat) :
    allocatedInMap (fillWords (BitVec.allOnes 64) (pages * 4096 / 8) 0 memory) page =
      (decide (page < pages * bitsPerPage) || allocatedInMap memory page) := by
  have inside := Nat.mod_lt page (by decide : 64 > 0)
  rw [allocatedInMap_eq_bitAt, allocatedInMap_eq_bitAt, bitAt_fillWords, BitVec.getLsbD_allOnes,
    decide_eq_true inside]
  have words : (0 ≤ page / 64 ∧ page / 64 < 0 + pages * 4096 / 8) ↔ page < pages * bitsPerPage := by
    unfold bitsPerPage
    omega
  by_cases covered : page < pages * bitsPerPage
  · rw [if_pos (words.mpr covered), decide_eq_true covered, Bool.true_or]
  · rw [if_neg (words.not.mpr covered), decide_eq_false covered, Bool.false_or]

/-- When the request wraps inside one word, the mask keeps every bit. -/
theorem mapFree_sameWord (map : Bitmap) {first last : Nat} (wraps : last < first)
    (limit : first < 2 ^ 64) (sameWord : first / 64 = last / 64) :
    ∃ freed, mapFree map first (ulongSub last first) = .ok freed ∧
      ∀ page, allocatedInMap freed page = allocatedInMap map page := by
  have total : ulongAdd first (ulongSub last first) = last := by
    unfold ulongAdd ulongSub
    omega
  have startOff := Nat.mod_lt first (by decide : 64 > 0)
  have endOff := Nat.mod_lt last (by decide : 64 > 0)
  simp only [allocatedInMap_eq_bitAt, mapFree, total, offset_eq_mod, pagesPerMapword, if_pos sameWord]
  refine ⟨_, rfl, fun page => ?_⟩
  have pageOff := Nat.mod_lt page (by decide : 64 > 0)
  have kept : (maskFrom (last % 64) ||| maskBelow (first % 64)).getLsbD (page % 64) = true := by
    rw [BitVec.getLsbD_or, getLsbD_maskFrom endOff, getLsbD_maskBelow startOff,
      decide_eq_true pageOff]
    simp only [Bool.true_and, Bool.or_eq_true, decide_eq_true_eq]
    omega
  rw [bitAt_andWord, kept, Bool.or_true, Bool.and_true]

theorem mapFree_runaway (map : Bitmap) {first last : Nat} (limit : first < 2 ^ 64)
    (wraps : last / 64 < first / 64) : mapFree map first (ulongSub last first) = .error .fault := by
  have total : ulongAdd first (ulongSub last first) = last := by
    unfold ulongAdd ulongSub
    omega
  simp only [mapFree, total, pagesPerMapword, if_neg (Nat.ne_of_gt wraps), if_pos wraps]

/-! ## The allocator after boot -/

structure Booted (memory : Bitmap) (maxReservation min max : Nat) (mm : PageAllocator) : Prop where
  address : mm.allocBitmapAddress = pfnToVirt min
  first : mm.firstAllocPage = min + bitmapPages maxReservation
  final : mm.endAllocPage = max
  hint : mm.firstFreePage = mm.firstAllocPage
  bulkHint : mm.firstFreeBulkPage = mm.firstBulkPage
  bulkBounds : mm.firstBulkPage ≤ max ∧
    (mm.firstAllocPage ≤ max → mm.firstAllocPage ≤ mm.firstBulkPage)
  counted : mm.numFreePages = ulongSub max mm.firstAllocPage
  noHoles : mm.memoryHoleList = []
  noFrames : mm.pageTableFrames = []
  marked : ∀ page, mm.allocated page =
    ((decide (page < bitmapPages maxReservation * bitsPerPage) || allocatedInMap memory page) &&
      !decide (min + bitmapPages maxReservation ≤ page ∧ page < max))

theorem regionSplit_bounds {first bulk max : Nat} (after : first ≤ bulk) :
    (if max < bulk then max else bulk) ≤ max ∧
      (first ≤ max → first ≤ if max < bulk then max else bulk) := by
  constructor
  · split <;> omega
  · intro ordered
    split <;> omega

section Boot
variable (memory : Bitmap) {maxReservation min max : Nat}

theorem initPageAllocator_ok (start : min + bitmapPages maxReservation < 2 ^ 63)
    (limit : max < 2 ^ 64)
    (returns : min + bitmapPages maxReservation ≤ max ∨
      (min + bitmapPages maxReservation) / 64 = max / 64) :
    ∃ mm, initPageAllocator memory maxReservation min max = .ok mm ∧
      Booted memory maxReservation min max mm := by
  obtain ⟨freed, run, cleared⟩ : ∃ freed,
      mapFree (fillWords (BitVec.allOnes 64) (bitmapPages maxReservation * 4096 / 8) 0 memory)
        (min + bitmapPages maxReservation) (ulongSub max (min + bitmapPages maxReservation)) =
          .ok freed ∧
      ∀ page, allocatedInMap freed page =
        ((decide (page < bitmapPages maxReservation * bitsPerPage) || allocatedInMap memory page) &&
          !decide (min + bitmapPages maxReservation ≤ page ∧ page < max)) := by
    by_cases ordered : min + bitmapPages maxReservation ≤ max
    · have size : ulongSub max (min + bitmapPages maxReservation) =
          max - (min + bitmapPages maxReservation) := ulongSub_eq ordered limit
      have total : min + bitmapPages maxReservation +
          (max - (min + bitmapPages maxReservation)) = max := by omega
      rw [size]
      obtain ⟨freed, run, cleared⟩ := mapFree_ok
        (fillWords (BitVec.allOnes 64) (bitmapPages maxReservation * 4096 / 8) 0 memory)
        (total.symm ▸ limit)
      refine ⟨freed, run, fun page => ?_⟩
      simp only [cleared, allocatedInMap_fillWords, InRange, total]
    · obtain ⟨freed, run, kept⟩ := mapFree_sameWord
        (fillWords (BitVec.allOnes 64) (bitmapPages maxReservation * 4096 / 8) 0 memory)
        (show max < min + bitmapPages maxReservation by omega) (by omega)
        (returns.resolve_left ordered)
      refine ⟨freed, run, fun page => ?_⟩
      have none : ¬(min + bitmapPages maxReservation ≤ page ∧ page < max) := by omega
      rw [kept, allocatedInMap_fillWords, decide_eq_false none, Bool.not_false, Bool.and_true]
  have first : ulongAdd min (maxReservation / bitsPerPage) = min + bitmapPages maxReservation :=
    ulongAdd_eq (show min + bitmapPages maxReservation < 2 ^ 64 by omega)
  have share : maxReservation * defaultSmallPercentage % 2 ^ 64 / 100 < 2 ^ 58 := by
    have wrapped := Nat.mod_lt (maxReservation * defaultSmallPercentage) (by decide : 2 ^ 64 > 0)
    omega
  have bulk : ulongAdd (min + bitmapPages maxReservation)
      (maxReservation * defaultSmallPercentage % 2 ^ 64 / 100) =
        min + bitmapPages maxReservation +
          maxReservation * defaultSmallPercentage % 2 ^ 64 / 100 := ulongAdd_eq (by omega)
  simp only [initPageAllocator, first, bulk]
  simp only [bitmapPages] at run
  simp only [bitmapPages, run]
  exact ⟨_, rfl, rfl, rfl, rfl, rfl, rfl, regionSplit_bounds (Nat.le_add_right ..), rfl, rfl, rfl,
    cleared⟩

theorem initPageAllocator_fault (start : min + bitmapPages maxReservation < 2 ^ 63)
    (wraps : max / 64 < (min + bitmapPages maxReservation) / 64) :
    initPageAllocator memory maxReservation min max = .error .fault := by
  have first : ulongAdd min (maxReservation / bitsPerPage) = min + maxReservation / bitsPerPage :=
    ulongAdd_eq (show min + bitmapPages maxReservation < 2 ^ 64 by omega)
  simp only [initPageAllocator, first]
  simp only [bitmapPages] at start wraps
  rw [mapFree_runaway _ (by omega) wraps]
  rfl

end Boot

/-! ## Where the bitmap lies -/

/-- `init_page_allocator` returns; the word of every frame lies in the pages set
aside for the bitmap, which the allocator never hands out; and the frames up to
`max` read free, those from there on allocated. -/
def BitmapPlaced (memory : Bitmap) (maxReservation min max : Nat) : Prop :=
  ∃ mm, initPageAllocator memory maxReservation min max = .ok mm ∧
    (∀ pfn, pfn < maxReservation → pfnToVirt min ≤ storageWord mm pfn ∧
      storageWord mm pfn + 8 ≤ pfnToVirt min + bitmapPages maxReservation * pageSize) ∧
    (∀ address, pfnToVirt min ≤ address →
      address < pfnToVirt min + bitmapPages maxReservation * pageSize →
      ∀ pfn, mm.firstAllocPage ≤ pfn → pfn < maxReservation → virtToPfn address ≠ pfn) ∧
    (∀ pfn, mm.firstAllocPage ≤ pfn → pfn < mm.endAllocPage → mm.allocated pfn = false) ∧
    (∀ pfn, mm.endAllocPage ≤ pfn → pfn < maxReservation → mm.allocated pfn = true)

section Placement
variable {memory : Bitmap} {maxReservation min max : Nat}

theorem Booted.storageWord_eq {mm : PageAllocator}
    (booted : Booted memory maxReservation min max mm) (pfn : Nat) :
    storageWord mm pfn = pfnToVirt min + pfn / 64 * 8 := by
  rw [storageWord, booted.address]

/-- The word of the last frame is inside only if the bits fill whole pages. -/
theorem words_inside_iff (base : Nat) (nonempty : 0 < maxReservation) :
    (∀ pfn, pfn < maxReservation → base ≤ base + pfn / 64 * 8 ∧
      base + pfn / 64 * 8 + 8 ≤ base + bitmapPages maxReservation * pageSize) ↔
    maxReservation % bitsPerPage = 0 := by
  unfold bitmapPages pageSize bitsPerPage
  constructor
  · intro inside
    have last := (inside (maxReservation - 1) (by omega)).2
    omega
  · intro whole pfn within
    omega

theorem not_bitmapPlaced_of_partialPage (nonempty : 0 < maxReservation)
    (rounded : maxReservation % bitsPerPage ≠ 0) :
    ¬BitmapPlaced memory maxReservation min max := by
  rintro ⟨mm, run, inside, _⟩
  have address : mm.allocBitmapAddress = pfnToVirt min := by
    obtain ⟨freed, _, built⟩ := Halt.bind_eq_ok.mp run
    rw [← Except.ok.inj built]
  refine rounded ((words_inside_iff (pfnToVirt min) nonempty).mp fun pfn within => ?_)
  have word := inside pfn within
  rw [storageWord, address] at word
  exact word

theorem Booted.placed {mm : PageAllocator} (booted : Booted memory maxReservation min max mm)
    (ordered : min < max) (bound : max ≤ maxReservation) (addressable : maxReservation ≤ maxPages)
    (whole : maxReservation % bitsPerPage = 0)
    (run : initPageAllocator memory maxReservation min max = .ok mm) :
    BitmapPlaced memory maxReservation min max := by
  have covered : bitmapPages maxReservation * bitsPerPage = maxReservation :=
    Nat.div_mul_cancel (Nat.dvd_of_mod_eq_zero whole)
  have base : pfnToVirt min = min * pageSize := pfnToVirt_eq (by omega)
  refine ⟨mm, run, fun pfn within => ?_, fun address low high pfn start within same => ?_,
    fun pfn low high => ?_, fun pfn low within => ?_⟩
  · rw [booted.storageWord_eq]
    exact (words_inside_iff (pfnToVirt min) (by omega)).mpr whole pfn within
  · rw [booted.first] at start
    rw [base] at low high
    unfold maxPages at addressable
    have last : min + bitmapPages maxReservation < 2 ^ 52 := by omega
    have total : min * pageSize + bitmapPages maxReservation * pageSize < 2 ^ 64 := by
      unfold pageSize
      omega
    have page : virtToPfn address = address / pageSize := by
      rw [virtToPfn, virtStart, ulongSub_eq (Nat.zero_le _) (by omega), Nat.sub_zero]
    rw [page] at same
    unfold pageSize at low high same
    omega
  · rw [booted.first] at low
    rw [booted.final] at high
    rw [booted.marked, decide_eq_true (And.intro low high)]
    exact Bool.and_false _
  · rw [booted.final] at low
    have beyond : ¬(min + bitmapPages maxReservation ≤ pfn ∧ pfn < max) := by omega
    rw [booted.marked, covered, decide_eq_true within, decide_eq_false beyond]
    rfl

/-- The bitmap is placed right exactly when `max_end_alloc_page` is a whole number
of bitmap pages and the first allocatable page does not pass the word of `max`. -/
theorem bitmapPlaced_iff (memory : Bitmap) {maxReservation min max : Nat} (ordered : min < max)
    (bound : max ≤ maxReservation) (addressable : maxReservation ≤ maxPages) :
    BitmapPlaced memory maxReservation min max ↔
      maxReservation % bitsPerPage = 0 ∧
        (min + maxReservation / bitsPerPage ≤ max ∨
          (min + maxReservation / bitsPerPage) / 64 = max / 64) := by
  have start : min + bitmapPages maxReservation < 2 ^ 63 := by
    unfold maxPages at addressable
    unfold bitmapPages bitsPerPage
    omega
  have limit : max < 2 ^ 64 := by
    unfold maxPages at addressable
    omega
  constructor
  · intro placed
    refine ⟨?_, ?_⟩
    · by_contra rounded
      exact not_bitmapPlaced_of_partialPage (by omega) rounded placed
    · by_contra runaway
      have wraps : max / 64 < (min + bitmapPages maxReservation) / 64 := by
        unfold bitmapPages
        omega
      obtain ⟨mm, run, _⟩ := placed
      rw [initPageAllocator_fault memory start wraps] at run
      contradiction
  · rintro ⟨whole, returns⟩
    obtain ⟨mm, run, booted⟩ := initPageAllocator_ok memory start limit returns
    exact booted.placed ordered bound addressable whole run

end Placement

/-- With 40000 pages of memory the bitmap has one page, 32768 bits. -/
theorem bitmap_of_partialPage_misplaced : ¬BitmapPlaced (fun _ => 0#64) 40000 1000 40000 :=
  not_bitmapPlaced_of_partialPage (by decide) (by decide)

theorem bitmapPlaced_wholePages : BitmapPlaced (fun _ => 0#64) 65536 1000 40000 :=
  (bitmapPlaced_iff _ (by decide) (by decide) (by decide)).mpr
    ⟨by decide, Or.inl (by decide)⟩

end Stardust.Mm
