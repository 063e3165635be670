import Mathlib.Data.Finset.Card
import Mathlib.Order.Interval.Finset.Nat
import Stardust.Lib.Reach
import Stardust.Mm.Search

/-! # Safety of the page allocator over whole runs

`Safe mm blocks` says that `blocks` are the allocated runs of `mm`: disjoint,
inside the allocator's range, exactly the pages the bitmap marks there, with
`num_free_pages` counting the others.  Claiming a free run, releasing a live
block and growing into the hole that adjoins the range each preserve it. -/
set_option autoImplicit false
namespace Stardust.Mm

open Stardust.Lib

structure Block where
  page : Nat
  count : Nat
  deriving DecidableEq

def Block.Apart (a b : Block) : Prop := a.page + a.count ≤ b.page ∨ b.page + b.count ≤ a.page

theorem Block.Apart.symm {a b : Block} (apart : a.Apart b) : b.Apart a := Or.symm apart

def freePages (mm : PageAllocator) : Finset Nat :=
  (Finset.Ico mm.firstAllocPage mm.endAllocPage).filter fun page => mm.allocated page = false

theorem mem_freePages (mm : PageAllocator) (page : Nat) : page ∈ freePages mm ↔
    (mm.firstAllocPage ≤ page ∧ page < mm.endAllocPage) ∧ mm.allocated page = false := by
  rw [freePages, Finset.mem_filter, Finset.mem_Ico]

/-- Pages below `2^52` have an `unsigned long` address. -/
def maxPages : Nat := 2 ^ 52

structure Safe (mm : PageAllocator) (blocks : List Block) : Prop where
  positive : 0 < mm.firstAllocPage
  ordered : mm.firstAllocPage ≤ mm.endAllocPage
  addressable : mm.endAllocPage ≤ maxPages
  regions : mm.firstBulkPage ≤ mm.endAllocPage
  holes : mm.memoryHoleList = [] ∨
    ∃ last, mm.memoryHoleList = [⟨mm.endAllocPage, last⟩] ∧ mm.endAllocPage ≤ last ∧ last ≤ maxPages
  inside : ∀ b ∈ blocks, 0 < b.count ∧ mm.firstAllocPage ≤ b.page ∧
    b.page + b.count ≤ mm.endAllocPage
  apart : blocks.Pairwise Block.Apart
  exact : ∀ page, mm.firstAllocPage ≤ page → page < mm.endAllocPage →
    (mm.allocated page = true ↔ ∃ b ∈ blocks, InRange b.page b.count page)
  counted : mm.numFreePages = (freePages mm).card

theorem Safe.perm {mm : PageAllocator} {blocks others : List Block} (safe : Safe mm blocks)
    (same : blocks.Perm others) : Safe mm others where
  positive := safe.positive
  ordered := safe.ordered
  addressable := safe.addressable
  regions := safe.regions
  holes := safe.holes
  inside b member := safe.inside b (same.mem_iff.mpr member)
  apart := (same.pairwise_iff fun apart => Block.Apart.symm apart).mp safe.apart
  exact page lower upper := by
    rw [safe.exact page lower upper]
    simp only [same.mem_iff]
  counted := safe.counted

/-- An allocator whose whole range is free. -/
theorem Safe.ofFree {mm : PageAllocator} (positive : 0 < mm.firstAllocPage)
    (ordered : mm.firstAllocPage ≤ mm.endAllocPage) (addressable : mm.endAllocPage ≤ maxPages)
    (regions : mm.firstBulkPage ≤ mm.endAllocPage)
    (holes : mm.memoryHoleList = [] ∨ ∃ last, mm.memoryHoleList = [⟨mm.endAllocPage, last⟩] ∧
      mm.endAllocPage ≤ last ∧ last ≤ maxPages)
    (free : ∀ page, mm.firstAllocPage ≤ page → page < mm.endAllocPage → mm.allocated page = false)
    (counted : mm.numFreePages = mm.endAllocPage - mm.firstAllocPage) : Safe mm [] where
  positive := positive
  ordered := ordered
  addressable := addressable
  regions := regions
  holes := holes
  inside := nofun
  apart := List.Pairwise.nil
  exact page lower upper := by
    simp [free page lower upper]
  counted := by
    have all : freePages mm = Finset.Ico mm.firstAllocPage mm.endAllocPage := by
      ext page
      rw [mem_freePages, Finset.mem_Ico]
      exact ⟨And.left, fun range => ⟨range, free page range.1 range.2⟩⟩
    rw [all, Nat.card_Ico, counted]

/-! ## Addresses -/

theorem pfnToVirt_eq {page : Nat} (addressable : page < maxPages) :
    pfnToVirt page = page * pageSize := by
  have bound : page * pageSize < 2 ^ 64 := by
    unfold maxPages at addressable
    unfold pageSize
    omega
  simp only [pfnToVirt, toVirt, pfnPhys, virtStart, ulongAdd, Nat.add_zero, Nat.mod_eq_of_lt bound]

theorem virtToPfn_pfnToVirt {page : Nat} (addressable : page < maxPages) :
    virtToPfn (pfnToVirt page) = page := by
  have bound : page * pageSize < 2 ^ 64 := by
    unfold maxPages at addressable
    unfold pageSize
    omega
  rw [pfnToVirt_eq addressable, virtToPfn, virtStart, ulongSub_eq (by omega) bound]
  exact Nat.mul_div_cancel page (by decide)

theorem pfnToVirt_pos {page : Nat} (positive : 0 < page) (addressable : page < maxPages) :
    0 < pfnToVirt page := by
  rw [pfnToVirt_eq addressable]
  exact Nat.mul_pos positive (by decide)

/-! ## The free count -/

theorem freePages_card_le (mm : PageAllocator) : (freePages mm).card ≤ mm.endAllocPage := by
  calc
    (freePages mm).card ≤ (Finset.Ico mm.firstAllocPage mm.endAllocPage).card :=
      Finset.card_filter_le _ _
    _ = mm.endAllocPage - mm.firstAllocPage := Nat.card_Ico _ _
    _ ≤ mm.endAllocPage := Nat.sub_le _ _

theorem freePages_card_add (before after : PageAllocator) (start n : Nat)
    (grown : ∀ page, page ∈ freePages after ↔ page ∈ freePages before ∨ InRange start n page)
    (new : ∀ page, InRange start n page → page ∉ freePages before) :
    (freePages after).card = (freePages before).card + n := by
  have union : freePages after = freePages before ∪ Finset.Ico start (start + n) := by
    ext page
    rw [grown, Finset.mem_union, Finset.mem_Ico]
  have disjoint : Disjoint (freePages before) (Finset.Ico start (start + n)) := by
    rw [Finset.disjoint_right]
    intro page member
    exact new page (Finset.mem_Ico.mp member)
  rw [union, Finset.card_union_of_disjoint disjoint, Nat.card_Ico]
  omega

/-! ## Claiming a free run -/

theorem Safe.apart_of_free {mm : PageAllocator} {blocks : List Block} (safe : Safe mm blocks)
    {page n : Nat} (positive : 1 ≤ n) (start : mm.firstAllocPage ≤ page)
    (free : FreeRun mm page n) (b : Block) (member : b ∈ blocks) : Block.Apart ⟨page, n⟩ b := by
  obtain ⟨nonempty, low, high⟩ := safe.inside b member
  by_contra overlap
  simp only [Block.Apart, not_or, Nat.not_le] at overlap
  have taken := (safe.exact (max page b.page) (by omega) (by omega)).mpr
    ⟨b, member, by omega⟩
  have here := free (max page b.page) (by omega)
  rw [taken] at here
  contradiction

theorem Safe.claim {mm : PageAllocator} {blocks : List Block} (safe : Safe mm blocks)
    {page n : Nat} (isBulkAlloc : Bool) (positive : 1 ≤ n) (start : mm.firstAllocPage ≤ page)
    (bound : page + n ≤ mm.endAllocPage) (free : FreeRun mm page n) :
    Safe (claimPages mm page n isBulkAlloc) (⟨page, n⟩ :: blocks) := by
  have addressable := safe.addressable
  unfold maxPages at addressable
  have marked := claimPages_allocated mm page n isBulkAlloc (by omega)
  have total : (freePages mm).card = (freePages (claimPages mm page n isBulkAlloc)).card + n := by
    refine freePages_card_add _ _ page n (fun other => ?_) (fun other inRange => ?_)
    · simp only [mem_freePages, claimPages_firstAllocPage, claimPages_endAllocPage, marked,
        Bool.or_eq_false_iff, decide_eq_false_iff_not]
      constructor
      · rintro ⟨range, unmarked⟩
        by_cases inRange : InRange page n other
        · exact Or.inr inRange
        · exact Or.inl ⟨range, unmarked, inRange⟩
      · rintro (⟨range, unmarked, _⟩ | inRange)
        · exact ⟨range, unmarked⟩
        · exact ⟨by omega, free other inRange⟩
    · rw [mem_freePages, marked, decide_eq_true inRange, Bool.or_true]
      simp
  refine ⟨?_, ?_, ?_, ?_, ?_, ?_, ?_, ?_, ?_⟩
  · simpa using safe.positive
  · simpa using safe.ordered
  · simpa using safe.addressable
  · simpa using safe.regions
  · simpa using safe.holes
  · intro b member
    simp only [claimPages_firstAllocPage, claimPages_endAllocPage]
    rcases List.mem_cons.mp member with rfl | member
    · exact ⟨positive, start, bound⟩
    · exact safe.inside b member
  · exact List.pairwise_cons.mpr ⟨safe.apart_of_free positive start free, safe.apart⟩
  · intro other low high
    rw [claimPages_firstAllocPage] at low
    rw [claimPages_endAllocPage] at high
    simp only [marked, Bool.or_eq_true, safe.exact other low high, decide_eq_true_eq,
      List.exists_mem_cons_iff]
    exact or_comm
  · have limit := freePages_card_le mm
    rw [claimPages_numFreePages, safe.counted, ulongSub_eq (by omega) (by omega)]
    omega

/-! ## Releasing a live block -/

theorem releaseHint_fields (mm : PageAllocator) (page n : Nat) :
    (releaseHint mm page n).allocBitmap = mm.allocBitmap ∧
      (releaseHint mm page n).numFreePages = mm.numFreePages ∧
      (releaseHint mm page n).firstAllocPage = mm.firstAllocPage ∧
      (releaseHint mm page n).endAllocPage = mm.endAllocPage ∧
      (releaseHint mm page n).firstBulkPage = mm.firstBulkPage ∧
      (releaseHint mm page n).memoryHoleList = mm.memoryHoleList ∧
      (releaseHint mm page n).pageTableFrames = mm.pageTableFrames := by
  unfold releaseHint
  split <;> exact ⟨rfl, rfl, rfl, rfl, rfl, rfl, rfl⟩

theorem deallocatePages_ok (mm : PageAllocator) (pointer : Nat) {n : Nat}
    (fits : virtToPfn pointer + n < 2 ^ 64) :
    ∃ after, deallocatePages mm pointer n = .ok after ∧
      (∀ page, after.allocated page =
        (mm.allocated page && !decide (InRange (virtToPfn pointer) n page))) ∧
      after.numFreePages = ulongAdd mm.numFreePages n ∧
      after.firstAllocPage = mm.firstAllocPage ∧ after.endAllocPage = mm.endAllocPage ∧
      after.firstBulkPage = mm.firstBulkPage ∧ after.memoryHoleList = mm.memoryHoleList ∧
      after.pageTableFrames = mm.pageTableFrames ∧
      after.firstFreePage = (releaseHint mm (virtToPfn pointer) n).firstFreePage ∧
      after.firstFreeBulkPage = (releaseHint mm (virtToPfn pointer) n).firstFreeBulkPage := by
  obtain ⟨bitmap, count, first, last, bulk, holes, frames⟩ :=
    releaseHint_fields mm (virtToPfn pointer) n
  obtain ⟨freed, run, cleared⟩ := mapFree_ok mm.allocBitmap fits
  refine ⟨{ releaseHint mm (virtToPfn pointer) n with
    allocBitmap := freed, numFreePages := ulongAdd mm.numFreePages n }, ?_, cleared, rfl, first,
    last, bulk, holes, frames, rfl, rfl⟩
  simp only [deallocatePages, bitmap, run, count]
  rfl

theorem Safe.release {mm after : PageAllocator} {b : Block} {blocks : List Block}
    (safe : Safe mm (b :: blocks)) (run : deallocatePages mm (pfnToVirt b.page) b.count = .ok after) :
    Safe after blocks := by
  obtain ⟨nonempty, low, high⟩ := safe.inside b (List.mem_cons_self ..)
  have addressable := safe.addressable
  have page : virtToPfn (pfnToVirt b.page) = b.page := virtToPfn_pfnToVirt (by omega)
  unfold maxPages at addressable
  obtain ⟨actual, actualRun, marked, count, first, last, bulk, holes, _⟩ :=
    deallocatePages_ok mm (pfnToVirt b.page) (n := b.count) (by omega)
  cases Except.ok.inj (actualRun.symm.trans run)
  rw [page] at marked
  obtain ⟨separate, apart⟩ := List.pairwise_cons.mp safe.apart
  have owned : ∀ other, InRange b.page b.count other → mm.allocated other = true := fun other inRange =>
    (safe.exact other (by omega) (by omega)).mpr ⟨b, List.mem_cons_self .., inRange⟩
  have total : (freePages after).card = (freePages mm).card + b.count := by
    refine freePages_card_add _ _ b.page b.count (fun other => ?_) (fun other inRange => ?_)
    · simp only [mem_freePages, first, last, marked, Bool.and_eq_false_iff, Bool.not_eq_false',
        decide_eq_true_eq]
      constructor
      · rintro ⟨range, unmarked | inRange⟩
        · exact Or.inl ⟨range, unmarked⟩
        · exact Or.inr inRange
      · rintro (⟨range, unmarked⟩ | inRange)
        · exact ⟨range, Or.inl unmarked⟩
        · exact ⟨by omega, Or.inr inRange⟩
    · rw [mem_freePages, owned other inRange]
      simp
  refine ⟨?_, ?_, ?_, ?_, ?_, ?_, apart, ?_, ?_⟩
  · rw [first]
    exact safe.positive
  · rw [first, last]
    exact safe.ordered
  · rw [last]
    exact safe.addressable
  · rw [bulk, last]
    exact safe.regions
  · rw [holes, last]
    exact safe.holes
  · intro c member
    rw [first, last]
    exact safe.inside c (List.mem_cons_of_mem b member)
  · intro other lower upper
    rw [first] at lower
    rw [last] at upper
    have before := safe.exact other lower upper
    rw [List.exists_mem_cons_iff] at before
    simp only [marked, Bool.and_eq_true, before, Bool.not_eq_true', decide_eq_false_iff_not]
    constructor
    · rintro ⟨here | elsewhere, outside⟩
      · exact absurd here outside
      · exact elsewhere
    · rintro ⟨c, member, inRange⟩
      refine ⟨Or.inr ⟨c, member, inRange⟩, fun overlap => ?_⟩
      have distance := separate c member
      simp only [Block.Apart] at distance
      omega
  · have limit := freePages_card_le after
    rw [last] at limit
    rw [count, safe.counted, ulongAdd_eq (by omega), total]

/-! ## Growing into the adjoining hole -/

theorem absorbHole_ok (mm : PageAllocator) (hole : MemoryHole) (rest : List MemoryHole)
    (holeSize : Nat) {rc : Nat} (fits : hole.startPfn + rc < 2 ^ 64) :
    ∃ after, absorbHole mm hole rest holeSize rc = .ok after ∧
      (∀ page, after.allocated page =
        (mm.allocated page && !decide (InRange hole.startPfn rc page))) ∧
      after.numFreePages = ulongAdd mm.numFreePages rc ∧
      after.firstAllocPage = mm.firstAllocPage ∧
      after.endAllocPage = max mm.endAllocPage (hole.startPfn + rc) ∧
      after.firstBulkPage = mm.firstBulkPage ∧
      after.memoryHoleList =
        (if holeSize = rc then rest else ⟨hole.startPfn + rc, hole.endPfn⟩ :: rest) ∧
      after.pageTableFrames = mm.pageTableFrames ∧
      after.inIncreaseMemory = mm.inIncreaseMemory ∧
      after.firstFreePage = mm.firstFreePage ∧
      after.firstFreeBulkPage = mm.firstFreeBulkPage := by
  obtain ⟨freed, run, cleared⟩ := mapFree_ok mm.allocBitmap fits
  have larger : max mm.endAllocPage (hole.startPfn + rc) =
      if mm.endAllocPage < hole.startPfn + rc then hole.startPfn + rc else mm.endAllocPage := by
    split <;> omega
  rw [larger]
  refine ⟨{ mm with
    allocBitmap := freed
    endAllocPage :=
      if mm.endAllocPage < hole.startPfn + rc then hole.startPfn + rc else mm.endAllocPage
    numFreePages := ulongAdd mm.numFreePages rc
    numFreeBulkPages := ulongAdd mm.numFreeBulkPages rc
    memoryHoleList :=
      if holeSize = rc then rest else ⟨hole.startPfn + rc, hole.endPfn⟩ :: rest },
    ?_, cleared, rfl, rfl, rfl, rfl, rfl, rfl, rfl, rfl, rfl⟩
  simp only [absorbHole, run]
  rfl

theorem Safe.absorb {mm after : PageAllocator} {blocks : List Block} (safe : Safe mm blocks)
    {last rc : Nat} (positive : 0 < rc) (fits : rc ≤ last - mm.endAllocPage)
    (hole : mm.memoryHoleList = [⟨mm.endAllocPage, last⟩])
    (run : absorbHole mm ⟨mm.endAllocPage, last⟩ [] (ulongSub last mm.endAllocPage) rc = .ok after) :
    Safe after blocks := by
  have adjoining : mm.endAllocPage ≤ last ∧ last ≤ maxPages := by
    rcases safe.holes with none | ⟨other, same, bounds⟩
    · rw [hole] at none
      contradiction
    · rw [hole] at same
      cases same
      exact bounds
  obtain ⟨ordered, addressable⟩ := adjoining
  have limits := addressable
  unfold maxPages at limits
  have inside : mm.endAllocPage + rc < 2 ^ 64 := by omega
  obtain ⟨actual, actualRun, marked, count, first, final, bulk, holes, _⟩ :=
    absorbHole_ok mm ⟨mm.endAllocPage, last⟩ [] (ulongSub last mm.endAllocPage) inside
  cases Except.ok.inj (actualRun.symm.trans run)
  rw [ulongSub_eq ordered (by omega)] at holes
  simp only at marked final holes
  rw [show max mm.endAllocPage (mm.endAllocPage + rc) = mm.endAllocPage + rc by omega] at final
  have start := safe.ordered
  have total : (freePages after).card = (freePages mm).card + rc := by
    refine freePages_card_add _ _ mm.endAllocPage rc (fun page => ?_) (fun page inRange => ?_)
    · simp only [mem_freePages, first, final, marked, Bool.and_eq_false_iff, Bool.not_eq_false',
        decide_eq_true_eq]
      constructor
      · rintro ⟨range, unmarked | new⟩
        · by_cases old : page < mm.endAllocPage
          · exact Or.inl ⟨⟨range.1, old⟩, unmarked⟩
          · exact Or.inr ⟨by omega, range.2⟩
        · exact Or.inr new
      · rintro (⟨range, unmarked⟩ | new)
        · exact ⟨by omega, Or.inl unmarked⟩
        · exact ⟨by omega, Or.inr new⟩
    · rw [mem_freePages]
      omega
  refine ⟨?_, ?_, ?_, ?_, ?_, ?_, safe.apart, ?_, ?_⟩
  · rw [first]
    exact safe.positive
  · rw [first, final]
    omega
  · rw [final]
    omega
  · have regions := safe.regions
    rw [bulk, final]
    omega
  · rw [holes, final]
    by_cases whole : last - mm.endAllocPage = rc
    · exact Or.inl (if_pos whole)
    · exact Or.inr ⟨last, if_neg whole, by omega, addressable⟩
  · intro b member
    obtain ⟨nonempty, low, high⟩ := safe.inside b member
    rw [first, final]
    exact ⟨nonempty, low, by omega⟩
  · intro page lower upper
    rw [first] at lower
    rw [final] at upper
    simp only [marked, Bool.and_eq_true, Bool.not_eq_true', decide_eq_false_iff_not]
    by_cases old : page < mm.endAllocPage
    · rw [safe.exact page lower old]
      exact ⟨fun both => both.1, fun taken => ⟨taken, by omega⟩⟩
    · constructor
      · rintro ⟨_, outside⟩
        omega
      · rintro ⟨b, member, inRange⟩
        have high := (safe.inside b member).2.2
        omega
  · have limit := freePages_card_le mm
    rw [count, safe.counted, ulongAdd_eq (by omega), total]

end Stardust.Mm
