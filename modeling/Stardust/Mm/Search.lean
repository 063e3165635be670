import Stardust.Mm.PageAllocator

/-! # What the scan of the bitmap finds

The scan returns the first run of free pages at or after its start hint: what it
finds is free and inside the region (`scan_sound`), and when it finds nothing
there is nothing (`scan_complete`). -/
set_option autoImplicit false
namespace Stardust.Mm

def FreeRun (mm : PageAllocator) (start n : Nat) : Prop :=
  ∀ page, InRange start n page → mm.allocated page = false

theorem FreeRun.cons {mm : PageAllocator} {start n : Nat} (head : mm.allocated start = false)
    (tail : FreeRun mm (start + 1) n) : FreeRun mm start (n + 1) := by
  intro page inside
  by_cases first : page = start
  · rw [first]
    exact head
  · exact tail page (by omega)

theorem extendRun_found (mm : PageAllocator) (endPage : Nat) {nn npage : Nat} {stop : Option Nat}
    (run : extendRun mm endPage nn npage = (1, stop)) :
    1 ≤ nn ∧ FreeRun mm npage (nn - 1) ∧ (nn = 1 ∨ npage + (nn - 1) ≤ endPage) := by
  fun_induction extendRun mm endPage nn npage with
  | case1 => simp at run
  | case2 page =>
    refine ⟨by omega, ?_, Or.inl rfl⟩
    intro other inside
    omega
  | case3 nn npage within free ih =>
    obtain ⟨_, rest, bound⟩ := ih run
    have head : mm.allocated npage = false := by simpa using free
    refine ⟨by omega, ?_, Or.inr (by omega)⟩
    exact FreeRun.cons head rest
  | case4 nn npage within taken => simp at run
  | case5 nn npage beyond => simp at run

theorem extendRun_stopped (mm : PageAllocator) (endPage : Nat) {nn npage left stop : Nat}
    (run : extendRun mm endPage nn npage = (left, some stop)) :
    npage ≤ stop ∧ stop < npage + (nn - 1) ∧ mm.allocated stop = true := by
  fun_induction extendRun mm endPage nn npage with
  | case1 => simp at run
  | case2 page => simp at run
  | case3 nn npage within free ih =>
    obtain ⟨lower, upper, taken⟩ := ih run
    exact ⟨by omega, by omega, taken⟩
  | case4 nn npage within taken =>
    simp only [Prod.mk.injEq, Option.some.injEq] at run
    obtain ⟨_, rfl⟩ := run
    exact ⟨by omega, by omega, by simpa using taken⟩
  | case5 nn npage beyond => simp at run

theorem extendRun_short (mm : PageAllocator) (endPage : Nat) {nn npage left : Nat}
    (run : extendRun mm endPage nn npage = (left, none)) (unfinished : left ≠ 1) :
    nn = 0 ∨ endPage < npage + (nn - 1) := by
  fun_induction extendRun mm endPage nn npage with
  | case1 => exact Or.inl rfl
  | case2 page =>
    simp only [Prod.mk.injEq, and_true] at run
    omega
  | case3 nn npage within free ih =>
    have shorter := ih run
    omega
  | case4 nn npage within taken => simp at run
  | case5 nn npage beyond => omega

theorem scan_sound (mm : PageAllocator) (endPage n : Nat) {fuel page found : Nat}
    (run : scan mm endPage n fuel page = some found) :
    page ≤ found ∧ 1 ≤ n ∧ found + n ≤ endPage ∧ FreeRun mm found n := by
  fun_induction scan mm endPage n fuel page with
  | case1 => simp at run
  | case2 fuel page within free stop extended =>
    simp only [Option.some.injEq] at run
    subst found
    obtain ⟨positive, rest, bound⟩ := extendRun_found mm endPage extended
    have head : mm.allocated page = false := by simpa using free
    have whole := FreeRun.cons head rest
    rw [Nat.sub_add_cancel positive] at whole
    exact ⟨Nat.le_refl page, positive, by omega, whole⟩
  | case3 fuel page within free left stop _ extended ih =>
    obtain ⟨lower, _, _⟩ := extendRun_stopped mm endPage extended
    obtain ⟨later, found⟩ := ih run
    exact ⟨by omega, found⟩
  | case4 fuel page within free left _ extended ih =>
    obtain ⟨later, found⟩ := ih run
    exact ⟨by omega, found⟩
  | case5 fuel page within taken ih =>
    obtain ⟨later, found⟩ := ih run
    exact ⟨by omega, found⟩
  | case6 fuel page beyond => simp at run

theorem scan_complete (mm : PageAllocator) (endPage n : Nat) {fuel page : Nat}
    (positive : 1 ≤ n) (enough : endPage ≤ page + fuel)
    (run : scan mm endPage n fuel page = none) :
    ∀ start, page ≤ start → start + n ≤ endPage → ¬FreeRun mm start n := by
  fun_induction scan mm endPage n fuel page with
  | case1 => omega
  | case2 fuel page within free stop extended => simp at run
  | case3 fuel page within free left stop _ extended ih =>
    obtain ⟨lower, upper, taken⟩ := extendRun_stopped mm endPage extended
    intro start after bound free
    by_cases later : stop + 1 ≤ start
    · exact ih (by omega) run start later bound free
    · have inside := free stop (by omega)
      rw [taken] at inside
      contradiction
  | case4 fuel page within free left unfinished extended ih =>
    have short := extendRun_short mm endPage extended unfinished
    intro start after bound
    exact ih (by omega) run start (by omega) bound
  | case5 fuel page within taken ih =>
    intro start after bound free
    by_cases later : page + 1 ≤ start
    · exact ih (by omega) run start later bound free
    · have inside := free page (by omega)
      simp [inside] at taken
  | case6 fuel page beyond => omega

theorem search_sound (mm : PageAllocator) {n page : Nat} {isBulkAlloc : Bool}
    (run : search mm n isBulkAlloc = some page) :
    startPageOf mm isBulkAlloc ≤ page ∧ 1 ≤ n ∧ page + n ≤ endPageOf mm isBulkAlloc ∧
      FreeRun mm page n :=
  scan_sound mm _ n run

theorem search_complete (mm : PageAllocator) {n : Nat} {isBulkAlloc : Bool} (positive : 1 ≤ n)
    (run : search mm n isBulkAlloc = none) :
    ∀ start, startPageOf mm isBulkAlloc ≤ start → start + n ≤ endPageOf mm isBulkAlloc →
      ¬FreeRun mm start n :=
  scan_complete mm _ n positive (by omega) run

/-! ## The next free page

`next_free` takes and returns an `int`, so what it returns bounds the free pages
from below only while page numbers stay below `2^31`. -/

theorem ulongOfInt_intOfUlong_small {page : Nat} (small : page < 2 ^ 31) :
    ulongOfInt (intOfUlong page) = page := by
  rw [intOfUlong_eq small, ulongOfInt_natCast (by omega)]

/-- From `2^31` on the page becomes a negative `int`. -/
theorem le_ulongOfInt_intOfUlong {page : Nat} (bound : page < 2 ^ 32) :
    page ≤ ulongOfInt (intOfUlong page) ∧ (2 ^ 31 ≤ page → 2 ^ 32 ≤ ulongOfInt (intOfUlong page)) := by
  unfold ulongOfInt intOfUlong
  rw [Int.bmod_def]
  omega

theorem nextFreeLoop_skips (mm : PageAllocator) (small : mm.endAllocPage ≤ 2 ^ 31) (fuel : Nat)
    {page : Nat} (bound : page ≤ 2 ^ 31) (enough : mm.endAllocPage ≤ page + fuel) :
    ∀ skipped, page ≤ skipped → skipped < mm.endAllocPage →
      skipped < ulongOfInt (nextFreeLoop mm fuel (intOfUlong page)) →
      mm.allocated skipped = true := by
  induction fuel generalizing page with
  | zero => omega
  | succ fuel ih =>
    intro skipped after inside before
    have inRange : page < 2 ^ 31 := by omega
    have value := ulongOfInt_intOfUlong_small inRange
    simp only [nextFreeLoop, value, if_pos (show page < mm.endAllocPage by omega)] at before
    split at before
    · rw [value] at before
      omega
    · rename_i taken
      by_cases here : skipped = page
      · subst here
        simpa using taken
      · have next : Int.bmod (intOfUlong page + 1) (2 ^ 32) = intOfUlong (page + 1) := by
          rw [intOfUlong_eq inRange]
          rfl
        rw [next] at before
        exact ih (by omega) (by omega) skipped (by omega) inside before

theorem nextFreeLoop_le (mm : PageAllocator) (small : mm.endAllocPage ≤ 2 ^ 31) (fuel : Nat)
    {page : Nat} (inside : page ≤ mm.endAllocPage) :
    ulongOfInt (nextFreeLoop mm fuel (intOfUlong page)) ≤ mm.endAllocPage ∨
      mm.endAllocPage = 2 ^ 31 := by
  by_cases limit : page = 2 ^ 31
  · exact Or.inr (by omega)
  have inRange : page < 2 ^ 31 := by omega
  have value := ulongOfInt_intOfUlong_small inRange
  induction fuel generalizing page with
  | zero =>
    rw [nextFreeLoop, value]
    exact Or.inl inside
  | succ fuel ih =>
    simp only [nextFreeLoop, value]
    split
    · rename_i within
      split
      · rw [value]
        exact Or.inl inside
      · have next : Int.bmod (intOfUlong page + 1) (2 ^ 32) = intOfUlong (page + 1) := by
          rw [intOfUlong_eq inRange]
          rfl
        rw [next]
        by_cases last : page + 1 = 2 ^ 31
        · exact Or.inr (by omega)
        · have nextRange : page + 1 < 2 ^ 31 := by omega
          exact ih within last nextRange (ulongOfInt_intOfUlong_small nextRange)
    · rw [value]
      exact Or.inl inside

theorem le_nextFreeLoop (mm : PageAllocator) (small : mm.endAllocPage ≤ 2 ^ 32) (fuel : Nat)
    {page : Nat} (bound : page < 2 ^ 32) :
    page ≤ ulongOfInt (nextFreeLoop mm fuel (intOfUlong page)) := by
  obtain ⟨least, negative⟩ := le_ulongOfInt_intOfUlong bound
  induction fuel generalizing page with
  | zero => exact least
  | succ fuel ih =>
    simp only [nextFreeLoop]
    split
    · rename_i within
      have inRange : page < 2 ^ 31 := by omega
      split
      · exact least
      · have next : Int.bmod (intOfUlong page + 1) (2 ^ 32) = intOfUlong (page + 1) := by
          rw [intOfUlong_eq inRange]
          rfl
        have later : page + 1 < 2 ^ 32 := by omega
        obtain ⟨leastLater, negativeLater⟩ := le_ulongOfInt_intOfUlong later
        rw [next]
        exact Nat.le_of_succ_le (ih later leastLater negativeLater)
    · exact least

/-- Every page that `next_free` steps over is allocated. -/
theorem nextFree_skips (mm : PageAllocator) (small : mm.endAllocPage ≤ 2 ^ 31) {page : Nat}
    (bound : page ≤ 2 ^ 31) :
    ∀ skipped, page ≤ skipped → skipped < mm.endAllocPage →
      skipped < ulongOfInt (nextFree mm (intOfUlong page)) → mm.allocated skipped = true :=
  nextFreeLoop_skips mm small mm.endAllocPage bound (by omega)

/-! ## The bookkeeping of a found run -/

section Claim
variable (mm : PageAllocator) (page n : Nat) (isBulkAlloc : Bool)

@[simp] theorem claimPages_firstAllocPage :
    (claimPages mm page n isBulkAlloc).firstAllocPage = mm.firstAllocPage := by
  cases isBulkAlloc <;> rfl

@[simp] theorem claimPages_endAllocPage :
    (claimPages mm page n isBulkAlloc).endAllocPage = mm.endAllocPage := by
  cases isBulkAlloc <;> rfl

@[simp] theorem claimPages_firstBulkPage :
    (claimPages mm page n isBulkAlloc).firstBulkPage = mm.firstBulkPage := by
  cases isBulkAlloc <;> rfl

@[simp] theorem claimPages_numFreePages :
    (claimPages mm page n isBulkAlloc).numFreePages = ulongSub mm.numFreePages n := rfl

@[simp] theorem claimPages_memoryHoleList :
    (claimPages mm page n isBulkAlloc).memoryHoleList = mm.memoryHoleList := by
  cases isBulkAlloc <;> rfl

@[simp] theorem claimPages_inIncreaseMemory :
    (claimPages mm page n isBulkAlloc).inIncreaseMemory = mm.inIncreaseMemory := by
  cases isBulkAlloc <;> rfl

@[simp] theorem claimPages_pageTableFrames :
    (claimPages mm page n isBulkAlloc).pageTableFrames = mm.pageTableFrames := by
  cases isBulkAlloc <;> rfl

theorem claimPages_firstFreePage :
    (claimPages mm page n isBulkAlloc).firstFreePage =
      if isBulkAlloc = false ∧ page = mm.firstFreePage then
        ulongOfInt (nextFree mm (intOfUlong (page + n)))
      else mm.firstFreePage := by
  cases isBulkAlloc
  · by_cases hint : page = mm.firstFreePage <;> simp [claimPages, hint]
  · rfl

theorem claimPages_firstFreeBulkPage :
    (claimPages mm page n isBulkAlloc).firstFreeBulkPage =
      if isBulkAlloc = true ∧ page = mm.firstFreeBulkPage then
        ulongOfInt (nextFree mm (intOfUlong (page + n)))
      else mm.firstFreeBulkPage := by
  cases isBulkAlloc
  · rfl
  · by_cases hint : page = mm.firstFreeBulkPage <;> simp [claimPages, hint]

theorem claimPages_allocated (fits : page + n < 2 ^ 64) (other : Nat) :
    (claimPages mm page n isBulkAlloc).allocated other =
      (mm.allocated other || decide (InRange page n other)) :=
  allocatedInMap_mapAlloc mm.allocBitmap fits other

end Claim

end Stardust.Mm
