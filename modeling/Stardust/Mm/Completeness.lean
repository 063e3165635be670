import Stardust.Mm.PageRuns

/-! # When a request may fail

The scans start at `first_free_page` and `first_free_bulk_page`.  As long as both
hints are lower bounds for the free pages of their regions, a failed request
means that there is no run to be had.  A small block that was served from the
bulk region does not lower the bulk hint when it is freed. -/
set_option autoImplicit false
namespace Stardust.Mm

open Stardust.Lib

/-- `next_free` works on `int` page numbers. -/
def maxIntPages : Nat := 2 ^ 31

structure Hinted (mm : PageAllocator) (blocks : List Block) : Prop extends Safe mm blocks where
  hintStart : mm.firstAllocPage ≤ mm.firstFreePage
  bulkHintStart : mm.firstBulkPage ≤ mm.firstFreeBulkPage
  regionStart : mm.firstAllocPage ≤ mm.firstBulkPage
  intPages : mm.endAllocPage ≤ maxIntPages
  intHoles : ∀ hole ∈ mm.memoryHoleList, hole.endPfn ≤ maxIntPages
  bulkHintEnd : mm.firstFreeBulkPage ≤ mm.endAllocPage ∨ mm.endAllocPage = maxIntPages
  smallFull : ∀ page, mm.firstAllocPage ≤ page → page < mm.firstFreePage →
    page < mm.firstBulkPage → mm.allocated page = true
  bulkFull : ∀ page, mm.firstBulkPage ≤ page → page < mm.firstFreeBulkPage →
    page < mm.endAllocPage → mm.allocated page = true
  placed : ∀ b ∈ blocks, (b.page + b.count ≤ mm.firstBulkPage ∧ isBulk b.count = false) ∨
    mm.firstBulkPage ≤ b.page

/-! ## Claiming keeps both hints -/

theorem Hinted.found {mm : PageAllocator} {blocks : List Block} (hinted : Hinted mm blocks)
    {n page : Nat} {isBulkAlloc : Bool} (found : search mm n isBulkAlloc = some page) :
    1 ≤ n ∧ mm.firstAllocPage ≤ page ∧ page + n ≤ mm.endAllocPage ∧ FreeRun mm page n ∧
      (isBulkAlloc = false → page + n ≤ mm.firstBulkPage) ∧
      (isBulkAlloc = true → mm.firstBulkPage ≤ page) := by
  obtain ⟨least, positive, bound, free⟩ := search_sound mm found
  have regions := hinted.regions
  have start := hinted.hintStart
  have bulkStart := hinted.bulkHintStart
  have regionStart := hinted.regionStart
  cases isBulkAlloc with
  | false =>
    simp only [startPageOf, endPageOf, Bool.false_eq_true, if_false] at least bound
    exact ⟨positive, by omega, by omega, free, fun _ => bound, nofun⟩
  | true =>
    simp only [startPageOf, endPageOf, if_true] at least bound
    exact ⟨positive, by omega, bound, free, nofun, fun _ => by omega⟩

theorem Hinted.claim {mm : PageAllocator} {blocks : List Block} (hinted : Hinted mm blocks)
    {n page : Nat} {isBulkAlloc : Bool} (small : isBulkAlloc = false → isBulk n = false)
    (found : search mm n isBulkAlloc = some page) :
    Hinted (claimPages mm page n isBulkAlloc) (⟨page, n⟩ :: blocks) := by
  obtain ⟨positive, start, bound, free, inSmall, inBulk⟩ := hinted.found found
  have limit := hinted.intPages
  have regionStart := hinted.regionStart
  have marked := claimPages_allocated mm page n isBulkAlloc
    (show page + n < 2 ^ 64 by unfold maxIntPages at limit; omega)
  -- the new hint lies past the run, and all it skips is allocated
  have inInt : page + n ≤ 2 ^ 31 := by
    unfold maxIntPages at limit
    omega
  have later := le_nextFreeLoop mm (Nat.le_trans limit (by decide)) mm.endAllocPage
    (Nat.lt_of_le_of_lt inInt (by decide))
  have skips := nextFree_skips mm limit inInt
  have ending := nextFreeLoop_le mm limit mm.endAllocPage bound
  change page + n ≤ ulongOfInt (nextFree mm (intOfUlong (page + n))) at later
  change ulongOfInt (nextFree mm (intOfUlong (page + n))) ≤ mm.endAllocPage ∨ _ at ending
  generalize next : ulongOfInt (nextFree mm (intOfUlong (page + n))) = after at later skips ending
  have full : ∀ other, mm.allocated other = true ∨ InRange page n other ∨
      (page + n ≤ other ∧ other < after ∧ other < mm.endAllocPage) →
      (claimPages mm page n isBulkAlloc).allocated other = true := by
    intro other reason
    rw [marked, Bool.or_eq_true, decide_eq_true_eq]
    rcases reason with old | inRange | ⟨low, high, inside⟩
    · exact Or.inl old
    · exact Or.inr inRange
    · exact Or.inl (skips other low inside high)
  -- where the hint moves on, it was at the run
  have moved {hint other : Nat} {taken : Prop} [Decidable taken] (atRun : taken → page = hint)
      (old : other < hint → mm.allocated other = true) (high : other < if taken then after else hint)
      (inside : other < mm.endAllocPage) : (claimPages mm page n isBulkAlloc).allocated other = true := by
    refine full other ?_
    split at high
    · rename_i here
      have same := atRun here
      by_cases before : other < hint
      · exact Or.inl (old before)
      · by_cases inRange : InRange page n other
        · exact Or.inr (Or.inl inRange)
        · exact Or.inr (Or.inr (by omega))
    · exact Or.inl (old high)
  refine ⟨hinted.toSafe.claim _ positive start bound free, ?_, ?_, ?_, ?_, ?_, ?_, ?_, ?_, ?_⟩
  · rw [claimPages_firstFreePage, claimPages_firstAllocPage, next]
    have before := hinted.hintStart
    split <;> omega
  · rw [claimPages_firstFreeBulkPage, claimPages_firstBulkPage, next]
    have before := hinted.bulkHintStart
    split
    · rename_i bulk
      have region := inBulk bulk.1
      omega
    · omega
  · simpa using regionStart
  · simpa using limit
  · simpa using hinted.intHoles
  · rw [claimPages_firstFreeBulkPage, claimPages_endAllocPage, next]
    split
    · exact ending
    · exact hinted.bulkHintEnd
  · intro other low high region
    rw [claimPages_firstFreePage, next] at high
    rw [claimPages_firstAllocPage] at low
    rw [claimPages_firstBulkPage] at region
    have regions := hinted.regions
    exact moved And.right (fun old => hinted.smallFull other low old region) high (by omega)
  · intro other low high inside
    rw [claimPages_firstFreeBulkPage, next] at high
    rw [claimPages_firstBulkPage] at low
    rw [claimPages_endAllocPage] at inside
    exact moved And.right (fun old => hinted.bulkFull other low old inside) high inside
  · intro b member
    rw [claimPages_firstBulkPage]
    rcases List.mem_cons.mp member with rfl | member
    · cases isBulkAlloc with
      | false => exact Or.inl ⟨inSmall rfl, small rfl⟩
      | true => exact Or.inr (inBulk rfl)
    · exact hinted.placed b member

theorem Hinted.absorb {mm after : PageAllocator} {blocks : List Block} (hinted : Hinted mm blocks)
    {hole : MemoryHole} {rest : List MemoryHole} {rc : Nat}
    (listed : mm.memoryHoleList = hole :: rest) (positive : 0 < rc)
    (fits : rc ≤ ulongSub hole.endPfn hole.startPfn)
    (run : absorbHole mm hole rest (ulongSub hole.endPfn hole.startPfn) rc = .ok after) :
    Hinted after blocks := by
  obtain ⟨kept, first, bulk, final, hint, bulkHint⟩ :=
    hinted.toSafe.absorbHole_frame listed fits run
  have safe := hinted.toSafe.absorbHole listed positive fits run
  have limit := hinted.intHoles hole (by rw [listed]; exact List.mem_cons_self ..)
  obtain ⟨last, same, none, size⟩ := hinted.toSafe.hole listed
  rw [size] at fits
  rw [same] at limit
  have ending := hinted.bulkHintEnd
  have regions := hinted.regions
  simp only at limit
  refine ⟨safe, ?_, ?_, ?_, ?_, ?_, ?_, ?_, ?_, ?_⟩
  · rw [first, hint]
    exact hinted.hintStart
  · rw [bulk, bulkHint]
    exact hinted.bulkHintStart
  · rw [first, bulk]
    exact hinted.regionStart
  · rw [final]
    omega
  · intro other member
    obtain ⟨freed, _, built⟩ := Halt.bind_eq_ok.mp run
    rw [← Except.ok.inj built, same, none] at member
    simp only at member
    split at member
    · contradiction
    · rw [List.mem_singleton.mp member]
      exact limit
  · rw [bulkHint, final]
    omega
  · intro page low high region
    rw [first] at low
    rw [hint] at high
    rw [bulk] at region
    rw [kept page (by omega)]
    exact hinted.smallFull page low high region
  · intro page low high within
    rw [bulk] at low
    rw [bulkHint] at high
    rw [kept page (by omega)]
    exact hinted.bulkFull page low high (by omega)
  · rw [bulk]
    exact hinted.placed

theorem hinted_preserved : Preserved Hinted where
  found hinted found := by
    have positive := hinted.positive
    have addressable := hinted.addressable
    obtain ⟨_, start, bound, _⟩ := hinted.found found
    exact ⟨by omega, by omega⟩
  claim hinted small found := hinted.claim small found
  absorb hinted listed positive fits run := hinted.absorb listed positive fits run
  record frames calls growing hinted :=
    ⟨hinted.toSafe.record frames calls growing, hinted.hintStart, hinted.bulkHintStart,
      hinted.regionStart, hinted.intPages, hinted.intHoles, hinted.bulkHintEnd, hinted.smallFull,
      hinted.bulkFull, hinted.placed⟩
  perm hinted same :=
    ⟨hinted.toSafe.perm same, hinted.hintStart, hinted.bulkHintStart, hinted.regionStart,
      hinted.intPages, hinted.intHoles, hinted.bulkHintEnd, hinted.smallFull, hinted.bulkFull,
      fun b member => hinted.placed b (same.mem_iff.mpr member)⟩

/-! ## Releasing keeps them, but for small blocks below the bulk hint -/

/-- The block is a bulk block, or lies in the small region, or lies no lower than
the bulk hint. -/
def HintSafe (state : PageRun) : PageOp → Prop
  | .allocatePages _ => True
  | .deallocatePages block => isBulk block.count = true ∨
      block.page < state.mm.firstBulkPage ∨ state.mm.firstFreeBulkPage ≤ block.page

instance (state : PageRun) (op : PageOp) : Decidable (HintSafe state op) := by
  cases op <;> unfold HintSafe <;> infer_instance

theorem releaseHint_firstFreePage (mm : PageAllocator) (page n : Nat) :
    (releaseHint mm page n).firstFreePage =
      if isBulk n then mm.firstFreePage else min page mm.firstFreePage := by
  unfold releaseHint
  split
  · rfl
  · simp only
    split <;> omega

theorem releaseHint_firstFreeBulkPage (mm : PageAllocator) (page n : Nat) :
    (releaseHint mm page n).firstFreeBulkPage =
      if isBulk n then min page mm.firstFreeBulkPage else mm.firstFreeBulkPage := by
  unfold releaseHint
  split
  · simp only
    split <;> omega
  · rfl

theorem Hinted.release {mm after : PageAllocator} {block : Block} {rest : List Block}
    (hinted : Hinted mm (block :: rest))
    (allowed : isBulk block.count = true ∨ block.page < mm.firstBulkPage ∨
      mm.firstFreeBulkPage ≤ block.page)
    (run : deallocatePages mm (pfnToVirt block.page) block.count = .ok after) :
    Hinted after rest := by
  obtain ⟨nonempty, start, bound⟩ := hinted.inside block (List.mem_cons_self ..)
  have placed := hinted.placed block (List.mem_cons_self ..)
  have addressable := hinted.addressable
  have page : virtToPfn (pfnToVirt block.page) = block.page := virtToPfn_pfnToVirt (by omega)
  unfold maxPages at addressable
  have fits : virtToPfn (pfnToVirt block.page) + block.count < 2 ^ 64 := by omega
  obtain ⟨actual, actualRun, marked, _, first, final, bulk, holes, _, hint, bulkHint⟩ :=
    deallocatePages_ok mm _ fits
  cases Except.ok.inj (actualRun.symm.trans run)
  rw [page] at marked hint bulkHint
  rw [releaseHint_firstFreePage] at hint
  rw [releaseHint_firstFreeBulkPage] at bulkHint
  have unmoved : ∀ other, ¬InRange block.page block.count other → mm.allocated other = true →
      after.allocated other = true := by
    intro other outside taken
    rw [marked, taken, decide_eq_false outside]
    rfl
  have hintStart := hinted.hintStart
  have bulkHintStart := hinted.bulkHintStart
  refine ⟨hinted.toSafe.release run, ?_, ?_, ?_, ?_, ?_, ?_, ?_, ?_, ?_⟩
  · rw [first, hint]
    split <;> omega
  · rw [bulk, bulkHint]
    split
    · rename_i isBulkBlock
      rcases placed with ⟨_, small⟩ | inBulk
      · rw [isBulkBlock] at small
        contradiction
      · omega
    · exact bulkHintStart
  · rw [first, bulk]
    exact hinted.regionStart
  · rw [final]
    exact hinted.intPages
  · rw [holes]
    exact hinted.intHoles
  · rw [bulkHint, final]
    have ending := hinted.bulkHintEnd
    split <;> omega
  · intro other low high region
    rw [first] at low
    rw [hint] at high
    rw [bulk] at region
    split at high
    · rename_i isBulkBlock
      rcases placed with ⟨_, small⟩ | inBulk
      · rw [isBulkBlock] at small
        contradiction
      · exact unmoved other (by omega) (hinted.smallFull other low high region)
    · exact unmoved other (by omega) (hinted.smallFull other low (by omega) region)
  · intro other low high within
    rw [bulk] at low
    rw [bulkHint] at high
    rw [final] at within
    split at high
    · exact unmoved other (by omega) (hinted.bulkFull other low (by omega) within)
    · rename_i smallBlock
      refine unmoved other ?_ (hinted.bulkFull other low high within)
      rcases allowed with isBulkBlock | below | above
      · contradiction
      · omega
      · omega
  · rw [bulk]
    exact fun b member => hinted.placed b (List.mem_cons_of_mem block member)

/-! ## Completeness of a request -/

theorem tryClaim_none {mm : PageAllocator} {n : Nat} {isBulkAlloc : Bool}
    (missed : search mm n isBulkAlloc = none) : tryClaim mm n isBulkAlloc = (mm, 0) := by
  rw [tryClaim, missed]

theorem allocateLoop_claimed {grow : PageAllocator → Except Halt (PageAllocator × Nat)}
    {n fuel : Nat} {isBulkAlloc : Bool} {mm : PageAllocator}
    (claimed : 0 < (tryClaim mm n isBulkAlloc).2) :
    allocateLoop grow n (fuel + 1) isBulkAlloc mm = .ok (tryClaim mm n isBulkAlloc) := by
  rw [allocateLoop]
  exact if_pos claimed

theorem allocateLoop_fallsBack {grow : PageAllocator → Except Halt (PageAllocator × Nat)}
    {n fuel : Nat} {mm : PageAllocator} (missed : search mm n false = none) :
    allocateLoop grow n (fuel + 1) false mm = allocateLoop grow n fuel true mm := by
  simp only [allocateLoop, tryClaim_none missed]
  rfl

/-- A request that a search can serve returns an address. -/
theorem allocatePages_serves (hv : Hypervisor) {mm : PageAllocator} {n : Nat} {isBulkAlloc : Bool}
    (first : isBulkAlloc = false → isBulk n = false)
    (fallback : isBulkAlloc = true → isBulk n = false → search mm n false = none)
    (claimed : 0 < (tryClaim mm n isBulkAlloc).2) :
    allocatePages hv mm n = .ok (tryClaim mm n isBulkAlloc) := by
  have loop : ∀ grow, allocateLoop grow n (holePages mm.memoryHoleList + 3) (isBulk n) mm =
      .ok (tryClaim mm n isBulkAlloc) := by
    intro grow
    cases isBulkAlloc with
    | false =>
      rw [first rfl]
      exact allocateLoop_claimed claimed
    | true =>
      cases kind : isBulk n with
      | false =>
        rw [allocateLoop_fallsBack (fallback rfl kind)]
        exact allocateLoop_claimed claimed
      | true => exact allocateLoop_claimed claimed
  have nonzero : ((tryClaim mm n isBulkAlloc).2 = 0) = False :=
    eq_false (Nat.ne_of_gt claimed)
  simp only [allocatePages, allocatePagesWithin, loop]
  change (if (tryClaim mm n isBulkAlloc).2 = 0 && !isBulk n then _ else _) = _
  simp [nonzero]

theorem Hinted.complete {mm : PageAllocator} {blocks : List Block} (hinted : Hinted mm blocks)
    (hv : Hypervisor) {n : Nat} (positive : 1 ≤ n)
    (failed : ∀ after result, allocatePages hv mm n = .ok (after, result) → result = 0) :
    (∀ start, mm.firstBulkPage ≤ start → start + n ≤ mm.endAllocPage → ¬FreeRun mm start n) ∧
    (isBulk n = false → ∀ start, mm.firstAllocPage ≤ start → start + n ≤ mm.firstBulkPage →
      ¬FreeRun mm start n) := by
  have unserved : ∀ isBulkAlloc, (isBulkAlloc = false → isBulk n = false) →
      (isBulkAlloc = true → isBulk n = false → search mm n false = none) →
      search mm n isBulkAlloc = none := by
    intro isBulkAlloc first fallback
    cases found : search mm n isBulkAlloc with
    | none => rfl
    | some page =>
      obtain ⟨nonzero, addressable⟩ := hinted_preserved.found hinted found
      have claimed : 0 < (tryClaim mm n isBulkAlloc).2 := by
        rw [tryClaim, found]
        exact pfnToVirt_pos nonzero addressable
      have zero : (tryClaim mm n isBulkAlloc).2 = 0 :=
        failed _ _ (allocatePages_serves hv first fallback claimed)
      omega
  have small : isBulk n = false → search mm n false = none := fun kind =>
    unserved false (fun _ => kind) nofun
  have large : search mm n true = none := unserved true nofun fun _ => small
  constructor
  · intro start low high free
    by_cases hint : mm.firstFreeBulkPage ≤ start
    · exact search_complete mm positive large start hint high free
    · have taken := hinted.bulkFull start low (by omega) (by omega)
      rw [free start (by omega)] at taken
      contradiction
  · intro kind start low high free
    by_cases hint : mm.firstFreePage ≤ start
    · exact search_complete mm positive (small kind) start hint high free
    · have taken := hinted.smallFull start low (by omega) (by omega)
      rw [free start (by omega)] at taken
      contradiction

/-! ## Whole runs -/

/-- The allocator as `init_page_allocator` leaves it, or with the frames up to
`max_end_alloc_page` in a hole. -/
def BootRun (state : PageRun) : Prop :=
  ∃ memory maxReservation min max mm holes,
    initPageAllocator memory maxReservation min max = .ok mm ∧
    0 < min ∧ min + bitmapPages maxReservation ≤ max ∧ max ≤ maxReservation ∧
    maxReservation ≤ maxIntPages ∧
    (holes = [] ∨ holes = [⟨max, maxReservation⟩]) ∧
    state = ⟨{ mm with memoryHoleList := holes }, []⟩

theorem Booted.hinted {memory : Bitmap} {maxReservation min max : Nat} {mm : PageAllocator}
    (booted : Booted memory maxReservation min max mm) (positive : 0 < min)
    (fits : min + bitmapPages maxReservation ≤ max) (bound : max ≤ maxReservation)
    (limit : maxReservation ≤ maxIntPages) {holes : List MemoryHole}
    (adjoining : holes = [] ∨ holes = [⟨max, maxReservation⟩]) :
    Hinted { mm with memoryHoleList := holes } [] := by
  have first := booted.first
  have final := booted.final
  have limits := limit
  unfold maxIntPages at limits
  have addressable : maxReservation ≤ maxPages := by
    unfold maxPages
    omega
  obtain ⟨bulkEnd, bulkStart⟩ := booted.bulkBounds
  have safe : Safe { mm with memoryHoleList := holes } [] := by
    refine Safe.ofFree ?_ ?_ ?_ ?_ ?_ (fun page low high => ?_) ?_
    · simp only
      omega
    · simp only
      omega
    · simp only
      omega
    · simp only
      omega
    · simp only [final]
      exact adjoining.imp_right fun one => ⟨maxReservation, one, bound, addressable⟩
    · simp only [first] at low
      simp only [final] at high
      have free := booted.marked page
      rw [decide_eq_true (And.intro low high), Bool.not_true, Bool.and_false] at free
      exact free
    · simp only [final, booted.counted]
      exact ulongSub_eq (by omega) (by omega)
  refine ⟨safe, ?_, ?_, ?_, ?_, ?_, ?_, ?_, ?_, nofun⟩
  · exact Nat.le_of_eq booted.hint.symm
  · exact Nat.le_of_eq booted.bulkHint.symm
  · exact bulkStart (by omega)
  · simp only
    omega
  · intro hole member
    rcases adjoining with rfl | rfl
    · contradiction
    · rw [List.mem_singleton.mp member]
      exact limit
  · simp only [booted.bulkHint]
    omega
  · intro page low high
    simp only [booted.hint] at low high
    omega
  · intro page low high
    simp only [booted.bulkHint] at low high
    omega

theorem bootRun_hinted {state : PageRun} (begun : BootRun state) :
    Hinted state.mm state.blocks := by
  obtain ⟨memory, maxReservation, min, max, mm, holes, run, positive, fits, bound, limit, adjoining,
    rfl⟩ := begun
  have limits := limit
  unfold maxIntPages at limits
  obtain ⟨actual, actualRun, booted⟩ := initPageAllocator_ok memory
    (show min + bitmapPages maxReservation < 2 ^ 63 by omega) (show max < 2 ^ 64 by omega)
    (Or.inl fits)
  cases Except.ok.inj (actualRun.symm.trans run)
  have noBlocks : (PageRun.mk { mm with memoryHoleList := holes } []).blocks = [] := by
    change [] ++ mm.pageTableFrames.map _ = []
    rw [booted.noFrames]
    rfl
  rw [noBlocks]
  exact booted.hinted positive fits bound limit adjoining

theorem pageRun_hinted {hv : Hypervisor} {state : PageRun}
    (reached : Reach BootRun (PageStep hv) HintSafe state) : Hinted state.mm state.blocks := by
  refine Reach.invariant (fun state => Hinted state.mm state.blocks)
    (fun _ begun => bootRun_hinted begun) (fun before op after holds allowed move => ?_) reached
  refine hinted_preserved.pageStep (fun same held run => ?_) holds move
  rw [same] at allowed
  exact held.release allowed run

def bootThen (hv : Hypervisor) (guard : PageRun → PageOp → Prop)
    [∀ state op, Decidable (guard state op)] (memory : Bitmap) (maxReservation min max : Nat)
    (ops : List PageOp) : Option PageRun :=
  match initPageAllocator memory maxReservation min max with
  | .ok mm => runLabels (pageStep hv) guard ops ⟨{ mm with memoryHoleList := [] }, []⟩
  | .error _ => none

theorem bootThen_reach {hv : Hypervisor} {guard : PageRun → PageOp → Prop}
    [∀ state op, Decidable (guard state op)] {memory : Bitmap} {maxReservation min max : Nat}
    {ops : List PageOp} {state : PageRun} (positive : 0 < min)
    (fits : min + bitmapPages maxReservation ≤ max) (bound : max ≤ maxReservation)
    (limit : maxReservation ≤ maxIntPages)
    (run : bootThen hv guard memory maxReservation min max ops = some state) :
    Reach BootRun (PageStep hv) guard state := by
  unfold bootThen at run
  split at run
  · rename_i mm boot
    have begun : Reach BootRun (PageStep hv) guard ⟨{ mm with memoryHoleList := [] }, []⟩ :=
      .start ⟨memory, maxReservation, min, max, mm, [], boot, positive, fits, bound, limit,
        Or.inl rfl, rfl⟩
    exact Reach.of_runLabels begun run
  · contradiction

/-- Without a release that `HintSafe` excludes, a request fails only when neither
region it may use has a run for it. -/
theorem pageRun_complete (hv : Hypervisor) {state : PageRun}
    (reached : Reach BootRun (PageStep hv) HintSafe state) {n : Nat} (positive : 1 ≤ n)
    (failed : ∀ after result, allocatePages hv state.mm n = .ok (after, result) → result = 0) :
    (∀ start, state.mm.firstBulkPage ≤ start → start + n ≤ state.mm.endAllocPage →
      ¬FreeRun state.mm start n) ∧
    (n < bulkAllocation → ∀ start, state.mm.firstAllocPage ≤ start →
      start + n ≤ state.mm.firstBulkPage → ¬FreeRun state.mm start n) := by
  obtain ⟨inBulk, inSmall⟩ := (pageRun_hinted reached).complete hv positive failed
  exact ⟨inBulk, fun small => inSmall (decide_eq_false (Nat.not_le.mpr small))⟩

/-- With every frame allocated the next request fails, and rightly so. -/
theorem pageRun_complete_fourPages : ∃ state,
    bootThen exhaustedHypervisor HintSafe (fun _ => 0#64) 50 1 4
        [.allocatePages 1, .allocatePages 1, .allocatePages 1] = some state ∧
      (∀ start, state.mm.firstBulkPage ≤ start → start + 1 ≤ state.mm.endAllocPage →
        ¬FreeRun state.mm start 1) ∧
      (1 < bulkAllocation → ∀ start, state.mm.firstAllocPage ≤ start →
        start + 1 ≤ state.mm.firstBulkPage → ¬FreeRun state.mm start 1) := by
  have full : (bootThen exhaustedHypervisor HintSafe (fun _ => 0#64) 50 1 4
      [.allocatePages 1, .allocatePages 1, .allocatePages 1]).any
        (fun state => !(allocatePages exhaustedHypervisor state.mm 1).toBool) = true := by rfl
  obtain ⟨state, run, crash⟩ := (Option.any_eq_true _ _).mp full
  have reached : Reach BootRun (PageStep exhaustedHypervisor) HintSafe state :=
    bootThen_reach (by decide) (by decide) (by decide) (by decide) run
  refine ⟨state, run, pageRun_complete exhaustedHypervisor reached (by decide) ?_⟩
  intro after result success
  rw [success] at crash
  contradiction

/-- Frame 1 is the small region; frames 2 and 3 are served from the bulk region. -/
def fallbackHistory : List PageOp :=
  [.allocatePages 1, .allocatePages 1, .allocatePages 1, .deallocatePages ⟨2, 1⟩]

theorem small_block_of_the_bulk_region_is_lost : ∃ state,
    Reach BootRun (PageStep exhaustedHypervisor) Always state ∧
      holePages state.mm.memoryHoleList = 0 ∧
      (∀ after result, allocatePages exhaustedHypervisor state.mm 1 = .ok (after, result) →
        result = 0) ∧
      ∃ start, state.mm.firstBulkPage ≤ start ∧ start + 1 ≤ state.mm.endAllocPage ∧
        FreeRun state.mm start 1 := by
  have lost : (bootThen exhaustedHypervisor Always (fun _ => 0#64) 50 1 4 fallbackHistory).any
      (fun state => decide (holePages state.mm.memoryHoleList = 0 ∧
        (allocatePages exhaustedHypervisor state.mm 1).toBool = false ∧
        state.mm.firstBulkPage ≤ 2 ∧ 3 ≤ state.mm.endAllocPage ∧
        state.mm.allocated 2 = false)) = true := by rfl
  obtain ⟨state, run, facts⟩ := (Option.any_eq_true _ _).mp lost
  obtain ⟨holes, crash, bulk, final, free⟩ := of_decide_eq_true facts
  refine ⟨state, bootThen_reach (by decide) (by decide) (by decide) (by decide) run, holes, ?_, 2, bulk, final, ?_⟩
  · intro after result success
    rw [success] at crash
    contradiction
  · intro page inside
    rw [show page = 2 by omega]
    exact free

end Stardust.Mm
