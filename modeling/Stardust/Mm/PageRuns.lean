import Stardust.Mm.AllocatorRuns
import Stardust.Mm.Boot

/-! # Sequences of `allocate_pages` and `deallocate_pages`

A run starts from an allocator whose bitmap marks its range free and takes any
sequence of requests and of releases of live blocks.  `pageRun_safe` is the
safety of every state such a run reaches. -/
set_option autoImplicit false
namespace Stardust.Mm

open Stardust.Lib

inductive PageOp
  | allocatePages (n : Nat)
  | deallocatePages (block : Block)
  deriving DecidableEq

/-- The allocator together with the blocks its callers hold. -/
structure PageRun where
  mm : PageAllocator
  live : List Block

def PageRun.blocks (state : PageRun) : List Block := blocksOf state.mm state.live

/-- One call; a live block is given back exactly as it was allocated. -/
def pageStep (hv : Hypervisor) (state : PageRun) : PageOp → Option PageRun
  | .allocatePages n =>
    if 1 ≤ n then
      match allocatePages hv state.mm n with
      | .ok (mm, result) => some ⟨mm, granted state.live result n⟩
      | .error _ => none
    else none
  | .deallocatePages block =>
    if block ∈ state.live then
      match deallocatePages state.mm (pfnToVirt block.page) block.count with
      | .ok mm => some ⟨mm, state.live.erase block⟩
      | .error _ => none
    else none

theorem pageStep_cases {hv : Hypervisor} {state after : PageRun} {op : PageOp}
    (move : pageStep hv state op = some after) :
    (∃ n result, op = .allocatePages n ∧ 1 ≤ n ∧
      allocatePages hv state.mm n = .ok (after.mm, result) ∧
      after.live = granted state.live result n) ∨
    (∃ block, op = .deallocatePages block ∧ block ∈ state.live ∧
      deallocatePages state.mm (pfnToVirt block.page) block.count = .ok after.mm ∧
      after.live = state.live.erase block) := by
  cases op with
  | allocatePages n =>
    simp only [pageStep] at move
    split at move
    · rename_i positive
      split at move
      · rename_i mm result run
        cases Option.some.inj move
        exact Or.inl ⟨n, result, rfl, positive, run, rfl⟩
      · contradiction
    · contradiction
  | deallocatePages block =>
    simp only [pageStep] at move
    split at move
    · rename_i owned
      split at move
      · rename_i mm run
        cases Option.some.inj move
        exact Or.inr ⟨block, rfl, owned, run, rfl⟩
      · contradiction
    · contradiction

abbrev PageStep (hv : Hypervisor) (before : PageRun) (op : PageOp) (after : PageRun) : Prop :=
  pageStep hv before op = some after

/-- One step keeps what claiming, absorbing and releasing keep. -/
theorem Preserved.pageStep {P : PageAllocator → List Block → Prop} (preserved : Preserved P)
    {hv : Hypervisor} {state after : PageRun} {op : PageOp}
    (release : ∀ {mm : PageAllocator} {block : Block} {rest : List Block},
      op = .deallocatePages block → P state.mm (block :: rest) →
      deallocatePages state.mm (pfnToVirt block.page) block.count = .ok mm → P mm rest)
    (holds : P state.mm state.blocks) (move : PageStep hv state op after) :
    P after.mm after.blocks := by
  rcases pageStep_cases move with ⟨n, result, _, _, run, live⟩ | ⟨block, same, owned, run, live⟩
  · have kept := preserved.allocatePages hv n holds run
    rw [PageRun.blocks, live]
    exact kept
  · have order : state.blocks.Perm (block :: blocksOf state.mm (state.live.erase block)) :=
      (List.perm_cons_erase owned).append_right _
    have kept := release same (preserved.perm holds order) run
    obtain ⟨freed, _, built⟩ := Halt.bind_eq_ok.mp run
    have frames : after.mm.pageTableFrames = state.mm.pageTableFrames := by
      rw [← Except.ok.inj built]
      exact (releaseHint_fields ..).2.2.2.2.2.2
    rw [PageRun.blocks, live, blocksOf, frames]
    exact kept

/-! ## Safety -/

/-- `Safe`, with nothing free below the range: a scan that starts below it, at a
hint that was never checked, still finds pages of the range only. -/
structure Guarded (mm : PageAllocator) (blocks : List Block) : Prop extends Safe mm blocks where
  below : ∀ page, page < mm.firstAllocPage → mm.allocated page = true

theorem Guarded.found {mm : PageAllocator} {blocks : List Block} (guarded : Guarded mm blocks)
    {n page : Nat} {isBulkAlloc : Bool} (found : search mm n isBulkAlloc = some page) :
    1 ≤ n ∧ mm.firstAllocPage ≤ page ∧ page + n ≤ mm.endAllocPage ∧ FreeRun mm page n := by
  obtain ⟨_, positive, bound, free⟩ := search_sound mm found
  refine ⟨positive, ?_, ?_, free⟩
  · by_contra under
    have taken := guarded.below page (by omega)
    rw [free page (by omega)] at taken
    contradiction
  · have regions := guarded.regions
    unfold endPageOf at bound
    split at bound <;> omega

theorem Safe.hole {mm : PageAllocator} {blocks : List Block} (safe : Safe mm blocks)
    {hole : MemoryHole} {rest : List MemoryHole} (listed : mm.memoryHoleList = hole :: rest) :
    ∃ last, hole = ⟨mm.endAllocPage, last⟩ ∧ rest = [] ∧
      ulongSub hole.endPfn hole.startPfn = last - mm.endAllocPage := by
  rcases safe.holes with none | ⟨last, one, least, limit⟩
  · rw [none] at listed
    contradiction
  · rw [one] at listed
    cases listed
    unfold maxPages at limit
    have fits : last < 2 ^ 64 := by omega
    exact ⟨last, rfl, rfl, ulongSub_eq least fits⟩

theorem Safe.absorbHole {mm after : PageAllocator} {blocks : List Block} (safe : Safe mm blocks)
    {hole : MemoryHole} {rest : List MemoryHole} {rc : Nat}
    (listed : mm.memoryHoleList = hole :: rest) (positive : 0 < rc)
    (fits : rc ≤ ulongSub hole.endPfn hole.startPfn)
    (run : absorbHole mm hole rest (ulongSub hole.endPfn hole.startPfn) rc = .ok after) :
    Safe after blocks := by
  obtain ⟨last, rfl, rfl, size⟩ := safe.hole listed
  exact safe.absorb positive (by omega) listed run

/-- Absorbing part of the hole leaves the pages below it and the hints as they were. -/
theorem Safe.absorbHole_frame {mm after : PageAllocator} {blocks : List Block}
    (safe : Safe mm blocks) {hole : MemoryHole} {rest : List MemoryHole} {rc : Nat}
    (listed : mm.memoryHoleList = hole :: rest)
    (fits : rc ≤ ulongSub hole.endPfn hole.startPfn)
    (run : Mm.absorbHole mm hole rest (ulongSub hole.endPfn hole.startPfn) rc = .ok after) :
    (∀ page, page < mm.endAllocPage → after.allocated page = mm.allocated page) ∧
      after.firstAllocPage = mm.firstAllocPage ∧ after.firstBulkPage = mm.firstBulkPage ∧
      after.endAllocPage = mm.endAllocPage + rc ∧ after.firstFreePage = mm.firstFreePage ∧
      after.firstFreeBulkPage = mm.firstFreeBulkPage := by
  have addressable := safe.addressable
  unfold maxPages at addressable
  obtain ⟨last, rfl, rfl, size⟩ := safe.hole listed
  have bound : last ≤ maxPages := by
    rcases safe.holes with none | ⟨other, one, _, limit⟩
    · rw [none] at listed
      contradiction
    · rw [one] at listed
      cases listed
      exact limit
  unfold maxPages at bound
  rw [size] at fits
  have inside : mm.endAllocPage + rc < 2 ^ 64 := by omega
  obtain ⟨actual, actualRun, marked, _, first, final, bulk, _, _, _, hint, bulkHint⟩ :=
    absorbHole_ok mm ⟨mm.endAllocPage, last⟩ []
      (ulongSub (MemoryHole.mk mm.endAllocPage last).endPfn mm.endAllocPage) inside
  cases Except.ok.inj (actualRun.symm.trans run)
  refine ⟨fun page under => ?_, first, bulk, ?_, hint, bulkHint⟩
  · have outside : ¬InRange mm.endAllocPage rc page := by omega
    rw [marked, decide_eq_false outside, Bool.not_false, Bool.and_true]
  · rw [final]
    exact Nat.max_eq_right (Nat.le_add_right ..)

theorem Safe.record {mm : PageAllocator} {blocks : List Block} (safe : Safe mm blocks)
    (frames : List Nat) (calls : Nat) (growing : Bool) :
    Safe { mm with
      pageTableFrames := frames, reservations := calls, inIncreaseMemory := growing } blocks :=
  ⟨safe.positive, safe.ordered, safe.addressable, safe.regions, safe.holes, safe.inside,
    safe.apart, safe.exact, safe.counted⟩

theorem guarded_preserved : Preserved Guarded where
  found guarded found := by
    have positive := guarded.positive
    have addressable := guarded.addressable
    obtain ⟨_, start, bound, _⟩ := guarded.found found
    exact ⟨by omega, by omega⟩
  claim guarded _ found := by
    have addressable := guarded.addressable
    unfold maxPages at addressable
    obtain ⟨positive, start, bound, free⟩ := guarded.found found
    refine ⟨guarded.toSafe.claim _ positive start bound free, fun page under => ?_⟩
    rw [claimPages_firstAllocPage] at under
    rw [claimPages_allocated _ _ _ _ (by omega), guarded.below page under, Bool.true_or]
  absorb guarded listed positive fits run := by
    have ordered := guarded.ordered
    obtain ⟨kept, first, _⟩ := guarded.toSafe.absorbHole_frame listed fits run
    refine ⟨guarded.toSafe.absorbHole listed positive fits run, fun page under => ?_⟩
    rw [first] at under
    rw [kept page (by omega)]
    exact guarded.below page under
  record frames calls growing guarded :=
    ⟨guarded.toSafe.record frames calls growing, guarded.below⟩
  perm guarded same := ⟨guarded.toSafe.perm same, guarded.below⟩

theorem Guarded.release {mm after : PageAllocator} {block : Block} {rest : List Block}
    (guarded : Guarded mm (block :: rest))
    (run : deallocatePages mm (pfnToVirt block.page) block.count = .ok after) :
    Guarded after rest := by
  obtain ⟨nonempty, low, high⟩ := guarded.inside block (List.mem_cons_self ..)
  have addressable := guarded.addressable
  have page : virtToPfn (pfnToVirt block.page) = block.page := virtToPfn_pfnToVirt (by omega)
  unfold maxPages at addressable
  have fits : virtToPfn (pfnToVirt block.page) + block.count < 2 ^ 64 := by omega
  obtain ⟨actual, actualRun, marked, _, first, _⟩ := deallocatePages_ok mm _ fits
  cases Except.ok.inj (actualRun.symm.trans run)
  refine ⟨guarded.toSafe.release run, fun other under => ?_⟩
  rw [first] at under
  have outside : ¬InRange block.page block.count other := by omega
  rw [marked, page, guarded.below other under, decide_eq_false outside]
  rfl

/-- What `arch_init_mm` starts from: the range is free, nothing below it is, and
memory that the hypervisor has not populated yet adjoins it. -/
structure Fresh (mm : PageAllocator) : Prop where
  positive : 0 < mm.firstAllocPage
  ordered : mm.firstAllocPage ≤ mm.endAllocPage
  addressable : mm.endAllocPage ≤ maxPages
  regions : mm.firstBulkPage ≤ mm.endAllocPage
  holes : mm.memoryHoleList = [] ∨
    ∃ last, mm.memoryHoleList = [⟨mm.endAllocPage, last⟩] ∧ mm.endAllocPage ≤ last ∧ last ≤ maxPages
  marked : ∀ page, page < mm.endAllocPage →
    (mm.allocated page = false ↔ mm.firstAllocPage ≤ page)
  counted : mm.numFreePages = mm.endAllocPage - mm.firstAllocPage
  noFrames : mm.pageTableFrames = []

/-- Boot leaves such an allocator when the bitmap fills whole pages. -/
theorem Booted.fresh {memory : Bitmap} {maxReservation min max : Nat} {mm : PageAllocator}
    (booted : Booted memory maxReservation min max mm) (positive : 0 < min)
    (fits : min + bitmapPages maxReservation ≤ max) (bound : max ≤ maxReservation)
    (addressable : maxReservation ≤ maxPages) (whole : maxReservation % bitsPerPage = 0) :
    Fresh mm where
  positive := by
    rw [booted.first]
    omega
  ordered := by
    rw [booted.first, booted.final]
    exact fits
  addressable := by
    rw [booted.final]
    omega
  regions := by
    rw [booted.final]
    exact booted.bulkBounds.1
  holes := Or.inl booted.noHoles
  marked page within := by
    have covered : bitmapPages maxReservation * bitsPerPage = maxReservation :=
      Nat.div_mul_cancel (Nat.dvd_of_mod_eq_zero whole)
    rw [booted.final] at within
    have inMap : page < bitmapPages maxReservation * bitsPerPage := by omega
    rw [booted.marked, booted.first, decide_eq_true inMap, Bool.true_or, Bool.true_and]
    simp [within]
  counted := by
    rw [booted.counted, booted.first, booted.final]
    unfold maxPages at addressable
    exact ulongSub_eq fits (by omega)
  noFrames := booted.noFrames

theorem Fresh.guarded {mm : PageAllocator} (fresh : Fresh mm) : Guarded mm [] where
  toSafe := Safe.ofFree fresh.positive fresh.ordered fresh.addressable fresh.regions fresh.holes
    (fun page lower upper => (fresh.marked page upper).mpr lower) fresh.counted
  below page under := by
    have ordered := fresh.ordered
    have unfree := (fresh.marked page (by omega)).not.mpr (by omega)
    simpa using unfree

def FreshRun (state : PageRun) : Prop := Fresh state.mm ∧ state.live = []

theorem pageStep_guarded {hv : Hypervisor} {state after : PageRun} {op : PageOp}
    (guarded : Guarded state.mm state.blocks) (move : PageStep hv state op after) :
    Guarded after.mm after.blocks :=
  guarded_preserved.pageStep (fun _ holds run => holds.release run) guarded move

theorem pageRun_guarded {hv : Hypervisor} {state : PageRun}
    (reached : Reach FreshRun (PageStep hv) Always state) : Guarded state.mm state.blocks := by
  refine Reach.invariant (fun state => Guarded state.mm state.blocks) (fun start begun => ?_)
    (fun _ _ _ holds _ move => pageStep_guarded holds move) reached
  obtain ⟨fresh, none⟩ := begun
  rw [PageRun.blocks, none, blocksOf, fresh.noFrames]
  exact fresh.guarded

/-- The live blocks, callers' and page-table frames alike, are disjoint and
inside the range, and the bitmap and `num_free_pages` tell exactly them. -/
theorem pageRun_safe (hv : Hypervisor) {state : PageRun}
    (reached : Reach FreshRun (PageStep hv) Always state) :
    state.blocks.Pairwise Block.Apart ∧
    (∀ block ∈ state.blocks, state.mm.firstAllocPage ≤ block.page ∧
      block.page + block.count ≤ state.mm.endAllocPage) ∧
    (∀ page, state.mm.firstAllocPage ≤ page → page < state.mm.endAllocPage →
      (state.mm.allocated page = true ↔
        ∃ block ∈ state.blocks, InRange block.page block.count page)) ∧
    state.mm.numFreePages = (freePages state.mm).card := by
  have guarded := pageRun_guarded reached
  exact ⟨guarded.apart, fun block member => (guarded.inside block member).2, guarded.exact,
    guarded.counted⟩

/-- A hypervisor that has no more memory to give. -/
def exhaustedHypervisor : Hypervisor where
  populatePhysmap _ _ := 0
  populated_le _ _ := Int.natCast_nonneg _
  pageTableFrames _ _ := 0
  mapped _ _ := false

/-- Frames 3 to 7 of a machine are free. -/
def fivePages : PageAllocator where
  allocBitmapAddress := 4096
  allocBitmap := Function.update (fun _ => BitVec.allOnes 64) 0 0xFFFFFFFFFFFFFF07#64
  firstAllocPage := 3
  endAllocPage := 8
  maxEndAllocPage := 32768
  firstFreePage := 3
  firstBulkPage := 5
  firstFreeBulkPage := 5
  numFreePages := 5
  numFreeBulkPages := 3
  memoryHoleList := []
  inIncreaseMemory := false
  pageTableFrames := []
  reservations := 0

theorem fivePages_fresh : Fresh fivePages :=
  ⟨by decide, by decide, by decide, by decide, Or.inl rfl, by decide, rfl, rfl⟩

/-- Two pages from the small region, then two that fall back to the bulk region. -/
theorem pageRun_safe_fivePages :
    ∃ state, runLabels (pageStep exhaustedHypervisor) Always
        [.allocatePages 2, .allocatePages 2, .deallocatePages ⟨3, 2⟩] ⟨fivePages, []⟩ = some state ∧
      state.blocks.Pairwise Block.Apart ∧
      (∀ block ∈ state.blocks, state.mm.firstAllocPage ≤ block.page ∧
        block.page + block.count ≤ state.mm.endAllocPage) ∧
      (∀ page, state.mm.firstAllocPage ≤ page → page < state.mm.endAllocPage →
        (state.mm.allocated page = true ↔
          ∃ block ∈ state.blocks, InRange block.page block.count page)) ∧
      state.mm.numFreePages = (freePages state.mm).card := by
  have runs : (runLabels (pageStep exhaustedHypervisor) Always
      [.allocatePages 2, .allocatePages 2, .deallocatePages ⟨3, 2⟩] ⟨fivePages, []⟩).isSome :=
    by rfl
  obtain ⟨state, run⟩ := Option.isSome_iff_exists.mp runs
  have begun : Reach FreshRun (PageStep exhaustedHypervisor) Always ⟨fivePages, []⟩ :=
    .start ⟨fivePages_fresh, rfl⟩
  exact ⟨state, run, pageRun_safe _ (Reach.of_runLabels begun run)⟩

end Stardust.Mm
