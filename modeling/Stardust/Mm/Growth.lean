import Mathlib.Data.List.Nodup
import Stardust.Mm.AllocatorTermination

/-! # Growing into several holes

`increase_memory_holding_lock` takes page frames off the front of `memory_hole_list`
and marks them free.  While the lock is released, `build_pagetable` may take frames for
page tables out of the pages that are free by then, each counted out again.  `Ledger`
is the account of both. -/
set_option autoImplicit false
namespace Stardust.Mm

open Stardust.Lib

/-! ## The page frames of the holes -/

def MemoryHole.pfns (hole : MemoryHole) : List Nat :=
  List.range' hole.startPfn (hole.endPfn - hole.startPfn)

def holePfns (holes : List MemoryHole) : List Nat := holes.flatMap MemoryHole.pfns

section Pfns
variable {hole : MemoryHole} {rest : List MemoryHole} {pfn rc : Nat}

theorem MemoryHole.mem_pfns : pfn ∈ hole.pfns ↔ hole.startPfn ≤ pfn ∧ pfn < hole.endPfn := by
  rw [MemoryHole.pfns, List.mem_range'_1]
  omega

theorem holePfns_cons : holePfns (hole :: rest) = hole.pfns ++ holePfns rest := rfl

/-- Populating the front of the first hole. -/
theorem holePfns_take (fits : rc ≤ hole.endPfn - hole.startPfn) :
    (holePfns (hole :: rest)).take rc = List.range' hole.startPfn rc := by
  have length : rc ≤ hole.pfns.length := by rwa [MemoryHole.pfns, List.length_range']
  rw [holePfns_cons, List.take_append_of_le_length length, MemoryHole.pfns,
    List.take_range'_of_length_ge fits]

theorem holePfns_drop (fits : rc ≤ hole.endPfn - hole.startPfn) :
    (holePfns (hole :: rest)).drop rc =
      holePfns (if hole.endPfn - hole.startPfn = rc then rest
        else ⟨hole.startPfn + rc, hole.endPfn⟩ :: rest) := by
  have length : rc ≤ hole.pfns.length := by rwa [MemoryHole.pfns, List.length_range']
  have front : hole.pfns.drop rc = MemoryHole.pfns ⟨hole.startPfn + rc, hole.endPfn⟩ := by
    rw [MemoryHole.pfns, MemoryHole.pfns, List.drop_range', Nat.mul_one, Nat.sub_sub]
  rw [holePfns_cons, List.drop_append_of_le_length length, front]
  by_cases whole : hole.endPfn - hole.startPfn = rc
  · have none : MemoryHole.pfns ⟨hole.startPfn + rc, hole.endPfn⟩ = [] := by
      rw [MemoryHole.pfns, List.range'_eq_nil_iff]
      show hole.endPfn - (hole.startPfn + rc) = 0
      omega
    rw [if_pos whole, none, List.nil_append]
  · rw [if_neg whole, holePfns_cons]

end Pfns

/-! ## Holes that may be grown into -/

def MemoryHole.Apart (a b : MemoryHole) : Prop := a.endPfn ≤ b.startPfn ∨ b.endPfn ≤ a.startPfn

/-- The holes are disjoint, and their frames, like frame 0, whose address is `NULL`, are marked
allocated; all frames have addresses. -/
structure Growable (mm : PageAllocator) : Prop where
  null : mm.allocated 0 = true
  addressable : mm.endAllocPage ≤ maxPages ∧ mm.firstBulkPage ≤ maxPages
  bounds : ∀ hole ∈ mm.memoryHoleList,
    0 < hole.startPfn ∧ hole.startPfn ≤ hole.endPfn ∧ hole.endPfn ≤ maxPages
  apart : mm.memoryHoleList.Pairwise MemoryHole.Apart
  marked : ∀ pfn ∈ holePfns mm.memoryHoleList, mm.allocated pfn = true

/-- The search of the bulk region begins within it.  With fewer than `2^32` pages it always will:
`next_free` takes an `int`, which becomes a lower page only from there on. -/
structure BulkHint (mm : PageAllocator) : Prop where
  start : mm.firstBulkPage ≤ mm.firstFreeBulkPage
  range : mm.endAllocPage < 2 ^ 32
  holes : ∀ hole ∈ mm.memoryHoleList, hole.endPfn < 2 ^ 32

section Growable
variable {mm after : PageAllocator} {hole : MemoryHole} {rest : List MemoryHole} {page rc : Nat}
  {isBulkAlloc : Bool} {n : Nat}

/-- The one hole of a booted allocator. -/
theorem Guarded.growable {blocks : List Block} (guarded : Guarded mm blocks)
    (marked : ∀ pfn ∈ holePfns mm.memoryHoleList, mm.allocated pfn = true) : Growable mm := by
  have positive := guarded.positive
  have ordered := guarded.ordered
  have addressable := guarded.addressable
  have region := guarded.regions
  refine ⟨guarded.below 0 positive, ⟨addressable, by omega⟩, ?_, ?_, marked⟩
  · intro hole member
    rcases guarded.holes with none | ⟨last, one, least, limit⟩
    · simp [none] at member
    · rw [one] at member
      cases List.mem_singleton.mp member
      exact ⟨by simp only; omega, least, limit⟩
  · rcases guarded.holes with none | ⟨last, one, _, _⟩
    · rw [none]
      exact List.Pairwise.nil
    · rw [one]
      exact List.pairwise_singleton _ _

theorem Growable.nodup (growable : Growable mm) : (holePfns mm.memoryHoleList).Nodup := by
  rw [holePfns, List.nodup_flatMap]
  refine ⟨fun hole _ => List.nodup_range', growable.apart.imp ?_⟩
  intro a b apart pfn left right
  have inA := MemoryHole.mem_pfns.mp left
  have inB := MemoryHole.mem_pfns.mp right
  unfold MemoryHole.Apart at apart
  omega

theorem Growable.size (growable : Growable mm) (member : hole ∈ mm.memoryHoleList) :
    ulongSub hole.endPfn hole.startPfn = hole.endPfn - hole.startPfn := by
  obtain ⟨_, ordered, limit⟩ := growable.bounds hole member
  unfold maxPages at limit
  exact ulongSub_eq ordered (by omega)

theorem Growable.found (growable : Growable mm) (found : search mm n isBulkAlloc = some page) :
    0 < page ∧ page < maxPages ∧ page + n ≤ maxPages ∧ mm.allocated page = false := by
  obtain ⟨_, positive, bound, free⟩ := search_sound mm found
  have unmarked := free page ⟨Nat.le_refl page, Nat.lt_add_of_pos_right positive⟩
  obtain ⟨limit, bulk⟩ := growable.addressable
  have most : page + n ≤ maxPages := by
    unfold endPageOf at bound
    split at bound <;> omega
  refine ⟨Nat.pos_of_ne_zero ?_, Nat.lt_of_lt_of_le (Nat.lt_add_of_pos_right positive) most, most, unmarked⟩
  rintro rfl
  rw [growable.null] at unmarked
  contradiction

theorem Growable.claim (growable : Growable mm) (found : search mm n isBulkAlloc = some page) :
    Growable (claimPages mm page n isBulkAlloc) := by
  obtain ⟨_, _, limit, _⟩ := growable.found found
  unfold maxPages at limit
  have marked := claimPages_allocated mm page n isBulkAlloc (by omega)
  refine ⟨?_, ?_, ?_, ?_, ?_⟩
  · rw [marked, growable.null, Bool.true_or]
  · simpa using growable.addressable
  · simpa using growable.bounds
  · simpa using growable.apart
  · intro pfn member
    rw [claimPages_memoryHoleList] at member
    rw [marked, growable.marked pfn member, Bool.true_or]

/-- A page that is found lies in the small region, or is counted as one of the bulk region. -/
theorem BulkHint.claim (hint : BulkHint mm) (found : search mm 1 isBulkAlloc = some page) :
    (isBulkAlloc = true → mm.firstBulkPage ≤ page) ∧ BulkHint (claimPages mm page 1 isBulkAlloc) := by
  obtain ⟨least, _, bound, _⟩ := search_sound mm found
  have start := hint.start
  have range := hint.range
  have region : isBulkAlloc = true → mm.firstBulkPage ≤ page ∧ page < mm.endAllocPage := by
    rintro rfl
    simp only [startPageOf, endPageOf, if_true] at least bound
    omega
  refine ⟨fun bulk => (region bulk).1, ?_, by simpa using range, by simpa using hint.holes⟩
  rw [claimPages_firstBulkPage, claimPages_firstFreeBulkPage]
  split
  · next first =>
    obtain ⟨inside, below⟩ := region first.1
    have bound : page + 1 < 2 ^ 32 := by omega
    have next := le_nextFreeLoop mm (Nat.le_of_lt range) mm.endAllocPage bound
    exact Nat.le_trans inside (Nat.le_of_succ_le next)
  · exact start

theorem Growable.record (growable : Growable mm) (frames : List Nat) (calls : Nat)
    (growing : Bool) :
    Growable { mm with
      pageTableFrames := frames, reservations := calls, inIncreaseMemory := growing } :=
  ⟨growable.null, growable.addressable, growable.bounds, growable.apart, growable.marked⟩

/-- What populating the front of the first hole does to the allocator. -/
theorem Growable.absorbHole (growable : Growable mm) (listed : mm.memoryHoleList = hole :: rest)
    (fits : rc ≤ hole.endPfn - hole.startPfn) :
    ∃ after, Mm.absorbHole mm hole rest (hole.endPfn - hole.startPfn) rc = .ok after ∧
      Growable after ∧
      (∀ pfn, after.allocated pfn =
        (mm.allocated pfn && !decide (InRange hole.startPfn rc pfn))) ∧
      after.numFreePages = ulongAdd mm.numFreePages rc ∧
      after.numFreeBulkPages = ulongAdd mm.numFreeBulkPages rc ∧
      after.endAllocPage = max mm.endAllocPage (hole.startPfn + rc) ∧
      holePfns after.memoryHoleList = (holePfns mm.memoryHoleList).drop rc ∧
      after.pageTableFrames = mm.pageTableFrames ∧
      after.inIncreaseMemory = mm.inIncreaseMemory ∧
      after.firstBulkPage = mm.firstBulkPage ∧ (BulkHint mm → BulkHint after) := by
  obtain ⟨positive, ordered, limit⟩ := growable.bounds hole (by simp [listed])
  have limits := limit
  unfold maxPages at limits
  obtain ⟨after, run, marked, count, _, final, bulk, holes, frames, flag, _, bulkHint⟩ :=
    absorbHole_ok mm hole rest (hole.endPfn - hole.startPfn)
      (show hole.startPfn + rc < 2 ^ 64 by omega)
  have countBulk : after.numFreeBulkPages = ulongAdd mm.numFreeBulkPages rc := by
    obtain ⟨_, _, built⟩ := Halt.bind_eq_ok.mp run
    cases Except.ok.inj built
    rfl
  have dropped : holePfns after.memoryHoleList = (holePfns mm.memoryHoleList).drop rc := by
    rw [holes, listed, holePfns_drop fits]
  have kept : ∀ other ∈ after.memoryHoleList, other = ⟨hole.startPfn + rc, hole.endPfn⟩ ∨
      other ∈ rest := by
    intro other member
    rw [holes] at member
    split at member
    · exact Or.inr member
    · exact List.mem_cons.mp member
  have apart := growable.apart
  rw [listed] at apart
  obtain ⟨first, others⟩ := List.pairwise_cons.mp apart
  refine ⟨after, run, ⟨?_, ?_, ?_, ?_, ?_⟩, marked, count, countBulk, final, dropped, frames, flag, bulk,
    fun hint => ⟨?_, ?_, ?_⟩⟩
  · have outside : ¬InRange hole.startPfn rc 0 := by omega
    rw [marked, growable.null, decide_eq_false outside]
    rfl
  · obtain ⟨range, region⟩ := growable.addressable
    rw [final, bulk]
    exact ⟨Nat.max_le.mpr ⟨range, by omega⟩, region⟩
  · intro other member
    rcases kept other member with rfl | old
    · exact ⟨by simp only; omega, by simp only; omega, limit⟩
    · exact growable.bounds other (by simp [listed, old])
  · rw [holes]
    split
    · exact others
    · refine List.pairwise_cons.mpr ⟨fun other member => ?_, others⟩
      have separate := first other member
      unfold MemoryHole.Apart at separate ⊢
      simp only
      omega
  · intro pfn member
    have nodup := growable.nodup
    rw [dropped] at member
    have outside : ¬InRange hole.startPfn rc pfn := by
      intro inside
      have front : pfn ∈ (holePfns mm.memoryHoleList).take rc := by
        rw [listed, holePfns_take fits, List.mem_range'_1]
        exact inside
      rw [← List.take_append_drop rc (holePfns mm.memoryHoleList)] at nodup
      exact (List.nodup_append.mp nodup).2.2 pfn front pfn member rfl
    rw [marked, growable.marked pfn (List.mem_of_mem_drop member), decide_eq_false outside]
    rfl
  · rw [bulk, bulkHint]
    exact hint.start
  · have range := hint.range
    have inHole := hint.holes hole (by simp [listed])
    rw [final]
    exact Nat.max_lt.mpr ⟨range, by omega⟩
  · intro other member
    rcases kept other member with rfl | old
    · exact hint.holes hole (by simp [listed])
    · exact hint.holes other (by simp [listed, old])

end Growable

/-! ## The account of a call -/

/-- What a call has done to the allocator `before` once `grown` pages are populated and
`frames` have been taken for page tables. -/
structure Ledger (before mm : PageAllocator) (grown : Nat) (frames : List Nat) : Prop where
  growable : Growable mm
  /-- the populated frames are those at the front of the holes -/
  holes : holePfns mm.memoryHoleList = (holePfns before.memoryHoleList).drop grown
  marked : ∀ pfn, mm.allocated pfn = true ↔
    (before.allocated pfn = true ∧ pfn ∉ (holePfns before.memoryHoleList).take grown) ∨ pfn ∈ frames
  covered : ∀ pfn ∈ (holePfns before.memoryHoleList).take grown, pfn < mm.endAllocPage
  extended : before.endAllocPage ≤ mm.endAllocPage
  counted : ulongAdd mm.numFreePages frames.length = ulongAdd before.numFreePages grown
  bulkStart : mm.firstBulkPage = before.firstBulkPage
  bulkHint : BulkHint before → BulkHint mm
  /-- the frames of the bulk region are counted out of it, and no others as long as its search
  begins within it -/
  countedBulk : ∃ bulk ≤ frames.length,
    frames.countP (before.firstBulkPage ≤ ·) ≤ bulk ∧
    (BulkHint before → bulk = frames.countP (before.firstBulkPage ≤ ·)) ∧
    ulongAdd mm.numFreeBulkPages bulk = ulongAdd before.numFreeBulkPages grown
  taken : mm.pageTableFrames = frames ++ before.pageTableFrames
  /-- a frame was free from the start, or had just been populated -/
  free : ∀ frame ∈ frames, before.allocated frame = false ∨
    frame ∈ (holePfns before.memoryHoleList).take grown
  once : frames.Nodup

section Ledger
variable {before mm after : PageAllocator} {grown : Nat} {frames : List Nat}

theorem Growable.ledger (growable : Growable mm) : Ledger mm mm 0 [] where
  growable := growable
  holes := rfl
  marked := by simp
  covered := by simp
  extended := Nat.le_refl _
  counted := rfl
  bulkStart := rfl
  bulkHint := id
  countedBulk := ⟨0, Nat.le_refl 0, Nat.le_refl 0, fun _ => rfl, rfl⟩
  taken := rfl
  free := nofun
  once := List.nodup_nil

theorem Ledger.record (ledger : Ledger before mm grown frames) (calls : Nat) (growing : Bool) :
    Ledger before { mm with reservations := calls, inIncreaseMemory := growing } grown frames :=
  ⟨ledger.growable.record mm.pageTableFrames calls growing, ledger.holes, ledger.marked,
    ledger.covered, ledger.extended, ledger.counted, ledger.bulkStart,
    fun hint => ⟨(ledger.bulkHint hint).start, (ledger.bulkHint hint).range, (ledger.bulkHint hint).holes⟩,
    ledger.countedBulk, ledger.taken, ledger.free, ledger.once⟩

/-- A frame counts as one of the bulk region where the search for it went there. -/
theorem Ledger.claim_countedBulk (ledger : Ledger before mm grown frames) {page : Nat} {isBulkAlloc : Bool}
    (found : search mm 1 isBulkAlloc = some page) :
    ∃ bulk ≤ (page :: frames).length,
      (page :: frames).countP (before.firstBulkPage ≤ ·) ≤ bulk ∧
      (BulkHint before → bulk = (page :: frames).countP (before.firstBulkPage ≤ ·)) ∧
      ulongAdd (claimPages mm page 1 isBulkAlloc).numFreeBulkPages bulk =
        ulongAdd before.numFreeBulkPages grown := by
  obtain ⟨bulk, few, least, exact, count⟩ := ledger.countedBulk
  obtain ⟨_, _, bound, _⟩ := search_sound mm found
  have region (hint : BulkHint before) := ((ledger.bulkHint hint).claim found).1
  rw [ledger.bulkStart] at region
  rw [List.countP_cons]
  cases isBulkAlloc with
  | false =>
    have small : ¬before.firstBulkPage ≤ page := by
      rw [← ledger.bulkStart]
      exact Nat.not_le.mpr bound
    rw [if_neg (by simpa using small)]
    exact ⟨bulk, Nat.le_succ_of_le few, least, exact, count⟩
  | true =>
    refine ⟨bulk + 1, Nat.succ_le_succ few, by split <;> omega, fun hint => ?_, ?_⟩
    · rw [if_pos (by simpa using region hint rfl), exact hint]
    · show ulongAdd (ulongSub mm.numFreeBulkPages 1) (bulk + 1) = _
      simp only [ulongAdd, ulongSub] at count ⊢
      omega

/-- A frame for a page table. -/
theorem Ledger.claim (ledger : Ledger before mm grown frames) {page : Nat} {isBulkAlloc : Bool}
    (found : search mm 1 isBulkAlloc = some page) :
    Ledger before { claimPages mm page 1 isBulkAlloc with
      pageTableFrames := page :: mm.pageTableFrames } grown (page :: frames) := by
  obtain ⟨_, limit, _, unmarked⟩ := ledger.growable.found found
  unfold maxPages at limit
  have claimed := claimPages_allocated mm page 1 isBulkAlloc (by omega)
  have isPage : ∀ pfn, InRange page 1 pfn ↔ pfn = page := by
    intro pfn
    omega
  have known := ledger.marked page
  rw [unmarked, Bool.false_eq_true, false_iff, not_or, not_and, not_not] at known
  obtain ⟨populated, fresh⟩ := known
  refine ⟨?_, ?_, ?_, ?_, ?_, ?_, ?_, fun hint => ?_, ?_, ?_, ?_,
    List.nodup_cons.mpr ⟨fresh, ledger.once⟩⟩
  · exact (ledger.growable.claim found).record (page :: mm.pageTableFrames) _ _
  · simpa using ledger.holes
  · intro pfn
    show (claimPages mm page 1 isBulkAlloc).allocated pfn = true ↔ _
    rw [claimed, Bool.or_eq_true, decide_eq_true_eq, ledger.marked pfn, isPage, List.mem_cons,
      or_assoc, or_comm (a := pfn ∈ frames)]
  · simpa using ledger.covered
  · simpa using ledger.extended
  · have before := ledger.counted
    simp only [claimPages_numFreePages, List.length_cons]
    simp only [ulongAdd, ulongSub] at before ⊢
    omega
  · simpa using ledger.bulkStart
  · obtain ⟨start, range, holes⟩ := ((ledger.bulkHint hint).claim found).2
    exact ⟨start, range, holes⟩
  · exact ledger.claim_countedBulk found
  · rw [ledger.taken]
    rfl
  · intro frame member
    rcases List.mem_cons.mp member with rfl | old
    · by_cases start : before.allocated frame = true
      · exact Or.inr (populated start)
      · exact Or.inl (Bool.not_eq_true _ ▸ start)
    · exact ledger.free frame old

/-- No frame was taken from what is still a hole. -/
theorem Ledger.not_mem_holes (ledger : Ledger before mm grown frames) (start : Growable before) {pfn : Nat}
    (member : pfn ∈ frames) : pfn ∉ holePfns mm.memoryHoleList := by
  intro later
  rw [ledger.holes] at later
  rcases ledger.free pfn member with unmarked | populated
  · rw [start.marked pfn (List.mem_of_mem_drop later)] at unmarked
    contradiction
  · have nodup := start.nodup
    rw [← List.take_append_drop grown (holePfns before.memoryHoleList)] at nodup
    exact (List.nodup_append.mp nodup).2.2 pfn populated pfn later rfl

/-- The front of the first hole. -/
theorem Ledger.absorb (ledger : Ledger before mm grown frames) (start : Growable before)
    {hole : MemoryHole} {rest : List MemoryHole} {rc : Nat}
    (listed : mm.memoryHoleList = hole :: rest) (fits : rc ≤ hole.endPfn - hole.startPfn) :
    ∃ after, absorbHole mm hole rest (hole.endPfn - hole.startPfn) rc = .ok after ∧
      after.inIncreaseMemory = mm.inIncreaseMemory ∧ Ledger before after (grown + rc) frames := by
  obtain ⟨after, run, growable, marked, count, countBulk, final, holes, taken, flag, bulkStart, bulkHint⟩ :=
    ledger.growable.absorbHole listed fits
  have front : (holePfns before.memoryHoleList).take (grown + rc) =
      (holePfns before.memoryHoleList).take grown ++ List.range' hole.startPfn rc := by
    rw [List.take_add, ← ledger.holes, listed, holePfns_take fits]
  have isFront : ∀ pfn, pfn ∈ (holePfns before.memoryHoleList).take (grown + rc) ↔
      pfn ∈ (holePfns before.memoryHoleList).take grown ∨ InRange hole.startPfn rc pfn := by
    intro pfn
    rw [front, List.mem_append, List.mem_range'_1]
  have outside : ∀ pfn ∈ frames, ¬InRange hole.startPfn rc pfn := by
    intro pfn member inside
    have inHole : pfn ∈ (holePfns mm.memoryHoleList).take rc := by
      rw [listed, holePfns_take fits]
      exact List.mem_range'_1.mpr inside
    exact ledger.not_mem_holes start member (List.mem_of_mem_take inHole)
  refine ⟨after, run, flag, growable, ?_, ?_, ?_, ?_, ?_, bulkStart.trans ledger.bulkStart,
    fun hint => bulkHint (ledger.bulkHint hint), ?_, taken.trans ledger.taken, ?_, ledger.once⟩
  · rw [holes, ledger.holes, List.drop_drop]
  · intro pfn
    rw [marked, Bool.and_eq_true, Bool.not_eq_true', decide_eq_false_iff_not, ledger.marked pfn,
      isFront]
    have apart := outside pfn
    tauto
  · intro pfn member
    rw [final]
    rcases (isFront pfn).mp member with old | new
    · exact Nat.lt_of_lt_of_le (ledger.covered pfn old) (Nat.le_max_left ..)
    · exact Nat.lt_of_lt_of_le new.2 (Nat.le_max_right ..)
  · rw [final]
    exact Nat.le_trans ledger.extended (Nat.le_max_left ..)
  · have before := ledger.counted
    rw [count]
    unfold ulongAdd at before ⊢
    omega
  · obtain ⟨bulk, few, least, exact, before⟩ := ledger.countedBulk
    refine ⟨bulk, few, least, exact, ?_⟩
    rw [countBulk]
    unfold ulongAdd at before ⊢
    omega
  · intro frame member
    rw [isFront]
    exact (ledger.free frame member).imp_right Or.inl

/-! ## The steps of the call -/

/-- A request from within the call finds a page, or the system crashes. -/
theorem Growable.nested (growable : Growable mm) (hv : Hypervisor) (fuel : Nat)
    (growing : mm.inIncreaseMemory = true) :
    allocatePagesWithin hv (fuel + 2) mm 1 = .error .crash ∨
      ∃ page isBulkAlloc, search mm 1 isBulkAlloc = some page ∧
        allocatePagesWithin hv (fuel + 2) mm 1 =
          .ok (claimPages mm page 1 isBulkAlloc, pfnToVirt page) := by
  have small : isBulk 1 = false := rfl
  have served : ∀ {page isBulkAlloc}, search mm 1 isBulkAlloc = some page →
      tryClaim mm 1 isBulkAlloc = (claimPages mm page 1 isBulkAlloc, pfnToVirt page) ∧
        0 < pfnToVirt page := by
    intro page isBulkAlloc found
    obtain ⟨positive, limit, _⟩ := growable.found found
    rw [tryClaim, found]
    exact ⟨rfl, pfnToVirt_pos positive limit⟩
  cases first : search mm 1 false with
  | some page =>
    obtain ⟨claimed, nonzero⟩ := served first
    refine Or.inr ⟨page, false, first, ?_⟩
    simp [allocatePagesWithin, allocateLoop, small, claimed, nonzero, Nat.ne_of_gt nonzero]
  | none =>
    have none : tryClaim mm 1 false = (mm, 0) := by rw [tryClaim, first]
    cases second : search mm 1 true with
    | some page =>
      obtain ⟨claimed, nonzero⟩ := served second
      refine Or.inr ⟨page, true, second, ?_⟩
      simp [allocatePagesWithin, allocateLoop, small, none, claimed, nonzero, Nat.ne_of_gt nonzero]
    | none =>
      have noBulk : tryClaim mm 1 true = (mm, 0) := by rw [tryClaim, second]
      refine Or.inl ?_
      -- growing within the call is refused
      simp [allocatePagesWithin, allocateLoop, small, none, noBulk, increaseMemoryHoldingLock, growing]

section Steps
variable (hv : Hypervisor) (fuel : Nat)

theorem Ledger.takeFrames (ledger : Ledger before mm grown frames)
    (growing : mm.inIncreaseMemory = true) (count : Nat) :
    takeFrames (fun mm => allocatePagesWithin hv (fuel + 2) mm 1) count mm = .error .crash ∨
      ∃ after built more,
        takeFrames (fun mm => allocatePagesWithin hv (fuel + 2) mm 1) count mm = .ok (after, built) ∧
        after.inIncreaseMemory = true ∧ after.memoryHoleList = mm.memoryHoleList ∧
        Ledger before after grown more := by
  induction count generalizing mm frames with
  | zero => exact Or.inr ⟨mm, true, frames, rfl, growing, rfl, ledger⟩
  | succ count ih =>
    rcases ledger.growable.nested hv fuel growing with crash | ⟨page, isBulkAlloc, found, run⟩
    · refine Or.inl ?_
      rw [Mm.takeFrames, crash, Halt.error_bind]
    · obtain ⟨positive, limit, _⟩ := ledger.growable.found found
      have nonzero : ¬pfnToVirt page = 0 := Nat.ne_of_gt (pfnToVirt_pos positive limit)
      have claimed := ledger.claim found
      rw [Mm.takeFrames, run, Halt.ok_bind]
      simp only [if_neg nonzero, virtToPfn_pfnToVirt limit, claimPages_pageTableFrames]
      have holes : (claimPages mm page 1 isBulkAlloc).memoryHoleList = mm.memoryHoleList :=
        claimPages_memoryHoleList mm page 1 isBulkAlloc
      have flagged : (claimPages mm page 1 isBulkAlloc).inIncreaseMemory = true := by
        rw [claimPages_inIncreaseMemory]
        exact growing
      rcases ih claimed flagged with crash | rest
      · exact Or.inl crash
      · obtain ⟨after, built, more, finish, flag, same, final⟩ := rest
        exact Or.inr ⟨after, built, more, finish, flag, same.trans holes, final⟩

theorem Ledger.increaseReservation (ledger : Ledger before mm grown frames)
    (growing : mm.inIncreaseMemory = true) {nrPages : Nat} {hole : MemoryHole}
    (fits : nrPages ≤ ulongSub hole.endPfn hole.startPfn) :
    increaseReservation hv (fun mm => allocatePagesWithin hv (fuel + 2) mm 1) mm nrPages hole =
        .error .crash ∨
      ∃ after rc more,
        increaseReservation hv (fun mm => allocatePagesWithin hv (fuel + 2) mm 1) mm nrPages hole =
          .ok (after, rc) ∧
        rc ≤ nrPages ∧ after.inIncreaseMemory = true ∧
        after.memoryHoleList = mm.memoryHoleList ∧ Ledger before after grown more := by
  have bound := hv.populated_le mm.reservations nrPages
  have recorded := ledger.record (mm.reservations + 1) true
  simp only [Mm.increaseReservation, if_neg (Nat.not_lt.mpr fits)]
  by_cases populated : 0 < hv.populatePhysmap mm.reservations nrPages
  · simp only [if_pos populated]
    rw [← growing] at recorded
    rcases recorded.takeFrames hv fuel growing (hv.pageTableFrames mm.reservations nrPages) with
      crash | ⟨after, built, more, run, flag, same, final⟩
    · exact Or.inl (by rw [crash, Halt.error_bind])
    · refine Or.inr ⟨after, _, more, by rw [run, Halt.ok_bind], ?_, flag, same, final⟩
      split <;> omega
  · simp only [if_neg populated]
    rw [← growing] at recorded
    exact Or.inr ⟨_, _, frames, rfl, bound, growing, rfl, recorded⟩

/-- The loop runs to its end, with holes left for as long as pages are missing. -/
theorem Ledger.growLoop (start : Growable before) {turns n : Nat}
    (ledger : Ledger before mm grown frames) (growing : mm.inIncreaseMemory = true)
    (enough : n ≤ turns) (room : n ≤ (holePfns mm.memoryHoleList).length) (fits : n < 2 ^ 64) :
    growLoop hv (fun mm => allocatePagesWithin hv (fuel + 2) mm 1) turns mm n grown = .error .crash ∨
      ∃ after total more,
        growLoop hv (fun mm => allocatePagesWithin hv (fuel + 2) mm 1) turns mm n grown =
          .ok (after, total) ∧ total ≤ grown + n ∧ Ledger before after total more := by
  induction turns generalizing mm grown frames n with
  | zero =>
    have none : n = 0 := Nat.le_zero.mp enough
    exact Or.inr ⟨mm, grown, frames, by rw [Mm.growLoop, if_pos none], Nat.le_add_right .., ledger⟩
  | succ turns ih =>
    rw [Mm.growLoop]
    by_cases none : n = 0
    · exact Or.inr ⟨mm, grown, frames, if_pos none, Nat.le_add_right .., ledger⟩
    rw [if_neg none]
    cases listed : mm.memoryHoleList with
    | nil =>
      rw [listed] at room
      exact absurd (Nat.le_zero.mp room) none
    | cons hole rest =>
      have size := ledger.growable.size (show hole ∈ mm.memoryHoleList by simp [listed])
      simp only [size]
      have part : (if hole.endPfn - hole.startPfn ≤ n then hole.endPfn - hole.startPfn else n) ≤
          ulongSub hole.endPfn hole.startPfn := by
        rw [size]
        split <;> omega
      rcases ledger.increaseReservation hv fuel growing part with
        crash | ⟨mid, rc, more, run, bound, flag, same, kept⟩
      · exact Or.inl (by rw [crash, Halt.error_bind])
      rw [run, Halt.ok_bind]
      by_cases populated : 0 < rc
      · have front : rc.toNat ≤ hole.endPfn - hole.startPfn ∧ rc.toNat ≤ n := by
          split at bound <;> omega
        obtain ⟨absorbed, absorbs, still, next⟩ :=
          kept.absorb start (same.trans listed) front.1
        simp only [if_pos populated, absorbs, Halt.ok_bind, ulongSub_eq front.2 fits]
        have left : (holePfns absorbed.memoryHoleList).length + rc.toNat =
            (holePfns mm.memoryHoleList).length := by
          have total := congrArg List.length next.holes
          have before := congrArg List.length ledger.holes
          rw [List.length_drop] at total before
          omega
        rcases ih (n := n - rc.toNat) next (still.trans flag) (by omega) (by omega) (by omega) with
          crash | ⟨after, total, frames, run, most, final⟩
        · exact Or.inl crash
        · exact Or.inr ⟨after, total, frames, run, by omega, final⟩
      · simp only [if_neg populated]
        exact Or.inr ⟨mid, grown, more, rfl, Nat.le_add_right .., kept⟩

end Steps

end Ledger

/-! ## The whole call -/

/-- When memory can be increased, the holes have as many pages as are asked for. -/
theorem canIncrease_room {holes : List MemoryHole} {n : Nat}
    (sizes : ∀ hole ∈ holes, ulongSub hole.endPfn hole.startPfn = hole.endPfn - hole.startPfn)
    (fits : n < 2 ^ 64) (can : canIncrease holes n ≠ 0) : n ≤ (holePfns holes).length := by
  induction holes generalizing n with
  | nil => exact absurd rfl can
  | cons hole rest ih =>
    have size := sizes hole (List.mem_cons_self ..)
    have length : (holePfns (hole :: rest)).length =
        hole.endPfn - hole.startPfn + (holePfns rest).length := by
      rw [holePfns_cons, List.length_append, MemoryHole.pfns, List.length_range']
    rw [canIncrease] at can
    simp only [size] at can
    split at can
    · omega
    · have less : hole.endPfn - hole.startPfn ≤ n := by omega
      rw [ulongSub_eq less fits] at can
      have later := ih (fun other member => sizes other (List.mem_cons_of_mem hole member))
        (by omega) can
      omega

/-- What `increase_memory_holding_lock(n)` returns and leaves: nothing is changed when
`can_increase(n)` is 0. -/
structure Increased (before after : PageAllocator) (n result : Nat) (frames : List Nat) : Prop where
  ledger : Ledger before after result frames
  most : result ≤ n
  inHoles : result ≤ (holePfns before.memoryHoleList).length
  idle : after.inIncreaseMemory = false
  unchanged : canIncrease before.memoryHoleList n = 0 →
    after = { before with inIncreaseMemory := false } ∧ result = 0

/-- The call returns with its account in order, unless a page table needs a frame and there
is none. -/
theorem increaseMemory_accounts (hv : Hypervisor) (fuel : Nat) {mm : PageAllocator}
    (growable : Growable mm) {n : Nat} (fits : n < 2 ^ 64) :
    increaseMemoryHoldingLock hv (fun mm => allocatePagesWithin hv (fuel + 2) mm 1) mm n =
        .error .crash ∨
      ∃ after result frames,
        increaseMemoryHoldingLock hv (fun mm => allocatePagesWithin hv (fuel + 2) mm 1) mm n =
          .ok (after, result) ∧ Increased mm after n result frames := by
  have refused : Increased mm { mm with inIncreaseMemory := false } n 0 [] :=
    ⟨growable.ledger.record mm.reservations false, Nat.zero_le n, Nat.zero_le _, rfl,
      fun _ => ⟨rfl, rfl⟩⟩
  cases flag : mm.inIncreaseMemory with
  | true => exact Or.inr ⟨_, 0, [], by rw [increaseMemoryHoldingLock, if_pos flag], refused⟩
  | false =>
    simp only [increaseMemoryHoldingLock, flag]
    by_cases can : canIncrease mm.memoryHoleList n = 0
    · exact Or.inr ⟨_, 0, [], by simp [can], refused⟩
    · have room := canIncrease_room (fun hole => growable.size) fits can
      rcases (growable.ledger.record mm.reservations true).growLoop hv fuel growable rfl
          (Nat.le_refl n) room fits with crash | ⟨after, total, frames, run, most, ledger⟩
      · exact Or.inl (by simp [can, crash, Halt.error_bind])
      · refine Or.inr ⟨{ after with inIncreaseMemory := false }, total, frames, ?_,
          ledger.record after.reservations false, by omega, by omega, rfl,
          fun none => absurd none can⟩
        simp [can, run, Halt.ok_bind]

theorem twoHoles_growable : Growable twoHoles :=
  ⟨by decide, by decide, by decide, by unfold MemoryHole.Apart; decide, by decide⟩

theorem increaseMemory_accounts_twoHoles :
    ∃ after result frames,
      increaseMemoryHoldingLock tablesHypervisor
          (fun mm => allocatePagesWithin tablesHypervisor (0 + 2) mm 1) twoHoles 6 =
        .ok (after, result) ∧ Increased twoHoles after 6 result frames := by
  have returns : (increaseMemoryHoldingLock tablesHypervisor
      (fun mm => allocatePagesWithin tablesHypervisor (0 + 2) mm 1) twoHoles 6).toBool = true := by
    decide +kernel
  rcases increaseMemory_accounts tablesHypervisor 0 twoHoles_growable (show 6 < 2 ^ 64 by decide) with
    crash | accounts
  · rw [crash] at returns
    contradiction
  · exact accounts

/-- Six pages are populated, and two of the free ones become page tables on the way. -/
theorem growth_takes_frames :
    ∃ hv mm after result, Growable mm ∧ mm.inIncreaseMemory = false ∧
      increaseMemoryHoldingLock hv (fun mm => allocatePagesWithin hv 2 mm 1) mm 6 =
        .ok (after, result) ∧ after.numFreePages ≠ mm.numFreePages + result := by
  have counts : (increaseMemoryHoldingLock tablesHypervisor
      (fun mm => allocatePagesWithin tablesHypervisor 2 mm 1) twoHoles 6).toOption.map
        (fun outcome => (outcome.1.numFreePages, outcome.2)) = some (9, 6) := by
    decide +kernel
  obtain ⟨⟨after, result⟩, run, same⟩ := Halt.map_toOption_eq_some.mp counts
  refine ⟨tablesHypervisor, twoHoles, after, result, twoHoles_growable, rfl, run, ?_⟩
  have free : after.numFreePages = 9 := congrArg Prod.fst same
  have grown : result = 6 := congrArg Prod.snd same
  rw [free, grown]
  decide

/-! ## Requests of a growable allocator -/

section Requests
variable {mm after : PageAllocator}

/-- A search that finds a page has its address; one that finds none leaves all as it is. -/
theorem Growable.tryClaim (growable : Growable mm) (n : Nat) (isBulkAlloc : Bool) :
    0 < (tryClaim mm n isBulkAlloc).2 ∨ Mm.tryClaim mm n isBulkAlloc = (mm, 0) := by
  rw [Mm.tryClaim]
  cases found : search mm n isBulkAlloc with
  | none => exact Or.inr rfl
  | some page =>
    obtain ⟨positive, limit, _⟩ := growable.found found
    exact Or.inl (pfnToVirt_pos positive limit)

theorem Growable.allocateLoop_error (hv : Hypervisor) (fuel : Nat) {n turns : Nat} (fits : n < 2 ^ 64)
    {isBulkAlloc : Bool} (growable : Growable mm) {halt : Halt}
    (run : allocateLoop
      (fun mm => increaseMemoryHoldingLock hv (fun mm => allocatePagesWithin hv (fuel + 2) mm 1) mm n)
      n turns isBulkAlloc mm = .error halt) : halt = .crash ∨ halt = .fuel := by
  induction turns generalizing mm isBulkAlloc with
  | zero =>
    cases run
    exact Or.inr rfl
  | succ turns ih =>
    rw [allocateLoop] at run
    rcases growable.tryClaim n isBulkAlloc with served | none
    · simp only [if_pos served] at run
      cases run
    · simp only [none, Nat.lt_irrefl, if_false] at run
      split at run
      · exact ih growable run
      · rcases increaseMemory_accounts hv fuel growable fits with crash | ⟨after, grown, _, grew, account⟩
        · rw [crash, Halt.error_bind] at run
          cases run
          exact Or.inl rfl
        · rw [grew, Halt.ok_bind] at run
          split at run
          · cases run
          · exact ih account.ledger.growable run

/-- A request of a growable allocator stops the system in `crash()` only. -/
theorem Growable.allocatePages_error (growable : Growable mm) (hv : Hypervisor) {n : Nat} (fits : n < 2 ^ 31)
    {halt : Halt} (run : allocatePages hv mm n = .error halt) : halt = .crash := by
  have ends := allocatePages_ne_fuel hv mm fits
  rw [run] at ends
  rcases Halt.bind_eq_error.mp run with loop | ⟨⟨mid, result⟩, _, later⟩
  · rcases growable.allocateLoop_error hv _ (by omega) loop with crash | fuel
    · exact crash
    · exact absurd (congrArg Except.error fuel) ends
  · dsimp only at later
    split at later
    · cases later
      rfl
    · cases later

/-- `Guarded`, with the frames of the holes marked allocated, as boot leaves them. -/
structure Marked (mm : PageAllocator) (blocks : List Block) : Prop extends Guarded mm blocks where
  marked : ∀ pfn ∈ holePfns mm.memoryHoleList, mm.allocated pfn = true

theorem Marked.growable {blocks : List Block} (marked : Marked mm blocks) : Growable mm :=
  marked.toGuarded.growable marked.marked

theorem marked_preserved : Preserved Marked where
  found holds found := guarded_preserved.found holds.toGuarded found
  claim holds small found :=
    ⟨guarded_preserved.claim holds.toGuarded small found, (holds.growable.claim found).marked⟩
  absorb holds listed positive fits run := by
    have size := holds.growable.size (listed ▸ List.mem_cons_self ..)
    have guarded := guarded_preserved.absorb holds.toGuarded listed positive fits run
    rw [size] at fits run
    obtain ⟨actual, same, growable, _⟩ := holds.growable.absorbHole listed fits
    cases Except.ok.inj (same.symm.trans run)
    exact ⟨guarded, growable.marked⟩
  record frames calls growing holds :=
    ⟨guarded_preserved.record frames calls growing holds.toGuarded, holds.marked⟩
  perm holds same := ⟨guarded_preserved.perm holds.toGuarded same, holds.marked⟩

theorem Marked.release {block : Block} {rest : List Block} (holds : Marked mm (block :: rest))
    (run : deallocatePages mm (pfnToVirt block.page) block.count = .ok after) : Marked after rest := by
  refine ⟨holds.toGuarded.release run, fun pfn member => ?_⟩
  obtain ⟨nonempty, low, high⟩ := holds.inside block (List.mem_cons_self ..)
  have addressable := holds.addressable
  have page : virtToPfn (pfnToVirt block.page) = block.page := virtToPfn_pfnToVirt (by omega)
  unfold maxPages at addressable
  have fits : virtToPfn (pfnToVirt block.page) + block.count < 2 ^ 64 := by omega
  obtain ⟨actual, same, marks, _, _, _, _, holes, _⟩ := deallocatePages_ok mm _ fits
  cases Except.ok.inj (same.symm.trans run)
  rw [holes] at member
  have behind : mm.endAllocPage ≤ pfn := by
    obtain ⟨hole, listed, inside⟩ := List.mem_flatMap.mp member
    rcases holds.holes with none | ⟨last, one, _⟩
    · simp [none] at listed
    · rw [one] at listed
      cases List.mem_singleton.mp listed
      exact (MemoryHole.mem_pfns.mp inside).1
  have outside : ¬InRange block.page block.count pfn := by omega
  rw [marks, page, holds.marked pfn member, decide_eq_false outside]
  rfl

/-- A fresh allocator, the frames of its hole marked allocated. -/
def MarkedRun (state : PageRun) : Prop :=
  FreshRun state ∧ ∀ pfn ∈ holePfns state.mm.memoryHoleList, state.mm.allocated pfn = true

theorem MarkedRun.marked {state : PageRun} (begun : MarkedRun state) : Marked state.mm state.blocks := by
  obtain ⟨⟨fresh, none⟩, marked⟩ := begun
  rw [PageRun.blocks, none, blocksOf, fresh.noFrames]
  exact ⟨fresh.guarded, marked⟩

/-- Runs keep it from wherever they start with it. -/
theorem pageRun_marked {hv : Hypervisor} {init : PageRun → Prop} {allowed : PageRun → PageOp → Prop}
    (begun : ∀ start, init start → Marked start.mm start.blocks) {state : PageRun}
    (reached : Reach init (PageStep hv) allowed state) : Marked state.mm state.blocks :=
  Reach.invariant (fun state => Marked state.mm state.blocks) begun
    (fun _ _ _ holds _ move => marked_preserved.pageStep (fun _ held run => held.release run) holds move) reached

end Requests

end Stardust.Mm
