import Stardust.Lib.Reach
import Stardust.Mm.AllocatorSafety

/-! # Runs of the page allocator

A property of the allocator and its allocated blocks that survives claiming a
found run and absorbing part of a hole survives a whole `allocate_pages`, with
its fallback to the bulk region, its growth into holes and the page-table frames
taken on the way. -/
set_option autoImplicit false
namespace Stardust.Mm

open Stardust.Lib

/-- The allocated blocks: those of the callers, and one per page-table frame. -/
def blocksOf (mm : PageAllocator) (live : List Block) : List Block :=
  live ++ mm.pageTableFrames.map fun frame => ⟨frame, 1⟩

/-- What the caller holds after a request for `n` pages returned `result`. -/
def granted (live : List Block) (result n : Nat) : List Block :=
  if result = 0 then live else ⟨virtToPfn result, n⟩ :: live

structure Preserved (P : PageAllocator → List Block → Prop) : Prop where
  found : ∀ {mm blocks n isBulkAlloc page}, P mm blocks →
    search mm n isBulkAlloc = some page → 0 < page ∧ page < maxPages
  claim : ∀ {mm blocks n isBulkAlloc page}, P mm blocks →
    (isBulkAlloc = false → isBulk n = false) → search mm n isBulkAlloc = some page →
      P (claimPages mm page n isBulkAlloc) (⟨page, n⟩ :: blocks)
  absorb : ∀ {mm after blocks hole rest rc}, P mm blocks → mm.memoryHoleList = hole :: rest →
    0 < rc → rc ≤ ulongSub hole.endPfn hole.startPfn →
    absorbHole mm hole rest (ulongSub hole.endPfn hole.startPfn) rc = .ok after → P after blocks
  record : ∀ {mm blocks} (frames : List Nat) (calls : Nat) (growing : Bool), P mm blocks →
    P { mm with
      pageTableFrames := frames, reservations := calls, inIncreaseMemory := growing } blocks
  perm : ∀ {mm blocks others}, P mm blocks → blocks.Perm others → P mm others

/-! ## One search -/

theorem tryClaim_fields (mm : PageAllocator) (n : Nat) (isBulkAlloc : Bool) :
    (tryClaim mm n isBulkAlloc).1.memoryHoleList = mm.memoryHoleList ∧
      (tryClaim mm n isBulkAlloc).1.inIncreaseMemory = mm.inIncreaseMemory := by
  unfold tryClaim
  split
  · exact ⟨claimPages_memoryHoleList .., claimPages_inIncreaseMemory ..⟩
  · exact ⟨rfl, rfl⟩

/-- While memory is being increased, a call that returns pages has not grown. -/
theorem allocateLoop_steady {grow : PageAllocator → Except Halt (PageAllocator × Nat)}
    (steady : ∀ {before after grown}, before.inIncreaseMemory = true →
      grow before = .ok (after, grown) → grown = 0)
    {n fuel : Nat} {isBulkAlloc : Bool} {mm after : PageAllocator} {result : Nat}
    (growing : mm.inIncreaseMemory = true)
    (run : allocateLoop grow n fuel isBulkAlloc mm = .ok (after, result)) (nonzero : result ≠ 0) :
    after.memoryHoleList = mm.memoryHoleList ∧ after.inIncreaseMemory = true := by
  induction fuel generalizing isBulkAlloc mm with
  | zero => simp [allocateLoop] at run
  | succ fuel ih =>
    obtain ⟨holes, flag⟩ := tryClaim_fields mm n isBulkAlloc
    rw [growing] at flag
    simp only [allocateLoop] at run
    split at run
    · have same := Except.ok.inj run
      rw [← show (tryClaim mm n isBulkAlloc).1 = after from congrArg Prod.fst same]
      exact ⟨holes, flag⟩
    · split at run
      · obtain ⟨later, still⟩ := ih flag run
        exact ⟨later.trans holes, still⟩
      · obtain ⟨⟨grownState, grown⟩, growRun, rest⟩ := Halt.bind_eq_ok.mp run
        have none := steady flag growRun
        simp only [none, if_true] at rest
        cases Except.ok.inj rest
        contradiction

theorem increaseMemoryHoldingLock_busy (hv : Hypervisor)
    (allocateOne : PageAllocator → Except Halt (PageAllocator × Nat)) {n : Nat}
    {mm after : PageAllocator} {grown : Nat} (growing : mm.inIncreaseMemory = true)
    (run : increaseMemoryHoldingLock hv allocateOne mm n = .ok (after, grown)) : grown = 0 := by
  rw [increaseMemoryHoldingLock, if_pos growing] at run
  cases Except.ok.inj run
  rfl

/-! ## What a preserved property survives -/

section Whole
variable {P : PageAllocator → List Block → Prop}

/-- `call` keeps `P` of the allocator and the blocks the caller then holds. -/
def Keeps (P : PageAllocator → List Block → Prop) (n : Nat)
    (call : PageAllocator → Except Halt (PageAllocator × Nat)) : Prop :=
  ∀ ⦃before after : PageAllocator⦄ ⦃result : Nat⦄ ⦃live : List Block⦄,
    P before (blocksOf before live) → call before = .ok (after, result) →
      P after (blocksOf after (granted live result n))

/-- `call` leaves the holes alone while memory is being increased. -/
def Steady (call : PageAllocator → Except Halt (PageAllocator × Nat)) : Prop :=
  ∀ ⦃before after : PageAllocator⦄ ⦃result : Nat⦄, before.inIncreaseMemory = true →
    call before = .ok (after, result) →
      after.memoryHoleList = before.memoryHoleList ∧ after.inIncreaseMemory = true

theorem allocatePagesWithin_nested (hv : Hypervisor) (fuel : Nat) :
    Steady fun mm => allocatePagesWithin hv fuel mm 1 := by
  intro before after va growing run
  cases fuel with
  | zero => simp [allocatePagesWithin] at run
  | succ fuel =>
    obtain ⟨⟨mid, result⟩, loopRun, rest⟩ := Halt.bind_eq_ok.mp run
    by_cases failed : result = 0
    · simp [failed, isBulk, bulkAllocation] at rest
    · simp only [failed, decide_false, Bool.false_and, Bool.false_eq_true, if_false] at rest
      cases Except.ok.inj rest
      exact allocateLoop_steady (increaseMemoryHoldingLock_busy hv _) growing loopRun failed

theorem Preserved.pushFrame (preserved : Preserved P) {mm : PageAllocator} {live : List Block}
    {frame : Nat} (holds : P mm (blocksOf mm (⟨frame, 1⟩ :: live))) :
    P { mm with pageTableFrames := frame :: mm.pageTableFrames }
      (blocksOf { mm with pageTableFrames := frame :: mm.pageTableFrames } live) := by
  have order : (blocksOf mm (⟨frame, 1⟩ :: live)).Perm
      (live ++ ⟨frame, 1⟩ :: mm.pageTableFrames.map fun frame => ⟨frame, 1⟩) :=
    List.perm_middle.symm
  exact preserved.record (frame :: mm.pageTableFrames) mm.reservations mm.inIncreaseMemory
    (preserved.perm holds order)

theorem takeFrames_steady
    {allocateOne : PageAllocator → Except Halt (PageAllocator × Nat)} (steady : Steady allocateOne)
    {count : Nat} {mm after : PageAllocator} {built : Bool} (growing : mm.inIncreaseMemory = true)
    (run : takeFrames allocateOne count mm = .ok (after, built)) :
    after.memoryHoleList = mm.memoryHoleList ∧ after.inIncreaseMemory = true := by
  induction count generalizing mm with
  | zero =>
    cases Except.ok.inj run
    exact ⟨rfl, growing⟩
  | succ count ih =>
    obtain ⟨⟨mid, va⟩, oneRun, rest⟩ := Halt.bind_eq_ok.mp run
    obtain ⟨holes, flag⟩ := steady growing oneRun
    simp only at rest
    split at rest
    · cases Except.ok.inj rest
      exact ⟨holes, flag⟩
    · obtain ⟨finalHoles, finalFlag⟩ := ih (by exact flag) rest
      exact ⟨finalHoles.trans holes, finalFlag⟩

theorem increaseReservation_steady (hv : Hypervisor)
    {allocateOne : PageAllocator → Except Halt (PageAllocator × Nat)} (steady : Steady allocateOne)
    {mm after : PageAllocator} {nrPages : Nat} {hole : MemoryHole} {rc : Int}
    (growing : mm.inIncreaseMemory = true)
    (run : increaseReservation hv allocateOne mm nrPages hole = .ok (after, rc)) :
    after.memoryHoleList = mm.memoryHoleList ∧ after.inIncreaseMemory = true ∧ rc ≤ nrPages := by
  have bound := hv.populated_le mm.reservations nrPages
  simp only [increaseReservation] at run
  split at run
  · simp at run
  · split at run
    · obtain ⟨⟨mid, built⟩, framesRun, rest⟩ := Halt.bind_eq_ok.mp run
      cases Except.ok.inj rest
      obtain ⟨holes, flag⟩ := takeFrames_steady steady (by exact growing) framesRun
      refine ⟨holes, flag, ?_⟩
      split <;> omega
    · cases Except.ok.inj run
      exact ⟨rfl, growing, bound⟩

theorem Preserved.takeFrames (preserved : Preserved P)
    {allocateOne : PageAllocator → Except Halt (PageAllocator × Nat)}
    (keeps : Keeps P 1 allocateOne) {count : Nat} {mm after : PageAllocator} {built : Bool}
    {live : List Block} (holds : P mm (blocksOf mm live))
    (run : takeFrames allocateOne count mm = .ok (after, built)) : P after (blocksOf after live) := by
  induction count generalizing mm with
  | zero =>
    cases Except.ok.inj run
    exact holds
  | succ count ih =>
    obtain ⟨⟨mid, va⟩, oneRun, rest⟩ := Halt.bind_eq_ok.mp run
    have kept := keeps holds oneRun
    by_cases failed : va = 0
    · simp only [failed, if_true] at rest
      cases Except.ok.inj rest
      simp only [granted, failed, if_true] at kept
      exact kept
    · simp only [failed, if_false] at rest
      simp only [granted, failed, if_false] at kept
      exact ih (preserved.pushFrame kept) rest

theorem Preserved.increaseReservation (preserved : Preserved P) (hv : Hypervisor)
    {allocateOne : PageAllocator → Except Halt (PageAllocator × Nat)}
    (keeps : Keeps P 1 allocateOne) {mm after : PageAllocator} {nrPages : Nat} {hole : MemoryHole}
    {rc : Int} {live : List Block} (holds : P mm (blocksOf mm live))
    (run : increaseReservation hv allocateOne mm nrPages hole = .ok (after, rc)) :
    P after (blocksOf after live) := by
  have recorded := preserved.record mm.pageTableFrames (mm.reservations + 1) mm.inIncreaseMemory holds
  simp only [Mm.increaseReservation] at run
  split at run
  · simp at run
  · split at run
    · obtain ⟨⟨mid, built⟩, framesRun, rest⟩ := Halt.bind_eq_ok.mp run
      cases Except.ok.inj rest
      exact preserved.takeFrames keeps recorded framesRun
    · cases Except.ok.inj run
      exact recorded

theorem absorbHole_fields {mm after : PageAllocator} {hole : MemoryHole} {rest : List MemoryHole}
    {holeSize rc : Nat} (run : absorbHole mm hole rest holeSize rc = .ok after) :
    after.inIncreaseMemory = mm.inIncreaseMemory ∧ after.pageTableFrames = mm.pageTableFrames := by
  obtain ⟨freed, _, built⟩ := Halt.bind_eq_ok.mp run
  cases Except.ok.inj built
  exact ⟨rfl, rfl⟩

theorem Preserved.growLoop (preserved : Preserved P) (hv : Hypervisor)
    {allocateOne : PageAllocator → Except Halt (PageAllocator × Nat)}
    (keeps : Keeps P 1 allocateOne) (steady : Steady allocateOne)
    {fuel n result grown : Nat} {mm after : PageAllocator} {live : List Block}
    (growing : mm.inIncreaseMemory = true) (holds : P mm (blocksOf mm live))
    (run : growLoop hv allocateOne fuel mm n result = .ok (after, grown)) :
    P after (blocksOf after live) := by
  induction fuel generalizing mm n result with
  | zero =>
    rw [Mm.growLoop] at run
    split at run
    · cases Except.ok.inj run
      exact holds
    · simp at run
  | succ fuel ih =>
    rw [Mm.growLoop] at run
    split at run
    · cases Except.ok.inj run
      exact holds
    · simp only at run
      split at run
      · simp at run
      · rename_i hole rest holesBefore
        obtain ⟨⟨mid, rc⟩, reserveRun, next⟩ := Halt.bind_eq_ok.mp run
        have kept := preserved.increaseReservation hv keeps holds reserveRun
        obtain ⟨holes, flag, bound⟩ := increaseReservation_steady hv steady growing reserveRun
        simp only at next
        split at next
        · rename_i populated
          obtain ⟨absorbed, absorbRun, loopRun⟩ := Halt.bind_eq_ok.mp next
          have fits : rc.toNat ≤ ulongSub hole.endPfn hole.startPfn := by
            split at bound <;> omega
          obtain ⟨absorbedFlag, absorbedFrames⟩ := absorbHole_fields absorbRun
          have absorbedHolds : P absorbed (blocksOf absorbed live) := by
            rw [blocksOf, absorbedFrames]
            exact preserved.absorb kept (holes.trans holesBefore) (by omega) fits absorbRun
          exact ih (absorbedFlag.trans flag) absorbedHolds loopRun
        · cases Except.ok.inj next
          exact kept

theorem Preserved.increaseMemoryHoldingLock (preserved : Preserved P) (hv : Hypervisor)
    {allocateOne : PageAllocator → Except Halt (PageAllocator × Nat)}
    (keeps : Keeps P 1 allocateOne) (steady : Steady allocateOne)
    {n grown : Nat} {mm after : PageAllocator} {live : List Block}
    (holds : P mm (blocksOf mm live))
    (run : increaseMemoryHoldingLock hv allocateOne mm n = .ok (after, grown)) :
    P after (blocksOf after live) := by
  have set := fun growing => preserved.record mm.pageTableFrames mm.reservations growing holds
  rw [Mm.increaseMemoryHoldingLock] at run
  split at run
  · cases Except.ok.inj run
    exact set false
  · simp only at run
    split at run
    · obtain ⟨⟨mid, total⟩, loopRun, rest⟩ := Halt.bind_eq_ok.mp run
      cases Except.ok.inj rest
      have kept := preserved.growLoop hv keeps steady (by rfl) (set true) loopRun
      exact preserved.record mid.pageTableFrames mid.reservations false kept
    · cases Except.ok.inj run
      exact set false

theorem Preserved.tryClaim (preserved : Preserved P) {mm : PageAllocator} {n : Nat}
    {isBulkAlloc : Bool} {live : List Block} (small : isBulkAlloc = false → isBulk n = false)
    (holds : P mm (blocksOf mm live)) :
    P (tryClaim mm n isBulkAlloc).1
      (blocksOf (tryClaim mm n isBulkAlloc).1 (granted live (tryClaim mm n isBulkAlloc).2 n)) := by
  unfold Mm.tryClaim
  cases found : search mm n isBulkAlloc with
  | none => exact holds
  | some page =>
    obtain ⟨positive, addressable⟩ := preserved.found holds found
    have nonzero := pfnToVirt_pos positive addressable
    have claimed := preserved.claim holds small found
    simp only [granted, if_neg (Nat.ne_of_gt nonzero), virtToPfn_pfnToVirt addressable, blocksOf,
      claimPages_pageTableFrames]
    exact claimed

theorem Preserved.allocateLoop (preserved : Preserved P)
    {grow : PageAllocator → Except Halt (PageAllocator × Nat)} {n : Nat}
    (growKeeps : ∀ {before after : PageAllocator} {grown : Nat} {live : List Block},
      P before (blocksOf before live) → grow before = .ok (after, grown) →
        P after (blocksOf after live))
    {fuel result : Nat} {isBulkAlloc : Bool} {mm after : PageAllocator} {live : List Block}
    (small : isBulkAlloc = false → isBulk n = false) (holds : P mm (blocksOf mm live))
    (run : allocateLoop grow n fuel isBulkAlloc mm = .ok (after, result)) :
    P after (blocksOf after (granted live result n)) := by
  induction fuel generalizing isBulkAlloc mm with
  | zero => simp [Mm.allocateLoop] at run
  | succ fuel ih =>
    have claimed := preserved.tryClaim small holds
    simp only [Mm.allocateLoop] at run
    split at run
    · have same := Except.ok.inj run
      rw [same] at claimed
      exact claimed
    · rename_i failed
      rw [granted, if_pos (by omega)] at claimed
      split at run
      · exact ih (by exact nofun) claimed run
      · obtain ⟨⟨mid, grown⟩, growRun, rest⟩ := Halt.bind_eq_ok.mp run
        have kept := growKeeps claimed growRun
        simp only at rest
        split at rest
        · cases Except.ok.inj rest
          exact kept
        · exact ih (by exact nofun) kept rest

theorem Preserved.allocatePagesWithin (preserved : Preserved P) (hv : Hypervisor) (fuel n : Nat) :
    Keeps P n fun mm => allocatePagesWithin hv fuel mm n := by
  induction fuel generalizing n with
  | zero =>
    intro before after result live _ run
    simp [Mm.allocatePagesWithin] at run
  | succ fuel ih =>
    intro before after result live holds run
    obtain ⟨⟨mid, value⟩, loopRun, rest⟩ := Halt.bind_eq_ok.mp run
    have kept := preserved.allocateLoop
      (fun holds run => preserved.increaseMemoryHoldingLock hv (ih 1)
        (allocatePagesWithin_nested hv fuel) holds run) id holds loopRun
    simp only at rest
    split at rest
    · simp at rest
    · cases Except.ok.inj rest
      exact kept

theorem Preserved.allocatePages (preserved : Preserved P) (hv : Hypervisor) (n : Nat) :
    Keeps P n fun mm => allocatePages hv mm n :=
  fun _ _ _ _ holds run => preserved.allocatePagesWithin hv _ n holds run

end Whole

end Stardust.Mm
