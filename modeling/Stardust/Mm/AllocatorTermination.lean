import Stardust.Mm.PageRuns

/-! # Every request returns or stops the system

The model's loops carry bounds.  A turn of `while (result == 0)` that repeats has
populated a page of some hole, and a nested request cannot grow, so the bounds
are never what ends a call. -/
set_option autoImplicit false
namespace Stardust.Mm

theorem ok_ne_fuel {α : Type} {value : α} : (.ok value : Except Halt α) ≠ .error .fuel :=
  nofun

theorem halt_ne_fuel {α : Type} {halt : Halt} (other : halt ≠ .fuel) :
    (.error halt : Except Halt α) ≠ .error .fuel :=
  fun same => other (Except.error.inj same)

theorem bind_ne_fuel {α β : Type} {call : Except Halt α} {next : α → Except Halt β}
    (first : call ≠ .error .fuel) (rest : ∀ value, call = .ok value → next value ≠ .error .fuel) :
    (call >>= next) ≠ .error .fuel := by
  cases call with
  | error halt => exact fun run => first (congrArg Except.error (Except.error.inj run))
  | ok value => exact rest value rfl

/-! ## The scans

What a scan finds does not depend on its bound, as long as that covers the pages ahead. -/

theorem scan_fuel (mm : PageAllocator) (endPage n : Nat) {fuel other page : Nat}
    (enough : endPage ≤ page + fuel) (alsoEnough : endPage ≤ page + other) :
    scan mm endPage n fuel page = scan mm endPage n other page := by
  have ended : ∀ fuel page, endPage ≤ page → scan mm endPage n fuel page = none := by
    intro fuel page past
    cases fuel with
    | zero => rfl
    | succ fuel => rw [scan, if_neg (Nat.not_lt.mpr past)]
  induction fuel generalizing other page with
  | zero => rw [ended 0 page enough, ended other page enough]
  | succ fuel ih =>
    cases other with
    | zero => rw [ended 0 page alsoEnough, ended (fuel + 1) page alsoEnough]
    | succ other =>
      have next : scan mm endPage n fuel (page + 1) = scan mm endPage n other (page + 1) :=
        ih (by omega) (by omega)
      rw [scan, scan, next]
      split
      · split
        · split
          · rfl
          · rename_i left npage _ extended
            have later := (extendRun_stopped mm endPage extended).1
            exact ih (by omega) (by omega)
          · rfl
        · rfl
      · rfl

/-- `next_free` stops at the end of the range, or where its `int` becomes negative. -/
theorem nextFreeLoop_fuel (mm : PageAllocator) (addressable : mm.endAllocPage ≤ maxPages)
    {fuel other : Nat} {page : Int} (least : -2 ^ 31 ≤ page) (most : page < 2 ^ 31)
    (enough : mm.endAllocPage ≤ ulongOfInt page + fuel)
    (alsoEnough : mm.endAllocPage ≤ ulongOfInt page + other) :
    nextFreeLoop mm fuel page = nextFreeLoop mm other page := by
  unfold maxPages at addressable
  have ended : ∀ fuel page, mm.endAllocPage ≤ ulongOfInt page → nextFreeLoop mm fuel page = page := by
    intro fuel page past
    cases fuel with
    | zero => rfl
    | succ fuel => rw [nextFreeLoop, if_neg (Nat.not_lt.mpr past)]
  induction fuel generalizing other page with
  | zero => rw [ended 0 page enough, ended other page enough]
  | succ fuel ih =>
    cases other with
    | zero => rw [ended 0 page alsoEnough, ended (fuel + 1) page alsoEnough]
    | succ other =>
      have range : -2 ^ 31 ≤ Int.bmod (page + 1) (2 ^ 32) ∧ Int.bmod (page + 1) (2 ^ 32) < 2 ^ 31 := by
        rw [Int.bmod_def]
        omega
      have advance : mm.endAllocPage ≤ ulongOfInt page ∨
          ulongOfInt page + 1 = ulongOfInt (Int.bmod (page + 1) (2 ^ 32)) ∨
          mm.endAllocPage ≤ ulongOfInt (Int.bmod (page + 1) (2 ^ 32)) := by
        unfold ulongOfInt
        rw [Int.bmod_def]
        omega
      by_cases within : ulongOfInt page < mm.endAllocPage
      · have later : nextFreeLoop mm fuel (Int.bmod (page + 1) (2 ^ 32)) =
            nextFreeLoop mm other (Int.bmod (page + 1) (2 ^ 32)) :=
          ih range.1 range.2 (by omega) (by omega)
        rw [nextFreeLoop, nextFreeLoop, later]
      · rw [ended _ _ (Nat.not_lt.mp within), ended _ _ (Nat.not_lt.mp within)]

/-! ## The nested request -/

theorem allocatePagesWithin_nested_ne_fuel (hv : Hypervisor) (fuel : Nat) {mm : PageAllocator}
    (growing : mm.inIncreaseMemory = true) :
    allocatePagesWithin hv (fuel + 2) mm 1 ≠ .error .fuel := by
  have flag : ∀ isBulkAlloc, (tryClaim mm 1 isBulkAlloc).1.inIncreaseMemory = true :=
    fun isBulkAlloc => (tryClaim_fields mm 1 isBulkAlloc).2.trans growing
  refine bind_ne_fuel ?_ fun value _ => ?_
  · simp only [allocateLoop]
    split
    · exact ok_ne_fuel
    · split
      · -- the small region failed: the bulk region is searched, and growing is refused
        split
        · exact ok_ne_fuel
        · refine bind_ne_fuel ?_ fun grown growRun => ?_
          · rw [increaseMemoryHoldingLock, if_pos ((tryClaim_fields _ _ _).2.trans (flag _))]
            exact ok_ne_fuel
          · rw [increaseMemoryHoldingLock_busy hv _ ((tryClaim_fields _ _ _).2.trans (flag _)) growRun]
            simp
      · contradiction
  · simp only
    split
    · exact halt_ne_fuel (by decide)
    · exact ok_ne_fuel

/-! ## Growing -/

theorem mapFree_ne_fuel (map : Bitmap) (firstPage nrPages : Nat) :
    mapFree map firstPage nrPages ≠ .error .fuel := by
  unfold mapFree
  simp only
  split
  · exact ok_ne_fuel
  · split
    · exact halt_ne_fuel (by decide)
    · exact ok_ne_fuel

theorem absorbHole_ne_fuel (mm : PageAllocator) (hole : MemoryHole) (rest : List MemoryHole)
    (holeSize rc : Nat) : absorbHole mm hole rest holeSize rc ≠ .error .fuel :=
  bind_ne_fuel (mapFree_ne_fuel _ _ _) fun _ _ => ok_ne_fuel

/-- Absorbing takes the populated pages out of the holes. -/
theorem absorbHole_holePages {mm after : PageAllocator} {hole : MemoryHole}
    {rest : List MemoryHole} {rc : Nat} (fits : rc ≤ ulongSub hole.endPfn hole.startPfn)
    (run : absorbHole mm hole rest (ulongSub hole.endPfn hole.startPfn) rc = .ok after) :
    holePages after.memoryHoleList + rc = holePages (hole :: rest) := by
  obtain ⟨freed, _, built⟩ := Halt.bind_eq_ok.mp run
  cases Except.ok.inj built
  have sum : holePages (hole :: rest) = ulongSub hole.endPfn hole.startPfn + holePages rest := rfl
  by_cases whole : ulongSub hole.endPfn hole.startPfn = rc
  · simp only [whole, if_true]
    omega
  · simp only [whole, if_false]
    have shrunk : ulongSub hole.endPfn (hole.startPfn + rc) =
        ulongSub hole.endPfn hole.startPfn - rc := by
      unfold ulongSub at fits ⊢
      omega
    have first : holePages ({ hole with startPfn := hole.startPfn + rc } :: rest) =
        ulongSub hole.endPfn (hole.startPfn + rc) + holePages rest := rfl
    omega

section Growing
variable (hv : Hypervisor) {allocateOne : PageAllocator → Except Halt (PageAllocator × Nat)}
  (steady : Steady allocateOne)
  (returns : ∀ {mm : PageAllocator}, mm.inIncreaseMemory = true → allocateOne mm ≠ .error .fuel)

include steady returns

theorem takeFrames_ne_fuel {count : Nat} {mm : PageAllocator}
    (growing : mm.inIncreaseMemory = true) : takeFrames allocateOne count mm ≠ .error .fuel := by
  induction count generalizing mm with
  | zero => exact ok_ne_fuel
  | succ count ih =>
    refine bind_ne_fuel (returns growing) fun value oneRun => ?_
    obtain ⟨_, flag⟩ := steady growing oneRun
    simp only
    split
    · exact ok_ne_fuel
    · exact ih flag

theorem increaseReservation_ne_fuel {mm : PageAllocator} {nrPages : Nat} {hole : MemoryHole}
    (growing : mm.inIncreaseMemory = true) :
    increaseReservation hv allocateOne mm nrPages hole ≠ .error .fuel := by
  simp only [increaseReservation]
  split
  · exact halt_ne_fuel (by decide)
  · split
    · exact bind_ne_fuel (takeFrames_ne_fuel steady returns growing) fun _ _ => ok_ne_fuel
    · exact ok_ne_fuel

theorem growLoop_ne_fuel {fuel n result : Nat} {mm : PageAllocator}
    (growing : mm.inIncreaseMemory = true) (enough : n ≤ fuel) (fits : n < 2 ^ 64) :
    growLoop hv allocateOne fuel mm n result ≠ .error .fuel := by
  induction fuel generalizing mm n result with
  | zero =>
    rw [growLoop, if_pos (by omega)]
    exact ok_ne_fuel
  | succ fuel ih =>
    rw [growLoop]
    split
    · exact ok_ne_fuel
    · simp only
      split
      · exact halt_ne_fuel (by decide)
      · refine bind_ne_fuel (increaseReservation_ne_fuel hv steady returns growing)
          fun reserved reserveRun => ?_
        obtain ⟨_, flag, bound⟩ := increaseReservation_steady hv steady growing reserveRun
        split
        · refine bind_ne_fuel (absorbHole_ne_fuel _ _ _ _ _) fun absorbed absorbRun => ?_
          have least : reserved.2.toNat ≤ n := by
            split at bound <;> omega
          rw [ulongSub_eq least fits]
          exact ih ((absorbHole_fields absorbRun).1.trans flag) (by omega) (by omega)
        · exact ok_ne_fuel

omit returns in
theorem growLoop_holePages {fuel n result grown : Nat} {mm after : PageAllocator}
    (growing : mm.inIncreaseMemory = true)
    (run : growLoop hv allocateOne fuel mm n result = .ok (after, grown)) :
    holePages after.memoryHoleList + grown = holePages mm.memoryHoleList + result := by
  induction fuel generalizing mm n result with
  | zero =>
    rw [growLoop] at run
    split at run
    · cases Except.ok.inj run
      rfl
    · simp at run
  | succ fuel ih =>
    rw [growLoop] at run
    split at run
    · cases Except.ok.inj run
      rfl
    · simp only at run
      split at run
      · simp at run
      · rename_i hole rest holesBefore
        obtain ⟨⟨mid, rc⟩, reserveRun, next⟩ := Halt.bind_eq_ok.mp run
        obtain ⟨holes, flag, bound⟩ := increaseReservation_steady hv steady growing reserveRun
        simp only at next
        split at next
        · obtain ⟨absorbed, absorbRun, loopRun⟩ := Halt.bind_eq_ok.mp next
          have fits : rc.toNat ≤ ulongSub hole.endPfn hole.startPfn := by
            split at bound <;> omega
          have shrunk := absorbHole_holePages fits absorbRun
          have later := ih ((absorbHole_fields absorbRun).1.trans flag) loopRun
          rw [holesBefore]
          omega
        · cases Except.ok.inj next
          rw [holes]

theorem increaseMemoryHoldingLock_ne_fuel {n : Nat} (fits : n < 2 ^ 64) (mm : PageAllocator) :
    increaseMemoryHoldingLock hv allocateOne mm n ≠ .error .fuel := by
  rw [increaseMemoryHoldingLock]
  split
  · exact ok_ne_fuel
  · simp only
    split
    · exact bind_ne_fuel (growLoop_ne_fuel hv steady returns rfl (Nat.le_refl n) fits)
        fun _ _ => ok_ne_fuel
    · exact ok_ne_fuel

omit returns in
theorem increaseMemoryHoldingLock_holePages {n grown : Nat} {mm after : PageAllocator}
    (run : increaseMemoryHoldingLock hv allocateOne mm n = .ok (after, grown)) :
    holePages after.memoryHoleList + grown = holePages mm.memoryHoleList := by
  rw [increaseMemoryHoldingLock] at run
  split at run
  · cases Except.ok.inj run
    rfl
  · simp only at run
    split at run
    · obtain ⟨⟨mid, total⟩, loopRun, rest⟩ := Halt.bind_eq_ok.mp run
      cases Except.ok.inj rest
      exact growLoop_holePages hv steady (by rfl) loopRun
    · cases Except.ok.inj run
      rfl

end Growing

/-! ## The whole request -/

theorem allocateLoop_ne_fuel {grow : PageAllocator → Except Halt (PageAllocator × Nat)} {n : Nat}
    (returns : ∀ mm, grow mm ≠ .error .fuel)
    (shrinks : ∀ {mm after : PageAllocator} {grown : Nat}, grow mm = .ok (after, grown) →
      holePages after.memoryHoleList + grown = holePages mm.memoryHoleList)
    {fuel : Nat} {isBulkAlloc : Bool} {mm : PageAllocator}
    (enough : holePages mm.memoryHoleList + (if isBulkAlloc then 1 else 2) ≤ fuel) :
    allocateLoop grow n fuel isBulkAlloc mm ≠ .error .fuel := by
  induction fuel generalizing isBulkAlloc mm with
  | zero => split at enough <;> omega
  | succ fuel ih =>
    obtain ⟨holes, _⟩ := tryClaim_fields mm n isBulkAlloc
    simp only [allocateLoop]
    split
    · exact ok_ne_fuel
    · split
      · rename_i small
        have notBulk : isBulkAlloc = false := by simpa using small
        rw [notBulk] at enough holes
        refine ih ?_
        rw [notBulk, holes]
        simpa using enough
      · rename_i large
        have bulk : isBulkAlloc = true := by simpa using large
        rw [bulk] at enough
        refine bind_ne_fuel (returns _) fun value growRun => ?_
        have shrunk := shrinks growRun
        rw [holes] at shrunk
        split
        · exact ok_ne_fuel
        · refine ih ?_
          simp only [if_true] at enough ⊢
          omega

/-- The bounds of the model's loops never end a request for a C `int` of pages. -/
theorem allocatePages_ne_fuel (hv : Hypervisor) (mm : PageAllocator) {n : Nat}
    (fits : n < 2 ^ 31) : allocatePages hv mm n ≠ .error .fuel := by
  have steady := allocatePagesWithin_nested hv (holePages mm.memoryHoleList + 2)
  refine bind_ne_fuel (allocateLoop_ne_fuel (fun mid => ?_) (fun growRun => ?_) ?_)
    fun value _ => ?_
  · exact increaseMemoryHoldingLock_ne_fuel hv steady
      (allocatePagesWithin_nested_ne_fuel hv (holePages mm.memoryHoleList)) (by omega) mid
  · exact increaseMemoryHoldingLock_holePages hv steady growRun
  · split <;> omega
  · simp only
    split
    · exact halt_ne_fuel (by decide)
    · exact ok_ne_fuel

/-! ## What a request that returns has found -/

/-- The `n` pages at `result` were free, and are claimed. -/
def ClaimedRun (after : PageAllocator) (n result : Nat) : Prop :=
  ∃ mid page isBulkAlloc, FreeRun mid page n ∧ result = pfnToVirt page ∧
    after = claimPages mid page n isBulkAlloc

theorem allocateLoop_claims {grow : PageAllocator → Except Halt (PageAllocator × Nat)} {n : Nat}
    {fuel result : Nat} {isBulkAlloc : Bool} {mm after : PageAllocator}
    (run : allocateLoop grow n fuel isBulkAlloc mm = .ok (after, result)) :
    result = 0 ∨ ClaimedRun after n result := by
  induction fuel generalizing isBulkAlloc mm with
  | zero => simp [allocateLoop] at run
  | succ fuel ih =>
    simp only [allocateLoop] at run
    split at run
    · rename_i nonzero
      refine Or.inr ?_
      cases found : search mm n isBulkAlloc with
      | none => simp [tryClaim, found] at nonzero
      | some page =>
        rw [tryClaim, found] at run
        cases Except.ok.inj run
        exact ⟨mm, page, isBulkAlloc, (search_sound mm found).2.2.2, rfl, rfl⟩
    · split at run
      · exact ih run
      · obtain ⟨⟨mid, grown⟩, _, rest⟩ := Halt.bind_eq_ok.mp run
        simp only at rest
        split at rest
        · cases Except.ok.inj rest
          exact Or.inl rfl
        · exact ih rest

/-- Every request ends: the system stops, or the request fails, or it returns a run of `n`
pages.  So do the scans, which look at no more pages than there are ahead of them. -/
theorem allocatePages_ends (hv : Hypervisor) (mm : PageAllocator) {n : Nat}
    (fits : n < 2 ^ 31) :
    ((∃ halt, allocatePages hv mm n = .error halt ∧ halt ≠ .fuel) ∨
      ∃ after result, allocatePages hv mm n = .ok (after, result) ∧
        (result = 0 ∨ ClaimedRun after n result)) ∧
    ∀ mid : PageAllocator,
      (∀ isBulkAlloc fuel, endPageOf mid isBulkAlloc - startPageOf mid isBulkAlloc ≤ fuel →
        scan mid (endPageOf mid isBulkAlloc) n fuel (startPageOf mid isBulkAlloc) =
          search mid n isBulkAlloc) ∧
      (mid.endAllocPage ≤ maxPages → ∀ (page : Int) (fuel : Nat), -2 ^ 31 ≤ page → page < 2 ^ 31 →
        mid.endAllocPage ≤ fuel → nextFreeLoop mid fuel page = nextFree mid page) := by
  refine ⟨?_, fun mid => ⟨fun isBulkAlloc fuel enough => ?_, fun addressable page fuel least most
    enough => ?_⟩⟩
  · cases run : allocatePages hv mm n with
    | error halt =>
      refine Or.inl ⟨halt, rfl, fun isFuel => allocatePages_ne_fuel hv mm fits ?_⟩
      rw [run, isFuel]
    | ok outcome =>
      obtain ⟨after, result⟩ := outcome
      refine Or.inr ⟨after, result, rfl, ?_⟩
      obtain ⟨⟨mid, value⟩, loopRun, rest⟩ := Halt.bind_eq_ok.mp run
      simp only at rest
      split at rest
      · contradiction
      · cases Except.ok.inj rest
        exact allocateLoop_claims loopRun
  · exact scan_fuel mid _ n (by omega) (by omega)
  · exact nextFreeLoop_fuel mid addressable least most (by omega) (by omega)

/-- All pages asked for are populated, and each populated range needs one more page table. -/
def tablesHypervisor : Hypervisor where
  populatePhysmap _ nrPages := nrPages
  populated_le _ _ := Int.le_refl _
  pageTableFrames _ _ := 1
  mapped _ _ := true

/-- Four frames behind the range, and four more after a gap. -/
def twoHoles : PageAllocator := { fivePages with memoryHoleList := [⟨8, 12⟩, ⟨20, 24⟩] }

/-- Six pages, for which both holes are grown into. -/
theorem allocatePages_ends_twoHoles :
    (allocatePages tablesHypervisor twoHoles 6).toOption.map
        (fun outcome => (outcome.1.reservations, outcome.2)) = some (2, pfnToVirt 5) ∧
    ((∃ halt, allocatePages tablesHypervisor twoHoles 6 = .error halt ∧ halt ≠ .fuel) ∨
      ∃ after result, allocatePages tablesHypervisor twoHoles 6 = .ok (after, result) ∧
        (result = 0 ∨ ClaimedRun after 6 result)) ∧
    ∀ mid : PageAllocator,
      (∀ isBulkAlloc fuel, endPageOf mid isBulkAlloc - startPageOf mid isBulkAlloc ≤ fuel →
        scan mid (endPageOf mid isBulkAlloc) 6 fuel (startPageOf mid isBulkAlloc) =
          search mid 6 isBulkAlloc) ∧
      (mid.endAllocPage ≤ maxPages → ∀ (page : Int) (fuel : Nat), -2 ^ 31 ≤ page → page < 2 ^ 31 →
        mid.endAllocPage ≤ fuel → nextFreeLoop mid fuel page = nextFree mid page) :=
  ⟨by decide +kernel, allocatePages_ends tablesHypervisor twoHoles (by decide)⟩

end Stardust.Mm
