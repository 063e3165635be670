import Mathlib.Order.Bounds.Defs
import Stardust.Arch.PageWalk

/-! # The demand area

`allocate_ondemand` looks for pages of the area that nothing maps.  It walks the tables at
each start and at each boundary of a table of level 1, and steps a pointer through the
entries in between. -/
set_option autoImplicit false
namespace Stardust.Mm

open Stardust.Arch

/-- `VIRT_DEMAND_AREA`, the value of `demand_map_area_start`. -/
def demandMapAreaStart : Nat := 0x0000100000000000

def demandMapPages : Nat := 0x8000000

def l1Mask : Nat := 2 ^ 21 - 1

section Code
variable (s : AddressSpace)

/-- The loop over `y`, with `left` turns to go: the value of `y` at its end. -/
def scanPages : Nat → Nat → Nat → Option Nat → Nat
  | 0, y, _, _ => y
  | left + 1, y, addr, pgt =>
    let pgt := if addr &&& l1Mask = 0 then getPgt s addr else pgt
    match pgt with
    | none => scanPages left (y + 1) (ulongAdd addr pageSize) none
    | some entry =>
      if isPresent (s.word entry) then y
      else scanPages left (y + 1) (ulongAdd addr pageSize) (some (ulongAdd entry 8))

/-- `(x + y + 1 + alignment - 1) & ~(alignment - 1)` -/
def nextStart (x y alignment : Nat) : Nat :=
  ulongSub (ulongAdd (ulongAdd (ulongAdd x y) 1) alignment) 1 &&& ulongNot (ulongSub alignment 1)

def startAddress (x : Nat) : Nat := ulongAdd demandMapAreaStart (ulongMul x pageSize)

/-- The loop over `x`, for so many turns at most, and the return. -/
def ondemandLoop (n alignment : Nat) : Nat → Nat → Nat → Option Nat
  | 0, _, _ => none
  | turns + 1, x, y =>
    if x ≤ ulongSub demandMapPages n then
      let addr := startAddress x
      let y := scanPages s n 0 addr (getPgt s addr)
      if y = n then some (startAddress x)
      else ondemandLoop n alignment turns (nextStart x y alignment) y
    else if y ≠ n then some 0
    else some (startAddress x)

def allocateOndemand (turns n alignment : Nat) : Option Nat := ondemandLoop s n alignment turns 0 0

end Code

/-! ## The scan of a start -/

section Scan
variable {s : AddressSpace} {addr : Nat}

theorem l1Mask_eq (addr : Nat) : addr &&& l1Mask = addr % 2 ^ 21 := Nat.and_two_pow_sub_one_eq_mod _ 21

/-- Inside a table of level 1 the pointer steps with the address. -/
theorem getPgt_next (aligned : addr % pageSize = 0) (inside : (addr + pageSize) % 2 ^ 21 ≠ 0)
    (absent : ¬ Mapped s addr) :
    getPgt s (addr + pageSize) = (getPgt s addr).map fun entry => ulongAdd entry 8 := by
  simp only [pageSize] at *
  have l4 : l4TableOffset (addr + 4096) = l4TableOffset addr := by
    rw [l4TableOffset_eq, l4TableOffset_eq]
    omega
  have l3 : l3TableOffset (addr + 4096) = l3TableOffset addr := by
    rw [l3TableOffset_eq, l3TableOffset_eq]
    omega
  have l2 : l2TableOffset (addr + 4096) = l2TableOffset addr := by
    rw [l2TableOffset_eq, l2TableOffset_eq]
    omega
  have l1 : l1TableOffset (addr + 4096) = l1TableOffset addr + 1 := by
    rw [l1TableOffset_eq, l1TableOffset_eq]
    omega
  have entry (tab offset : Nat) : entryAddress tab (offset + 1) = ulongAdd (entryAddress tab offset) 8 := by
    simp only [entryAddress, ulongAdd]
    omega
  rw [mapped_iff] at absent
  rw [getPgt_eq, getPgt_eq]
  simp only [AddressSpace.l2Table, AddressSpace.l2Entry, l4, l3, l2, l1] at absent ⊢
  cases table : (s.follow s.ptBase (l4TableOffset addr)).bind fun tab => s.follow tab (l3TableOffset addr) with
  | none => rfl
  | some tab =>
    cases present : isPresent (s.entry tab (l2TableOffset addr)) with
    | false => simp [present]
    | true =>
      cases superpage : isPse (s.entry tab (l2TableOffset addr)) with
      | true => exact absurd ⟨tab, table, present, Or.inl superpage⟩ absent
      | false => simp [present, superpage, entry]

/-- The pointer that a turn has is that of its page. -/
theorem scanPages_pointer {pgt : Option Nat} (cached : addr % 2 ^ 21 ≠ 0 → pgt = getPgt s addr) :
    (if addr &&& l1Mask = 0 then getPgt s addr else pgt) = getPgt s addr := by
  rw [l1Mask_eq, ite_eq_left_iff]
  exact cached

/-- What the walk has for a page decides its turn. -/
theorem scanPages_mapped {left y : Nat} {pgt : Option Nat} (cached : addr % 2 ^ 21 ≠ 0 → pgt = getPgt s addr)
    (mapped : Mapped s addr) : scanPages s (left + 1) y addr pgt = y := by
  obtain ⟨entry, found, present⟩ := mapped
  simp only [scanPages]
  rw [scanPages_pointer cached, found]
  exact if_pos present

theorem scanPages_absent {left y : Nat} {pgt : Option Nat} (cached : addr % 2 ^ 21 ≠ 0 → pgt = getPgt s addr)
    (absent : ¬ Mapped s addr) : scanPages s (left + 1) y addr pgt =
      scanPages s left (y + 1) (ulongAdd addr pageSize) ((getPgt s addr).map fun entry => ulongAdd entry 8) := by
  simp only [scanPages]
  rw [scanPages_pointer cached]
  cases found : getPgt s addr with
  | none => rfl
  | some entry => exact if_neg fun present => absent ⟨entry, found, present⟩

/-- The scan stops at the first page that is mapped. -/
theorem scanPages_eq {left : Nat} (y : Nat) {pgt : Option Nat} (aligned : addr % pageSize = 0)
    (bound : addr + left * pageSize < 2 ^ 64) (cached : addr % 2 ^ 21 ≠ 0 → pgt = getPgt s addr) :
    ∃ clear, scanPages s left y addr pgt = y + clear ∧ clear ≤ left ∧
      (∀ i < clear, ¬ Mapped s (addr + i * pageSize)) ∧
      (clear < left → Mapped s (addr + clear * pageSize)) := by
  simp only [pageSize] at *
  induction left generalizing y addr pgt with
  | zero => exact ⟨0, rfl, Nat.le_refl 0, nofun, nofun⟩
  | succ left ih =>
    by_cases mapped : Mapped s addr
    · refine ⟨0, scanPages_mapped cached mapped, Nat.zero_le _, nofun, fun _ => ?_⟩
      simpa using mapped
    · rw [scanPages_absent cached mapped, ulongAdd_eq (by rw [pageSize]; omega)]
      have nextAligned : (addr + 4096) % 4096 = 0 := by omega
      obtain ⟨clear, result, most, before, stop⟩ := ih (y + 1) nextAligned (by omega)
        (fun inside => (getPgt_next aligned inside mapped).symm)
      refine ⟨clear + 1, ?_, by omega, ?_, ?_⟩
      · rw [show y + (clear + 1) = y + 1 + clear by omega]
        exact result
      · intro i small
        cases i with
        | zero => simpa using mapped
        | succ i =>
          rw [show addr + (i + 1) * 4096 = addr + 4096 + i * 4096 by omega]
          exact before i (by omega)
      · intro small
        rw [show addr + (clear + 1) * 4096 = addr + 4096 + clear * 4096 by omega]
        exact stop (by omega)

/-- Where no table is, nothing stops the scan. -/
theorem scanPages_none {left y : Nat} (empty : ∀ va, getPgt s va = none) :
    scanPages s left y addr none = y + left := by
  induction left generalizing y addr with
  | zero => rfl
  | succ left ih =>
    simp only [scanPages, empty, ite_self]
    rw [ih]
    omega

end Scan

/-! ## The next start -/

theorem nextStart_eq {x y k : Nat} (small : k < 64) (bound : x + y + 1 + 2 ^ k < 2 ^ 64) :
    nextStart x y (2 ^ k) = (x + y + 2 ^ k) / 2 ^ k * 2 ^ k := by
  have positive := Nat.two_pow_pos k
  have sum : ulongSub (ulongAdd (ulongAdd (ulongAdd x y) 1) (2 ^ k)) 1 = x + y + 2 ^ k := by
    have first : ulongAdd x y = x + y := ulongAdd_eq (by omega)
    have second : ulongAdd (x + y) 1 = x + y + 1 := ulongAdd_eq (by omega)
    rw [first, second, ulongAdd_eq bound, ulongSub_eq (by omega) bound]
    omega
  rw [nextStart, sum, ulongSub_eq (a := 2 ^ k) positive (by omega), and_ulongNot (by omega) small]

/-- The next start is the first one behind the busy page. -/
theorem nextStart_least {x y k other : Nat} (small : k < 64) (bound : x + y + 1 + 2 ^ k < 2 ^ 64)
    (start : 2 ^ k ∣ other) (behind : x + y < other) : nextStart x y (2 ^ k) ≤ other := by
  rw [nextStart_eq small bound]
  obtain ⟨factor, rfl⟩ := start
  rw [Nat.mul_comm (2 ^ k)]
  apply Nat.mul_le_mul_right
  have positive := Nat.two_pow_pos k
  rw [← Nat.lt_succ_iff, Nat.div_lt_iff_lt_mul positive, Nat.succ_mul, Nat.mul_comm factor]
  omega

theorem nextStart_behind {x y k : Nat} (small : k < 64) (bound : x + y + 1 + 2 ^ k < 2 ^ 64) :
    2 ^ k ∣ nextStart x y (2 ^ k) ∧ x + y < nextStart x y (2 ^ k) := by
  rw [nextStart_eq small bound]
  refine ⟨Nat.dvd_mul_left .., ?_⟩
  have rest := Nat.mod_lt (x + y + 2 ^ k) (Nat.two_pow_pos k)
  have parts := Nat.div_add_mod' (x + y + 2 ^ k) (2 ^ k)
  omega

/-! ## The first hole -/

/-- The starts of `n` pages of the area that nothing maps. -/
def holes (s : AddressSpace) (n alignment : Nat) : Set Nat :=
  {x | alignment ∣ x ∧ x + n ≤ demandMapPages ∧
    ∀ i < n, ¬ Mapped s (demandMapAreaStart + (x + i) * pageSize)}

/-- The address is that of the first hole, and 0 just when there is none. -/
def FirstHole (s : AddressSpace) (n alignment address : Nat) : Prop :=
  (address ≠ 0 ↔ (holes s n alignment).Nonempty) ∧
    (address ≠ 0 → ∃ x, IsLeast (holes s n alignment) x ∧ address = demandMapAreaStart + x * pageSize)

section Search
variable {s : AddressSpace} {n k x y : Nat}

theorem startAddress_eq (inside : x ≤ demandMapPages) :
    startAddress x = demandMapAreaStart + x * pageSize := by
  simp only [demandMapPages] at inside
  rw [startAddress, ulongMul_eq (by rw [pageSize]; omega), ulongAdd_eq (by rw [demandMapAreaStart, pageSize]; omega)]

/-- A turn of the loop, while `n` pages fit the area: the start is a hole, or no hole is
before the next start. -/
theorem scan_start (inside : x + n ≤ demandMapPages) (start : 2 ^ k ∣ x) :
    (scanPages s n 0 (startAddress x) (getPgt s (startAddress x)) = n ∧ x ∈ holes s n (2 ^ k)) ∨
    (scanPages s n 0 (startAddress x) (getPgt s (startAddress x)) < n ∧
      ∀ other ∈ holes s n (2 ^ k), x ≤ other →
        x + scanPages s n 0 (startAddress x) (getPgt s (startAddress x)) < other) := by
  rw [startAddress_eq (by omega)]
  have area : (x + n) * 4096 ≤ 2 ^ 39 := by
    simp only [demandMapPages] at inside
    omega
  have aligned : (demandMapAreaStart + x * pageSize) % pageSize = 0 := by
    simp only [demandMapAreaStart, pageSize]
    omega
  have bound : demandMapAreaStart + x * pageSize + n * pageSize < 2 ^ 64 := by
    simp only [demandMapAreaStart, pageSize]
    omega
  have fetched (_ : (demandMapAreaStart + x * pageSize) % 2 ^ 21 ≠ 0) :
      getPgt s (demandMapAreaStart + x * pageSize) = getPgt s (demandMapAreaStart + x * pageSize) := rfl
  obtain ⟨clear, result, most, before, stop⟩ := scanPages_eq 0 aligned bound fetched
  rw [result, Nat.zero_add]
  have page (i : Nat) :
      demandMapAreaStart + x * pageSize + i * pageSize = demandMapAreaStart + (x + i) * pageSize := by
    rw [Nat.add_mul, Nat.add_assoc]
  simp only [page] at before stop
  rcases Nat.lt_or_eq_of_le most with short | rfl
  · right
    refine ⟨short, fun other hole after => ?_⟩
    by_contra covered
    obtain ⟨_, _, absent⟩ := hole
    -- the busy page would be one of its pages
    apply absent (x + clear - other) (by omega)
    rw [show other + (x + clear - other) = x + clear by omega]
    exact stop short
  · exact Or.inl ⟨rfl, start, inside, before⟩

theorem ondemandLoop_first (small : k < 64) (asks : 1 ≤ n) (fits : n ≤ demandMapPages) {turns : Nat}
    (enough : demandMapPages + 1 < x + turns) (more : 0 < turns) (start : 2 ^ k ∣ x) (none : y ≠ n)
    (lower : ∀ other ∈ holes s n (2 ^ k), x ≤ other) :
    ∃ address, ondemandLoop s n (2 ^ k) turns x y = some address ∧ FirstHole s n (2 ^ k) address := by
  have last : ulongSub demandMapPages n = demandMapPages - n := ulongSub_eq fits (by decide)
  have alignment : 2 ^ k ≤ 2 ^ 63 := Nat.pow_le_pow_right (by decide) (by omega)
  induction turns generalizing x y with
  | zero => cases more
  | succ turns ih =>
    rw [ondemandLoop, last]
    by_cases inside : x ≤ demandMapPages - n
    · rw [if_pos inside]
      rcases scan_start (s := s) (n := n) (by omega) start with ⟨clear, hole⟩ | ⟨busy, skipped⟩
      · refine ⟨_, if_pos clear, ?_⟩
        rw [startAddress_eq (by omega)]
        refine ⟨⟨fun _ => ⟨x, hole⟩, fun _ => ?_⟩, fun _ => ⟨x, ⟨hole, lower⟩, rfl⟩⟩
        rw [demandMapAreaStart]
        omega
      · simp only [Nat.ne_of_lt busy, if_false]
        generalize scanPages s n 0 (startAddress x) (getPgt s (startAddress x)) = clear at busy skipped
        have bound : x + clear + 1 + 2 ^ k < 2 ^ 64 := by
          simp only [demandMapPages] at *
          omega
        obtain ⟨nextStart, behind⟩ := nextStart_behind small bound
        refine ih (by omega) (by omega) nextStart (Nat.ne_of_lt busy) fun other hole => ?_
        exact nextStart_least small bound hole.1 (skipped other hole (lower other hole))
    · rw [if_neg inside]
      refine ⟨0, if_pos none, ⟨fun nonzero => absurd rfl nonzero, ?_⟩, fun nonzero => absurd rfl nonzero⟩
      rintro ⟨other, hole⟩
      have after := lower other hole
      have within := hole.2.1
      omega

end Search

/-- Tables without an entry. -/
def noTables : AddressSpace := ⟨0, fun _ => 0, fun _ => 0⟩

theorem getPgt_noTables (va : Nat) : getPgt noTables va = none := by
  simp [getPgt, noTables, AddressSpace.entry, isPresent]

/-- Then every request is granted, from the start of the area. -/
theorem allocateOndemand_noTables (turns n alignment : Nat) :
    allocateOndemand noTables (turns + 1) n alignment = some demandMapAreaStart := by
  have clear : scanPages noTables n 0 (startAddress 0) (getPgt noTables (startAddress 0)) = n := by
    rw [getPgt_noTables, scanPages_none getPgt_noTables, Nat.zero_add]
  rw [allocateOndemand, ondemandLoop, if_pos (Nat.zero_le _)]
  exact if_pos clear

/-- With no page mapped the start of the area is returned, which is a hole for requests no
larger than the area. -/
theorem firstHole_noTables_fits {turns n alignment address : Nat}
    (found : allocateOndemand noTables turns n alignment = some address)
    (hole : FirstHole noTables n alignment address) : n ≤ demandMapPages := by
  obtain ⟨exact, _⟩ := hole
  cases turns with
  | zero => cases found
  | succ turns =>
    rw [allocateOndemand_noTables] at found
    cases Option.some.inj found
    obtain ⟨x, _, inside, _⟩ := exact.mp (by decide)
    omega

/-- The first hole of the area is found, whatever the tables are, just when the request is
no larger than the area. -/
theorem allocateOndemand_firstHole_iff {n k : Nat} (asks : 1 ≤ n) (small : k < 64) :
    (∀ s, ∃ turns address, allocateOndemand s turns n (2 ^ k) = some address ∧
      FirstHole s n (2 ^ k) address) ↔ n ≤ demandMapPages := by
  constructor
  · intro first
    obtain ⟨turns, address, found, hole⟩ := first noTables
    exact firstHole_noTables_fits found hole
  · intro fits s
    obtain ⟨address, found⟩ := @ondemandLoop_first s n k 0 0 small asks fits (demandMapPages + 2)
      (by omega) (by omega) (Nat.dvd_zero _) (by omega) (fun _ _ => Nat.zero_le _)
    exact ⟨_, address, found⟩

/-- One table for all levels: the pages 0, 2 and 32 of the area are mapped. -/
def mixedTables : AddressSpace where
  ptBase := 4096
  machineToPhys := id
  word := fun a => if a = 4096 ∨ a = 4096 + 8 * 2 ∨ a = 4096 + 8 * 32 then 0x1001 else 0

/-- Two pages that start at a multiple of two are found behind the mapped ones. -/
theorem allocateOndemand_firstHole_mixed : Mapped mixedTables demandMapAreaStart ∧
    ∃ turns address, allocateOndemand mixedTables turns 2 (2 ^ 1) = some address ∧
      FirstHole mixedTables 2 (2 ^ 1) address :=
  ⟨⟨4096, by decide +kernel, by decide +kernel⟩,
    (allocateOndemand_firstHole_iff (by decide) (by decide)).mpr (by decide) mixedTables⟩

example : allocateOndemand mixedTables 3 2 (2 ^ 1) = some (demandMapAreaStart + 4 * pageSize) := by decide +kernel

/-- One page more than the area has is granted. -/
theorem allocateOndemand_beyond : ¬ ∃ turns address,
    allocateOndemand noTables turns (demandMapPages + 1) (2 ^ 0) = some address ∧
      FirstHole noTables (demandMapPages + 1) (2 ^ 0) address := by
  rintro ⟨turns, address, found, hole⟩
  have fits := firstHole_noTables_fits found hole
  omega

end Stardust.Mm
