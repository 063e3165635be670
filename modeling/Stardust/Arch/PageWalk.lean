import Stardust.Mm.PageAllocator

/-! # Two walks of the page tables

`get_pgt` gives the entry that maps an address, `validate` says whether the address can be
read.  Both read the tables through the kernel's own mapping of its memory. -/
set_option autoImplicit false
namespace Stardust.Arch

open Stardust.Mm

/-! ## Entries -/

def pagePresent : Nat := 0x001
def pageRw : Nat := 0x002
def pageUser : Nat := 0x004
def pageAccessed : Nat := 0x020
def pageDirty : Nat := 0x040
def pagePse : Nat := 0x080

def l1TableOffset (va : Nat) : Nat := va >>> 12 &&& (512 - 1)
def l2TableOffset (va : Nat) : Nat := va >>> 21 &&& (512 - 1)
def l3TableOffset (va : Nat) : Nat := va >>> 30 &&& (512 - 1)
def l4TableOffset (va : Nat) : Nat := va >>> 39 &&& (512 - 1)

/-- `PADDR_MASK & PAGE_MASK` -/
def frameMask : Nat := (2 ^ 52 - 1) &&& (2 ^ 64 - 2 ^ 12)

def pteToMfn (pte : Nat) : Nat := (pte &&& frameMask) >>> 12

def isPresent (pte : Nat) : Bool := pte &&& pagePresent != 0

def isPse (pte : Nat) : Bool := pte &&& pagePse != 0

theorem l1TableOffset_eq (va : Nat) : l1TableOffset va = va / 2 ^ 12 % 512 := by
  rw [l1TableOffset, Nat.shiftRight_eq_div_pow]
  exact Nat.and_two_pow_sub_one_eq_mod _ 9

theorem l2TableOffset_eq (va : Nat) : l2TableOffset va = va / 2 ^ 21 % 512 := by
  rw [l2TableOffset, Nat.shiftRight_eq_div_pow]
  exact Nat.and_two_pow_sub_one_eq_mod _ 9

theorem l3TableOffset_eq (va : Nat) : l3TableOffset va = va / 2 ^ 30 % 512 := by
  rw [l3TableOffset, Nat.shiftRight_eq_div_pow]
  exact Nat.and_two_pow_sub_one_eq_mod _ 9

theorem l4TableOffset_eq (va : Nat) : l4TableOffset va = va / 2 ^ 39 % 512 := by
  rw [l4TableOffset, Nat.shiftRight_eq_div_pow]
  exact Nat.and_two_pow_sub_one_eq_mod _ 9

/-! ## The walks -/

/-- What the walks read: `start_info.pt_base`, `machine_to_phys_mapping`, and the word at
each address. -/
structure AddressSpace where
  ptBase : Nat
  machineToPhys : Nat → Nat
  word : Nat → Nat

section Walks
variable (s : AddressSpace)

/-- `&tab[offset]` -/
def entryAddress (tab offset : Nat) : Nat := ulongAdd tab (8 * offset)

/-- `tab[offset]` -/
def AddressSpace.entry (tab offset : Nat) : Nat := s.word (entryAddress tab offset)

def AddressSpace.mfnToVirt (mfn : Nat) : Nat := pfnToVirt (s.machineToPhys mfn)

/-- `get_pgt`; `none` is `NULL`.  No table lies in the first page, which holds the code. -/
def getPgt (va : Nat) : Option Nat :=
  let tab := s.ptBase
  let offset := l4TableOffset va
  if !isPresent (s.entry tab offset) then none
  else
    let tab := s.mfnToVirt (pteToMfn (s.entry tab offset))
    let offset := l3TableOffset va
    if !isPresent (s.entry tab offset) then none
    else
      let tab := s.mfnToVirt (pteToMfn (s.entry tab offset))
      let offset := l2TableOffset va
      if !isPresent (s.entry tab offset) then none
      else if isPse (s.entry tab offset) then some (entryAddress tab offset)
      else
        let tab := s.mfnToVirt (pteToMfn (s.entry tab offset))
        some (entryAddress tab (l1TableOffset va))

def tableOffset : Nat → Nat → Nat
  | 4 => l4TableOffset
  | 3 => l3TableOffset
  | 2 => l2TableOffset
  | _ => l1TableOffset

/-- Conversion to `long`. -/
def longOfUlong (a : Nat) : Int := (a : Int).bmod (2 ^ 64)

/-- The loop of `not11_virt_to_pfn` from a level on, with the values of `pfn` and `pte`. -/
def virtToPfnLoop (addr : Nat) : Nat → Nat → Int → Nat → Int × Option Nat
  | 0, _, pfn, pte => (pfn, some pte)
  | level + 1, tab, _, _ =>
    let pte := s.entry tab (tableOffset (level + 1) addr)
    if 1 < level + 1 ∧ !isPresent pte then (-1, none)
    else
      let pfn := longOfUlong (s.machineToPhys (pteToMfn pte))
      virtToPfnLoop addr level (toVirt (ulongOfInt (pfn * 2 ^ 12))) pfn pte

/-- `not11_virt_to_pfn`: the result, and what it stores at `pte_ptr`. -/
def not11VirtToPfn (addr : Nat) : Int × Option Nat := virtToPfnLoop s addr 4 s.ptBase 0 0

def validate (addr : Nat) : Nat :=
  let (r, pte) := not11VirtToPfn s addr
  if 0 < r ∧ pte.any isPresent then 1 else 0

end Walks

/-! ## What they have in common -/

section Common
variable (s : AddressSpace) (va : Nat)

/-- The table that an entry names. -/
def AddressSpace.follow (tab offset : Nat) : Option Nat :=
  if isPresent (s.entry tab offset) then some (s.mfnToVirt (pteToMfn (s.entry tab offset))) else none

/-- The table of level 2 for an address. -/
def AddressSpace.l2Table : Option Nat :=
  (s.follow s.ptBase (l4TableOffset va)).bind fun tab => s.follow tab (l3TableOffset va)

/-- The entry in it. -/
def AddressSpace.l2Entry (tab : Nat) : Nat := s.entry tab (l2TableOffset va)

/-- The word at the offset of level 1 in the frame that this entry names: the entry of
level 1, or a word of the superpage. -/
def AddressSpace.l1Word (tab : Nat) : Nat :=
  s.entry (s.mfnToVirt (pteToMfn (s.l2Entry va tab))) (l1TableOffset va)

theorem getPgt_eq : getPgt s va = (s.l2Table va).bind fun tab =>
    if !isPresent (s.l2Entry va tab) then none
    else if isPse (s.l2Entry va tab) then some (entryAddress tab (l2TableOffset va))
    else some (entryAddress (s.mfnToVirt (pteToMfn (s.l2Entry va tab))) (l1TableOffset va)) := by
  simp only [getPgt, AddressSpace.l2Table, AddressSpace.follow, AddressSpace.l2Entry]
  cases isPresent (s.entry s.ptBase (l4TableOffset va)) with
  | false => rfl
  | true =>
    simp only [Bool.not_true, Bool.false_eq_true, if_false, if_true, Option.bind_some]
    cases isPresent (s.entry (s.mfnToVirt (pteToMfn (s.entry s.ptBase (l4TableOffset va))))
      (l3TableOffset va)) <;> rfl

theorem bmod_mul_toNat (a factor width : Nat) :
    ((a : Int).bmod width * factor % width).toNat = a * factor % width := by
  rw [Int.mul_emod, Int.bmod_emod, ← Int.mul_emod, ← Int.natCast_mul, ← Int.natCast_emod, Int.toNat_natCast]

/-- The shift of a `long` gives the address of the page all the same. -/
theorem toVirt_longOfUlong (pfn : Nat) : toVirt (ulongOfInt (longOfUlong pfn * 2 ^ 12)) = pfnToVirt pfn := by
  have same := bmod_mul_toNat pfn (2 ^ 12) (2 ^ 64)
  exact congrArg toVirt same

theorem virtToPfnLoop_succ (level tab : Nat) (pfn : Int) (pte : Nat) :
    virtToPfnLoop s va (level + 2) tab pfn pte =
      match s.follow tab (tableOffset (level + 2) va) with
      | none => (-1, none)
      | some next => virtToPfnLoop s va (level + 1) next
          (longOfUlong (s.machineToPhys (pteToMfn (s.entry tab (tableOffset (level + 2) va)))))
          (s.entry tab (tableOffset (level + 2) va)) := by
  rw [virtToPfnLoop, AddressSpace.follow]
  simp only [toVirt_longOfUlong]
  cases isPresent (s.entry tab (tableOffset (level + 2) va)) with
  | false => simp
  | true => simp [AddressSpace.mfnToVirt]

theorem not11VirtToPfn_eq : not11VirtToPfn s va =
    match s.l2Table va with
    | none => (-1, none)
    | some tab =>
      if isPresent (s.l2Entry va tab) then
        (longOfUlong (s.machineToPhys (pteToMfn (s.l1Word va tab))), some (s.l1Word va tab))
      else (-1, none) := by
  rw [not11VirtToPfn, virtToPfnLoop_succ, AddressSpace.l2Table]
  simp only [tableOffset]
  cases s.follow s.ptBase (l4TableOffset va) with
  | none => rfl
  | some l3 =>
    simp only [Option.bind_some]
    rw [virtToPfnLoop_succ]
    simp only [tableOffset]
    cases s.follow l3 (l3TableOffset va) with
    | none => rfl
    | some l2 =>
      simp only [virtToPfnLoop_succ, AddressSpace.follow, tableOffset]
      cases present : isPresent (s.entry l2 (l2TableOffset va)) with
      | false => simp [AddressSpace.l2Entry, present]
      | true => simp [AddressSpace.l2Entry, AddressSpace.l1Word, present, virtToPfnLoop, tableOffset]

end Common

/-! ## When they agree -/

/-- An address can be read, as `get_pgt` has it. -/
def Mapped (s : AddressSpace) (va : Nat) : Prop := ∃ pgt, getPgt s va = some pgt ∧ isPresent (s.word pgt)

/-- Below a present entry of level 2: the word taken for the entry of level 1 is present
if that is a superpage, and when it is present it names a frame with a `long` above 0. -/
def WalksAgree (s : AddressSpace) (va : Nat) : Prop :=
  ∀ tab, s.l2Table va = some tab → isPresent (s.l2Entry va tab) →
    (isPse (s.l2Entry va tab) → isPresent (s.l1Word va tab)) ∧
    (isPresent (s.l1Word va tab) → 0 < longOfUlong (s.machineToPhys (pteToMfn (s.l1Word va tab))))

theorem mapped_iff (s : AddressSpace) (va : Nat) : Mapped s va ↔
    ∃ tab, s.l2Table va = some tab ∧ isPresent (s.l2Entry va tab) ∧
      (isPse (s.l2Entry va tab) ∨ isPresent (s.l1Word va tab)) := by
  rw [Mapped, getPgt_eq]
  cases s.l2Table va with
  | none => simp
  | some tab =>
    cases present : isPresent (s.l2Entry va tab) with
    | false => simp [present]
    | true =>
      cases superpage : isPse (s.l2Entry va tab) with
      | true =>
        have entry : isPresent (s.word (entryAddress tab (l2TableOffset va))) := present
        simp [present, superpage, entry]
      | false =>
        have entry : s.word (entryAddress (s.mfnToVirt (pteToMfn (s.l2Entry va tab))) (l1TableOffset va)) =
          s.l1Word va tab := rfl
        simp [present, superpage, entry]

theorem validate_iff (s : AddressSpace) (va : Nat) : validate s va = 1 ↔
    ∃ tab, s.l2Table va = some tab ∧ isPresent (s.l2Entry va tab) ∧ isPresent (s.l1Word va tab) ∧
      0 < longOfUlong (s.machineToPhys (pteToMfn (s.l1Word va tab))) := by
  rw [validate, not11VirtToPfn_eq]
  cases s.l2Table va with
  | none => simp
  | some tab =>
    cases present : isPresent (s.l2Entry va tab) with
    | false => simp [present]
    | true => simp [present, and_comm]

/-- `validate` and `get_pgt` agree on an address just when the word below a present entry
of level 2 is as `validate` takes it. -/
theorem walks_agree_iff (s : AddressSpace) (va : Nat) :
    (validate s va = 1 ↔ ∃ pgt, getPgt s va = some pgt ∧ isPresent (s.word pgt)) ↔ WalksAgree s va := by
  have mapped := mapped_iff s va
  rw [Mapped] at mapped
  rw [validate_iff, mapped, WalksAgree]
  constructor
  · intro agree tab table present
    constructor
    · intro superpage
      obtain ⟨other, same, _, word, _⟩ := agree.mpr ⟨tab, table, present, Or.inl superpage⟩
      cases Option.some.inj (table.symm.trans same)
      exact word
    · intro word
      obtain ⟨other, same, _, _, frame⟩ := agree.mpr ⟨tab, table, present, Or.inr word⟩
      cases Option.some.inj (table.symm.trans same)
      exact frame
  · intro alike
    constructor
    · rintro ⟨tab, table, present, word, _⟩
      exact ⟨tab, table, present, Or.inr word⟩
    · rintro ⟨tab, table, present, either⟩
      obtain ⟨first, second⟩ := alike tab table present
      have word := either.elim first id
      exact ⟨tab, table, present, word, second word⟩

/-- Tables in the pages 1 to 3, with an entry of level 2 for the address 0 and a word at
the start of page 4. -/
def smallTables (l2 l1 : Nat) : AddressSpace where
  ptBase := 0x1000
  machineToPhys mfn := mfn
  word address :=
    match address with
    | 0x1000 => 0x2067
    | 0x2000 => 0x3067
    | 0x3000 => l2
    | 0x4000 => l1
    | _ => 0

/-- A superpage of zeros, and a page whose frame is 0. -/
theorem walks_disagree :
    ¬ (validate (smallTables 0x40e7 0) 0 = 1 ↔
      ∃ pgt, getPgt (smallTables 0x40e7 0) 0 = some pgt ∧ isPresent ((smallTables 0x40e7 0).word pgt)) ∧
    ¬ (validate (smallTables 0x4067 0x27) 0 = 1 ↔
      ∃ pgt, getPgt (smallTables 0x4067 0x27) 0 = some pgt ∧
        isPresent ((smallTables 0x4067 0x27).word pgt)) := by
  constructor
  · intro agree
    exact absurd (agree.mpr ⟨0x3000, by decide, by decide⟩) (by decide)
  · intro agree
    exact absurd (agree.mpr ⟨0x4000, by decide, by decide⟩) (by decide)

end Stardust.Arch
