import Stardust.Arch.BuildPagetable
import Stardust.Lib.Descent

/-! # The tables in the frames

What the kernel reads of a table, what an update changes, and the walk that the hardware
makes through the frames. -/
set_option autoImplicit false
namespace Stardust.Arch

open Stardust.Mm Stardust.Lib

/-! ## Entries -/

theorem pteToMfn_eq (pte : Nat) : pteToMfn pte = pte / 4096 % 2 ^ 40 := by
  have mask : frameMask >>> 12 = 2 ^ 40 - 1 := by decide
  rw [pteToMfn, Nat.shiftRight_and_distrib, mask, Nat.and_two_pow_sub_one_eq_mod, Nat.shiftRight_eq_div_pow]

theorem isPresent_iff (pte : Nat) : isPresent pte = true ↔ pte % 2 = 1 := by
  have bit : pte &&& pagePresent = pte % 2 := Nat.and_two_pow_sub_one_eq_mod pte 1
  rw [isPresent, bit, bne_iff_ne]
  omega

theorem isPse_iff (pte : Nat) : isPse pte = true ↔ pte / 128 % 2 = 1 := by
  rw [isPse, bne_iff_ne]
  have bit : pte &&& pagePse = 2 ^ 7 * (pte.testBit 7).toNat := Nat.and_two_pow pte 7 |>.trans (Nat.mul_comm ..)
  rw [bit, Nat.testBit_eq_decide_div_mod_eq]
  have two := Nat.mod_two_eq_zero_or_one (pte / 128)
  rcases two with even | odd
  · simp [even]
  · simp [odd]

theorem pteToMfn_lt (pte : Nat) : pteToMfn pte < 2 ^ 40 := by
  rw [pteToMfn_eq]
  exact Nat.mod_lt _ (by decide)

theorem pteOf_eq {mfn prot : Nat} (small : mfn < 2 ^ 40) (low : prot < 4096) :
    pteOf mfn prot = mfn * 4096 + prot := by
  rw [pteOf, Nat.mod_eq_of_lt (by omega), ← Nat.shiftLeft_eq]
  rw [← Nat.shiftLeft_add_eq_or_of_lt low, Nat.shiftLeft_eq]

/-- An entry made of a frame and the bits `prot`. -/
theorem pteOf_spec {mfn prot : Nat} (small : mfn < 2 ^ 40) (low : prot < 4096) :
    pteToMfn (pteOf mfn prot) = mfn ∧ isPresent (pteOf mfn prot) = isPresent prot ∧
      isPse (pteOf mfn prot) = isPse prot := by
  rw [pteOf_eq small low, pteToMfn_eq]
  refine ⟨by omega, ?_, ?_⟩
  · rw [Bool.eq_iff_iff, isPresent_iff, isPresent_iff]
    omega
  · rw [Bool.eq_iff_iff, isPse_iff, isPse_iff]
    omega

theorem machineEntry_eq {mfn index : Nat} (small : mfn < 2 ^ 40) (inside : index < 512) :
    machineEntry mfn index = mfn * 4096 + 8 * index := by
  rw [machineEntry, Nat.mod_eq_of_lt (by omega)]
  exact ulongAdd_eq (by omega)

/-- Where an update at the address of an entry goes. -/
theorem update_place {mfn index val : Nat} (inside : index < 512) :
    (⟨mfn * 4096 + 8 * index, val⟩ : MmuUpdate).frame = mfn ∧
      (⟨mfn * 4096 + 8 * index, val⟩ : MmuUpdate).index = index := by
  simp only [MmuUpdate.frame, MmuUpdate.index, Nat.shiftRight_eq_div_pow]
  omega

/-! ## Writes -/

section Writes
variable {frames : Frames} {mfn index value t i : Nat} {updates : List MmuUpdate}

theorem writeWord_self : writeWord frames mfn index value mfn index = value := by
  rw [writeWord, Function.update_self, Function.update_self]

theorem writeWord_other (apart : t ≠ mfn ∨ i ≠ index) : writeWord frames mfn index value t i = frames t i := by
  unfold writeWord
  by_cases same : t = mfn
  · subst same
    rw [Function.update_self, Function.update_of_ne (apart.resolve_left (fun apart => apart rfl))]
  · rw [Function.update_of_ne same]

theorem clearFrame_self : clearFrame frames mfn mfn i = 0 := by
  rw [clearFrame, Function.update_self]

theorem clearFrame_other (apart : t ≠ mfn) : clearFrame frames mfn t = frames t :=
  Function.update_of_ne apart ..

/-- No update of the list goes to the entry. -/
def Clear (updates : List MmuUpdate) (t i : Nat) : Prop :=
  ∀ update ∈ updates, update.frame ≠ t ∨ update.index ≠ i

theorem writeWord_comm (apart : t ≠ mfn ∨ i ≠ index) (word : Nat) :
    writeWord (writeWord frames mfn index value) t i word =
      writeWord (writeWord frames t i word) mfn index value := by
  funext u j
  by_cases first : u = t ∧ j = i
  · obtain ⟨rfl, rfl⟩ := first
    rw [writeWord_self, writeWord_other apart, writeWord_self]
  · rw [writeWord_other (not_and_or.mp first)]
    by_cases second : u = mfn ∧ j = index
    · obtain ⟨rfl, rfl⟩ := second
      rw [writeWord_self, writeWord_self]
    · rw [writeWord_other (not_and_or.mp second), writeWord_other (not_and_or.mp second),
        writeWord_other (not_and_or.mp first)]

theorem clearFrame_writeWord (apart : t ≠ mfn) (word : Nat) :
    writeWord (clearFrame frames mfn) t i word = clearFrame (writeWord frames t i word) mfn := by
  funext u j
  by_cases first : u = mfn
  · subst first
    rw [clearFrame_self, writeWord_other (Or.inl apart.symm), clearFrame_self]
  · rw [clearFrame_other first]
    by_cases second : u = t ∧ j = i
    · obtain ⟨rfl, rfl⟩ := second
      rw [writeWord_self, writeWord_self]
    · rw [writeWord_other (not_and_or.mp second), writeWord_other (not_and_or.mp second), clearFrame_other first]

theorem mmuUpdate_cons (update : MmuUpdate) : mmuUpdate frames (update :: updates) =
    mmuUpdate (writeWord frames update.frame update.index update.val) updates := rfl

theorem mmuUpdate_append (more : List MmuUpdate) :
    mmuUpdate frames (updates ++ more) = mmuUpdate (mmuUpdate frames updates) more := List.foldl_append

theorem mmuUpdate_other (clear : Clear updates t i) : mmuUpdate frames updates t i = frames t i := by
  induction updates generalizing frames with
  | nil => rfl
  | cons update updates ih =>
    obtain ⟨first, rest⟩ := List.forall_mem_cons.mp clear
    rw [mmuUpdate_cons, ih rest, writeWord_other (first.imp Ne.symm Ne.symm)]

/-- A write at once to an entry with no update in the queue is as one behind the queue. -/
theorem mmuUpdate_writeWord (clear : Clear updates t i) (word : Nat) :
    mmuUpdate (writeWord frames t i word) updates = writeWord (mmuUpdate frames updates) t i word := by
  induction updates generalizing frames with
  | nil => rfl
  | cons update updates ih =>
    obtain ⟨first, rest⟩ := List.forall_mem_cons.mp clear
    rw [mmuUpdate_cons, mmuUpdate_cons, ← ih rest, writeWord_comm first]

theorem mmuUpdate_clearFrame (clear : ∀ update ∈ updates, update.frame ≠ mfn) :
    mmuUpdate (clearFrame frames mfn) updates = clearFrame (mmuUpdate frames updates) mfn := by
  induction updates generalizing frames with
  | nil => rfl
  | cons update updates ih =>
    obtain ⟨first, rest⟩ := List.forall_mem_cons.mp clear
    rw [mmuUpdate_cons, mmuUpdate_cons, ← ih rest, clearFrame_writeWord first]

end Writes

/-! ## Four-level tables -/

/-- The table below an entry. -/
def child (frames : Frames) (mfn index : Nat) : Option Nat :=
  if index < 512 ∧ isPresent (frames mfn index) = true ∧ isPse (frames mfn index) = false then
    some (pteToMfn (frames mfn index))
  else none

theorem child_eq_some {frames : Frames} {mfn index t : Nat} : child frames mfn index = some t ↔
    (index < 512 ∧ isPresent (frames mfn index) = true ∧ isPse (frames mfn index) = false) ∧
      pteToMfn (frames mfn index) = t := by
  rw [child, Option.ite_none_right_eq_some, Option.some_inj]

def Domain.root (domain : Domain) : Nat := domain.physToMachine (virtToPfn domain.ptBase)

/-- The table at the end of a path of offsets. -/
def table (domain : Domain) (frames : Frames) (path : List Nat) : Option Nat :=
  descend (child frames) domain.root path

/-- The paths to the tables of levels 3, 2 and 1 for an address. -/
def path3 (va : Nat) : List Nat := [l4TableOffset va]
def path2 (va : Nat) : List Nat := [l4TableOffset va, l3TableOffset va]
def path1 (va : Nat) : List Nat := [l4TableOffset va, l3TableOffset va, l2TableOffset va]

/-- The kernel finds the frame at the page that the two maps give for it. -/
def Domain.Reads (domain : Domain) (mfn : Nat) : Prop :=
  domain.physToMachine (domain.machineToPhys mfn) = mfn ∧ domain.machineToPhys mfn < 2 ^ 52

/-- A four-level page table: a tree of frames with superpages at level 2 only, whose data
is no table. -/
structure FourLevel (domain : Domain) (frames : Frames) : Prop where
  tree : Tree (child frames) domain.root 3
  plain : ∀ p t i, p.length ≤ 1 → table domain frames p = some t → i < 512 →
    isPresent (frames t i) = true → isPse (frames t i) = false
  data : ∀ p t i q u, p.length = 2 → table domain frames p = some t → i < 512 →
    isPresent (frames t i) = true → isPse (frames t i) = true →
    q.length ≤ 3 → table domain frames q = some u → u ≠ pteToMfn (frames t i)
  reads : ∀ p t, p.length ≤ 2 → table domain frames p = some t → domain.Reads t

/-- `pt_base` is the address of a page, of a machine frame. -/
structure Domain.Based (domain : Domain) : Prop where
  aligned : domain.ptBase % 4096 = 0
  word : domain.ptBase < 2 ^ 64
  root : domain.root < 2 ^ 40

section Tables
variable {domain : Domain} {frames : Frames} {p : List Nat} {t i va : Nat}

theorem l1TableOffset_lt (va : Nat) : l1TableOffset va < 512 := by
  rw [l1TableOffset_eq]
  exact Nat.mod_lt _ (by decide)

theorem l2TableOffset_lt (va : Nat) : l2TableOffset va < 512 := by
  rw [l2TableOffset_eq]
  exact Nat.mod_lt _ (by decide)

theorem l3TableOffset_lt (va : Nat) : l3TableOffset va < 512 := by
  rw [l3TableOffset_eq]
  exact Nat.mod_lt _ (by decide)

theorem l4TableOffset_lt (va : Nat) : l4TableOffset va < 512 := by
  rw [l4TableOffset_eq]
  exact Nat.mod_lt _ (by decide)

theorem table_nil : table domain frames [] = some domain.root := rfl

theorem table_concat : table domain frames (p ++ [i]) = some t ↔
    ∃ parent, table domain frames p = some parent ∧ child frames parent i = some t := descend_concat_some

theorem path3_eq (va : Nat) : path3 va = [] ++ [l4TableOffset va] := rfl

theorem path2_eq (va : Nat) : path2 va = path3 va ++ [l3TableOffset va] := rfl

theorem path1_eq (va : Nat) : path1 va = path2 va ++ [l2TableOffset va] := rfl

theorem path3_short (va : Nat) : (path3 va).length ≤ 1 := Nat.le_refl 1

theorem path2_short (va : Nat) : (path2 va).length ≤ 2 := Nat.le_refl 2

theorem path1_short (va : Nat) : (path1 va).length ≤ 3 := Nat.le_refl 3

/-- Each table is a machine frame of 40 bits. -/
theorem Domain.Based.table_lt (based : domain.Based) (found : table domain frames p = some t) : t < 2 ^ 40 := by
  induction p using List.reverseRecOn generalizing t with
  | nil =>
    cases Option.some.inj found
    exact based.root
  | append_singleton p i _ =>
    obtain ⟨parent, _, step⟩ := table_concat.mp found
    rw [← (child_eq_some.mp step).2]
    exact pteToMfn_lt _

/-- What the kernel reads at an offset of a page. -/
theorem entry_page {tab : Nat} (aligned : tab % 4096 = 0) (word : tab < 2 ^ 64) (inside : i < 512) :
    (domain.space frames).entry tab i = frames (domain.physToMachine (tab / 4096)) i := by
  have address : entryAddress tab i = tab + 8 * i := ulongAdd_eq (by omega)
  have page : virtToPfn (tab + 8 * i) = tab / 4096 := by
    simp only [virtToPfn, ulongSub, virtStart, Mm.pageSize]
    omega
  have index : (tab + 8 * i) % 4096 / 8 = i := by omega
  simp only [AddressSpace.entry, Domain.space, address, page, index]

theorem Domain.Based.entry_root (based : domain.Based) (inside : i < 512) :
    (domain.space frames).entry domain.ptBase i = frames domain.root i := by
  have page : virtToPfn domain.ptBase = domain.ptBase / 4096 := by
    rw [virtToPfn, virtStart, ulongSub_eq (Nat.zero_le _) based.word]
    rfl
  rw [entry_page based.aligned based.word inside, Domain.root, page]

theorem Domain.Reads.page (reads : domain.Reads t) :
    pfnToVirt (domain.machineToPhys t) = domain.machineToPhys t * 4096 := by
  have small := reads.2
  simp only [pfnToVirt, toVirt, pfnPhys, ulongAdd, virtStart, Mm.pageSize]
  omega

theorem Domain.Reads.virtToPfn (reads : domain.Reads t) :
    virtToPfn (pfnToVirt (domain.machineToPhys t)) = domain.machineToPhys t := by
  have small := reads.2
  rw [reads.page]
  simp only [Mm.virtToPfn, ulongSub, virtStart, Mm.pageSize]
  omega

theorem Domain.Reads.entry (reads : domain.Reads t) (inside : i < 512) :
    (domain.space frames).entry ((domain.space frames).mfnToVirt t) i = frames t i := by
  have small := reads.2
  have page : (domain.space frames).mfnToVirt t = domain.machineToPhys t * 4096 := reads.page
  rw [page, entry_page (by omega) (by omega) inside, Nat.mul_div_cancel _ (by decide), reads.1]

/-- The words of the tables above level 1 are the same. -/
def SameAbove (domain : Domain) (frames other : Frames) : Prop :=
  ∀ p t, p.length ≤ 2 → table domain frames p = some t → other t = frames t

variable {other : Frames}

theorem SameAbove.agree (same : SameAbove domain frames other) :
    AgreeAbove (child frames) (child other) domain.root 3 := by
  intro p t i short found
  rw [child, child, same p t (Nat.le_of_lt_succ short) found]

theorem SameAbove.table_eq (same : SameAbove domain frames other) (short : p.length ≤ 3) :
    table domain other p = table domain frames p := same.agree.descend_eq short

theorem SameAbove.fourLevel (same : SameAbove domain frames other) (four : FourLevel domain frames) :
    FourLevel domain other := by
  constructor
  · exact same.agree.tree four.tree
  · intro p t i short found inside present
    rw [same.table_eq (by omega)] at found
    rw [same p t (by omega) found] at present ⊢
    exact four.plain p t i short found inside present
  · intro p t i q u length found inside present superpage short reached
    rw [same.table_eq (by omega)] at found
    rw [same.table_eq short] at reached
    rw [same p t (by omega) found] at present superpage ⊢
    exact four.data p t i q u length found inside present superpage short reached
  · intro p t short found
    rw [same.table_eq (by omega)] at found
    exact four.reads p t short found

end Tables

end Stardust.Arch
