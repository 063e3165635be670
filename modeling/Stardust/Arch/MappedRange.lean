import Stardust.Arch.TableMemory

/-! # What `build_pagetable` maps

The queued entries are counted as written: the tables above level 1, which is all that the
code reads, are the same with and without them. -/
set_option autoImplicit false
namespace Stardust.Arch

open Stardust.Mm Stardust.Lib

/-! ## Walks of an address -/

/-- The addresses that the hardware takes. -/
def Canonical (va : Nat) : Prop := va < 2 ^ 47 ∨ 2 ^ 64 - 2 ^ 47 ≤ va ∧ va < 2 ^ 64

/-- The entry of a superpage at an address. -/
def Superpage (domain : Domain) (frames : Frames) (va entry : Nat) : Prop :=
  ∃ t, table domain frames (path2 va) = some t ∧ frames t (l2TableOffset va) = entry ∧
    isPresent entry = true ∧ isPse entry = true

/-- The entry that a walk ends in, 0 where a table is missing. -/
def lastEntry (domain : Domain) (frames : Frames) (va : Nat) : Nat :=
  ((table domain frames (path2 va)).map fun t =>
    let entry := frames t (l2TableOffset va)
    if !isPresent entry then 0
    else if isPse entry then entry
    else frames (pteToMfn entry) (l1TableOffset va)).getD 0

/-- The machine address behind an address. -/
def translate (domain : Domain) (frames : Frames) (va : Nat) : Option Nat :=
  (table domain frames (path2 va)).bind fun t =>
    let entry := frames t (l2TableOffset va)
    if !isPresent entry then none
    else if isPse entry then some (pteToMfn entry * 2 ^ 12 + va % 2 ^ 21)
    else
      let entry := frames (pteToMfn entry) (l1TableOffset va)
      if isPresent entry then some (pteToMfn entry * 2 ^ 12 + va % 2 ^ 12) else none

section Walks
variable {domain : Domain} {frames : Frames} {va other entry t : Nat}

/-- Two pages with the same offsets at all levels are one. -/
theorem page_eq (canonical : Canonical va) (alike : Canonical other) (path : path1 va = path1 other)
    (offset : l1TableOffset va = l1TableOffset other) : va / 4096 = other / 4096 := by
  simp only [path1, List.cons.injEq, and_true, l4TableOffset_eq, l3TableOffset_eq, l2TableOffset_eq] at path
  rw [l1TableOffset_eq, l1TableOffset_eq] at offset
  obtain ⟨l4, l3, l2⟩ := path
  unfold Canonical at canonical alike
  omega

theorem path1_congr (same : va / 4096 = other / 4096) : path1 va = path1 other := by
  simp only [path1, List.cons.injEq, and_true, l4TableOffset_eq, l3TableOffset_eq, l2TableOffset_eq]
  omega

theorem l1TableOffset_congr (same : va / 4096 = other / 4096) : l1TableOffset va = l1TableOffset other := by
  rw [l1TableOffset_eq, l1TableOffset_eq]
  omega

/-- A walk comes to a table of level 1. -/
theorem path1_some : table domain frames (path1 va) = some t ↔ ∃ parent,
    table domain frames (path2 va) = some parent ∧ isPresent (frames parent (l2TableOffset va)) = true ∧
      isPse (frames parent (l2TableOffset va)) = false ∧ pteToMfn (frames parent (l2TableOffset va)) = t := by
  rw [path1_eq, table_concat]
  simp only [child_eq_some, l2TableOffset_lt, true_and, and_assoc]

theorem Superpage.path1_none (superpage : Superpage domain frames va entry) :
    table domain frames (path1 va) ≠ some t := by
  obtain ⟨parent, found, rfl, _, pse⟩ := superpage
  intro reached
  obtain ⟨other, again, _, plain, _⟩ := path1_some.mp reached
  cases Option.some.inj (found.symm.trans again)
  rw [pse] at plain
  cases plain

/-- A walk ends in a table of level 1, in a superpage, or early. -/
theorem walk_cases (domain : Domain) (frames : Frames) (va : Nat) :
    (∃ t, table domain frames (path1 va) = some t) ∨ (∃ entry, Superpage domain frames va entry) ∨
      (lastEntry domain frames va = 0 ∧ translate domain frames va = none) := by
  rw [lastEntry, translate]
  cases found : table domain frames (path2 va) with
  | none => exact Or.inr (Or.inr ⟨rfl, rfl⟩)
  | some parent =>
    cases present : isPresent (frames parent (l2TableOffset va)) with
    | false =>
      right
      right
      simp [present]
    | true =>
      cases pse : isPse (frames parent (l2TableOffset va)) with
      | false => exact Or.inl ⟨_, path1_some.mpr ⟨parent, found, present, pse, rfl⟩⟩
      | true => exact Or.inr (Or.inl ⟨_, parent, found, rfl, present, pse⟩)

theorem walk_table (reached : table domain frames (path1 va) = some t) :
    lastEntry domain frames va = frames t (l1TableOffset va) ∧
      translate domain frames va =
        if isPresent (frames t (l1TableOffset va)) then
          some (pteToMfn (frames t (l1TableOffset va)) * 2 ^ 12 + va % 2 ^ 12)
        else none := by
  obtain ⟨parent, found, present, plain, rfl⟩ := path1_some.mp reached
  rw [lastEntry, translate, found]
  simp [present, plain]

theorem walk_superpage (superpage : Superpage domain frames va entry) :
    lastEntry domain frames va = entry ∧
      translate domain frames va = some (pteToMfn entry * 2 ^ 12 + va % 2 ^ 21) := by
  obtain ⟨parent, found, rfl, present, pse⟩ := superpage
  rw [lastEntry, translate, found]
  simp [present, pse]

/-- The frame that the present entry of level 2 for an address names. -/
def Named (domain : Domain) (frames : Frames) (va t : Nat) : Prop :=
  ∃ parent, table domain frames (path2 va) = some parent ∧ isPresent (frames parent (l2TableOffset va)) = true ∧
    pteToMfn (frames parent (l2TableOffset va)) = t

/-- The frame is no table above level 1. -/
def NotAbove (domain : Domain) (frames : Frames) (t : Nat) : Prop :=
  ∀ p, p.length ≤ 2 → table domain frames p ≠ some t

theorem Named.cases (named : Named domain frames va t) : table domain frames (path1 va) = some t ∨
    ∃ entry, Superpage domain frames va entry ∧ pteToMfn entry = t := by
  obtain ⟨parent, found, present, frame⟩ := named
  cases pse : isPse (frames parent (l2TableOffset va)) with
  | false => exact Or.inl (path1_some.mpr ⟨parent, found, present, pse, frame⟩)
  | true => exact Or.inr ⟨_, ⟨parent, found, rfl, present, pse⟩, frame⟩

theorem Superpage.frame_ne (four : FourLevel domain frames) (superpage : Superpage domain frames va entry)
    {p : List Nat} (short : p.length ≤ 3) : table domain frames p ≠ some (pteToMfn entry) := by
  obtain ⟨parent, found, rfl, present, pse⟩ := superpage
  intro reached
  exact four.data _ parent _ p _ rfl found (l2TableOffset_lt va) present pse short reached rfl

theorem notAbove_of_table (four : FourLevel domain frames) (reached : table domain frames (path1 va) = some t) :
    NotAbove domain frames t := by
  intro p short found
  have same := four.tree _ _ t (path1_short va) (Nat.le_succ_of_le short) reached found
  rw [← same] at short
  exact absurd short (Nat.not_succ_le_self 2)

theorem Named.notAbove (four : FourLevel domain frames) (named : Named domain frames va t) :
    NotAbove domain frames t := by
  rcases named.cases with reached | ⟨entry, superpage, rfl⟩
  · exact notAbove_of_table four reached
  · exact fun p short => superpage.frame_ne four (Nat.le_succ_of_le short)

/-- The entry for another page is another one. -/
theorem Named.apart (four : FourLevel domain frames) (named : Named domain frames other t)
    (alike : Canonical other) (canonical : Canonical va) {u : Nat}
    (reached : table domain frames (path1 va) = some u) (different : va / 4096 ≠ other / 4096) :
    u ≠ t ∨ l1TableOffset va ≠ l1TableOffset other := by
  by_contra same
  obtain ⟨rfl, offset⟩ := not_or.mp same |>.imp not_not.mp not_not.mp
  rcases named.cases with found | ⟨entry, superpage, rfl⟩
  · have path := four.tree _ _ u (path1_short va) (path1_short other) reached found
    exact different (page_eq canonical alike path offset)
  · exact superpage.frame_ne four (path1_short va) reached

theorem NotAbove.writeWord (off : NotAbove domain frames t) (i value : Nat) :
    SameAbove domain frames (writeWord frames t i value) := by
  intro p u short found
  funext j
  apply writeWord_other
  left
  rintro rfl
  exact off p short found

theorem NotAbove.clearFrame (off : NotAbove domain frames t) : SameAbove domain frames (clearFrame frames t) := by
  intro p u short found
  apply clearFrame_other
  rintro rfl
  exact off p short found

theorem clearFrame_sameAbove (four : FourLevel domain frames) {f : Nat}
    (unused : ∀ p : List Nat, p.length ≤ 3 → table domain frames p ≠ some f)
    (reached : table domain frames (path1 va) = some t) (i value : Nat) :
    SameAbove domain frames (writeWord (Arch.clearFrame frames f) t i value) := by
  have off : NotAbove domain frames f := fun p short => unused p (Nat.le_succ_of_le short)
  intro p u short found
  rw [← off.clearFrame p u short found]
  funext j
  apply writeWord_other
  left
  rintro rfl
  exact notAbove_of_table four reached p short found

end Walks

/-! ## A new table -/

/-- A free entry of an upper table, with a cleared frame for it. -/
structure Linking (domain : Domain) (frames : Frames) (p : List Nat) (parent i f prot : Nat) : Prop where
  four : FourLevel domain frames
  small : f < 2 ^ 40
  unused : ∀ q : List Nat, q.length ≤ 3 → table domain frames q ≠ some f
  zero : ∀ j, frames f j = 0
  short : p.length ≤ 2
  found : table domain frames p = some parent
  inside : i < 512
  absent : isPresent (frames parent i) = false
  low : prot < 4096
  present : isPresent prot = true
  plain : isPse prot = false

section Link
variable {domain : Domain} {frames : Frames} {p q : List Nat} {parent i f prot t : Nat}

/-- The entry that names the frame adds a node. -/
theorem Linking.newNode (linking : Linking domain frames p parent i f prot) :
    NewNode (child frames) (child (writeWord frames parent i (pteOf f prot))) domain.root 3 p i f := by
  obtain ⟨mfn, bit, pse⟩ := pteOf_spec linking.small linking.low
  refine ⟨linking.four.tree, Nat.lt_succ_of_le linking.short, ?_, ⟨parent, linking.found⟩, linking.unused, ?_⟩
  · intro other same
    cases Option.some.inj (same.symm.trans linking.found)
    refine ⟨?_, ?_, ?_⟩
    · simp [child, linking.absent]
    · rw [child_eq_some, writeWord_self]
      exact ⟨⟨linking.inside, bit.trans linking.present, pse.trans linking.plain⟩, mfn⟩
    · intro t j apart
      rw [child, child, writeWord_other apart]
  · intro j
    have none : isPresent 0 = false := rfl
    simp [child, linking.zero, none]

/-- One path more leads to a table. -/
theorem Linking.table_iff (linking : Linking domain frames p parent i f prot) (few : q.length ≤ 3) :
    table domain (writeWord frames parent i (pteOf f prot)) q = some t ↔
      table domain frames q = some t ∨ (q = p ++ [i] ∧ t = f) := linking.newNode.descend_iff few

/-- Nothing was below the entry. -/
theorem Linking.nothing (linking : Linking domain frames p parent i f prot) :
    table domain frames (p ++ [i]) ≠ some t := by
  intro reached
  obtain ⟨before, same, step⟩ := table_concat.mp reached
  cases Option.some.inj (same.symm.trans linking.found)
  have present := (child_eq_some.mp step).1.2.1
  rw [linking.absent] at present
  cases present

theorem Linking.empty (linking : Linking domain frames p parent i f prot) (j : Nat) :
    writeWord frames parent i (pteOf f prot) f j = 0 := by
  have new : f ≠ parent := by
    rintro rfl
    exact linking.unused p (Nat.le_succ_of_le linking.short) linking.found
  rw [writeWord_other (Or.inl new)]
  exact linking.zero j

theorem Linking.old_entry (linking : Linking domain frames p parent i f prot) {j : Nat}
    (present : isPresent (frames t j) = true) : writeWord frames parent i (pteOf f prot) t j = frames t j := by
  apply writeWord_other
  by_contra both
  obtain ⟨rfl, rfl⟩ := not_or.mp both |>.imp not_not.mp not_not.mp
  rw [linking.absent] at present
  cases present

/-- The tables of level 1 are as they were. -/
theorem Linking.below (linking : Linking domain frames p parent i f prot) (length : q.length = 3)
    (reached : table domain frames q = some t) (j : Nat) :
    writeWord frames parent i (pteOf f prot) t j = frames t j := by
  apply writeWord_other
  left
  rintro rfl
  have path := linking.four.tree _ _ _ (Nat.le_of_eq length) (Nat.le_succ_of_le linking.short) reached linking.found
  have short := linking.short
  rw [path] at length
  omega

/-- A present entry that was not there before. -/
theorem Linking.entry (linking : Linking domain frames p parent i f prot) {j : Nat} (few : q.length ≤ 2)
    (reached : table domain (writeWord frames parent i (pteOf f prot)) q = some t)
    (present : isPresent (writeWord frames parent i (pteOf f prot) t j) = true) :
    (table domain frames q = some t ∧ writeWord frames parent i (pteOf f prot) t j = frames t j) ∨
      isPse (writeWord frames parent i (pteOf f prot) t j) = false := by
  by_cases same : t = parent ∧ j = i
  · right
    obtain ⟨rfl, rfl⟩ := same
    rw [writeWord_self]
    exact (pteOf_spec linking.small linking.low).2.2.trans linking.plain
  · rcases (linking.table_iff (Nat.le_succ_of_le few)).mp reached with old | ⟨_, rfl⟩
    · exact Or.inl ⟨old, writeWord_other (not_and_or.mp same)⟩
    · have none : isPresent 0 = false := rfl
      rw [linking.empty, none] at present
      cases present

/-- Superpages are old ones. -/
theorem Linking.superpage (linking : Linking domain frames p parent i f prot) {j : Nat} (few : q.length ≤ 2)
    (reached : table domain (writeWord frames parent i (pteOf f prot)) q = some t)
    (present : isPresent (writeWord frames parent i (pteOf f prot) t j) = true)
    (pse : isPse (writeWord frames parent i (pteOf f prot) t j) = true) :
    table domain frames q = some t ∧ writeWord frames parent i (pteOf f prot) t j = frames t j :=
  (linking.entry few reached present).resolve_right (ne_false_of_eq_true pse)

theorem Linking.fourLevel (linking : Linking domain frames p parent i f prot) (reads : domain.Reads f)
    (noData : ∀ q t j, q.length = 2 → table domain frames q = some t → j < 512 →
      isPresent (frames t j) = true → isPse (frames t j) = true → pteToMfn (frames t j) ≠ f) :
    FourLevel domain (writeWord frames parent i (pteOf f prot)) := by
  refine ⟨linking.newNode.tree_other, ?_, ?_, ?_⟩
  · intro q t j few reached less there
    rcases linking.entry (Nat.le_succ_of_le few) reached there with ⟨old, word⟩ | plain
    · rw [word] at there ⊢
      exact linking.four.plain q t j few old less there
    · exact plain
  · intro q t j other u length reached less there superpage few found
    obtain ⟨old, word⟩ := linking.superpage (Nat.le_of_eq length) reached there superpage
    rw [word] at there superpage ⊢
    rcases (linking.table_iff few).mp found with before | ⟨_, rfl⟩
    · exact linking.four.data q t j other u length old less there superpage few before
    · exact (noData q t j length old less there superpage).symm
  · intro q t few reached
    rcases (linking.table_iff (Nat.le_succ_of_le few)).mp reached with old | ⟨_, rfl⟩
    · exact linking.four.reads q t few old
    · exact reads

end Link

/-! ## The call -/

/-- The arguments of a call, and the tables that it finds. -/
structure BuildCall where
  domain : Domain
  source : FrameSource
  frames : Frames
  startAddress : Nat
  endAddress : Nat

namespace BuildCall
variable (call : BuildCall)

def pages : Nat := (call.endAddress - call.startAddress) / 4096

/-- The address of a page of the range. -/
def page (j : Nat) : Nat := call.startAddress + 4096 * j

def Inside (va : Nat) : Prop := call.startAddress ≤ va ∧ va < call.endAddress

/-- The page of a frame for a table. -/
def ownPage (f : Nat) : Nat := pfnToVirt (call.domain.machineToPhys f)

/-- A frame for a table: it is no table, and no data of a superpage, and an entry of level 1
outside the range maps its page. -/
structure Supplied (f : Nat) : Prop where
  small : f < 2 ^ 40
  reads : call.domain.Reads f
  noTable : ∀ p, p.length ≤ 3 → table call.domain call.frames p ≠ some f
  noData : ∀ p t i, p.length = 2 → table call.domain call.frames p = some t → i < 512 →
    isPresent (call.frames t i) = true → isPse (call.frames t i) = true → pteToMfn (call.frames t i) ≠ f
  canonical : Canonical (call.ownPage f)
  outside : ¬ call.Inside (call.ownPage f)
  mapped : ∃ parent t, table call.domain call.frames (path2 (call.ownPage f)) = some parent ∧
    call.frames parent (l2TableOffset (call.ownPage f)) < 2 ^ 52 ∧
    table call.domain call.frames (path1 (call.ownPage f)) = some t ∧
    isPresent (call.frames t (l1TableOffset (call.ownPage f))) = true ∧
    pteToMfn (call.frames t (l1TableOffset (call.ownPage f))) = f

/-- A four-level page table, a range of whole pages, and frames to map. -/
structure Ready : Prop where
  based : call.domain.Based
  four : FourLevel call.domain call.frames
  startAligned : call.startAddress % 4096 = 0
  endAligned : call.endAddress % 4096 = 0
  word : call.endAddress < 2 ^ 64
  canonical : ∀ va, call.Inside va → Canonical va
  pfns : ∀ j < call.pages, 0 ≤ call.source.pfn j ∧ call.source.pfn j < 2 ^ 40

/-- The first `used` frames for tables. -/
structure Supplies (used : Nat) : Prop where
  natural : ∀ c < used, 0 ≤ call.source.npf c
  supplied : ∀ c < used, call.Supplied (call.source.npf c).toNat
  distinct : ∀ c d, c < used → d < used → call.source.npf c = call.source.npf d → c = d

/-- The word for an address in its table of level 1 is as before the call, but for the
page of a table, which may have become read-only; in a new table it is 0. -/
def Kept (frames : Frames) (va t : Nat) : Prop :=
  (table call.domain call.frames (path1 va) = some t ∧
    (frames t (l1TableOffset va) = call.frames t (l1TableOffset va) ∨
      ¬ call.Inside va ∧ isPresent (frames t (l1TableOffset va)) = true ∧
        isPresent (call.frames t (l1TableOffset va)) = true ∧
        pteToMfn (frames t (l1TableOffset va)) = pteToMfn (call.frames t (l1TableOffset va)))) ∨
  (table call.domain call.frames (path1 va) = none ∧ frames t (l1TableOffset va) = 0)

/-- The tables when `done` pages are done and `used` frames for tables are in use. -/
structure Built (done used : Nat) (frames : Frames) : Prop where
  four : FourLevel call.domain frames
  grows : ∀ p t, p.length ≤ 3 → table call.domain call.frames p = some t → table call.domain frames p = some t
  keeps : ∀ p t i, p.length ≤ 2 → table call.domain call.frames p = some t → i < 512 →
    isPresent (call.frames t i) = true → frames t i = call.frames t i
  fresh : ∀ p t, p.length ≤ 3 → table call.domain frames p = some t →
    table call.domain call.frames p = some t ∨ ∃ c < used, (call.source.npf c).toNat = t
  superpages : ∀ p t i, p.length = 2 → table call.domain frames p = some t → i < 512 →
    isPresent (frames t i) = true → isPse (frames t i) = true →
    table call.domain call.frames p = some t ∧ call.frames t i = frames t i
  reached : ∀ j < done, (∃ t, table call.domain frames (path1 (call.page j)) = some t) ∨
    ∃ entry, Superpage call.domain call.frames (call.page j) entry
  mapped : ∀ j < done, 0 < call.source.pfn j → ∀ t, table call.domain frames (path1 (call.page j)) = some t →
    frames t (l1TableOffset (call.page j)) = pteOf (call.source.pfn j).toNat l1Prot
  kept : ∀ va, Canonical va → (∀ j < done, 0 < call.source.pfn j → va / 4096 ≠ call.page j / 4096) →
    ∀ t, table call.domain frames (path1 va) = some t → call.Kept frames va t

/-! ## What is kept -/

section Steps
variable {call} {done used : Nat} {frames other : Frames}

theorem Built.begin (ready : call.Ready) : call.Built 0 0 call.frames where
  four := ready.four
  grows _ _ _ found := found
  keeps _ _ _ _ _ _ _ := rfl
  fresh _ _ _ found := Or.inl found
  superpages _ _ _ _ found _ _ _ := ⟨found, rfl⟩
  reached := nofun
  mapped := nofun
  kept _ _ _ _ reached := Or.inl ⟨reached, Or.inl rfl⟩

/-- A change below the upper tables. -/
theorem Built.congr (built : call.Built done used frames) (same : SameAbove call.domain frames other)
    {after : Nat}
    (reached : ∀ j < after, (∃ t, table call.domain frames (path1 (call.page j)) = some t) ∨
      ∃ entry, Superpage call.domain call.frames (call.page j) entry)
    (mapped : ∀ j < after, 0 < call.source.pfn j → ∀ t, table call.domain frames (path1 (call.page j)) = some t →
      other t (l1TableOffset (call.page j)) = pteOf (call.source.pfn j).toNat l1Prot)
    (kept : ∀ va, Canonical va → (∀ j < after, 0 < call.source.pfn j → va / 4096 ≠ call.page j / 4096) →
      ∀ t, table call.domain frames (path1 va) = some t → call.Kept other va t) :
    call.Built after used other := by
  have same1 (va : Nat) : table call.domain other (path1 va) = table call.domain frames (path1 va) :=
    same.table_eq (path1_short va)
  refine ⟨same.fourLevel built.four, ?_, ?_, ?_, ?_, ?_, ?_, ?_⟩
  · intro p t short found
    rw [same.table_eq short]
    exact built.grows p t short found
  · intro p t i short found inside present
    rw [same p t short (built.grows p t (Nat.le_succ_of_le short) found)]
    exact built.keeps p t i short found inside present
  · intro p t short found
    rw [same.table_eq short] at found
    exact built.fresh p t short found
  · intro p t i length found inside present pse
    rw [same.table_eq (by omega)] at found
    rw [same p t (by omega) found] at present pse ⊢
    exact built.superpages p t i length found inside present pse
  · intro j less
    rw [same1]
    exact reached j less
  · intro j less positive t found
    rw [same1] at found
    exact mapped j less positive t found
  · intro va canonical off t found
    rw [same1] at found
    exact kept va canonical off t found

/-- Only the word counts. -/
theorem Kept.congr {va t : Nat} (kept : call.Kept frames va t)
    (word : other t (l1TableOffset va) = frames t (l1TableOffset va)) : call.Kept other va t := by
  unfold Kept
  rw [word]
  exact kept

theorem page_div (ready : call.Ready) (j : Nat) : call.page j / 4096 = call.startAddress / 4096 + j := by
  have aligned := ready.startAligned
  unfold page
  omega

theorem page_inside (ready : call.Ready) {j : Nat} (less : j < call.pages) : call.Inside (call.page j) := by
  have first := ready.startAligned
  have last := ready.endAligned
  unfold pages at less
  unfold page Inside
  omega

/-- Whether an address is in the range is a matter of its page. -/
theorem inside_congr (ready : call.Ready) {va page : Nat} (same : va / 4096 = page / 4096) :
    call.Inside va ↔ call.Inside page := by
  have first := ready.startAligned
  have last := ready.endAligned
  unfold Inside
  omega

/-- The entry of the next page, where it has a frame. -/
theorem Built.mapPage (ready : call.Ready) (built : call.Built done used frames) (more : done < call.pages)
    {t : Nat} (named : Named call.domain frames (call.page done) t) :
    call.Built (done + 1) used (if 0 < call.source.pfn done then
      writeWord frames t (l1TableOffset (call.page done)) (pteOf (call.source.pfn done).toNat l1Prot)
      else frames) := by
  have canonical := ready.canonical _ (page_inside ready more)
  have reached : ∀ j < done + 1, (∃ t, table call.domain frames (path1 (call.page j)) = some t) ∨
      ∃ entry, Superpage call.domain call.frames (call.page j) entry := by
    intro j less
    rcases Nat.lt_succ_iff_lt_or_eq.mp less with earlier | rfl
    · exact built.reached j earlier
    · rcases named.cases with found | ⟨entry, ⟨parent, found, rfl, present, pse⟩, _⟩
      · exact Or.inl ⟨t, found⟩
      · obtain ⟨before, same⟩ := built.superpages _ _ _ rfl found (l2TableOffset_lt _) present pse
        exact Or.inr ⟨_, parent, before, same, present, pse⟩
  split
  · refine built.congr ((named.notAbove built.four).writeWord _ _) reached ?_ ?_
    · intro j less positive u found
      rcases Nat.lt_succ_iff_lt_or_eq.mp less with earlier | rfl
      · have different : call.page j / 4096 ≠ call.page done / 4096 := by
          rw [page_div ready, page_div ready]
          omega
        have alike := ready.canonical _ (page_inside ready (Nat.lt_trans earlier more))
        rw [writeWord_other (named.apart built.four canonical alike found different)]
        exact built.mapped j earlier positive u found
      · rcases named.cases with same | ⟨entry, superpage, _⟩
        · cases Option.some.inj (found.symm.trans same)
          exact writeWord_self
        · exact absurd found superpage.path1_none
    · intro va alike off u found
      rename_i positive
      have kept := built.kept va alike (fun j less => off j (Nat.lt_succ_of_lt less)) u found
      exact kept.congr (writeWord_other
        (named.apart built.four canonical alike found (off done (Nat.lt_succ_self _) positive)))
  · rename_i none
    refine built.congr (fun _ _ _ _ => rfl) reached ?_ ?_
    · intro j less positive u found
      rcases Nat.lt_succ_iff_lt_or_eq.mp less with earlier | rfl
      · exact built.mapped j earlier positive u found
      · exact absurd positive none
    · intro va alike off u found
      exact built.kept va alike (fun j less => off j (Nat.lt_succ_of_lt less)) u found

/-! ## The next table -/

/-- A frame that is not used yet is at the end of no path. -/
theorem Built.unused (built : call.Built done used frames) {c : Nat} (supplies : call.Supplies (c + 1))
    (next : used ≤ c) {p : List Nat} (short : p.length ≤ 3) :
    table call.domain frames p ≠ some (call.source.npf c).toNat := by
  intro found
  rcases built.fresh p _ short found with before | ⟨d, less, same⟩
  · exact (supplies.supplied c (Nat.lt_succ_self c)).noTable p short before
  · have first := supplies.natural c (Nat.lt_succ_self c)
    have second := supplies.natural d (by omega)
    have one := supplies.distinct d c (by omega) (Nat.lt_succ_self c) (by omega)
    omega

/-- The frame is cleared and its page made read-only. -/
theorem Built.clear (ready : call.Ready) (built : call.Built done used frames) (few : done ≤ call.pages)
    (supplies : call.Supplies (used + 1)) {prot t : Nat} (low : prot < 4096) (present : isPresent prot = true)
    (own : table call.domain frames (path1 (call.ownPage (call.source.npf used).toNat)) = some t) :
    call.Built done used (writeWord (clearFrame frames (call.source.npf used).toNat) t
      (l1TableOffset (call.ownPage (call.source.npf used).toNat)) (pteOf (call.source.npf used).toNat prot)) := by
  have supplied := supplies.supplied used (Nat.lt_succ_self used)
  have unused {p : List Nat} (short : p.length ≤ 3) := built.unused supplies (Nat.le_refl used) short
  generalize (call.source.npf used).toNat = f at own supplied unused ⊢
  have canonical := supplied.canonical
  have outside := supplied.outside
  have named : Named call.domain frames (call.ownPage f) t := by
    obtain ⟨parent, found, there, _, frame⟩ := path1_some.mp own
    exact ⟨parent, found, there, frame⟩
  have same : SameAbove call.domain frames (writeWord (clearFrame frames f) t (l1TableOffset (call.ownPage f))
      (pteOf f prot)) := clearFrame_sameAbove built.four (fun _ => unused) own _ _
  have word {va u : Nat} (alike : Canonical va) (found : table call.domain frames (path1 va) = some u)
      (different : va / 4096 ≠ call.ownPage f / 4096) :
      writeWord (clearFrame frames f) t (l1TableOffset (call.ownPage f)) (pteOf f prot) u (l1TableOffset va) =
        frames u (l1TableOffset va) := by
    rw [writeWord_other (named.apart built.four canonical alike found different), clearFrame_other]
    rintro rfl
    exact unused (path1_short va) found
  refine built.congr same built.reached ?_ ?_
  · intro j less positive u found
    have inside := page_inside ready (Nat.lt_of_lt_of_le less few)
    rw [word (ready.canonical _ inside) found fun samePage => outside ((inside_congr ready samePage).mp inside)]
    exact built.mapped j less positive u found
  · intro va alike off u found
    by_cases samePage : va / 4096 = call.ownPage f / 4096
    · rw [path1_congr samePage, own] at found
      cases Option.some.inj found
      obtain ⟨_, before, _, _, mapped, there, frame⟩ := supplied.mapped
      have still := built.grows _ _ (path1_short _) mapped
      cases Option.some.inj (own.symm.trans still)
      obtain ⟨mfn, bit, _⟩ := pteOf_spec supplied.small low
      left
      rw [path1_congr samePage, l1TableOffset_congr samePage, inside_congr ready samePage, writeWord_self]
      exact ⟨mapped, Or.inr ⟨outside, bit.trans present, there, mfn.trans frame.symm⟩⟩
    · exact (built.kept va alike off u found).congr (word alike found samePage)

/-- The next frame for a table is cleared, and the entry above it is free. -/
theorem Built.linking (built : call.Built done used frames) (supplies : call.Supplies (used + 1))
    (zero : ∀ j, frames (call.source.npf used).toNat j = 0) {p : List Nat} {parent i prot : Nat}
    (short : p.length ≤ 2) (found : table call.domain frames p = some parent) (inside : i < 512)
    (absent : isPresent (frames parent i) = false) (low : prot < 4096) (present : isPresent prot = true)
    (plain : isPse prot = false) : Linking call.domain frames p parent i (call.source.npf used).toNat prot where
  four := built.four
  small := (supplies.supplied used (Nat.lt_succ_self used)).small
  unused _ few := built.unused supplies (Nat.le_refl used) few
  zero := zero
  short := short
  found := found
  inside := inside
  absent := absent
  low := low
  present := present
  plain := plain

/-- A page that is done has its table, or a superpage in the place of one. -/
theorem Built.reached_link (built : call.Built done used frames) {p : List Nat} {parent i f prot j : Nat}
    (linking : Linking call.domain frames p parent i f prot) (less : j < done) : path1 (call.page j) ≠ p ++ [i] := by
  intro path
  rcases built.reached j less with ⟨u, old⟩ | ⟨entry, before, first, same, there, _⟩
  · rw [path] at old
    exact linking.nothing old
  · rw [path1_eq] at path
    obtain ⟨upper, last⟩ := List.append_inj' path rfl
    cases List.singleton_inj.mp last
    have old := built.grows _ _ (Nat.le_succ_of_le (path2_short _)) first
    have absent := linking.absent
    rw [upper] at old
    cases Option.some.inj (old.symm.trans linking.found)
    rw [← same] at there
    rw [built.keeps _ _ _ (path2_short _) first linking.inside there, there] at absent
    cases absent

/-- The entry above names the new table. -/
theorem Built.link (built : call.Built done used frames) (supplies : call.Supplies (used + 1)) {p : List Nat}
    {parent i prot : Nat} (linking : Linking call.domain frames p parent i (call.source.npf used).toNat prot) :
    call.Built done (used + 1) (writeWord frames parent i (pteOf (call.source.npf used).toNat prot)) := by
  have supplied := supplies.supplied used (Nat.lt_succ_self used)
  refine ⟨linking.fourLevel supplied.reads ?_, ?_, ?_, ?_, ?_, ?_, ?_, ?_⟩
  · intro q t j length old less there superpage
    obtain ⟨first, entry⟩ := built.superpages q t j length old less there superpage
    rw [← entry] at there superpage ⊢
    exact supplied.noData q t j length first less there superpage
  · intro q t few before
    exact (linking.table_iff few).mpr (Or.inl (built.grows q t few before))
  · intro q t j few before less there
    have kept := built.keeps q t j few before less there
    rw [← kept] at there
    exact (linking.old_entry there).trans kept
  · intro q t few reached
    rcases (linking.table_iff few).mp reached with old | ⟨_, rfl⟩
    · exact (built.fresh q t few old).imp id fun ⟨c, less, same⟩ => ⟨c, Nat.lt_succ_of_lt less, same⟩
    · exact Or.inr ⟨used, Nat.lt_succ_self used, rfl⟩
  · intro q t j length reached less there superpage
    obtain ⟨old, word⟩ := linking.superpage (Nat.le_of_eq length) reached there superpage
    rw [word] at there superpage ⊢
    exact built.superpages q t j length old less there superpage
  · intro j less
    refine (built.reached j less).imp ?_ id
    rintro ⟨t, old⟩
    exact ⟨t, (linking.table_iff (path1_short _)).mpr (Or.inl old)⟩
  · intro j less positive t reached
    rcases (linking.table_iff (path1_short _)).mp reached with old | ⟨path, _⟩
    · rw [linking.below rfl old]
      exact built.mapped j less positive t old
    · exact absurd path (built.reached_link linking less)
  · intro va canonical off t reached
    rcases (linking.table_iff (path1_short _)).mp reached with old | ⟨path, rfl⟩
    · exact (built.kept va canonical off t old).congr (linking.below rfl old _)
    · right
      refine ⟨?_, linking.empty _⟩
      cases before : table call.domain call.frames (path1 va) with
      | none => rfl
      | some u =>
        have old := built.grows _ _ (path1_short va) before
        rw [path] at old
        exact absurd old linking.nothing

end Steps

end BuildCall

end Stardust.Arch
