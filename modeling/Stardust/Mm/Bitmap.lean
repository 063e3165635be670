import Stardust.Kernel
import Stardust.Lib.PackedBits

/-! # The allocation bitmap

`alloc_bitmap` holds one bit per page frame, set when the frame is allocated.
`mapAlloc` and `mapFree` edit a range of it a word at a time; the two range
theorems say which bits they change. -/
set_option autoImplicit false
namespace Stardust.Mm

open Stardust.Lib

/-- `PAGES_PER_MAPWORD`, the bits of an `unsigned long`. -/
abbrev pagesPerMapword : Nat := 64

abbrev Bitmap := Words pagesPerMapword

def allocatedInMap (map : Bitmap) (s : Nat) : Bool :=
  map (s / pagesPerMapword) &&& (1#64 <<< (s &&& (pagesPerMapword - 1))) != 0#64

/-- `(1UL << off) - 1` -/
def maskBelow (off : Nat) : BitVec 64 := (1#64 <<< off) - 1#64

/-- `-(1UL << off)` -/
def maskFrom (off : Nat) : BitVec 64 := -(1#64 <<< off)

def mapAlloc (map : Bitmap) (firstPage nrPages : Nat) : Bitmap :=
  let currIdx := firstPage / pagesPerMapword
  let startOff := firstPage &&& (pagesPerMapword - 1)
  let endIdx := ulongAdd firstPage nrPages / pagesPerMapword
  let endOff := ulongAdd firstPage nrPages &&& (pagesPerMapword - 1)
  if currIdx = endIdx then
    orWord map currIdx (maskBelow endOff &&& maskFrom startOff)
  else
    let first := orWord map currIdx (maskFrom startOff)
    let middle := fillWords (BitVec.allOnes 64) (endIdx - (currIdx + 1)) (currIdx + 1) first
    orWord middle (max (currIdx + 1) endIdx) (maskBelow endOff)

/-- When the range wraps, `end_idx` lies below `curr_idx` and the loop
`while (++curr_idx != end_idx)` zeroes its way up through unmapped addresses. -/
def mapFree (map : Bitmap) (firstPage nrPages : Nat) : Except Halt Bitmap :=
  let currIdx := firstPage / pagesPerMapword
  let startOff := firstPage &&& (pagesPerMapword - 1)
  let endIdx := ulongAdd firstPage nrPages / pagesPerMapword
  let endOff := ulongAdd firstPage nrPages &&& (pagesPerMapword - 1)
  if currIdx = endIdx then
    .ok (andWord map currIdx (maskFrom endOff ||| maskBelow startOff))
  else if endIdx < currIdx then
    .error .fault
  else
    let first := andWord map currIdx (maskBelow startOff)
    let middle := fillWords 0#64 (endIdx - (currIdx + 1)) (currIdx + 1) first
    .ok (andWord middle endIdx (maskFrom endOff))

theorem offset_eq_mod (page : Nat) : page &&& (pagesPerMapword - 1) = page % 64 :=
  Nat.and_two_pow_sub_one_eq_mod page 6

theorem allocatedInMap_eq_bitAt (map : Bitmap) (page : Nat) :
    allocatedInMap map page = bitAt map page := by
  unfold allocatedInMap bitAt
  rw [offset_eq_mod]
  exact and_shifted_one_ne_zero _ (Nat.mod_lt page (by decide))

theorem getLsbD_maskBelow {off : Nat} (inside : off < 64) (i : Nat) :
    (maskBelow off).getLsbD i = decide (i < off) :=
  getLsbD_lowMask inside i

theorem getLsbD_maskFrom {off : Nat} (inside : off < 64) (i : Nat) :
    (maskFrom off).getLsbD i = (decide (i < 64) && decide (off ≤ i)) :=
  getLsbD_highMask inside i

/-! ## What a range edit changes -/

/-- The frames `first .. first + count - 1`. -/
abbrev InRange (first count page : Nat) : Prop := first ≤ page ∧ page < first + count

theorem allocatedInMap_mapAlloc (map : Bitmap) {firstPage nrPages : Nat}
    (fits : firstPage + nrPages < 2 ^ 64) (page : Nat) :
    allocatedInMap (mapAlloc map firstPage nrPages) page =
      (allocatedInMap map page || decide (InRange firstPage nrPages page)) := by
  have pageOff := Nat.mod_lt page (by decide : 64 > 0)
  have startOff := Nat.mod_lt firstPage (by decide : 64 > 0)
  have endOff := Nat.mod_lt (firstPage + nrPages) (by decide : 64 > 0)
  simp only [allocatedInMap_eq_bitAt, mapAlloc, ulongAdd_eq fits, offset_eq_mod,
    pagesPerMapword]
  split
  · rename_i sameWord
    rw [bitAt_orWord, BitVec.getLsbD_and, getLsbD_maskBelow endOff, getLsbD_maskFrom startOff]
    rw [Bool.eq_iff_iff]
    simp only [Bool.or_eq_true, Bool.and_eq_true, decide_eq_true_eq]
    refine or_congr_right ?_
    omega
  · rename_i otherWord
    have later : firstPage / 64 < (firstPage + nrPages) / 64 := by omega
    rw [bitAt_orWord, bitAt_fillWords, bitAt_orWord, getLsbD_maskBelow endOff,
      getLsbD_maskFrom startOff, BitVec.getLsbD_allOnes]
    rw [show max (firstPage / 64 + 1) ((firstPage + nrPages) / 64) = (firstPage + nrPages) / 64 by omega]
    rw [Bool.eq_iff_iff]
    split
    · simp only [Bool.or_eq_true, Bool.and_eq_true, decide_eq_true_eq]
      constructor
      · intro _
        exact Or.inr (by omega)
      · intro _
        exact Or.inl pageOff
    · simp only [Bool.or_eq_true, Bool.and_eq_true, decide_eq_true_eq, or_assoc]
      refine or_congr_right ?_
      omega

theorem mapFree_ok (map : Bitmap) {firstPage nrPages : Nat} (fits : firstPage + nrPages < 2 ^ 64) :
    ∃ freed, mapFree map firstPage nrPages = .ok freed ∧
      ∀ page, allocatedInMap freed page =
        (allocatedInMap map page && !decide (InRange firstPage nrPages page)) := by
  have startOff := Nat.mod_lt firstPage (by decide : 64 > 0)
  have endOff := Nat.mod_lt (firstPage + nrPages) (by decide : 64 > 0)
  simp only [allocatedInMap_eq_bitAt, mapFree, ulongAdd_eq fits, offset_eq_mod,
    pagesPerMapword]
  split
  · rename_i sameWord
    refine ⟨_, rfl, fun page => ?_⟩
    have pageOff := Nat.mod_lt page (by decide : 64 > 0)
    rw [bitAt_andWord, BitVec.getLsbD_or, getLsbD_maskBelow startOff, getLsbD_maskFrom endOff]
    rw [Bool.eq_iff_iff]
    simp only [Bool.or_eq_true, Bool.and_eq_true, Bool.not_eq_true', decide_eq_false_iff_not,
      decide_eq_true_eq]
    refine and_congr_right fun _ => ?_
    omega
  · rename_i otherWord
    have later : firstPage / 64 < (firstPage + nrPages) / 64 := by omega
    rw [if_neg (by omega)]
    refine ⟨_, rfl, fun page => ?_⟩
    have pageOff := Nat.mod_lt page (by decide : 64 > 0)
    rw [bitAt_andWord, bitAt_fillWords, bitAt_andWord, getLsbD_maskBelow startOff,
      getLsbD_maskFrom endOff]
    rw [Bool.eq_iff_iff]
    split
    · simp only [BitVec.getLsbD_zero, Bool.false_and, Bool.false_eq_true,
        Bool.and_eq_true, Bool.not_eq_true', decide_eq_false_iff_not, false_iff, not_and]
      intro _
      omega
    · simp only [Bool.or_eq_true, Bool.and_eq_true, Bool.not_eq_true', decide_eq_false_iff_not,
        decide_eq_true_eq, and_assoc]
      refine and_congr_right fun _ => ?_
      omega

/-- Both edits of a range of page numbers, which ends where an `unsigned long` can say. -/
theorem range_edits_exact (map : Bitmap) {firstPage nrPages : Nat} (fits : firstPage + nrPages < 2 ^ 64) :
    (∀ page, allocatedInMap (mapAlloc map firstPage nrPages) page =
      if InRange firstPage nrPages page then true else allocatedInMap map page) ∧
    ∃ freed, mapFree map firstPage nrPages = .ok freed ∧
      ∀ page, allocatedInMap freed page =
        if InRange firstPage nrPages page then false else allocatedInMap map page := by
  constructor
  · intro page
    rw [allocatedInMap_mapAlloc map fits]
    by_cases inside : InRange firstPage nrPages page
    · simp [inside]
    · simp [inside]
  · obtain ⟨freed, run, cleared⟩ := mapFree_ok map fits
    refine ⟨freed, run, ?_⟩
    intro page
    rw [cleared]
    by_cases inside : InRange firstPage nrPages page
    · simp [inside]
    · simp [inside]

/-- From bit 63 of one word to the end of the second one after it. -/
theorem range_edits_exact_words :
    (∀ page, allocatedInMap (mapAlloc (fun _ => 5) 63 129) page =
      if InRange 63 129 page then true else allocatedInMap (fun _ => 5) page) ∧
    ∃ freed, mapFree (fun _ => 5) 63 129 = .ok freed ∧
      ∀ page, allocatedInMap freed page = if InRange 63 129 page then false else allocatedInMap (fun _ => 5) page :=
  range_edits_exact (fun _ => 5) (by decide)

end Stardust.Mm
