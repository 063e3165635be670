import Mathlib.Data.Nat.Notation
import Mathlib.Logic.Function.Basic

/-! # Memory in frames, read and written through a map of pages

Addresses are split at the page size.  No two pages share a frame, so a store through the
map is seen at its own address and at no other. -/
set_option autoImplicit false
namespace Stardust.Lib

/-- The frames of the pages. -/
structure PageMap where
  frame : Nat → Nat
  injective : Function.Injective frame

variable {Byte : Type} {pageSize : Nat}

section Store
variable (map : PageMap) (pageSize) (mem : Nat → Nat → Byte)

def PageMap.load (address : Nat) : Byte := mem (map.frame (address / pageSize)) (address % pageSize)

/-- A write to one byte of a frame. -/
def writeFrame (frame offset : Nat) (byte : Byte) : Nat → Nat → Byte :=
  fun f o => if f = frame ∧ o = offset then byte else mem f o

def PageMap.store (address : Nat) (byte : Byte) : Nat → Nat → Byte :=
  writeFrame mem (map.frame (address / pageSize)) (address % pageSize) byte

/-- `n` bytes in turn, from the first. -/
def PageMap.copy (target source : Nat) : Nat → Nat → Nat → Byte
  | 0 => mem
  | n + 1 =>
    let done := PageMap.copy target source n
    map.store pageSize done (target + n) (map.load pageSize done (source + n))

/-- Bytes of a frame from the offset `first` on. -/
def fillFrame (frame first count : Nat) (content : Nat → Byte) : Nat → Nat → Byte :=
  fun f o => if f = frame ∧ first ≤ o ∧ o < first + count then content (o - first) else mem f o

end Store

section Rules
variable {map : PageMap} {mem : Nat → Nat → Byte} {address other n i : Nat}

/-- Addresses are told apart by their frame and their offset. -/
theorem page_offset_inj :
    map.frame (address / pageSize) = map.frame (other / pageSize) ∧ address % pageSize = other % pageSize ↔
      address = other := by
  constructor
  · rintro ⟨page, offset⟩
    rw [← Nat.div_add_mod address pageSize, ← Nat.div_add_mod other pageSize, map.injective page, offset]
  · rintro rfl
    exact ⟨rfl, rfl⟩

theorem PageMap.load_store (byte : Byte) :
    map.load pageSize (map.store pageSize mem address byte) other =
      if other = address then byte else map.load pageSize mem other := by
  unfold PageMap.load PageMap.store writeFrame
  simp only [page_offset_inj]

/-- A copy leaves what is outside its target. -/
theorem PageMap.load_copy_outside {target source : Nat}
    (outside : ∀ i < n, other ≠ target + i) :
    map.load pageSize (map.copy pageSize mem target source n) other = map.load pageSize mem other := by
  induction n with
  | zero => rfl
  | succ n ih =>
    rw [PageMap.copy, PageMap.load_store, if_neg (outside n (Nat.lt_succ_self n))]
    exact ih fun i less => outside i (Nat.lt_succ_of_lt less)

/-- A copy between places that are apart: the target has the bytes of the source. -/
theorem PageMap.load_copy {target source : Nat} (less : i < n)
    (apart : ∀ i < n, ∀ j < n, source + i ≠ target + j) :
    map.load pageSize (map.copy pageSize mem target source n) (target + i) =
      map.load pageSize mem (source + i) := by
  induction n with
  | zero => exact absurd less (Nat.not_lt_zero i)
  | succ n ih =>
    have shorter : ∀ i < n, ∀ j < n, source + i ≠ target + j := fun i first j second =>
      apart i (Nat.lt_succ_of_lt first) j (Nat.lt_succ_of_lt second)
    rw [PageMap.copy, PageMap.load_store]
    rcases Nat.lt_succ_iff_lt_or_eq.mp less with earlier | rfl
    · rw [if_neg (by omega)]
      exact ih earlier shorter
    · rw [if_pos rfl]
      exact PageMap.load_copy_outside fun j second => apart i (Nat.lt_succ_self i) j (Nat.lt_succ_of_lt second)

theorem fillFrame_other {frame first count f o : Nat} {content : Nat → Byte} (other : f ≠ frame) :
    fillFrame mem frame first count content f o = mem f o := if_neg fun both => other both.1

theorem fillFrame_inside {frame first count o : Nat} {content : Nat → Byte} (least : first ≤ o)
    (inside : o < first + count) : fillFrame mem frame first count content frame o = content (o - first) :=
  if_pos ⟨rfl, least, inside⟩

end Rules

end Stardust.Lib
