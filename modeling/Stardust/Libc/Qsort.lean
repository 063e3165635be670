import Mathlib.Data.Nat.Notation
import Stardust.Kernel
import Stardust.Lib.Rearrange

/-! # Sorting an array

`qsort` of `lib.c`: a quicksort that gathers the elements equal to the pivot at both ends
of the segment and then swaps them into its middle.  The array is the bytes from `base`;
pointers are offsets from there, and an access outside the array is a fault.  No index
wraps, since `qsort` refuses more elements than `ssize_t` can count. -/
set_option autoImplicit false
namespace Stardust.Libc

open Stardust.Lib

/-! ## The code -/

def loadByte (memory : List UInt8) (offset : Int) : Except Halt UInt8 :=
  if offset < 0 then .error .fault
  else match memory[offset.toNat]? with
    | some c => .ok c
    | none => .error .fault

def storeByte (memory : List UInt8) (offset : Int) (c : UInt8) : Except Halt (List UInt8) :=
  if 0 ≤ offset ∧ offset < memory.length then .ok (memory.set offset.toNat c) else .error .fault

/-- The loop of `exch`. -/
def exchBytes : Nat → List UInt8 → Int → Int → Except Halt (List UInt8)
  | 0, memory, _, _ => .ok memory
  | size + 1, memory, x, y => do
    let z ← loadByte memory x
    let other ← loadByte memory y
    let memory ← storeByte memory x other
    let memory ← storeByte memory y z
    exchBytes size memory (x + 1) (y + 1)

/-- The arguments of `qsort` besides the array.  `compar` gets the bytes at its pointers. -/
structure Sorting where
  nmemb : Nat
  size : Nat
  compar : (Fin size → UInt8) → (Fin size → UInt8) → Int

namespace Sorting
variable (s : Sorting)

/-- The bytes of an element. -/
def element (memory : List UInt8) (k : Int) : Fin s.size → UInt8 :=
  fun offset => memory.getD (k.toNat * s.size + offset) 0

def exch (memory : List UInt8) (a b : Int) : Except Halt (List UInt8) :=
  exchBytes s.size memory (a * s.size) (b * s.size)

/-- `compar(base+a*size,base+b*size)` -/
def compare (memory : List UInt8) (a b : Int) : Except Halt Int :=
  if 0 ≤ a ∧ a < s.nmemb ∧ 0 ≤ b ∧ b < s.nmemb then .ok (s.compar (s.element memory a) (s.element memory b))
  else .error .fault

/-- `while (++i != r && compar(base+i*size,v)<0) ;` -/
def scanUp (memory : List UInt8) (r : Int) : Nat → Int → Except Halt Int
  | 0, _ => .error .fuel
  | fuel + 1, i =>
    if i + 1 ≠ r then do
      let order ← s.compare memory (i + 1) r
      if order < 0 then scanUp memory r fuel (i + 1) else .ok (i + 1)
    else .ok (i + 1)

/-- `while (compar(v,base+(--j)*size)<0) if (j == l) break;` -/
def scanDown (memory : List UInt8) (l r : Int) : Nat → Int → Except Halt Int
  | 0, _ => .error .fuel
  | fuel + 1, j => do
    let order ← s.compare memory r (j - 1)
    if order < 0 then (if j - 1 = l then .ok (j - 1) else scanDown memory l r fuel (j - 1)) else .ok (j - 1)

/-- `if (compar(base+i*size,v)==0) exch(base,size,++p,i);` -/
def gatherLow (memory : List UInt8) (r i p : Int) : Except Halt (List UInt8 × Int) := do
  let order ← s.compare memory i r
  if order = 0 then do
    let memory ← s.exch memory (p + 1) i
    .ok (memory, p + 1)
  else .ok (memory, p)

/-- `if (compar(v,base+j*size)==0) exch(base,size,j,--q);` -/
def gatherHigh (memory : List UInt8) (r j q : Int) : Except Halt (List UInt8 × Int) := do
  let order ← s.compare memory r j
  if order = 0 then do
    let memory ← s.exch memory j (q - 1)
    .ok (memory, q - 1)
  else .ok (memory, q)

structure Cursors where
  i : Int
  j : Int
  p : Int
  q : Int

/-- The loop `for (;;)`. -/
def partition (l r : Int) : Nat → List UInt8 → Cursors → Except Halt (List UInt8 × Cursors)
  | 0, _, _ => .error .fuel
  | fuel + 1, memory, c => do
    let i ← s.scanUp memory r (s.nmemb + 1) c.i
    let j ← s.scanDown memory l r (s.nmemb + 1) c.j
    if j ≤ i then .ok (memory, { c with i, j })
    else do
      let memory ← s.exch memory i j
      let (memory, p) ← s.gatherLow memory r i c.p
      let (memory, q) ← s.gatherHigh memory r j c.q
      partition l r fuel memory { i, j, p, q }

/-- `for (k=l; k<p; k++, j--) exch(base,size,k,j);` with the last `j`. -/
def equalsFromLow (p : Int) : Nat → List UInt8 → Int → Int → Except Halt (List UInt8 × Int)
  | 0, _, _, _ => .error .fuel
  | fuel + 1, memory, k, j =>
    if k < p then do
      let memory ← s.exch memory k j
      equalsFromLow p fuel memory (k + 1) (j - 1)
    else .ok (memory, j)

/-- `for (k=r-1; k>q; k--, i++) exch(base,size,i,k);` with the last `i`. -/
def equalsFromHigh (q : Int) : Nat → List UInt8 → Int → Int → Except Halt (List UInt8 × Int)
  | 0, _, _, _ => .error .fuel
  | fuel + 1, memory, k, i =>
    if q < k then do
      let memory ← s.exch memory i k
      equalsFromHigh q fuel memory (k - 1) (i + 1)
    else .ok (memory, i)

def quicksort : Nat → List UInt8 → Int → Int → Except Halt (List UInt8)
  | 0, _, _, _ => .error .fuel
  | fuel + 1, memory, l, r =>
    if r ≤ l then .ok memory
    else do
      let (memory, c) ← s.partition l r (s.nmemb + 1) memory { i := l - 1, j := r, p := l - 1, q := r }
      let memory ← s.exch memory c.i r
      let (memory, j) ← s.equalsFromLow c.p (s.nmemb + 1) memory l (c.i - 1)
      let (memory, i) ← s.equalsFromHigh c.q (s.nmemb + 1) memory (r - 1) (c.i + 1)
      let memory ← quicksort fuel memory l j
      quicksort fuel memory i r

def qsort (memory : List UInt8) : Except Halt (List UInt8) :=
  if 2 ^ 63 - 1 ≤ s.nmemb ∨ 2 ^ 63 - 1 ≤ s.size then .ok memory
  else if 1 < s.nmemb then s.quicksort (s.nmemb + 1) memory 0 ((s.nmemb : Int) - 1)
  else .ok memory

end Sorting

/-! ## Exchanges -/

section Bytes
variable {memory : List UInt8} {x y n : Nat}

theorem loadByte_ok (inside : x < memory.length) : loadByte memory x = .ok (memory.getD x 0) := by
  unfold loadByte
  rw [if_neg (by omega), Int.toNat_natCast, List.getD_eq_getElem?_getD, List.getElem?_eq_getElem inside]
  rfl

theorem storeByte_ok {c : UInt8} (inside : x < memory.length) : storeByte memory x c = .ok (memory.set x c) := by
  unfold storeByte
  rw [if_pos (by omega), Int.toNat_natCast]

theorem getD_set {c : UInt8} (inside : x < memory.length) (i : Nat) :
    (memory.set x c).getD i 0 = if i = x then c else memory.getD i 0 := by
  rw [List.getD_eq_getElem?_getD, List.getD_eq_getElem?_getD, List.getElem?_set]
  by_cases here : i = x
  · rw [if_pos here.symm, if_pos here, if_pos inside, Option.getD_some]
  · rw [if_neg (Ne.symm here), if_neg here]

/-- The byte that is at `i` after two ranges of `n` bytes have been exchanged. -/
def exchanged (x y n i : Nat) : Nat :=
  if x ≤ i ∧ i < x + n then y + (i - x) else if y ≤ i ∧ i < y + n then x + (i - y) else i

theorem exchBytes_ok (inX : x + n ≤ memory.length) (inY : y + n ≤ memory.length)
    (apart : x = y ∨ x + n ≤ y ∨ y + n ≤ x) :
    ∃ after, exchBytes n memory x y = .ok after ∧ after.length = memory.length ∧
      ∀ i, after.getD i 0 = memory.getD (exchanged x y n i) 0 := by
  induction n generalizing memory x y with
  | zero =>
    refine ⟨memory, rfl, rfl, fun i => ?_⟩
    unfold exchanged
    rw [if_neg (by omega), if_neg (by omega)]
  | succ n ih =>
    have first : ∀ i, ((memory.set x (memory.getD y 0)).set y (memory.getD x 0)).getD i 0 =
        memory.getD (exchanged x y 1 i) 0 := by
      intro i
      rw [getD_set (by rw [List.length_set]; omega), getD_set (by omega)]
      unfold exchanged
      grind
    obtain ⟨after, run, length, bytes⟩ :=
      @ih ((memory.set x (memory.getD y 0)).set y (memory.getD x 0)) (x + 1) (y + 1) (by simp; omega) (by simp; omega)
        (by omega)
    refine ⟨after, ?_, by simpa using length, fun i => ?_⟩
    · rw [exchBytes, loadByte_ok (by omega), loadByte_ok (by omega), Halt.ok_bind, Halt.ok_bind,
        storeByte_ok (by omega), Halt.ok_bind, storeByte_ok (by rw [List.length_set]; omega), Halt.ok_bind]
      exact run
    · rw [bytes, first]
      congr 1
      unfold exchanged
      grind

end Bytes

namespace Sorting
variable {s : Sorting} {memory : List UInt8} {f : Int → Fin s.size → UInt8} {a b : Int}

/-- The array has the elements `f`. -/
structure Holds (s : Sorting) (memory : List UInt8) (f : Int → Fin s.size → UInt8) : Prop where
  length : memory.length = s.nmemb * s.size
  elements : ∀ k : Int, 0 ≤ k → k < s.nmemb → s.element memory k = f k

/-- An index of the array. -/
def Index (s : Sorting) (k : Int) : Prop := 0 ≤ k ∧ k < s.nmemb

theorem Holds.compare (holds : s.Holds memory f) (inA : s.Index a) (inB : s.Index b) :
    s.compare memory a b = .ok (s.compar (f a) (f b)) := by
  unfold Sorting.compare
  rw [if_pos ⟨inA.1, inA.2, inB.1, inB.2⟩, holds.elements a inA.1 inA.2, holds.elements b inB.1 inB.2]

theorem exchanged_element {n size a b k : Nat} (offset : n < size) :
    exchanged (a * size) (b * size) size (k * size + n) =
      (if k = a then b else if k = b then a else k) * size + n := by
  have within : ∀ e, (e * size ≤ k * size + n ∧ k * size + n < e * size + size) ↔ k = e := by
    intro e
    constructor
    · intro between
      rcases Nat.lt_trichotomy k e with below | same | above
      · have next : (k + 1) * size ≤ e * size := Nat.mul_le_mul_right size below
        rw [Nat.succ_mul] at next
        omega
      · exact same
      · have next : (e + 1) * size ≤ k * size := Nat.mul_le_mul_right size above
        rw [Nat.succ_mul] at next
        omega
    · rintro rfl
      omega
  unfold exchanged
  simp only [within]
  by_cases first : k = a
  · rw [if_pos first, if_pos first, first]
    omega
  · rw [if_neg first, if_neg first]
    by_cases second : k = b
    · rw [if_pos second, if_pos second, second]
      omega
    · rw [if_neg second, if_neg second]

/-- Two elements are exchanged, and no byte outside of them is touched. -/
theorem Holds.exch (holds : s.Holds memory f) (inA : s.Index a) (inB : s.Index b) :
    ∃ after, s.exch memory a b = .ok after ∧ s.Holds after (f ∘ Equiv.swap a b) := by
  obtain ⟨a, rfl⟩ := Int.eq_ofNat_of_zero_le inA.1
  obtain ⟨b, rfl⟩ := Int.eq_ofNat_of_zero_le inB.1
  have ends : ∀ {e : Nat}, s.Index e → e * s.size + s.size ≤ memory.length := by
    intro e inside
    have next : (e + 1) * s.size ≤ s.nmemb * s.size := Nat.mul_le_mul_right _ (by have := inside.2; omega)
    rw [holds.length, ← Nat.succ_mul]
    exact next
  have apart : a * s.size = b * s.size ∨ a * s.size + s.size ≤ b * s.size ∨ b * s.size + s.size ≤ a * s.size := by
    rcases Nat.lt_trichotomy a b with below | same | above
    · exact Or.inr (Or.inl (by rw [← Nat.succ_mul]; exact Nat.mul_le_mul_right _ below))
    · exact Or.inl (by rw [same])
    · exact Or.inr (Or.inr (by rw [← Nat.succ_mul]; exact Nat.mul_le_mul_right _ above))
  obtain ⟨after, run, length, bytes⟩ := exchBytes_ok (ends inA) (ends inB) apart
  refine ⟨after, ?_, length.trans holds.length, ?_⟩
  · unfold Sorting.exch
    rw [← Int.natCast_mul, ← Int.natCast_mul]
    exact run
  · intro k low high
    obtain ⟨k, rfl⟩ := Int.eq_ofNat_of_zero_le low
    have moved : (Equiv.swap (a : Int) b) k = ((if k = a then b else if k = b then a else k : Nat) : Int) := by
      rw [Equiv.swap_apply_def]
      grind
    have target : s.Index ((if k = a then b else if k = b then a else k : Nat) : Int) := by
      unfold Index at inA inB ⊢
      grind
    rw [Function.comp_apply, moved, ← holds.elements _ target.1 target.2]
    funext offset
    unfold element
    rw [bytes, Int.toNat_natCast, Int.toNat_natCast, exchanged_element offset.isLt]

end Sorting

end Stardust.Libc
