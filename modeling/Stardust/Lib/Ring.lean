import Mathlib.Data.List.Basic
import Mathlib.Data.Nat.ModEq
import Mathlib.Logic.Function.Basic

/-! # Cells used as a ring

A stream runs through `size` cells over and over: position `i` of the stream is
in the cell `i % size`.  `ringRead` and `ringWrite` work at stream positions,
`fetch` and `store` at cells; the two agree on a range that does not pass the
last cell.  Ranges of one lap share no cell. -/
set_option autoImplicit false
namespace Stardust.Lib

universe u

variable {α : Type u}

def ringRead (ring : Nat → α) (size start n : Nat) : List α :=
  (List.range' start n).map fun i => ring (i % size)

def ringWrite (ring : Nat → α) (size start : Nat) : List α → Nat → α
  | [] => ring
  | b :: rest => ringWrite (Function.update ring (start % size) b) size (start + 1) rest

def fetch (cells : Nat → α) (off n : Nat) : List α := (List.range' off n).map cells

def store (cells : Nat → α) (off : Nat) : List α → Nat → α
  | [] => cells
  | b :: rest => store (Function.update cells off b) (off + 1) rest

section Rules
variable {ring other : Nat → α} {size start n : Nat} {bytes xs ys : List α}

/-! ## Reading -/

@[simp] theorem ringRead_zero : ringRead ring size start 0 = [] := rfl

@[simp] theorem ringRead_succ :
    ringRead ring size start (n + 1) = ring (start % size) :: ringRead ring size (start + 1) n := rfl

@[simp] theorem ringRead_length : (ringRead ring size start n).length = n := by
  simp [ringRead]

theorem ringRead_add (m : Nat) :
    ringRead ring size start (m + n) =
      ringRead ring size start m ++ ringRead ring size (start + m) n := by
  simp only [ringRead]
  rw [← List.map_append, ← List.range'_append_1]

theorem ringRead_take {m : Nat} (least : m ≤ n) :
    (ringRead ring size start n).take m = ringRead ring size start m := by
  obtain ⟨k, rfl⟩ := Nat.exists_eq_add_of_le least
  rw [ringRead_add, List.take_left' ringRead_length]

theorem ringRead_get {i : Nat} (within : i < n) :
    (ringRead ring size start n)[i]? = some (ring ((start + i) % size)) := by
  simp [ringRead, within]

theorem ringRead_congr (agree : ∀ i, i < n → ring ((start + i) % size) = other ((start + i) % size)) :
    ringRead ring size start n = ringRead other size start n := by
  apply List.ext_getElem?
  intro i
  by_cases within : i < n
  · rw [ringRead_get within, ringRead_get within, agree i within]
  · rw [List.getElem?_eq_none (by simpa using within), List.getElem?_eq_none (by simpa using within)]

/-- Positions that differ by whole laps are the same cells. -/
theorem ringRead_lap {from' : Nat} (lap : from' ≡ start [MOD size]) :
    ringRead ring size from' n = ringRead ring size start n := by
  apply List.ext_getElem?
  intro i
  by_cases within : i < n
  · have cell : (from' + i) % size = (start + i) % size := lap.add_right i
    rw [ringRead_get within, ringRead_get within, cell]
  · rw [List.getElem?_eq_none (by simpa using within), List.getElem?_eq_none (by simpa using within)]

/-- A range that does not pass the last cell is read in place. -/
theorem fetch_eq_ringRead {off : Nat} (cell : start % size = off) (inside : off + n ≤ size) :
    fetch ring off n = ringRead ring size start n := by
  induction n generalizing start off with
  | zero => rfl
  | succ n ih =>
    have first : fetch ring off (n + 1) = ring off :: fetch ring (off + 1) n := rfl
    rw [first, ringRead_succ, cell]
    congr 1
    cases n with
    | zero => rfl
    | succ n =>
      refine ih ?_ (by omega)
      rw [Nat.add_mod, cell, Nat.mod_eq_of_lt (by omega : 1 < size), Nat.mod_eq_of_lt (by omega)]

/-! ## Writing -/

theorem ringWrite_append :
    ringWrite ring size start (xs ++ ys) =
      ringWrite (ringWrite ring size start xs) size (start + xs.length) ys := by
  induction xs generalizing ring start with
  | nil => rfl
  | cons b rest ih =>
    simp only [List.cons_append, ringWrite, List.length_cons]
    rw [ih, Nat.add_right_comm, Nat.add_assoc]

theorem ringWrite_lap {from' : Nat} (lap : from' ≡ start [MOD size]) :
    ringWrite ring size from' bytes = ringWrite ring size start bytes := by
  induction bytes generalizing ring from' start with
  | nil => rfl
  | cons b rest ih =>
    have cell : from' % size = start % size := lap
    simp only [ringWrite, cell]
    exact ih (lap.add_right 1)

theorem ringWrite_outside {k : Nat} (outside : ∀ i, i < bytes.length → (start + i) % size ≠ k) :
    ringWrite ring size start bytes k = ring k := by
  induction bytes generalizing ring start with
  | nil => rfl
  | cons b rest ih =>
    have here : k ≠ start % size := fun same => outside 0 (Nat.succ_pos _) same.symm
    have later : ∀ i, i < rest.length → (start + 1 + i) % size ≠ k := by
      intro i within
      have next := outside (i + 1) (Nat.succ_lt_succ within)
      rwa [Nat.add_comm i 1, ← Nat.add_assoc] at next
    rw [ringWrite, ih later, Function.update_of_ne here]

theorem store_eq_ringWrite {off : Nat} (cell : start % size = off)
    (inside : off + bytes.length ≤ size) :
    store ring off bytes = ringWrite ring size start bytes := by
  induction bytes generalizing ring start off with
  | nil => rfl
  | cons b rest ih =>
    rw [store, ringWrite, cell]
    rw [List.length_cons] at inside
    cases rest with
    | nil => rfl
    | cons c rest =>
      rw [List.length_cons] at inside
      refine ih ?_ (by rw [List.length_cons]; omega)
      rw [Nat.add_mod, cell, Nat.mod_eq_of_lt (by omega : 1 < size), Nat.mod_eq_of_lt (by omega)]

/-! ## Reading after writing -/

/-- Two positions less than a lap apart are different cells. -/
theorem cells_differ {i j : Nat} (before : i < j) (lap : j < i + size) : i % size ≠ j % size := by
  intro same
  have divides : size ∣ j - i := (Nat.modEq_iff_dvd' (Nat.le_of_lt before)).mp same
  have large := Nat.le_of_dvd (by omega) divides
  omega

theorem ringRead_ringWrite (fits : bytes.length ≤ size) :
    ringRead (ringWrite ring size start bytes) size start bytes.length = bytes := by
  induction bytes generalizing ring start with
  | nil => rfl
  | cons b rest ih =>
    rw [List.length_cons] at fits
    rw [List.length_cons, ringRead_succ, ringWrite, ih (by omega)]
    congr 1
    rw [ringWrite_outside, Function.update_self]
    intro i within same
    exact cells_differ (by omega : start < start + 1 + i) (by omega) same.symm

/-- What lies before the range written, within one lap, stays. -/
theorem ringRead_ringWrite_before {from' : Nat} (before : from' + n ≤ start)
    (lap : start + bytes.length ≤ from' + size) :
    ringRead (ringWrite ring size start bytes) size from' n = ringRead ring size from' n := by
  apply ringRead_congr
  intro i within
  apply ringWrite_outside
  intro j inside same
  exact cells_differ (by omega : from' + i < start + j) (by omega) same.symm

/-- Bytes written behind a range lengthen it. -/
theorem ringRead_ringWrite_append (room : n + bytes.length ≤ size) :
    ringRead (ringWrite ring size (start + n) bytes) size start (n + bytes.length) =
      ringRead ring size start n ++ bytes := by
  rw [ringRead_add, ringRead_ringWrite_before (Nat.le_refl _) (by omega), ringRead_ringWrite (by omega)]

/-! ## One cell -/

theorem ringRead_update_behind {b : α} {position : Nat} (behind : start + n ≤ position)
    (lap : position < start + size) :
    ringRead (Function.update ring (position % size) b) size start n = ringRead ring size start n := by
  apply ringRead_congr
  intro i within
  apply Function.update_of_ne
  exact cells_differ (by omega) (by omega)

theorem ringRead_push {b : α} (room : n < size) :
    ringRead (Function.update ring ((start + n) % size) b) size start (n + 1) =
      ringRead ring size start n ++ [b] := by
  rw [ringRead_add, ringRead_update_behind (Nat.le_refl _) (by omega), ringRead_succ, Function.update_self,
    ringRead_zero]

end Rules

end Stardust.Lib
