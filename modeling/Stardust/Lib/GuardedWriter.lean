import Mathlib.Data.List.Induction
import Mathlib.Logic.Function.Basic

/-! # Guarded writers

A writer puts entries at a cursor that goes through the numbers below `places` and around.
Beyond `last` it goes on without storing.  `emit` is what a sequence of entries leaves. -/
set_option autoImplicit false
namespace Stardust.Lib

universe u

structure GuardedWriter (α : Type u) where
  cursor : Nat
  last : Nat
  cells : Nat → Option α

namespace GuardedWriter
variable {α : Type u} {places : Nat}

def put (places : Nat) (writer : GuardedWriter α) (entry : α) : GuardedWriter α :=
  { writer with
    cells := if writer.cursor ≤ writer.last then Function.update writer.cells writer.cursor (some entry)
      else writer.cells
    cursor := (writer.cursor + 1) % places }

def emit (places : Nat) (writer : GuardedWriter α) (entries : List α) : GuardedWriter α :=
  entries.foldl (put places) writer

@[simp] theorem emit_nil (writer : GuardedWriter α) : writer.emit places [] = writer := rfl

@[simp] theorem emit_cons (writer : GuardedWriter α) (entry : α) (entries : List α) :
    writer.emit places (entry :: entries) = (writer.put places entry).emit places entries := rfl

theorem emit_append (writer : GuardedWriter α) (first second : List α) :
    writer.emit places (first ++ second) = (writer.emit places first).emit places second := List.foldl_append

theorem emit_last (writer : GuardedWriter α) (entries : List α) :
    (writer.emit places entries).last = writer.last := by
  induction entries generalizing writer with
  | nil => rfl
  | cons entry entries ih => exact ih (writer.put places entry)

theorem emit_cursor (writer : GuardedWriter α) (entries : List α) (inside : writer.cursor < places) :
    (writer.emit places entries).cursor = (writer.cursor + entries.length) % places := by
  induction entries generalizing writer with
  | nil => exact (Nat.mod_eq_of_lt inside).symm
  | cons entry entries ih =>
    have next : (writer.put places entry).cursor = (writer.cursor + 1) % places := rfl
    rw [emit_cons, ih _ (by rw [next]; exact Nat.mod_lt _ (Nat.zero_lt_of_lt inside)), next, Nat.mod_add_mod,
      List.length_cons]
    congr 1
    omega

theorem put_cells (writer : GuardedWriter α) (entry : α) (i : Nat) : (writer.put places entry).cells i =
    if i = writer.cursor ∧ i ≤ writer.last then some entry else writer.cells i := by
  unfold put
  dsimp only
  by_cases here : i = writer.cursor
  · subst here
    by_cases allowed : writer.cursor ≤ writer.last
    · rw [if_pos allowed, if_pos ⟨rfl, allowed⟩, Function.update_self]
    · rw [if_neg allowed, if_neg fun both => allowed both.2]
  · have outside : ¬(i = writer.cursor ∧ i ≤ writer.last) := fun both => here both.1
    rw [if_neg outside]
    split
    · exact Function.update_of_ne here ..
    · rfl

/-- Entries that do not go around are stored in a row, as far as they may be. -/
theorem emit_cells (writer : GuardedWriter α) (entries : List α) (room : writer.cursor + entries.length ≤ places)
    (i : Nat) : (writer.emit places entries).cells i =
      if writer.cursor ≤ i ∧ i < writer.cursor + entries.length ∧ i ≤ writer.last then entries[i - writer.cursor]?
      else writer.cells i := by
  induction entries using List.reverseRecOn with
  | nil =>
    rw [emit_nil, List.length_nil, if_neg (by omega)]
  | append_singleton entries entry ih =>
    rw [List.length_append, List.length_singleton] at room ⊢
    rw [emit_append, emit_cons, emit_nil, put_cells, emit_cursor _ _ (by omega), Nat.mod_eq_of_lt (by omega),
      emit_last, ih (by omega)]
    by_cases here : i = writer.cursor + entries.length
    · by_cases allowed : i ≤ writer.last
      · rw [if_pos ⟨here, allowed⟩, if_pos (by omega), List.getElem?_append_right (by omega), here,
          Nat.add_sub_cancel_left, Nat.sub_self, List.getElem?_cons_zero]
      · rw [if_neg fun both => allowed both.2, if_neg (by omega), if_neg (by omega)]
    · rw [if_neg fun both => here both.1]
      by_cases earlier : writer.cursor ≤ i ∧ i < writer.cursor + entries.length ∧ i ≤ writer.last
      · rw [if_pos earlier, if_pos (by omega), List.getElem?_append_left (by omega)]
      · rw [if_neg earlier, if_neg (by omega)]

end GuardedWriter

end Stardust.Lib
