import Mathlib.Logic.Function.Basic
import Mathlib.Order.Defs.LinearOrder

/-! # Segments copied cell by cell

`Copied` says of a memory that the cells from `first` to `last` of a segment have been copied
and that nothing else has changed.  A turn adds a cell at either end, as long as the cell it
reads is not one that has been written. -/
set_option autoImplicit false
namespace Stardust.Lib

structure Copied {α : Type} (before after : Nat → α) (target source first last : Nat) : Prop where
  copied : ∀ i, first ≤ i → i < last → after (target + i) = before (source + i)
  frame : ∀ a, a < target + first ∨ target + last ≤ a → after a = before a

namespace Copied

section Turns
variable {α : Type} {before after : Nat → α} {target source first last : Nat}

theorem start (before : Nat → α) (target source first : Nat) : Copied before before target source first first where
  copied := fun _ low high => absurd low (Nat.not_le.mpr high)
  frame := fun _ _ => rfl

/-- Upwards, the next cell is read before it is written if the source is above the target. -/
theorem up (inv : Copied before after target source first last) (ordered : first ≤ last) (above : target ≤ source) :
    Copied before (Function.update after (target + last) (after (source + last))) target source first (last + 1) where
  copied := by
    intro i low high
    by_cases here : i = last
    · rw [here, Function.update_self]
      exact inv.frame _ (.inr (by omega))
    · rw [Function.update_of_ne (by omega)]
      exact inv.copied i low (by omega)
  frame := by
    intro a outside
    rw [Function.update_of_ne (by omega)]
    exact inv.frame a (by omega)

/-- Downwards, if it is below. -/
theorem down (inv : Copied before after target source (first + 1) last) (ordered : first < last)
    (below : source ≤ target) :
    Copied before (Function.update after (target + first) (after (source + first))) target source first last where
  copied := by
    intro i low high
    by_cases here : i = first
    · rw [here, Function.update_self]
      exact inv.frame _ (.inl (by omega))
    · rw [Function.update_of_ne (by omega)]
      exact inv.copied i (by omega) high
  frame := by
    intro a outside
    rw [Function.update_of_ne (by omega)]
    exact inv.frame a (by omega)

/-- A segment that is its own source. -/
theorem same (before : Nat → α) (target first last : Nat) : Copied before before target target first last where
  copied := fun _ _ _ => rfl
  frame := fun _ _ => rfl

end Turns

end Copied

end Stardust.Lib
