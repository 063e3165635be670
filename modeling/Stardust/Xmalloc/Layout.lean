import Mathlib.Data.Set.BooleanAlgebra
import Mathlib.Order.CompletePartialOrder
import Mathlib.Tactic.Ring
import Stardust.Lib.CircularList
import Stardust.Lib.Tiling
import Stardust.Xmalloc.Heap

/-! # The layout of the heap

`Blocks` names the blocks of every held run and says which are in use, which are
on `freelist` and which a call in progress has detached.  `HeapInv` ties that
view to the words in memory.  The rules below are the moves that the code is made
of: writing to a detached block, cutting and joining detached blocks, linking and
unlinking, and taking and giving back a run. -/
set_option autoImplicit false
namespace Stardust.Xmalloc

open Stardust.Lib
open Stardust.Mm (pageSize)

def links (mem : Mem) : Links Nat := ⟨mem, fun pointer => mem (pointer + 8)⟩

structure Blocks where
  /-- the headers of the blocks in use -/
  live : List Nat
  /-- blocks that are neither in use nor on `freelist` -/
  busy : List Nat
  /-- the blocks on `freelist`, in its order -/
  free : List Nat
  /-- the blocks of the run at a base address -/
  tiles : Nat → List Nat
  size : Nat → Nat

def Run.stop (run : Run) : Nat := run.base + run.bytes

def Run.Apart (a b : Run) : Prop := a.stop ≤ b.base ∨ b.stop ≤ a.base

/-- What the size word of a block in use says; `xfree` gives back as many pages
as it can read from the word through an `int`. -/
def HeaderOk (word size : Nat) : Prop :=
  (word < pageSize ∧ word = size) ∨
    (pageSize ≤ word ∧ word % pageSize = 0 ∧
      size = (intOfUlong (word / pageSize)).toNat * pageSize)

/-- A page count that fits an `int` is read as it is. -/
theorem HeaderOk.exact {word size : Nat} (header : HeaderOk word size)
    (small : word < 2 ^ 31 * pageSize) : word = size := by
  rcases header with ⟨_, same⟩ | ⟨_, whole, counted⟩
  · exact same
  · have count : word / pageSize < 2 ^ 31 := Nat.div_lt_of_lt_mul (by rwa [Nat.mul_comm])
    rw [intOfUlong_eq count, Int.toNat_natCast] at counted
    rw [counted]
    exact (Nat.div_mul_cancel (Nat.dvd_of_mod_eq_zero whole)).symm

structure HeapInv (heap : Heap) (g : Blocks) : Prop where
  list : IsList (links heap.mem) heap.freelist (g.free.map node)
  runs : ∀ run ∈ heap.held, 0 < run.base ∧ run.base % pageSize = 0 ∧ 0 < run.count ∧
    run.stop < 2 ^ 64
  headOutside : ∀ run ∈ heap.held, heap.freelist + 16 ≤ run.base ∨ run.stop ≤ heap.freelist
  apart : heap.held.Pairwise Run.Apart
  tiled : ∀ run ∈ heap.held, Tiled g.size run.base (g.tiles run.base) run.stop
  sized : ∀ run ∈ heap.held, ∀ a ∈ g.tiles run.base, g.size a % 8 = 0 ∧ headerSize ≤ g.size a ∧
    (a + g.size a = run.stop → 2 * headerSize ≤ g.size a)
  whole : ∀ run ∈ heap.held, run.count = 1 ∨ g.tiles run.base = [run.base] ∧ run.base ∉ g.free
  owned : ∀ a, (a ∈ g.live ∨ a ∈ g.busy ∨ a ∈ g.free) ↔ ∃ run ∈ heap.held, a ∈ g.tiles run.base
  once : ∀ a, g.live.count a + g.busy.count a + g.free.count a ≤ 1
  liveHeader : ∀ a ∈ g.live, HeaderOk (heap.mem a) (g.size a) ∧ heap.mem (node a) = 0 ∧
    heap.mem (node a + 8) = 0
  freeHeader : ∀ a ∈ g.free, heap.mem a = g.size a
  separate : ∀ a ∈ g.free, ∀ b ∈ g.free, samePage a b → a + g.size a ≠ b
  broken : ∀ a ∈ g.free, g.size a < pageSize
  logged : heap.taken.Perm (heap.given ++ heap.held)

section Geometry
variable {heap : Heap} {g : Blocks} (inv : HeapInv heap g)
include inv

/-! ## Where blocks lie -/

theorem HeapInv.run_unique {r s : Run} (left : r ∈ heap.held) (right : s ∈ heap.held) {w : Nat}
    (inLeft : r.base ≤ w ∧ w < r.stop) (inRight : s.base ≤ w ∧ w < s.stop) : r = s := by
  by_contra different
  have symmetric : Std.Symm Run.Apart := ⟨fun _ _ => Or.symm⟩
  have apart := inv.apart.forall left right different
  unfold Run.Apart at apart
  omega

/-- A block with the run it lies in. -/
theorem HeapInv.locate {a : Nat} (owned : a ∈ g.live ∨ a ∈ g.busy ∨ a ∈ g.free) :
    ∃ run ∈ heap.held, a ∈ g.tiles run.base ∧ run.base ≤ a ∧ a + g.size a ≤ run.stop ∧
      24 ≤ g.size a ∧ g.size a % 8 = 0 := by
  obtain ⟨run, held, member⟩ := (inv.owned a).mp owned
  have bounds := (inv.tiled run held).bounds member
  have sized := inv.sized run held a member
  exact ⟨run, held, member, bounds.1, bounds.2, sized.2.1, sized.1⟩

/-- Blocks lie at word addresses. -/
theorem HeapInv.aligned {a : Nat} (owned : a ∈ g.live ∨ a ∈ g.busy ∨ a ∈ g.free) : 8 ∣ a := by
  obtain ⟨run, held, member⟩ := (inv.owned a).mp owned
  have base := (inv.runs run held).2.1
  refine (inv.tiled run held).dvd ?_ (fun b inside => ?_) a member
  · unfold pageSize at base
    omega
  · exact Nat.dvd_of_mod_eq_zero (inv.sized run held b inside).1

theorem HeapInv.tile_owned {run : Run} (held : run ∈ heap.held) {a : Nat}
    (member : a ∈ g.tiles run.base) : a ∈ g.live ∨ a ∈ g.busy ∨ a ∈ g.free :=
  (inv.owned a).mpr ⟨run, held, member⟩

theorem HeapInv.blocks_apart {a b : Nat} (left : a ∈ g.live ∨ a ∈ g.busy ∨ a ∈ g.free)
    (right : b ∈ g.live ∨ b ∈ g.busy ∨ b ∈ g.free) (different : a ≠ b) :
    a + g.size a ≤ b ∨ b + g.size b ≤ a := by
  obtain ⟨r, heldR, memberR, lowR, highR, _⟩ := inv.locate left
  obtain ⟨s, heldS, memberS, lowS, highS, _⟩ := inv.locate right
  by_cases same : r = s
  · subst same
    exact (inv.tiled r heldR).apart memberR memberS different
  · have symmetric : Std.Symm Run.Apart := ⟨fun _ _ => Or.symm⟩
    have apart := inv.apart.forall heldR heldS same
    unfold Run.Apart at apart
    omega

theorem HeapInv.head_outside {a : Nat} (owned : a ∈ g.live ∨ a ∈ g.busy ∨ a ∈ g.free) :
    heap.freelist + 16 ≤ a ∨ a + g.size a ≤ heap.freelist := by
  obtain ⟨run, held, _, low, high, _⟩ := inv.locate owned
  have outside := inv.headOutside run held
  omega

theorem HeapInv.live_not_busy {a : Nat} (live : a ∈ g.live) : a ∉ g.busy ∧ a ∉ g.free := by
  have once := inv.once a
  have here := List.count_pos_iff.mpr live
  exact ⟨List.count_eq_zero.mp (by omega), List.count_eq_zero.mp (by omega)⟩

theorem HeapInv.free_not_busy {a : Nat} (free : a ∈ g.free) : a ∉ g.busy ∧ a ∉ g.live := by
  have once := inv.once a
  have here := List.count_pos_iff.mpr free
  exact ⟨List.count_eq_zero.mp (by omega), List.count_eq_zero.mp (by omega)⟩

theorem HeapInv.busy_not_free {a : Nat} (busy : a ∈ g.busy) : a ∉ g.free ∧ a ∉ g.live :=
  ⟨fun free => (inv.free_not_busy free).1 busy, fun live => (inv.live_not_busy live).1 busy⟩

/-- Two blocks of one page lie in one run. -/
theorem HeapInv.run_of_samePage {a b : Nat} {r s : Run} (heldR : r ∈ heap.held)
    (heldS : s ∈ heap.held) (inR : r.base ≤ a ∧ a < r.stop) (inS : s.base ≤ b ∧ b < s.stop)
    (page : samePage a b) : r = s := by
  have alignedR := (inv.runs r heldR).2.1
  have alignedS := (inv.runs s heldS).2.1
  apply inv.run_unique heldR heldS (w := a - a % pageSize)
  · unfold Run.stop Run.bytes pageSize at *
    omega
  · unfold samePage at page
    unfold Run.stop Run.bytes pageSize at *
    omega

/-- A block smaller than a page lies in a single page. -/
theorem HeapInv.singlePage {run : Run} (held : run ∈ heap.held) {a : Nat}
    (member : a ∈ g.tiles run.base) (small : g.size a < 2 * pageSize) : run.count = 1 := by
  rcases inv.whole run held with single | ⟨one, _⟩
  · exact single
  · have tiled := inv.tiled run held
    rw [one] at tiled member
    have whole : run.base + g.size run.base = run.stop := tiled.2
    rw [List.mem_singleton.mp member] at small
    have positive := (inv.runs run held).2.2.1
    unfold Run.stop Run.bytes pageSize at *
    omega

end Geometry

end Stardust.Xmalloc
