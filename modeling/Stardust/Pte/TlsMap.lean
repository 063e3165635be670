import Mathlib.Data.List.Dedup
import Stardust.Pte.Tls

/-! # A tree of thread-local values as a map

Runs of `tls_put` and `tls_set` on one tree.  Two keys more than `2^31` apart compare
the wrong way round; every key is found all the same, since a search for it turns at
each node as the search did that put it there. -/
set_option autoImplicit false
namespace Stardust.Pte

open Stardust.Lib

structure TreeRun where
  root : TlsTree
  /-- a ghost: the pairs of the calls that returned 1, the last call first -/
  written : List (Key × Nat)

inductive TreeOp
  | put (key : Key) (value : Nat) (malloc : Bool)
  | set (key : Key) (value : Nat)

/-- A call that stores `value` under `key`, with the tree that it leaves or `none` for 0. -/
def TreeRun.write (state : TreeRun) (key : Key) (value : Nat) : Option TlsTree → TreeRun
  | some root => { root, written := (key, value) :: state.written }
  | none => state

def treeStep (state : TreeRun) : TreeOp → Option TreeRun
  | .put key value malloc => some (state.write key value (tlsPut malloc state.root key value))
  | .set key value => some (state.write key value (tlsSet state.root key value))

abbrev TreeStep (before : TreeRun) (op : TreeOp) (after : TreeRun) : Prop :=
  treeStep before op = some after

/-- `tls_put` is called for keys without a node. -/
def PutsAbsent (state : TreeRun) : TreeOp → Prop
  | .put key _ _ => key ∉ state.root.keys
  | .set _ _ => True

instance (state : TreeRun) (op : TreeOp) : Decidable (PutsAbsent state op) := by
  cases op <;> unfold PutsAbsent <;> infer_instance

/-- The value last written under a key. -/
def TreeRun.last (state : TreeRun) (key : Key) : Option Nat := state.written.lookup key

/-- The keys written so far, each once. -/
def TreeRun.distinct (state : TreeRun) : List Key := (state.written.map Prod.fst).dedup

/-! ## The invariant -/

structure TreeRun.Maps (state : TreeRun) : Prop where
  findable : Findable state.root
  lookup : ∀ key, state.root.lookup key = state.last key

section Runs
variable {state after : TreeRun} {op : TreeOp} {key : Key} {value : Nat}

theorem last_write (root : TlsTree) (other : Key) : (state.write key value (some root)).last other =
    if other = key then some value else state.last other := by
  unfold TreeRun.last TreeRun.write
  rw [List.lookup_cons]
  by_cases this : other = key
  · rw [if_pos this, beq_iff_eq.mpr this]
  · rw [if_neg this, beq_false_of_ne this]

theorem lookup_of_not_mem {root : TlsTree} (absent : key ∉ root.keys) : root.lookup key = none := by
  by_contra present
  exact absent (mem_keys_of_lookup (Option.isSome_iff_ne_none.mpr present))

theorem TreeRun.Maps.step (maps : state.Maps) (allowed : PutsAbsent state op)
    (move : TreeStep state op after) : after.Maps := by
  cases op with
  | put key value malloc =>
    cases Option.some.inj move
    have new := lookup_of_not_mem allowed
    cases put : tlsPut malloc state.root key value with
    | none => exact maps
    | some root =>
      refine ⟨(maps.findable.put new put).1, ?_⟩
      intro other
      rw [last_write, ← maps.lookup]
      exact lookup_put_new put new
  | set key value =>
    cases Option.some.inj move
    cases set : tlsSet state.root key value with
    | none => exact maps
    | some root =>
      refine ⟨maps.findable.set set, ?_⟩
      intro other
      rw [last_write, ← maps.lookup]
      exact lookup_set set

end Runs

end Stardust.Pte
