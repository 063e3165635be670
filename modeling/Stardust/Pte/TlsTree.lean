import Mathlib.Algebra.Group.Nat.Defs
import Mathlib.Data.List.Nodup
import Mathlib.Data.Nat.Notation

/-! # The trees of thread-local values

`tls-implement.c`: binary trees of keys and values.  The comparison is the sign of
a difference of two `unsigned`, which is no order, so every fact is about the path
that `tls_search` takes. -/
set_option autoImplicit false
namespace Stardust.Pte

abbrev Key := BitVec 32

inductive TlsTree
  | null
  | node (key : Key) (value : Nat) (left right : TlsTree)
  deriving DecidableEq

def tlsComp (a b : Key) : Int := (a - b).toInt

/-- What the slot that `tls_search` returns points to. -/
def tlsSearch : TlsTree → Key → TlsTree
  | .null, _ => .null
  | .node key value left right, searchKey =>
    if tlsComp searchKey key < 0 then tlsSearch left searchKey
    else if 0 < tlsComp searchKey key then tlsSearch right searchKey
    else .node key value left right

/-- The tree after a store to the slot that `tls_search` returns. -/
def tlsStore (slot : TlsTree) : TlsTree → Key → TlsTree
  | .null, _ => slot
  | .node key value left right, searchKey =>
    if tlsComp searchKey key < 0 then .node key value (tlsStore slot left searchKey) right
    else if 0 < tlsComp searchKey key then .node key value left (tlsStore slot right searchKey)
    else slot

/-- `tls_node_init`, when `malloc` succeeds. -/
def tlsNodeInit (key : Key) (value : Nat) : TlsTree := .node key value .null .null

/-- `tls_alloc` on a tree without nodes; `none` when it returns 0. -/
def tlsAlloc (malloc : Bool) (key : Key) (value : Nat) : Option TlsTree :=
  if malloc then some (tlsNodeInit key value) else none

/-- `tls_put`; `none` when it returns 0. -/
def tlsPut (malloc : Bool) (root : TlsTree) (key : Key) (value : Nat) : Option TlsTree :=
  if malloc then some (tlsStore (tlsNodeInit key value) root key) else none

/-- `tls_set`; `none` when it returns 0. -/
def tlsSet (root : TlsTree) (key : Key) (value : Nat) : Option TlsTree :=
  match tlsSearch root key with
  | .null => none
  | .node found _ left right => some (tlsStore (.node found value left right) root key)

def tlsGet (root : TlsTree) (key : Key) : Nat :=
  match tlsSearch root key with
  | .null => 0
  | .node _ value _ _ => value

def tlsHasKey (root : TlsTree) (key : Key) : Bool :=
  match tlsSearch root key with
  | .null => false
  | .node _ _ _ _ => true

def tlsCount : TlsTree → Key
  | .null => 0
  | .node _ _ left right => 1 + tlsCount left + tlsCount right

/-! ## Lookups -/

/-- The value stored under a key. -/
def TlsTree.lookup (root : TlsTree) (key : Key) : Option Nat :=
  match tlsSearch root key with
  | .null => none
  | .node _ value _ _ => some value

section Lookups
variable {root slot left right : TlsTree} {key other : Key} {value : Nat}

theorem tlsGet_eq : tlsGet root key = (root.lookup key).getD 0 := by
  unfold tlsGet TlsTree.lookup
  cases tlsSearch root key <;> rfl

theorem tlsHasKey_eq : tlsHasKey root key = (root.lookup key).isSome := by
  unfold tlsHasKey TlsTree.lookup
  cases tlsSearch root key <;> rfl

theorem lookup_null : TlsTree.null.lookup key = none := rfl

theorem lookup_node : (TlsTree.node other value left right).lookup key =
    if tlsComp key other < 0 then left.lookup key
    else if 0 < tlsComp key other then right.lookup key else some value := by
  unfold TlsTree.lookup
  rw [tlsSearch]
  by_cases less : tlsComp key other < 0
  · rw [if_pos less, if_pos less]
  · rw [if_neg less, if_neg less]
    by_cases more : 0 < tlsComp key other
    · rw [if_pos more, if_pos more]
    · rw [if_neg more, if_neg more]

theorem tlsComp_eq_zero {a b : Key} : tlsComp a b = 0 ↔ a = b := by
  unfold tlsComp
  constructor
  · intro same
    have zero : a - b = 0#32 := BitVec.eq_of_toInt_eq same
    bv_omega
  · rintro rfl
    simp

theorem tlsSearch_key {found : Key} (at_ : tlsSearch root key = .node found value left right) :
    found = key := by
  induction root with
  | null => nomatch at_
  | node here stored first second ihLeft ihRight =>
    rw [tlsSearch] at at_
    split at at_
    · exact ihLeft at_
    · split at at_
      · exact ihRight at_
      · cases at_
        exact (tlsComp_eq_zero.mp (by omega)).symm

/-- What a tree's two subtrees decide is kept by a store that keeps it at the stored slot. -/
theorem tlsStore_keeps {α : Type} (g : TlsTree → α)
    (left : ∀ here stored {first first' : TlsTree} second, g first' = g first →
      g (.node here stored first' second) = g (.node here stored first second))
    (right : ∀ here stored first {second second' : TlsTree}, g second' = g second →
      g (.node here stored first second') = g (.node here stored first second))
    (same : g slot = g (tlsSearch root key)) : g (tlsStore slot root key) = g root := by
  induction root with
  | null => exact same
  | node here stored first second ihLeft ihRight =>
    rw [tlsSearch] at same
    rw [tlsStore]
    by_cases less : tlsComp key here < 0
    · rw [if_pos less] at same ⊢
      exact left here stored second (ihLeft same)
    · rw [if_neg less] at same ⊢
      by_cases more : 0 < tlsComp key here
      · rw [if_pos more] at same ⊢
        exact right here stored first (ihRight same)
      · rw [if_neg more] at same ⊢
        exact same

/-- Off the stored slot a store changes nothing. -/
theorem lookup_tlsStore (same : slot.lookup other = (tlsSearch root key).lookup other) :
    (tlsStore slot root key).lookup other = root.lookup other := by
  apply tlsStore_keeps (fun tree => tree.lookup other) ?_ ?_ same
  · intro here stored first first' second kept
    rw [lookup_node, lookup_node, kept]
  · intro here stored first second second' kept
    rw [lookup_node, lookup_node, kept]

theorem lookup_tlsStore_self : (tlsStore slot root key).lookup key = slot.lookup key := by
  induction root with
  | null => rfl
  | node here stored first second ihLeft ihRight =>
    rw [tlsStore]
    by_cases less : tlsComp key here < 0
    · rw [if_pos less, lookup_node, if_pos less, ihLeft]
    · rw [if_neg less]
      by_cases more : 0 < tlsComp key here
      · rw [if_pos more, lookup_node, if_neg less, if_pos more, ihRight]
      · rw [if_neg more]

theorem lookup_self : (TlsTree.node key value left right).lookup key = some value := by
  rw [lookup_node, tlsComp_eq_zero.mpr rfl]
  rfl

theorem lookup_tlsNodeInit : (tlsNodeInit key value).lookup other = if other = key then some value else none := by
  unfold tlsNodeInit
  by_cases this : other = key
  · rw [this, lookup_self, if_pos rfl]
  · have unequal : tlsComp other key ≠ 0 := fun zero => this (tlsComp_eq_zero.mp zero)
    rw [lookup_node, lookup_null, if_neg this]
    split
    · rfl
    · rw [if_pos (by omega)]

theorem tlsSearch_of_lookup (absent : root.lookup key = none) : tlsSearch root key = .null := by
  unfold TlsTree.lookup at absent
  split at absent
  · rename_i empty
    exact empty
  · nomatch absent

/-- A new key changes nothing for the others. -/
theorem lookup_put_new {malloc : Bool} {after : TlsTree} (put : tlsPut malloc root key value = some after)
    (new : root.lookup key = none) :
    after.lookup other = if other = key then some value else root.lookup other := by
  obtain ⟨_, put⟩ := Option.ite_none_right_eq_some.mp put
  cases put
  by_cases this : other = key
  · rw [this, if_pos rfl, lookup_tlsStore_self, lookup_tlsNodeInit, if_pos rfl]
  · rw [if_neg this]
    apply lookup_tlsStore
    rw [lookup_tlsNodeInit, if_neg this, tlsSearch_of_lookup new, lookup_null]

theorem tlsSet_some {after : TlsTree} (set : tlsSet root key value = some after) :
    ∃ old left right, tlsSearch root key = .node key old left right ∧
      after = tlsStore (.node key value left right) root key := by
  unfold tlsSet at set
  split at set
  · nomatch set
  · rename_i found old first second at_
    cases tlsSearch_key at_
    exact ⟨old, first, second, at_, (Option.some.inj set).symm⟩

theorem lookup_of_set (set : tlsSet root key value = none) : root.lookup key = none := by
  unfold tlsSet at set
  unfold TlsTree.lookup
  cases at_ : tlsSearch root key with
  | null => rfl
  | node found old first second =>
    rw [at_] at set
    nomatch set

theorem lookup_set {after : TlsTree} (set : tlsSet root key value = some after) :
    after.lookup other = if other = key then some value else root.lookup other := by
  obtain ⟨old, first, second, at_, rfl⟩ := tlsSet_some set
  by_cases this : other = key
  · rw [this, if_pos rfl, lookup_tlsStore_self, lookup_self]
  · rw [if_neg this]
    apply lookup_tlsStore
    have unequal : tlsComp other key ≠ 0 := fun zero => this (tlsComp_eq_zero.mp zero)
    rw [at_, lookup_node, lookup_node]
    split
    · rfl
    · rw [if_pos (by omega), if_pos (by omega)]

end Lookups

/-! ## Nodes -/

def TlsTree.keys : TlsTree → List Key
  | .null => []
  | .node key _ left right => key :: (left.keys ++ right.keys)

section Nodes
variable {root slot : TlsTree} {key : Key}

theorem mem_keys_of_lookup (found : (root.lookup key).isSome) : key ∈ root.keys := by
  induction root with
  | null => nomatch found
  | node here stored first second ihLeft ihRight =>
    rw [lookup_node] at found
    rw [TlsTree.keys, List.mem_cons, List.mem_append]
    split at found
    · exact Or.inr (Or.inl (ihLeft found))
    · split at found
      · exact Or.inr (Or.inr (ihRight found))
      · exact Or.inl (tlsComp_eq_zero.mp (by omega))

theorem tlsCount_eq : tlsCount root = BitVec.ofNat 32 root.keys.length := by
  induction root with
  | null => rfl
  | node here stored first second ihLeft ihRight =>
    rw [tlsCount, TlsTree.keys, List.length_cons, List.length_append, ihLeft, ihRight]
    have one : (1 : Key).toNat = 1 := rfl
    apply BitVec.eq_of_toNat_eq
    simp only [BitVec.toNat_add, BitVec.toNat_ofNat, one]
    omega

/-- A store to an empty slot adds the nodes that are stored. -/
theorem keys_tlsStore (empty : tlsSearch root key = .null) :
    (tlsStore slot root key).keys.Perm (slot.keys ++ root.keys) := by
  induction root with
  | null => rw [tlsStore, TlsTree.keys, List.append_nil]
  | node here stored first second ihLeft ihRight =>
    rw [tlsSearch] at empty
    rw [tlsStore]
    split at empty
    · rename_i less
      rw [if_pos less, TlsTree.keys, TlsTree.keys]
      have added := (ihLeft empty).append_right second.keys
      rw [List.append_assoc] at added
      exact (added.cons here).trans List.perm_middle.symm
    · rename_i notLess
      rw [if_neg notLess]
      split at empty
      · rename_i more
        rw [if_pos more, TlsTree.keys, TlsTree.keys]
        have added := (ihRight empty).append_left first.keys
        have moved : (first.keys ++ (slot.keys ++ second.keys)).Perm
            (slot.keys ++ (first.keys ++ second.keys)) := by
          rw [← List.append_assoc, ← List.append_assoc]
          exact List.perm_append_comm.append_right _
        exact ((added.trans moved).cons here).trans List.perm_middle.symm
      · nomatch empty

/-- A store of a node with the same keys below it keeps the keys. -/
theorem keys_tlsStore_same (same : slot.keys = (tlsSearch root key).keys) :
    (tlsStore slot root key).keys = root.keys := by
  apply tlsStore_keeps TlsTree.keys ?_ ?_ same
  · intro here stored first first' second kept
    rw [TlsTree.keys, TlsTree.keys, kept]
  · intro here stored first second second' kept
    rw [TlsTree.keys, TlsTree.keys, kept]

theorem keys_set {value : Nat} {after : TlsTree} (set : tlsSet root key value = some after) :
    after.keys = root.keys := by
  obtain ⟨old, first, second, at_, rfl⟩ := tlsSet_some set
  apply keys_tlsStore_same
  rw [at_]
  rfl

end Nodes

end Stardust.Pte
