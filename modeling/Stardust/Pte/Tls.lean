import Mathlib.Data.List.Perm.Subperm
import Mathlib.Logic.Function.Basic
import Stardust.Lib.Reach
import Stardust.Pte.TlsTree

/-! # Keys of thread-local storage

A pthread looks its values up in a tree of its own, which starts with key 1; every
other thread in `pte_tls`.  `pte_osTlsAlloc` counts the nodes of the tree of its
caller to find a new key. -/
set_option autoImplicit false
namespace Stardust.Pte

open Stardust.Lib

structure TlsRun where
  pteTls : TlsTree
  /-- the trees of the pthreads -/
  own : Nat → Option TlsTree
  /-- a ghost: the keys that `pte_osTlsAlloc` has returned -/
  returned : List Key

/-- The tree that a thread uses. -/
def TlsRun.tree (state : TlsRun) (thread : Nat) : TlsTree := (state.own thread).getD state.pteTls

def TlsRun.setOwn (state : TlsRun) (thread : Nat) (root : TlsTree) : TlsRun :=
  { state with own := Function.update state.own thread (some root) }

/-! ## The code

`malloc` says whether the allocation of a new node succeeds. -/

/-- `pte_osThreadCreate` -/
def pteOsThreadCreate (state : TlsRun) (thread : Nat) (malloc : Bool) : Option TlsRun :=
  (tlsAlloc malloc 1 0).map fun root => state.setOwn thread root

/-- `pte_osTlsAlloc`: the key, unless there are no resources. -/
def pteOsTlsAlloc (state : TlsRun) (thread : Nat) (malloc pteMalloc : Bool) : Option Key × TlsRun :=
  match state.own thread with
  | some root =>
    let nKey := tlsCount root + 1
    match tlsPut malloc root nKey 0 with
    | some root => (some nKey, { state.setOwn thread root with
        pteTls := (tlsPut pteMalloc state.pteTls nKey 0).getD state.pteTls })
    | none => (none, state)
  | none =>
    let nKey := tlsCount state.pteTls + 1
    match tlsPut malloc state.pteTls nKey 0 with
    | some root => (some nKey, { state with pteTls := root })
    | none => (none, state)

/-- The part of `pte_osTlsSetValue` on `pte_tls`. -/
def setPteValue (state : TlsRun) (key : Key) (value : Nat) : Bool × TlsRun :=
  match tlsSet state.pteTls key value with
  | some root => (true, { state with pteTls := root })
  | none => (false, state)

/-- `pte_osTlsSetValue`; true for PTE_OS_OK. -/
def pteOsTlsSetValue (state : TlsRun) (thread : Nat) (key : Key) (value : Nat) (malloc : Bool) :
    Bool × TlsRun :=
  match state.own thread with
  | some root =>
    match tlsSet root key value with
    | some root => (true, state.setOwn thread root)
    | none => setPteValue (state.setOwn thread ((tlsPut malloc root key value).getD root)) key value
  | none => setPteValue state key value

/-- `pte_osTlsGetValue` -/
def pteOsTlsGetValue (state : TlsRun) (thread : Nat) (key : Key) (malloc : Bool) : Nat × TlsRun :=
  match state.own thread with
  | some root =>
    if tlsHasKey root key then (tlsGet root key, state)
    else (0, state.setOwn thread ((tlsPut malloc root key 0).getD root))
  | none => if tlsHasKey state.pteTls key then (tlsGet state.pteTls key, state) else (0, state)

/-! ## Runs -/

inductive TlsOp
  | create (thread : Nat) (malloc : Bool)
  | alloc (thread : Nat) (malloc pteMalloc : Bool)
  | setValue (thread : Nat) (key : Key) (value : Nat) (malloc : Bool)
  | getValue (thread : Nat) (key : Key) (malloc : Bool)

def tlsStep (state : TlsRun) : TlsOp → Option TlsRun
  | .create thread malloc =>
    if state.own thread = none then pteOsThreadCreate state thread malloc else none
  | .alloc thread malloc pteMalloc =>
    let result := pteOsTlsAlloc state thread malloc pteMalloc
    some { result.2 with returned := state.returned ++ result.1.toList }
  | .setValue thread key value malloc => some (pteOsTlsSetValue state thread key value malloc).2
  | .getValue thread key malloc => some (pteOsTlsGetValue state thread key malloc).2

abbrev TlsStep (before : TlsRun) (op : TlsOp) (after : TlsRun) : Prop := tlsStep before op = some after

/-- `pte_tls` is empty and there are no pthreads. -/
structure FreshTls (state : TlsRun) : Prop where
  pteTls : state.pteTls = .null
  own : ∀ thread, state.own thread = none
  returned : state.returned = []

/-- The tree has as many nodes as any key in it, in `pte_tls`, or returned so far. -/
def Covers (state : TlsRun) (root : TlsTree) : Prop :=
  (∀ key ∈ state.returned ++ (root.keys ++ state.pteTls.keys), key.toNat ≤ (tlsCount root).toNat) ∧
    (tlsCount root).toNat + 1 < 2 ^ 32

-- over the list, not over all keys
instance (state : TlsRun) (root : TlsTree) : Decidable (Covers state root) :=
  @instDecidableAnd _ _ (List.decidableBAll _ _) _

def CallerCovers (state : TlsRun) : TlsOp → Prop
  | .alloc thread _ _ => Covers state (state.tree thread)
  | _ => True

instance (state : TlsRun) (op : TlsOp) : Decidable (CallerCovers state op) := by
  cases op <;> unfold CallerCovers <;> infer_instance

/-- The key is new and no value under another key has changed. -/
structure AllocSafe (state : TlsRun) (result : Option Key × TlsRun) : Prop where
  unique : ∀ key, result.1 = some key → key ∉ state.returned
  pteTls : ∀ other, result.1 ≠ some other →
    result.2.pteTls.lookup other = state.pteTls.lookup other
  own : ∀ other thread, result.1 ≠ some other →
    (result.2.own thread).map (·.lookup other) = (state.own thread).map (·.lookup other)

section Runs
variable {state after : TlsRun} {op : TlsOp} {root : TlsTree} {thread : Nat} {malloc pteMalloc : Bool}

/-! ## One allocation -/

/-- The key of a tree that covers the keys is greater than all of them. -/
theorem Covers.absent (covers : Covers state root) :
    ∀ key ∈ state.returned ++ (root.keys ++ state.pteTls.keys), key ≠ tlsCount root + 1 := by
  intro key member same
  have bound := covers.1 key member
  have room := covers.2
  rw [same, BitVec.toNat_add] at bound
  have one : (1 : Key).toNat = 1 := rfl
  omega

theorem Covers.key_toNat (covers : Covers state root) :
    (tlsCount root + 1).toNat = (tlsCount root).toNat + 1 := by
  have room := covers.2
  have one : (1 : Key).toNat = 1 := rfl
  rw [BitVec.toNat_add, one]
  exact Nat.mod_eq_of_lt room

theorem Covers.lookup (covers : Covers state root) : root.lookup (tlsCount root + 1) = none := by
  by_contra present
  have member := mem_keys_of_lookup (Option.isSome_iff_ne_none.mpr present)
  exact covers.absent _ (List.mem_append_right _ (List.mem_append_left _ member)) rfl

theorem Covers.lookup_pteTls (covers : Covers state root) :
    state.pteTls.lookup (tlsCount root + 1) = none := by
  by_contra present
  have member := mem_keys_of_lookup (Option.isSome_iff_ne_none.mpr present)
  exact covers.absent _ (List.mem_append_right _ (List.mem_append_right _ member)) rfl

theorem lookup_put_getD {key other : Key} (new : root.lookup key = none) (different : other ≠ key) :
    ((tlsPut malloc root key 0).getD root).lookup other = root.lookup other := by
  cases put : tlsPut malloc root key 0 with
  | none => rfl
  | some grown =>
    rw [Option.getD_some, lookup_put_new put new, if_neg different]

theorem Covers.allocSafe (covers : Covers state (state.tree thread)) :
    AllocSafe state (pteOsTlsAlloc state thread malloc pteMalloc) := by
  have unique : tlsCount (state.tree thread) + 1 ∉ state.returned := by
    intro member
    exact covers.absent _ (List.mem_append_left _ member) rfl
  have inTree := covers.lookup
  have inPte := covers.lookup_pteTls
  unfold pteOsTlsAlloc
  unfold TlsRun.tree at unique inTree inPte
  cases kind : state.own thread with
  | some root =>
    rw [kind, Option.getD_some] at unique inTree inPte
    simp only
    cases put : tlsPut malloc root (tlsCount root + 1) 0 with
    | none => exact ⟨nofun, fun _ _ => rfl, fun _ _ _ => rfl⟩
    | some grown =>
      refine ⟨?_, ?_, ?_⟩
      · intro key same
        cases same
        exact unique
      · intro other different
        exact lookup_put_getD inPte (fun same => different (congrArg some same.symm))
      · intro other another different
        simp only [TlsRun.setOwn]
        by_cases this : another = thread
        · rw [this, Function.update_self, kind, Option.map_some, Option.map_some,
            lookup_put_new put inTree, if_neg (fun same => different (congrArg some same.symm))]
        · rw [Function.update_of_ne this]
  | none =>
    rw [kind, Option.getD_none] at unique inTree
    simp only
    cases put : tlsPut malloc state.pteTls (tlsCount state.pteTls + 1) 0 with
    | none => exact ⟨nofun, fun _ _ => rfl, fun _ _ _ => rfl⟩
    | some grown =>
      refine ⟨?_, ?_, fun _ _ _ => rfl⟩
      · intro key same
        cases same
        exact unique
      · intro other different
        simp only
        rw [lookup_put_new put inTree, if_neg (fun same => different (congrArg some same.symm))]

/-! ## Keys in any run -/

theorem setPteValue_returned (key : Key) (value : Nat) :
    (setPteValue state key value).2.returned = state.returned := by
  unfold setPteValue
  split <;> rfl

/-- Only an allocation returns a key. -/
theorem tlsStep_returned (move : TlsStep state op after) :
    after.returned = state.returned ∨ ∃ thread malloc pteMalloc, op = .alloc thread malloc pteMalloc ∧
      after.returned = state.returned ++ (pteOsTlsAlloc state thread malloc pteMalloc).1.toList := by
  cases op with
  | create thread malloc =>
    obtain ⟨_, move⟩ := Option.ite_none_right_eq_some.mp move
    obtain ⟨root, _, rfl⟩ := Option.map_eq_some_iff.mp move
    exact Or.inl rfl
  | alloc thread malloc pteMalloc =>
    cases Option.some.inj move
    exact Or.inr ⟨thread, malloc, pteMalloc, rfl, rfl⟩
  | setValue thread key value malloc =>
    cases Option.some.inj move
    left
    unfold pteOsTlsSetValue
    split
    · split
      · rfl
      · exact setPteValue_returned key value
    · exact setPteValue_returned key value
  | getValue thread key malloc =>
    cases Option.some.inj move
    left
    unfold pteOsTlsGetValue
    split
    · split <;> rfl
    · split <;> rfl

theorem returned_nodup_step (distinct : state.returned.Nodup) (allowed : CallerCovers state op)
    (move : TlsStep state op after) : after.returned.Nodup := by
  rcases tlsStep_returned move with same | ⟨thread, malloc, pteMalloc, rfl, grown⟩
  · rwa [same]
  · rw [grown]
    have safe : AllocSafe state (pteOsTlsAlloc state thread malloc pteMalloc) :=
      Covers.allocSafe allowed
    cases result : (pteOsTlsAlloc state thread malloc pteMalloc).1 with
    | none => simpa using distinct
    | some key =>
      rw [Option.toList_some, List.nodup_append]
      refine ⟨distinct, List.nodup_singleton key, ?_⟩
      intro old member new now same
      rw [List.mem_singleton.mp now] at same
      exact safe.unique key result (same ▸ member)

/-- In a run whose allocations are by callers whose trees cover the keys, the keys
are distinct and every such allocation leaves the other values as they are. -/
theorem tlsAlloc_safe (reached : Reach FreshTls TlsStep CallerCovers state) :
    state.returned.Nodup ∧ ∀ thread malloc pteMalloc,
      CallerCovers state (.alloc thread malloc pteMalloc) →
        AllocSafe state (pteOsTlsAlloc state thread malloc pteMalloc) := by
  constructor
  · refine Reach.invariant (fun run => run.returned.Nodup) ?_ ?_ reached
    · intro run fresh
      rw [fresh.returned]
      exact List.nodup_nil
    · intro run label next distinct allowed move
      exact returned_nodup_step distinct allowed move
  · intro thread malloc pteMalloc covers
    exact Covers.allocSafe covers

/-! ## When only allocated keys are used

Then the condition is exact: the trees hold no other keys, and what `tls_count`
gives falls behind as soon as it is below a key. -/

/-- Values are stored and read under returned keys, and nodes can be allocated. -/
def Contract (state : TlsRun) : TlsOp → Prop
  | .create _ _ => True
  | .alloc thread malloc pteMalloc =>
    Covers state (state.tree thread) ∧ malloc = true ∧ pteMalloc = true
  | .setValue _ key _ _ => key ∈ state.returned
  | .getValue _ key _ => key ∈ state.returned

/-- Every node is found under its key, and under that of no other. -/
structure Findable (root : TlsTree) : Prop where
  distinct : root.keys.Nodup
  found : ∀ key ∈ root.keys, (root.lookup key).isSome

structure Spanned (state : TlsRun) (top : Nat) : Prop where
  pteTls : Findable state.pteTls
  pteKeys : ∀ key, key ∈ state.pteTls.keys ↔ key ∈ state.returned
  own : ∀ thread root, state.own thread = some root → Findable root
  ownKeys : ∀ thread root, state.own thread = some root →
    1 ∈ root.keys ∧ ∀ key ∈ root.keys, key ∈ state.returned ∨ key = 1
  small : 1 ≤ top ∧ top < 2 ^ 32
  span : ∀ key : Key, (key ∈ state.returned ∨ key = 1) ↔ 1 ≤ key.toNat ∧ key.toNat ≤ top

theorem Findable.put {after : TlsTree} {key : Key} {value : Nat} (findable : Findable root)
    (new : root.lookup key = none) (put : tlsPut malloc root key value = some after) :
    Findable after ∧ ∀ other, other ∈ after.keys ↔ other = key ∨ other ∈ root.keys := by
  have fresh : key ∉ root.keys := by
    intro member
    have found := findable.found key member
    rw [new] at found
    nomatch found
  have lookups : ∀ other, after.lookup other = if other = key then some value else root.lookup other :=
    fun _ => lookup_put_new put new
  obtain ⟨_, put⟩ := Option.ite_none_right_eq_some.mp put
  cases put
  have perm : (tlsStore (tlsNodeInit key value) root key).keys.Perm
      ((tlsNodeInit key value).keys ++ root.keys) := keys_tlsStore (tlsSearch_of_lookup new)
  have members : ∀ other, other ∈ (tlsStore (tlsNodeInit key value) root key).keys ↔
      other = key ∨ other ∈ root.keys := by
    intro other
    rw [perm.mem_iff]
    simp [tlsNodeInit, TlsTree.keys]
  refine ⟨⟨?_, ?_⟩, members⟩
  · rw [perm.nodup_iff]
    simpa [tlsNodeInit, TlsTree.keys] using ⟨fresh, findable.distinct⟩
  · intro other member
    rw [lookups]
    by_cases this : other = key
    · rw [if_pos this, Option.isSome_some]
    · rw [if_neg this]
      exact findable.found other (((members other).mp member).resolve_left this)

theorem Findable.set {after : TlsTree} {key : Key} {value : Nat} (findable : Findable root)
    (set : tlsSet root key value = some after) : Findable after := by
  refine ⟨by rw [keys_set set]; exact findable.distinct, ?_⟩
  intro other member
  rw [keys_set set] at member
  rw [lookup_set set]
  split
  · rfl
  · exact findable.found other member

theorem tlsNodeInit_findable (key : Key) (value : Nat) : Findable (tlsNodeInit key value) := by
  constructor
  · simp [tlsNodeInit, TlsTree.keys]
  · intro other member
    rw [lookup_tlsNodeInit, if_pos (by simpa [tlsNodeInit, TlsTree.keys] using member)]
    rfl

/-- The tree of a pthread changes to one with no other keys than returned ones and key 1. -/
theorem Spanned.setOwn {top : Nat} (inv : Spanned state top) (findable : Findable root)
    (keys : 1 ∈ root.keys ∧ ∀ key ∈ root.keys, key ∈ state.returned ∨ key = 1) :
    Spanned (state.setOwn thread root) top := by
  refine ⟨inv.pteTls, inv.pteKeys, ?_, ?_, inv.small, inv.span⟩
  · intro other tree mine
    by_cases this : other = thread
    · rw [TlsRun.setOwn, this] at mine
      simp only [Function.update_self] at mine
      cases mine
      exact findable
    · simp only [TlsRun.setOwn, Function.update_of_ne this] at mine
      exact inv.own other tree mine
  · intro other tree mine
    by_cases this : other = thread
    · rw [TlsRun.setOwn, this] at mine
      simp only [Function.update_self] at mine
      cases mine
      exact keys
    · simp only [TlsRun.setOwn, Function.update_of_ne this] at mine
      exact inv.ownKeys other tree mine

theorem Spanned.setPteValue {top : Nat} (inv : Spanned state top) (key : Key) (value : Nat) :
    Spanned (setPteValue state key value).2 top := by
  unfold Stardust.Pte.setPteValue
  cases set : tlsSet state.pteTls key value with
  | none => exact inv
  | some grown =>
    refine ⟨inv.pteTls.set set, ?_, inv.own, inv.ownKeys, inv.small, inv.span⟩
    intro other
    simp only
    rw [keys_set set]
    exact inv.pteKeys other

/-- A returned key that is put in a tree of its own where it is not found. -/
theorem Spanned.putOwn {top : Nat} (inv : Spanned state top) {key : Key} {value : Nat}
    (mine : state.own thread = some root) (known : key ∈ state.returned)
    (new : root.lookup key = none) :
    Spanned (state.setOwn thread ((tlsPut malloc root key value).getD root)) top := by
  obtain ⟨has, only⟩ := inv.ownKeys thread root mine
  cases put : tlsPut malloc root key value with
  | none => exact inv.setOwn (inv.own thread root mine) ⟨has, only⟩
  | some grown =>
    obtain ⟨findable, members⟩ := (inv.own thread root mine).put new put
    refine inv.setOwn findable ⟨(members 1).mpr (Or.inr has), ?_⟩
    intro other member
    rcases (members other).mp member with rfl | old
    · exact Or.inl known
    · exact only other old

/-- `tls_count` is not above the greatest key. -/
theorem Findable.count_le {top : Nat} (findable : Findable root) (small : top < 2 ^ 32)
    (bounded : ∀ key ∈ root.keys, 1 ≤ key.toNat ∧ key.toNat ≤ top) :
    (tlsCount root).toNat = root.keys.length ∧ root.keys.length ≤ top := by
  have length : root.keys.length ≤ top := by
    have distinct : (root.keys.map BitVec.toNat).Nodup :=
      findable.distinct.map fun _ _ same => BitVec.eq_of_toNat_eq same
    have inside : root.keys.map BitVec.toNat ⊆ List.range' 1 top := by
      intro n member
      obtain ⟨key, among, rfl⟩ := List.mem_map.mp member
      obtain ⟨low, high⟩ := bounded key among
      exact List.mem_range'_1.mpr ⟨low, by omega⟩
    simpa using (distinct.subperm inside).length_le
  refine ⟨?_, length⟩
  rw [tlsCount_eq, BitVec.toNat_ofNat]
  exact Nat.mod_eq_of_lt (by omega)

theorem Spanned.tree {top : Nat} (inv : Spanned state top) (thread : Nat) :
    Findable (state.tree thread) ∧
      ∀ key ∈ (state.tree thread).keys, key ∈ state.returned ∨ key = 1 := by
  unfold TlsRun.tree
  cases mine : state.own thread with
  | some root => exact ⟨inv.own thread root mine, (inv.ownKeys thread root mine).2⟩
  | none => exact ⟨inv.pteTls, fun key member => Or.inl ((inv.pteKeys key).mp member)⟩

/-- A thread whose tree has no nodes finds that no key was returned. -/
theorem Spanned.returned_of_count {top : Nat} (inv : Spanned state top)
    (empty : (state.tree thread).keys = []) : state.returned = [] := by
  unfold TlsRun.tree at empty
  cases mine : state.own thread with
  | some root =>
    rw [mine, Option.getD_some] at empty
    have has := (inv.ownKeys thread root mine).1
    rw [empty] at has
    nomatch has
  | none =>
    rw [mine, Option.getD_none] at empty
    apply List.eq_nil_iff_forall_not_mem.mpr
    intro key member
    have inPte := (inv.pteKeys key).mpr member
    rw [empty] at inPte
    nomatch inPte

/-- After an allocation the keys still run from 1 to the greatest without a gap. -/
theorem Spanned.grow {top : Nat} (inv : Spanned state top)
    (covers : Covers state (state.tree thread)) :
    ∃ top, (1 ≤ top ∧ top < 2 ^ 32) ∧ ∀ key : Key,
      (key ∈ state.returned ++ [tlsCount (state.tree thread) + 1] ∨ key = 1) ↔
        1 ≤ key.toNat ∧ key.toNat ≤ top := by
  obtain ⟨findable, keys⟩ := inv.tree thread
  obtain ⟨count, bounded⟩ := findable.count_le inv.small.2
    fun key member => (inv.span key).mp (keys key member)
  have new := covers.key_toNat
  have room := covers.2
  have members : ∀ key : Key, (key ∈ state.returned ++ [tlsCount (state.tree thread) + 1] ∨ key = 1) ↔
      (1 ≤ key.toNat ∧ key.toNat ≤ top) ∨ key = tlsCount (state.tree thread) + 1 := by
    intro key
    rw [← inv.span key, List.mem_append, List.mem_singleton]
    tauto
  rcases Nat.lt_or_ge (tlsCount (state.tree thread)).toNat top with behind | level
  · -- only before the first key: the tree has no nodes and the key is 1
    have topKey : (BitVec.ofNat 32 top).toNat = top := Nat.mod_eq_of_lt inv.small.2
    have last := (inv.span (BitVec.ofNat 32 top)).mpr (by rw [topKey]; exact ⟨inv.small.1, Nat.le_refl _⟩)
    rcases last with member | one
    · have bound := covers.1 _ (List.mem_append_left _ member)
      rw [topKey] at bound
      omega
    · rw [one] at topKey
      have one : (1 : Key).toNat = 1 := rfl
      refine ⟨top, inv.small, fun key => ?_⟩
      rw [members]
      constructor
      · rintro (old | rfl)
        · exact old
        · omega
      · exact Or.inl
  · refine ⟨top + 1, ⟨by omega, by omega⟩, fun key => ?_⟩
    rw [members]
    constructor
    · rintro (old | rfl)
      · omega
      · omega
    · intro range
      rcases Nat.lt_or_ge top key.toNat with beyond | within
      · exact Or.inr (BitVec.eq_of_toNat_eq (by omega))
      · exact Or.inl ⟨range.1, within⟩

/-- The step of an allocation for which there is memory. -/
theorem alloc_step (move : TlsStep state (.alloc thread true true) after) :
    let key := tlsCount (state.tree thread) + 1
    after = { pteTls := tlsStore (tlsNodeInit key 0) state.pteTls key
              own := if (state.own thread).isSome then Function.update state.own thread
                (some (tlsStore (tlsNodeInit key 0) (state.tree thread) key)) else state.own
              returned := state.returned ++ [key] } := by
  have result := Option.some.inj move
  rw [← result]
  unfold pteOsTlsAlloc TlsRun.tree
  cases mine : state.own thread with
  | some root => rfl
  | none => rfl

theorem Spanned.alloc {top : Nat} (inv : Spanned state top)
    (covers : Covers state (state.tree thread)) (move : TlsStep state (.alloc thread true true) after) :
    ∃ top, Spanned after top := by
  obtain ⟨next, small, span⟩ := inv.grow covers
  have treePut : tlsPut true (state.tree thread) (tlsCount (state.tree thread) + 1) 0 =
      some (tlsStore (tlsNodeInit (tlsCount (state.tree thread) + 1) 0) (state.tree thread)
        (tlsCount (state.tree thread) + 1)) := rfl
  have ptePut : tlsPut true state.pteTls (tlsCount (state.tree thread) + 1) 0 =
      some (tlsStore (tlsNodeInit (tlsCount (state.tree thread) + 1) 0) state.pteTls
        (tlsCount (state.tree thread) + 1)) := rfl
  obtain ⟨treeFindable, treeMembers⟩ := (inv.tree thread).1.put covers.lookup treePut
  obtain ⟨pteFindable, pteMembers⟩ := inv.pteTls.put covers.lookup_pteTls ptePut
  cases alloc_step move
  -- a tree of the new state is the grown one of the caller or an old one
  have trees : ∀ other tree, (if (state.own thread).isSome then Function.update state.own thread
      (some (tlsStore (tlsNodeInit (tlsCount (state.tree thread) + 1) 0) (state.tree thread)
        (tlsCount (state.tree thread) + 1))) else state.own) other = some tree →
      tree = tlsStore (tlsNodeInit (tlsCount (state.tree thread) + 1) 0) (state.tree thread)
        (tlsCount (state.tree thread) + 1) ∧ state.own thread = some (state.tree thread) ∨
      state.own other = some tree := by
    intro other tree mine
    cases kind : state.own thread with
    | none =>
      rw [kind] at mine
      exact Or.inr mine
    | some root =>
      have same : state.tree thread = root := by rw [TlsRun.tree, kind, Option.getD_some]
      rw [kind, same] at mine
      by_cases this : other = thread
      · rw [this, if_pos Option.isSome_some, Function.update_self] at mine
        rw [same]
        exact Or.inl ⟨(Option.some.inj mine).symm, rfl⟩
      · rw [if_pos Option.isSome_some, Function.update_of_ne this] at mine
        exact Or.inr mine
  refine ⟨next, pteFindable, ?_, ?_, ?_, small, span⟩
  · intro key
    rw [List.mem_append, List.mem_singleton, ← inv.pteKeys key, Or.comm]
    exact pteMembers key
  · intro other tree mine
    rcases trees other tree mine with ⟨rfl, _⟩ | old
    · exact treeFindable
    · exact inv.own other tree old
  · intro other tree mine
    rcases trees other tree mine with ⟨rfl, kind⟩ | old
    · obtain ⟨has, only⟩ := inv.ownKeys thread _ kind
      refine ⟨(treeMembers 1).mpr (Or.inr has), ?_⟩
      intro key member
      rcases (treeMembers key).mp member with rfl | before
      · exact Or.inl (List.mem_append_right _ List.mem_cons_self)
      · exact (only key before).imp_left (List.mem_append_left _)
    · obtain ⟨has, only⟩ := inv.ownKeys other tree old
      exact ⟨has, fun key member => (only key member).imp_left (List.mem_append_left _)⟩

theorem Spanned.start (fresh : FreshTls state) : Spanned state 1 := by
  obtain ⟨pteTls, own, returned⟩ := fresh
  have one : (1 : Key).toNat = 1 := rfl
  refine ⟨?_, ?_, ?_, ?_, by decide, ?_⟩
  · rw [pteTls]
    exact ⟨List.nodup_nil, nofun⟩
  · intro key
    rw [pteTls, returned]
    rfl
  · intro thread root mine
    rw [own thread] at mine
    nomatch mine
  · intro thread root mine
    rw [own thread] at mine
    nomatch mine
  · intro key
    rw [returned]
    constructor
    · rintro (member | rfl)
      · nomatch member
      · omega
    · intro range
      exact Or.inr (BitVec.eq_of_toNat_eq (by omega))

theorem Spanned.step {top : Nat} (inv : Spanned state top) (allowed : Contract state op)
    (move : TlsStep state op after) : ∃ top, Spanned after top := by
  cases op with
  | create thread malloc =>
    obtain ⟨_, move⟩ := Option.ite_none_right_eq_some.mp move
    obtain ⟨root, allocated, rfl⟩ := Option.map_eq_some_iff.mp move
    obtain ⟨_, allocated⟩ := Option.ite_none_right_eq_some.mp allocated
    cases allocated
    refine ⟨top, inv.setOwn (tlsNodeInit_findable 1 0) ⟨List.mem_cons_self, ?_⟩⟩
    intro key member
    exact Or.inr (List.mem_singleton.mp member)
  | alloc thread malloc pteMalloc =>
    obtain ⟨covers, rfl, rfl⟩ := allowed
    exact inv.alloc covers move
  | setValue thread key value malloc =>
    cases Option.some.inj move
    refine ⟨top, ?_⟩
    unfold pteOsTlsSetValue
    cases mine : state.own thread with
    | none => exact inv.setPteValue key value
    | some root =>
      simp only
      cases set : tlsSet root key value with
      | some grown =>
        obtain ⟨has, only⟩ := inv.ownKeys thread root mine
        refine inv.setOwn ((inv.own thread root mine).set set) ?_
        rw [keys_set set]
        exact ⟨has, only⟩
      | none =>
        exact (inv.putOwn mine allowed (lookup_of_set set)).setPteValue key value
  | getValue thread key malloc =>
    cases Option.some.inj move
    refine ⟨top, ?_⟩
    unfold pteOsTlsGetValue
    cases mine : state.own thread with
    | none =>
      simp only
      split <;> exact inv
    | some root =>
      simp only
      split
      · exact inv
      · rename_i absent
        rw [tlsHasKey_eq, Option.isSome_iff_ne_none] at absent
        exact inv.putOwn mine allowed (not_not.mp absent)

/-- Below the greatest `unsigned`, a key is new only if the tree covers the keys. -/
theorem newKey_iff_covers (reached : Reach FreshTls TlsStep Contract state) (thread : Nat)
    (room : (tlsCount (state.tree thread)).toNat + 1 < 2 ^ 32) :
    tlsCount (state.tree thread) + 1 ∉ state.returned ↔ Covers state (state.tree thread) := by
  have ⟨top, inv⟩ : ∃ top, Spanned state top :=
    Reach.invariant (fun run => ∃ top, Spanned run top) (fun _ fresh => ⟨1, Spanned.start fresh⟩)
      (fun _ _ _ ⟨_, inv⟩ allowed move => inv.step allowed move) reached
  obtain ⟨findable, keys⟩ := inv.tree thread
  obtain ⟨count, bounded⟩ := findable.count_le inv.small.2
    fun key member => (inv.span key).mp (keys key member)
  have one : (1 : Key).toNat = 1 := rfl
  have new : (tlsCount (state.tree thread) + 1).toNat = (tlsCount (state.tree thread)).toNat + 1 := by
    rw [BitVec.toNat_add, one]
    exact Nat.mod_eq_of_lt room
  constructor
  · intro fresh
    refine ⟨fun key member => ?_, room⟩
    by_contra beyond
    -- the keys have no gap, so the new key can only be 1, and there are none
    have among : key ∈ state.returned ∨ key = 1 := by
      rcases List.mem_append.mp member with old | inTrees
      · exact Or.inl old
      · rcases List.mem_append.mp inTrees with inTree | inPte
        · exact keys key inTree
        · exact Or.inl ((inv.pteKeys key).mp inPte)
    have range := (inv.span key).mp among
    have known := (inv.span (tlsCount (state.tree thread) + 1)).mpr (by omega)
    have first := known.resolve_left fresh
    rw [first, one] at new
    have empty : (state.tree thread).keys = [] := List.eq_nil_of_length_eq_zero (by omega)
    have none := inv.returned_of_count empty
    have noPte : state.pteTls.keys = [] := by
      apply List.eq_nil_iff_forall_not_mem.mpr
      intro other inPte
      have old := (inv.pteKeys other).mp inPte
      rw [none] at old
      nomatch old
    rw [none, empty, noPte] at member
    nomatch member
  · intro covers member
    exact covers.absent _ (List.mem_append_left _ member) rfl

end Runs

/-! ## Two pthreads -/

def emptyTls : TlsRun := { pteTls := .null, own := fun _ => none, returned := [] }

theorem emptyTls_fresh : FreshTls emptyTls := ⟨rfl, fun _ => rfl, rfl⟩

/-- Thread 0 has key 1 and the pthread 1 key 2; thread 0 has key 3, which the
pthread reads before it has key 4. -/
def sharedKeysScript : List TlsOp :=
  [.alloc 0 true true, .create 1 true, .alloc 1 true true, .setValue 1 2 77 true, .alloc 0 true true,
    .getValue 1 3 true, .alloc 1 true true]

theorem tlsAlloc_safe_shared :
    ∃ state, runLabels tlsStep CallerCovers sharedKeysScript emptyTls = some state ∧
      state.returned.Nodup ∧ ∀ thread malloc pteMalloc,
        CallerCovers state (.alloc thread malloc pteMalloc) →
          AllocSafe state (pteOsTlsAlloc state thread malloc pteMalloc) := by
  have runs : (runLabels tlsStep CallerCovers sharedKeysScript emptyTls).isSome := by decide +kernel
  obtain ⟨state, run⟩ := Option.isSome_iff_exists.mp runs
  exact ⟨state, run, tlsAlloc_safe (Reach.of_runLabels (.start emptyTls_fresh) run)⟩

/-- Each of two pthreads finds one node in its tree: both have key 2. -/
theorem pthreads_share_key :
    ∃ state, Reach FreshTls TlsStep Always state ∧ ¬state.returned.Nodup := by
  have facts : (runLabels tlsStep Always [.create 1 true, .create 2 true, .alloc 1 true true,
      .alloc 2 true true] emptyTls).any fun state => decide (¬state.returned.Nodup) := by
    decide +kernel
  exact Reach.of_run_ends emptyTls_fresh facts

end Stardust.Pte
