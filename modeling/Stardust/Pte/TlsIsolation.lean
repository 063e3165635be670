import Stardust.Pte.Tls

/-! # Values that other threads see

A pthread that stores a value under a key of its own tree stays in that tree.  Under
a key that it has not got it goes on to `pte_tls`, which every thread that is no
pthread reads. -/
set_option autoImplicit false
namespace Stardust.Pte

open Stardust.Lib

/-- The pthread `thread` has the key, or `reader` is a pthread, or the store changes
nothing in `pte_tls`. -/
def StoreStaysApart (state : TlsRun) (thread reader : Nat) (key : Key) (value : Nat) : Prop :=
  ((state.own thread).bind fun root => root.lookup key).isSome ∨ (state.own reader).isSome ∨
    ∀ old, state.pteTls.lookup key = some old → old = value

section Stores
variable {state : TlsRun} {thread reader : Nat} {key other : Key} {value : Nat} {malloc : Bool}

theorem getValue_eq : (pteOsTlsGetValue state thread key malloc).1 =
    ((state.tree thread).lookup key).getD 0 := by
  unfold pteOsTlsGetValue TlsRun.tree
  cases state.own thread with
  | some root =>
    simp only [tlsHasKey_eq, tlsGet_eq, Option.getD_some]
    cases root.lookup key with
    | none => rfl
    | some found => rfl
  | none =>
    simp only [tlsHasKey_eq, tlsGet_eq, Option.getD_none]
    cases state.pteTls.lookup key with
    | none => rfl
    | some found => rfl

theorem setPteValue_own : (setPteValue state key value).2.own = state.own := by
  unfold setPteValue
  split
  · rfl
  · rfl

theorem lookup_setPteValue : (setPteValue state key value).2.pteTls.lookup other =
    if other = key then (state.pteTls.lookup key).map fun _ => value
    else state.pteTls.lookup other := by
  unfold setPteValue
  split
  · rename_i root set
    rw [lookup_set set]
    obtain ⟨old, left, right, found, _⟩ := tlsSet_some set
    have present : state.pteTls.lookup key = some old := by
      rw [TlsTree.lookup, found]
    rw [present, Option.map_some]
  · rename_i set
    have absent := lookup_of_set set
    split
    · rename_i same
      rw [same, absent, Option.map_none]
    · rfl

/-- A store leaves the trees of the other pthreads alone. -/
theorem setValue_own (apart : reader ≠ thread) :
    (pteOsTlsSetValue state thread key value malloc).2.own reader = state.own reader := by
  unfold pteOsTlsSetValue
  split
  · split
    · exact Function.update_of_ne apart ..
    · rw [setPteValue_own]
      exact Function.update_of_ne apart ..
  · rw [setPteValue_own]

/-- The store of a pthread reaches `pte_tls` when its tree has not got the key. -/
theorem setValue_pteTls {root : TlsTree} (pthread : state.own thread = some root) :
    (pteOsTlsSetValue state thread key value malloc).2.pteTls.lookup other =
      if root.lookup key = none ∧ other = key then (state.pteTls.lookup key).map fun _ => value
      else state.pteTls.lookup other := by
  unfold pteOsTlsSetValue
  rw [pthread]
  simp only
  split
  · rename_i after set
    obtain ⟨old, left, right, found, _⟩ := tlsSet_some set
    have present : root.lookup key = some old := by
      rw [TlsTree.lookup, found]
    rw [present]
    simp [TlsRun.setOwn]
  · rename_i set
    rw [lookup_setPteValue, lookup_of_set set]
    simp [TlsRun.setOwn]

/-- What another thread reads changes exactly when a store falls through to `pte_tls`. -/
theorem setValue_isolated_iff (pthread : (state.own thread).isSome) (apart : reader ≠ thread) :
    (∀ index alloc, (pteOsTlsGetValue (pteOsTlsSetValue state thread key value malloc).2 reader index
        alloc).1 = (pteOsTlsGetValue state reader index alloc).1) ↔
      StoreStaysApart state thread reader key value := by
  obtain ⟨root, pthread⟩ := Option.isSome_iff_exists.mp pthread
  simp only [getValue_eq, TlsRun.tree, setValue_own apart]
  unfold StoreStaysApart
  rw [pthread, Option.bind_some]
  cases kind : state.own reader with
  | some mine => simp
  | none =>
    simp only [Option.getD_none, setValue_pteTls pthread]
    cases own : root.lookup key with
    | some found => simp
    | none =>
      constructor
      · intro same
        right
        right
        intro old present
        have now := same key true
        rw [if_pos ⟨rfl, rfl⟩, present] at now
        exact now.symm
      · intro quiet index _
        have quiet : ∀ old, state.pteTls.lookup key = some old → old = value := by
          rcases quiet with impossible | impossible | quiet
          · cases impossible
          · cases impossible
          · exact quiet
        split
        · rename_i here
          rw [here.2]
          cases present : state.pteTls.lookup key with
          | none => rfl
          | some old =>
            rw [quiet old present]
            rfl
        · rfl

end Stores

/-! ## Two runs -/

/-- The tree of the pthread 1 is as `pte_osThreadCreate` makes it. -/
def onePthread : TlsRun :=
  { pteTls := .node 1 5 .null .null
    own := fun thread => if thread = 1 then some (tlsNodeInit 1 0) else none
    returned := [1] }

/-- The pthread stores under the key that its tree starts with. -/
theorem setValue_isolated_own :
    StoreStaysApart onePthread 1 0 1 7 ∧
      ∀ index alloc, (pteOsTlsGetValue (pteOsTlsSetValue onePthread 1 1 7 true).2 0 index alloc).1 =
        (pteOsTlsGetValue onePthread 0 index alloc).1 := by
  have apart : StoreStaysApart onePthread 1 0 1 7 := Or.inl rfl
  exact ⟨apart, (setValue_isolated_iff rfl (by decide)).mpr apart⟩

/-- Thread 0, no pthread, makes two keys; a pthread stores under the second, which it
has not got, and thread 0 reads the pthread's value. -/
theorem pthread_store_read_by_other :
    ∃ state, Reach FreshTls TlsStep Always state ∧ (state.own 1).isSome ∧
      (pteOsTlsGetValue (pteOsTlsSetValue state 1 2 7 true).2 0 2 true).1 ≠
        (pteOsTlsGetValue state 0 2 true).1 := by
  have run : (runLabels tlsStep Always [.alloc 0 true true, .alloc 0 true true, .create 1 true]
      emptyTls).any fun state => decide ((state.own 1).isSome = true ∧
        (pteOsTlsGetValue (pteOsTlsSetValue state 1 2 7 true).2 0 2 true).1 ≠
          (pteOsTlsGetValue state 0 2 true).1) := by
    decide +kernel
  exact Reach.of_run_ends emptyTls_fresh run

end Stardust.Pte
