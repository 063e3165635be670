import Stardust.Kernel
import Stardust.Lib.Reach
import Mathlib.Data.List.GetD
import Mathlib.Data.List.Perm.Basic

/-! # Grant mappings

A `gntmap` is an array of (address, handle) pairs: the address 0 marks a free entry, which
keeps its old handle.  The hypervisor's answers are arguments; what it holds for the map is
kept beside the array. -/
set_option autoImplicit false
namespace Stardust.Gntmap

open Stardust.Lib

def pageSize : Nat := 4096

def defaultMaxGrants : Int := 128

def eINVAL : Int := 22
def eNOMEM : Int := 12
def eBUSY : Int := 16

def gntmapHostMap : Nat := 2
def gntmapReadonly : Nat := 4

/-- An entry of the array, and also a mapping that the hypervisor holds. -/
structure GntmapEntry where
  hostAddr : Nat
  handle : Nat
  deriving DecidableEq

/-- An unmap hypercall that was issued; `live` when it named a mapping of that moment. -/
structure UnmapCall where
  hostAddr : Nat
  handle : Nat
  live : Bool
  deriving DecidableEq

/-- The map (`nentries` is the length of `entries`), with what the hypervisor holds. -/
structure GntmapState where
  entries : List GntmapEntry
  live : List GntmapEntry
  /-- the mappings whose entries a `gntmap_fini` dropped when their unmap was refused -/
  dropped : List GntmapEntry
  unmaps : List UnmapCall
  deriving DecidableEq

structure GnttabMapGrantRef where
  hostAddr : Nat
  flags : Nat
  ref : Nat
  dom : Nat

/-- What a hypercall gives back: its own result, and the fields of the operation. -/
structure Reply where
  rc : Int
  status : Int
  handle : Nat

/-- The hypervisor's answers in a call: to its `i`-th map, and to its `i`-th unmap, which
may depend on whether that names a live mapping. -/
structure Xen where
  map : Nat → GnttabMapGrantRef → Reply
  unmap : Nat → Bool → Reply

def Reply.okay (reply : Reply) : Prop := reply.rc = 0 ∧ reply.status = 0

instance (reply : Reply) : Decidable reply.okay := by
  unfold Reply.okay
  infer_instance

/-- `rc != 0 ? rc : op.status` -/
def Reply.error (reply : Reply) : Int := if reply.rc ≠ 0 then reply.rc else reply.status

theorem Reply.error_ne_zero {reply : Reply} (refused : ¬reply.okay) : reply.error ≠ 0 := by
  unfold Reply.error
  split
  · assumption
  · rename_i zero
    intro status
    exact refused ⟨not_not.mp zero, status⟩

/-! ## The entries -/

def gntmapEntryUsed (entry : GntmapEntry) : Bool := entry.hostAddr != 0

def gntmapFindFreeEntry (entries : List GntmapEntry) : Option Nat :=
  entries.findIdx? fun entry => !gntmapEntryUsed entry

def gntmapFindEntry (entries : List GntmapEntry) (addr : Nat) : Option Nat :=
  entries.findIdx? fun entry => entry.hostAddr == addr

/-- `memory` says whether `xmalloc_align` finds a block.  A negative `count` is converted
to `size_t`; an entry has 16 bytes. -/
def gntmapSetMaxGrants (state : GntmapState) (count : Int) (memory : Bool) : GntmapState × Int :=
  if state.entries.length ≠ 0 then (state, -eBUSY)
  else if (2 ^ 32 - 1) / 16 < ulongOfInt count ∨ memory = false then (state, -eNOMEM)
  else ({ state with entries := List.replicate count.toNat ⟨0, 0⟩ }, 0)

/-- The operation that `_gntmap_map_grant_ref` fills in; `domid_t` has 16 bits. -/
def mapOperation (hostAddr domid ref : Nat) (writable : Int) : GnttabMapGrantRef where
  hostAddr := hostAddr
  flags := if writable = 0 then gntmapHostMap ||| gntmapReadonly else gntmapHostMap
  ref := ref
  dom := domid % 2 ^ 16

/-- `_gntmap_map_grant_ref` for the entry at `index`. -/
def gntmapMapGrantRef (state : GntmapState) (index hostAddr domid ref : Nat) (writable : Int)
    (xen : GnttabMapGrantRef → Reply) : GntmapState × Int :=
  let reply := xen (mapOperation hostAddr domid ref writable)
  if reply.okay then
    ({ state with
        entries := state.entries.set index ⟨hostAddr, reply.handle⟩
        live := ⟨hostAddr, reply.handle⟩ :: state.live }, 0)
  else (state, reply.error)

/-- `_gntmap_unmap_grant_ref` for the entry at `index`.  A hypercall that names no live
mapping takes none away. -/
def gntmapUnmapGrantRef (state : GntmapState) (index : Nat) (entry : GntmapEntry)
    (xen : Bool → Reply) : GntmapState × Int :=
  let named := decide (entry ∈ state.live)
  let reply := xen named
  let state := { state with unmaps := ⟨entry.hostAddr, entry.handle, named⟩ :: state.unmaps }
  if reply.okay then
    ({ state with
        entries := state.entries.set index { entry with hostAddr := 0 }
        live := state.live.erase entry }, 0)
  else (state, reply.error)

/-- `start_address + PAGE_SIZE * i` -/
def pageAddress (start i : Nat) : Nat := ulongAdd start (ulongMul pageSize i)

/-- The loop of `gntmap_munmap`, from iteration `i` on. -/
def munmapLoop (xen : Xen) (start : Nat) : Nat → Nat → GntmapState → GntmapState × Int
  | 0, _, state => (state, 0)
  | left + 1, i, state =>
    match gntmapFindEntry state.entries (pageAddress start i) with
    | none => (state, -eINVAL)
    | some index =>
      match gntmapUnmapGrantRef state index (state.entries.getD index ⟨0, 0⟩) (xen.unmap i) with
      | (state, rc) => if rc ≠ 0 then (state, rc) else munmapLoop xen start left (i + 1) state

def gntmapMunmap (state : GntmapState) (start : Nat) (count : Int) (xen : Xen) : GntmapState × Int :=
  munmapLoop xen start count.toNat 0 state

/-- The arguments of `gntmap_map_grant_refs` that say what to map. -/
structure Grants where
  domids : Int → Nat
  domidsStride : Int
  refs : Nat → Nat
  writable : Int

/-- The loop of `gntmap_map_grant_refs`, from iteration `i` on, and what the call
returns.  Each iteration takes an entry, and there are fewer than `2^31` of them. -/
def mapLoop (xen : Xen) (grants : Grants) (addr : Nat) : Nat → Nat → GntmapState → GntmapState × Nat
  | 0, _, state => (state, addr)
  | left + 1, i, state =>
    match gntmapFindFreeEntry state.entries with
    | none => ((gntmapMunmap state addr i xen).1, 0)
    | some index =>
      match gntmapMapGrantRef state index (pageAddress addr i) (grants.domids (i * grants.domidsStride))
          (grants.refs i) grants.writable (xen.map i) with
      | (state, rc) =>
        if rc ≠ 0 then ((gntmapMunmap state addr i xen).1, 0)
        else mapLoop xen grants addr left (i + 1) state

/-- `addr` is what `allocate_ondemand` returns. -/
def gntmapMapGrantRefs (state : GntmapState) (count : Nat) (grants : Grants) (addr : Nat)
    (memory : Bool) (xen : Xen) : GntmapState × Nat :=
  let state := (gntmapSetMaxGrants state defaultMaxGrants memory).1
  if addr = 0 then (state, 0) else mapLoop xen grants addr count 0 state

def gntmapInit : GntmapState := ⟨[], [], [], []⟩

/-- The loop of `gntmap_fini`. -/
def finiLoop (xen : Xen) : Nat → Nat → GntmapState → GntmapState
  | 0, _, state => state
  | left + 1, i, state =>
    let entry := state.entries.getD i ⟨0, 0⟩
    if gntmapEntryUsed entry then
      finiLoop xen left (i + 1) (gntmapUnmapGrantRef state i entry (xen.unmap i)).1
    else finiLoop xen left (i + 1) state

def usedEntries (entries : List GntmapEntry) : List GntmapEntry := entries.filter gntmapEntryUsed

def gntmapFini (state : GntmapState) (xen : Xen) : GntmapState :=
  let state := finiLoop xen state.entries.length 0 state
  { state with entries := [], dropped := usedEntries state.entries ++ state.dropped }

/-! ## Runs of calls -/

inductive GntmapOp
  | setMaxGrants (count : Int) (memory : Bool)
  | mapGrantRefs (count : Nat) (grants : Grants) (addr : Nat) (memory : Bool) (xen : Xen)
  | munmap (start : Nat) (count : Int) (xen : Xen)
  | fini (xen : Xen)

/-- What `allocate_ondemand` promises of a result: 0, or the address of pages that nothing
is mapped at. -/
def Unmapped (live : List GntmapEntry) (count addr : Nat) : Prop :=
  addr ≠ 0 → addr + pageSize * count < 2 ^ 64 ∧
    ∀ mapping ∈ live, ∀ i < count, mapping.hostAddr ≠ addr + pageSize * i

instance (live : List GntmapEntry) (count addr : Nat) : Decidable (Unmapped live count addr) := by
  unfold Unmapped
  infer_instance

def gntmapStep (state : GntmapState) : GntmapOp → Option GntmapState
  | .setMaxGrants count memory => some (gntmapSetMaxGrants state count memory).1
  | .mapGrantRefs count grants addr memory xen =>
    if Unmapped state.live count addr then
      some (gntmapMapGrantRefs state count grants addr memory xen).1
    else none
  | .munmap start count xen => some (gntmapMunmap state start count xen).1
  | .fini xen => some (gntmapFini state xen)

/-! ## The array as a collection of used entries -/

section Entries
variable {entries : List GntmapEntry} {index addr : Nat} {entry : GntmapEntry}

theorem mem_usedEntries : entry ∈ usedEntries entries ↔ entry ∈ entries ∧ entry.hostAddr ≠ 0 := by
  simp [usedEntries, gntmapEntryUsed]

theorem usedEntries_perm {first second : List GntmapEntry} (same : first.Perm second) :
    (usedEntries first).Perm (usedEntries second) := same.filter _

theorem usedEntries_cons_of_used (used : entry.hostAddr ≠ 0) :
    usedEntries (entry :: entries) = entry :: usedEntries entries := by
  rw [usedEntries, List.filter_cons_of_pos (by simpa [gntmapEntryUsed] using used), usedEntries]

theorem usedEntries_cons_of_free (free : entry.hostAddr = 0) :
    usedEntries (entry :: entries) = usedEntries entries := by
  simp [usedEntries, gntmapEntryUsed, free]

theorem usedEntries_replicate (count : Nat) : usedEntries (List.replicate count ⟨0, 0⟩) = [] := by
  simp [usedEntries, gntmapEntryUsed]

theorem gntmapFindFreeEntry_eq_some (found : gntmapFindFreeEntry entries = some index) :
    ∃ bound : index < entries.length, entries[index].hostAddr = 0 := by
  obtain ⟨bound, free, _⟩ := List.findIdx?_eq_some_iff_getElem.mp found
  exact ⟨bound, by simpa [gntmapEntryUsed] using free⟩

theorem gntmapFindEntry_eq_some (found : gntmapFindEntry entries addr = some index) :
    ∃ bound : index < entries.length, entries[index].hostAddr = addr := by
  obtain ⟨bound, same, _⟩ := List.findIdx?_eq_some_iff_getElem.mp found
  exact ⟨bound, by simpa using same⟩

theorem gntmapFindEntry_of_mem (member : entry ∈ entries) :
    ∃ index, gntmapFindEntry entries entry.hostAddr = some index := by
  cases found : gntmapFindEntry entries entry.hostAddr with
  | some index => exact ⟨index, rfl⟩
  | none =>
    have differs := List.findIdx?_eq_none_iff.mp found entry member
    simp at differs

/-- A free entry is filled. -/
theorem usedEntries_set_of_free (bound : index < entries.length) (free : entries[index].hostAddr = 0)
    (entry : GntmapEntry) (used : entry.hostAddr ≠ 0) :
    (usedEntries (entries.set index entry)).Perm (entry :: usedEntries entries) := by
  have set := usedEntries_perm (List.set_perm_cons_eraseIdx bound entry)
  rw [usedEntries_cons_of_used used] at set
  have whole := usedEntries_perm (List.getElem_cons_eraseIdx_perm bound)
  rw [usedEntries_cons_of_free free] at whole
  exact set.trans (whole.cons entry)

/-- A used entry is cleared. -/
theorem usedEntries_set_of_used (bound : index < entries.length) (used : entries[index].hostAddr ≠ 0)
    (entry : GntmapEntry) (free : entry.hostAddr = 0) :
    (usedEntries entries).Perm (entries[index] :: usedEntries (entries.set index entry)) := by
  have set := usedEntries_perm (List.set_perm_cons_eraseIdx bound entry)
  rw [usedEntries_cons_of_free free] at set
  have whole := usedEntries_perm (List.getElem_cons_eraseIdx_perm bound)
  rw [usedEntries_cons_of_used used] at whole
  exact whole.symm.trans (set.symm.cons _)

end Entries

/-! ## The invariant -/

/-- The used entries and the dropped ones are the live mappings, at distinct addresses; an
unmap hypercall for a non-zero address names one of them. -/
structure Mirrored (state : GntmapState) : Prop where
  live : state.live.Perm (usedEntries state.entries ++ state.dropped)
  distinct : (state.live.map GntmapEntry.hostAddr).Nodup
  nonzero : ∀ mapping ∈ state.live, mapping.hostAddr ≠ 0
  unmaps : ∀ call ∈ state.unmaps, call.hostAddr ≠ 0 → call.live = true

theorem gntmapInit_mirrored : Mirrored gntmapInit where
  live := .nil
  distinct := .nil
  nonzero := by simp [gntmapInit]
  unmaps := by simp [gntmapInit]

section Steps
variable {state : GntmapState} {index : Nat}

theorem Mirrored.mem_live (mirrored : Mirrored state) {entry : GntmapEntry} (member : entry ∈ state.entries)
    (used : entry.hostAddr ≠ 0) : entry ∈ state.live :=
  mirrored.live.mem_iff.mpr (List.mem_append_left _ (mem_usedEntries.mpr ⟨member, used⟩))

theorem Mirrored.setMaxGrants (mirrored : Mirrored state) (count : Int) (memory : Bool) :
    Mirrored (gntmapSetMaxGrants state count memory).1 := by
  unfold gntmapSetMaxGrants
  split
  · exact mirrored
  · rename_i empty
    split
    · exact mirrored
    · have none : state.entries = [] := List.eq_nil_of_length_eq_zero (not_not.mp empty)
      have live := mirrored.live
      rw [none] at live
      exact { mirrored with live := by rw [usedEntries_replicate]; exact live }

/-- A mapping at an address where nothing is mapped goes into a free entry. -/
theorem Mirrored.mapGrantRef (mirrored : Mirrored state) {hostAddr : Nat} (domid ref : Nat) (writable : Int)
    (xen : GnttabMapGrantRef → Reply) (found : gntmapFindFreeEntry state.entries = some index)
    (positive : hostAddr ≠ 0) (unmapped : ∀ mapping ∈ state.live, mapping.hostAddr ≠ hostAddr) :
    Mirrored (gntmapMapGrantRef state index hostAddr domid ref writable xen).1 := by
  obtain ⟨bound, free⟩ := gntmapFindFreeEntry_eq_some found
  simp only [gntmapMapGrantRef]
  split
  · constructor
    · exact (mirrored.live.cons _).trans
        ((usedEntries_set_of_free bound free ⟨hostAddr, _⟩ positive).symm.append_right _)
    · simp only [List.map_cons, List.nodup_cons]
      refine ⟨?_, mirrored.distinct⟩
      intro member
      obtain ⟨mapping, held, same⟩ := List.mem_map.mp member
      exact unmapped mapping held same
    · intro mapping member
      rcases List.mem_cons.mp member with rfl | held
      · exact positive
      · exact mirrored.nonzero mapping held
    · exact mirrored.unmaps
  · exact mirrored

/-- The entry at an index of the array is unmapped, or the hypervisor refuses. -/
theorem Mirrored.unmapGrantRef (mirrored : Mirrored state) (bound : index < state.entries.length)
    (xen : Bool → Reply) : Mirrored (gntmapUnmapGrantRef state index state.entries[index] xen).1 := by
  have unmaps : ∀ call ∈ ⟨state.entries[index].hostAddr, state.entries[index].handle,
      decide (state.entries[index] ∈ state.live)⟩ :: state.unmaps,
      UnmapCall.hostAddr call ≠ 0 → call.live = true := by
    intro call member nonzero
    rcases List.mem_cons.mp member with rfl | earlier
    · exact decide_eq_true (mirrored.mem_live (List.getElem_mem bound) nonzero)
    · exact mirrored.unmaps call earlier nonzero
  simp only [gntmapUnmapGrantRef]
  split
  · have part : (state.live.erase state.entries[index]).Sublist state.live := List.erase_sublist
    refine ⟨?_, mirrored.distinct.sublist (part.map _), fun mapping held =>
      mirrored.nonzero mapping (part.subset held), unmaps⟩
    by_cases used : state.entries[index].hostAddr = 0
    · -- a free entry: nothing is mapped at 0, and the entry stays as it was
      have absent : state.entries[index] ∉ state.live := fun held => mirrored.nonzero _ held used
      rw [List.erase_of_not_mem absent, ← used, List.set_getElem_self]
      exact mirrored.live
    · have whole := mirrored.live.trans
        ((usedEntries_set_of_used bound used { state.entries[index] with hostAddr := 0 }
          rfl).append_right state.dropped)
      have removed := whole.erase state.entries[index]
      rwa [List.cons_append, List.erase_cons_head] at removed
  · exact { mirrored with unmaps }

theorem gntmapUnmapGrantRef_dropped (state : GntmapState) (index : Nat) (entry : GntmapEntry)
    (xen : Bool → Reply) : (gntmapUnmapGrantRef state index entry xen).1.dropped = state.dropped := by
  simp only [gntmapUnmapGrantRef]
  split <;> rfl

theorem gntmapUnmapGrantRef_length (state : GntmapState) (index : Nat) (entry : GntmapEntry)
    (xen : Bool → Reply) :
    (gntmapUnmapGrantRef state index entry xen).1.entries.length = state.entries.length := by
  simp only [gntmapUnmapGrantRef]
  split
  · exact List.length_set
  · rfl

theorem Mirrored.munmapLoop (mirrored : Mirrored state) (xen : Xen) (start left i : Nat) :
    Mirrored (munmapLoop xen start left i state).1 := by
  induction left generalizing i state with
  | zero => exact mirrored
  | succ left ih =>
    rw [Gntmap.munmapLoop]
    split
    · exact mirrored
    · rename_i index found
      obtain ⟨bound, _⟩ := gntmapFindEntry_eq_some found
      rw [List.getD_eq_getElem _ _ bound]
      have unmapped := mirrored.unmapGrantRef bound (xen.unmap i)
      dsimp only
      split
      · exact unmapped
      · exact ih unmapped (i + 1)

theorem Mirrored.finiLoop (mirrored : Mirrored state) (xen : Xen) (left i : Nat)
    (bound : i + left ≤ state.entries.length) : Mirrored (finiLoop xen left i state) := by
  induction left generalizing i state with
  | zero => exact mirrored
  | succ left ih =>
    rw [Gntmap.finiLoop]
    rw [List.getD_eq_getElem _ _ (by omega)]
    split
    · refine ih (mirrored.unmapGrantRef (by omega) (xen.unmap i)) (i + 1) ?_
      rw [gntmapUnmapGrantRef_length]
      omega
    · exact ih mirrored (i + 1) (by omega)

theorem Mirrored.fini (mirrored : Mirrored state) (xen : Xen) : Mirrored (gntmapFini state xen) := by
  have emptied := mirrored.finiLoop xen state.entries.length 0 (by omega)
  exact { emptied with live := emptied.live }

/-- With no refusal the loop clears every entry. -/
theorem Mirrored.finiLoop_clears (mirrored : Mirrored state) {xen : Xen} (accepts : ∀ i, (xen.unmap i true).okay)
    {left i : Nat} (bound : i + left = state.entries.length)
    (cleared : ∀ j < i, ∀ entry, state.entries[j]? = some entry → entry.hostAddr = 0) :
    usedEntries (Gntmap.finiLoop xen left i state).entries = [] := by
  induction left generalizing i state with
  | zero =>
    refine List.filter_eq_nil_iff.mpr ?_
    intro entry member
    obtain ⟨j, here⟩ := List.mem_iff_getElem?.mp member
    have inside := (List.getElem?_eq_some_iff.mp here).1
    simp only [Gntmap.finiLoop] at inside here
    simp [gntmapEntryUsed, cleared j (by omega) entry here]
  | succ left ih =>
    have inside : i < state.entries.length := by omega
    rw [Gntmap.finiLoop, List.getD_eq_getElem _ _ inside]
    split
    · rename_i used
      have named := mirrored.mem_live (List.getElem_mem inside) (by simpa [gntmapEntryUsed] using used)
      have okay : (xen.unmap i (decide (state.entries[i] ∈ state.live))).okay := by
        rw [decide_eq_true named]
        exact accepts i
      refine ih (mirrored.unmapGrantRef inside (xen.unmap i)) ?_ ?_
      · rw [gntmapUnmapGrantRef_length]
        omega
      · intro j before entry here
        simp only [gntmapUnmapGrantRef, if_pos okay, List.getElem?_set] at here
        split at here
        · cases here
          rfl
        · exact cleared j (by omega) entry here
    · rename_i free
      refine ih mirrored (by omega) ?_
      intro j before entry here
      by_cases earlier : j < i
      · exact cleared j earlier entry here
      · obtain rfl : j = i := by omega
        rw [List.getElem?_eq_getElem inside] at here
        cases here
        simpa [gntmapEntryUsed] using free

theorem finiLoop_dropped (xen : Xen) (left i : Nat) (state : GntmapState) :
    (finiLoop xen left i state).dropped = state.dropped := by
  induction left generalizing i state with
  | zero => rfl
  | succ left ih =>
    rw [finiLoop]
    split
    · rw [ih, gntmapUnmapGrantRef_dropped]
    · exact ih (i + 1) state

theorem Mirrored.fini_dropped (mirrored : Mirrored state) {xen : Xen} (accepts : ∀ i, (xen.unmap i true).okay) :
    (gntmapFini state xen).dropped = state.dropped := by
  simp only [gntmapFini]
  rw [mirrored.finiLoop_clears accepts (Nat.zero_add _) (fun j before => absurd before (by omega)),
    finiLoop_dropped, List.nil_append]

theorem pageAddress_eq {addr count i : Nat} (fits : addr + pageSize * count < 2 ^ 64) (inside : i < count) :
    pageAddress addr i = addr + pageSize * i := by
  unfold pageAddress
  unfold pageSize at *
  rw [ulongMul_eq (by omega), ulongAdd_eq (by omega)]

/-- From page `i` on nothing is mapped yet where the call is going to map. -/
def UnmappedFrom (live : List GntmapEntry) (addr i count : Nat) : Prop :=
  ∀ mapping ∈ live, ∀ j, i ≤ j → j < count → mapping.hostAddr ≠ addr + pageSize * j

theorem UnmappedFrom.next {live : List GntmapEntry} {addr i count handle : Nat}
    (unmapped : UnmappedFrom live addr i count) :
    UnmappedFrom (⟨addr + pageSize * i, handle⟩ :: live) addr (i + 1) count := by
  intro mapping member j later inside
  rcases List.mem_cons.mp member with rfl | held
  · simp only [pageSize]
    omega
  · exact unmapped mapping held j (by omega) inside

/-- Page `i` of a call that maps `count` pages. -/
theorem Mirrored.mapPage (mirrored : Mirrored state) (domid ref : Nat) (writable : Int)
    (xen : GnttabMapGrantRef → Reply) {addr i count : Nat}
    (found : gntmapFindFreeEntry state.entries = some index) (positive : addr ≠ 0)
    (fits : addr + pageSize * count < 2 ^ 64) (inside : i < count)
    (unmapped : UnmappedFrom state.live addr i count) :
    Mirrored (gntmapMapGrantRef state index (pageAddress addr i) domid ref writable xen).1 := by
  have address := pageAddress_eq fits inside
  refine mirrored.mapGrantRef domid ref writable xen found (by omega) ?_
  intro mapping held
  rw [address]
  exact unmapped mapping held i (Nat.le_refl i) inside

theorem gntmapMapGrantRef_okay {hostAddr domid ref : Nat} {writable : Int}
    {xen : GnttabMapGrantRef → Reply}
    (granted : (gntmapMapGrantRef state index hostAddr domid ref writable xen).2 = 0) :
    gntmapMapGrantRef state index hostAddr domid ref writable xen =
      ({ state with
          entries := state.entries.set index
            ⟨hostAddr, (xen (mapOperation hostAddr domid ref writable)).handle⟩
          live := ⟨hostAddr, (xen (mapOperation hostAddr domid ref writable)).handle⟩ :: state.live }, 0) := by
  simp only [gntmapMapGrantRef] at granted ⊢
  split
  · rfl
  · rename_i refused
    rw [if_neg refused] at granted
    exact absurd granted (Reply.error_ne_zero refused)

theorem gntmapMapGrantRef_refused {hostAddr domid ref : Nat} {writable : Int}
    {xen : GnttabMapGrantRef → Reply}
    (refused : (gntmapMapGrantRef state index hostAddr domid ref writable xen).2 ≠ 0) :
    (gntmapMapGrantRef state index hostAddr domid ref writable xen).1 = state := by
  simp only [gntmapMapGrantRef] at refused ⊢
  split
  · rename_i granted
    rw [if_pos granted] at refused
    exact absurd rfl refused
  · rfl

theorem Mirrored.mapLoop (mirrored : Mirrored state) (xen : Xen) (grants : Grants) {addr count left i : Nat}
    (positive : addr ≠ 0) (fits : addr + pageSize * count < 2 ^ 64) (rest : i + left = count)
    (unmapped : UnmappedFrom state.live addr i count) :
    Mirrored (mapLoop xen grants addr left i state).1 := by
  induction left generalizing i state with
  | zero => exact mirrored
  | succ left ih =>
    rw [Gntmap.mapLoop]
    split
    · exact mirrored.munmapLoop xen addr _ 0
    · rename_i index found
      have mapped := mirrored.mapPage (grants.domids (i * grants.domidsStride)) (grants.refs i)
        grants.writable (xen.map i) found positive fits (by omega) unmapped
      dsimp only
      split
      · exact mapped.munmapLoop xen addr _ 0
      · rename_i granted
        have okay := gntmapMapGrantRef_okay (not_not.mp granted)
        refine ih mapped (by omega) ?_
        rw [okay, pageAddress_eq fits (by omega)]
        exact unmapped.next

theorem gntmapSetMaxGrants_live (state : GntmapState) (count : Int) (memory : Bool) :
    (gntmapSetMaxGrants state count memory).1.live = state.live := by
  unfold gntmapSetMaxGrants
  split
  · rfl
  · split <;> rfl

theorem Mirrored.mapGrantRefs (mirrored : Mirrored state) {count addr : Nat} (grants : Grants)
    (memory : Bool) (xen : Xen) (unmapped : Unmapped state.live count addr) :
    Mirrored (gntmapMapGrantRefs state count grants addr memory xen).1 := by
  have ready := mirrored.setMaxGrants defaultMaxGrants memory
  unfold gntmapMapGrantRefs
  split
  · exact ready
  · rename_i positive
    obtain ⟨fits, apart⟩ := unmapped positive
    refine ready.mapLoop xen grants positive fits (Nat.zero_add count) ?_
    rw [gntmapSetMaxGrants_live]
    exact fun mapping held j _ inside => apart mapping held j inside

theorem Mirrored.step (mirrored : Mirrored state) {op : GntmapOp} {after : GntmapState}
    (move : gntmapStep state op = some after) : Mirrored after := by
  cases op with
  | setMaxGrants count memory =>
    cases Option.some.inj move
    exact mirrored.setMaxGrants count memory
  | mapGrantRefs count grants addr memory xen =>
    simp only [gntmapStep] at move
    split at move
    · rename_i unmapped
      cases Option.some.inj move
      exact mirrored.mapGrantRefs grants memory xen unmapped
    · contradiction
  | munmap start count xen =>
    cases Option.some.inj move
    exact mirrored.munmapLoop xen start _ 0
  | fini xen =>
    cases Option.some.inj move
    exact mirrored.fini xen

end Steps

/-! ## Every run -/

def GntmapMoves (state : GntmapState) (op : GntmapOp) (after : GntmapState) : Prop :=
  gntmapStep state op = some after

def FreshMap (state : GntmapState) : Prop := state = gntmapInit

theorem gntmapInit_fresh : FreshMap gntmapInit := rfl

theorem Mirrored.of_reach {state : GntmapState} (reached : Reach FreshMap GntmapMoves Always state) :
    Mirrored state := by
  apply reached.invariant Mirrored
  · rintro state rfl
    exact gntmapInit_mirrored
  · intro state op after mirrored _ move
    exact mirrored.step move

/-! Two hypervisors for examples: one grants what it is asked, one refuses. -/

def willing : Xen where
  map _ _ := ⟨0, 0, 5⟩
  unmap _ _ := ⟨0, 0, 0⟩

def unwilling : Xen where
  map _ _ := ⟨0, -1, 0⟩
  unmap _ _ := ⟨0, -1, 0⟩

def oneGrant : Grants where
  domids _ := 1
  domidsStride := 0
  refs _ := 8
  writable := 1

/-- What is live is in the array, with the exception of what a `gntmap_fini` dropped, and
that drops an entry only when its unmap is refused. -/
theorem used_entries_mirror_live {state : GntmapState} (reached : Reach FreshMap GntmapMoves Always state) :
    ((usedEntries state.entries).map GntmapEntry.hostAddr).Nodup ∧
      state.live.Perm (usedEntries state.entries ++ state.dropped) ∧
      (∀ call ∈ state.unmaps, call.hostAddr ≠ 0 → call.live = true) ∧
      ∀ xen : Xen, (∀ i, (xen.unmap i true).okay) → (gntmapFini state xen).dropped = state.dropped := by
  have mirrored := Mirrored.of_reach reached
  refine ⟨?_, mirrored.live, mirrored.unmaps, fun xen accepts => mirrored.fini_dropped accepts⟩
  have distinct := (mirrored.live.map GntmapEntry.hostAddr).nodup_iff.mp mirrored.distinct
  rw [List.map_append] at distinct
  exact distinct.sublist (List.sublist_append_left _ _)

theorem used_entries_mirror_live_of_one_grant : ∃ state, Reach FreshMap GntmapMoves Always state ∧
    state.live = [⟨0x100000000000, 5⟩] ∧
    (((usedEntries state.entries).map GntmapEntry.hostAddr).Nodup ∧
      state.live.Perm (usedEntries state.entries ++ state.dropped) ∧
      (∀ call ∈ state.unmaps, call.hostAddr ≠ 0 → call.live = true) ∧
      ∀ xen : Xen, (∀ i, (xen.unmap i true).okay) → (gntmapFini state xen).dropped = state.dropped) := by
  have run : (runLabels gntmapStep Always [.mapGrantRefs 1 oneGrant 0x100000000000 true willing]
      gntmapInit).any (fun state => decide (state.live = [⟨0x100000000000, 5⟩])) = true := by
    decide +kernel
  obtain ⟨state, reached, live⟩ := Reach.of_run_ends gntmapInit_fresh run
  exact ⟨state, reached, live, used_entries_mirror_live reached⟩

/-- The property with no exception. -/
def MirrorsLive (state : GntmapState) : Prop :=
  ((usedEntries state.entries).map GntmapEntry.hostAddr).Nodup ∧
    (∀ mapping, mapping ∈ usedEntries state.entries ↔ mapping ∈ state.live) ∧
    ∀ call ∈ state.unmaps, call.live = true

/-- `gntmap_fini` drops the entry of a mapping that the hypervisor keeps. -/
theorem fini_drops_live_mapping :
    ¬∀ state, Reach FreshMap GntmapMoves Always state → MirrorsLive state := by
  intro always
  have run : (runLabels gntmapStep Always
      [.mapGrantRefs 1 oneGrant 0x100000000000 true willing, .fini unwilling] gntmapInit).any
      (fun state => decide (⟨0x100000000000, 5⟩ ∈ state.live ∧ state.entries = [])) = true := by
    decide +kernel
  obtain ⟨state, reached, live, empty⟩ := Reach.of_run_ends gntmapInit_fresh run
  have used := ((always state reached).2.1 _).mpr live
  rw [empty] at used
  cases used

end Stardust.Gntmap
