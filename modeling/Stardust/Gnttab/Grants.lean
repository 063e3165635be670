import Stardust.Kernel
import Stardust.Lib.FreeList
import Stardust.Lib.Reach

/-! # Grant references

Calls on different references run at the same time, and the domain that a page is granted
to works on the flags through the hypervisor.  Each access to the shared table is a step;
the free list is under its lock. -/
set_option autoImplicit false
namespace Stardust.Gnttab

open Stardust.Lib

def nrReservedEntries : Nat := 8

/-- Four frames of entries of eight bytes. -/
def nrGrantEntries : Nat := 4 * 4096 / 8

def gtfPermitAccess : BitVec 16 := 1
def gtfAcceptTransfer : BitVec 16 := 2
def gtfTypeMask : BitVec 16 := 3
def gtfReadonly : BitVec 16 := 4
def gtfReading : BitVec 16 := 8
def gtfWriting : BitVec 16 := 16
def gtfTransferCommitted : BitVec 16 := 4
def gtfTransferCompleted : BitVec 16 := 8

structure GrantEntry where
  flags : BitVec 16
  domid : Nat
  frame : Nat
  deriving DecidableEq

/-! ## The free list -/

def putFreeEntry (list : Nat → Nat) (ref : Nat) : Nat → Nat :=
  let list := Function.update list ref (list 0)
  Function.update list 0 ref

def getFreeEntry (list : Nat → Nat) : Except Halt (Nat × (Nat → Nat)) :=
  let ref := list 0
  if ref < nrReservedEntries ∨ nrGrantEntries ≤ ref then .error .bug
  else .ok (ref, Function.update list 0 (list ref))

/-- The loop of `init_frames`, on an array of zeros. -/
def initFrames : Nat → Nat :=
  (List.range' nrReservedEntries (nrGrantEntries - nrReservedEntries)).foldl putFreeEntry fun _ => 0

/-! ## The calls -/

inductive GrantKind
  | access
  | transfer
  deriving DecidableEq

/-- What a grant call writes, in the order frame, domid, flags. -/
structure Grant where
  kind : GrantKind
  domid : Nat
  frame : Nat
  flags : BitVec 16
  deriving DecidableEq

def gnttabGrantAccess (domid frame : Nat) (readonly : Int) : Grant :=
  ⟨.access, domid, frame, gtfPermitAccess ||| BitVec.ofInt 16 readonly * gtfReadonly⟩

def gnttabGrantTransfer (domid pfn : Nat) : Grant := ⟨.transfer, domid, pfn, gtfAcceptTransfer⟩

/-- Where the call is that works with a reference. -/
inductive RefPhase
  /-- not for the free list -/
  | reserved
  | free
  /-- `get_free_entry` has returned it: before the write of `frame` -/
  | taken (grant : Grant)
  /-- before the write of `domid` -/
  | framed (grant : Grant)
  /-- before the write of `flags` -/
  | written (grant : Grant)
  | live (kind : GrantKind)
  /-- in the loop of `gnttab_end_access`, with what it read -/
  | endAccess (kind : GrantKind) (nflags : BitVec 16)
  /-- before a read of `flags` in the first loop of `gnttab_end_transfer` -/
  | endTransfer (kind : GrantKind)
  /-- before `synch_cmpxchg` in it -/
  | reclaim (kind : GrantKind) (flags : BitVec 16)
  /-- in the second loop -/
  | waits (kind : GrantKind) (flags : BitVec 16)
  /-- before the read of `frame` -/
  | completed (kind : GrantKind)
  /-- before `put_free_entry`, with the call's result -/
  | ended (kind : GrantKind) (result : Nat)
  deriving DecidableEq

structure Grants where
  table : Nat → GrantEntry
  list : Nat → Nat
  phase : Nat → RefPhase

inductive GrantOp
  /-- `get_free_entry` in `gnttab_grant_access` -/
  | grantAccess (domid frame : Nat) (readonly : Int)
  /-- `get_free_entry` in `gnttab_grant_transfer` -/
  | grantTransfer (domid pfn : Nat)
  /-- the first read of `gnttab_end_access` -/
  | endAccess (ref : Nat)
  /-- `gnttab_end_transfer` is called -/
  | endTransfer (ref : Nat)
  /-- the next access of the call that works with the reference -/
  | turn (ref : Nat)
  /-- the hypervisor writes to an entry -/
  | xen (ref : Nat) (flags : BitVec 16) (frame : Nat)
  deriving DecidableEq

def Grants.goTo (state : Grants) (ref : Nat) (phase : RefPhase) : Grants :=
  { state with phase := Function.update state.phase ref phase }

def Grants.write (state : Grants) (ref : Nat) (entry : GrantEntry) : Grants :=
  { state with table := Function.update state.table ref entry }

/-- `synch_cmpxchg(&gnttab_table[ref].flags, flags, 0)` and the two ways on. -/
def Grants.exchange (state : Grants) (ref : Nat) (flags : BitVec 16) (done again : RefPhase) : Grants :=
  if (state.table ref).flags = flags then
    (state.write ref { state.table ref with flags := 0 }).goTo ref done
  else state.goTo ref again

def turnStep (state : Grants) (ref : Nat) : RefPhase → Option Grants
  | .taken grant =>
    some ((state.write ref { state.table ref with frame := grant.frame % 2 ^ 32 }).goTo ref (.framed grant))
  | .framed grant =>
    some ((state.write ref { state.table ref with domid := grant.domid }).goTo ref (.written grant))
  | .written grant =>
    some ((state.write ref { state.table ref with flags := grant.flags }).goTo ref (.live grant.kind))
  | .endAccess kind nflags =>
    if nflags &&& (gtfReading ||| gtfWriting) ≠ 0 then some (state.goTo ref (.live kind))
    else some (state.exchange ref nflags (.ended kind 1) (.endAccess kind (state.table ref).flags))
  | .endTransfer kind =>
    let flags := (state.table ref).flags
    if flags &&& gtfTransferCommitted = 0 then some (state.goTo ref (.reclaim kind flags))
    else some (state.goTo ref (.waits kind flags))
  | .reclaim kind flags => some (state.exchange ref flags (.ended kind 0) (.endTransfer kind))
  | .waits kind flags =>
    if flags &&& gtfTransferCompleted = 0 then
      some (state.goTo ref (.waits kind (state.table ref).flags))
    else some (state.goTo ref (.completed kind))
  | .completed kind => some (state.goTo ref (.ended kind (state.table ref).frame))
  | .ended _ _ => some { state.goTo ref .free with list := putFreeEntry state.list ref }
  | .reserved | .free | .live _ => none

def Grants.take (state : Grants) (grant : Grant) : Option Grants :=
  (getFreeEntry state.list).toOption.map fun (ref, list) =>
    { state.goTo ref (.taken grant) with list := list }

def grantStep (state : Grants) : GrantOp → Option Grants
  | .grantAccess domid frame readonly => state.take (gnttabGrantAccess domid frame readonly)
  | .grantTransfer domid pfn => state.take (gnttabGrantTransfer domid pfn)
  | .endAccess ref =>
    match state.phase ref with
    | .live kind => some (state.goTo ref (.endAccess kind (state.table ref).flags))
    | _ => none
  | .endTransfer ref =>
    match state.phase ref with
    | .live kind => some (state.goTo ref (.endTransfer kind))
    | _ => none
  | .turn ref => turnStep state ref (state.phase ref)
  | .xen ref flags frame => some (state.write ref ⟨flags, (state.table ref).domid, frame % 2 ^ 32⟩)

abbrev GrantStep (before : Grants) (op : GrantOp) (after : Grants) : Prop :=
  grantStep before op = some after

/-- After `init_frames`. -/
structure FreshGrants (state : Grants) : Prop where
  list : state.list = initFrames
  phase : ∀ ref, state.phase ref =
    if nrReservedEntries ≤ ref ∧ ref < nrGrantEntries then .free else .reserved

structure FreeListed (state : Grants) : Prop where
  /-- from entry 0 to 0, and each reference that is not in use once -/
  list : ∃ refs, FreeList.Linked state.list 0 refs ∧ 0 ∉ refs ∧ refs.Nodup ∧
    ∀ ref, ref ∈ refs ↔ nrReservedEntries ≤ ref ∧ ref < nrGrantEntries ∧ state.phase ref = .free
  fetched : ∀ ref list, getFreeEntry state.list = .ok (ref, list) →
    nrReservedEntries ≤ ref ∧ ref < nrGrantEntries ∧ state.phase ref = .free
  /-- `BUG_ON` stops a grant when all are in use -/
  full : getFreeEntry state.list = .error .bug ↔
    ∀ ref, nrReservedEntries ≤ ref → ref < nrGrantEntries → state.phase ref ≠ .free

section Runs
variable {state after : Grants} {op : GrantOp} {ref : Nat}

/-! ## The invariant -/

structure Listed (state : Grants) (refs : List Nat) : Prop where
  holds : FreeList.Holds state.list refs
  free : ∀ ref, ref ∈ refs ↔ state.phase ref = .free
  range : ∀ ref, state.phase ref ≠ .reserved ↔ nrReservedEntries ≤ ref ∧ ref < nrGrantEntries

theorem Listed.start (fresh : FreshGrants state) : ∃ refs, Listed state refs := by
  let all := List.range' nrReservedEntries (nrGrantEntries - nrReservedEntries)
  have inside : ∀ ref, ref ∈ all ↔ nrReservedEntries ≤ ref ∧ ref < nrGrantEntries := by
    intro ref
    have order : nrReservedEntries ≤ nrGrantEntries := by decide
    rw [List.mem_range'_1]
    omega
  refine ⟨all.reverse ++ [], ?_, fun ref => ?_, fun ref => ?_⟩
  · rw [fresh.list]
    apply FreeList.Holds.pushes all (FreeList.Holds.empty rfl)
    · intro zero
      have low := ((inside 0).mp zero).1
      cases low
    · exact List.nodup_range'
    · nofun
  · rw [List.append_nil, List.mem_reverse, inside, fresh.phase]
    split <;> simp_all
  · rw [fresh.phase]
    split <;> simp_all

theorem Listed.correct {refs : List Nat} (inv : Listed state refs) : FreeListed state := by
  have range : ∀ ref, state.phase ref = .free → nrReservedEntries ≤ ref ∧ ref < nrGrantEntries := by
    intro ref free
    apply (inv.range ref).mp
    rw [free]
    simp
  have head : getFreeEntry state.list = .error .bug ↔ refs = [] := by
    rw [← inv.holds.head_eq_zero]
    unfold getFreeEntry
    dsimp only
    cases refs with
    | nil =>
      have zero : state.list 0 = 0 := inv.holds.linked
      simp [zero, nrReservedEntries]
    | cons ref rest =>
      have first : state.list 0 = ref := inv.holds.linked.1
      have bounds := range ref ((inv.free ref).mp List.mem_cons_self)
      rw [if_neg (by omega), first]
      constructor
      · nofun
      · intro zero
        exact absurd (zero ▸ List.mem_cons_self) inv.holds.nonzero
  refine ⟨⟨refs, inv.holds.linked, inv.holds.nonzero, inv.holds.nodup, fun ref => ?_⟩, ?_, ?_⟩
  · rw [inv.free]
    constructor
    · exact fun free => ⟨(range ref free).1, (range ref free).2, free⟩
    · exact fun all => all.2.2
  · intro ref list run
    cases refs with
    | nil =>
      rw [head.mpr rfl] at run
      cases run
    | cons first rest =>
      unfold getFreeEntry at run
      dsimp only at run
      split at run
      · cases run
      · cases run
        have free := (inv.free first).mp List.mem_cons_self
        rw [show state.list 0 = first from inv.holds.linked.1]
        exact ⟨(range first free).1, (range first free).2, free⟩
  · rw [head]
    constructor
    · intro none ref _ _ free
      have member := (inv.free ref).mpr free
      rw [none] at member
      cases member
    · intro none
      apply List.eq_nil_iff_forall_not_mem.mpr
      intro ref member
      have free := (inv.free ref).mp member
      exact none ref (range ref free).1 (range ref free).2 free

/-- A reference that stays in use. -/
theorem Listed.goTo {refs : List Nat} (inv : Listed state refs) {phase : RefPhase}
    (usedBefore : state.phase ref ≠ .free ∧ state.phase ref ≠ .reserved)
    (used : phase ≠ .free ∧ phase ≠ .reserved) : Listed (state.goTo ref phase) refs := by
  refine ⟨inv.holds, fun other => ?_, fun other => ?_⟩
  · rw [inv.free]
    by_cases same : other = ref
    · simp [Grants.goTo, same, usedBefore, used]
    · simp [Grants.goTo, same]
  · rw [← inv.range]
    by_cases same : other = ref
    · simp [Grants.goTo, same, usedBefore, used]
    · simp [Grants.goTo, same]

theorem Listed.write {refs : List Nat} (inv : Listed state refs) {entry : GrantEntry} :
    Listed (state.write ref entry) refs := ⟨inv.holds, inv.free, inv.range⟩

theorem Listed.exchange {refs : List Nat} (inv : Listed state refs) {flags : BitVec 16}
    {done again : RefPhase} (usedBefore : state.phase ref ≠ .free ∧ state.phase ref ≠ .reserved)
    (finished : done ≠ .free ∧ done ≠ .reserved) (repeats : again ≠ .free ∧ again ≠ .reserved) :
    Listed (state.exchange ref flags done again) refs := by
  unfold Grants.exchange
  split
  · have written : Listed (state.write ref { state.table ref with flags := 0 }) refs := inv.write
    exact written.goTo usedBefore finished
  · exact inv.goTo usedBefore repeats

theorem Listed.take {refs : List Nat} (inv : Listed state refs) {grant : Grant}
    (move : state.take grant = some after) : ∃ rest, Listed after rest := by
  obtain ⟨⟨ref, list⟩, run, rfl⟩ := Halt.map_toOption_eq_some.mp move
  have fetched := inv.correct.fetched ref list run
  unfold getFreeEntry at run
  dsimp only at run
  split at run
  · cases run
  · cases run
    cases refs with
    | nil =>
      have zero : state.list 0 = 0 := inv.holds.linked
      rw [zero] at fetched
      cases fetched.1
    | cons first rest =>
      obtain ⟨head, holds⟩ := inv.holds.pop
      have once := List.nodup_cons.mp inv.holds.nodup
      refine ⟨rest, holds, fun other => ?_, fun other => ?_⟩
      · have free := inv.free other
        rw [List.mem_cons] at free
        by_cases same : other = first
        · simp [Grants.goTo, same, head, once.1]
        · simpa [Grants.goTo, same, head] using free
      · have range := inv.range other
        have used := inv.range first
        by_cases same : other = first
        · rw [head] at fetched
          simp [Grants.goTo, same, head, fetched.1, fetched.2.1]
        · simpa [Grants.goTo, same, head] using range

theorem Listed.put {refs : List Nat} (inv : Listed state refs)
    (used : state.phase ref ≠ .free ∧ state.phase ref ≠ .reserved) :
    Listed { state.goTo ref .free with list := putFreeEntry state.list ref } (ref :: refs) := by
  have bounds := (inv.range ref).mp used.2
  have positive : ref ≠ 0 := by
    have reserved : 0 < nrReservedEntries := by decide
    omega
  refine ⟨inv.holds.push positive fun member => used.1 ((inv.free ref).mp member),
    fun other => ?_, fun other => ?_⟩
  · rw [List.mem_cons]
    by_cases same : other = ref
    · simp [Grants.goTo, same]
    · simp [Grants.goTo, same, inv.free]
  · rw [← inv.range]
    by_cases same : other = ref
    · simp [Grants.goTo, same, used]
    · simp [Grants.goTo, same]

theorem Listed.turn {refs : List Nat} (inv : Listed state refs) {phase : RefPhase}
    (now : state.phase ref = phase) (move : turnStep state ref phase = some after) :
    ∃ rest, Listed after rest := by
  have used : phase ≠ .free ∧ phase ≠ .reserved → state.phase ref ≠ .free ∧ state.phase ref ≠ .reserved :=
    fun both => now ▸ both
  cases phase with
  | reserved => cases move
  | free => cases move
  | live kind => cases move
  | taken grant =>
    cases Option.some.inj move
    exact ⟨refs, inv.write.goTo (used (by simp)) (by simp)⟩
  | framed grant =>
    cases Option.some.inj move
    exact ⟨refs, inv.write.goTo (used (by simp)) (by simp)⟩
  | written grant =>
    cases Option.some.inj move
    exact ⟨refs, inv.write.goTo (used (by simp)) (by simp)⟩
  | endAccess kind nflags =>
    simp only [turnStep] at move
    split at move
    · cases Option.some.inj move
      exact ⟨refs, inv.goTo (used (by simp)) (by simp)⟩
    · cases Option.some.inj move
      exact ⟨refs, inv.exchange (used (by simp)) (by simp) (by simp)⟩
  | endTransfer kind =>
    simp only [turnStep] at move
    split at move
    · cases Option.some.inj move
      exact ⟨refs, inv.goTo (used (by simp)) (by simp)⟩
    · cases Option.some.inj move
      exact ⟨refs, inv.goTo (used (by simp)) (by simp)⟩
  | reclaim kind flags =>
    cases Option.some.inj move
    exact ⟨refs, inv.exchange (used (by simp)) (by simp) (by simp)⟩
  | waits kind flags =>
    simp only [turnStep] at move
    split at move
    · cases Option.some.inj move
      exact ⟨refs, inv.goTo (used (by simp)) (by simp)⟩
    · cases Option.some.inj move
      exact ⟨refs, inv.goTo (used (by simp)) (by simp)⟩
  | completed kind =>
    cases Option.some.inj move
    exact ⟨refs, inv.goTo (used (by simp)) (by simp)⟩
  | ended kind result =>
    cases Option.some.inj move
    exact ⟨ref :: refs, inv.put (used (by simp))⟩

theorem Listed.step {refs : List Nat} (inv : Listed state refs) (move : grantStep state op = some after) :
    ∃ rest, Listed after rest := by
  cases op with
  | grantAccess domid frame readonly => exact inv.take move
  | grantTransfer domid pfn => exact inv.take move
  | endAccess ref =>
    simp only [grantStep] at move
    split at move
    · rename_i kind live
      cases Option.some.inj move
      exact ⟨refs, inv.goTo (by simp [live]) (by simp)⟩
    · cases move
  | endTransfer ref =>
    simp only [grantStep] at move
    split at move
    · rename_i kind live
      cases Option.some.inj move
      exact ⟨refs, inv.goTo (by simp [live]) (by simp)⟩
    · cases move
  | turn ref => exact inv.turn rfl move
  | xen ref flags frame =>
    cases Option.some.inj move
    exact ⟨refs, inv.write⟩

/-- In every run the free list holds exactly the references that are not in use. -/
theorem free_refs_listed (reached : Reach FreshGrants GrantStep Always state) : FreeListed state := by
  have inv : ∃ refs, Listed state refs := by
    apply Reach.invariant (fun state => ∃ refs, Listed state refs) _ _ reached
    · exact fun _ fresh => Listed.start fresh
    · intro before op after inv _ move
      obtain ⟨refs, inv⟩ := inv
      exact inv.step move
  obtain ⟨refs, inv⟩ := inv
  exact inv.correct

end Runs

/-! ## A run -/

def newGrants : Grants :=
  { table := fun _ => ⟨0, 0, 0⟩
    list := initFrames
    phase := fun ref =>
      if nrReservedEntries ≤ ref ∧ ref < nrGrantEntries then .free else .reserved }

theorem newGrants_fresh : FreshGrants newGrants := by
  constructor
  · rw [newGrants]
  · intro ref
    rw [newGrants]

/-- A page is mapped when its end is first tried. -/
theorem free_refs_listed_mapped :
    ∃ state, Reach FreshGrants GrantStep Always state ∧ FreeListed state ∧ state.list 0 = 2047 := by
  have run : (runLabels grantStep Always
      [.grantAccess 0 77 0, .turn 2047, .turn 2047, .turn 2047, .xen 2047 9 77, .endAccess 2047,
        .turn 2047, .grantTransfer 3 5, .xen 2047 1 77, .endAccess 2047, .turn 2047, .turn 2047]
      newGrants).any (fun state => decide (state.list 0 = 2047)) = true := by
    decide +kernel
  obtain ⟨state, reached, head⟩ := Reach.of_run_ends newGrants_fresh run
  exact ⟨state, reached, free_refs_listed reached, head⟩

end Stardust.Gnttab
