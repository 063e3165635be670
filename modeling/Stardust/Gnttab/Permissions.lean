import Stardust.Gnttab.Grants

/-! # What a free reference permits

A reference comes back to the free list with flags 0, or with those of a completed
transfer, and keeps them until it is granted again: neither permits anything. -/
set_option autoImplicit false
namespace Stardust.Gnttab

open Stardust.Lib

/-- What the hypervisor may do with the flags of a valid entry: map and unmap a page, and
commit and complete a transfer. -/
def XenMay (flags after : BitVec 16) : Prop :=
  flags &&& gtfTypeMask = gtfPermitAccess ∧
      after &&& ~~~(gtfReading ||| gtfWriting) = flags &&& ~~~(gtfReading ||| gtfWriting) ∨
    flags &&& gtfTypeMask = gtfAcceptTransfer ∧
      (after = flags ||| gtfTransferCommitted ∨
        flags &&& gtfTransferCommitted ≠ 0 ∧ after = flags ||| gtfTransferCompleted)

instance (flags after : BitVec 16) : Decidable (XenMay flags after) := by
  unfold XenMay
  infer_instance

/-- Some domain may access or transfer a page: a transfer is not possible any more when
one is committed. -/
def InForce (flags : BitVec 16) : Prop :=
  flags &&& gtfTypeMask ≠ 0 ∧
    ¬(flags &&& gtfTypeMask = gtfAcceptTransfer ∧ flags &&& gtfTransferCommitted ≠ 0)

instance (flags : BitVec 16) : Decidable (InForce flags) := by
  unfold InForce
  infer_instance

/-- The flags that a completed transfer leaves. -/
def transferDone : BitVec 16 := gtfAcceptTransfer ||| gtfTransferCommitted ||| gtfTransferCompleted

/-- The hypervisor keeps to the protocol. -/
def XenKeeps (state : Grants) : GrantOp → Prop
  | .xen ref flags _ => XenMay (state.table ref).flags flags
  | _ => True

/-- So does the caller: each grant is ended by the call of its kind. -/
def Protocol (state : Grants) (op : GrantOp) : Prop :=
  XenKeeps state op ∧
    match op with
    | .endAccess ref => state.phase ref = .live .access
    | .endTransfer ref => state.phase ref = .live .transfer
    | _ => True

instance (state : Grants) (op : GrantOp) : Decidable (XenKeeps state op) := by
  cases op <;> unfold XenKeeps <;> infer_instance

instance (state : Grants) (op : GrantOp) : Decidable (Protocol state op) := by
  unfold Protocol
  cases op <;> infer_instance

/-- After `init_frames`, with a table of zeros. -/
structure FreshTable (state : Grants) : Prop where
  grants : FreshGrants state
  flags : ∀ ref, state.phase ref = .free → (state.table ref).flags = 0

/-- From `put_free_entry` to the write of `flags` in the next grant. -/
def RefPhase.unpublished (phase : RefPhase) : Bool :=
  match phase with
  | .free | .taken _ | .framed _ | .written _ => true
  | _ => false

structure PermitsNothing (state : Grants) (ref : Nat) : Prop where
  flags : (state.table ref).flags = 0 ∨ (state.table ref).flags = transferDone
  quiet : ¬InForce (state.table ref).flags

/-! ## The invariant -/

/-- The flags of a grant that is in use. -/
def OfKind (kind : GrantKind) (flags : BitVec 16) : Prop :=
  match kind with
  | .access => flags &&& gtfTypeMask = gtfPermitAccess
  | .transfer =>
    flags = gtfAcceptTransfer ∨ flags = gtfAcceptTransfer ||| gtfTransferCommitted ∨ flags = transferDone

def Unused (flags : BitVec 16) : Prop := flags = 0 ∨ flags = transferDone

/-- What a phase says of the flags. -/
def FlagsAt (phase : RefPhase) (flags : BitVec 16) : Prop :=
  match phase with
  | .reserved => True
  | .free => Unused flags
  | .taken grant | .framed grant | .written grant => Unused flags ∧ OfKind grant.kind grant.flags
  | .live kind => OfKind kind flags
  | .endAccess kind _ => kind = .access ∧ OfKind kind flags
  | .endTransfer kind | .reclaim kind _ => kind = .transfer ∧ OfKind kind flags
  | .waits kind seen =>
    kind = .transfer ∧ OfKind kind flags ∧ (seen &&& gtfTransferCompleted ≠ 0 → flags = transferDone)
  | .completed kind => kind = .transfer ∧ flags = transferDone
  | .ended _ _ => Unused flags

def Kept (state : Grants) : Prop := ∀ ref, FlagsAt (state.phase ref) (state.table ref).flags

section Runs
variable {state after : Grants} {op : GrantOp} {ref : Nat} {flags now : BitVec 16} {kind : GrantKind}

theorem Unused.quiet (unused : Unused flags) : ¬InForce flags := by
  rcases unused with rfl | rfl
  · decide
  · decide

theorem Unused.xen (unused : Unused flags) (may : XenMay flags now) : Unused now := by
  rcases unused with rfl | rfl
  · rcases may with ⟨type, _⟩ | ⟨type, _⟩
    · cases type
    · cases type
  · right
    rcases may with ⟨type, _⟩ | ⟨_, rfl | ⟨_, rfl⟩⟩
    · cases type
    · rfl
    · rfl

/-- A completed transfer stays one. -/
theorem xen_transferDone (may : XenMay transferDone now) : now = transferDone := by
  rcases may with ⟨type, _⟩ | ⟨_, rfl | ⟨_, rfl⟩⟩
  · cases type
  · rfl
  · rfl

theorem OfKind.done (valid : OfKind .transfer flags) (completed : flags &&& gtfTransferCompleted ≠ 0) :
    flags = transferDone := by
  rcases valid with rfl | rfl | same
  · exact absurd rfl completed
  · exact absurd rfl completed
  · exact same

theorem OfKind.xen (valid : OfKind kind flags) (may : XenMay flags now) : OfKind kind now := by
  cases kind with
  | access =>
    rcases may with ⟨_, same⟩ | ⟨transfer, _⟩
    · -- the bits of the type are among those that stay
      have part : ∀ bits : BitVec 16,
          bits &&& gtfTypeMask = bits &&& ~~~(gtfReading ||| gtfWriting) &&& gtfTypeMask := by
        intro bits
        rw [BitVec.and_assoc]
        rfl
      change now &&& gtfTypeMask = gtfPermitAccess
      rw [part, same, ← part]
      exact valid
    · cases valid.symm.trans transfer
  | transfer =>
    rcases valid with rfl | rfl | rfl
    · rcases may with ⟨type, _⟩ | ⟨_, rfl | ⟨committed, _⟩⟩
      · cases type
      · exact Or.inr (Or.inl rfl)
      · exact absurd rfl committed
    · rcases may with ⟨type, _⟩ | ⟨_, rfl | ⟨_, rfl⟩⟩
      · cases type
      · exact Or.inr (Or.inl rfl)
      · exact Or.inr (Or.inr rfl)
    · exact Or.inr (Or.inr (xen_transferDone may))

theorem FlagsAt.xen {phase : RefPhase} (valid : FlagsAt phase flags) (may : XenMay flags now) :
    FlagsAt phase now := by
  cases phase with
  | reserved => trivial
  | free => exact Unused.xen valid may
  | taken grant => exact ⟨valid.1.xen may, valid.2⟩
  | framed grant => exact ⟨valid.1.xen may, valid.2⟩
  | written grant => exact ⟨valid.1.xen may, valid.2⟩
  | live kind => exact OfKind.xen valid may
  | endAccess kind nflags => exact ⟨valid.1, valid.2.xen may⟩
  | endTransfer kind => exact ⟨valid.1, valid.2.xen may⟩
  | reclaim kind seen => exact ⟨valid.1, valid.2.xen may⟩
  | waits kind seen =>
    refine ⟨valid.1, valid.2.1.xen may, fun completed => ?_⟩
    rw [valid.2.2 completed] at may
    exact xen_transferDone may
  | completed kind =>
    refine ⟨valid.1, ?_⟩
    rw [valid.2] at may
    exact xen_transferDone may
  | ended kind result => exact Unused.xen valid may

theorem grantAccess_ofKind (domid frame : Nat) (readonly : Int) :
    OfKind .access (gnttabGrantAccess domid frame readonly).flags := by
  change (gtfPermitAccess ||| BitVec.ofInt 16 readonly * gtfReadonly) &&& gtfTypeMask = gtfPermitAccess
  -- a multiple of four has no bit of the type
  have clear : BitVec.ofInt 16 readonly * gtfReadonly &&& gtfTypeMask = 0 := by
    apply BitVec.eq_of_toNat_eq
    rw [BitVec.toNat_and, BitVec.toNat_mul]
    change (_ * 4 % 2 ^ 16) &&& (2 ^ 2 - 1) = 0
    rw [Nat.and_two_pow_sub_one_eq_mod]
    omega
  rw [BitVec.and_comm, BitVec.and_or_distrib_left, BitVec.and_comm _ (_ * _), clear]
  rfl

/-! ## One step -/

theorem Kept.set (inv : Kept state) {phase : RefPhase} {entry : GrantEntry}
    (valid : FlagsAt phase entry.flags) : Kept ((state.write ref entry).goTo ref phase) := by
  intro other
  simp only [Grants.goTo, Grants.write, Function.update_apply]
  by_cases same : other = ref
  · rw [if_pos same, if_pos same]
    exact valid
  · rw [if_neg same, if_neg same]
    exact inv other

theorem Kept.goTo (inv : Kept state) {phase : RefPhase} (valid : FlagsAt phase (state.table ref).flags) :
    Kept (state.goTo ref phase) := by
  intro other
  simp only [Grants.goTo, Function.update_apply]
  by_cases same : other = ref
  · rw [if_pos same, same]
    exact valid
  · rw [if_neg same]
    exact inv other

theorem Kept.exchange (inv : Kept state) {done again : RefPhase} (finished : FlagsAt done 0)
    (repeats : FlagsAt again (state.table ref).flags) : Kept (state.exchange ref flags done again) := by
  unfold Grants.exchange
  split
  · exact inv.set finished
  · exact inv.goTo repeats

theorem Kept.turn (inv : Kept state) {phase : RefPhase} (now : state.phase ref = phase)
    (move : turnStep state ref phase = some after) : Kept after := by
  have valid := inv ref
  rw [now] at valid
  cases phase with
  | reserved => cases move
  | free => cases move
  | live kind => cases move
  | taken grant =>
    cases Option.some.inj move
    exact inv.set valid
  | framed grant =>
    cases Option.some.inj move
    exact inv.set valid
  | written grant =>
    cases Option.some.inj move
    exact inv.set valid.2
  | endAccess kind nflags =>
    simp only [turnStep] at move
    split at move
    · cases Option.some.inj move
      exact inv.goTo valid.2
    · cases Option.some.inj move
      exact inv.exchange (Or.inl rfl) valid
  | endTransfer kind =>
    simp only [turnStep] at move
    split at move
    · cases Option.some.inj move
      exact inv.goTo valid
    · cases Option.some.inj move
      apply inv.goTo
      obtain ⟨rfl, ofKind⟩ := valid
      exact ⟨rfl, ofKind, ofKind.done⟩
  | reclaim kind flags =>
    cases Option.some.inj move
    exact inv.exchange (Or.inl rfl) valid
  | waits kind flags =>
    simp only [turnStep] at move
    split at move
    · cases Option.some.inj move
      apply inv.goTo
      obtain ⟨rfl, ofKind, _⟩ := valid
      exact ⟨rfl, ofKind, ofKind.done⟩
    · rename_i completed
      cases Option.some.inj move
      exact inv.goTo ⟨valid.1, valid.2.2 completed⟩
  | completed kind =>
    cases Option.some.inj move
    exact inv.goTo (Or.inr valid.2)
  | ended kind result =>
    cases Option.some.inj move
    have freed : Kept (state.goTo ref .free) := inv.goTo valid
    exact freed

theorem Kept.take (inv : Kept state) {refs : List Nat} (listed : Listed state refs) {grant : Grant}
    (valid : OfKind grant.kind grant.flags) (move : state.take grant = some after) : Kept after := by
  obtain ⟨⟨ref, list⟩, run, rfl⟩ := Halt.map_toOption_eq_some.mp move
  have free := (listed.correct.fetched ref list run).2.2
  have unused := inv ref
  rw [free] at unused
  have taken : Kept (state.goTo ref (.taken grant)) := inv.goTo ⟨unused, valid⟩
  exact taken

theorem Kept.step (inv : Kept state) {refs : List Nat} (listed : Listed state refs)
    (allowed : Protocol state op) (move : grantStep state op = some after) : Kept after := by
  cases op with
  | grantAccess domid frame readonly => exact inv.take listed (grantAccess_ofKind domid frame readonly) move
  | grantTransfer domid pfn =>
    have valid : OfKind .transfer (gnttabGrantTransfer domid pfn).flags := Or.inl rfl
    exact inv.take listed valid move
  | endAccess ref =>
    have live : state.phase ref = .live .access := allowed.2
    have valid := inv ref
    rw [live] at valid
    simp only [grantStep, live] at move
    cases Option.some.inj move
    exact inv.goTo ⟨rfl, valid⟩
  | endTransfer ref =>
    have live : state.phase ref = .live .transfer := allowed.2
    have valid := inv ref
    rw [live] at valid
    simp only [grantStep, live] at move
    cases Option.some.inj move
    exact inv.goTo ⟨rfl, valid⟩
  | turn ref => exact inv.turn rfl move
  | xen ref flags frame =>
    cases Option.some.inj move
    intro other
    simp only [Grants.write, Function.update_apply]
    split
    · rename_i same
      rw [same]
      exact (inv ref).xen allowed.1
    · exact inv other

theorem Kept.start (fresh : FreshTable state) : Kept state := by
  intro ref
  have phase := fresh.grants.phase ref
  split at phase
  · rw [phase]
    exact Or.inl (fresh.flags ref phase)
  · rw [phase]
    trivial

theorem Kept.permitsNothing (inv : Kept state) (unpublished : (state.phase ref).unpublished = true) :
    PermitsNothing state ref := by
  have unused : Unused (state.table ref).flags := by
    have valid := inv ref
    cases phase : state.phase ref with
    | free =>
      rw [phase] at valid
      exact valid
    | taken grant =>
      rw [phase] at valid
      exact valid.1
    | framed grant =>
      rw [phase] at valid
      exact valid.1
    | written grant =>
      rw [phase] at valid
      exact valid.1
    | _ =>
      rw [phase] at unpublished
      cases unpublished
  exact ⟨unused, unused.quiet⟩

/-- In a run that keeps to the protocol a reference permits nothing from its return to the
free list to the last write of the grant that uses it again. -/
theorem free_refs_permit_nothing (reached : Reach FreshTable GrantStep Protocol state) :
    FreeListed state ∧ ∀ ref, (state.phase ref).unpublished = true → PermitsNothing state ref := by
  have inv : (∃ refs, Listed state refs) ∧ Kept state := by
    apply Reach.invariant (fun state => (∃ refs, Listed state refs) ∧ Kept state) _ _ reached
    · exact fun _ fresh => ⟨Listed.start fresh.grants, Kept.start fresh⟩
    · intro before op after inv allowed move
      obtain ⟨⟨refs, listed⟩, kept⟩ := inv
      exact ⟨listed.step move, kept.step listed allowed move⟩
  obtain ⟨⟨refs, listed⟩, kept⟩ := inv
  exact ⟨listed.correct, fun ref unpublished => kept.permitsNothing unpublished⟩

end Runs

/-! ## A completed transfer, and an end of the wrong kind -/

theorem newGrants_freshTable : FreshTable newGrants := by
  refine ⟨newGrants_fresh, fun ref _ => ?_⟩
  rw [newGrants]

/-- Reference 2047 takes a page from another domain. -/
def transferScript : List GrantOp :=
  [.grantTransfer 3 5, .turn 2047, .turn 2047, .turn 2047, .endTransfer 2047, .xen 2047 6 5,
    .xen 2047 14 88, .turn 2047, .turn 2047, .turn 2047, .turn 2047]

/-- Reference 2047 is granted again, for a page. -/
theorem free_refs_permit_nothing_reused :
    ∃ state, Reach FreshTable GrantStep Protocol state ∧ PermitsNothing state 2047 ∧
      (state.table 2047).frame = 77 := by
  have run : (runLabels grantStep Protocol
      (transferScript ++ [.grantAccess 0 77 1, .turn 2047, .turn 2047]) newGrants).any (fun state =>
        decide ((state.phase 2047).unpublished = true ∧ (state.table 2047).frame = 77)) = true := by
    decide +kernel
  obtain ⟨state, reached, unpublished, frame⟩ := Reach.of_run_ends newGrants_freshTable run
  exact ⟨state, reached, (free_refs_permit_nothing reached).2 2047 unpublished, frame⟩

/-- A completed transfer leaves its flags on the free reference; `gnttab_end_transfer` of a
page that is mapped for reading leaves the permission. -/
theorem free_ref_keeps_flags :
    (∃ state, Reach FreshTable GrantStep Protocol state ∧ state.phase 2047 = .free ∧
      (state.table 2047).flags ≠ 0) ∧
    ∃ state, Reach FreshTable GrantStep XenKeeps state ∧ state.phase 2047 = .free ∧
      InForce (state.table 2047).flags := by
  have transferred : (runLabels grantStep Protocol transferScript newGrants).any (fun state =>
      decide (state.phase 2047 = .free ∧ (state.table 2047).flags ≠ 0)) = true := by
    decide +kernel
  have mapped : (runLabels grantStep XenKeeps
      [.grantAccess 0 77 1, .turn 2047, .turn 2047, .turn 2047, .xen 2047 13 77, .endTransfer 2047,
        .turn 2047, .turn 2047, .turn 2047, .turn 2047] newGrants).any (fun state =>
      decide (state.phase 2047 = .free ∧ InForce (state.table 2047).flags)) = true := by
    decide +kernel
  constructor
  · exact Reach.of_run_ends newGrants_freshTable transferred
  · exact Reach.of_run_ends newGrants_freshTable mapped

end Stardust.Gnttab
