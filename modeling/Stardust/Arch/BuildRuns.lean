import Stardust.Arch.MappedRange

/-! # Runs of `build_pagetable`

The frames with the queued entries counted as written go from one state of the range to the
next with every turn. -/
set_option autoImplicit false
namespace Stardust.Arch

open Stardust.Mm Stardust.Lib

/-- The frames once the queue is submitted. -/
def Build.effective (b : Build) : Frames := mmuUpdate b.frames b.updates

namespace BuildCall
variable {call : BuildCall} {done used : Nat} {frames : Frames}

/-- A queued entry is for a page that is done. -/
structure Building (call : BuildCall) (done : Nat) (b : Build) : Prop where
  built : call.Built done b.npfs b.effective
  queued : ∀ update ∈ b.updates, ∃ j < done, update.index = l1TableOffset (call.page j) ∧
    Named call.domain b.effective (call.page j) update.frame
  pfns : b.pfns = done
  startAddress : b.startAddress = call.page done
  count : b.updates.length < 512

theorem Supplies.mono {more : Nat} (supplies : call.Supplies more) (fewer : used ≤ more) : call.Supplies used :=
  ⟨fun c less => supplies.natural c (Nat.lt_of_lt_of_le less fewer),
    fun c less => supplies.supplied c (Nat.lt_of_lt_of_le less fewer),
    fun c d less small => supplies.distinct c d (Nat.lt_of_lt_of_le less fewer) (Nat.lt_of_lt_of_le small fewer)⟩

/-- A name stays while tables and present entries do. -/
theorem named_grow {other : Frames} {va t : Nat} (named : Named call.domain frames va t)
    (tables : ∀ p t, p.length ≤ 2 → table call.domain frames p = some t → table call.domain other p = some t)
    (entries : ∀ p t i, p.length ≤ 2 → table call.domain frames p = some t → isPresent (frames t i) = true →
      other t i = frames t i) : Named call.domain other va t := by
  obtain ⟨parent, found, present, frame⟩ := named
  have same := entries _ _ _ (path2_short va) found present
  refine ⟨parent, tables _ _ (path2_short va) found, ?_, ?_⟩
  · rw [same]
    exact present
  · rw [same]
    exact frame

section Queue
variable {b : Build}

/-- The code reads the upper tables as they are. -/
theorem Building.sameAbove (building : call.Building done b) : SameAbove call.domain b.effective b.frames := by
  intro p t short found
  funext j
  refine (mmuUpdate_other fun update queued => ?_).symm
  obtain ⟨_, _, _, named⟩ := building.queued update queued
  left
  rintro rfl
  exact named.notAbove building.built.four p short found

theorem Building.clear_upper (building : call.Building done b) {p : List Nat} {t : Nat} (short : p.length ≤ 2)
    (found : table call.domain b.effective p = some t) (i : Nat) : Clear b.updates t i := by
  intro update queued
  obtain ⟨_, _, _, named⟩ := building.queued update queued
  left
  rintro rfl
  exact named.notAbove building.built.four p short found

/-- No entry outside the range is queued. -/
theorem Building.clear_outside (ready : call.Ready) (building : call.Building done b) (few : done ≤ call.pages)
    {va t : Nat} (canonical : Canonical va) (outside : ¬ call.Inside va)
    (found : table call.domain b.effective (path1 va) = some t) : Clear b.updates t (l1TableOffset va) := by
  intro update queued
  obtain ⟨j, less, index, named⟩ := building.queued update queued
  have inside := page_inside ready (Nat.lt_of_lt_of_le less few)
  rw [index]
  refine (named.apart building.built.four (ready.canonical _ inside) canonical found ?_).imp Ne.symm Ne.symm
  intro same
  exact outside ((inside_congr ready same).mpr inside)

/-- Nor is one in the next frame for a table. -/
theorem Building.clear_unused (building : call.Building done b) (supplies : call.Supplies (b.npfs + 1)) :
    ∀ update ∈ b.updates, update.frame ≠ (call.source.npf b.npfs).toNat := by
  intro update queued same
  obtain ⟨j, less, index, named⟩ := building.queued update queued
  rw [same] at named
  rcases named.cases with found | ⟨entry, ⟨parent, found, rfl, present, pse⟩, frame⟩
  · exact building.built.unused supplies (Nat.le_refl _) (path1_short _) found
  · obtain ⟨before, word⟩ := building.built.superpages _ _ _ rfl found (l2TableOffset_lt _) present pse
    rw [← word] at present pse frame
    have supplied := supplies.supplied b.npfs (Nat.lt_succ_self _)
    exact supplied.noData _ _ _ rfl before (l2TableOffset_lt _) present pse frame

end Queue

/-! ## A new table -/

theorem and_pageMask {entry : Nat} (low : entry < 2 ^ 52) : entry &&& pageMask = pteToMfn entry * 4096 := by
  have mask : pageMask = ulongNot (2 ^ 12 - 1) := by decide
  rw [mask, and_ulongNot (by omega) (by decide), pteToMfn_eq]
  omega

/-- The kernel's own walk to an entry of level 2. -/
theorem space_entry {domain : Domain} {now : Frames} {va t : Nat} (based : domain.Based)
    (four : FourLevel domain frames) (same : SameAbove domain frames now)
    (found : table domain frames (path2 va) = some t) :
    let space := domain.space now
    let tab := space.mfnToVirt (pteToMfn (space.entry domain.ptBase (l4TableOffset va)))
    let tab := space.mfnToVirt (pteToMfn (space.entry tab (l3TableOffset va)))
    space.entry tab (l2TableOffset va) = frames t (l2TableOffset va) := by
  intro space
  have three := Nat.le_succ_of_le (path3_short va)
  obtain ⟨t3, first, second⟩ := table_concat.mp ((path2_eq _).symm ▸ found)
  obtain ⟨_, root, entry⟩ := table_concat.mp ((path3_eq _).symm ▸ first)
  cases Option.some.inj root
  have l4 : pteToMfn (space.entry domain.ptBase (l4TableOffset va)) = t3 := by
    rw [based.entry_root (l4TableOffset_lt _), same [] _ (Nat.zero_le 2) root]
    exact (child_eq_some.mp entry).2
  have l3 : pteToMfn (space.entry (space.mfnToVirt t3) (l3TableOffset va)) = t := by
    rw [(four.reads _ t3 three first).entry (l3TableOffset_lt _), same _ t3 three first]
    exact (child_eq_some.mp second).2
  simp only [l4, l3]
  rw [(four.reads _ t (path2_short _) found).entry (l2TableOffset_lt _), same _ t (path2_short _) found]

/-- An update at the address of an entry. -/
theorem mmuUpdate_place {mfn index val : Nat} (inside : index < 512) (frames : Frames) :
    mmuUpdate frames [⟨mfn * 4096 + 8 * index, val⟩] = writeWord frames mfn index val := by
  obtain ⟨target, slot⟩ := @update_place mfn index val inside
  rw [mmuUpdate_cons, target, slot]
  rfl

/-- What `new_pt_frame` writes, while the page of the frame is mapped. -/
theorem newPtFrame_eq (based : call.domain.Based) {f t2 t1 prevLMfn offset : Nat} {level : FrameLevel}
    (four : FourLevel call.domain frames) (reads : call.domain.Reads f)
    (unused : ∀ p : List Nat, p.length ≤ 3 → table call.domain frames p ≠ some f)
    {now : Frames} (same : SameAbove call.domain frames now)
    (found : table call.domain frames (path2 (call.ownPage f)) = some t2)
    (low : frames t2 (l2TableOffset (call.ownPage f)) < 2 ^ 52)
    (below : table call.domain frames (path1 (call.ownPage f)) = some t1) (mfn : prevLMfn < 2 ^ 40)
    (inside : offset < 512) :
    newPtFrame call.domain now f prevLMfn offset level =
      writeWord (writeWord (clearFrame now f) t1 (l1TableOffset (call.ownPage f))
        (pteOf f (level.protE &&& ulongNot pageRw))) prevLMfn offset (pteOf f level.protT) := by
  have cleared : call.domain.physToMachine (virtToPfn (pfnToVirt (call.domain.machineToPhys f))) = f := by
    rw [reads.virtToPfn, reads.1]
  -- the upper tables are read as they are: none is the frame
  have upper : SameAbove call.domain frames (clearFrame now f) := by
    intro p t short reached
    rw [← same p t short reached]
    apply clearFrame_other
    rintro rfl
    exact unused p (Nat.le_succ_of_le short) reached
  have entry := space_entry based four upper found
  obtain ⟨parent, again, _, _, last⟩ := path1_some.mp below
  cases Option.some.inj (again.symm.trans found)
  have frame := based.table_lt below
  have own : pfnToVirt (call.domain.machineToPhys f) = call.ownPage f := rfl
  have offset_lt := l1TableOffset_lt (call.ownPage f)
  simp only [newPtFrame, cleared, reads.1]
  simp only [own, entry]
  rw [and_pageMask low, last, ulongAdd_eq (by omega), mmuUpdate_place offset_lt, machineEntry_eq mfn inside,
    mmuUpdate_place inside]

theorem protE_spec (level : FrameLevel) : level.protE &&& ulongNot pageRw < 4096 ∧
    isPresent (level.protE &&& ulongNot pageRw) = true := by
  cases level <;> decide

theorem protT_spec (level : FrameLevel) : level.protT < 4096 ∧ isPresent level.protT = true ∧
    isPse level.protT = false := by
  cases level <;> decide

/-- The writes of `new_pt_frame` count as made behind the queue. -/
theorem newPtFrame_effective (ready : call.Ready) {b : Build} (building : call.Building done b)
    (few : done ≤ call.pages) (supplies : call.Supplies (b.npfs + 1)) {p : List Nat} {mfn offset f : Nat}
    (next : (call.source.npf b.npfs).toNat = f) (short : p.length ≤ 2)
    (found : table call.domain b.effective p = some mfn) (inside : offset < 512) (level : FrameLevel) :
    ∃ t, table call.domain b.effective (path1 (call.ownPage f)) = some t ∧
      mmuUpdate (newPtFrame call.domain b.frames f mfn offset level) b.updates =
        writeWord (writeWord (clearFrame b.effective f) t (l1TableOffset (call.ownPage f))
          (pteOf f (level.protE &&& ulongNot pageRw))) mfn offset (pteOf f level.protT) := by
  have supplied := supplies.supplied b.npfs (Nat.lt_succ_self _)
  have unused (p : List Nat) (short : p.length ≤ 3) := building.built.unused supplies (Nat.le_refl _) short
  have clear := building.clear_unused supplies
  rw [next] at supplied unused clear
  obtain ⟨t2, t1, upper, low, lower, _⟩ := supplied.mapped
  have found2 := building.built.grows _ _ (Nat.le_succ_of_le (path2_short _)) upper
  have found1 := building.built.grows _ _ (path1_short _) lower
  have low2 : b.effective t2 (l2TableOffset (call.ownPage f)) < 2 ^ 52 := by
    obtain ⟨parent, again, there, _⟩ := path1_some.mp lower
    cases Option.some.inj (again.symm.trans upper)
    exact (building.built.keeps _ _ _ (path2_short _) upper (l2TableOffset_lt _) there) ▸ low
  refine ⟨t1, found1, ?_⟩
  rw [newPtFrame_eq ready.based building.built.four supplied.reads unused building.sameAbove found2
    low2 found1 (ready.based.table_lt found) inside]
  rw [mmuUpdate_writeWord (building.clear_upper short found offset),
    mmuUpdate_writeWord (building.clear_outside ready few supplied.canonical supplied.outside found1),
    mmuUpdate_clearFrame clear]
  rfl

/-- A new table, and the entry above it. -/
theorem newTable_ok (ready : call.Ready) {b : Build} (building : call.Building done b) (few : done ≤ call.pages)
    (supplies : call.Supplies (b.npfs + 1)) {p : List Nat} {mfn offset : Nat} {level : FrameLevel}
    (short : p.length ≤ 2) (found : table call.domain b.effective p = some mfn) (inside : offset < 512)
    (absent : isPresent (b.effective mfn offset) = false) :
    let after : Build := { b with
      npfs := b.npfs + 1
      frames := newPtFrame call.domain b.frames (call.source.npf b.npfs).toNat mfn offset level }
    call.Building done after ∧ table call.domain after.effective p = some mfn ∧
      isPresent (after.effective mfn offset) = true := by
  intro after
  have supplied := supplies.supplied b.npfs (Nat.lt_succ_self _)
  have unused (p : List Nat) (short : p.length ≤ 3) := building.built.unused supplies (Nat.le_refl _) short
  obtain ⟨lowE, bitE⟩ := protE_spec level
  obtain ⟨lowT, bitT, pseT⟩ := protT_spec level
  obtain ⟨t, own, effective⟩ := newPtFrame_effective ready building few supplies rfl short found inside level
  have notOwn : (call.source.npf b.npfs).toNat ≠ t := by
    rintro rfl
    exact unused _ (path1_short _) own
  -- the frames before the entry above is written
  obtain ⟨between, built, same, zero, effective⟩ : ∃ between, call.Built done b.npfs between ∧
      SameAbove call.domain b.effective between ∧ (∀ j, between (call.source.npf b.npfs).toNat j = 0) ∧
      after.effective = writeWord between mfn offset (pteOf (call.source.npf b.npfs).toNat level.protT) := by
    refine ⟨_, building.built.clear ready few supplies lowE bitE own,
      clearFrame_sameAbove building.built.four unused own _ _, fun j => ?_, effective⟩
    rw [writeWord_other (Or.inl notOwn), clearFrame_self]
  have reached : table call.domain between p = some mfn := by
    rw [same.table_eq (Nat.le_succ_of_le short)]
    exact found
  have free : isPresent (between mfn offset) = false := by
    rw [same p mfn short found]
    exact absent
  have linking := built.linking supplies zero short reached inside free lowT bitT pseT
  have ends {q : List Nat} {u : Nat} (few : q.length ≤ 3) (before : table call.domain b.effective q = some u) :
      table call.domain after.effective q = some u := by
    rw [effective, linking.table_iff few, same.table_eq few]
    exact Or.inl before
  have entries (q : List Nat) (u i : Nat) (few : q.length ≤ 2) (before : table call.domain b.effective q = some u)
      (present : isPresent (b.effective u i) = true) : after.effective u i = b.effective u i := by
    rw [← same q u few before] at present ⊢
    rw [effective, linking.old_entry present]
  obtain ⟨mfnOf, bit, _⟩ := pteOf_spec supplied.small lowT
  refine ⟨⟨?_, ?_, building.pfns, building.startAddress, building.count⟩,
    ends (Nat.le_succ_of_le short) found, ?_⟩
  · rw [effective]
    exact built.link supplies linking
  · intro update queued
    obtain ⟨j, less, index, named⟩ := building.queued update queued
    exact ⟨j, less, index, named_grow named (fun q u few before => ends (Nat.le_succ_of_le few) before) entries⟩
  · rw [effective, writeWord_self]
    exact bit.trans bitT

/-- An entry above level 1 is present after its check. -/
theorem needPtFrame_ok (ready : call.Ready) {b b' : Build} (building : call.Building done b)
    (few : done ≤ call.pages) (supplies : call.Supplies b'.npfs) {p : List Nat} {tab mfn offset : Nat}
    {level : FrameLevel} (short : p.length ≤ 2) (found : table call.domain b.effective p = some mfn)
    (inside : offset < 512)
    (reads : ∀ now : Frames, (call.domain.space now).entry tab offset = now mfn offset)
    (run : needPtFrame call.domain call.source tab mfn offset level b = .ok b') :
    call.Building done b' ∧ table call.domain b'.effective p = some mfn ∧
      isPresent (b'.effective mfn offset) = true := by
  have same := building.sameAbove
  simp only [needPtFrame, reads, same p mfn short found] at run
  cases present : isPresent (b.effective mfn offset) with
  | true =>
    rw [present] at run
    cases run
    exact ⟨building, found, present⟩
  | false =>
    rw [present] at run
    simp only [Bool.not_false, if_true] at run
    split at run
    · cases run
    · cases Except.ok.inj run
      exact newTable_ok ready building few supplies short found inside present

/-- Above level 2 the entry names the next table. -/
theorem needPtFrame_table (ready : call.Ready) {b b' : Build} (building : call.Building done b)
    (few : done ≤ call.pages) (supplies : call.Supplies b'.npfs) {p : List Nat} {tab mfn offset : Nat}
    {level : FrameLevel} (short : p.length ≤ 1) (found : table call.domain b.effective p = some mfn)
    (inside : offset < 512)
    (reads : ∀ now : Frames, (call.domain.space now).entry tab offset = now mfn offset)
    (run : needPtFrame call.domain call.source tab mfn offset level b = .ok b') :
    call.Building done b' ∧ table call.domain b'.effective (p ++ [offset]) =
      some (pteToMfn ((call.domain.space b'.frames).entry tab offset)) := by
  obtain ⟨next, reached, present⟩ :=
    needPtFrame_ok ready building few supplies (Nat.le_succ_of_le short) found inside reads run
  refine ⟨next, ?_⟩
  rw [reads, next.sameAbove p mfn (Nat.le_succ_of_le short) reached, table_concat]
  have plain := next.built.four.plain p mfn offset short reached inside present
  exact ⟨mfn, reached, child_eq_some.mpr ⟨⟨inside, present, plain⟩, rfl⟩⟩

/-- The kernel reads a table above level 1 through the page of its frame. -/
theorem Building.reads {b : Build} (building : call.Building done b) {p : List Nat} {t offset : Nat}
    (short : p.length ≤ 2) (found : table call.domain b.effective p = some t) (inside : offset < 512) (now : Frames) :
    (call.domain.space now).entry ((call.domain.space b.frames).mfnToVirt t) offset = now t offset :=
  (building.built.four.reads p t short found).entry inside

theorem needPtFrame_frame {b b' : Build} {tab mfn offset : Nat} {level : FrameLevel}
    (run : needPtFrame call.domain call.source tab mfn offset level b = .ok b') :
    b'.startAddress = b.startAddress ∧ b'.pfns = b.pfns ∧ b.npfs ≤ b'.npfs := by
  simp only [needPtFrame] at run
  split at run
  · split at run
    · cases run
    · cases run
      exact ⟨rfl, rfl, Nat.le_succ _⟩
  · cases run
    exact ⟨rfl, rfl, Nat.le_refl _⟩

/-- A source that always succeeds gives no reason to return 0. -/
theorem needPtFrame_error {b b' : Build} {tab mfn offset : Nat} {level : FrameLevel}
    (run : needPtFrame call.domain call.source tab mfn offset level b = .error b') :
    b.npfs ≤ b'.npfs ∧ ¬ call.Supplies b'.npfs := by
  simp only [needPtFrame] at run
  split at run
  · split at run
    · rename_i failed
      cases run
      refine ⟨Nat.le_succ _, fun supplies => ?_⟩
      exact absurd (supplies.natural b.npfs (Nat.lt_succ_self _)) (Int.not_le.mpr failed)
    · cases run
  · cases run

/-! ## A turn -/

theorem pages_end (ready : call.Ready) : done < call.pages →
    ulongAdd (call.page done) pageSize = call.page (done + 1) ∧
      (call.page (done + 1) = call.endAddress ↔ done + 1 = call.pages) := by
  intro more
  have first := ready.startAligned
  have last := ready.endAligned
  have word := ready.word
  unfold pages at more ⊢
  unfold page
  constructor
  · rw [ulongAdd, pageSize]
    omega
  · omega

theorem page_lt (ready : call.Ready) : call.page done < call.endAddress ↔ done < call.pages := by
  have first := ready.startAligned
  have last := ready.endAligned
  unfold pages page
  omega

/-- The queue with the entry of the next page, where it has a frame. -/
def queueWith (call : BuildCall) (done t : Nat) (b : Build) : List MmuUpdate :=
  if 0 < call.source.pfn done then
    b.updates ++ [⟨machineEntry t (l1TableOffset (call.page done)),
      leafValue pageSize (call.source.pfn done).toNat⟩]
  else b.updates

theorem putEntry_eq (ready : call.Ready) {b : Build} (building : call.Building done b) (more : done < call.pages)
    (t : Nat) : putEntry call.source pageSize call.endAddress t (l1TableOffset (call.page done)) b =
      .ok (if (call.queueWith done t b).length = 512 ∨ done + 1 = call.pages then
        { b with
          frames := mmuUpdate b.frames (call.queueWith done t b)
          pfns := done + 1
          updates := []
          startAddress := call.page (done + 1) }
      else
        { b with
          pfns := done + 1
          updates := call.queueWith done t b
          startAddress := call.page (done + 1) }) := by
  have natural := Int.not_lt.mpr (ready.pfns done more).1
  obtain ⟨next, last⟩ := pages_end ready more
  simp only [putEntry, building.pfns, if_neg natural, queueWith]
  split
  · simp only [building.startAddress, next, last]
    split <;> rfl
  · simp only [building.startAddress, next, last]
    split <;> rfl

/-- Submitted, it gives the next state of the range. -/
theorem queueWith_ok (ready : call.Ready) {b : Build} (building : call.Building done b) (more : done < call.pages)
    {t : Nat} (named : Named call.domain b.effective (call.page done) t) :
    call.Built (done + 1) b.npfs (mmuUpdate b.frames (call.queueWith done t b)) ∧
      (∀ update ∈ call.queueWith done t b, ∃ j < done + 1, update.index = l1TableOffset (call.page j) ∧
        Named call.domain (mmuUpdate b.frames (call.queueWith done t b)) (call.page j) update.frame) ∧
      (call.queueWith done t b).length ≤ b.updates.length + 1 := by
  have built := building.built.mapPage ready more named
  obtain ⟨parent, _, _, frame⟩ := id named
  have small : t < 2 ^ 40 := frame ▸ pteToMfn_lt _
  have inside := l1TableOffset_lt (call.page done)
  have old : ∀ update ∈ b.updates, ∃ j < done + 1, update.index = l1TableOffset (call.page j) ∧
      Named call.domain b.effective (call.page j) update.frame := by
    intro update queued
    obtain ⟨j, less, rest⟩ := building.queued update queued
    exact ⟨j, Nat.lt_succ_of_lt less, rest⟩
  unfold queueWith
  split
  · rename_i positive
    rw [if_pos positive] at built
    have value : leafValue pageSize (call.source.pfn done).toNat = pteOf (call.source.pfn done).toNat l1Prot :=
      if_pos rfl
    obtain ⟨target, slot⟩ := @update_place t _ (pteOf (call.source.pfn done).toNat l1Prot) inside
    rw [machineEntry_eq small inside, value, mmuUpdate_append, mmuUpdate_place inside]
    have same := (named.notAbove building.built.four).writeWord (l1TableOffset (call.page done))
      (pteOf (call.source.pfn done).toNat l1Prot)
    have grow {va u : Nat} (name : Named call.domain b.effective va u) :=
      named_grow name (fun p v short found => (same.table_eq (Nat.le_succ_of_le short)).trans found)
        (fun p v i short found _ => congrFun (same p v short found) i)
    refine ⟨built, ?_, ?_⟩
    · intro update queued
      rcases List.mem_append.mp queued with before | new
      · obtain ⟨j, less, index, name⟩ := old update before
        exact ⟨j, less, index, grow name⟩
      · cases List.mem_singleton.mp new
        refine ⟨done, Nat.lt_succ_self _, slot, ?_⟩
        rw [target]
        exact grow named
    · rw [List.length_append, List.length_singleton]
  · rename_i none
    rw [if_neg none] at built
    exact ⟨built, old, Nat.le_succ _⟩

/-- The end of a turn: the page is done, and the queue is empty at the end of the range. -/
theorem putEntry_ok (ready : call.Ready) {b b' : Build} (building : call.Building done b) (more : done < call.pages)
    {t : Nat} (named : Named call.domain b.effective (call.page done) t)
    (run : putEntry call.source pageSize call.endAddress t (l1TableOffset (call.page done)) b = .ok b') :
    call.Building (done + 1) b' ∧ (done + 1 = call.pages → b'.updates = []) := by
  rw [putEntry_eq ready building more] at run
  cases Except.ok.inj run
  obtain ⟨built, queued, length⟩ := queueWith_ok ready building more named
  have count := building.count
  split
  · exact ⟨⟨built, nofun, rfl, rfl, by simp⟩, fun _ => rfl⟩
  · rename_i unfinished
    obtain ⟨full, last⟩ := not_or.mp unfinished
    exact ⟨⟨built, queued, rfl, rfl, by simp only; omega⟩, fun done => absurd done last⟩

/-- The three checks of a turn. -/
def upperTables (call : BuildCall) (b : Build) : Except Build (Build × Nat) := do
  let tab := call.domain.ptBase
  let mfn := call.domain.physToMachine (virtToPfn call.domain.ptBase)
  let offset := l4TableOffset b.startAddress
  let first ← needPtFrame call.domain call.source tab mfn offset .l3Frame b
  let mfn := pteToMfn ((call.domain.space first.frames).entry tab offset)
  let tab := (call.domain.space first.frames).mfnToVirt mfn
  let offset := l3TableOffset b.startAddress
  let second ← needPtFrame call.domain call.source tab mfn offset .l2Frame first
  let mfn := pteToMfn ((call.domain.space second.frames).entry tab offset)
  let tab := (call.domain.space second.frames).mfnToVirt mfn
  let offset := l2TableOffset b.startAddress
  let third ← needPtFrame call.domain call.source tab mfn offset .l1Frame second
  return (third, pteToMfn ((call.domain.space third.frames).entry tab offset))

theorem buildTurn_eq (call : BuildCall) (b : Build) :
    buildTurn call.domain call.source pageSize call.endAddress b =
      call.upperTables b >>= fun (third, mfn) =>
        putEntry call.source pageSize call.endAddress mfn (l1TableOffset b.startAddress) third := by
  simp only [buildTurn, upperTables, if_true, bind_assoc, pure_bind]

theorem upperTables_ok (ready : call.Ready) {b third : Build} {mfn : Nat} (building : call.Building done b)
    (few : done ≤ call.pages) (supplies : call.Supplies third.npfs)
    (run : call.upperTables b = .ok (third, mfn)) :
    call.Building done third ∧ Named call.domain third.effective (call.page done) mfn := by
  obtain ⟨first, one, run⟩ := except_bind_ok.mp run
  obtain ⟨second, two, run⟩ := except_bind_ok.mp run
  obtain ⟨_, three, same⟩ := except_bind_ok.mp run
  cases same
  have address := building.startAddress
  obtain ⟨_, _, more⟩ := needPtFrame_frame three
  obtain ⟨_, _, most⟩ := needPtFrame_frame two
  rw [address] at one two three
  obtain ⟨building, found⟩ := needPtFrame_table ready building few (supplies.mono (Nat.le_trans most more))
    (p := []) (Nat.zero_le 1) table_nil (l4TableOffset_lt _)
    (fun now => ready.based.entry_root (l4TableOffset_lt _)) one
  obtain ⟨building, found⟩ := needPtFrame_table ready building few (supplies.mono more) (path3_short _) found
    (l3TableOffset_lt _) (building.reads (Nat.le_succ_of_le (path3_short _)) found (l3TableOffset_lt _)) two
  have reads := building.reads (path2_short _) found (l2TableOffset_lt (call.page done))
  obtain ⟨building, found, present⟩ := needPtFrame_ok ready building few supplies (path2_short _) found
    (l2TableOffset_lt _) reads three
  refine ⟨building, _, found, present, ?_⟩
  rw [address, reads, building.sameAbove _ _ (path2_short _) found]

theorem upperTables_frame {b third : Build} {mfn : Nat} (run : call.upperTables b = .ok (third, mfn)) :
    third.startAddress = b.startAddress ∧ b.npfs ≤ third.npfs := by
  obtain ⟨first, one, run⟩ := except_bind_ok.mp run
  obtain ⟨second, two, run⟩ := except_bind_ok.mp run
  obtain ⟨_, three, same⟩ := except_bind_ok.mp run
  cases same
  obtain ⟨start1, _, npfs1⟩ := needPtFrame_frame one
  obtain ⟨start2, _, npfs2⟩ := needPtFrame_frame two
  obtain ⟨start3, _, npfs3⟩ := needPtFrame_frame three
  exact ⟨start3.trans (start2.trans start1), Nat.le_trans npfs1 (Nat.le_trans npfs2 npfs3)⟩

theorem upperTables_error {b b' : Build} (run : call.upperTables b = .error b') :
    b.npfs ≤ b'.npfs ∧ ¬ call.Supplies b'.npfs := by
  rcases except_bind_error.mp run with one | ⟨first, one, run⟩
  · exact needPtFrame_error one
  obtain ⟨_, _, npfs1⟩ := needPtFrame_frame one
  rcases except_bind_error.mp run with two | ⟨second, two, run⟩
  · exact (needPtFrame_error two).imp_left (Nat.le_trans npfs1)
  obtain ⟨_, _, npfs2⟩ := needPtFrame_frame two
  rcases except_bind_error.mp run with three | ⟨third, three, run⟩
  · exact (needPtFrame_error three).imp_left (Nat.le_trans (Nat.le_trans npfs1 npfs2))
  · cases run

/-- What the end of a turn leaves for the next one, whatever the source gives. -/
theorem putEntry_frame {b b' : Build} {t index : Nat}
    (run : putEntry call.source pageSize call.endAddress t index b = .ok b') :
    b'.startAddress = ulongAdd b.startAddress pageSize ∧ b'.npfs = b.npfs := by
  simp only [putEntry] at run
  split at run
  · cases run
  · split at run <;> split at run <;> cases Except.ok.inj run <;> exact ⟨rfl, rfl⟩

theorem putEntry_error {b b' : Build} {t index : Nat}
    (run : putEntry call.source pageSize call.endAddress t index b = .error b') : b'.npfs = b.npfs := by
  simp only [putEntry] at run
  split at run
  · cases run
    rfl
  · split at run <;> split at run <;> cases run

theorem buildTurn_frame {b b' : Build}
    (run : buildTurn call.domain call.source pageSize call.endAddress b = .ok b') :
    b'.startAddress = ulongAdd b.startAddress pageSize ∧ b.npfs ≤ b'.npfs := by
  rw [buildTurn_eq] at run
  obtain ⟨⟨third, mfn⟩, upper, run⟩ := except_bind_ok.mp run
  obtain ⟨start, npfs⟩ := upperTables_frame upper
  obtain ⟨next, same⟩ := putEntry_frame run
  rw [next, start, same]
  exact ⟨rfl, npfs⟩

theorem buildTurn_ok (ready : call.Ready) {b b' : Build} (building : call.Building done b)
    (more : done < call.pages) (supplies : call.Supplies b'.npfs)
    (run : buildTurn call.domain call.source pageSize call.endAddress b = .ok b') :
    call.Building (done + 1) b' ∧ (done + 1 = call.pages → b'.updates = []) := by
  rw [buildTurn_eq] at run
  obtain ⟨⟨third, mfn⟩, upper, run⟩ := except_bind_ok.mp run
  rw [(putEntry_frame run).2] at supplies
  obtain ⟨next, named⟩ := upperTables_ok ready building (Nat.le_of_lt more) supplies upper
  rw [building.startAddress] at run
  exact putEntry_ok ready next more named run

theorem buildTurn_error_frame {b b' : Build}
    (run : buildTurn call.domain call.source pageSize call.endAddress b = .error b') : b.npfs ≤ b'.npfs := by
  rw [buildTurn_eq] at run
  rcases except_bind_error.mp run with upper | ⟨⟨third, mfn⟩, upper, run⟩
  · exact (upperTables_error upper).1
  · rw [putEntry_error run]
    exact (upperTables_frame upper).2

theorem buildTurn_error (ready : call.Ready) {b b' : Build} (building : call.Building done b)
    (more : done < call.pages) (run : buildTurn call.domain call.source pageSize call.endAddress b = .error b') :
    ¬ call.Supplies b'.npfs := by
  rw [buildTurn_eq] at run
  rcases except_bind_error.mp run with upper | ⟨⟨third, mfn⟩, upper, run⟩
  · exact (upperTables_error upper).2
  · intro supplies
    rw [putEntry_error run] at supplies
    obtain ⟨next, _⟩ := upperTables_ok ready building (Nat.le_of_lt more) supplies upper
    dsimp only at run
    rw [building.startAddress, putEntry_eq ready next more] at run
    cases run

/-! ## The loop -/

theorem buildLoop_npfs {turns : Nat} {b b' : Build} {result : Int}
    (run : buildLoop call.domain call.source pageSize call.endAddress turns b = .ok (b', result)) :
    b.npfs ≤ b'.npfs := by
  induction turns generalizing b with
  | zero => cases run
  | succ turns ih =>
    rw [buildLoop] at run
    split at run
    · split at run
      · rename_i failed
        cases Except.ok.inj run
        exact buildTurn_error_frame failed
      · rename_i next turn
        exact Nat.le_trans (buildTurn_frame turn).2 (ih run)
    · cases Except.ok.inj run
      exact Nat.le_refl _

/-- A run that ends has done every page of the range. -/
theorem buildLoop_ok (ready : call.Ready) {turns : Nat} {b b' : Build} {result : Int}
    (building : call.Building done b) (few : done ≤ call.pages) (submitted : done = call.pages → b.updates = [])
    (run : buildLoop call.domain call.source pageSize call.endAddress turns b = .ok (b', result))
    (supplies : call.Supplies b'.npfs) : result = 1 ∧ call.Building call.pages b' ∧ b'.updates = [] := by
  induction turns generalizing b done with
  | zero => cases run
  | succ turns ih =>
    rw [buildLoop, building.startAddress] at run
    split at run
    · rename_i below
      have more := (page_lt ready).mp below
      split at run
      · rename_i failed
        cases Except.ok.inj run
        exact absurd supplies (buildTurn_error ready building more failed)
      · rename_i next turn
        obtain ⟨building, submitted⟩ := buildTurn_ok ready building more (supplies.mono (buildLoop_npfs run)) turn
        exact ih building more submitted run
    · rename_i finished
      cases Except.ok.inj run
      have last : done = call.pages := Nat.le_antisymm few (Nat.not_lt.mp (mt (page_lt ready).mpr finished))
      exact ⟨rfl, last ▸ building, submitted last⟩

/-- Every turn goes one page on. -/
theorem buildLoop_ends (ready : call.Ready) {turns : Nat} {b : Build} (aligned : b.startAddress % 4096 = 0)
    (enough : call.endAddress - b.startAddress < turns) :
    ∃ outcome, buildLoop call.domain call.source pageSize call.endAddress turns b = .ok outcome := by
  induction turns generalizing b with
  | zero => exact absurd enough (Nat.not_lt_zero _)
  | succ turns ih =>
    rw [buildLoop]
    split
    · rename_i more
      split
      · exact ⟨_, rfl⟩
      · rename_i next turn
        have last := ready.endAligned
        have word := ready.word
        have step : next.startAddress = b.startAddress + 4096 :=
          (buildTurn_frame turn).1.trans (ulongAdd_eq (by rw [pageSize]; omega))
        exact ih (by omega) (by omega)
    · exact ⟨_, rfl⟩

end BuildCall

end Stardust.Arch
