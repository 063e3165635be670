import Stardust.Gntmap.Mappings
import Mathlib.Data.List.Nodup

/-! # Mapping a range of grants, or none of it

When `gntmap_map_grant_refs` cannot map a page, it unmaps the pages before it.  It finds
their entries by address in an array that holds other mappings too. -/
set_option autoImplicit false
namespace Stardust.Gntmap

open Stardust.Lib

section Calls
variable {state : GntmapState} {index addr count : Nat}

/-- The unmap of a used entry, when the hypervisor takes the unmaps of live mappings. -/
theorem Mirrored.unmap_used (mirrored : Mirrored state) (bound : index < state.entries.length)
    (used : state.entries[index].hostAddr ≠ 0) {xen : Bool → Reply} (accepts : (xen true).okay) :
    (gntmapUnmapGrantRef state index state.entries[index] xen).2 = 0 ∧
      (usedEntries state.entries).Perm (state.entries[index] ::
        usedEntries (gntmapUnmapGrantRef state index state.entries[index] xen).1.entries) := by
  have named := mirrored.mem_live (List.getElem_mem bound) used
  simp only [gntmapUnmapGrantRef, decide_eq_true named, if_pos accepts]
  exact ⟨trivial, usedEntries_set_of_used bound used _ rfl⟩

/-- Used entries are known by their addresses. -/
theorem Mirrored.eq_of_hostAddr (mirrored : Mirrored state) {first second : GntmapEntry}
    (firstUsed : first ∈ usedEntries state.entries) (secondUsed : second ∈ usedEntries state.entries)
    (same : first.hostAddr = second.hostAddr) : first = second :=
  List.inj_on_of_nodup_map mirrored.distinct
    (mirrored.live.mem_iff.mpr (List.mem_append_left _ firstUsed))
    (mirrored.live.mem_iff.mpr (List.mem_append_left _ secondUsed)) same

/-- `gntmap_munmap` of pages that are all mapped: the other entries stay. -/
theorem Mirrored.munmapLoop_removes (mirrored : Mirrored state) {xen : Xen}
    (accepts : ∀ i, (xen.unmap i true).okay) {page : Nat → GntmapEntry} {others : List GntmapEntry}
    {left i : Nat} (pages : ∀ j, i ≤ j → j < i + left → (page j).hostAddr = pageAddress addr j)
    (used : (usedEntries state.entries).Perm ((List.range' i left).map page ++ others)) :
    (usedEntries (Gntmap.munmapLoop xen addr left i state).1.entries).Perm others ∧
      (Gntmap.munmapLoop xen addr left i state).1.dropped = state.dropped := by
  induction left generalizing i state with
  | zero => exact ⟨used, rfl⟩
  | succ left ih =>
    rw [List.range'_succ, List.map_cons, List.cons_append] at used
    have first : page i ∈ usedEntries state.entries := used.mem_iff.mpr List.mem_cons_self
    have address : (page i).hostAddr = pageAddress addr i := pages i (Nat.le_refl i) (by omega)
    obtain ⟨index, found⟩ := gntmapFindEntry_of_mem (mem_usedEntries.mp first).1
    rw [address] at found
    obtain ⟨bound, same⟩ := gntmapFindEntry_eq_some found
    have positive : state.entries[index].hostAddr ≠ 0 := by
      rw [same, ← address]
      exact (mem_usedEntries.mp first).2
    -- the entry found by address is the one that was made for this page
    have entry : state.entries[index] = page i :=
      mirrored.eq_of_hostAddr (mem_usedEntries.mpr ⟨List.getElem_mem bound, positive⟩) first
        (same.trans address.symm)
    obtain ⟨done, removed⟩ := mirrored.unmap_used bound positive (accepts i)
    rw [Gntmap.munmapLoop, found]
    dsimp only
    rw [List.getD_eq_getElem _ _ bound, if_neg (not_not.mpr done)]
    have rest := removed.symm.trans used
    rw [entry] at rest
    obtain ⟨cleared, kept⟩ := ih (i := i + 1) (mirrored.unmapGrantRef bound (xen.unmap i))
      (fun j later inside => pages j (by omega) (by omega))
      (by rw [entry]; exact (List.perm_cons (page i)).mp rest)
    exact ⟨cleared, kept.trans (gntmapUnmapGrantRef_dropped _ _ _ _)⟩

/-- What page `i` of a call is mapped as. -/
def mappedPage (xen : Xen) (grants : Grants) (addr i : Nat) : GntmapEntry :=
  ⟨addr + pageSize * i,
    (xen.map i (mapOperation (addr + pageSize * i) (grants.domids (i * grants.domidsStride))
      (grants.refs i) grants.writable)).handle⟩

def mappedPages (xen : Xen) (grants : Grants) (addr count : Nat) : List GntmapEntry :=
  (List.range count).map (mappedPage xen grants addr)

theorem mappedPages_succ (xen : Xen) (grants : Grants) (addr i : Nat) (others : List GntmapEntry) :
    (mappedPages xen grants addr (i + 1) ++ others).Perm
      (mappedPage xen grants addr i :: (mappedPages xen grants addr i ++ others)) := by
  unfold mappedPages
  rw [List.range_succ, List.map_append, List.append_assoc]
  exact List.perm_middle

/-- The pages that were mapped go, and nothing else does. -/
theorem Mirrored.rollback (mirrored : Mirrored state) {xen : Xen} (accepts : ∀ i, (xen.unmap i true).okay)
    {grants : Grants} {i : Nat} {others : List GntmapEntry} (fits : addr + pageSize * count < 2 ^ 64)
    (inside : i ≤ count)
    (used : (usedEntries state.entries).Perm (mappedPages xen grants addr i ++ others)) :
    (usedEntries (gntmapMunmap state addr i xen).1.entries).Perm others ∧
      (gntmapMunmap state addr i xen).1.dropped = state.dropped := by
  unfold mappedPages at used
  rw [List.range_eq_range'] at used
  refine mirrored.munmapLoop_removes accepts ?_ used
  intro j _ before
  exact (pageAddress_eq fits (by omega)).symm

/-- From page `i` on, when the pages before it are mapped. -/
theorem Mirrored.mapLoop_outcome (mirrored : Mirrored state) {xen : Xen}
    (accepts : ∀ i, (xen.unmap i true).okay) (grants : Grants) {left i : Nat} {others : List GntmapEntry}
    (positive : addr ≠ 0) (fits : addr + pageSize * count < 2 ^ 64) (rest : i + left = count)
    (unmapped : UnmappedFrom state.live addr i count)
    (used : (usedEntries state.entries).Perm (mappedPages xen grants addr i ++ others)) :
    (Gntmap.mapLoop xen grants addr left i state).1.dropped = state.dropped ∧
      ((Gntmap.mapLoop xen grants addr left i state).2 = 0 ∧
          (usedEntries (Gntmap.mapLoop xen grants addr left i state).1.entries).Perm others ∨
        (Gntmap.mapLoop xen grants addr left i state).2 = addr ∧
          (usedEntries (Gntmap.mapLoop xen grants addr left i state).1.entries).Perm
            (mappedPages xen grants addr count ++ others)) := by
  induction left generalizing i state with
  | zero =>
    rw [Nat.add_zero] at rest
    rw [rest] at used
    exact ⟨rfl, .inr ⟨rfl, used⟩⟩
  | succ left ih =>
    rw [Gntmap.mapLoop]
    cases found : gntmapFindFreeEntry state.entries with
    | none =>
      obtain ⟨removed, kept⟩ := mirrored.rollback accepts fits (by omega) used
      exact ⟨kept, .inl ⟨rfl, removed⟩⟩
    | some index =>
      dsimp only
      have mapped := mirrored.mapPage (grants.domids (i * grants.domidsStride)) (grants.refs i)
        grants.writable (xen.map i) found positive fits (by omega) unmapped
      by_cases granted : (gntmapMapGrantRef state index (pageAddress addr i)
          (grants.domids (i * grants.domidsStride)) (grants.refs i) grants.writable (xen.map i)).2 = 0
      · rw [if_neg (not_not.mpr granted)]
        have okay := gntmapMapGrantRef_okay granted
        rw [okay] at mapped ⊢
        rw [pageAddress_eq fits (by omega)] at mapped ⊢
        obtain ⟨bound, free⟩ := gntmapFindFreeEntry_eq_some found
        refine ih mapped (by omega) unmapped.next ?_
        have filled := usedEntries_set_of_free bound free (mappedPage xen grants addr i)
          (by simp only [mappedPage]; omega)
        exact (filled.trans (used.cons _)).trans (mappedPages_succ xen grants addr i others).symm
      · rw [if_pos granted, gntmapMapGrantRef_refused granted]
        obtain ⟨removed, kept⟩ := mirrored.rollback accepts fits (by omega) used
        exact ⟨kept, .inl ⟨rfl, removed⟩⟩

theorem gntmapSetMaxGrants_used (state : GntmapState) (limit : Int) (memory : Bool) :
    usedEntries (gntmapSetMaxGrants state limit memory).1.entries = usedEntries state.entries := by
  unfold gntmapSetMaxGrants
  split
  · rfl
  · rename_i empty
    split
    · rfl
    · rw [List.eq_nil_of_length_eq_zero (not_not.mp empty)]
      exact usedEntries_replicate _

theorem gntmapSetMaxGrants_dropped (state : GntmapState) (limit : Int) (memory : Bool) :
    (gntmapSetMaxGrants state limit memory).1.dropped = state.dropped := by
  unfold gntmapSetMaxGrants
  split
  · rfl
  · split <;> rfl

theorem Mirrored.mapGrantRefs_outcome (mirrored : Mirrored state) {xen : Xen}
    (accepts : ∀ i, (xen.unmap i true).okay) (grants : Grants) (memory : Bool)
    (unmapped : Unmapped state.live count addr) :
    (gntmapMapGrantRefs state count grants addr memory xen).1.dropped = state.dropped ∧
      ((gntmapMapGrantRefs state count grants addr memory xen).2 = 0 ∧
          (usedEntries (gntmapMapGrantRefs state count grants addr memory xen).1.entries).Perm
            (usedEntries state.entries) ∨
        addr ≠ 0 ∧ (gntmapMapGrantRefs state count grants addr memory xen).2 = addr ∧
          (usedEntries (gntmapMapGrantRefs state count grants addr memory xen).1.entries).Perm
            (mappedPages xen grants addr count ++ usedEntries state.entries)) := by
  have ready := mirrored.setMaxGrants defaultMaxGrants memory
  have dropped := gntmapSetMaxGrants_dropped state defaultMaxGrants memory
  have used := gntmapSetMaxGrants_used state defaultMaxGrants memory
  simp only [gntmapMapGrantRefs]
  split
  · exact ⟨dropped, .inl ⟨rfl, by rw [used]⟩⟩
  · rename_i positive
    obtain ⟨fits, apart⟩ := unmapped positive
    have fresh : UnmappedFrom (gntmapSetMaxGrants state defaultMaxGrants memory).1.live addr 0 count := by
      rw [gntmapSetMaxGrants_live]
      exact fun mapping held j _ inside => apart mapping held j inside
    obtain ⟨kept, outcome⟩ := ready.mapLoop_outcome accepts grants positive fits
      (Nat.zero_add count) fresh (by rw [used]; exact .refl _)
    refine ⟨kept.trans dropped, ?_⟩
    rcases outcome with ⟨null, removed⟩ | ⟨same, added⟩
    · exact .inl ⟨null, removed⟩
    · exact .inr ⟨positive, same, added⟩

end Calls

/-- All of the pages, or the state as it was. -/
theorem map_grant_refs_all_or_nothing {state : GntmapState} {count addr : Nat} {xen : Xen}
    (grants : Grants) (memory : Bool) (reached : Reach FreshMap GntmapMoves Always state)
    (ondemand : Unmapped state.live count addr) (accepts : ∀ i, (xen.unmap i true).okay) :
    ((gntmapMapGrantRefs state count grants addr memory xen).2 = 0 →
        (usedEntries (gntmapMapGrantRefs state count grants addr memory xen).1.entries).Perm
            (usedEntries state.entries) ∧
          (gntmapMapGrantRefs state count grants addr memory xen).1.live.Perm state.live) ∧
      ((gntmapMapGrantRefs state count grants addr memory xen).2 ≠ 0 →
        (gntmapMapGrantRefs state count grants addr memory xen).2 = addr ∧
          (usedEntries (gntmapMapGrantRefs state count grants addr memory xen).1.entries).Perm
            (mappedPages xen grants addr count ++ usedEntries state.entries) ∧
          (gntmapMapGrantRefs state count grants addr memory xen).1.live.Perm
            (mappedPages xen grants addr count ++ state.live)) := by
  have before := Mirrored.of_reach reached
  have after := (before.mapGrantRefs grants memory xen ondemand).live
  obtain ⟨dropped, outcome⟩ := before.mapGrantRefs_outcome accepts grants memory ondemand
  rw [dropped] at after
  rcases outcome with ⟨null, removed⟩ | ⟨positive, same, added⟩
  · refine ⟨fun _ => ⟨removed, ?_⟩, fun address => absurd null address⟩
    exact (after.trans (removed.append_right _)).trans before.live.symm
  · refine ⟨fun null => absurd (same.symm.trans null) positive, fun _ => ⟨same, added, ?_⟩⟩
    have whole := after.trans (added.append_right _)
    rw [List.append_assoc] at whole
    exact whole.trans (before.live.symm.append_left _)

/-- Two pages of which the second is refused: the first goes again. -/
def refusesSecond : Xen where
  map i _ := ⟨0, if i = 0 then 0 else -1, 5⟩
  unmap _ _ := ⟨0, 0, 0⟩

theorem map_grant_refs_all_or_nothing_second_refused :
    (gntmapMapGrantRefs gntmapInit 2 oneGrant 0x100000000000 true refusesSecond).2 = 0 ∧
      (usedEntries (gntmapMapGrantRefs gntmapInit 2 oneGrant 0x100000000000 true refusesSecond).1.entries).Perm
          (usedEntries gntmapInit.entries) ∧
        (gntmapMapGrantRefs gntmapInit 2 oneGrant 0x100000000000 true refusesSecond).1.live.Perm
          gntmapInit.live := by
  have null : (gntmapMapGrantRefs gntmapInit 2 oneGrant 0x100000000000 true refusesSecond).2 = 0 := by
    decide +kernel
  exact ⟨null, (map_grant_refs_all_or_nothing oneGrant true (.start gntmapInit_fresh) (by decide) fun i => by
    exact ⟨rfl, rfl⟩).1 null⟩

end Stardust.Gntmap
