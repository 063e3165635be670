import Mathlib.Data.List.Nodup
import Stardust.Blkfront.Driver

/-! # What the front end keeps for each request

The ids, shadows and grants of the outstanding requests, whatever their order, and the
entries of the ring. -/
set_option autoImplicit false
namespace Stardust.Blkfront

open Stardust.Lib

/-! ## Ids, shadows and grants -/

structure Owned (freelist : Nat → Nat) (shadows : Nat → Shadow) (ioState : Nat → IoState)
    (live : Nat → Bool) (free : List Nat) (outstanding : List Sub) : Prop where
  holds : FreeList.Holds freelist free
  ids : (free ++ outstanding.map (·.id)).Perm (List.range' 1 31)
  shadows : ∀ s ∈ outstanding, shadows s.id = ⟨s.refs, s.refs.length, false, s.request⟩
  submitted : ∀ s ∈ outstanding, ioState s.request = .submitted
  requests : (outstanding.map (·.request)).Nodup
  refs : (outstanding.flatMap (·.refs)).Nodup
  live : ∀ ref, live ref = true ↔ ref ∈ outstanding.flatMap (·.refs)

section Owned
variable {freelist : Nat → Nat} {shadows : Nat → Shadow} {ioState : Nat → IoState}
  {live : Nat → Bool} {free : List Nat} {outstanding other : List Sub} {s : Sub} {id : Nat}

theorem initBuffers_holds : FreeList.Holds initBuffers (List.range' 1 31).reverse := by
  have zeros : FreeList.push (fun _ => 0) 0 0 = 0 := Function.update_self ..
  have holds := (FreeList.Holds.empty zeros).pushes (List.range' 1 31) (by decide) (by decide) nofun
  rw [List.append_nil] at holds
  have all : List.range blkRingSize = 0 :: List.range' 1 31 := by decide
  have code : initBuffers = (List.range blkRingSize).foldl FreeList.push fun _ => 0 := rfl
  rw [code, all, List.foldl_cons]
  exact holds

theorem Owned.length (inv : Owned freelist shadows ioState live free outstanding) :
    free.length + outstanding.length = 31 := by
  have length := inv.ids.length_eq
  rw [List.length_append, List.length_map, List.length_range'] at length
  exact length

theorem Owned.ids_nodup (inv : Owned freelist shadows ioState live free outstanding) :
    (free ++ outstanding.map (·.id)).Nodup := inv.ids.nodup_iff.mpr List.nodup_range'

theorem Owned.id_mem (inv : Owned freelist shadows ioState live free outstanding)
    (member : s ∈ outstanding) : 1 ≤ s.id := by
  have inside : s.id ∈ free ++ outstanding.map (·.id) :=
    List.mem_append_right _ (List.mem_map_of_mem member)
  exact (List.mem_range'_1.mp (inv.ids.mem_iff.mp inside)).1

theorem Owned.perm (inv : Owned freelist shadows ioState live free outstanding)
    (same : outstanding.Perm other) : Owned freelist shadows ioState live free other := by
  have ids : (free ++ other.map (·.id)).Perm (List.range' 1 31) :=
    ((same.map _).append_left free).symm.trans inv.ids
  refine ⟨inv.holds, ids, fun s member => inv.shadows s (same.mem_iff.mpr member),
    fun s member => inv.submitted s (same.mem_iff.mpr member), (same.map _).nodup_iff.mp inv.requests,
    (same.flatMap_right _).nodup_iff.mp inv.refs, fun ref => ?_⟩
  rw [inv.live, (same.flatMap_right _).mem_iff]

/-- `get_freelist_id` and the rest of a submission. -/
theorem Owned.submit (inv : Owned freelist shadows ioState live (s.id :: free) outstanding)
    {flag : Shadow} (empty : ioState s.request = .empty) (new : s.refs.Nodup)
    (fresh : ∀ ref ∈ s.refs, live ref = false) :
    Owned (FreeList.pop freelist)
      (Function.update (Function.update shadows s.id flag) s.id ⟨s.refs, s.refs.length, false, s.request⟩)
      (Function.update ioState s.request .submitted) (fun ref => s.refs.contains ref || live ref)
      free (outstanding ++ [s]) := by
  have nodup := inv.ids_nodup
  have ids := inv.ids
  rw [List.cons_append] at nodup ids
  have otherId : ∀ t ∈ outstanding, t.id ≠ s.id := by
    intro t member same
    apply (List.nodup_cons.mp nodup).1
    rw [← same]
    exact List.mem_append_right _ (List.mem_map_of_mem member)
  have otherRequest : ∀ t ∈ outstanding, t.request ≠ s.request := by
    intro t member same
    have submitted := inv.submitted t member
    rw [same, empty] at submitted
    cases submitted
  refine ⟨inv.holds.pop.2, ?_, ?_, ?_, ?_, ?_, ?_⟩
  · rw [List.map_append, List.map_singleton, ← List.append_assoc]
    exact (List.perm_append_singleton s.id _).trans ids
  · intro t member
    rcases List.mem_append.mp member with old | last
    · rw [Function.update_of_ne (otherId t old), Function.update_of_ne (otherId t old)]
      exact inv.shadows t old
    · rw [List.mem_singleton.mp last, Function.update_self]
  · intro t member
    rcases List.mem_append.mp member with old | last
    · rw [Function.update_of_ne (otherRequest t old)]
      exact inv.submitted t old
    · rw [List.mem_singleton.mp last, Function.update_self]
  · rw [List.map_append, List.map_singleton]
    apply List.nodup_append.mpr ⟨inv.requests, List.nodup_singleton _, _⟩
    intro request old last mine same
    obtain ⟨t, member, rfl⟩ := List.mem_map.mp old
    exact otherRequest t member (same.trans (List.mem_singleton.mp mine))
  · rw [List.flatMap_append, List.flatMap_singleton]
    apply List.nodup_append.mpr ⟨inv.refs, new, _⟩
    intro ref old other mine same
    have alive := (inv.live ref).mpr old
    rw [fresh ref (same ▸ mine)] at alive
    cases alive
  · intro ref
    rw [List.flatMap_append, List.flatMap_singleton, List.mem_append, ← inv.live]
    simp [or_comm]

/-- All of a request's grants are live and none is mapped: they are all ended. -/
theorem completeRequest_eq (mapped live : Nat → Bool) (refs : List Nat) (nodup : refs.Nodup)
    (alive : ∀ ref ∈ refs, live ref = true) (released : ∀ ref ∈ refs, mapped ref = false) :
    (completeRequest mapped refs live).2 = refs ∧
      ∀ ref, (completeRequest mapped refs live).1 ref = true ↔ live ref = true ∧ ref ∉ refs := by
  induction refs generalizing live with
  | nil => simp [completeRequest]
  | cons first rest ih =>
    obtain ⟨once, nodup⟩ := List.nodup_cons.mp nodup
    have both : live first = true ∧ mapped first = false :=
      ⟨alive first List.mem_cons_self, released first List.mem_cons_self⟩
    have left : ∀ ref ∈ rest, Function.update live first false ref = true := by
      intro ref member
      have different : ref ≠ first := fun same => once (same ▸ member)
      rw [Function.update_of_ne different]
      exact alive ref (List.mem_cons_of_mem first member)
    obtain ⟨ended, after⟩ := ih _ nodup left fun ref member => released ref (List.mem_cons_of_mem first member)
    rw [completeRequest, if_pos both]
    refine ⟨congrArg (first :: ·) ended, fun ref => ?_⟩
    dsimp only
    rw [after, List.mem_cons]
    by_cases same : ref = first
    · simp [same]
    · simp [same]

/-- The end of a request: its grants are ended and its id is free again. -/
theorem Owned.respond (inv : Owned freelist shadows ioState live free (s :: outstanding))
    {after : Nat → Bool} {flag : Shadow} {done : IoState}
    (ended : ∀ ref, after ref = true ↔ live ref = true ∧ ref ∉ s.refs) :
    Owned (FreeList.push freelist s.id) (Function.update shadows s.id flag)
      (Function.update ioState s.request done) after (s.id :: free) outstanding := by
  have nodup := inv.ids_nodup
  have ids := inv.ids
  rw [List.map_cons] at nodup ids
  have middle : (free ++ s.id :: outstanding.map (·.id)).Perm
      (s.id :: free ++ outstanding.map (·.id)) := List.perm_middle
  have once := List.nodup_cons.mp (middle.nodup_iff.mp nodup)
  have requests := List.nodup_cons.mp (List.map_cons ▸ inv.requests)
  have refs := inv.refs
  rw [List.flatMap_cons] at refs
  obtain ⟨_, left, apart⟩ := List.nodup_append.mp refs
  refine ⟨inv.holds.push ?_ fun member => once.1 (List.mem_append_left _ member), middle.symm.trans ids,
    ?_, ?_, requests.2, left, ?_⟩
  · have least := inv.id_mem List.mem_cons_self
    omega
  · intro t member
    have different : t.id ≠ s.id := fun same =>
      once.1 (same ▸ List.mem_append_right _ (List.mem_map_of_mem member))
    rw [Function.update_of_ne different]
    exact inv.shadows t (List.mem_cons_of_mem s member)
  · intro t member
    have different : t.request ≠ s.request := fun same =>
      requests.1 (same ▸ List.mem_map_of_mem member)
    rw [Function.update_of_ne different]
    exact inv.submitted t (List.mem_cons_of_mem s member)
  · intro ref
    rw [ended, inv.live, List.flatMap_cons, List.mem_append]
    constructor
    · rintro ⟨mine | other, not⟩
      · exact absurd mine not
      · exact other
    · intro other
      exact ⟨Or.inr other, fun mine => apart ref mine ref other rfl⟩

end Owned

/-! ## The ring -/

/-- An entry that nobody reads any more, when the requests with these tags are handled. -/
def Slot.Dead (slot : Slot) (handled : List Nat) : Prop :=
  match slot with
  | .empty => True
  | .request _ _ _ => False
  | .response tag _ _ => tag ∈ handled

/-- The responses from `first` on are unread, the submissions after them unanswered; the
rest of the lap is dead. -/
structure Placed (ring : Nat → Slot) (submissions : List Sub) (handled : List Nat) (first : Nat)
    (unread : List (Sub × Int)) : Prop where
  responses : ∀ j s status, unread[j]? = some (s, status) →
    ring ((first + j) % 32) = .response s.tag s.id status
  requests : ∀ k s, submissions[k]? = some s → first + unread.length ≤ k →
    ring (k % 32) = .request s.tag s.id s.refs
  dead : ∀ k, submissions.length ≤ k → k < first + 32 → (ring (k % 32)).Dead handled

section Placed
variable {ring : Nat → Slot} {submissions : List Sub} {handled : List Nat} {first : Nat}
  {unread : List (Sub × Int)} {s : Sub} {status : Int}

theorem Slot.Dead.setByte5 {slot : Slot} {byte : Nat} (dead : slot.Dead handled) :
    (slot.setByte5 byte).Dead handled := by
  cases slot with
  | empty => exact dead
  | request tag id grefs => exact dead
  | response tag id status =>
    have handledTag : tag ∈ handled := dead
    exact handledTag

theorem Slot.Dead.mono {slot : Slot} {more : List Nat} (dead : slot.Dead handled)
    (within : ∀ tag ∈ handled, tag ∈ more) : slot.Dead more := by
  cases slot with
  | empty => trivial
  | request tag id grefs => exact dead
  | response tag id status => exact within tag dead

theorem strayLastSect_other {slot numPages endSector i : Nat} (other : i ≠ slot + 1) :
    strayLastSect ring slot numPages endSector i = ring i := by
  unfold strayLastSect
  split
  · exact Function.update_of_ne other ..
  · rfl

theorem strayLastSect_dead {slot numPages endSector i : Nat} (dead : (ring i).Dead handled) :
    (strayLastSect ring slot numPages endSector i).Dead handled := by
  unfold strayLastSect
  split
  · by_cases here : i = slot + 1
    · rw [here, Function.update_self]
      rw [here] at dead
      exact dead.setByte5
    · rw [Function.update_of_ne here]
      exact dead
  · exact dead

/-- A request goes to the first dead entry; the stray byte of a full one to the second. -/
theorem Placed.submit (inv : Placed ring submissions handled first unread) {numPages endSector : Nat}
    (answered : first + unread.length ≤ submissions.length) (room : submissions.length < first + 31) :
    Placed (strayLastSect (Function.update ring (submissions.length % 32) (.request s.tag s.id s.refs))
      (submissions.length % 32) numPages endSector) (submissions ++ [s]) handled first unread := by
  refine ⟨fun j t status found => ?_, fun k t found later => ?_, fun k beyond lap => ?_⟩
  · have within := (List.getElem?_eq_some_iff.mp found).1
    rw [strayLastSect_other (by omega), Function.update_of_ne (by omega)]
    exact inv.responses j t status found
  · by_cases last : k = submissions.length
    · rw [last, List.getElem?_concat_length] at found
      rw [last, strayLastSect_other (by omega), Function.update_self, Option.some.inj found]
    · have within := (List.getElem?_eq_some_iff.mp found).1
      rw [List.length_append, List.length_singleton] at within
      have before : k < submissions.length := by omega
      rw [List.getElem?_append_left before] at found
      rw [strayLastSect_other (by omega), Function.update_of_ne (by omega)]
      exact inv.requests k t found later
  · rw [List.length_append, List.length_singleton] at beyond
    apply strayLastSect_dead
    rw [Function.update_of_ne (by omega)]
    exact inv.dead k (by omega) lap

/-- A response goes where the first request was that has not been answered. -/
theorem Placed.answer (inv : Placed ring submissions handled first unread)
    (taken : first + unread.length < submissions.length) (near : submissions.length ≤ first + 31) :
    Placed (Function.update ring ((first + unread.length) % 32) (.response s.tag s.id status))
      submissions handled first (unread ++ [(s, status)]) := by
  refine ⟨fun j t answer found => ?_, fun k t found later => ?_, fun k beyond lap => ?_⟩
  · by_cases last : j = unread.length
    · rw [last, List.getElem?_concat_length] at found
      cases found
      rw [last, Function.update_self]
    · have within := (List.getElem?_eq_some_iff.mp found).1
      rw [List.length_append, List.length_singleton] at within
      have before : j < unread.length := by omega
      rw [List.getElem?_append_left before] at found
      rw [Function.update_of_ne (by omega)]
      exact inv.responses j t answer found
  · have within := (List.getElem?_eq_some_iff.mp found).1
    rw [List.length_append, List.length_singleton] at later
    rw [Function.update_of_ne (by omega)]
    exact inv.requests k t found (by omega)
  · rw [Function.update_of_ne (by omega)]
    exact inv.dead k beyond lap

/-- The entry of a response is dead when it is handled. -/
theorem Placed.respond {rest : List (Sub × Int)}
    (inv : Placed ring submissions handled first ((s, status) :: rest)) :
    Placed ring submissions (handled ++ [s.tag]) (first + 1) rest := by
  refine ⟨fun j t answer found => ?_, fun k t found later => ?_, fun k beyond lap => ?_⟩
  · have same : first + 1 + j = first + (j + 1) := by omega
    rw [same]
    apply inv.responses
    rw [List.getElem?_cons_succ]
    exact found
  · apply inv.requests k t found
    rw [List.length_cons]
    omega
  · by_cases last : k = first + 32
    · have slot : ring (first % 32) = .response s.tag s.id status := inv.responses 0 s status rfl
      rw [last, Nat.add_mod_right, slot]
      exact List.mem_append_right _ (List.mem_singleton.mpr rfl)
    · have dead := inv.dead k beyond (by omega)
      exact dead.mono fun tag member => List.mem_append_left _ member

end Placed

end Stardust.Blkfront
