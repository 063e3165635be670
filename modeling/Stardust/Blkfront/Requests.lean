import Stardust.Blkfront.Books

/-! # Requests of the block front end

Every submission is waiting on the ring, taken by the back end, answered and unread, or
done.  With that the 31 ids bound the ring, and no response stays unread without an event
on its way. -/
set_option autoImplicit false
namespace Stardust.Blkfront

open Stardust.Lib

/-- Where the submissions are, with the free ids and how many of the unread responses
are published. -/
structure Books where
  done : List (Sub × Int)
  unread : List (Sub × Int)
  taken : List Sub
  waiting : List Sub
  free : List Nat
  published : Nat

def Books.outstanding (b : Books) : List Sub := b.unread.map (·.1) ++ b.taken ++ b.waiting

def Books.handled (b : Books) : List Nat := b.done.map (·.1.tag)

def Sub.copy (s : Sub) : Taken := ⟨s.tag, s.id, s.refs⟩

structure Logged (state : BlkRun) (b : Books) : Prop where
  submissions : state.submissions.Perm (b.done.map (·.1) ++ b.outstanding)
  tags : ∀ (k : Nat) (s : Sub), state.submissions[k]? = some s → s.tag = k
  completed : state.completed = b.done.map fun c => ⟨c.1.tag, c.1.request, doneState c.2, c.1.refs⟩
  answers : state.answers = (b.done ++ b.unread).map fun c => (c.1.tag, c.2)
  waiting : ∃ before, state.submissions = before ++ b.waiting

structure Indexed (state : BlkRun) (b : Books) : Prop where
  inFlight : state.inFlight = b.taken.map Sub.copy
  reqProdPvt : state.reqProdPvt = state.submissions.length % 2 ^ 32
  reqProd : state.reqProd = state.submissions.length % 2 ^ 32
  reqCons : state.reqCons = (state.submissions.length - b.waiting.length) % 2 ^ 32
  rspProdPvt : state.rspProdPvt = (b.done.length + b.unread.length) % 2 ^ 32
  mapped : ∀ ref, state.mapped ref = true → ∃ s ∈ b.taken, ref ∈ s.refs

/-- An event is on its way to the handler. -/
def Signalled (state : BlkRun) (b : Books) : Prop :=
  state.pending = true ∨ state.notify = true ∨
    ∃ o, state.pushing = some (o % 2 ^ 32) ∧ o ≤ b.done.length ∧ b.done.length + b.published ≤ o + 31

def HandlerAt (state : BlkRun) (b : Books) : Prop :=
  match state.handler with
  | .idle =>
    state.rspCons = b.done.length % 2 ^ 32 ∧ state.rspEvent = (b.done.length + 1) % 2 ^ 32 ∧
      (0 < b.published → Signalled state b)
  | .start | .check | .event => state.rspCons = b.done.length % 2 ^ 32
  | .loop cons prod =>
    cons = b.done.length % 2 ^ 32 ∧
      ∃ q, q ≤ b.published ∧ prod = (b.done.length + q) % 2 ^ 32
  | .recheck =>
    state.rspCons = b.done.length % 2 ^ 32 ∧ state.rspEvent = (b.done.length + 1) % 2 ^ 32
  | .quiet cons =>
    cons = b.done.length % 2 ^ 32 ∧ state.rspCons = b.done.length % 2 ^ 32 ∧ b.outstanding = []

structure Wake (state : BlkRun) (b : Books) : Prop where
  published : b.published ≤ b.unread.length
  rspProd : state.rspProd = (b.done.length + b.published) % 2 ^ 32
  pushing : ∀ old, state.pushing = some old → ∃ o, old = o % 2 ^ 32 ∧
    o ≤ b.done.length + b.published ∧ b.done.length + b.published ≤ o + 31
  handler : HandlerAt state b

structure Kept (state : BlkRun) (b : Books) : Prop where
  owned : Owned state.freelist state.shadows state.ioState state.live b.free b.outstanding
  placed : Placed state.ring state.submissions b.handled b.done.length b.unread
  logged : Logged state b
  indexed : Indexed state b
  wake : Wake state b
  bugged : state.bugged = false

section Correct
variable {state : BlkRun} {b : Books}

theorem Kept.lengths (inv : Kept state b) :
    state.submissions.length =
        b.done.length + b.unread.length + b.taken.length + b.waiting.length ∧
      b.free.length + (b.unread.length + b.taken.length + b.waiting.length) = 31 := by
  have all := inv.logged.submissions.length_eq
  have ids := inv.owned.length
  unfold Books.outstanding at all ids
  simp only [List.length_append, List.length_map] at all ids
  omega

theorem Logged.tags_eq (inv : Logged state b) :
    state.submissions.map (·.tag) = List.range state.submissions.length := by
  apply List.ext_getElem?
  intro k
  rw [List.getElem?_map]
  cases found : state.submissions[k]? with
  | none =>
    have beyond := List.getElem?_eq_none_iff.mp found
    rw [List.getElem?_eq_none (by simpa using beyond), Option.map_none]
  | some s =>
    have within := (List.getElem?_eq_some_iff.mp found).1
    rw [List.getElem?_range within, Option.map_some, inv.tags k s found]

theorem Logged.tags_nodup (inv : Logged state b) :
    (b.done.map (·.1.tag) ++ b.outstanding.map (·.tag)).Nodup := by
  have perm := inv.submissions.map (·.tag)
  rw [List.map_append, List.map_map] at perm
  apply perm.nodup_iff.mp
  rw [inv.tags_eq]
  exact List.nodup_range

theorem Logged.completed_tags (inv : Logged state b) : state.completed.map (·.tag) = b.handled := by
  rw [inv.completed, List.map_map]
  rfl

theorem Logged.outstanding_perm (inv : Logged state b) : state.outstanding.Perm b.outstanding := by
  have nodup := List.nodup_append.mp inv.tags_nodup
  unfold BlkRun.outstanding
  rw [inv.completed_tags]
  apply (inv.submissions.filter _).trans
  rw [List.filter_append]
  have gone : (b.done.map (·.1)).filter (fun s => s.tag ∉ b.handled) = [] := by
    apply List.filter_eq_nil_iff.mpr
    intro s member
    obtain ⟨c, here, rfl⟩ := List.mem_map.mp member
    have handled : c.1.tag ∈ b.handled := List.mem_map_of_mem here
    simp [handled]
  have kept : b.outstanding.filter (fun s => s.tag ∉ b.handled) = b.outstanding := by
    apply List.filter_eq_self.mpr
    intro s member
    have apart : s.tag ∉ b.handled := fun handled =>
      nodup.2.2 s.tag handled s.tag (List.mem_map_of_mem member) rfl
    simp [apart]
  rw [gone, kept, List.nil_append]

theorem Kept.settled (inv : Kept state b) (settled : state.Settled) : state.outstanding = [] := by
  obtain ⟨taken, answered, ⟨pushed, idle⟩, notify, pending, handler⟩ := settled
  obtain ⟨all, ids⟩ := inv.lengths
  have nobodyWaits : b.waiting.length = 0 := by
    rw [inv.indexed.reqCons, inv.indexed.reqProd] at taken
    omega
  have noneTaken : b.taken.length = 0 := by
    have length := congrArg List.length inv.indexed.inFlight
    rw [answered, List.length_nil, List.length_map] at length
    exact length.symm
  have noneUnread : b.unread.length = 0 := by
    have published := inv.wake.published
    have at' := inv.wake.handler
    unfold HandlerAt at at'
    rw [handler] at at'
    rw [inv.wake.rspProd, inv.indexed.rspProdPvt] at pushed
    have none : b.published = 0 := by
      by_contra some
      rcases at'.2.2 (by omega) with signal | signal | ⟨o, signal, _⟩
      · rw [pending] at signal
        cases signal
      · rw [notify] at signal
        cases signal
      · rw [idle] at signal
        cases signal
    omega
  have empty : b.outstanding = [] := by
    rw [Books.outstanding, List.eq_nil_of_length_eq_zero nobodyWaits,
      List.eq_nil_of_length_eq_zero noneTaken, List.eq_nil_of_length_eq_zero noneUnread]
    rfl
  have perm := inv.logged.outstanding_perm
  rw [empty] at perm
  exact perm.eq_nil

theorem Kept.correct (inv : Kept state b) : BlkCorrect state := by
  have perm := inv.logged.outstanding_perm
  have tags := inv.logged.tags_nodup
  obtain ⟨all, ids⟩ := inv.lengths
  refine ⟨?_, ⟨?_, fun s member => ?_⟩, fun id => ?_, inv.bugged, ?_, ?_, fun c member => ?_, ?_,
    fun ref => ?_, ?_, inv.settled⟩
  · have length := inv.owned.length
    rw [perm.length_eq]
    omega
  · exact (perm.map _).nodup_iff.mpr (List.nodup_append.mp inv.owned.ids_nodup).2.1
  · have least := inv.owned.id_mem (perm.mem_iff.mp member)
    omega
  · have some : b.free ≠ [] := fun none => id (inv.owned.holds.head_eq_zero.mpr none)
    have length := List.length_pos_of_ne_nil some
    have dead := inv.placed.dead state.submissions.length (Nat.le_refl _) (by omega)
    have slot : state.reqProdPvt % blkRingSize = state.submissions.length % 32 := by
      rw [inv.indexed.reqProdPvt]
      unfold blkRingSize
      omega
    rw [slot]
    cases entry : state.ring (state.submissions.length % 32) with
    | empty => trivial
    | request tag id grefs =>
      rw [entry] at dead
      exact dead.elim
    | response tag id status =>
      rw [entry] at dead
      change tag ∈ state.completed.map (·.tag)
      rw [inv.logged.completed_tags]
      exact dead
  · rw [inv.logged.tags_eq]
    exact List.nodup_range
  · rw [inv.logged.completed_tags]
    exact (List.nodup_append.mp tags).1
  · rw [inv.logged.completed] at member
    obtain ⟨⟨s, status⟩, here, rfl⟩ := List.mem_map.mp member
    refine ⟨s, ?_, status, rfl, rfl, ?_, rfl, rfl⟩
    · apply inv.logged.submissions.mem_iff.mpr
      exact List.mem_append_left _ (List.mem_map_of_mem here)
    · rw [inv.logged.answers]
      exact List.mem_map_of_mem (List.mem_append_left _ here)
  · rw [inv.logged.answers, List.map_map, List.map_append]
    apply List.Nodup.sublist _ tags
    apply (List.Sublist.refl _).append
    unfold Books.outstanding
    rw [List.map_append, List.map_append, List.map_map, List.append_assoc]
    exact List.sublist_append_left ..
  · rw [inv.owned.live, List.mem_flatMap]
    constructor
    · rintro ⟨s, member, here⟩
      exact ⟨s, perm.mem_iff.mpr member, here⟩
    · rintro ⟨s, member, here⟩
      exact ⟨s, perm.mem_iff.mp member, here⟩
  · exact (perm.flatMap_right _).nodup_iff.mpr inv.owned.refs

end Correct

end Stardust.Blkfront
