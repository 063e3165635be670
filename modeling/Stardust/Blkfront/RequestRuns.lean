import Mathlib.Data.List.InsertIdx
import Mathlib.Data.List.Perm.Basic
import Stardust.Blkfront.Requests

/-! # Runs of the block front end -/
set_option autoImplicit false
namespace Stardust.Blkfront

open Stardust.Lib

section Steps
variable {state after : BlkRun} {b : Books} {op : BlkOp}

theorem slot_mod (n : Nat) : n % 2 ^ 32 % blkRingSize = n % 32 := by
  unfold blkRingSize
  omega

theorem Kept.start (fresh : FreshBlk state) :
    Kept state ⟨[], [], [], [], (List.range' 1 31).reverse, 0⟩ := by
  obtain ⟨freelist, ring, handler, ⟨reqProdPvt, rspCons⟩, ⟨reqProd, rspProd, rspEvent⟩,
    ⟨reqCons, rspProdPvt, inFlight, pushing⟩, live, mapped, bugged, submissions, answers, completed⟩ := fresh
  have empty (s : Sub) : s ∉ Books.outstanding ⟨[], [], [], [], (List.range' 1 31).reverse, 0⟩ := by
    simp [Books.outstanding]
  refine ⟨⟨?_, ?_, fun s member => absurd member (empty s), fun s member => absurd member (empty s),
      List.nodup_nil, List.nodup_nil, ?_⟩, ⟨by simp, ?_, ?_⟩,
    ⟨?_, ?_, completed, answers, ⟨[], submissions⟩⟩, ⟨inFlight, ?_, ?_, ?_, rspProdPvt, ?_⟩,
    ⟨Nat.le_refl 0, rspProd, ?_, ?_⟩, bugged⟩
  · rw [freelist]
    exact initBuffers_holds
  · change ((List.range' 1 31).reverse ++ []).Perm _
    rw [List.append_nil]
    exact List.reverse_perm _
  · intro ref
    rw [live]
    simp [Books.outstanding]
  · simp [submissions]
  · intro k _ _
    rw [ring]
    trivial
  · rw [submissions]
    exact List.Perm.refl _
  · simp [submissions]
  · rw [reqProdPvt, submissions]
    rfl
  · rw [reqProd, submissions]
    rfl
  · rw [reqCons, submissions]
    rfl
  · intro ref here
    rw [mapped] at here
    cases here
  · simp [pushing]
  · unfold HandlerAt
    rw [handler]
    exact ⟨rspCons, rspEvent, by simp⟩

/-! ## The front end -/

theorem Kept.prepare (inv : Kept state b) {request : Nat}
    (mine : request ∉ state.outstanding.map (·.request)) :
    Kept { state with ioState := Function.update state.ioState request .empty } b := by
  refine ⟨{ inv.owned with submitted := fun s member => ?_ }, inv.placed, { inv.logged with },
    { inv.indexed with }, { inv.wake with }, inv.bugged⟩
  have other : s.request ≠ request := by
    rintro rfl
    exact mine (List.mem_map_of_mem (inv.logged.outstanding_perm.mem_iff.mpr member))
  dsimp only
  rw [Function.update_of_ne other]
  exact inv.owned.submitted s member

/-- Without a free id nothing is submitted. -/
theorem Kept.getFreelistId_zero (inv : Kept state b) (none : state.freelist 0 = 0) :
    Kept (getFreelistId state) b := by
  have same : Function.update state.freelist 0 (state.freelist (state.freelist 0)) = state.freelist := by
    rw [none]
    exact Function.update_eq_self ..
  have owned := inv.owned
  refine ⟨⟨?_, owned.ids, fun s member => ?_, owned.submitted, owned.requests, owned.refs, owned.live⟩,
    inv.placed, { inv.logged with }, { inv.indexed with }, { inv.wake with }, inv.bugged⟩
  · change FreeList.Holds (Function.update _ 0 _) _
    rw [same]
    exact owned.holds
  · have least := owned.id_mem member
    change Function.update state.shadows (state.freelist 0) _ s.id = _
    rw [none, Function.update_of_ne (by omega)]
    exact owned.shadows s member

/-- The handler is between two responses, or not running: a submission leaves it there. -/
theorem HandlerAt.submits (at' : HandlerAt state b) (submits : state.handler.submits = true)
    {now : BlkRun} {books : Books} (handler : now.handler = state.handler)
    (rspCons : now.rspCons = state.rspCons) (rspEvent : now.rspEvent = state.rspEvent)
    (pending : now.pending = state.pending) (notify : now.notify = state.notify)
    (pushing : now.pushing = state.pushing) (done : books.done = b.done)
    (published : books.published = b.published) : HandlerAt now books := by
  unfold HandlerAt Signalled at *
  rw [handler, rspCons, rspEvent, pending, notify, pushing, done, published]
  cases phase : state.handler with
  | idle =>
    rw [phase] at at'
    exact at'
  | loop cons prod =>
    rw [phase] at at'
    exact at'
  | _ =>
    rw [phase] at submits
    cases submits

theorem Kept.submit (inv : Kept state b) {request endSector : Nat} {refs : List Nat}
    (empty : state.ioState request = .empty) (submits : state.handler.submits = true)
    (grantable : state.Grantable refs) : ∃ books, Kept (blkDoIo state request refs endSector) books := by
  unfold blkDoIo
  dsimp only
  split
  · rename_i none
    exact ⟨b, inv.getFreelistId_zero none⟩
  · rename_i some
    obtain ⟨_, _, nodup, new⟩ := grantable
    obtain ⟨all, ids⟩ := inv.lengths
    cases free : b.free with
    | nil => exact absurd (inv.owned.holds.head_eq_zero.mpr free) some
    | cons id rest =>
      have head : state.freelist 0 = id := by
        have holds := inv.owned.holds
        rw [free] at holds
        exact holds.pop.1
      rw [free, List.length_cons] at ids
      rw [head]
      let s : Sub := ⟨state.submissions.length, request, id, refs⟩
      have owned := inv.owned
      rw [free] at owned
      have slot : state.reqProdPvt % blkRingSize = state.submissions.length % 32 := by
        rw [inv.indexed.reqProdPvt, slot_mod]
      have next : uintAdd state.reqProdPvt 1 = (state.submissions ++ [s]).length % 2 ^ 32 := by
        rw [inv.indexed.reqProdPvt, uintAdd_mod, List.length_append, List.length_singleton]
      have longer : ({ b with waiting := b.waiting ++ [s], free := rest } : Books).outstanding =
          b.outstanding ++ [s] := by
        simp only [Books.outstanding, List.append_assoc]
      refine ⟨{ b with waiting := b.waiting ++ [s], free := rest }, ?_, ?_, ⟨?_, ?_, inv.logged.completed,
        inv.logged.answers, ?_⟩, ⟨inv.indexed.inFlight, next, next, ?_, inv.indexed.rspProdPvt,
        inv.indexed.mapped⟩, ⟨inv.wake.published, inv.wake.rspProd, inv.wake.pushing, ?_⟩, inv.bugged⟩
      · have popped : Function.update state.freelist 0 (state.freelist id) = FreeList.pop state.freelist := by
          rw [FreeList.pop, head]
        simp only [getFreelistId, BlkRun.setShadow, head]
        rw [longer, popped]
        exact owned.submit (s := s) empty nodup new
      · rw [slot]
        exact inv.placed.submit (s := s) (by omega) (by omega)
      · rw [longer, ← List.append_assoc]
        exact inv.logged.submissions.append_right [s]
      · intro k t found
        by_cases last : k = state.submissions.length
        · rw [last] at found
          change (state.submissions ++ [s])[state.submissions.length]? = Option.some t at found
          rw [List.getElem?_concat_length] at found
          cases found
          exact last.symm
        · have within := (List.getElem?_eq_some_iff.mp found).1
          change k < (state.submissions ++ [s]).length at within
          rw [List.length_append, List.length_singleton] at within
          change (state.submissions ++ [s])[k]? = Option.some t at found
          rw [List.getElem?_append_left (by omega)] at found
          exact inv.logged.tags k t found
      · obtain ⟨before, split⟩ := inv.logged.waiting
        refine ⟨before, ?_⟩
        change state.submissions ++ [s] = before ++ (b.waiting ++ [s])
        rw [split, List.append_assoc]
      · change state.reqCons = ((state.submissions ++ [s]).length - (b.waiting ++ [s]).length) % 2 ^ 32
        rw [inv.indexed.reqCons, List.length_append, List.length_append, Nat.add_sub_add_right]
      · exact inv.wake.handler.submits submits rfl rfl rfl rfl rfl rfl rfl rfl

/-! ## The back end -/

theorem Kept.take (inv : Kept state b) (move : BlkStep state .take after) :
    ∃ books, Kept after books := by
  obtain ⟨some, move⟩ := Option.ite_none_right_eq_some.mp move
  obtain ⟨all, ids⟩ := inv.lengths
  obtain ⟨before, split⟩ := inv.logged.waiting
  cases waits : b.waiting with
  | nil =>
    rw [inv.indexed.reqCons, inv.indexed.reqProd, waits, List.length_nil, Nat.sub_zero] at some
    exact absurd rfl some
  | cons s rest =>
    rw [waits, List.length_cons] at all ids
    rw [waits] at split
    have position : state.submissions.length - b.waiting.length = before.length := by
      rw [split, waits, List.length_append, Nat.add_sub_cancel]
    have found : state.submissions[before.length]? = Option.some s := by
      rw [split, List.getElem?_append_right (Nat.le_refl _), Nat.sub_self, List.getElem?_cons_zero]
    have length := congrArg List.length split
    rw [List.length_append, List.length_cons] at length
    have entry : state.ring (state.reqCons % blkRingSize) = .request s.tag s.id s.refs := by
      rw [inv.indexed.reqCons, slot_mod, position]
      exact inv.placed.requests _ _ found (by omega)
    rw [entry] at move
    cases Option.some.inj move
    have same : ({ b with taken := b.taken ++ [s], waiting := rest } : Books).outstanding =
        b.outstanding := by
      simp [Books.outstanding, waits]
    refine ⟨{ b with taken := b.taken ++ [s], waiting := rest }, same ▸ inv.owned, inv.placed,
      { inv.logged with submissions := same ▸ inv.logged.submissions, waiting := ⟨before ++ [s], ?_⟩ },
      { inv.indexed with inFlight := ?_, reqCons := ?_, mapped := fun ref here => ?_ },
      { inv.wake with handler := ?_ }, inv.bugged⟩
    · dsimp only
      rw [split, List.append_assoc, List.singleton_append]
    · dsimp only
      rw [inv.indexed.inFlight, List.map_append]
      rfl
    · dsimp only
      rw [inv.indexed.reqCons, uintAdd_mod, position, split, List.length_append, List.length_cons]
      congr 1
      omega
    · obtain ⟨t, member, mine⟩ := inv.indexed.mapped ref here
      exact ⟨t, List.mem_append_left _ member, mine⟩
    · have at' := inv.wake.handler
      unfold HandlerAt at at' ⊢
      dsimp only
      rw [same]
      exact at'

theorem Kept.map (inv : Kept state b) {ref : Nat}
    (uses : ∃ request ∈ state.inFlight, ref ∈ request.grefs) :
    Kept { state with mapped := Function.update state.mapped ref true } b := by
  refine ⟨inv.owned, inv.placed, { inv.logged with }, { inv.indexed with mapped := fun other here => ?_ },
    { inv.wake with }, inv.bugged⟩
  by_cases same : other = ref
  · obtain ⟨request, member, mine⟩ := uses
    rw [inv.indexed.inFlight] at member
    obtain ⟨s, taken, rfl⟩ := List.mem_map.mp member
    exact ⟨s, taken, same ▸ mine⟩
  · dsimp only at here
    rw [Function.update_of_ne same] at here
    exact inv.indexed.mapped other here

theorem Kept.unmap (inv : Kept state b) {ref : Nat} :
    Kept { state with mapped := Function.update state.mapped ref false } b := by
  refine ⟨inv.owned, inv.placed, { inv.logged with }, { inv.indexed with mapped := fun other here => ?_ },
    { inv.wake with }, inv.bugged⟩
  dsimp only at here
  by_cases same : other = ref
  · rw [same, Function.update_self] at here
    cases here
  · rw [Function.update_of_ne same] at here
    exact inv.indexed.mapped other here

theorem Kept.answer (inv : Kept state b) {i : Nat} {status : Int} {request : Taken}
    (found : state.inFlight[i]? = some request)
    (released : ∀ ref ∈ request.grefs, state.mapped ref = false) :
    ∃ books, Kept { state with
      ring := Function.update state.ring (state.rspProdPvt % blkRingSize)
        (.response request.tag request.id status)
      rspProdPvt := uintAdd state.rspProdPvt 1
      inFlight := state.inFlight.eraseIdx i
      answers := state.answers ++ [(request.tag, status)] } books := by
  obtain ⟨all, ids⟩ := inv.lengths
  rw [inv.indexed.inFlight, List.getElem?_map] at found
  obtain ⟨s, here, rfl⟩ := Option.map_eq_some_iff.mp found
  obtain ⟨within, at'⟩ := List.getElem?_eq_some_iff.mp here
  have front : (s :: b.taken.eraseIdx i).Perm b.taken := by
    rw [← at']
    exact List.getElem_cons_eraseIdx_perm within
  have perm : b.outstanding.Perm ({ b with
      unread := b.unread ++ [(s, status)], taken := b.taken.eraseIdx i } : Books).outstanding := by
    simp only [Books.outstanding, List.map_append, List.map_cons, List.map_nil, List.append_assoc]
    apply List.Perm.append_left
    exact (front.symm.append_right b.waiting)
  refine ⟨{ b with unread := b.unread ++ [(s, status)], taken := b.taken.eraseIdx i },
    inv.owned.perm perm, ?_, { inv.logged with
      submissions := inv.logged.submissions.trans (perm.append_left _), answers := ?_ },
    { inv.indexed with inFlight := ?_, rspProdPvt := ?_, mapped := fun ref mapped => ?_ },
    { inv.wake with published := ?_, handler := ?_ }, inv.bugged⟩
  · dsimp only
    rw [inv.indexed.rspProdPvt, slot_mod]
    exact inv.placed.answer (by omega) (by omega)
  · dsimp only
    simp only [inv.logged.answers, List.map_append, List.map_cons, List.map_nil, List.append_assoc]
    rfl
  · dsimp only
    rw [inv.indexed.inFlight, List.eraseIdx_map]
  · dsimp only
    rw [inv.indexed.rspProdPvt, uintAdd_mod, List.length_append, List.length_singleton, Nat.add_assoc]
  · obtain ⟨t, member, mine⟩ := inv.indexed.mapped ref mapped
    rcases List.mem_cons.mp (front.mem_iff.mpr member) with same | other
    · have free := released ref (same ▸ mine)
      dsimp only at mapped
      rw [free] at mapped
      cases mapped
    · exact ⟨t, other, mine⟩
  · have published := inv.wake.published
    change b.published ≤ (b.unread ++ [(s, status)]).length
    rw [List.length_append]
    omega
  · have at' := inv.wake.handler
    unfold HandlerAt at at' ⊢
    dsimp only
    cases phase : state.handler with
    | quiet cons =>
      rw [phase] at at'
      exact ⟨at'.1, at'.2.1, List.Perm.nil_eq (at'.2.2 ▸ perm) |>.symm⟩
    | _ =>
      rw [phase] at at'
      exact at'

theorem Kept.push (inv : Kept state b) (idle : state.pushing = none) :
    Kept { state with rspProd := state.rspProdPvt, pushing := some state.rspProd }
      { b with published := b.unread.length } := by
  obtain ⟨all, ids⟩ := inv.lengths
  have published := inv.wake.published
  have old := inv.wake.rspProd
  refine ⟨inv.owned, inv.placed, { inv.logged with }, { inv.indexed with },
    ⟨Nat.le_refl _, inv.indexed.rspProdPvt, fun _ now => ⟨b.done.length + b.published, ?_, ?_, ?_⟩, ?_⟩,
    inv.bugged⟩
  · cases now
    exact old
  · dsimp only
    omega
  · dsimp only
    omega
  · have at' := inv.wake.handler
    unfold HandlerAt Signalled at at'
    unfold HandlerAt Signalled
    dsimp only
    cases phase : state.handler with
    | idle =>
      rw [phase] at at'
      obtain ⟨rspCons, rspEvent, signal⟩ := at'
      refine ⟨rspCons, rspEvent, fun _ => ?_⟩
      by_cases before : 0 < b.published
      · rcases signal before with pending | notify | ⟨o, pushing, _⟩
        · exact Or.inl pending
        · exact Or.inr (Or.inl notify)
        · rw [idle] at pushing
          cases pushing
      · refine Or.inr (Or.inr ⟨b.done.length, ?_, Nat.le_refl _, by omega⟩)
        rw [old]
        congr 2
        omega
    | loop cons prod =>
      rw [phase] at at'
      obtain ⟨here, q, least, upto⟩ := at'
      exact ⟨here, q, by omega, upto⟩
    | _ =>
      rw [phase] at at'
      exact at'

/-- The test finds the `rsp_event` of an idle handler among what was pushed. -/
theorem Kept.test (inv : Kept state b) {old : Nat} (pushing : state.pushing = some old) :
    Kept { state with
      pushing := none
      notify := state.notify ||
        decide (uintSub state.rspProd state.rspEvent < uintSub state.rspProd old) } b := by
  obtain ⟨all, ids⟩ := inv.lengths
  have published := inv.wake.published
  refine ⟨inv.owned, inv.placed, { inv.logged with }, { inv.indexed with },
    ⟨published, inv.wake.rspProd, nofun, ?_⟩, inv.bugged⟩
  have at' := inv.wake.handler
  unfold HandlerAt Signalled at at'
  unfold HandlerAt Signalled
  dsimp only
  cases phase : state.handler with
  | idle =>
    rw [phase] at at'
    obtain ⟨rspCons, rspEvent, signal⟩ := at'
    refine ⟨rspCons, rspEvent, fun some => ?_⟩
    rcases signal some with pending | notify | ⟨o, same, least, near⟩
    · exact Or.inl pending
    · right
      left
      rw [notify, Bool.true_or]
    · right
      left
      rw [pushing] at same
      cases same
      rw [inv.wake.rspProd, rspEvent, uintSub_mod (by omega) (by omega),
        uintSub_mod (by omega) (by omega), decide_eq_true (by omega), Bool.or_true]
  | _ =>
    rw [phase] at at'
    exact at'

theorem Kept.notify (inv : Kept state b) :
    Kept { state with notify := false, pending := true } b := by
  refine ⟨inv.owned, inv.placed, { inv.logged with }, { inv.indexed with },
    { inv.wake with handler := ?_ }, inv.bugged⟩
  have at' := inv.wake.handler
  unfold HandlerAt at at' ⊢
  dsimp only
  cases phase : state.handler with
  | idle =>
    rw [phase] at at'
    exact ⟨at'.1, at'.2.1, fun _ => Or.inl rfl⟩
  | _ =>
    rw [phase] at at'
    exact at'

/-! ## The handler -/

/-- The handler goes on with nothing else changed. -/
theorem Kept.handlerAt (inv : Kept state b) {handler : Handler} {rspCons rspEvent : Nat} {pending : Bool}
    (at' : HandlerAt { state with
      handler := handler, rspCons := rspCons, rspEvent := rspEvent, pending := pending } b) :
    Kept { state with
      handler := handler, rspCons := rspCons, rspEvent := rspEvent, pending := pending } b :=
  ⟨inv.owned, inv.placed, { inv.logged with }, { inv.indexed with }, { inv.wake with handler := at' },
    inv.bugged⟩

/-- The first unread response is handled. -/
def Books.handle (b : Books) (s : Sub) (status : Int) (rest : List (Sub × Int)) : Books :=
  { b with
    done := b.done ++ [(s, status)]
    unread := rest
    free := s.id :: b.free
    published := b.published - 1 }

section Handle
variable {s : Sub} {status : Int} {rest : List (Sub × Int)}

theorem Books.outstanding_handle (unread : b.unread = (s, status) :: rest) :
    b.outstanding = s :: (b.handle s status rest).outstanding := by
  simp [Books.outstanding, Books.handle, unread]

theorem Books.done_handle : (b.handle s status rest).done.length = b.done.length + 1 := List.length_append

/-- All the grants of an answered request are ended. -/
theorem Kept.grants_ended (inv : Kept state b) (unread : b.unread = (s, status) :: rest) :
    (completeRequest state.mapped s.refs state.live).2 = s.refs ∧
      ∀ ref, (completeRequest state.mapped s.refs state.live).1 ref = true ↔
        state.live ref = true ∧ ref ∉ s.refs := by
  have owned := inv.owned
  rw [Books.outstanding_handle unread] at owned
  have refs := owned.refs
  rw [List.flatMap_cons] at refs
  obtain ⟨nodup, _, apart⟩ := List.nodup_append.mp refs
  apply completeRequest_eq state.mapped state.live s.refs nodup
  · intro ref mine
    exact (owned.live ref).mpr (List.mem_flatMap.mpr ⟨s, List.mem_cons_self, mine⟩)
  · intro ref mine
    by_contra mapped
    obtain ⟨t, taken, other⟩ := inv.indexed.mapped ref (by simpa using mapped)
    have member : t ∈ (b.handle s status rest).outstanding := by
      simp [Books.outstanding, Books.handle, taken]
    exact apart ref mine ref (List.mem_flatMap.mpr ⟨t, member, other⟩) rfl

/-- The response is to an outstanding request, which it ends. -/
theorem Kept.respond_eq (inv : Kept state b) (unread : b.unread = (s, status) :: rest) {cons : Nat}
    (here : cons = b.done.length % 2 ^ 32) :
    Blkfront.respond state cons = { addIdFreelist state s.id with
      live := (completeRequest state.mapped s.refs state.live).1
      ioState := Function.update state.ioState s.request (doneState status)
      completed := state.completed ++ [⟨s.tag, s.request, doneState status, s.refs⟩] } := by
  have placed := inv.placed
  rw [unread] at placed
  have entry : state.ring (cons % blkRingSize) = .response s.tag s.id status := by
    rw [here, slot_mod]
    exact placed.responses 0 s status rfl
  have owned := inv.owned
  rw [Books.outstanding_handle unread] at owned
  have shadow := owned.shadows s List.mem_cons_self
  have submitted := owned.submitted s List.mem_cons_self
  unfold Blkfront.respond
  rw [entry]
  dsimp only
  rw [shadow]
  simp only [submitted, List.take_length, (inv.grants_ended unread).1]
  rfl

theorem Kept.respond_next (inv : Kept state b) (unread : b.unread = (s, status) :: rest) {cons prod q : Nat}
    (here : cons = b.done.length % 2 ^ 32) (least : q ≤ b.published) (some : q ≠ 0)
    (upto : prod = (b.done.length + q) % 2 ^ 32) :
    Kept { Blkfront.respond state cons with handler := .loop (uintAdd cons 1) prod }
      (b.handle s status rest) := by
  have published := inv.wake.published
  obtain ⟨all, ids⟩ := inv.lengths
  rw [unread, List.length_cons] at published
  have owned := inv.owned
  rw [Books.outstanding_handle unread] at owned
  have placed := inv.placed
  rw [unread] at placed
  rw [inv.respond_eq unread here]
  refine ⟨owned.respond (inv.grants_ended unread).2, ?_, { inv.logged with
      submissions := ?_, completed := ?_, answers := ?_ }, { inv.indexed with rspProdPvt := ?_ },
    ⟨?_, ?_, fun old pushing => ?_, ?_⟩, inv.bugged⟩
  · have handled : (b.handle s status rest).handled = b.handled ++ [s.tag] := by
      simp [Books.handled, Books.handle]
    rw [handled, Books.done_handle]
    exact placed.respond
  · apply inv.logged.submissions.trans
    dsimp only [Books.handle]
    rw [Books.outstanding_handle unread, List.map_append, List.append_assoc]
    rfl
  · dsimp only [Books.handle]
    rw [List.map_append, inv.logged.completed]
    rfl
  · dsimp only [Books.handle]
    rw [List.append_assoc, List.singleton_append, ← unread]
    exact inv.logged.answers
  · rw [Books.done_handle]
    change state.rspProdPvt = (_ + rest.length) % _
    rw [inv.indexed.rspProdPvt, unread, List.length_cons]
    congr 1
    omega
  · dsimp only [Books.handle]
    omega
  · rw [Books.done_handle]
    change state.rspProd = (_ + (b.published - 1)) % _
    rw [inv.wake.rspProd]
    congr 1
    omega
  · obtain ⟨o, same, least, near⟩ := inv.wake.pushing old pushing
    rw [Books.done_handle]
    dsimp only [Books.handle]
    exact ⟨o, same, by omega, by omega⟩
  · unfold HandlerAt
    rw [Books.done_handle]
    dsimp only [Books.handle]
    refine ⟨?_, q - 1, by omega, ?_⟩
    · rw [here, uintAdd_mod]
    · rw [upto]
      congr 1
      omega

end Handle

theorem Kept.respond (inv : Kept state b) {cons prod : Nat} (phase : state.handler = .loop cons prod)
    (more : cons ≠ prod) :
    ∃ books, Kept { respond state cons with handler := .loop (uintAdd cons 1) prod } books := by
  have at' := inv.wake.handler
  unfold HandlerAt at at'
  rw [phase] at at'
  obtain ⟨here, q, least, upto⟩ := at'
  have some : q ≠ 0 := by
    rintro rfl
    exact more (here.trans upto.symm)
  cases unread : b.unread with
  | nil =>
    have published := inv.wake.published
    rw [unread, List.length_nil] at published
    omega
  | cons first rest => exact ⟨_, inv.respond_next unread here least some upto⟩

theorem Kept.handler_step (inv : Kept state b) (move : handlerStep state = some after) :
    ∃ books, Kept after books := by
  obtain ⟨all, ids⟩ := inv.lengths
  have published := inv.wake.published
  have at' := inv.wake.handler
  unfold HandlerAt at at'
  unfold handlerStep at move
  cases phase : state.handler with
  | idle =>
    rw [phase] at move
    cases move
  | start =>
    rw [phase] at move at'
    cases Option.some.inj move
    exact ⟨b, inv.handlerAt ⟨at', b.published, Nat.le_refl _, inv.wake.rspProd⟩⟩
  | loop cons prod =>
    rw [phase] at move at'
    obtain ⟨here, q, least, upto⟩ := at'
    simp only at move
    split at move
    · rename_i more
      cases Option.some.inj move
      exact inv.respond phase more
    · split at move
      · cases Option.some.inj move
        exact ⟨b, inv.handlerAt here⟩
      · rename_i last
        cases Option.some.inj move
        refine ⟨b, inv.handlerAt ⟨here, here, ?_⟩⟩
        rw [not_not, here, inv.indexed.reqProdPvt] at last
        apply List.eq_nil_of_length_eq_zero
        simp only [Books.outstanding, List.length_append, List.length_map]
        omega
  | check =>
    rw [phase] at move at'
    simp only at move
    split at move
    · cases Option.some.inj move
      exact ⟨b, inv.handlerAt at'⟩
    · cases Option.some.inj move
      exact ⟨b, inv.handlerAt at'⟩
  | event =>
    rw [phase] at move at'
    cases Option.some.inj move
    refine ⟨b, inv.handlerAt ⟨at', ?_⟩⟩
    dsimp only
    rw [at', uintAdd_mod]
  | recheck =>
    rw [phase] at move at'
    simp only at move
    split at move
    · cases Option.some.inj move
      exact ⟨b, inv.handlerAt at'.1⟩
    · rename_i none
      cases Option.some.inj move
      refine ⟨b, inv.handlerAt ⟨at'.1, at'.2, fun some => ?_⟩⟩
      -- all that was published has been read
      rw [inv.wake.rspProd, at'.1, uintSub_mod (by omega) (by omega)] at none
      omega
  | quiet cons =>
    rw [phase] at move at'
    cases Option.some.inj move
    obtain ⟨here, rspCons, nothing⟩ := at'
    refine ⟨b, inv.handlerAt ⟨rspCons, ?_, fun some => ?_⟩⟩
    · dsimp only
      rw [here, uintAdd_mod]
    · have length := congrArg List.length nothing
      simp only [Books.outstanding, List.length_append, List.length_map, List.length_nil] at length
      omega

theorem Kept.step (inv : Kept state b) (move : blkStep state op = some after) :
    ∃ books, Kept after books := by
  cases op with
  | prepare request =>
    obtain ⟨mine, move⟩ := Option.ite_none_right_eq_some.mp move
    cases Option.some.inj move
    exact ⟨b, inv.prepare mine⟩
  | submit request refs endSector =>
    obtain ⟨⟨empty, submits, grantable⟩, move⟩ := Option.ite_none_right_eq_some.mp move
    cases Option.some.inj move
    exact inv.submit empty submits grantable
  | upcall =>
    obtain ⟨⟨_, idle⟩, move⟩ := Option.ite_none_right_eq_some.mp move
    cases Option.some.inj move
    have at' := inv.wake.handler
    unfold HandlerAt at at'
    rw [idle] at at'
    exact ⟨b, inv.handlerAt at'.1⟩
  | handler => exact inv.handler_step move
  | take => exact inv.take move
  | map ref =>
    obtain ⟨uses, move⟩ := Option.ite_none_right_eq_some.mp move
    cases Option.some.inj move
    exact ⟨b, inv.map uses⟩
  | unmap ref =>
    cases Option.some.inj move
    exact ⟨b, inv.unmap⟩
  | answer i status =>
    simp only [blkStep] at move
    split at move
    · rename_i request found
      obtain ⟨⟨_, released⟩, move⟩ := Option.ite_none_right_eq_some.mp move
      cases Option.some.inj move
      exact inv.answer found released
    · cases move
  | push =>
    obtain ⟨idle, move⟩ := Option.ite_none_right_eq_some.mp move
    cases Option.some.inj move
    exact ⟨_, inv.push idle⟩
  | test =>
    obtain ⟨old, pushing, rfl⟩ := Option.map_eq_some_iff.mp move
    exact ⟨b, inv.test pushing⟩
  | notify =>
    obtain ⟨_, move⟩ := Option.ite_none_right_eq_some.mp move
    cases Option.some.inj move
    exact ⟨b, inv.notify⟩

theorem exists_kept (reached : Reach FreshBlk BlkStep Always state) : ∃ b, Kept state b := by
  apply Reach.invariant (fun state => ∃ b, Kept state b) _ _ reached
  · exact fun _ fresh => ⟨_, Kept.start fresh⟩
  · intro before op after inv _ move
    obtain ⟨b, inv⟩ := inv
    exact inv.step move

/-- Every run keeps the account of its requests. -/
theorem blk_requests_accounted (reached : Reach FreshBlk BlkStep Always state) : BlkCorrect state := by
  obtain ⟨b, inv⟩ := exists_kept reached
  exact inv.correct

end Steps

/-! ## A run -/

def newBlk : BlkRun :=
  { freelist := initBuffers
    shadows := fun _ => ⟨[], 0, true, 0⟩
    reqProdPvt := 0
    rspCons := 0
    handler := .idle
    ioState := fun _ => .empty
    live := fun _ => false
    bugged := false
    ring := fun _ => .empty
    reqProd := 0
    rspProd := 0
    rspEvent := 1
    mapped := fun _ => false
    pending := false
    reqCons := 0
    rspProdPvt := 0
    inFlight := []
    pushing := none
    notify := false
    submissions := []
    answers := []
    completed := [] }

theorem newBlk_fresh : FreshBlk newBlk := by
  refine ⟨?_, fun _ => rfl, rfl, ⟨rfl, rfl⟩, ⟨rfl, rfl, rfl⟩, ⟨rfl, rfl, rfl, rfl⟩, fun _ => rfl,
    fun _ => rfl, rfl, rfl, rfl, rfl⟩
  rw [newBlk]

/-- Two requests, the second answered first and with an error; a third is submitted while
the handler runs. -/
def blkScript : List BlkOp :=
  [.submit 100 [50, 51] 7, .submit 200 [52] 3, .take, .map 50, .take, .answer 1 (-1), .push, .test,
    .notify, .unmap 50, .upcall, .handler, .handler, .submit 300 [52] 3, .handler, .handler, .answer 0 0,
    .push, .handler, .handler, .test, .handler, .handler, .handler, .handler, .handler, .handler]

theorem blk_requests_accounted_two :
    ∃ state, Reach FreshBlk BlkStep Always state ∧ BlkCorrect state ∧
      state.completed = [⟨1, 200, .doneError, [52]⟩, ⟨0, 100, .doneSuccess, [50, 51]⟩] := by
  have run : (runLabels blkStep Always blkScript newBlk).any (fun state =>
      decide (state.completed = [⟨1, 200, .doneError, [52]⟩, ⟨0, 100, .doneSuccess, [50, 51]⟩])) = true := by
    decide +kernel
  obtain ⟨state, reached, completed⟩ := Reach.of_run_ends newBlk_fresh run
  exact ⟨state, reached, blk_requests_accounted reached, completed⟩

end Stardust.Blkfront
