import Stardust.Blkfront.ReadBack

/-! # What a call gives back

The pages that it took from the allocator, the id and the grants of its request. -/
set_option autoImplicit false
namespace Stardust.Blkfront

open Stardust.Lib

/-! ## The books of a request -/

/-- The operations other than those that begin a request. -/
def Quiet (_ : BlkRun) : BlkOp → Prop
  | .prepare _ | .submit _ _ _ => False
  | _ => True

instance (state : BlkRun) (op : BlkOp) : Decidable (Quiet state op) := by
  unfold Quiet
  split <;> infer_instance

section Books
variable {state after : BlkRun} {op : BlkOp} {b : Books}

/-- Nothing is submitted, and at most one response is handled, to a request of the past. -/
structure QuietStep (state after : BlkRun) : Prop where
  submissions : after.submissions = state.submissions
  reqProdPvt : after.reqProdPvt = state.reqProdPvt
  handled : (after.completed = state.completed ∧ after.freelist = state.freelist ∧ after.ioState = state.ioState) ∨
    ∃ t ∈ state.submissions, ∃ c : Completed, c.tag = t.tag ∧ after.completed = state.completed ++ [c] ∧
      after.freelist = FreeList.push state.freelist t.id ∧
      after.ioState = Function.update state.ioState t.request c.state

theorem QuietStep.same (submissions : after.submissions = state.submissions)
    (reqProdPvt : after.reqProdPvt = state.reqProdPvt) (completed : after.completed = state.completed)
    (freelist : after.freelist = state.freelist) (ioState : after.ioState = state.ioState) : QuietStep state after :=
  ⟨submissions, reqProdPvt, Or.inl ⟨completed, freelist, ioState⟩⟩

theorem Kept.respond_quiet (inv : Kept state b) {cons prod : Nat} (phase : state.handler = .loop cons prod)
    (more : cons ≠ prod) :
    QuietStep state { Blkfront.respond state cons with handler := .loop (uintAdd cons 1) prod } := by
  have at' := inv.wake.handler
  unfold HandlerAt at at'
  rw [phase] at at'
  obtain ⟨here, q, least, upto⟩ := at'
  cases unread : b.unread with
  | nil =>
    have published := inv.wake.published
    rw [unread, List.length_nil] at published
    have none : q = 0 := by omega
    rw [none, Nat.add_zero] at upto
    exact absurd (here.trans upto.symm) more
  | cons first rest =>
    obtain ⟨t, status⟩ := first
    rw [inv.respond_eq unread here]
    refine ⟨rfl, rfl, Or.inr ⟨t, ?_, ⟨t.tag, t.request, doneState status, t.refs⟩, rfl, rfl, rfl, rfl⟩⟩
    apply inv.logged.submissions.mem_iff.mpr
    unfold Books.outstanding
    rw [unread]
    simp

theorem Kept.handler_quiet (inv : Kept state b) (move : handlerStep state = some after) :
    QuietStep state after := by
  unfold handlerStep at move
  cases phase : state.handler with
  | loop cons prod =>
    rw [phase] at move
    simp only at move
    split at move
    · rename_i more
      cases Option.some.inj move
      exact inv.respond_quiet phase more
    · split at move
      · cases Option.some.inj move
        exact .same rfl rfl rfl rfl rfl
      · cases Option.some.inj move
        exact .same rfl rfl rfl rfl rfl
  | idle =>
    rw [phase] at move
    cases move
  | _ =>
    rw [phase] at move
    simp only at move
    try split at move
    all_goals
      cases Option.some.inj move
      exact .same rfl rfl rfl rfl rfl

theorem Kept.quiet_step (inv : Kept state b) (quiet : Quiet state op) (move : BlkStep state op after) :
    QuietStep state after := by
  cases op with
  | prepare request => exact quiet.elim
  | submit request refs endSector => exact quiet.elim
  | handler => exact inv.handler_quiet move
  | upcall =>
    obtain ⟨_, move⟩ := Option.ite_none_right_eq_some.mp move
    cases Option.some.inj move
    exact .same rfl rfl rfl rfl rfl
  | take =>
    obtain ⟨_, move⟩ := Option.ite_none_right_eq_some.mp move
    split at move
    · cases Option.some.inj move
      exact .same rfl rfl rfl rfl rfl
    · cases move
  | map ref =>
    obtain ⟨_, move⟩ := Option.ite_none_right_eq_some.mp move
    cases Option.some.inj move
    exact .same rfl rfl rfl rfl rfl
  | unmap ref =>
    cases Option.some.inj move
    exact .same rfl rfl rfl rfl rfl
  | answer i status =>
    simp only [BlkStep, blkStep] at move
    split at move
    · obtain ⟨_, move⟩ := Option.ite_none_right_eq_some.mp move
      cases Option.some.inj move
      exact .same rfl rfl rfl rfl rfl
    · cases move
  | push =>
    obtain ⟨_, move⟩ := Option.ite_none_right_eq_some.mp move
    cases Option.some.inj move
    exact .same rfl rfl rfl rfl rfl
  | test =>
    obtain ⟨old, _, rfl⟩ := Option.map_eq_some_iff.mp move
    exact .same rfl rfl rfl rfl rfl
  | notify =>
    obtain ⟨_, move⟩ := Option.ite_none_right_eq_some.mp move
    cases Option.some.inj move
    exact .same rfl rfl rfl rfl rfl

/-- What a wait has done for the request that it is for. -/
structure Waited (begun state : BlkRun) (own : Sub) : Prop where
  kept : ∃ b, Kept state b
  submissions : state.submissions = begun.submissions
  reqProdPvt : state.reqProdPvt = begun.reqProdPvt
  handled : ∃ more, state.completed = begun.completed ++ more ∧ (more = [] → state.freelist = begun.freelist) ∧
    ∀ c, more = [c] → c.tag = own.tag →
      state.freelist = FreeList.push begun.freelist own.id ∧ state.ioState own.request = c.state

theorem Waited.step {begun : BlkRun} {own : Sub} (inv : Waited begun state own) (mine : own ∈ begun.submissions)
    (quiet : Quiet state op) (move : BlkStep state op after) : Waited begun after own := by
  obtain ⟨⟨b, kept⟩, submissions, reqProdPvt, more, completed, unhandled, handled⟩ := inv
  have effect := kept.quiet_step quiet move
  refine ⟨kept.step move, effect.submissions.trans submissions, effect.reqProdPvt.trans reqProdPvt, ?_⟩
  rcases effect.handled with ⟨same, freelist, ioState⟩ | ⟨t, member, c, tag, longer, freelist, ioState⟩
  · refine ⟨more, same.trans completed, fun none => freelist.trans (unhandled none), fun c one own => ?_⟩
    obtain ⟨pushed, done⟩ := handled c one own
    exact ⟨freelist.trans pushed, (congrFun ioState _).trans done⟩
  · refine ⟨more ++ [c], ?_, fun none => ?_, fun d one ours => ?_⟩
    · rw [longer, completed, List.append_assoc]
    · exact absurd none (by simp)
    · have first : more = [] := by
        have length := congrArg List.length one
        rw [List.length_append, List.length_singleton, List.length_singleton] at length
        exact List.eq_nil_of_length_eq_zero (by omega)
      rw [first, List.nil_append] at one
      cases one
      -- tags are not used twice: the response is to our own request
      have same : t = own := by
        apply List.inj_on_of_nodup_map kept.correct.tags member
        · rw [submissions]
          exact mine
        · rw [← tag, ours]
      rw [freelist, unhandled first, ioState, same]
      exact ⟨rfl, Function.update_self ..⟩

/-- The request that was submitted last is answered with the status and finished, and no other one is. -/
structure Completes (begun after : BlkRun) (tag : Nat) (status : Int) : Prop where
  quiet : Reach (· = begun) BlkStep Quiet after
  once : ∃ c : Completed, c.tag = tag ∧ after.completed = begun.completed ++ [c]
  answered : (tag, status) ∈ after.answers

section Request
variable {before begun : BlkRun} {request endSector : Nat} {refs : List Nat}

theorem blkDoIo_fields (free : before.freelist 0 ≠ 0) :
    (blkDoIo before request refs endSector).freelist = FreeList.pop before.freelist ∧
      (blkDoIo before request refs endSector).submissions =
        before.submissions ++ [⟨before.submissions.length, request, before.freelist 0, refs⟩] ∧
      (blkDoIo before request refs endSector).completed = before.completed ∧
      (blkDoIo before request refs endSector).reqProdPvt = uintAdd before.reqProdPvt 1 := by
  unfold blkDoIo
  dsimp only
  rw [if_neg free]
  exact ⟨rfl, rfl, rfl, rfl⟩

theorem outstanding_append {own : Sub} {c : Completed} (submissions : after.submissions = before.submissions ++ [own])
    (completed : after.completed = before.completed ++ [c]) (tag : c.tag = own.tag)
    (nodup : (after.submissions.map (·.tag)).Nodup) : after.outstanding = before.outstanding := by
  rw [submissions, List.map_append, List.map_singleton] at nodup
  obtain ⟨_, _, apart⟩ := List.nodup_append.mp nodup
  unfold BlkRun.outstanding
  rw [submissions, completed, List.filter_append, List.map_append, List.map_singleton, tag]
  have gone : [own].filter (fun s => s.tag ∉ before.completed.map (·.tag) ++ [own.tag]) = [] := by simp
  rw [gone, List.append_nil]
  apply List.filter_congr
  intro t member
  have other : t.tag ≠ own.tag := apart t.tag (List.mem_map_of_mem member) own.tag List.mem_cons_self
  simp [other]

/-- A request that is finished has given its id and its grants back, and is in the state that its
answer says. -/
theorem request_restores {status : Int} (reached : Reach FreshBlk BlkStep Always before)
    (move : BlkStep before (.submit request refs endSector) begun) (free : before.freelist 0 ≠ 0)
    (completes : Completes begun after before.submissions.length status) :
    after.freelist = before.freelist ∧ after.live = before.live ∧
      after.reqProdPvt = uintAdd before.reqProdPvt 1 ∧ after.ioState request = doneState status := by
  have accounted := (exists_kept reached).elim fun _ kept => kept.correct
  have reachedBegun : Reach FreshBlk BlkStep Always begun := reached.next trivial move
  obtain ⟨_, same⟩ := Option.ite_none_right_eq_some.mp move
  cases Option.some.inj same
  obtain ⟨freelist, submissions, completed, reqProdPvt⟩ :
    (blkDoIo before request refs endSector).freelist = _ ∧ _ := blkDoIo_fields free
  let own : Sub := ⟨before.submissions.length, request, before.freelist 0, refs⟩
  have mine : own ∈ (blkDoIo before request refs endSector).submissions := by
    rw [submissions]
    exact List.mem_append_right _ (List.mem_singleton.mpr rfl)
  have waited : Waited (blkDoIo before request refs endSector) after own := by
    apply Reach.invariant (fun state => Waited _ state own) _ _ completes.quiet
    · rintro state rfl
      exact ⟨exists_kept reachedBegun, rfl, rfl, [], (List.append_nil _).symm, fun _ => rfl, nofun⟩
    · exact fun state op after inv quiet move => inv.step mine quiet move
  obtain ⟨c, tag, once⟩ := completes.once
  obtain ⟨⟨b, kept⟩, submissionsAfter, reqProdPvtAfter, more, completedAfter, _, handled⟩ := waited
  have one : more = [c] := List.append_cancel_left (completedAfter.symm.trans once)
  have correct := kept.correct
  obtain ⟨pushed, ends⟩ := handled c one tag
  refine ⟨?_, ?_, reqProdPvtAfter.trans reqProdPvt, ?_⟩
  · rw [pushed, freelist]
    exact FreeList.push_pop
  · -- the same requests are outstanding as before
    have outstanding : after.outstanding = before.outstanding :=
      outstanding_append (submissionsAfter.trans submissions) (once.trans (by rw [completed])) tag correct.tags
    funext ref
    rw [Bool.eq_iff_iff, correct.live, accounted.live, outstanding]
  · -- there is one answer to it, and the callback saw its status
    have member : c ∈ after.completed := by
      rw [once]
      exact List.mem_append_right _ (List.mem_singleton.mpr rfl)
    obtain ⟨s, _, given, sameTag, _, answer, state, _⟩ := correct.own c member
    rw [← sameTag, tag] at answer
    have same := List.inj_on_of_nodup_map correct.answers answer completes.answered rfl
    rw [ends, state, (Prod.mk.inj same).2]

end Request

end Books

/-! ## The calls -/

inductive IoCall
  | write (buf : Nat)
  | read (buf : Nat)
  | readBlock

def IoCall.run : IoCall → World → Machine → Nat → Nat → Except Halt Done
  | .write buf, w, m, address, size => blkWrite w m address buf size
  | .read buf, w, m, address, size => blkRead w m address buf size
  | .readBlock, w, m, address, size => Blkfront.readBlock w m address size

section Calls
variable {w : World} {m : Machine} {call : IoCall} {address buf size : Nat} {done : Done}

/-- What the three calls have in common: the pages of the request, `blk_do_io`, and the wait when it
placed the request. -/
structure Called (w : World) (m : Machine) (size : Nat) (done : Done) : Prop where
  numPages : done.req.numPages = fullPages size + 1
  indexed : done.req.indexed = List.range' 0 (fullPages size + 1)
  io : ∃ memory, (({ m with memory := memory } : Machine).prepare w.request).blkDoIo w done.req =
    .ok (done.handed, done.err)
  waited : done.machine.run = if done.err = 0 then (w.wait done.handed).run else done.handed.run
  result : done.result = if done.err = 0 ∧ done.machine.run.ioState w.request = .doneSuccess then
    ((size / sectorSize : Nat) : Int) else -1

theorem blkWrite_called (ran : blkWrite w m address buf size = .ok done) :
    Called w m size done ∧ done.given = done.taken := by
  have handed : Handed w m address buf size .write done := transfer_handed ran
  unfold blkWrite at ran
  split at ran
  · cases ran
  · obtain ⟨⟨after, err⟩, _, ran⟩ := except_bind_ok.mp ran
    cases ran
    refine ⟨⟨transfer_numPages, transfer_splits.indexed, handed.io, ?_, ?_⟩, rfl⟩
    · by_cases placed : err = 0
      · simp only [placed, ne_eq, not_true_eq_false, if_false, if_true]
      · simp only [placed, ne_eq, not_false_eq_true, if_false, if_true]
    · by_cases placed : err = 0
      · simp only [placed, ne_eq, not_true_eq_false, if_false, true_and]
      · simp only [placed, ne_eq, not_false_eq_true, if_true, false_and, if_false, ite_self]

theorem blkRead_called (ran : blkRead w m address buf size = .ok done) :
    Called w m size done ∧ (done.taken = if buf % pageSize ≠ 0 then [(w.alloc, getOrder size)] else []) ∧
      done.given = if done.err = 0 then done.taken else [] := by
  obtain ⟨_, handed, err, io, ends⟩ := blkRead_cases ran
  rcases ends with ⟨failed, rfl⟩ | ⟨placed, machine, waited, rfl⟩
  · exact ⟨⟨transfer_numPages, transfer_splits.indexed, ⟨m.memory, io⟩, (if_neg failed).symm,
      (if_neg fun success => failed success.1).symm⟩, rfl, (if_neg failed).symm⟩
  · refine ⟨⟨transfer_numPages, transfer_splits.indexed, ⟨m.memory, io⟩, ?_, ?_⟩, rfl, (if_pos placed).symm⟩
    · dsimp only
      rw [if_pos placed, waited]
      split
      · rfl
      · rfl
    · simp only [placed, true_and]

theorem readBlock_called (ran : readBlock w m address size = .ok done) :
    Called w m size done ∧ done.taken = [(w.alloc, size)] ∧ done.given = [] := by
  unfold readBlock at ran
  split at ran
  · cases ran
  · obtain ⟨⟨after, err⟩, io, ran⟩ := except_bind_ok.mp ran
    dsimp only at ran
    split at ran
    · rename_i failed
      cases ran
      exact ⟨⟨transfer_numPages, transfer_splits.indexed, ⟨m.memory, io⟩, (if_neg failed).symm,
        (if_neg fun success => failed success.1).symm⟩, rfl, rfl⟩
    · rename_i placed
      cases ran
      refine ⟨⟨transfer_numPages, transfer_splits.indexed, ⟨m.memory, io⟩, (if_pos (not_not.mp placed)).symm, ?_⟩,
        rfl, rfl⟩
      simp only [not_not.mp placed, true_and]

theorem IoCall.called (ran : call.run w m address size = .ok done) : Called w m size done := by
  cases call with
  | write buf => exact (blkWrite_called ran).1
  | read buf => exact (blkRead_called ran).1
  | readBlock => exact (readBlock_called ran).1

/-- What the rest of the system does in a call: the lock of the device is free, the request on the
stack is the call's own, its grants are unused, and in the wait it is answered and finished. -/
structure World.Finishes (w : World) (m : Machine) (done : Done) (status : Int) : Prop where
  reached : Reach FreshBlk BlkStep Always m.run
  lock : m.run.handler.submits = true
  own : w.request ∉ m.run.outstanding.map (·.request)
  grants : done.err = 0 → ∀ i < done.req.numPages, m.run.live (w.grant i) = false
  wait : done.err = 0 → Completes done.handed.run (w.wait done.handed).run m.run.submissions.length status

/-- The call writes no entry behind its array of pages, which has no defined outcome; every page that
was taken is given back once, and a call that fails leaves the free ids, the grants and `req_prod_pvt`. -/
structure Done.Conserves (done : Done) (m : Machine) : Prop where
  inside : ∀ i ∈ done.req.indexed, i < maxPagesPerRequest
  pages : done.given.Perm done.taken
  failed : done.result = -1 → done.machine.run.freelist = m.run.freelist ∧ done.machine.run.live = m.run.live ∧
    done.machine.run.reqProdPvt = m.run.reqProdPvt

/-- The calls that give their pages back. -/
def IoCall.Frees (call : IoCall) (m : Machine) : Prop :=
  match call with
  | .write _ => True
  | .read buf => buf % pageSize = 0 ∨ m.run.freelist 0 ≠ 0
  | .readBlock => False

/-- Without an id nothing is changed that is seen later. -/
theorem blkDoIo_none {state : BlkRun} {request endSector : Nat} {refs : List Nat} (none : state.freelist 0 = 0) :
    (blkDoIo state request refs endSector).freelist = state.freelist ∧
      (blkDoIo state request refs endSector).live = state.live ∧
      (blkDoIo state request refs endSector).reqProdPvt = state.reqProdPvt := by
  unfold blkDoIo
  dsimp only
  rw [if_pos none]
  refine ⟨?_, rfl, rfl⟩
  change Function.update state.freelist 0 (state.freelist (state.freelist 0)) = _
  rw [none]
  exact Function.update_eq_self ..

theorem Machine.blkDoIo_run {req : BlkRequest} {after : Machine} {err : Int}
    (io : m.blkDoIo w req = .ok (after, err)) : after.run =
      Blkfront.blkDoIo m.run w.request ((List.range req.numPages).map w.grant)
        (byteOfInt req.endSector) := by
  unfold Machine.blkDoIo at io
  split at io
  · cases io
  · split at io
    · cases io
    · dsimp only at io
      split at io
      · cases io
        rfl
      · cases io
        rfl

/-- With or without an id, a call leaves the books in order. -/
theorem Called.books {status : Int} (called : Called w m size done) (finishes : w.Finishes m done status)
    (few : size ≤ maxPagesPerRequest * pageSize) :
    done.machine.run.freelist = m.run.freelist ∧ done.machine.run.live = m.run.live ∧
      done.machine.run.reqProdPvt = (if done.err = 0 then uintAdd m.run.reqProdPvt 1 else m.run.reqProdPvt) ∧
      (done.result = -1 ↔ done.err = 0 → status ≠ 0) := by
  obtain ⟨numPages, _, ⟨memory, io⟩, waited, result⟩ := called
  have placed := Machine.blkDoIo_err io
  have handed := Machine.blkDoIo_run io
  change done.err = 0 ↔ m.run.freelist 0 ≠ 0 at placed
  rw [waited] at result ⊢
  by_cases some : done.err = 0
  · rw [if_pos some] at result
    rw [if_pos some, if_pos some]
    have prepared : BlkStep m.run (.prepare w.request) (m.prepare w.request).run := if_pos finishes.own
    have grantable : m.run.Grantable ((List.range done.req.numPages).map w.grant) := by
      refine ⟨?_, ?_, List.nodup_range.map w.distinct, fun ref member => ?_⟩
      · rw [numPages, List.range_succ, List.map_append]
        exact List.append_ne_nil_of_right_ne_nil _ (List.cons_ne_nil _ _)
      · rw [List.length_map, List.length_range, numPages]
        unfold fullPages maxPagesPerRequest pageSize at *
        omega
      · obtain ⟨i, less, rfl⟩ := List.mem_map.mp member
        exact finishes.grants some i (List.mem_range.mp less)
    have submit : BlkStep (m.prepare w.request).run (.submit w.request
        ((List.range done.req.numPages).map w.grant) (byteOfInt done.req.endSector)) done.handed.run := by
      rw [handed]
      exact if_pos ⟨Function.update_self .., finishes.lock, grantable⟩
    have reached : Reach FreshBlk BlkStep Always (m.prepare w.request).run := finishes.reached.next trivial prepared
    obtain ⟨freelist, live, ring, state⟩ := request_restores reached submit (placed.mp some) (finishes.wait some)
    have sectors : ((size / sectorSize : Nat) : Int) ≠ -1 := fun same => by
      have least := Int.natCast_nonneg (size / sectorSize)
      rw [same] at least
      exact absurd least (by decide)
    refine ⟨freelist, live, ring, ?_⟩
    rw [result, state]
    generalize ((size / sectorSize : Nat) : Int) = n at sectors
    unfold doneState
    by_cases success : status = 0
    · simp [some, success, sectors]
    · simp [some, success]
  · rw [if_neg some, if_neg some, handed]
    have none : m.run.freelist 0 = 0 := not_not.mp fun free => some (placed.mpr free)
    obtain ⟨freelist, live, ring⟩ : (Blkfront.blkDoIo (m.prepare w.request).run w.request _ _).freelist = _ ∧ _ :=
      blkDoIo_none none
    refine ⟨freelist, live, ring, ?_⟩
    rw [result]
    simp [some]

/-- The pages are given back exactly by a write, and by a read that needs no page or gets an id. -/
theorem IoCall.pages_iff (ran : call.run w m address size = .ok done) :
    done.given.Perm done.taken ↔ call.Frees m := by
  obtain ⟨memory, io⟩ := (IoCall.called ran).io
  have placed := Machine.blkDoIo_err io
  change done.err = 0 ↔ m.run.freelist 0 ≠ 0 at placed
  cases call with
  | write buf =>
    rw [(blkWrite_called ran).2]
    exact ⟨fun _ => trivial, fun _ => List.Perm.refl _⟩
  | read buf =>
    obtain ⟨_, taken, given⟩ := blkRead_called ran
    change _ ↔ buf % pageSize = 0 ∨ m.run.freelist 0 ≠ 0
    rw [← placed, given]
    by_cases some : done.err = 0
    · rw [if_pos some]
      exact ⟨fun _ => Or.inr some, fun _ => List.Perm.refl _⟩
    · rw [if_neg some, taken]
      by_cases bounces : buf % pageSize ≠ 0
      · simp [bounces, some]
      · simp [not_not.mp bounces]
  | readBlock =>
    obtain ⟨_, taken, given⟩ := readBlock_called ran
    rw [taken, given]
    exact ⟨fun perm => absurd perm.length_eq Nat.zero_ne_one, False.elim⟩

/-- A call conserves memory exactly when its pages fit its request, it is a write, or a read that
needs no page or gets an id, and the back end answers without an error what is handed to it. -/
theorem blk_io_conserves_iff {status : Int} (ran : call.run w m address size = .ok done)
    (finishes : w.Finishes m done status) :
    done.Conserves m ↔ size ≤ maxPagesPerRequest * pageSize ∧ call.Frees m ∧
      (m.run.freelist 0 = 0 ∨ status = 0) := by
  have called := IoCall.called ran
  have pages := IoCall.pages_iff ran
  obtain ⟨memory, io⟩ := called.io
  have placed := Machine.blkDoIo_err io
  change done.err = 0 ↔ m.run.freelist 0 ≠ 0 at placed
  have inside : (∀ i ∈ done.req.indexed, i < maxPagesPerRequest) ↔ size ≤ maxPagesPerRequest * pageSize := by
    rw [called.indexed]
    constructor
    · intro all
      have last := all (fullPages size) (List.mem_range'_1.mpr ⟨Nat.zero_le _, by omega⟩)
      unfold fullPages maxPagesPerRequest pageSize at *
      omega
    · intro few i member
      have less := (List.mem_range'_1.mp member).2
      unfold fullPages maxPagesPerRequest pageSize at *
      omega
  constructor
  · intro conserves
    have few := inside.mp conserves.inside
    obtain ⟨_, _, ring, failed⟩ := called.books finishes few
    refine ⟨few, pages.mp conserves.pages, ?_⟩
    by_contra neither
    obtain ⟨free, error⟩ := not_or.mp neither
    -- a request that was answered with an error has moved the index on
    have moved := (conserves.failed (failed.mpr fun _ => error)).2.2
    rw [ring, if_pos (placed.mpr free), uintAdd] at moved
    omega
  · rintro ⟨few, frees, quiet⟩
    obtain ⟨freelist, live, ring, failed⟩ := called.books finishes few
    refine ⟨inside.mpr few, pages.mpr frees, fun fails => ⟨freelist, live, ?_⟩⟩
    have unplaced : done.err ≠ 0 := fun zero =>
      quiet.elim (placed.mp zero) (failed.mp fails zero)
    rw [ring, if_neg unplaced]

end Calls

/-! ## Runs -/

/-- The back end takes a request of one page, answers it, and the handler runs. -/
def answerScript (status : Int) : List BlkOp :=
  [.take, .answer 0 status, .push, .test, .notify, .upcall, .handler, .handler, .handler, .handler]

/-- In the wait the only request is answered. -/
def answeringWorld (status : Int) : World where
  alloc := idleWorld.alloc
  request := 0
  behind := fun _ => 0
  grant := idleWorld.grant
  distinct := idleWorld.distinct
  wait := fun handed =>
    { handed with run := (runLabels blkStep Quiet (answerScript status) handed.run).getD handed.run }

/-- The first request: one page, which ends in its first sector. -/
def firstRequest : BlkRun := blkDoIo (newMachine.prepare 0).run 0 [8] 0

theorem answeringWorld_completes : ∃ after, runLabels blkStep Quiet (answerScript 0) firstRequest = some after ∧
    Completes firstRequest after 0 0 := by
  have ends : (runLabels blkStep Quiet (answerScript 0) firstRequest).any (fun after =>
      decide (after.completed.map (·.tag) = [0] ∧ ((0, 0) : Nat × Int) ∈ after.answers)) = true := by
    decide +kernel
  obtain ⟨after, ran, holds⟩ := (Option.any_eq_true _ _).mp ends
  obtain ⟨tags, answered⟩ := of_decide_eq_true holds
  obtain ⟨c, completed, tag⟩ := List.map_eq_singleton_iff.mp tags
  exact ⟨after, ran, Reach.of_runLabels (.start rfl) ran, ⟨c, tag, completed⟩, answered⟩

/-- An unaligned read that the back end answers without an error. -/
theorem blk_io_conserves_iff_answered_read : ∃ done,
    blkRead (answeringWorld 0) newMachine 0 100 512 = .ok done ∧ done.err = 0 ∧ done.Conserves newMachine := by
  have free : initBuffers 0 ≠ 0 := by decide
  obtain ⟨done, ran⟩ : ∃ done, transfer .read (answeringWorld 0) newMachine 0 100 512 = .ok done :=
    transfer_returns (by decide) (by change ulongAdd _ _ ≤ ulongOfInt 1000; decide)
  have handed := transfer_handed ran
  have placed := handed.placed_iff.mpr free
  have begun : done.handed.run = firstRequest := by
    obtain ⟨memory, io⟩ := handed.io
    rw [Machine.blkDoIo_run io, handed.req, transfer_numPages, transfer_endSector]
    rfl
  obtain ⟨after, waits, completes⟩ := answeringWorld_completes
  have waited : ((answeringWorld 0).wait done.handed).run = after := by
    change (runLabels blkStep Quiet (answerScript 0) done.handed.run).getD done.handed.run = after
    rw [begun, waits, Option.getD_some]
  have finishes : (answeringWorld 0).Finishes newMachine done 0 := by
    refine ⟨.start newBlk_fresh, rfl, List.not_mem_nil, fun _ _ _ => rfl, fun _ => ?_⟩
    rw [begun, waited]
    exact completes
  have ran : (IoCall.read 100).run (answeringWorld 0) newMachine 0 512 = .ok done := ran
  exact ⟨done, ran, placed, (blk_io_conserves_iff ran finishes).mpr ⟨by decide, Or.inr free, Or.inr rfl⟩⟩

/-- 31 requests of a page that nobody has answered. -/
def busyScript : List BlkOp := (List.range 31).map fun i => .submit (i + 1) [i] 7

theorem busy_reached : ∃ run : BlkRun, Reach FreshBlk BlkStep Always run ∧
    run.freelist 0 = 0 ∧ run.handler = .idle ∧ run.outstanding.map (·.request) = List.range' 1 31 := by
  have ends : (runLabels blkStep Always busyScript newBlk).any (fun run => decide (run.freelist 0 = 0 ∧
      run.handler = .idle ∧ run.outstanding.map (·.request) = List.range' 1 31)) = true := by
    decide +kernel
  exact Reach.of_run_ends newBlk_fresh ends

/-- An unaligned read that finds no free id keeps its page. -/
theorem busy_read_leaks : ∃ m done, blkRead idleWorld m 0 100 512 = .ok done ∧ idleWorld.Finishes m done 0 ∧
    ¬done.Conserves m := by
  obtain ⟨run, reached, none, idle, outstanding⟩ := busy_reached
  obtain ⟨done, ran⟩ : ∃ done, transfer .read idleWorld { newMachine with run := run } 0 100 512 = .ok done :=
    transfer_returns (by decide) (by change ulongAdd _ _ ≤ ulongOfInt 1000; decide)
  have failed : done.err ≠ 0 := fun placed => (transfer_handed ran).placed_iff.mp placed none
  refine ⟨_, done, ran, ⟨reached, ?_, ?_, fun placed => absurd placed failed, fun placed => absurd placed failed⟩,
    fun conserves => ?_⟩
  · change run.handler.submits = true
    rw [idle]
    rfl
  · change idleWorld.request ∉ run.outstanding.map (·.request)
    rw [outstanding]
    decide
  · obtain ⟨_, taken, given⟩ := blkRead_called ran
    have lengths := conserves.pages.length_eq
    rw [given, taken, if_neg failed] at lengths
    exact absurd lengths (by decide)

end Stardust.Blkfront
