import Stardust.Sched.JoinCancel

/-! # What a joiner finds when `join_thread` returns

`pte_osThreadWaitForEnd` ends in `BUG()` when `join_thread` has returned and none of its
three reasons to return holds.  A cancel wakes the joiner before it marks it, so the
joiner may go on between the two. -/
set_option autoImplicit false
namespace Stardust.Sched

open Stardust.Lib

/-- No joiner to which `join_thread` has returned 0 reaches `BUG()`. -/
def ReturnsClosed (joinee : Thread) (state : CancelRun) : Prop :=
  ∀ t, state.phase t = .returned → state.Closed joinee t

/-- A joiner does not go on after its `schedule` while a cancel that has woken it has yet
to mark it; unless the joinee is at its end, or another cancel has marked it. -/
def JoinersHeld (joinee : Thread) (state : CancelRun) : CancelOp → Prop
  | .clearJoining t => (t, .woken) ∈ state.calls → state.Closed joinee t
  | _ => True

instance (joinee : Thread) (state : CancelRun) : (op : CancelOp) → Decidable (JoinersHeld joinee state op)
  | .clearJoining t => inferInstanceAs (Decidable ((t, .woken) ∈ state.calls → state.Closed joinee t))
  | .check _ | .park _ | .setJoining _ | .schedule _ | .finish _ | .preempt _ | .run _ | .setLast
  | .exitBlock | .exitDead _ | .exitSwitch | .reap _ | .test _ | .unlink _ | .wake _ | .mark _ _ =>
    inferInstanceAs (Decidable True)

/-- In `join_thread`, after `block`. -/
def WaitForEndPhase.Inside (phase : WaitForEndPhase) : Prop :=
  phase = .parked ∨ phase = .flagged ∨ phase = .scheduled

section Runs
variable {joinee t : Thread} {present : List Thread} {state after : CancelRun} {op : CancelOp}

/-! ## What the exit does to the flags -/

/-- `wake` is all that the walk over the joiners does to a thread. -/
theorem wakeJoinersFrom_flags {fuel : Nat} {iterator : QNode} {s woken : Threads}
    (run : wakeJoinersFrom joinee fuel iterator s = .ok woken) : ∀ u,
      (woken.flags u).dying = (s.flags u).dying ∧
      ((s.flags u).runnable = true → (woken.flags u).runnable = true) := by
  induction fuel generalizing iterator s with
  | zero =>
    rw [wakeJoinersFrom] at run
    split at run
    · cases run
      exact fun u => ⟨rfl, fun runs => runs⟩
    · cases run
  | succ fuel ih =>
    rw [wakeJoinersFrom.eq_def] at run
    dsimp only at run
    split at run
    · cases run
      exact fun u => ⟨rfl, fun runs => runs⟩
    · split at run
      · rename_i thread _
        obtain ⟨middle, first, rest⟩ := Halt.bind_eq_ok.mp run
        have flags := (wake_ok first).2
        intro u
        obtain ⟨dying, runnable⟩ := ih rest u
        rw [flags, unlink_flags] at dying runnable
        by_cases this : u = thread
        · subst this
          rw [if_pos rfl] at dying runnable
          exact ⟨dying, fun runs => runnable (by simp [runs])⟩
        · rw [if_neg this] at dying runnable
          exact ⟨dying, runnable⟩
      · cases run

theorem wakeAnyJoiners_flags {fuel : Nat} {s woken : Threads}
    (run : wakeAnyJoiners fuel s joinee = .ok woken) : ∀ u,
      (woken.flags u).dying = (s.flags u).dying ∧
      ((s.flags u).runnable = true → (woken.flags u).runnable = true) := by
  unfold wakeAnyJoiners schedWakeJoiners at run
  split at run
  · exact wakeJoinersFrom_flags run
  · cases run
    exact fun u => ⟨rfl, fun runs => runs⟩

/-- The joinee is dying from then on. -/
theorem exitThread_flags {fuel : Nat} {s gone : Threads} (run : exitThread fuel s joinee = .ok gone) :
    (gone.flags joinee).dying = true ∧
      ∀ u, (s.flags u).runnable = true → (gone.flags u).runnable = true := by
  have flags := wakeAnyJoiners_flags run
  have marked : ((s.setFlags joinee fun f => { f with dying := true }).addDead joinee).flags joinee =
      { s.flags joinee with dying := true } := by
    rw [addDead_flags, setFlags_flags, if_pos rfl]
  refine ⟨?_, fun u runs => (flags u).2 ?_⟩
  · rw [(flags joinee).1, marked]
  · rw [addDead_flags, setFlags_flags]
    split
    · rename_i this
      rw [← this]
      exact runs
    · exact runs

/-! ## The invariant -/

/-- A thread in `join_thread` that is RUNNABLE again has a reason to return, or a cancel
that has woken it has yet to mark it. -/
structure Accounted (joinee : Thread) (state : CancelRun) : Prop where
  outside : state.phase joinee = .out
  gone : state.joinee = .dead ∨ state.joinee = .reaped → (state.threads.flags joinee).dying = true
  woken : ∀ t, (state.phase t).Inside → (state.threads.flags t).runnable = true →
    state.Closed joinee t ∨ (t, .woken) ∈ state.calls
  running : ∀ t, state.phase t = .scheduled → state.onCpu t = true →
    (state.threads.flags t).runnable = true
  returned : ReturnsClosed joinee state

theorem Accounted.start (fresh : FreshCancel joinee present state) : Accounted joinee state := by
  refine ⟨fresh.phase joinee, fun gone => ?_, fun t inside => ?_, fun t place => ?_, fun t place => ?_⟩
  · simp [fresh.alive] at gone
  · simp [fresh.phase t, WaitForEndPhase.Inside] at inside
  · simp [fresh.phase t] at place
  · simp [fresh.phase t] at place

theorem Accounted.ne_joinee (inv : Accounted joinee state) (inside : state.phase t ≠ .out) :
    t ≠ joinee := by
  rintro rfl
  exact inside inv.outside

/-- A step of the joiner `t`; only its own flags change, and not DYING. -/
theorem Accounted.moved (inv : Accounted joinee state) {threads : Threads} {g : Flags}
    {phase : WaitForEndPhase} {onCpu : Bool}
    (flags : ∀ u, threads.flags u = if u = t then g else state.threads.flags u)
    (dying : g.dying = (state.threads.flags t).dying) (self : t = joinee → phase = .out)
    (woken : phase.Inside → g.runnable = true → state.Closed joinee t ∨ (t, .woken) ∈ state.calls)
    (running : phase = .scheduled → onCpu = true → g.runnable = true)
    (returned : phase = .returned → state.Closed joinee t) :
    Accounted joinee (state.move t phase onCpu threads) := by
  have same : (threads.flags joinee).dying = (state.threads.flags joinee).dying := by
    rw [flags]
    split
    · rename_i this
      rw [dying, this]
    · rfl
  have closed : ∀ u, (state.move t phase onCpu threads).Closed joinee u ↔ state.Closed joinee u := by
    intro u
    simp only [CancelRun.Closed, CancelRun.move, same]
  refine ⟨?_, fun gone => ?_, fun u => ?_, fun u => ?_, fun u => ?_⟩
  · simp only [CancelRun.move, Function.update_apply]
    split
    · rename_i this
      exact self this.symm
    · exact inv.outside
  · exact same.trans (inv.gone gone)
  · rw [closed]
    simp only [CancelRun.move, Function.update_apply, flags]
    split
    · rename_i this
      rw [this]
      exact woken
    · exact inv.woken u
  · simp only [CancelRun.move, Function.update_apply, flags]
    split
    · exact running
    · exact inv.running u
  · rw [closed]
    simp only [CancelRun.move, Function.update_apply]
    split
    · rename_i this
      rw [this]
      exact returned
    · exact inv.returned u

/-- A step of the joinee or of a cancel, that moves no joiner. -/
theorem Accounted.beside (inv : Accounted joinee state) (phase : after.phase = state.phase)
    (onCpu : after.onCpu = state.onCpu)
    (gone : after.joinee = .dead ∨ after.joinee = .reaped →
      (after.threads.flags joinee).dying = true)
    (closed : ∀ t, state.Closed joinee t → after.Closed joinee t)
    (woken : ∀ t, (after.threads.flags t).runnable = true → (state.threads.flags t).runnable = true ∨
      after.Closed joinee t ∨ (t, .woken) ∈ after.calls)
    (calls : ∀ t, (t, .woken) ∈ state.calls → after.Closed joinee t ∨ (t, .woken) ∈ after.calls)
    (running : ∀ t, t ≠ joinee → (state.threads.flags t).runnable = true →
      (after.threads.flags t).runnable = true) : Accounted joinee after := by
  refine ⟨?_, gone, fun t inside runs => ?_, fun t place here => ?_, fun t place => ?_⟩
  · rw [phase]
    exact inv.outside
  · rw [phase] at inside
    rcases woken t runs with before | later
    · rcases inv.woken t inside before with reason | call
      · exact Or.inl (closed t reason)
      · exact calls t call
    · exact later
  · rw [phase] at place
    rw [onCpu] at here
    have other := inv.ne_joinee (t := t) (by simp [place])
    exact running t other (inv.running t place here)
  · rw [phase] at place
    exact closed t (inv.returned t place)

/-! ## Steps -/

theorem Accounted.park (inv : Accounted joinee state) (checked : state.phase t = .checked)
    {threads : Threads} (run : block state.threads t = .ok threads) :
    Accounted joinee (state.move t .parked true (threads.addJoiner joinee t)) := by
  have other := inv.ne_joinee (t := t) (by simp [checked])
  obtain ⟨_, _, flags⟩ := block_ok run
  refine inv.moved flags rfl (fun same => absurd same other) ?_ ?_ ?_
  · intro _ runs
    cases runs
  · intro place
    cases place
  · intro place
    cases place

theorem Accounted.setJoining (inv : Accounted joinee state) {phase : WaitForEndPhase} {joining : Bool}
    (other : t ≠ joinee) (later : phase ≠ .scheduled)
    (woken : phase.Inside → (state.phase t).Inside) (returned : phase = .returned → state.Closed joinee t) :
    Accounted joinee (state.move t phase true
      (state.threads.setFlags t fun f => { f with joining := joining })) := by
  apply inv.moved (fun u => setFlags_flags) rfl (fun same => absurd same other)
  · exact fun inside => inv.woken t (woken inside)
  · exact fun place => absurd place later
  · exact returned

/-- A move that leaves the flags alone. -/
theorem Accounted.goTo (inv : Accounted joinee state) {phase : WaitForEndPhase} {onCpu : Bool}
    {threads : Threads} (same : threads.flags = state.threads.flags) (self : t = joinee → phase = .out)
    (woken : phase.Inside → (state.phase t).Inside)
    (running : phase = .scheduled → onCpu = true → (state.threads.flags t).runnable = true)
    (returned : phase = .returned → state.Closed joinee t) :
    Accounted joinee (state.move t phase onCpu threads) := by
  apply inv.moved (g := state.threads.flags t) (fun u => ?_) rfl self
  · exact fun inside => inv.woken t (woken inside)
  · exact running
  · exact returned
  · rw [same]
    exact flags_kept state.threads t u

/-- A move to a phase before or after `join_thread`. -/
theorem Accounted.leave (inv : Accounted joinee state) {phase : WaitForEndPhase}
    (outside : phase = .out ∨ (phase = .checked ∧ t ≠ joinee)) :
    Accounted joinee (state.move t phase true state.threads) := by
  rcases outside with rfl | ⟨rfl, other⟩
  · exact inv.goTo rfl (fun _ => rfl) (by simp [WaitForEndPhase.Inside]) (by simp) (by simp)
  · exact inv.goTo rfl (fun same => absurd same other) (by simp [WaitForEndPhase.Inside]) (by simp)
      (by simp)

/-- Back on a processor, or off it, at the same phase. -/
theorem Accounted.sameThread (inv : Accounted joinee state) {onCpu : Bool} {threads : Threads}
    (same : threads.flags = state.threads.flags)
    (running : onCpu = true → (state.threads.flags t).runnable = true) :
    Accounted joinee (state.move t (state.phase t) onCpu threads) := by
  refine inv.goTo same (fun this => ?_) (fun inside => inside) (fun _ => running) (inv.returned t)
  rw [this]
  exact inv.outside

theorem Accounted.clearJoining (inv : Accounted joinee state)
    (held : JoinersHeld joinee state (.clearJoining t)) (here : state.At t .scheduled) :
    Accounted joinee (state.move t .returned true
      (state.threads.setFlags t fun f => { f with joining := false })) := by
  obtain ⟨onCpu, place⟩ := here
  have other := inv.ne_joinee (t := t) (by simp [place])
  have runs := inv.running t place onCpu
  have inside : (state.phase t).Inside := Or.inr (Or.inr place)
  -- the joiner runs, so somebody has woken it
  have reason : state.Closed joinee t := by
    rcases inv.woken t inside runs with closed | call
    · exact closed
    · exact held call
  exact inv.setJoining other (by simp) (fun _ => inside) fun _ => reason

theorem Accounted.exitBlock (inv : Accounted joinee state) {threads : Threads}
    (run : block state.threads joinee = .ok threads) :
    Accounted joinee { state with threads := threads, joinee := .exiting } := by
  obtain ⟨_, _, flags⟩ := block_ok run
  have mine : (threads.flags joinee).dying = (state.threads.flags joinee).dying := by
    rw [flags, if_pos rfl]
  have others : ∀ u, u ≠ joinee → threads.flags u = state.threads.flags u := by
    intro u this
    rw [flags, if_neg this]
  refine inv.beside rfl rfl (by simp) (fun t closed => ?_) (fun t runs => ?_) (fun t => Or.inr)
    (fun t other runs => ?_)
  · simpa only [CancelRun.Closed, mine] using closed
  · have this : t ≠ joinee := by
      rintro rfl
      simp only [flags, if_true] at runs
      cases runs
    dsimp only at runs
    rw [others t this] at runs
    exact Or.inl runs
  · dsimp only
    rw [others t other]
    exact runs

/-- When the joinee is dying every joiner may return. -/
theorem Accounted.dies (inv : Accounted joinee state) {threads : Threads} {gone : JoineePhase}
    (dying : (threads.flags joinee).dying = true)
    (running : ∀ u, (state.threads.flags u).runnable = true → (threads.flags u).runnable = true) :
    Accounted joinee { state with threads := threads, joinee := gone } :=
  inv.beside rfl rfl (fun _ => dying) (fun _ _ => Or.inl dying) (fun _ _ => Or.inr (Or.inl (Or.inl dying)))
    (fun _ _ => Or.inl (Or.inl dying)) fun u _ => running u

/-- The joinee is off its processor. -/
theorem Accounted.exitSwitch (inv : Accounted joinee state) (dead : state.joinee = .dead) :
    Accounted joinee { state with
      threads := state.threads.setFlags joinee fun f => { f with running := false } } := by
  have same : state = { state with joinee := .dead } := by
    rw [← dead]
  rw [same]
  apply inv.dies
  · rw [setFlags_flags, if_pos rfl]
    exact inv.gone (Or.inl dead)
  · intro u runs
    rw [setFlags_flags]
    split
    · rename_i this
      rw [← this]
      exact runs
    · exact runs

/-- A cancel goes on and no flag changes. -/
theorem Accounted.called (inv : Accounted joinee state) {threads : Threads}
    {calls : List (Thread × CancelStage)} (same : threads.flags = state.threads.flags)
    (kept : ∀ t, (t, .woken) ∈ state.calls → (t, .woken) ∈ calls) :
    Accounted joinee { state with threads := threads, calls := calls } := by
  refine inv.beside rfl rfl (fun gone => ?_) (fun t closed => ?_) (fun t runs => ?_)
    (fun t call => Or.inr (kept t call)) (fun t _ runs => ?_)
  · dsimp only
    rw [same]
    exact inv.gone gone
  · simpa only [CancelRun.Closed, same] using closed
  · dsimp only at runs
    rw [same] at runs
    exact Or.inl runs
  · dsimp only
    rw [same]
    exact runs

theorem Accounted.wake (inv : Accounted joinee state) {threads : Threads}
    (run : Sched.wake state.threads t = .ok threads) :
    Accounted joinee (state.advance t .unlinked .woken threads) := by
  have flags := (wake_ok run).2
  have dying : (threads.flags joinee).dying = (state.threads.flags joinee).dying := by
    rw [flags]
    split
    · rename_i this
      rw [this]
    · rfl
  refine inv.beside rfl rfl (fun gone => ?_) (fun u closed => ?_) (fun u runs => ?_) (fun u call => ?_)
    (fun u _ runs => ?_)
  · exact dying.trans (inv.gone gone)
  · simpa only [CancelRun.Closed, CancelRun.advance, dying] using closed
  · by_cases this : u = t
    · rw [this]
      exact Or.inr (Or.inr (List.mem_append_right _ List.mem_cons_self))
    · dsimp only [CancelRun.advance] at runs
      rw [flags, if_neg this] at runs
      exact Or.inl runs
  · exact Or.inr (List.mem_append_left _ ((List.mem_erase_of_ne (by simp)).mpr call))
  · dsimp only [CancelRun.advance]
    rw [flags]
    split
    · rename_i this
      rw [← this]
      simp [runs]
    · exact runs

/-- The mark is a reason to return. -/
theorem Accounted.mark (inv : Accounted joinee state) (stage : CancelStage) :
    Accounted joinee { state with
      cancelled := Function.update state.cancelled t true
      calls := state.calls.erase (t, stage) } := by
  have marked : ∀ u, u = t ∨ state.cancelled u = true →
      Function.update state.cancelled t true u = true := by
    intro u
    rw [Function.update_apply]
    split
    · exact fun _ => rfl
    · rename_i this
      exact fun reason => reason.resolve_left this
  refine inv.beside rfl rfl inv.gone (fun u closed => ?_) (fun u => Or.inl) (fun u call => ?_)
    (fun u _ runs => runs)
  · exact closed.imp_right fun reason => reason.imp_right fun before => marked u (Or.inr before)
  · by_cases this : u = t
    · exact Or.inl (Or.inr (Or.inr (marked u (Or.inl this))))
    · refine Or.inr ((List.mem_erase_of_ne ?_).mpr call)
      simp [this]

theorem Accounted.step (inv : Accounted joinee state) (held : JoinersHeld joinee state op)
    (move : cancelStep joinee state op = some after) : Accounted joinee after := by
  cases op with
  | check t =>
    obtain ⟨⟨_, other⟩, move⟩ := Option.ite_none_right_eq_some.mp move
    split at move
    · cases Option.some.inj move
      exact inv
    · cases Option.some.inj move
      exact inv.leave (Or.inr ⟨rfl, other⟩)
  | park t =>
    obtain ⟨⟨_, checked⟩, move⟩ := Option.ite_none_right_eq_some.mp move
    split at move
    · obtain ⟨threads, run, rfl⟩ := Halt.map_toOption_eq_some.mp move
      exact inv.park checked run
    · cases Option.some.inj move
      exact inv.leave (Or.inl rfl)
  | setJoining t =>
    obtain ⟨⟨_, parked⟩, move⟩ := Option.ite_none_right_eq_some.mp move
    cases Option.some.inj move
    have other := inv.ne_joinee (t := t) (by simp [parked])
    exact inv.setJoining other (by simp) (fun _ => Or.inl parked) (by simp)
  | schedule t =>
    obtain ⟨⟨_, flagged⟩, move⟩ := Option.ite_none_right_eq_some.mp move
    cases Option.some.inj move
    have other := inv.ne_joinee (t := t) (by simp [flagged])
    exact inv.goTo (requeue_flags state.threads t) (fun same => absurd same other)
      (fun _ => Or.inr (Or.inl flagged)) (by simp) (by simp)
  | clearJoining t =>
    obtain ⟨here, move⟩ := Option.ite_none_right_eq_some.mp move
    cases Option.some.inj move
    exact inv.clearJoining held here
  | finish t =>
    obtain ⟨_, move⟩ := Option.ite_none_right_eq_some.mp move
    cases Option.some.inj move
    exact inv.leave (Or.inl rfl)
  | preempt t =>
    obtain ⟨_, move⟩ := Option.ite_none_right_eq_some.mp move
    cases Option.some.inj move
    exact inv.sameThread (requeue_flags state.threads t) (by simp)
  | run t =>
    obtain ⟨⟨_, runs⟩, move⟩ := Option.ite_none_right_eq_some.mp move
    cases Option.some.inj move
    exact inv.sameThread rfl fun _ => runs
  | setLast =>
    cases Option.some.inj move
    exact inv.beside rfl rfl inv.gone (fun t _ => Or.inr (Or.inl rfl)) (fun t => Or.inl)
      (fun t => Or.inr) fun t _ runs => runs
  | exitBlock =>
    obtain ⟨_, move⟩ := Option.ite_none_right_eq_some.mp move
    obtain ⟨threads, run, rfl⟩ := Halt.map_toOption_eq_some.mp move
    exact inv.exitBlock run
  | exitDead fuel =>
    obtain ⟨_, move⟩ := Option.ite_none_right_eq_some.mp move
    obtain ⟨threads, run, rfl⟩ := Halt.map_toOption_eq_some.mp move
    obtain ⟨dying, running⟩ := exitThread_flags run
    exact inv.dies dying running
  | exitSwitch =>
    obtain ⟨dead, move⟩ := Option.ite_none_right_eq_some.mp move
    cases Option.some.inj move
    exact inv.exitSwitch dead
  | reap fuel =>
    obtain ⟨⟨dead, _⟩, move⟩ := Option.ite_none_right_eq_some.mp move
    obtain ⟨threads, run, rfl⟩ := Halt.map_toOption_eq_some.mp move
    have flags := wakeAnyJoiners_flags run
    apply inv.dies
    · rw [(flags joinee).1]
      exact inv.gone (Or.inl dead)
    · exact fun u => (flags u).2
  | test t =>
    obtain ⟨_, move⟩ := Option.ite_none_right_eq_some.mp move
    cases Option.some.inj move
    exact inv.called rfl fun u call => List.mem_append_left _ call
  | unlink t =>
    obtain ⟨_, move⟩ := Option.ite_none_right_eq_some.mp move
    cases Option.some.inj move
    refine inv.called rfl fun u call => List.mem_append_left _ ?_
    exact (List.mem_erase_of_ne (by simp)).mpr call
  | wake t =>
    obtain ⟨_, move⟩ := Option.ite_none_right_eq_some.mp move
    obtain ⟨threads, run, rfl⟩ := Halt.map_toOption_eq_some.mp move
    exact inv.wake run
  | mark t stage =>
    obtain ⟨_, move⟩ := Option.ite_none_right_eq_some.mp move
    cases Option.some.inj move
    exact inv.mark stage

/-! ## Main result -/

/-- In every run in which no joiner goes on too early none of them reaches `BUG()`; a
next step keeps that exactly when no joiner goes on too early in it. -/
theorem join_returns_closed
    (reached : Reach (FreshCancel joinee present) (CancelStep joinee) (JoinersHeld joinee) state) :
    ReturnsClosed joinee state ∧
      ∀ op after, CancelStep joinee state op after →
        (ReturnsClosed joinee after ↔ JoinersHeld joinee state op) := by
  have inv : Accounted joinee state := by
    apply Reach.invariant (Accounted joinee) _ _ reached
    · exact fun _ fresh => Accounted.start fresh
    · intro before op after inv held move
      exact inv.step held move
  refine ⟨inv.returned, fun op after move => ⟨fun kept => ?_, fun held => ?_⟩⟩
  · cases op with
    | clearJoining t =>
      obtain ⟨⟨_, place⟩, move⟩ := Option.ite_none_right_eq_some.mp move
      cases Option.some.inj move
      have other := inv.ne_joinee (t := t) (by simp [place])
      have closed := kept t CancelRun.move_phase
      intro _
      simpa only [CancelRun.Closed, CancelRun.move, setFlags_flags, if_neg other.symm] using closed
    | _ => trivial
  · exact (inv.step held move).returned

end Runs

/-! ## Two runs -/

/-- The joiner is woken by a cancel, and goes on when it is marked. -/
theorem join_returns_closed_marked :
    ∃ state, Reach (FreshCancel (.thread 1) [.thread 1, .thread 2]) (CancelStep (.thread 1))
        (JoinersHeld (.thread 1)) state ∧
      ReturnsClosed (.thread 1) state ∧ state.phase (.thread 2) = .returned := by
  have run : (runLabels (cancelStep (.thread 1)) (JoinersHeld (.thread 1))
      [.check (.thread 2), .park (.thread 2), .setJoining (.thread 2), .schedule (.thread 2),
        .test (.thread 2), .unlink (.thread 2), .wake (.thread 2), .mark (.thread 2) .woken,
        .run (.thread 2), .clearJoining (.thread 2)] joinerToCancel).any
      (fun state => decide (state.phase (.thread 2) = .returned)) = true := by
    decide +kernel
  obtain ⟨state, reached, returned⟩ := Reach.of_run_ends joinerToCancel_fresh run
  exact ⟨state, reached, (join_returns_closed reached).1, returned⟩

/-- The joiner goes on between the `wake` and the `set_cancelled` of a cancel; the
joinee lives. -/
theorem join_returns_early :
    ∃ state, Reach (FreshCancel (.thread 1) [.thread 1, .thread 2]) (CancelStep (.thread 1)) Always
        state ∧
      ¬ReturnsClosed (.thread 1) state := by
  have run : (runLabels (cancelStep (.thread 1)) Always
      [.check (.thread 2), .park (.thread 2), .setJoining (.thread 2), .schedule (.thread 2),
        .test (.thread 2), .unlink (.thread 2), .wake (.thread 2), .run (.thread 2),
        .clearJoining (.thread 2)] joinerToCancel).any (fun state =>
      decide (state.phase (.thread 2) = .returned ∧ ¬state.Closed (.thread 1) (.thread 2))) =
        true := by
    decide +kernel
  obtain ⟨state, reached, returned, wide⟩ := Reach.of_run_ends joinerToCancel_fresh run
  exact ⟨state, reached, fun kept => wide (kept (.thread 2) returned)⟩

end Stardust.Sched
