import Mathlib.Data.Nat.Notation

/-! # Waiting for another party

A loop that looks at a state until a test holds, while another party changes the state
between the looks.  The loop has a bound on its looks; it settles when all larger bounds
give one result, and it does so when the other party keeps acting and each of its acts
brings the test nearer. -/
set_option autoImplicit false
namespace Stardust.Lib

universe u v

variable {State : Type u} {Value Other : Type v}

/-- Look until the test holds, `fuel` times at most. -/
def spin (look : State → State) (test : State → Bool) : Nat → State → Option State
  | 0, _ => none
  | fuel + 1, state => if test (look state) then some (look state) else spin look test fuel (look state)

/-- What the loop gives keeps every invariant of the looks, and passes the test. -/
theorem spin_some {look : State → State} {test : State → Bool} (Inv : State → Prop)
    (keeps : ∀ state, Inv state → Inv (look state)) {fuel : Nat} {state after : State} (inv : Inv state)
    (run : spin look test fuel state = some after) : Inv after ∧ test after = true := by
  induction fuel generalizing state with
  | zero => cases run
  | succ fuel ih =>
    rw [spin] at run
    split at run
    · rename_i passed
      cases Option.some.inj run
      exact ⟨keeps state inv, passed⟩
    · exact ih (keeps state inv) run

/-! ## Bounds that are large enough -/

/-- From some bound on the run gives this value. -/
def Settles (run : Nat → Option Value) (value : Value) : Prop :=
  ∃ bound, ∀ fuel, bound ≤ fuel → run fuel = some value

theorem Settles.const (value : Value) : Settles (fun _ => some value) value := ⟨0, fun _ _ => rfl⟩

theorem Settles.bind {first : Nat → Option Value} {next : Nat → Value → Option Other} {value : Value}
    {result : Other} (settled : Settles first value) (rest : Settles (fun fuel => next fuel value) result) :
    Settles (fun fuel => (first fuel).bind (next fuel)) result := by
  obtain ⟨bound, firstRun⟩ := settled
  obtain ⟨limit, restRun⟩ := rest
  refine ⟨max bound limit, fun fuel enough => ?_⟩
  change (first fuel).bind (next fuel) = _
  rw [firstRun fuel (Nat.le_trans (Nat.le_max_left ..) enough), Option.bind_some]
  exact restRun fuel (Nat.le_trans (Nat.le_max_right ..) enough)

theorem Settles.map {run : Nat → Option Value} {value : Value} (settled : Settles run value)
    (give : Value → Other) : Settles (fun fuel => (run fuel).map give) (give value) := by
  obtain ⟨bound, result⟩ := settled
  refine ⟨bound, fun fuel enough => ?_⟩
  change (run fuel).map give = _
  rw [result fuel enough, Option.map_some]

theorem Settles.some {run : Nat → Option Value} {value : Value} (settled : Settles run value) :
    ∃ fuel, run fuel = some value := by
  obtain ⟨bound, result⟩ := settled
  exact ⟨bound, result bound (Nat.le_refl _)⟩

section Spins
variable {look : State → State} {test : State → Bool} {state after : State}

theorem spin_now (passed : test (look state) = true) :
    Settles (fun fuel => spin look test fuel state) (look state) := by
  refine ⟨1, fun fuel enough => ?_⟩
  obtain ⟨fuel, rfl⟩ := Nat.exists_eq_add_of_le' enough
  exact if_pos passed

theorem spin_later (settled : Settles (fun fuel => spin look test fuel (look state)) after) :
    ∃ after, Settles (fun fuel => spin look test fuel state) after := by
  by_cases passed : test (look state) = true
  · exact ⟨_, spin_now passed⟩
  · obtain ⟨bound, result⟩ := settled
    refine ⟨after, bound + 1, fun fuel enough => ?_⟩
    obtain ⟨fuel, rfl⟩ := Nat.exists_eq_add_of_le' (Nat.le_trans (Nat.le_add_left 1 bound) enough)
    exact (if_neg passed).trans (result fuel (by omega))

/-- The other party is active again and again. -/
def Recurs (active : Nat → Prop) : Prop := ∀ time, ∃ later, time ≤ later ∧ active later

/-- Each look is one tick of a clock; what is left is never more after a look, and is less
after an active one unless the test passes. -/
theorem spin_settles (look : State → State) (test : State → Bool) {active : Nat → Prop}
    (recurs : Recurs active) (clock : State → Nat) (left : State → Nat) (Inv : State → Prop)
    (keeps : ∀ state, Inv state → Inv (look state))
    (ticks : ∀ state, clock (look state) = clock state + 1)
    (lasts : ∀ state, Inv state → left (look state) ≤ left state)
    (nearer : ∀ state, Inv state → active (clock state) →
      test (look state) = true ∨ left (look state) < left state)
    (inv : Inv state) : ∃ after, Settles (fun fuel => spin look test fuel state) after := by
  -- the outer induction is on what is left, the inner one on the time to the next activity
  induction total : left state using Nat.strongRecOn generalizing state with
  | _ amount lower =>
    obtain ⟨later, after, acts⟩ := recurs (clock state)
    obtain ⟨distance, rfl⟩ := Nat.exists_eq_add_of_le after
    clear after
    induction distance generalizing state with
    | zero =>
      rcases nearer state inv acts with passed | less
      · exact ⟨_, spin_now passed⟩
      · obtain ⟨result, settled⟩ := lower (left (look state)) (by omega) (keeps state inv) rfl
        exact spin_later settled
    | succ distance closer =>
      have most := lasts state inv
      by_cases less : left (look state) < amount
      · obtain ⟨result, settled⟩ := lower (left (look state)) less (keeps state inv) rfl
        exact spin_later settled
      · obtain ⟨result, settled⟩ := closer (keeps state inv) (by omega)
          (by rwa [ticks, Nat.add_assoc, Nat.add_comm 1])
        exact spin_later settled

end Spins

end Stardust.Lib
