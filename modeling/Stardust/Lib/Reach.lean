import Mathlib.Data.List.Basic

/-! # Runs of a labelled step relation

`Reach init step guard` holds of the states that some run reaches: it starts in
`init`, every move is one of `step`, and every move meets `guard` in the state
it leaves.  `Reach.invariant` is the induction every whole-run result uses. -/
set_option autoImplicit false
namespace Stardust.Lib

universe u v

variable {State : Type u} {Label : Type v}

inductive Reach (init : State → Prop) (step : State → Label → State → Prop)
    (guard : State → Label → Prop) : State → Prop
  | start {state : State} (starts : init state) : Reach init step guard state
  | next {state after : State} {label : Label} (before : Reach init step guard state)
      (allowed : guard state label) (move : step state label after) : Reach init step guard after

/-- The guard of a run that may take any step. -/
def Always : State → Label → Prop := fun _ _ => True

instance (state : State) (label : Label) : Decidable (Always state label) := isTrue trivial

section Rules
variable {init : State → Prop} {step : State → Label → State → Prop}
  {guard : State → Label → Prop}

theorem Reach.invariant (Inv : State → Prop) (starts : ∀ state, init state → Inv state)
    (preserved : ∀ state label after, Inv state → guard state label →
      step state label after → Inv after)
    {state : State} (reached : Reach init step guard state) : Inv state := by
  induction reached with
  | start begun => exact starts _ begun
  | next _ allowed move ih => exact preserved _ _ _ ih allowed move

end Rules

/-! ## Executable runs -/

section Executable
variable {exec : State → Label → Option State} {guard : State → Label → Prop}
  [allowed : ∀ state label, Decidable (guard state label)]

/-- The state after a list of labels, when every step is possible and allowed. -/
def runLabels (exec : State → Label → Option State) (guard : State → Label → Prop)
    [∀ state label, Decidable (guard state label)] : List Label → State → Option State
  | [], state => some state
  | label :: rest, state =>
    if guard state label then
      match exec state label with
      | none => none
      | some after => runLabels exec guard rest after
    else none

theorem Reach.of_runLabels {init : State → Prop} {labels : List Label} {state final : State}
    (reached : Reach init (fun before label after => exec before label = some after) guard state)
    (run : runLabels exec guard labels state = some final) :
    Reach init (fun before label after => exec before label = some after) guard final := by
  induction labels generalizing state with
  | nil =>
    cases Option.some.inj run
    exact reached
  | cons label rest ih =>
    simp only [runLabels] at run
    split at run
    · rename_i allowed
      split at run
      · contradiction
      · rename_i after move
        exact ih (reached.next allowed move) run
    · contradiction

/-- A run that ends in a state with `Goal`. -/
theorem Reach.of_run_ends {init Goal : State → Prop} [DecidablePred Goal] {labels : List Label}
    {state : State} (starts : init state)
    (run : (runLabels exec guard labels state).any (fun final => decide (Goal final)) = true) :
    ∃ final, Reach init (fun before label after => exec before label = some after) guard final ∧
      Goal final := by
  obtain ⟨final, ran, ends⟩ := (Option.any_eq_true _ _).mp run
  exact ⟨final, Reach.of_runLabels (.start starts) ran, of_decide_eq_true ends⟩

end Executable

end Stardust.Lib
