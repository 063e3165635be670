import Mathlib.Data.List.Induction

/-! # Descents in a graph of nodes

The nodes that paths of indices lead to from a root, in a graph that changes: by changes
at nodes that no short path reaches, and by a new node behind a free index. -/
set_option autoImplicit false
namespace Stardust.Lib

universe u v

variable {Node : Type u} {Index : Type v} {child other : Node → Index → Option Node} {root node : Node}
  {p q : List Index} {i : Index} {depth : Nat}

def descend (child : Node → Index → Option Node) (root : Node) (path : List Index) : Option Node :=
  path.foldlM child root

@[simp] theorem descend_nil : descend child root [] = some root := rfl

theorem descend_concat : descend child root (p ++ [i]) = (descend child root p).bind fun node => child node i := by
  simp [descend, List.foldlM_append]

theorem descend_concat_some : descend child root (p ++ [i]) = some node ↔
    ∃ parent, descend child root p = some parent ∧ child parent i = some node := by
  rw [descend_concat, Option.bind_eq_some_iff]

/-- No node is at the end of two paths of the depth. -/
def Tree (child : Node → Index → Option Node) (root : Node) (depth : Nat) : Prop :=
  ∀ p q node, p.length ≤ depth → q.length ≤ depth → descend child root p = some node →
    descend child root q = some node → p = q

/-- The two graphs have the same children at the nodes above the depth. -/
def AgreeAbove (child other : Node → Index → Option Node) (root : Node) (depth : Nat) : Prop :=
  ∀ p node i, p.length < depth → descend child root p = some node → other node i = child node i

theorem AgreeAbove.descend_eq (agree : AgreeAbove child other root depth) (short : p.length ≤ depth) :
    descend other root p = descend child root p := by
  induction p using List.reverseRecOn with
  | nil => rfl
  | append_singleton p i ih =>
    rw [List.length_append, List.length_singleton] at short
    rw [descend_concat, descend_concat, ih (Nat.le_of_succ_le short)]
    cases found : descend child root p with
    | none => rfl
    | some node => exact agree p node i short found

theorem AgreeAbove.tree (agree : AgreeAbove child other root depth) (tree : Tree child root depth) :
    Tree other root depth := by
  intro p q node short small first second
  rw [agree.descend_eq short] at first
  rw [agree.descend_eq small] at second
  exact tree p q node short small first second

/-! ## A new node -/

/-- `other` has the new node `leaf` behind the index `i` of the node at the end of `p`. -/
structure NewNode (child other : Node → Index → Option Node) (root : Node) (depth : Nat) (p : List Index)
    (i : Index) (leaf : Node) : Prop where
  tree : Tree child root depth
  above : p.length < depth
  linked : ∀ parent, descend child root p = some parent →
    child parent i = none ∧ other parent i = some leaf ∧
      ∀ node j, node ≠ parent ∨ j ≠ i → other node j = child node j
  reached : ∃ parent, descend child root p = some parent
  fresh : ∀ q, q.length ≤ depth → descend child root q ≠ some leaf
  empty : ∀ j, child leaf j = none

variable {leaf : Node}

/-- One path more leads to a node. -/
theorem NewNode.descend_iff (grown : NewNode child other root depth p i leaf) (short : q.length ≤ depth) :
    descend other root q = some node ↔ descend child root q = some node ∨ (q = p ++ [i] ∧ node = leaf) := by
  obtain ⟨parent, reached⟩ := grown.reached
  obtain ⟨free, linked, kept⟩ := grown.linked parent reached
  have parentOld : leaf ≠ parent := by
    rintro rfl
    exact grown.fresh p (Nat.le_of_lt grown.above) reached
  induction q using List.reverseRecOn generalizing node with
  | nil => simp
  | append_singleton q j ih =>
    rw [List.length_append, List.length_singleton] at short
    rw [descend_concat_some, descend_concat_some]
    constructor
    · rintro ⟨before, found, step⟩
      rcases (ih (Nat.le_of_succ_le short)).mp found with old | ⟨_, rfl⟩
      · by_cases new : before = parent ∧ j = i
        · obtain ⟨rfl, rfl⟩ := new
          have path := grown.tree q p before (Nat.le_of_succ_le short) (Nat.le_of_lt grown.above) old reached
          rw [linked] at step
          exact Or.inr ⟨by rw [path], (Option.some.inj step).symm⟩
        · rw [kept before j (not_and_or.mp new)] at step
          exact Or.inl ⟨before, old, step⟩
      · rw [kept before j (Or.inl parentOld), grown.empty] at step
        cases step
    · rintro (⟨before, old, step⟩ | ⟨path, rfl⟩)
      · have same : before ≠ parent ∨ j ≠ i := by
          by_contra new
          obtain ⟨rfl, rfl⟩ := not_or.mp new |>.imp not_not.mp not_not.mp
          rw [free] at step
          cases step
        exact ⟨before, (ih (Nat.le_of_succ_le short)).mpr (Or.inl old), by rwa [kept before j same]⟩
      · obtain ⟨rfl, last⟩ := List.append_inj' path rfl
        cases List.singleton_inj.mp last
        exact ⟨parent, (ih (Nat.le_of_succ_le short)).mpr (Or.inl reached), linked⟩

theorem NewNode.tree_other (grown : NewNode child other root depth p i leaf) : Tree other root depth := by
  intro first second node short small found same
  rcases (grown.descend_iff short).mp found with old | ⟨rfl, rfl⟩
  · rcases (grown.descend_iff small).mp same with again | ⟨_, rfl⟩
    · exact grown.tree first second node short small old again
    · exact absurd old (grown.fresh first short)
  · rcases (grown.descend_iff small).mp same with again | ⟨rfl, _⟩
    · exact absurd again (grown.fresh second small)
    · rfl

end Stardust.Lib
