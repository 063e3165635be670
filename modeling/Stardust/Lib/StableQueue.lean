import Mathlib.Data.List.TakeWhile
import Mathlib.Order.Basic
import Mathlib.Order.Defs.LinearOrder
import Mathlib.Order.Lattice

/-! # Queues sorted by a key, first come first

`insertStable` puts an element after all that have its key or a smaller one.
`StableQueue key arrivals xs` says that `xs` are the arrivals, sorted by key, and
in the order of their arrival where the keys are equal. -/
set_option autoImplicit false
namespace Stardust.Lib

universe u v

variable {α : Type u} {κ : Type v} [LinearOrder κ]

def insertStable (key : α → κ) (x : α) (xs : List α) : List α :=
  xs.takeWhile (fun y => key y ≤ key x) ++ x :: xs.dropWhile (fun y => key y ≤ key x)

structure StableQueue (key : α → κ) (arrivals xs : List α) : Prop where
  sorted : xs.Pairwise fun x y => key x ≤ key y
  stable : ∀ k, xs.filter (fun x => key x = k) = arrivals.filter (fun x => key x = k)

/-! ## Sorted lists -/

section Sorted
variable {key : α → κ} {x : α} {xs : List α}

/-- What a walk stops at, and all behind it, has a larger key. -/
theorem lt_of_mem_dropWhile {k : κ} (sorted : xs.Pairwise fun x y => key x ≤ key y)
    (member : x ∈ xs.dropWhile fun y => key y ≤ k) : k < key x := by
  induction xs with
  | nil => cases member
  | cons y ys ih =>
    obtain ⟨first, rest⟩ := List.pairwise_cons.mp sorted
    by_cases small : key y ≤ k
    · rw [List.dropWhile_cons_of_pos (by simp [small])] at member
      exact ih rest member
    · rw [List.dropWhile_cons_of_neg (by simp [small])] at member
      rcases List.mem_cons.mp member with rfl | later
      · exact not_le.mp small
      · exact (not_le.mp small).trans_le (first x later)

theorem le_of_mem_takeWhile {k : κ} (member : x ∈ xs.takeWhile fun y => key y ≤ k) : key x ≤ k := by
  have passed := List.mem_takeWhile_imp member
  exact of_decide_eq_true passed

/-- A walk that ends at the first larger key has met all the others. -/
theorem takeWhile_eq_filter {k : κ} (sorted : xs.Pairwise fun x y => key x ≤ key y) :
    (xs.takeWhile fun y => key y ≤ k) = xs.filter fun y => key y ≤ k := by
  induction xs with
  | nil => rfl
  | cons y ys ih =>
    obtain ⟨first, rest⟩ := List.pairwise_cons.mp sorted
    by_cases small : key y ≤ k
    · rw [List.takeWhile_cons_of_pos (by simp [small]), List.filter_cons_of_pos (by simp [small]), ih rest]
    · rw [List.takeWhile_cons_of_neg (by simp [small]), eq_comm, List.filter_eq_nil_iff]
      intro z member
      rcases List.mem_cons.mp member with rfl | later
      · simp [small]
      · simp [(not_le.mp small).trans_le (first z later)]

theorem mem_insertStable {y : α} : y ∈ insertStable key x xs ↔ y = x ∨ y ∈ xs := by
  have parts : y ∈ xs ↔ y ∈ xs.takeWhile (fun z => key z ≤ key x) ∨
      y ∈ xs.dropWhile (fun z => key z ≤ key x) := by
    rw [← List.mem_append, List.takeWhile_append_dropWhile]
  rw [insertStable, List.mem_append, List.mem_cons, parts]
  exact or_left_comm

theorem insertStable_sorted (sorted : xs.Pairwise fun x y => key x ≤ key y) :
    (insertStable key x xs).Pairwise fun x y => key x ≤ key y := by
  have early := sorted.sublist (List.takeWhile_sublist fun y => key y ≤ key x)
  have late := sorted.sublist (List.dropWhile_sublist fun y => key y ≤ key x)
  rw [insertStable, List.pairwise_append]
  refine ⟨early, List.pairwise_cons.mpr ⟨fun y member => (lt_of_mem_dropWhile sorted member).le, late⟩, ?_⟩
  intro y inEarly z inLate
  have small : key y ≤ key x := le_of_mem_takeWhile inEarly
  rcases List.mem_cons.mp inLate with rfl | behind
  · exact small
  · exact small.trans (lt_of_mem_dropWhile sorted behind).le

/-- Among the elements of one key the new one comes last. -/
theorem insertStable_filter (sorted : xs.Pairwise fun x y => key x ≤ key y) (k : κ) :
    (insertStable key x xs).filter (fun y => key y = k) =
      (xs ++ [x]).filter fun y => key y = k := by
  have parts : xs.filter (fun y => key y = k) =
      (xs.takeWhile fun y => key y ≤ key x).filter (fun y => key y = k) ++
        (xs.dropWhile fun y => key y ≤ key x).filter fun y => key y = k := by
    rw [← List.filter_append, List.takeWhile_append_dropWhile]
  rw [insertStable, List.filter_append, List.filter_append, parts, List.append_assoc]
  congr 1
  by_cases same : key x = k
  · have behind : (xs.dropWhile fun y => key y ≤ key x).filter (fun y => key y = k) = [] := by
      rw [List.filter_eq_nil_iff]
      intro y member
      have later := lt_of_mem_dropWhile sorted member
      rw [same] at later
      simp [later.ne']
    rw [List.filter_cons_of_pos (by simp [same]), behind, List.nil_append,
      List.filter_cons_of_pos (by simp [same]), List.filter_nil]
  · rw [List.filter_cons_of_neg (by simp [same]), List.filter_cons_of_neg (by simp [same]), List.filter_nil,
      List.append_nil]

end Sorted

/-! ## The queue -/

section Queue
variable {key : α → κ} {x : α} {arrivals xs : List α}

theorem StableQueue.nil : StableQueue key [] [] :=
  ⟨List.Pairwise.nil, fun _ => rfl⟩

theorem StableQueue.mem_iff (queue : StableQueue key arrivals xs) : x ∈ xs ↔ x ∈ arrivals := by
  have same := queue.stable (key x)
  constructor
  · intro member
    have kept : x ∈ xs.filter fun y => key y = key x := by simp [member]
    rw [same] at kept
    exact (List.mem_filter.mp kept).1
  · intro member
    have kept : x ∈ arrivals.filter fun y => key y = key x := by simp [member]
    rw [← same] at kept
    exact (List.mem_filter.mp kept).1

theorem StableQueue.insert (queue : StableQueue key arrivals xs) :
    StableQueue key (arrivals ++ [x]) (insertStable key x xs) := by
  refine ⟨insertStable_sorted queue.sorted, fun k => ?_⟩
  rw [insertStable_filter queue.sorted, List.filter_append, List.filter_append, queue.stable]

theorem StableQueue.erase [DecidableEq α] (queue : StableQueue key arrivals xs) :
    StableQueue key (arrivals.erase x) (xs.erase x) := by
  refine ⟨queue.sorted.sublist List.erase_sublist, fun k => ?_⟩
  rw [← List.erase_filter, ← List.erase_filter, queue.stable]

/-- The keys of what is not in the queue do not matter. -/
theorem StableQueue.congr {other : α → κ} (queue : StableQueue key arrivals xs)
    (agree : ∀ x ∈ xs, other x = key x) : StableQueue other arrivals xs := by
  constructor
  · apply queue.sorted.imp_of_mem
    intro x y inX inY le
    rwa [agree x inX, agree y inY]
  · intro k
    have left : xs.filter (fun x => other x = k) = xs.filter fun x => key x = k := by
      apply List.filter_congr
      intro x member
      rw [agree x member]
    have right : arrivals.filter (fun x => other x = k) =
        arrivals.filter fun x => key x = k := by
      apply List.filter_congr
      intro x member
      rw [agree x (queue.mem_iff.mpr member)]
    rw [left, right, queue.stable]

/-- The first of the queue has the least key. -/
theorem StableQueue.head_least (queue : StableQueue key arrivals (x :: xs)) {y : α}
    (member : y ∈ x :: xs) : key x ≤ key y := by
  rcases List.mem_cons.mp member with rfl | later
  · exact le_refl _
  · exact (List.pairwise_cons.mp queue.sorted).1 y later

end Queue

end Stardust.Lib
