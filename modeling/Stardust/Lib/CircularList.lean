import Mathlib.Data.List.Nodup
import Mathlib.Logic.Function.Basic

/-! # Circular doubly linked lists

An intrusive list threads `next` and `prev` through nodes that belong to
something else, with a head node that closes the circle.  `IsList l head xs` says
that `xs` are the members of the list at `head`, in order.  The operations are
the usual ones; each has a rule for the list it changes and a frame rule for the
nodes it leaves alone. -/
set_option autoImplicit false
namespace Stardust.Lib

structure Links (ν : Type) where
  next : ν → ν
  prev : ν → ν

section Operations
variable {ν : Type} [DecidableEq ν]

def Links.setNext (l : Links ν) (node value : ν) : Links ν :=
  { l with next := Function.update l.next node value }

def Links.setPrev (l : Links ν) (node value : ν) : Links ν :=
  { l with prev := Function.update l.prev node value }

/-- `__list_add` -/
def Links.insertBetween (l : Links ν) (node before after : ν) : Links ν :=
  (((l.setPrev after node).setNext node after).setPrev node before).setNext before node

def Links.listAdd (l : Links ν) (node head : ν) : Links ν :=
  l.insertBetween node head (l.next head)

def Links.listAddTail (l : Links ν) (node head : ν) : Links ν :=
  l.insertBetween node (l.prev head) head

/-- `__list_del` -/
def Links.joinAround (l : Links ν) (before after : ν) : Links ν :=
  (l.setPrev after before).setNext before after

def Links.listDel (l : Links ν) (entry : ν) : Links ν :=
  l.joinAround (l.prev entry) (l.next entry)

def Links.initListHead (l : Links ν) (node : ν) : Links ν :=
  (l.setNext node node).setPrev node node

def Links.listDelInit (l : Links ν) (entry : ν) : Links ν :=
  (l.listDel entry).initListHead entry

end Operations

/-! ## Segments -/

section Segments
variable {ν : Type}

/-- From `a` the links lead through `xs` to `b`, and back. -/
def Seg (l : Links ν) (a : ν) : List ν → ν → Prop
  | [], b => l.next a = b ∧ l.prev b = a
  | x :: xs, b => (l.next a = x ∧ l.prev x = a) ∧ Seg l x xs b

theorem Seg.congr {l m : Links ν} {a b : ν} {xs : List ν} (seg : Seg l a xs b)
    (next : ∀ n ∈ a :: xs, m.next n = l.next n) (prev : ∀ n ∈ xs ++ [b], m.prev n = l.prev n) :
    Seg m a xs b := by
  induction xs generalizing a with
  | nil =>
    obtain ⟨forward, backward⟩ := seg
    exact ⟨(next a (by simp)).trans forward, (prev b (by simp)).trans backward⟩
  | cons x xs ih =>
    obtain ⟨⟨forward, backward⟩, rest⟩ := seg
    refine ⟨⟨(next a (by simp)).trans forward, (prev x (by simp)).trans backward⟩, ?_⟩
    apply ih rest
    · intro n member
      exact next n (List.mem_cons_of_mem a member)
    · intro n member
      exact prev n (List.mem_cons_of_mem x member)

theorem seg_append {l : Links ν} {a b y : ν} {xs ys : List ν} :
    Seg l a (xs ++ y :: ys) b ↔ Seg l a xs y ∧ Seg l y ys b := by
  induction xs generalizing a with
  | nil => exact Iff.rfl
  | cons x xs ih =>
    simp only [List.cons_append, Seg, ih, and_assoc]

theorem Seg.prev_mem {l : Links ν} {a b : ν} {xs : List ν} (seg : Seg l a xs b) :
    l.prev b ∈ a :: xs := by
  induction xs generalizing a with
  | nil =>
    rw [seg.2]
    exact List.mem_cons_self ..
  | cons x xs ih => exact List.mem_cons_of_mem a (ih seg.2)

theorem Seg.next_mem {l : Links ν} {a b : ν} {xs : List ν} (seg : Seg l a xs b) :
    l.next a ∈ xs ++ [b] := by
  cases xs with
  | nil =>
    rw [seg.1]
    exact List.mem_cons_self ..
  | cons x xs =>
    rw [seg.1.1]
    exact List.mem_cons_self ..

/-- The last node of a segment is led to `c` instead of `b`. -/
theorem Seg.relinkLast {l m : Links ν} {a b c : ν} {xs : List ν} (seg : Seg l a xs b)
    (nodup : (a :: xs).Nodup)
    (next : ∀ n ∈ a :: xs, n ≠ l.prev b → m.next n = l.next n)
    (prev : ∀ n ∈ xs, m.prev n = l.prev n)
    (forward : m.next (l.prev b) = c) (backward : m.prev c = l.prev b) : Seg m a xs c := by
  induction xs generalizing a with
  | nil =>
    rw [seg.2] at forward backward
    exact ⟨forward, backward⟩
  | cons x xs ih =>
    obtain ⟨⟨first, back⟩, rest⟩ := seg
    obtain ⟨fresh, nodupRest⟩ := List.nodup_cons.mp nodup
    have other : a ≠ l.prev b := fun same => fresh (same ▸ rest.prev_mem)
    refine ⟨⟨(next a (by simp) other).trans first, (prev x (by simp)).trans back⟩, ?_⟩
    apply ih rest nodupRest
    · intro n member
      exact next n (List.mem_cons_of_mem a member)
    · intro n member
      exact prev n (List.mem_cons_of_mem x member)

end Segments

/-! ## Lists -/

structure IsList {ν : Type} (l : Links ν) (head : ν) (xs : List ν) : Prop where
  seg : Seg l head xs head
  nodup : (head :: xs).Nodup

section Lists
variable {ν : Type} {l : Links ν} {head : ν} {xs ys : List ν}

theorem IsList.congr {m : Links ν} (list : IsList l head xs)
    (agree : ∀ n ∈ head :: xs, m.next n = l.next n ∧ m.prev n = l.prev n) : IsList m head xs := by
  refine ⟨list.seg.congr (fun n member => (agree n member).1) (fun n member => ?_), list.nodup⟩
  apply (agree n _).2
  simpa [or_comm] using member

theorem IsList.next_mem (list : IsList l head xs) : l.next head ∈ head :: xs := by
  simpa [or_comm] using list.seg.next_mem

theorem IsList.prev_mem (list : IsList l head xs) : l.prev head ∈ head :: xs :=
  list.seg.prev_mem

theorem IsList.next_head (list : IsList l head xs) : l.next head = xs.headD head := by
  cases xs with
  | nil => exact list.seg.1
  | cons x xs => exact list.seg.1.1

theorem IsList.next_member {y : ν} (list : IsList l head (xs ++ y :: ys)) :
    l.next y = ys.headD head := by
  obtain ⟨_, rest⟩ := seg_append.mp list.seg
  cases ys with
  | nil => exact rest.1
  | cons z zs => exact rest.1.1

/-- The neighbours of a member are members, or the head. -/
theorem IsList.neighbours {y : ν} (list : IsList l head xs) (member : y ∈ xs) :
    l.next y ∈ head :: xs ∧ l.prev y ∈ head :: xs := by
  obtain ⟨before, after, rfl⟩ := List.append_of_mem member
  obtain ⟨left, right⟩ := seg_append.mp list.seg
  have next := right.next_mem
  have prev := left.prev_mem
  constructor
  · rcases List.mem_append.mp next with later | isHead
    · simp [later]
    · simp [List.mem_singleton.mp isHead]
  · rcases List.mem_cons.mp prev with isHead | earlier
    · simp [isHead]
    · simp [earlier]

/-- A member is not linked to itself. -/
theorem IsList.next_ne {y : ν} (list : IsList l head xs) (member : y ∈ xs) : l.next y ≠ y := by
  obtain ⟨before, after, rfl⟩ := List.append_of_mem member
  have nodup := list.nodup
  rw [← List.cons_append, List.nodup_append] at nodup
  obtain ⟨_, rest, apart⟩ := nodup
  rw [list.next_member]
  cases after with
  | nil => exact apart head (List.mem_cons_self ..) y (List.mem_cons_self ..)
  | cons first later =>
    intro same
    rw [List.headD_cons] at same
    exact (List.nodup_cons.mp rest).1 (same ▸ List.mem_cons_self ..)

theorem Seg.unique {a b : ν} (left : Seg l a xs b) (right : Seg l a ys b) (freshLeft : b ∉ xs)
    (freshRight : b ∉ ys) : xs = ys := by
  induction xs generalizing a ys with
  | nil =>
    cases ys with
    | nil => rfl
    | cons y ys =>
      have same : y = b := right.1.1.symm.trans left.1
      exact absurd (same ▸ List.mem_cons_self ..) freshRight
  | cons x xs ih =>
    cases ys with
    | nil =>
      have same : x = b := left.1.1.symm.trans right.1
      exact absurd (same ▸ List.mem_cons_self ..) freshLeft
    | cons y ys =>
      have same : y = x := right.1.1.symm.trans left.1.1
      subst same
      rw [ih left.2 right.2 (fun member => freshLeft (List.mem_cons_of_mem y member))
        (fun member => freshRight (List.mem_cons_of_mem y member))]

theorem IsList.unique (left : IsList l head xs) (right : IsList l head ys) : xs = ys :=
  left.seg.unique right.seg (List.nodup_cons.mp left.nodup).1 (List.nodup_cons.mp right.nodup).1

variable [DecidableEq ν]

theorem IsList.listAdd {node : ν} (list : IsList l head xs) (fresh : node ∉ head :: xs) :
    IsList (l.listAdd node head) head (node :: xs) := by
  obtain ⟨seg, nodup⟩ := list
  obtain ⟨headFresh, nodupRest⟩ := List.nodup_cons.mp nodup
  have notHead : node ≠ head := fun same => fresh (same ▸ List.mem_cons_self ..)
  have notMember : node ∉ xs := fun member => fresh (List.mem_cons_of_mem head member)
  refine ⟨?_, ?_⟩
  · refine ⟨?_, ?_⟩
    · simp [Links.listAdd, Links.insertBetween, Links.setNext, Links.setPrev]
    · cases xs with
      | nil =>
        simp [Seg, Links.listAdd, Links.insertBetween, Links.setNext, Links.setPrev, seg.1,
          notHead, notHead.symm]
      | cons x rest =>
        obtain ⟨⟨first, back⟩, tail⟩ := seg
        obtain ⟨xFresh, _⟩ := List.nodup_cons.mp nodupRest
        have xNode : x ≠ node := fun same => notMember (same ▸ List.mem_cons_self ..)
        have xHead : x ≠ head := fun same => headFresh (same ▸ List.mem_cons_self ..)
        refine ⟨?_, tail.congr (fun n member => ?_) (fun n member => ?_)⟩
        · simp [Links.listAdd, Links.insertBetween, Links.setNext, Links.setPrev, first, notHead,
            xNode]
        · have nNode : n ≠ node := fun same => notMember (same ▸ member)
          have nHead : n ≠ head := fun same => headFresh (same ▸ member)
          simp [Links.listAdd, Links.insertBetween, Links.setNext, Links.setPrev, nNode, nHead]
        · have nNode : n ≠ node := by
            rintro rfl
            rcases List.mem_append.mp member with inRest | isHead
            · exact notMember (List.mem_cons_of_mem x inRest)
            · exact notHead (List.mem_singleton.mp isHead)
          have nFirst : n ≠ x := by
            rintro rfl
            rcases List.mem_append.mp member with inRest | isHead
            · exact xFresh inRest
            · exact xHead (List.mem_singleton.mp isHead)
          simp [Links.listAdd, Links.insertBetween, Links.setNext, Links.setPrev, first, nNode,
            nFirst]
  · simp only [List.nodup_cons, List.mem_cons, not_or]
    exact ⟨⟨notHead.symm, headFresh⟩, notMember, nodupRest⟩

theorem IsList.listAddTail {node : ν} (list : IsList l head xs) (fresh : node ∉ head :: xs) :
    IsList (l.listAddTail node head) head (xs ++ [node]) := by
  obtain ⟨seg, nodup⟩ := list
  obtain ⟨headFresh, nodupRest⟩ := List.nodup_cons.mp nodup
  have notHead : node ≠ head := fun same => fresh (same ▸ List.mem_cons_self ..)
  have notMember : node ∉ xs := fun member => fresh (List.mem_cons_of_mem head member)
  have last := seg.prev_mem
  have notLast : node ≠ l.prev head := fun same => fresh (same ▸ last)
  refine ⟨seg_append.mpr ⟨seg.relinkLast nodup (fun n member other => ?_) (fun n member => ?_) ?_ ?_,
    ?_, ?_⟩, ?_⟩
  · have nNode : n ≠ node := fun same => fresh (same ▸ member)
    simp [Links.listAddTail, Links.insertBetween, Links.setNext, Links.setPrev, other, nNode]
  · have nNode : n ≠ node := fun same => notMember (same ▸ member)
    have nHead : n ≠ head := fun same => headFresh (same ▸ member)
    simp [Links.listAddTail, Links.insertBetween, Links.setNext, Links.setPrev, nNode, nHead]
  · simp [Links.listAddTail, Links.insertBetween, Links.setNext, Links.setPrev]
  · simp [Links.listAddTail, Links.insertBetween, Links.setNext, Links.setPrev]
  · simp [Links.listAddTail, Links.insertBetween, Links.setNext, Links.setPrev, notLast]
  · simp [Links.listAddTail, Links.insertBetween, Links.setNext, Links.setPrev, notHead.symm]
  · rw [← List.cons_append, List.nodup_append]
    refine ⟨nodup, List.nodup_singleton node, ?_⟩
    intro n member m isNode same
    rw [List.mem_singleton.mp isNode] at same
    exact fresh (same ▸ member)

/-- `list_add_tail` at a member puts the node in front of it. -/
theorem IsList.listAddTail_member {node y : ν} (list : IsList l head (xs ++ y :: ys))
    (fresh : node ∉ head :: (xs ++ y :: ys)) :
    IsList (l.listAddTail node y) head (xs ++ node :: y :: ys) := by
  obtain ⟨seg, nodup⟩ := list
  obtain ⟨before, after⟩ := seg_append.mp seg
  rw [← List.cons_append] at nodup fresh
  obtain ⟨nodupBefore, nodupAfter, apart⟩ := List.nodup_append.mp nodup
  have last := before.prev_mem
  have notBefore : node ∉ head :: xs := fun member => fresh (List.mem_append_left _ member)
  have notAfter : node ∉ y :: ys := fun member => fresh (List.mem_append_right _ member)
  have notLast : node ≠ l.prev y := fun same => notBefore (same ▸ last)
  have notNext : y ≠ node := fun same => notAfter (same ▸ List.mem_cons_self ..)
  refine ⟨seg_append.mpr ⟨before.relinkLast nodupBefore (fun n member other => ?_) (fun n member => ?_) ?_ ?_,
    ⟨?_, ?_⟩, after.congr (fun n member => ?_) (fun n member => ?_)⟩, ?_⟩
  · have nNode : n ≠ node := fun same => notBefore (same ▸ member)
    simp [Links.listAddTail, Links.insertBetween, Links.setNext, Links.setPrev, other, nNode]
  · have inside := List.mem_cons_of_mem head member
    have nNode : n ≠ node := fun same => notBefore (same ▸ inside)
    have nNext : n ≠ y := apart n inside y (List.mem_cons_self ..)
    simp [Links.listAddTail, Links.insertBetween, Links.setNext, Links.setPrev, nNode, nNext]
  · simp [Links.listAddTail, Links.insertBetween, Links.setNext, Links.setPrev]
  · simp [Links.listAddTail, Links.insertBetween, Links.setNext, Links.setPrev]
  · simp [Links.listAddTail, Links.insertBetween, Links.setNext, Links.setPrev, notLast]
  · simp [Links.listAddTail, Links.insertBetween, Links.setNext, Links.setPrev, notNext]
  · have nNode : n ≠ node := fun same => notAfter (same ▸ member)
    have nLast : n ≠ l.prev y := (apart (l.prev y) last n member).symm
    simp [Links.listAddTail, Links.insertBetween, Links.setNext, Links.setPrev, nNode, nLast]
  · have nNode : n ≠ node := by
      rintro rfl
      rcases List.mem_append.mp member with inside | isHead
      · exact notAfter (List.mem_cons_of_mem y inside)
      · exact notBefore (List.mem_singleton.mp isHead ▸ List.mem_cons_self ..)
    have nNext : n ≠ y := by
      rintro rfl
      rcases List.mem_append.mp member with inside | isHead
      · exact (List.nodup_cons.mp nodupAfter).1 inside
      · exact apart head (List.mem_cons_self ..) n (List.mem_cons_self ..) (List.mem_singleton.mp isHead).symm
    simp [Links.listAddTail, Links.insertBetween, Links.setNext, Links.setPrev, nNode, nNext]
  · rw [← List.cons_append]
    refine List.nodup_append.mpr ⟨nodupBefore, List.nodup_cons.mpr ⟨notAfter, nodupAfter⟩, ?_⟩
    intro a left b right
    rcases List.mem_cons.mp right with rfl | inside
    · exact fun same => notBefore (same ▸ left)
    · exact apart a left b inside

/-- Insertion at any place: in front of the rest of the list, or at its end. -/
theorem IsList.insertBefore {node : ν} (list : IsList l head (xs ++ ys))
    (fresh : node ∉ head :: (xs ++ ys)) :
    IsList (l.listAddTail node (ys.headD head)) head (xs ++ node :: ys) := by
  cases ys with
  | nil =>
    rw [List.append_nil] at list fresh
    exact list.listAddTail fresh
  | cons y ys => exact list.listAddTail_member fresh

theorem IsList.listDel {y : ν} (list : IsList l head (xs ++ y :: ys)) :
    IsList (l.listDel y) head (xs ++ ys) := by
  obtain ⟨seg, nodup⟩ := list
  obtain ⟨before, after⟩ := seg_append.mp seg
  have parts : (head :: xs).Nodup ∧ (y :: ys).Nodup ∧
      ∀ a ∈ head :: xs, ∀ b ∈ y :: ys, a ≠ b := by
    rw [← List.cons_append, List.nodup_append] at nodup
    exact nodup
  obtain ⟨nodupBefore, nodupAfter, apart⟩ := parts
  have last := before.prev_mem
  have shorter : (head :: (xs ++ ys)).Nodup := by
    rw [← List.cons_append, List.nodup_append]
    exact ⟨nodupBefore, (List.nodup_cons.mp nodupAfter).2,
      fun a left b right => apart a left b (List.mem_cons_of_mem y right)⟩
  refine ⟨?_, shorter⟩
  cases ys with
  | nil =>
    obtain ⟨first, back⟩ := after
    rw [List.append_nil]
    refine before.relinkLast nodupBefore (fun n member other => ?_) (fun n member => ?_) ?_ ?_
    · simp [Links.listDel, Links.joinAround, Links.setNext, Links.setPrev, other]
    · have nHead : n ≠ head := fun same => (List.nodup_cons.mp nodupBefore).1 (same ▸ member)
      simp [Links.listDel, Links.joinAround, Links.setNext, Links.setPrev, first, nHead]
    · simp [Links.listDel, Links.joinAround, Links.setNext, Links.setPrev, first]
    · simp [Links.listDel, Links.joinAround, Links.setNext, Links.setPrev, first]
  | cons z zs =>
    obtain ⟨⟨first, back⟩, tail⟩ := after
    have zFresh : z ∉ head :: xs := fun member => apart z member z (by simp) rfl
    refine seg_append.mpr ⟨before.relinkLast nodupBefore (fun n member other => ?_)
      (fun n member => ?_) ?_ ?_, tail.congr (fun n member => ?_) (fun n member => ?_)⟩
    · simp [Links.listDel, Links.joinAround, Links.setNext, Links.setPrev, other]
    · have nFirst : n ≠ z := fun same => zFresh (same ▸ List.mem_cons_of_mem head member)
      simp [Links.listDel, Links.joinAround, Links.setNext, Links.setPrev, first, nFirst]
    · simp [Links.listDel, Links.joinAround, Links.setNext, Links.setPrev, first]
    · simp [Links.listDel, Links.joinAround, Links.setNext, Links.setPrev, first]
    · have nLast : n ≠ l.prev y :=
        (apart (l.prev y) last n (List.mem_cons_of_mem y member)).symm
      simp [Links.listDel, Links.joinAround, Links.setNext, Links.setPrev, nLast]
    · have nFirst : n ≠ z := by
        rintro rfl
        rcases List.mem_append.mp member with inRest | isHead
        · exact (List.nodup_cons.mp (List.nodup_cons.mp nodupAfter).2).1 inRest
        · exact zFresh (List.mem_singleton.mp isHead ▸ List.mem_cons_self ..)
      simp [Links.listDel, Links.joinAround, Links.setNext, Links.setPrev, first, nFirst]

/-! ## Frame rules -/

theorem listAdd_frame {node other : ν} (node_ne : other ≠ node) (head_ne : other ≠ head)
    (next_ne : other ≠ l.next head) :
    (l.listAdd node head).next other = l.next other ∧
      (l.listAdd node head).prev other = l.prev other := by
  simp [Links.listAdd, Links.insertBetween, Links.setNext, Links.setPrev, node_ne, head_ne, next_ne]

theorem listAddTail_frame {node other : ν} (node_ne : other ≠ node) (head_ne : other ≠ head)
    (prev_ne : other ≠ l.prev head) :
    (l.listAddTail node head).next other = l.next other ∧
      (l.listAddTail node head).prev other = l.prev other := by
  simp [Links.listAddTail, Links.insertBetween, Links.setNext, Links.setPrev, node_ne, head_ne,
    prev_ne]

theorem listDel_frame {entry other : ν} (prev_ne : other ≠ l.prev entry)
    (next_ne : other ≠ l.next entry) :
    (l.listDel entry).next other = l.next other ∧ (l.listDel entry).prev other = l.prev other := by
  simp [Links.listDel, Links.joinAround, Links.setNext, Links.setPrev, prev_ne, next_ne]

theorem initListHead_frame {node other : ν} (node_ne : other ≠ node) :
    (l.initListHead node).next other = l.next other ∧
      (l.initListHead node).prev other = l.prev other := by
  simp [Links.initListHead, Links.setNext, Links.setPrev, node_ne]

theorem listDelInit_frame {entry other : ν} (entry_ne : other ≠ entry)
    (prev_ne : other ≠ l.prev entry) (next_ne : other ≠ l.next entry) :
    (l.listDelInit entry).next other = l.next other ∧
      (l.listDelInit entry).prev other = l.prev other := by
  obtain ⟨next, prev⟩ := initListHead_frame (l := l.listDel entry) entry_ne
  obtain ⟨sameNext, samePrev⟩ := listDel_frame prev_ne next_ne
  exact ⟨next.trans sameNext, prev.trans samePrev⟩

theorem listDelInit_self (entry : ν) :
    (l.listDelInit entry).next entry = entry ∧ (l.listDelInit entry).prev entry = entry := by
  simp [Links.listDelInit, Links.initListHead, Links.setNext, Links.setPrev]

theorem initListHead_alone {node : ν} (next : l.next node = node) (prev : l.prev node = node) :
    l.initListHead node = l := by
  have sameNext := Function.update_eq_self node l.next
  have samePrev := Function.update_eq_self node l.prev
  rw [next] at sameNext
  rw [prev] at samePrev
  simp [Links.initListHead, Links.setNext, Links.setPrev, sameNext, samePrev]

/-- Taking a node off no list changes nothing. -/
theorem listDelInit_alone {entry : ν} (next : l.next entry = entry) (prev : l.prev entry = entry) :
    l.listDelInit entry = l := by
  have around : l.listDel entry = l.initListHead entry := by
    rw [Links.listDel, next, prev]
    rfl
  rw [Links.listDelInit, around, initListHead_alone next prev, initListHead_alone next prev]

theorem IsList.listDelInit {y : ν} (list : IsList l head (xs ++ y :: ys)) :
    IsList (l.listDelInit y) head (xs ++ ys) := by
  apply list.listDel.congr
  intro n member
  have nodup := list.nodup
  rw [← List.cons_append, List.nodup_append] at nodup
  obtain ⟨_, rest, apart⟩ := nodup
  apply initListHead_frame
  rintro rfl
  rw [← List.cons_append] at member
  rcases List.mem_append.mp member with before | after
  · exact apart n before n (List.mem_cons_self ..) rfl
  · exact (List.nodup_cons.mp rest).1 after

theorem IsList.listDelInit_erase {y : ν} (list : IsList l head xs) (member : y ∈ xs) :
    IsList (l.listDelInit y) head (xs.erase y) := by
  have nodup := (List.nodup_cons.mp list.nodup).2
  obtain ⟨before, after, rfl⟩ := List.append_of_mem member
  have outside : y ∉ before := by
    intro early
    exact (List.nodup_append.mp nodup).2.2 y early y (List.mem_cons_self ..) rfl
  rw [List.erase_append_right _ outside, List.erase_cons_head]
  exact list.listDelInit

end Lists

/-! ## Lists that share the nodes

`members h` are the nodes on the list at `h`.  A node is on one list at most; a
node on none is linked to itself, as `list_del_init` leaves it. -/

structure ListFamily {ν : Type} (l : Links ν) (heads : ν → Prop) (members : ν → List ν) : Prop where
  list : ∀ h, heads h → IsList l h (members h)
  entry : ∀ h, heads h → ∀ n ∈ members h, ¬heads n
  apart : ∀ g h n, heads g → heads h → n ∈ members g → n ∈ members h → g = h
  alone : ∀ n, ¬heads n → (∀ h, heads h → n ∉ members h) → l.next n = n ∧ l.prev n = n

section Families
variable {ν : Type} {l : Links ν} {heads : ν → Prop} {members : ν → List ν} {h node : ν}

/-- Nothing on the list at `g` is on, or at the head of, another list. -/
theorem ListFamily.ne (family : ListFamily l heads members) {g n m : ν} (headG : heads g)
    (headH : heads h) (other : g ≠ h) (inG : n ∈ g :: members g) (inH : m ∈ h :: members h) :
    n ≠ m := by
  rintro rfl
  rcases List.mem_cons.mp inG with isG | memberG
  · rcases List.mem_cons.mp inH with isH | memberH
    · exact other (isG.symm.trans isH)
    · exact family.entry h headH n memberH (isG ▸ headG)
  · rcases List.mem_cons.mp inH with isH | memberH
    · exact family.entry g headG n memberG (isH ▸ headH)
    · exact other (family.apart g h n headG headH memberG memberH)

variable [DecidableEq ν]

theorem ListFamily.listAddTail (family : ListFamily l heads members) (head : heads h)
    (entry : ¬heads node) (free : ∀ g, heads g → node ∉ members g) :
    ListFamily (l.listAddTail node h) heads
      (Function.update members h (members h ++ [node])) := by
  have fresh : ∀ g, heads g → node ∉ g :: members g := by
    intro g headG member
    rcases List.mem_cons.mp member with isHead | inside
    · exact entry (isHead ▸ headG)
    · exact free g headG inside
  have last := (family.list h head).prev_mem
  have keeps : ∀ g, heads g → g ≠ h → ∀ n ∈ g :: members g,
      (l.listAddTail node h).next n = l.next n ∧ (l.listAddTail node h).prev n = l.prev n := by
    intro g headG other n member
    apply listAddTail_frame
    · exact fun same => fresh g headG (same ▸ member)
    · exact family.ne headG head other member (List.mem_cons_self ..)
    · exact family.ne headG head other member last
  refine ⟨fun g headG => ?_, fun g headG n member => ?_, fun g k n headG headK inG inK => ?_,
    fun n notHead absent => ?_⟩
  · by_cases this : g = h
    · subst this
      rw [Function.update_self]
      exact (family.list g headG).listAddTail (fresh g headG)
    · rw [Function.update_of_ne this]
      exact (family.list g headG).congr (keeps g headG this)
  · by_cases this : g = h
    · subst this
      rw [Function.update_self, List.mem_append, List.mem_singleton] at member
      rcases member with old | new
      · exact family.entry g headG n old
      · rwa [new]
    · rw [Function.update_of_ne this] at member
      exact family.entry g headG n member
  · have either : ∀ k, heads k → n ∈ Function.update members h (members h ++ [node]) k →
        n ∈ members k ∨ (k = h ∧ n = node) := by
      intro k _ inside
      by_cases this : k = h
      · subst this
        rw [Function.update_self, List.mem_append, List.mem_singleton] at inside
        rcases inside with old | new
        · exact Or.inl old
        · exact Or.inr ⟨rfl, new⟩
      · rw [Function.update_of_ne this] at inside
        exact Or.inl inside
    rcases either g headG inG with oldG | ⟨isG, rfl⟩
    · rcases either k headK inK with oldK | ⟨_, rfl⟩
      · exact family.apart g k n headG headK oldG oldK
      · exact absurd oldG (free g headG)
    · rcases either k headK inK with oldK | ⟨isK, _⟩
      · exact absurd oldK (free k headK)
      · exact isG.trans isK.symm
  · have inH := absent h head
    rw [Function.update_self, List.mem_append, List.mem_singleton, not_or] at inH
    have before : ∀ g, heads g → n ∉ members g := by
      intro g headG
      by_cases this : g = h
      · rw [this]
        exact inH.1
      · have outside := absent g headG
        rwa [Function.update_of_ne this] at outside
    have outside : n ∉ h :: members h := by
      intro member
      rcases List.mem_cons.mp member with isHead | inside
      · exact notHead (isHead ▸ head)
      · exact inH.1 inside
    obtain ⟨next, prev⟩ := listAddTail_frame (l := l) inH.2
      (fun same => notHead (same ▸ head)) (fun same => outside (same ▸ last))
    rw [next, prev]
    exact family.alone n notHead before

theorem ListFamily.listDelInit (family : ListFamily l heads members) (head : heads h)
    (member : node ∈ members h) :
    ListFamily (l.listDelInit node) heads
      (Function.update members h ((members h).erase node)) := by
  have list := family.list h head
  obtain ⟨nextIn, prevIn⟩ := list.neighbours member
  have keeps : ∀ g, heads g → g ≠ h → ∀ n ∈ g :: members g,
      (l.listDelInit node).next n = l.next n ∧ (l.listDelInit node).prev n = l.prev n := by
    intro g headG other n inside
    apply listDelInit_frame
    · exact family.ne headG head other inside (List.mem_cons_of_mem h member)
    · exact family.ne headG head other inside prevIn
    · exact family.ne headG head other inside nextIn
  have smaller : ∀ g, ∀ n ∈ Function.update members h ((members h).erase node) g, n ∈ members g := by
    intro g n inside
    by_cases this : g = h
    · subst this
      rw [Function.update_self] at inside
      exact List.mem_of_mem_erase inside
    · rwa [Function.update_of_ne this] at inside
  refine ⟨fun g headG => ?_, fun g headG n inside => family.entry g headG n (smaller g n inside),
    fun g k n headG headK inG inK => family.apart g k n headG headK (smaller g n inG) (smaller k n inK),
    fun n notHead absent => ?_⟩
  · by_cases this : g = h
    · subst this
      rw [Function.update_self]
      exact list.listDelInit_erase member
    · rw [Function.update_of_ne this]
      exact (family.list g headG).congr (keeps g headG this)
  · by_cases this : n = node
    · rw [this]
      exact listDelInit_self node
    · have before : ∀ g, heads g → n ∉ members g := by
        intro g headG inside
        apply absent g headG
        by_cases same : g = h
        · rw [same] at inside ⊢
          rw [Function.update_self]
          exact (List.mem_erase_of_ne this).mpr inside
        · rwa [Function.update_of_ne same]
      have outside : n ∉ h :: members h := by
        intro inside
        rcases List.mem_cons.mp inside with isHead | inList
        · exact notHead (isHead ▸ head)
        · exact before h head inList
      obtain ⟨next, prev⟩ := listDelInit_frame (l := l) this (fun same => outside (same ▸ prevIn))
        (fun same => outside (same ▸ nextIn))
      rw [next, prev]
      exact family.alone n notHead before

end Families

end Stardust.Lib
