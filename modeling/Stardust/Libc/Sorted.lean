import Stardust.Libc.Qsort

/-! # What `qsort` leaves

The partition loop keeps the elements equal to the pivot at both ends, the lesser ones
next to those at the low end and the greater ones at the high end; `Parted` says so for
the indices before each turn. -/
set_option autoImplicit false
namespace Stardust.Libc.Sorting

open Stardust.Lib

/-- The comparison is a total preorder by its sign. -/
structure Consistent (s : Sorting) : Prop where
  antisymm : ∀ a b, s.compar a b < 0 ↔ 0 < s.compar b a
  trans : ∀ a b c, s.compar a b ≤ 0 → s.compar b c ≤ 0 → s.compar a c ≤ 0

section Orders
variable {s : Sorting} {a b : Fin s.size → UInt8}

theorem Consistent.le_of_not_less (consistent : s.Consistent) (notLess : 0 ≤ s.compar a b) : s.compar b a ≤ 0 := by
  have flip := consistent.antisymm a b
  omega

theorem Consistent.equal (consistent : s.Consistent) (equal : s.compar a b = 0) : s.compar b a = 0 := by
  have flip := consistent.antisymm a b
  have flop := consistent.antisymm b a
  omega

theorem Consistent.refl (consistent : s.Consistent) (a : Fin s.size → UInt8) : s.compar a a = 0 := by
  have flip := consistent.antisymm a a
  omega

end Orders

/-! ## The scans -/

section Scans
variable {s : Sorting} {memory : List UInt8} {f : Int → Fin s.size → UInt8} {l r i j : Int}

theorem scanUp_ok (fuel : Nat) (holds : s.Holds memory f) (inR : s.Index r) (start : -1 ≤ i) (before : i < r)
    (enough : r - i ≤ fuel) :
    ∃ stop, s.scanUp memory r fuel i = .ok stop ∧ i < stop ∧ stop ≤ r ∧
      (∀ k, i < k → k < stop → s.compar (f k) (f r) < 0) ∧ (stop < r → 0 ≤ s.compar (f stop) (f r)) := by
  induction fuel generalizing i with
  | zero => omega
  | succ fuel ih =>
    rw [scanUp]
    by_cases last : i + 1 = r
    · rw [if_neg (not_not_intro last)]
      exact ⟨i + 1, rfl, by omega, by omega, fun k low high => by omega, fun short => by omega⟩
    · have inside : s.Index (i + 1) := ⟨by omega, by have := inR.2; omega⟩
      rw [if_pos last, holds.compare inside inR, Halt.ok_bind]
      by_cases less : s.compar (f (i + 1)) (f r) < 0
      · rw [if_pos less]
        obtain ⟨stop, run, above, within, passed, found⟩ := ih (i := i + 1) (by omega) (by omega) (by omega)
        refine ⟨stop, run, by omega, within, ?_, found⟩
        intro k low high
        rcases Int.lt_or_le (i + 1) k with later | first
        · exact passed k later high
        · rwa [show k = i + 1 by omega]
      · rw [if_neg less]
        exact ⟨i + 1, rfl, by omega, by omega, fun k low high => by omega, fun _ => by omega⟩

theorem scanDown_ok (fuel : Nat) (holds : s.Holds memory f) (inR : s.Index r) (inL : 0 ≤ l) (before : l < j)
    (within : j ≤ r) (enough : j - l ≤ fuel) :
    ∃ stop, s.scanDown memory l r fuel j = .ok stop ∧ l ≤ stop ∧ stop < j ∧
      (∀ k, stop < k → k < j → s.compar (f r) (f k) < 0) ∧ (l < stop → 0 ≤ s.compar (f r) (f stop)) := by
  induction fuel generalizing j with
  | zero => omega
  | succ fuel ih =>
    have inside : s.Index (j - 1) := ⟨by omega, by have := inR.2; omega⟩
    rw [scanDown, holds.compare inR inside, Halt.ok_bind]
    by_cases more : s.compar (f r) (f (j - 1)) < 0
    · rw [if_pos more]
      by_cases first : j - 1 = l
      · rw [if_pos first]
        exact ⟨j - 1, rfl, by omega, by omega, fun k low high => by omega, fun above => by omega⟩
      · rw [if_neg first]
        obtain ⟨stop, run, low, below, passed, found⟩ := ih (j := j - 1) (by omega) (by omega) (by omega)
        refine ⟨stop, run, low, by omega, ?_, found⟩
        intro k above high
        rcases Int.lt_or_le k (j - 1) with earlier | last
        · exact passed k above earlier
        · rwa [show k = j - 1 by omega]
    · rw [if_neg more]
      exact ⟨j - 1, rfl, by omega, by omega, fun k low high => by omega, fun _ => by omega⟩

end Scans

/-! ## The partition -/

/-- Before a turn: equal to the pivot up to `p`, less up to `i`, greater from `j`, equal from
`q`; the pivot is the last element. -/
structure Parted (s : Sorting) (f : Int → Fin s.size → UInt8) (l r i j p q : Int) : Prop where
  order : l - 1 ≤ p ∧ p ≤ i ∧ i < j ∧ j ≤ q ∧ q ≤ r
  low : ∀ k, l ≤ k → k ≤ p → s.compar (f k) (f r) = 0
  less : ∀ k, p < k → k ≤ i → s.compar (f k) (f r) < 0
  more : ∀ k, j ≤ k → k < q → s.compar (f r) (f k) < 0
  high : ∀ k, q ≤ k → k < r → s.compar (f k) (f r) = 0

/-- When the scans have met at `i`. -/
structure Met (s : Sorting) (f : Int → Fin s.size → UInt8) (l r i p q : Int) : Prop where
  order : l - 1 ≤ p ∧ p < i ∧ i ≤ q ∧ q ≤ r
  low : ∀ k, l ≤ k → k ≤ p → s.compar (f k) (f r) = 0
  less : ∀ k, p < k → k < i → s.compar (f k) (f r) < 0
  more : ∀ k, i ≤ k → k < q → s.compar (f r) (f k) ≤ 0
  high : ∀ k, q ≤ k → k < r → s.compar (f k) (f r) = 0

section Partition
variable {s : Sorting} {memory : List UInt8} {f g : Int → Fin s.size → UInt8} {l r i j p q : Int}

theorem Parted.congr (parted : s.Parted f l r i j p q) (same : ∀ k, k ≤ i ∨ j ≤ k → g k = f k) :
    s.Parted g l r i j p q := by
  have order := parted.order
  have pivot : g r = f r := same r (Or.inr (by omega))
  refine ⟨order, ?_, ?_, ?_, ?_⟩
  · intro k first last
    rw [pivot, same k (Or.inl (by omega))]
    exact parted.low k first last
  · intro k first last
    rw [pivot, same k (Or.inl last)]
    exact parted.less k first last
  · intro k first last
    rw [pivot, same k (Or.inr first)]
    exact parted.more k first last
  · intro k first last
    rw [pivot, same k (Or.inr (by omega))]
    exact parted.high k first last

theorem comp_swap_of_ne {a b k : Int} (notA : k ≠ a) (notB : k ≠ b) : (f ∘ Equiv.swap a b) k = f k := by
  rw [Function.comp_apply, Equiv.swap_apply_of_ne_of_ne notA notB]

theorem comp_swap_left (a b : Int) : (f ∘ Equiv.swap a b) a = f b := by
  rw [Function.comp_apply, Equiv.swap_apply_left]

theorem comp_swap_right (a b : Int) : (f ∘ Equiv.swap a b) b = f a := by
  rw [Function.comp_apply, Equiv.swap_apply_right]

/-- The element that the low scan stopped at joins the lesser or the equal ones. -/
theorem gatherLow_ok (holds : s.Holds memory f) (inL : 0 ≤ l) (inR : s.Index r)
    (parted : s.Parted f l r (i - 1) j p q) (room : i < j) (inner : i < r) (atMost : s.compar (f i) (f r) ≤ 0) :
    ∃ after p' g, s.gatherLow memory r i p = .ok (after, p') ∧ s.Holds after g ∧ Rearranges l (r - 1) f g ∧
      s.Parted g l r i j p' q ∧ ∀ k, i < k → g k = f k := by
  have order := parted.order
  have inside : s.Index i := ⟨by omega, by have := inR.2; omega⟩
  unfold gatherLow
  rw [holds.compare inside inR, Halt.ok_bind]
  by_cases equal : s.compar (f i) (f r) = 0
  · have place : s.Index (p + 1) := ⟨by omega, by have := inR.2; omega⟩
    obtain ⟨after, run, held⟩ := holds.exch place inside
    rw [if_pos equal, run, Halt.ok_bind]
    have above : ∀ k, i < k → (f ∘ Equiv.swap (p + 1) i) k = f k :=
      fun k later => comp_swap_of_ne (by omega) (by omega)
    have pivot := above r inner
    refine ⟨after, p + 1, _, rfl, held, ?_, ?_, above⟩
    · exact rearranges_swap f (by omega) (by omega) (by omega) (by omega)
    · refine ⟨by omega, ?_, ?_, ?_, ?_⟩
      · intro k first last
        rw [pivot]
        by_cases new : k = p + 1
        · rw [new, comp_swap_left]
          exact equal
        · rw [comp_swap_of_ne new (by omega)]
          exact parted.low k first (by omega)
      · intro k first last
        rw [pivot]
        by_cases new : k = i
        · rw [new, comp_swap_right]
          exact parted.less (p + 1) (by omega) (by omega)
        · rw [comp_swap_of_ne (by omega) new]
          exact parted.less k (by omega) (by omega)
      · intro k first last
        rw [pivot, above k (by omega)]
        exact parted.more k first last
      · intro k first last
        rw [pivot, above k (by omega)]
        exact parted.high k first last
  · rw [if_neg equal]
    refine ⟨memory, p, f, rfl, holds, Rearranges.refl l (r - 1) f, ?_, fun _ _ => rfl⟩
    refine ⟨by omega, parted.low, ?_, parted.more, parted.high⟩
    intro k first last
    by_cases new : k = i
    · rw [new]
      omega
    · exact parted.less k first (by omega)

theorem gatherHigh_ok (consistent : s.Consistent) (holds : s.Holds memory f) (inL : 0 ≤ l) (inR : s.Index r)
    (parted : s.Parted f l r i (j + 1) p q) (room : i < j) (atLeast : s.compar (f r) (f j) ≤ 0) :
    ∃ after q' g, s.gatherHigh memory r j q = .ok (after, q') ∧ s.Holds after g ∧ Rearranges l (r - 1) f g ∧
      s.Parted g l r i j p q' := by
  have order := parted.order
  have inside : s.Index j := ⟨by omega, by have := inR.2; omega⟩
  unfold gatherHigh
  rw [holds.compare inR inside, Halt.ok_bind]
  by_cases equal : s.compar (f r) (f j) = 0
  · have place : s.Index (q - 1) := ⟨by omega, by have := inR.2; omega⟩
    obtain ⟨after, run, held⟩ := holds.exch inside place
    rw [if_pos equal, run, Halt.ok_bind]
    have others : ∀ k, k ≠ j → k ≠ q - 1 → (f ∘ Equiv.swap j (q - 1)) k = f k := fun k => comp_swap_of_ne
    have pivot := others r (by omega) (by omega)
    refine ⟨after, q - 1, _, rfl, held, ?_, ?_⟩
    · exact rearranges_swap f (by omega) (by omega) (by omega) (by omega)
    · refine ⟨by omega, ?_, ?_, ?_, ?_⟩
      · intro k first last
        rw [pivot, others k (by omega) (by omega)]
        exact parted.low k first last
      · intro k first last
        rw [pivot, others k (by omega) (by omega)]
        exact parted.less k first last
      · intro k first last
        rw [pivot]
        by_cases new : k = j
        · rw [new, comp_swap_left]
          exact parted.more (q - 1) (by omega) (by omega)
        · rw [others k new (by omega)]
          exact parted.more k (by omega) (by omega)
      · intro k first last
        rw [pivot]
        by_cases new : k = q - 1
        · rw [new, comp_swap_right]
          exact consistent.equal equal
        · rw [others k (by omega) new]
          exact parted.high k (by omega) last
  · rw [if_neg equal]
    refine ⟨memory, q, f, rfl, holds, Rearranges.refl l (r - 1) f, ?_⟩
    refine ⟨by omega, parted.low, parted.less, ?_, parted.high⟩
    intro k first last
    by_cases new : k = j
    · rw [new]
      omega
    · exact parted.more k (by omega) last

/-- Where the scans have met, everything from there to the equal elements is no less than
the pivot. -/
theorem Parted.met (consistent : s.Consistent) (parted : s.Parted f l r i j p q) {up down : Int}
    (above : i < up) (inner : up ≤ r)
    (lesser : ∀ k, i < k → k < up → s.compar (f k) (f r) < 0) (stopUp : up < r → 0 ≤ s.compar (f up) (f r))
    (greater : ∀ k, down < k → k < j → s.compar (f r) (f k) < 0) (crossed : down ≤ up) : s.Met f l r up p q := by
  have order := parted.order
  have within : up ≤ q := by
    by_contra beyond
    have less := lesser q (by omega) (by omega)
    have equal := parted.high q (by omega) (by omega)
    omega
  refine ⟨by omega, parted.low, ?_, ?_, parted.high⟩
  · intro k first last
    by_cases old : k ≤ i
    · exact parted.less k first old
    · exact lesser k (by omega) last
  · intro k first last
    by_cases here : k = up
    · rw [here]
      exact consistent.le_of_not_less (stopUp (by omega))
    · by_cases old : j ≤ k
      · exact Int.le_of_lt (parted.more k old last)
      · exact Int.le_of_lt (greater k (by omega) (by omega))

/-- The scans stop at two elements to exchange. -/
theorem Parted.scanned (parted : s.Parted f l r i j p q) {up down : Int} (above : i < up) (below : down < j)
    (lesser : ∀ k, i < k → k < up → s.compar (f k) (f r) < 0)
    (greater : ∀ k, down < k → k < j → s.compar (f r) (f k) < 0) (apart : up < down) :
    s.Parted f l r (up - 1) (down + 1) p q := by
  have order := parted.order
  refine ⟨by omega, parted.low, ?_, ?_, parted.high⟩
  · intro k first last
    by_cases old : k ≤ i
    · exact parted.less k first old
    · exact lesser k (by omega) (by omega)
  · intro k first last
    by_cases old : j ≤ k
    · exact parted.more k old last
    · exact greater k (by omega) (by omega)

theorem partition_ok (fuel : Nat) (consistent : s.Consistent) (holds : s.Holds memory f)
    (inL : 0 ≤ l) (inR : s.Index r) (parted : s.Parted f l r i j p q) (wide : l < j) (enough : j - i ≤ fuel) :
    ∃ after c g, s.partition l r fuel memory { i, j, p, q } = .ok (after, c) ∧ s.Holds after g ∧
      Rearranges l (r - 1) f g ∧ s.Met g l r c.i c.p c.q := by
  induction fuel generalizing memory f i j p q with
  | zero =>
    have order := parted.order
    omega
  | succ fuel ih =>
    have order := parted.order
    have last := inR.2
    obtain ⟨up, runUp, above, inner, lesser, stopUp⟩ :=
      scanUp_ok (i := i) (s.nmemb + 1) holds inR (by omega) (by omega) (by omega)
    obtain ⟨down, runDown, low, below, greater, stopDown⟩ :=
      scanDown_ok (j := j) (s.nmemb + 1) holds inR inL wide (by omega) (by omega)
    rw [partition, runUp, Halt.ok_bind, runDown, Halt.ok_bind]
    by_cases crossed : down ≤ up
    · rw [if_pos crossed]
      refine ⟨memory, _, f, rfl, holds, Rearranges.refl l (r - 1) f, ?_⟩
      exact parted.met consistent above inner lesser stopUp greater crossed
    · rw [if_neg crossed]
      have inUp : s.Index up := ⟨by omega, by omega⟩
      have inDown : s.Index down := ⟨by omega, by omega⟩
      obtain ⟨first, exchanged, held⟩ := holds.exch inUp inDown
      have outer : ∀ k, k ≤ up - 1 ∨ down + 1 ≤ k → (f ∘ Equiv.swap up down) k = f k :=
        fun k place => comp_swap_of_ne (by omega) (by omega)
      have pivot := outer r (by omega)
      have start := (parted.scanned above below lesser greater (by omega)).congr outer
      have moved : Rearranges l (r - 1) f (f ∘ Equiv.swap up down) :=
        rearranges_swap f (by omega) (by omega) (by omega) (by omega)
      have atMost : s.compar ((f ∘ Equiv.swap up down) up) ((f ∘ Equiv.swap up down) r) ≤ 0 := by
        rw [comp_swap_left, pivot]
        exact consistent.le_of_not_less (stopDown (by omega))
      obtain ⟨second, p', g, gathered, held, movedLow, parted', others⟩ :=
        gatherLow_ok held inL inR start (by omega) (by omega) atMost
      have atLeast : s.compar (g r) (g down) ≤ 0 := by
        rw [others r (by omega), others down (by omega), pivot, comp_swap_right]
        exact consistent.le_of_not_less (stopUp (by omega))
      obtain ⟨third, q', h, gathered', held, movedHigh, parted''⟩ :=
        gatherHigh_ok consistent held inL inR parted' (by omega) atLeast
      obtain ⟨after, c, final, run, held, movedRest, met⟩ := ih held parted'' (by omega) (by omega)
      refine ⟨after, c, final, ?_, held, ((moved.trans movedLow).trans movedHigh).trans movedRest, met⟩
      simp only [exchanged, gathered, gathered', Halt.ok_bind]
      exact run

end Partition

/-! ## The equal elements -/

section Equals
variable {s : Sorting} {memory : List UInt8} {f : Int → Fin s.size → UInt8} {first last p q : Int}

theorem equalsFromLow_ok (n fuel : Nat) (inFirst : 0 ≤ first) (inLast : last < s.nmemb) (room : p ≤ last)
    (holds : s.Holds memory (mirrored first last n f)) (done : n ≤ (p - first).toNat)
    (enough : (p - first).toNat - n < fuel) :
    ∃ after, s.equalsFromLow p fuel memory (first + n) (last - n) = .ok (after, last - (p - first).toNat) ∧
      s.Holds after (mirrored first last (p - first).toNat f) := by
  induction fuel generalizing memory n with
  | zero => omega
  | succ fuel ih =>
    rw [equalsFromLow]
    by_cases more : first + n < p
    · obtain ⟨next, run, held⟩ := holds.exch (a := first + n) (b := last - n)
        ⟨by omega, by omega⟩ ⟨by omega, by omega⟩
      rw [mirrored_succ (by omega)] at held
      obtain ⟨after, rest, final⟩ := ih (n + 1) held (by omega) (by omega)
      refine ⟨after, ?_, final⟩
      rw [if_pos more, run, Halt.ok_bind, ← rest]
      congr 1 <;> omega
    · have same : n = (p - first).toNat := by omega
      rw [if_neg more, ← same]
      exact ⟨memory, rfl, holds⟩

theorem equalsFromHigh_ok (n fuel : Nat) (inFirst : 0 ≤ first) (inLast : last < s.nmemb) (room : first ≤ q + 1)
    (holds : s.Holds memory (mirrored first last n f)) (done : n ≤ (last - q).toNat)
    (enough : (last - q).toNat - n < fuel) :
    ∃ after, s.equalsFromHigh q fuel memory (last - n) (first + n) = .ok (after, first + (last - q).toNat) ∧
      s.Holds after (mirrored first last (last - q).toNat f) := by
  induction fuel generalizing memory n with
  | zero => omega
  | succ fuel ih =>
    rw [equalsFromHigh]
    by_cases more : q < last - n
    · obtain ⟨next, run, held⟩ := holds.exch (a := first + n) (b := last - n)
        ⟨by omega, by omega⟩ ⟨by omega, by omega⟩
      rw [mirrored_succ (by omega)] at held
      obtain ⟨after, rest, final⟩ := ih (n + 1) held (by omega) (by omega)
      refine ⟨after, ?_, final⟩
      rw [if_pos more, run, Halt.ok_bind, ← rest]
      congr 1 <;> omega
    · have same : n = (last - q).toNat := by omega
      rw [if_neg more, ← same]
      exact ⟨memory, rfl, holds⟩

end Equals

/-! ## The recursion -/

/-- The segment before the recursive calls: up to `j` no element is greater than the pivot,
from `i` none is less, and those between are equal to it. -/
structure Arranged (s : Sorting) (f : Int → Fin s.size → UInt8) (v : Fin s.size → UInt8) (l r j i : Int) : Prop where
  order : l - 1 ≤ j ∧ j < i ∧ i ≤ r + 1
  shorter : j < r ∧ l < i
  low : ∀ k, l ≤ k → k ≤ j → s.compar (f k) v ≤ 0
  middle : ∀ k, j < k → k < i → s.compar (f k) v = 0
  high : ∀ k, i ≤ k → k ≤ r → s.compar v (f k) ≤ 0

def SortedFrom (s : Sorting) (f : Int → Fin s.size → UInt8) (l r : Int) : Prop :=
  ∀ x y, l ≤ x → x ≤ y → y ≤ r → s.compar (f x) (f y) ≤ 0

section Recursion
variable {s : Sorting} {memory : List UInt8} {f g h : Int → Fin s.size → UInt8} {v : Fin s.size → UInt8}
  {l r i j p q : Int}

/-- With the pivot put to where the scans have met, elements equal to it are at the low end
up to `p` and from `q` on. -/
structure Centred (s : Sorting) (f : Int → Fin s.size → UInt8) (v : Fin s.size → UInt8) (l r i p q : Int) : Prop where
  order : l - 1 ≤ p ∧ p < i ∧ i ≤ q ∧ q ≤ r
  pivot : s.compar (f i) v = 0
  low : ∀ k, l ≤ k → k ≤ p → s.compar (f k) v = 0
  below : ∀ k, l ≤ k → k ≤ i - 1 → s.compar (f k) v ≤ 0
  above : ∀ k, i + 1 ≤ k → k ≤ r → s.compar v (f k) ≤ 0
  high : ∀ k, i < k → q ≤ k → k < r → s.compar (f k) v = 0

theorem Met.centred (consistent : s.Consistent) (met : s.Met f l r i p q) :
    s.Centred (f ∘ Equiv.swap i r) (f r) l r i p q := by
  have order := met.order
  have others : ∀ k, k ≠ i → k ≠ r → (f ∘ Equiv.swap i r) k = f k := fun k => comp_swap_of_ne
  have notLess : ∀ k, i ≤ k → k ≤ r → s.compar (f r) (f k) ≤ 0 := by
    intro k first last
    by_cases inner : k < q
    · exact met.more k first inner
    · by_cases end_ : k = r
      · rw [end_]
        exact Int.le_of_eq (consistent.refl _)
      · exact Int.le_of_eq (consistent.equal (met.high k (by omega) (by omega)))
  refine ⟨order, ?_, ?_, ?_, ?_, ?_⟩
  · rw [comp_swap_left]
    exact consistent.refl _
  · intro k first last
    rw [others k (by omega) (by omega)]
    exact met.low k first last
  · intro k first last
    rw [others k (by omega) (by omega)]
    by_cases equal : k ≤ p
    · exact Int.le_of_eq (met.low k first equal)
    · exact Int.le_of_lt (met.less k (by omega) (by omega))
  · intro k first last
    by_cases end_ : k = r
    · rw [end_, comp_swap_right]
      exact notLess i (by omega) (by omega)
    · rw [others k (by omega) end_]
      exact notLess k (by omega) last
  · intro k behind first last
    rw [others k (by omega) (by omega)]
    exact met.high k first last

/-- What the swaps of the equal elements from both ends leave. -/
def gathered (l r i p q : Int) (f : Int → Fin s.size → UInt8) : Int → Fin s.size → UInt8 :=
  mirrored (i + 1) (r - 1) (r - 1 - q).toNat (mirrored l (i - 1) (p - l).toNat f)

theorem Centred.gathered (centred : s.Centred f v l r i p q) (inner : l ≤ i) :
    Rearranges l r f (gathered l r i p q f) ∧
      s.Arranged (gathered l r i p q f) v l r (i - 1 - (p - l).toNat) (i + 1 + (r - 1 - q).toNat) := by
  have order := centred.order
  unfold Sorting.gathered
  have lowSide : Rearranges l (i - 1) f (mirrored l (i - 1) (p - l).toNat f) := mirrored_rearranges (by omega)
  have runLow : ∀ k, i - 1 - (p - l).toNat < k → k ≤ i - 1 → s.compar (mirrored l (i - 1) (p - l).toNat f k) v = 0 :=
    fun k => mirrored_high (p := fun x => s.compar x v = 0) fun e first last => centred.low e first (by omega)
  generalize mirrored l (i - 1) (p - l).toNat f = g at lowSide runLow ⊢
  have highSide : Rearranges (i + 1) (r - 1) g (mirrored (i + 1) (r - 1) (r - 1 - q).toNat g) :=
    mirrored_rearranges (by omega)
  have keptHigh : ∀ k, i ≤ k → g k = f k := fun k at_ => lowSide.outside (Or.inr (by omega))
  have runHigh : ∀ k, i + 1 ≤ k → k < i + 1 + (r - 1 - q).toNat →
      s.compar (mirrored (i + 1) (r - 1) (r - 1 - q).toNat g k) v = 0 := by
    refine fun k => mirrored_low (p := fun x => s.compar x v = 0) ?_
    intro e first last
    rw [keptHigh e (by omega)]
    exact centred.high e (by omega) (by omega) (by omega)
  generalize mirrored (i + 1) (r - 1) (r - 1 - q).toNat g = h at highSide runHigh ⊢
  have keptLow : ∀ k, k ≤ i → h k = g k := fun k at_ => highSide.outside (Or.inl (by omega))
  refine ⟨(lowSide.mono (by omega) (by omega)).trans (highSide.mono (by omega) (by omega)), ?_⟩
  refine ⟨by omega, by omega, ?_, ?_, ?_⟩
  · intro k first last
    rw [keptLow k (by omega)]
    exact lowSide.forall (p := fun x => s.compar x v ≤ 0) centred.below first (by omega)
  · intro k first last
    rcases Int.lt_trichotomy k i with before | here | behind
    · rw [keptLow k (by omega)]
      exact runLow k first (by omega)
    · rw [keptLow k (by omega), keptHigh k (by omega), here]
      exact centred.pivot
    · exact runHigh k (by omega) last
  · intro k first last
    by_cases end_ : k = r
    · rw [highSide.outside (Or.inr (by omega)), keptHigh k (by omega)]
      exact centred.above k (by omega) last
    · refine highSide.forall (p := fun x => s.compar v x ≤ 0) ?_ (by omega) (by omega)
      intro e inFirst inLast
      rw [keptHigh e (by omega)]
      exact centred.above e inFirst (by omega)

/-- The pivot and the elements equal to it are put in the middle. -/
theorem arrange_ok (consistent : s.Consistent) (holds : s.Holds memory f) (inL : 0 ≤ l) (inR : s.Index r)
    (wide : l < r) (met : s.Met f l r i p q) :
    ∃ first second third j' i' g, s.exch memory i r = .ok first ∧
      s.equalsFromLow p (s.nmemb + 1) first l (i - 1) = .ok (second, j') ∧
      s.equalsFromHigh q (s.nmemb + 1) second (r - 1) (i + 1) = .ok (third, i') ∧
      s.Holds third g ∧ Rearranges l r f g ∧ s.Arranged g (f r) l r j' i' := by
  have order := met.order
  have last := inR.2
  obtain ⟨first, exchanged, held⟩ := holds.exch (a := i) ⟨by omega, by omega⟩ inR
  have moved : Rearranges l r f (f ∘ Equiv.swap i r) :=
    rearranges_swap f (by omega) (by omega) (by omega) (by omega)
  have centred := met.centred consistent
  generalize f ∘ Equiv.swap i r = g at held moved centred
  obtain ⟨rearranged, arranged⟩ := centred.gathered (by omega)
  obtain ⟨second, swapped, held⟩ := equalsFromLow_ok (p := p) 0 (s.nmemb + 1) inL
    (show i - 1 < s.nmemb by omega) (by omega) (by rwa [mirrored_zero]) (by omega) (by omega)
  obtain ⟨third, swapped', held⟩ := equalsFromHigh_ok (q := q) 0 (s.nmemb + 1)
    (show 0 ≤ i + 1 by omega) (show r - 1 < s.nmemb by omega) (by omega) (by rwa [mirrored_zero])
    (by omega) (by omega)
  refine ⟨first, second, third, _, _, _, exchanged, ?_, ?_, held, moved.trans rearranged, arranged⟩
  · simpa using swapped
  · simpa using swapped'

/-- Sorting both sides sorts the segment. -/
theorem Arranged.sorted (consistent : s.Consistent) (arranged : s.Arranged f v l r j i)
    (left : Rearranges l j f g) (leftSorted : s.SortedFrom g l j) (right : Rearranges i r g h)
    (rightSorted : s.SortedFrom h i r) : s.SortedFrom h l r := by
  have order := arranged.order
  have low : ∀ k, l ≤ k → k ≤ j → s.compar (h k) v ≤ 0 := by
    intro k first last
    rw [right.outside (Or.inl (by omega))]
    exact left.forall (p := fun x => s.compar x v ≤ 0) arranged.low first last
  have middle : ∀ k, j < k → k < i → s.compar (h k) v = 0 := by
    intro k first last
    rw [right.outside (Or.inl last), left.outside (Or.inr first)]
    exact arranged.middle k first last
  have high : ∀ k, i ≤ k → k ≤ r → s.compar v (h k) ≤ 0 := by
    refine fun k => right.forall (p := fun x => s.compar v x ≤ 0) ?_
    intro e first last
    rw [left.outside (Or.inr (by omega))]
    exact arranged.high e first last
  intro x y first ordered last
  by_cases onLeft : y ≤ j
  · rw [right.outside (Or.inl (by omega)), right.outside (Or.inl (by omega))]
    exact leftSorted x y first ordered onLeft
  · by_cases onRight : i ≤ x
    · exact rightSorted x y onRight ordered last
    · have lower : s.compar (h x) v ≤ 0 := by
        by_cases inLow : x ≤ j
        · exact low x first inLow
        · exact Int.le_of_eq (middle x (by omega) (by omega))
      have upper : s.compar v (h y) ≤ 0 := by
        by_cases inHigh : i ≤ y
        · exact high y inHigh last
        · exact Int.le_of_eq (consistent.equal (middle y (by omega) (by omega)))
      exact consistent.trans _ v _ lower upper

theorem quicksort_ok (fuel : Nat) (consistent : s.Consistent) (holds : s.Holds memory f)
    (inL : 0 ≤ l) (inR : r < s.nmemb) (some_ : 0 < fuel) (enough : r - l < fuel) :
    ∃ after g, s.quicksort fuel memory l r = .ok after ∧ s.Holds after g ∧ Rearranges l r f g ∧
      s.SortedFrom g l r := by
  induction fuel generalizing memory f l r with
  | zero => omega
  | succ fuel ih =>
    rw [quicksort]
    by_cases short : r ≤ l
    · rw [if_pos short]
      refine ⟨memory, f, rfl, holds, Rearranges.refl l r f, ?_⟩
      intro x y first ordered last
      rw [show x = y by omega]
      exact Int.le_of_eq (consistent.refl _)
    · have pivot : s.Index r := ⟨by omega, inR⟩
      have start : s.Parted f l r (l - 1) r (l - 1) r :=
        ⟨by omega, fun k first last => by omega, fun k first last => by omega, fun k first last => by omega,
          fun k first last => by omega⟩
      obtain ⟨parted, c, part, partRun, partHolds, partMoved, met⟩ :=
        partition_ok (s.nmemb + 1) consistent holds inL pivot start (by omega) (by omega)
      obtain ⟨first, second, third, j, i, mid, exchanged, lowRun, highRun, midHolds, midMoved, arranged⟩ :=
        arrange_ok consistent partHolds inL pivot (by omega) met
      have order := arranged.order
      have shorter := arranged.shorter
      obtain ⟨left, leftEntries, leftRun, leftHolds, leftMoved, leftSorted⟩ :=
        ih (l := l) (r := j) midHolds inL (by omega) (by omega) (by omega)
      obtain ⟨right, rightEntries, rightRun, rightHolds, rightMoved, rightSorted⟩ :=
        ih (l := i) (r := r) leftHolds (by omega) inR (by omega) (by omega)
      refine ⟨right, rightEntries, ?_, rightHolds, ?_, ?_⟩
      · rw [if_neg short]
        simp only [partRun, exchanged, lowRun, highRun, leftRun, Halt.ok_bind]
        exact rightRun
      · have toLeft := ((partMoved.mono (by omega) (by omega)).trans midMoved).trans
          (leftMoved.mono (by omega) (by omega))
        exact toLeft.trans (rightMoved.mono (by omega) (by omega))
      · exact arranged.sorted consistent leftMoved leftSorted rightMoved rightSorted

end Recursion

/-! ## The array -/

/-- What an array can hold.  Addresses have 48 significant bits, so no array has as many
bytes as half of the numbers of 64 bits. -/
structure Contents (s : Sorting) where
  bytes : List UInt8
  whole : bytes.length = s.nmemb * s.size
  fits : bytes.length < 2 ^ 63 - 1

/-- The elements in order. -/
def elements (s : Sorting) (memory : List UInt8) : List (Fin s.size → UInt8) :=
  (List.range s.nmemb).map fun k : Nat => s.element memory k

section Elements
variable {s : Sorting} {memory : List UInt8} {f : Int → Fin s.size → UInt8}

theorem Holds.elements_eq (holds : s.Holds memory f) :
    s.elements memory = (List.range s.nmemb).map fun k : Nat => f k := by
  refine List.map_congr_left fun k member => ?_
  exact holds.elements k (by omega) (by simpa using member)

theorem Contents.holds (array : s.Contents) : s.Holds array.bytes (s.element array.bytes) :=
  ⟨array.whole, fun _ _ _ => rfl⟩

theorem SortedFrom.pairwise (sorted : s.SortedFrom f 0 ((s.nmemb : Int) - 1)) :
    ((List.range s.nmemb).map fun k : Nat => f k).Pairwise fun x y => s.compar x y ≤ 0 := by
  rw [List.pairwise_map]
  refine List.Pairwise.imp_of_mem ?_ List.pairwise_lt_range
  intro x y _ inY ordered
  have below := List.mem_range.mp inY
  exact sorted x y (by omega) (by omega) (by omega)

/-- Arrays that the code does not touch: too short, or all elements are empty. -/
theorem pairwise_of_trivial (consistent : s.Consistent) (memory : List UInt8) (trivial_ : s.nmemb ≤ 1 ∨ s.size = 0) :
    (s.elements memory).Pairwise fun x y => s.compar x y ≤ 0 := by
  unfold elements
  rw [List.pairwise_map]
  refine List.Pairwise.imp_of_mem ?_ List.pairwise_lt_range
  intro x y _ inY ordered
  rcases trivial_ with short | empty
  · have below := List.mem_range.mp inY
    omega
  · have same : s.element memory x = s.element memory y := by
      funext offset
      exact absurd offset.isLt (by omega)
    rw [same]
    exact Int.le_of_eq (consistent.refl _)

/-- An array that is refused has no bytes. -/
theorem Contents.refused (array : s.Contents) (huge : 2 ^ 63 - 1 ≤ s.nmemb ∨ 2 ^ 63 - 1 ≤ s.size) :
    s.nmemb ≤ 1 ∨ s.size = 0 := by
  have fits := array.fits
  rw [array.whole] at fits
  rcases huge with many | large
  · right
    by_contra some_
    have atLeast := Nat.mul_le_mul many (Nat.pos_of_ne_zero some_)
    omega
  · left
    by_contra some_
    have atLeast := Nat.mul_le_mul (show 1 ≤ s.nmemb by omega) large
    omega

end Elements

/-- The call returns, no access is outside the array, and the elements are in order. -/
theorem qsort_sorts (s : Sorting) (consistent : s.Consistent) (array : s.Contents) :
    ∃ after, s.qsort array.bytes = .ok after ∧ after.length = array.bytes.length ∧
      (s.elements after).Perm (s.elements array.bytes) ∧
      (s.elements after).Pairwise fun x y => s.compar x y ≤ 0 := by
  unfold qsort
  by_cases huge : 2 ^ 63 - 1 ≤ s.nmemb ∨ 2 ^ 63 - 1 ≤ s.size
  · rw [if_pos huge]
    exact ⟨array.bytes, rfl, rfl, List.Perm.refl _, pairwise_of_trivial consistent _ (array.refused huge)⟩
  · rw [if_neg huge]
    by_cases some_ : 1 < s.nmemb
    · rw [if_pos some_]
      obtain ⟨after, g, run, held, moved, sorted⟩ := quicksort_ok (l := 0) (r := (s.nmemb : Int) - 1)
        (s.nmemb + 1) consistent array.holds (by omega) (by omega) (by omega) (by omega)
      refine ⟨after, run, held.length.trans array.whole.symm, ?_, ?_⟩
      · rw [held.elements_eq]
        exact moved.perm
      · rw [held.elements_eq]
        exact sorted.pairwise
    · rw [if_neg some_]
      exact ⟨array.bytes, rfl, rfl, List.Perm.refl _, pairwise_of_trivial consistent _ (Or.inl (by omega))⟩

/-- Seven pairs ordered by their first byte only. -/
def byFirst : Sorting := { nmemb := 7, size := 2, compar := fun x y => (x 0).toNat - (y 0).toNat }

theorem byFirst_consistent : byFirst.Consistent :=
  ⟨fun a b => by simp only [byFirst]; omega, fun a b c => by simp only [byFirst]; omega⟩

def somePairs : byFirst.Contents :=
  { bytes := [3, 0, 1, 1, 3, 2, 2, 3, 3, 4, 0, 5, 3, 6], whole := by decide, fits := by decide }

theorem qsort_sorts_pairs : ∃ after, byFirst.qsort somePairs.bytes = .ok after ∧ after.length = 14 ∧
    (byFirst.elements after).Perm (byFirst.elements somePairs.bytes) ∧
    (byFirst.elements after).Pairwise fun x y => byFirst.compar x y ≤ 0 :=
  qsort_sorts byFirst byFirst_consistent somePairs

end Stardust.Libc.Sorting
