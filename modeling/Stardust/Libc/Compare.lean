import Mathlib.Data.List.Basic
import Mathlib.Order.Defs.LinearOrder
import Stardust.Libc.Strings

/-! # Comparing memory and strings

`memcmp`, `strcmp` and `strncmp` of `lib.c` put the difference of two bytes in a
`signed char`.  It stays 0 only for equal bytes, and keeps its sign as long as the
bytes are less than 128 apart. -/
set_option autoImplicit false
namespace Stardust.Libc

/-- `memcmp`, with what the two pointers point to. -/
def memcmp (su1 su2 : Nat → UInt8) : Nat → Int
  | 0 => 0
  | count + 1 =>
    let res := signedChar ((su1 0).toNat - (su2 0).toNat)
    if res ≠ 0 then res else memcmp (fun i => su1 (i + 1)) (fun i => su2 (i + 1)) count

def strcmp : List UInt8 → List UInt8 → Int
  | [], ct => signedChar (charValue 0 - charValue (deref ct))
  | c :: cs, ct =>
    let res := signedChar (charValue c - charValue (deref ct))
    if res ≠ 0 ∨ c = 0 then res else strcmp cs ct.tail

def strncmp : List UInt8 → List UInt8 → Nat → Int
  | _, _, 0 => 0
  | cs, ct, count + 1 =>
    let res := signedChar (charValue (deref cs) - charValue (deref ct))
    if res ≠ 0 ∨ deref cs = 0 then res else strncmp cs.tail ct.tail count

/-! ## Memory -/

/-- The first `n` bytes. -/
def firstBytes (s : Nat → UInt8) (n : Nat) : List UInt8 := (List.range n).map s

/-- The sign is that of the lexicographic comparison of unsigned bytes. -/
structure Lexicographic (res : Int) (first second : List UInt8) : Prop where
  less : res < 0 ↔ first < second
  equal : res = 0 ↔ first = second
  greater : 0 < res ↔ second < first

/-- Where the bytes differ first, their difference fits in a `signed char`. -/
def FirstGapFits (su1 su2 : Nat → UInt8) (count : Nat) : Prop :=
  ∀ i < count, (∀ j < i, su1 j = su2 j) →
    -2 ^ 7 ≤ ((su1 i).toNat : Int) - (su2 i).toNat ∧ ((su1 i).toNat : Int) - (su2 i).toNat < 2 ^ 7

theorem firstBytes_succ (s : Nat → UInt8) (n : Nat) :
    firstBytes s (n + 1) = s 0 :: firstBytes (fun i => s (i + 1)) n := by
  unfold firstBytes
  rw [List.range_succ_eq_map, List.map_cons, List.map_map]
  rfl

theorem FirstGapFits.of_equal {su1 su2 : Nat → UInt8} {count : Nat} (equal : su1 0 = su2 0) :
    FirstGapFits su1 su2 (count + 1) ↔
      FirstGapFits (fun i => su1 (i + 1)) (fun i => su2 (i + 1)) count := by
  constructor
  · intro fits i inside before
    refine fits (i + 1) (by omega) ?_
    intro j below
    cases j with
    | zero => exact equal
    | succ j => exact before j (by omega)
  · intro fits i inside before
    cases i with
    | zero =>
      rw [equal]
      omega
    | succ i => exact fits i (by omega) fun j below => before (j + 1) (by omega)

theorem FirstGapFits.of_differ {su1 su2 : Nat → UInt8} {count : Nat} (differ : su1 0 ≠ su2 0) :
    FirstGapFits su1 su2 (count + 1) ↔
      -2 ^ 7 ≤ ((su1 0).toNat : Int) - (su2 0).toNat ∧ ((su1 0).toNat : Int) - (su2 0).toNat < 2 ^ 7 := by
  constructor
  · intro fits
    exact fits 0 (by omega) fun j below => absurd below (by omega)
  · intro fits i inside before
    cases i with
    | zero => exact fits
    | succ i => exact absurd (before 0 (by omega)) differ

theorem firstBytes_lt_iff {c d : UInt8} {cs ct : List UInt8} (differ : c ≠ d) :
    c :: cs < d :: ct ↔ c.toNat < d.toNat := by
  rw [List.cons_lt_cons_iff, UInt8.lt_iff_toNat_lt]
  exact or_iff_left fun same => differ same.1

/-- Two lists that differ in the first byte are compared by it. -/
theorem Lexicographic.of_differ {res : Int} {c d : UInt8} {cs ct : List UInt8} (differ : c ≠ d) :
    Lexicographic res (c :: cs) (d :: ct) ↔ (res < 0 ↔ c.toNat < d.toNat) ∧ res ≠ 0 := by
  have apart : c.toNat ≠ d.toNat := fun same => differ (UInt8.toNat_inj.mp same)
  have unequal : c :: cs ≠ d :: ct := fun same => differ (List.cons.inj same).1
  constructor
  · intro lexicographic
    refine ⟨lexicographic.less.trans (firstBytes_lt_iff differ), ?_⟩
    exact fun zero => unequal (lexicographic.equal.mp zero)
  · rintro ⟨less, nonzero⟩
    refine ⟨less.trans (firstBytes_lt_iff differ).symm, ?_, ?_⟩
    · exact ⟨fun zero => absurd zero nonzero, fun same => absurd same unequal⟩
    · rw [firstBytes_lt_iff (Ne.symm differ)]
      omega

theorem Lexicographic.of_equal {res : Int} {c : UInt8} {cs ct : List UInt8} :
    Lexicographic res (c :: cs) (c :: ct) ↔ Lexicographic res cs ct := by
  have less : ∀ first second : List UInt8, c :: first < c :: second ↔ first < second := by
    intro first second
    rw [List.cons_lt_cons_iff]
    simp
  constructor
  · intro lexicographic
    exact ⟨lexicographic.less.trans (less cs ct),
      lexicographic.equal.trans (by simp), lexicographic.greater.trans (less ct cs)⟩
  · intro lexicographic
    exact ⟨lexicographic.less.trans (less cs ct).symm,
      lexicographic.equal.trans (by simp), lexicographic.greater.trans (less ct cs).symm⟩

/-- Of two different bytes the sign is right when the difference fits, and only then. -/
theorem signedChar_sub_sign {c d : UInt8} (differ : c ≠ d) :
    ((signedChar (c.toNat - d.toNat) < 0 ↔ c.toNat < d.toNat) ↔
      -2 ^ 7 ≤ (c.toNat : Int) - d.toNat ∧ (c.toNat : Int) - d.toNat < 2 ^ 7) ∧
      signedChar (c.toNat - d.toNat) ≠ 0 := by
  have apart : c.toNat ≠ d.toNat := fun same => differ (UInt8.toNat_inj.mp same)
  have byte := c.toNat_lt
  have other := d.toNat_lt
  unfold signedChar
  rw [Int.bmod_def]
  omega

theorem memcmp_iff (su1 su2 : Nat → UInt8) (count : Nat) :
    Lexicographic (memcmp su1 su2 count) (firstBytes su1 count) (firstBytes su2 count) ↔
      FirstGapFits su1 su2 count := by
  induction count generalizing su1 su2 with
  | zero =>
    constructor
    · intro _ i inside
      omega
    · intro _
      exact ⟨by simp [memcmp, firstBytes], by simp [memcmp, firstBytes], by simp [memcmp, firstBytes]⟩
  | succ count ih =>
    rw [firstBytes_succ, firstBytes_succ, memcmp]
    by_cases equal : su1 0 = su2 0
    · have zero : signedChar ((su1 0).toNat - (su2 0).toNat) = 0 := by
        rw [equal, Int.sub_self]
        rfl
      rw [FirstGapFits.of_equal equal, equal] at *
      rw [zero, if_neg (by simp), Lexicographic.of_equal]
      exact ih _ _
    · obtain ⟨sign, nonzero⟩ := signedChar_sub_sign equal
      rw [FirstGapFits.of_differ equal, if_pos nonzero, Lexicographic.of_differ equal, and_iff_left nonzero]
      exact sign

/-! ## Strings -/

/-- An order by the sign of a comparison, in which `same` elements are equal. -/
structure SignOrder {α : Type} (compare : α → α → Int) (same : α → α → Prop) (inside : α → Prop) : Prop where
  zero : ∀ a b, inside a → inside b → (compare a b = 0 ↔ same a b)
  antisymm : ∀ a b, inside a → inside b → (compare a b).sign = -(compare b a).sign
  trans : ∀ a b c, inside a → inside b → inside c → compare a b ≤ 0 → compare b c ≤ 0 → compare a c ≤ 0

/-- The string has only characters of an alphabet. -/
def Over (alphabet : UInt8 → Prop) (s : CString) : Prop := ∀ c ∈ s.bytes, alphabet c

/-- The characters of the alphabet, and NUL, are less than 128 apart. -/
def Close (alphabet : UInt8 → Prop) : Prop :=
  ∀ c d, (alphabet c ∨ c = 0) → (alphabet d ∨ d = 0) → charValue c - charValue d < 2 ^ 7

def StrcmpOrders (alphabet : UInt8 → Prop) : Prop :=
  SignOrder (fun a b : CString => strcmp a.bytes b.bytes) (· = ·) (Over alphabet)

/-- `strncmp`, where strings with the same first `count` characters are equal. -/
def StrncmpOrders (alphabet : UInt8 → Prop) (count : Nat) : Prop :=
  SignOrder (fun a b : CString => strncmp a.bytes b.bytes count)
    (fun a b => a.bytes.take count = b.bytes.take count) (Over alphabet)

/-- The difference of the first characters that differ. -/
def gap : List UInt8 → List UInt8 → Int
  | [], ct => -charValue (deref ct)
  | c :: cs, ct => if c = deref ct then gap cs ct.tail else charValue c - charValue (deref ct)

section Strings
variable {alphabet : UInt8 → Prop} {cs ct cu : List UInt8}

theorem deref_eq_zero (string : 0 ∉ cs) : deref cs = 0 ↔ cs = [] := by
  cases cs with
  | nil => simp
  | cons c cs =>
    simp only [deref_cons, List.cons_ne_nil, iff_false]
    rintro rfl
    exact string List.mem_cons_self

theorem tail_string (string : 0 ∉ cs) : 0 ∉ cs.tail :=
  fun member => string (List.mem_of_mem_tail member)

theorem strcmp_eq_gap (string : 0 ∉ cs) : strcmp cs ct = signedChar (gap cs ct) := by
  induction cs generalizing ct with
  | nil => rw [strcmp, gap, charValue_zero, Int.zero_sub]
  | cons c cs ih =>
    have nonzero : c ≠ 0 := fun zero => string (zero ▸ List.mem_cons_self)
    rw [strcmp, gap]
    by_cases same : c = deref ct
    · have zero : signedChar (charValue c - charValue (deref ct)) = 0 := signedChar_sub_eq_zero.mpr same
      rw [if_pos same, zero, if_neg (by simp [nonzero])]
      exact ih (tail_string string)
    · have apart : signedChar (charValue c - charValue (deref ct)) ≠ 0 := mt signedChar_sub_eq_zero.mp same
      rw [if_neg same, if_pos (Or.inl apart)]

theorem strcmp_nil : strcmp [] [] = 0 := by decide

/-- `strncmp` compares the first characters of its strings. -/
theorem strncmp_eq_strcmp (cs ct : List UInt8) (count : Nat) :
    strncmp cs ct count = strcmp (cs.take count) (ct.take count) := by
  induction count generalizing cs ct with
  | zero => exact strcmp_nil.symm
  | succ count ih =>
    have first : deref (ct.take (count + 1)) = deref ct := by cases ct <;> rfl
    have rest : (ct.take (count + 1)).tail = ct.tail.take count := by cases ct <;> simp
    rw [strncmp]
    cases cs with
    | nil =>
      rw [List.take_nil, strcmp, deref_nil, first]
      exact if_pos (Or.inr rfl)
    | cons c cs =>
      rw [List.take_succ_cons, strcmp, first, rest, deref_cons, List.tail_cons, ih]

/-! ## The order of the gaps -/

theorem gap_of_differ (differ : deref cs ≠ deref ct) : gap cs ct = charValue (deref cs) - charValue (deref ct) := by
  cases cs with
  | nil => rw [gap, deref_nil, charValue_zero, Int.zero_sub]
  | cons c cs =>
    rw [gap]
    exact if_neg differ

theorem gap_of_equal (inner : deref cs ≠ 0) (equal : deref cs = deref ct) : gap cs ct = gap cs.tail ct.tail := by
  cases cs with
  | nil => exact absurd rfl inner
  | cons c cs =>
    rw [gap]
    exact if_pos equal

theorem gap_nil : gap [] [] = 0 := by decide

/-- By the first characters: they end both strings, they are equal, or they differ. -/
theorem first_cases (first : 0 ∉ cs) (second : 0 ∉ ct) : (cs = [] ∧ ct = []) ∨
    (deref cs ≠ 0 ∧ deref cs = deref ct) ∨ deref cs ≠ deref ct := by
  by_cases equal : deref cs = deref ct
  · by_cases ends : deref cs = 0
    · exact Or.inl ⟨(deref_eq_zero first).mp ends, (deref_eq_zero second).mp (equal ▸ ends)⟩
    · exact Or.inr (Or.inl ⟨ends, equal⟩)
  · exact Or.inr (Or.inr equal)

theorem tail_length_lt (inner : deref cs ≠ 0) : cs.tail.length < cs.length := by
  cases cs with
  | nil => exact absurd rfl inner
  | cons c cs => simp

theorem gap_neg {cs ct : List UInt8} (first : 0 ∉ cs) (second : 0 ∉ ct) : gap ct cs = -gap cs ct := by
  rcases first_cases first second with ⟨rfl, rfl⟩ | ⟨inner, equal⟩ | differ
  · rw [gap_nil, Int.neg_zero]
  · have shorter := tail_length_lt inner
    rw [gap_of_equal inner equal, gap_of_equal (equal ▸ inner) equal.symm]
    exact gap_neg (tail_string first) (tail_string second)
  · rw [gap_of_differ differ, gap_of_differ differ.symm, Int.neg_sub]
termination_by cs.length

theorem gap_eq_zero {cs ct : List UInt8} (first : 0 ∉ cs) (second : 0 ∉ ct) : gap cs ct = 0 ↔ cs = ct := by
  rcases first_cases first second with ⟨rfl, rfl⟩ | ⟨inner, equal⟩ | differ
  · simp [gap_nil]
  · have shorter := tail_length_lt inner
    rw [gap_of_equal inner equal, gap_eq_zero (tail_string first) (tail_string second)]
    cases cs with
    | nil => exact absurd rfl inner
    | cons c cs =>
      cases ct with
      | nil => exact absurd equal inner
      | cons d ct =>
        cases equal
        simp
  · rw [gap_of_differ differ, Int.sub_eq_zero, charValue_inj]
    exact ⟨fun same => absurd same differ, fun same => same ▸ rfl⟩
termination_by cs.length

theorem gap_trans {cs ct cu : List UInt8} (first : 0 ∉ cs) (second : 0 ∉ ct) (third : 0 ∉ cu) (below : gap cs ct ≤ 0)
    (above : gap ct cu ≤ 0) : gap cs cu ≤ 0 := by
  rcases first_cases first second with ⟨rfl, rfl⟩ | ⟨inner, equal⟩ | differ
  · exact above
  · rcases first_cases second third with ⟨rfl, rfl⟩ | ⟨_, equal'⟩ | differ'
    · exact absurd equal inner
    · have shorter := tail_length_lt inner
      rw [gap_of_equal inner equal] at below
      rw [gap_of_equal (equal ▸ inner) equal'] at above
      rw [gap_of_equal inner (equal.trans equal')]
      exact gap_trans (tail_string first) (tail_string second) (tail_string third) below above
    · rw [gap_of_differ differ'] at above
      rw [gap_of_differ (equal ▸ differ'), equal]
      exact above
  · rw [gap_of_differ differ] at below
    have apart : charValue (deref cs) ≠ charValue (deref ct) := fun same => differ (charValue_inj.mp same)
    have order : charValue (deref ct) ≤ charValue (deref cu) := by
      by_cases equal' : deref ct = deref cu
      · rw [equal']
      · rw [gap_of_differ equal'] at above
        omega
    have differ' : deref cs ≠ deref cu := by
      intro same
      rw [same] at apart below
      omega
    rw [gap_of_differ differ']
    omega
termination_by cs.length

/-- The gap is a difference of two characters of the strings, or of one and NUL. -/
theorem gap_lt (close : Close alphabet) (first : ∀ c ∈ cs, alphabet c) (second : ∀ c ∈ ct, alphabet c) :
    gap cs ct < 2 ^ 7 := by
  have deref_mem : ∀ {s : List UInt8}, (∀ c ∈ s, alphabet c) → alphabet (deref s) ∨ deref s = 0 := by
    intro s chars
    cases s with
    | nil => exact Or.inr rfl
    | cons c s => exact Or.inl (chars c List.mem_cons_self)
  induction cs generalizing ct with
  | nil =>
    have bound := close 0 (deref ct) (Or.inr rfl) (deref_mem second)
    rw [charValue_zero, Int.zero_sub] at bound
    exact bound
  | cons c cs ih =>
    rw [gap]
    split
    · exact ih (fun d member => first d (List.mem_cons_of_mem _ member))
        (fun d member => second d (List.mem_of_mem_tail member))
    · exact close c (deref ct) (Or.inl (first c List.mem_cons_self)) (deref_mem second)

/-! ## Comparisons by the gap of parts of the strings -/

/-- A comparison of a part of each string, which is all of a string of one character. -/
structure ByGap (compare : CString → CString → Int) (part : CString → List UInt8) : Prop where
  eq : ∀ a b, compare a b = signedChar (gap (part a) (part b))
  subset : ∀ s, ∀ c ∈ part s, c ∈ s.bytes

variable {compare : CString → CString → Int} {part : CString → List UInt8}

theorem ByGap.string (byGap : ByGap compare part) (s : CString) : 0 ∉ part s :=
  fun member => s.noNul (byGap.subset s 0 member)

theorem ByGap.orders (byGap : ByGap compare part) (close : Close alphabet) :
    SignOrder compare (fun a b => part a = part b) (Over alphabet) := by
  have exact_gap : ∀ a b, Over alphabet a → Over alphabet b → compare a b = gap (part a) (part b) := by
    intro a b first second
    have chars := fun c member => first c (byGap.subset a c member)
    have others := fun c member => second c (byGap.subset b c member)
    have upper := gap_lt close chars others
    have lower := gap_lt close others chars
    rw [gap_neg (byGap.string a) (byGap.string b)] at lower
    rw [byGap.eq, signedChar_eq (by omega) upper]
  refine ⟨?_, ?_, ?_⟩
  · intro a b first second
    rw [exact_gap a b first second]
    exact gap_eq_zero (byGap.string a) (byGap.string b)
  · intro a b first second
    rw [exact_gap a b first second, exact_gap b a second first, gap_neg (byGap.string a) (byGap.string b),
      Int.sign_neg, Int.neg_neg]
  · intro a b c first second third
    rw [exact_gap a b first second, exact_gap b c second third, exact_gap a c first third]
    exact gap_trans (byGap.string a) (byGap.string b) (byGap.string c)

/-- The string of one character; of none for NUL. -/
def single (c : UInt8) : CString where
  bytes := if c = 0 then [] else [c]
  noNul := by
    split
    · exact List.not_mem_nil
    · rename_i nonzero
      simpa using Ne.symm nonzero

theorem single_over {c : UInt8} (inside : alphabet c ∨ c = 0) : Over alphabet (single c) := by
  intro d member
  unfold single at member
  split at member
  · nomatch member
  · rename_i nonzero
    cases List.mem_singleton.mp member
    exact inside.resolve_right nonzero

theorem gap_single (c d : UInt8) : gap (single c).bytes (single d).bytes = charValue c - charValue d := by
  have first : ∀ e, deref (single e).bytes = e := by
    intro e
    unfold single
    split
    · rename_i zero
      exact zero.symm
    · rfl
  by_cases same : c = d
  · rw [same, Int.sub_self]
    exact (gap_eq_zero (single d).noNul (single d).noNul).mpr rfl
  · rw [gap_of_differ (by rwa [first, first]), first, first]

/-- Two characters 128 apart are below each other; of two further apart the greater one is
below the lesser one, with the empty string between them. -/
theorem ByGap.close (byGap : ByGap compare part) (whole : ∀ c, part (single c) = (single c).bytes)
    {same : CString → CString → Prop} (orders : SignOrder compare same (Over alphabet)) : Close alphabet := by
  have compare_single : ∀ c d, compare (single c) (single d) = signedChar (charValue c - charValue d) := by
    intro c d
    rw [byGap.eq, whole, whole, gap_single]
  intro c d inC inD
  by_contra apart
  have lowC := charValue_bounds c
  have lowD := charValue_bounds d
  have antisymm := orders.antisymm (single c) (single d) (single_over inC) (single_over inD)
  have trans := orders.trans (single d) (single 0) (single c) (single_over inD) (single_over (Or.inr rfl))
    (single_over inC)
  rw [compare_single, compare_single] at antisymm
  rw [compare_single, compare_single, compare_single, charValue_zero] at trans
  by_cases edge : charValue c - charValue d = 2 ^ 7
  · rw [edge, show charValue d - charValue c = -2 ^ 7 by omega] at antisymm
    exact absurd antisymm (by decide)
  · have wrapped : signedChar (charValue d - charValue c) = charValue d - charValue c + 2 ^ 8 := by
      unfold signedChar
      rw [Int.bmod_def]
      omega
    rw [wrapped, signedChar_eq (by omega) (by omega), signedChar_eq (by omega) (by omega)] at trans
    have above := trans (by omega) (by omega)
    omega

theorem strcmp_byGap : ByGap (fun a b => strcmp a.bytes b.bytes) CString.bytes :=
  ⟨fun a _ => strcmp_eq_gap a.noNul, fun _ _ member => member⟩

theorem strncmp_byGap (count : Nat) :
    ByGap (fun a b => strncmp a.bytes b.bytes count) (fun s => s.bytes.take count) := by
  constructor
  · intro a b
    rw [strncmp_eq_strcmp]
    exact strcmp_eq_gap fun member => a.noNul (List.mem_of_mem_take member)
  · intro s c member
    exact List.mem_of_mem_take member

theorem strcmpOrders_iff : StrcmpOrders alphabet ↔ Close alphabet := by
  constructor
  · exact strcmp_byGap.close fun _ => rfl
  · intro close
    have orders := strcmp_byGap.orders close
    refine ⟨?_, orders.antisymm, orders.trans⟩
    intro a b first second
    rw [orders.zero a b first second]
    exact CString.ext_iff.symm

theorem strncmpOrders_iff {count : Nat} : StrncmpOrders alphabet count ↔ count = 0 ∨ Close alphabet := by
  cases count with
  | zero =>
    refine ⟨fun _ => Or.inl rfl, fun _ => ⟨?_, ?_, ?_⟩⟩
    · intro a b _ _
      simp [strncmp]
    · intro a b _ _
      simp [strncmp]
    · intro a b c _ _ _ _ _
      simp [strncmp]
  | succ count =>
    have whole : ∀ c, (single c).bytes.take (count + 1) = (single c).bytes := by
      intro c
      unfold single
      split
      · rfl
      · simp
    rw [or_iff_right (by omega)]
    exact ⟨(strncmp_byGap (count + 1)).close whole, (strncmp_byGap (count + 1)).orders⟩

end Strings

/-- When the three comparisons are orders: of memory where the first bytes that differ are
near enough, of strings over an alphabet whose characters all are. -/
theorem comparisons_order_iff (su1 su2 : Nat → UInt8) (n : Nat) (alphabet : UInt8 → Prop) (count : Nat) :
    (Lexicographic (memcmp su1 su2 n) (firstBytes su1 n) (firstBytes su2 n) ↔ FirstGapFits su1 su2 n) ∧
    (StrcmpOrders alphabet ↔ Close alphabet) ∧
    (StrncmpOrders alphabet count ↔ count = 0 ∨ Close alphabet) :=
  ⟨memcmp_iff su1 su2 n, strcmpOrders_iff, strncmpOrders_iff⟩

/-- The byte 200 before the byte 10; `"\x80"` and `""` before each other; `"\x9c"` before
`""` before `"d"` before `"\x9c"`. -/
theorem comparisons_lose_sign :
    (memcmp (fun _ => 200) (fun _ => 10) 1 < 0 ∧ firstBytes (fun _ => 10) 1 < firstBytes (fun _ => 200) 1) ∧
    (strcmp [0x80] [] < 0 ∧ strcmp [] [0x80] < 0 ∧ strncmp [0x80] [] 1 < 0 ∧ strncmp [] [0x80] 1 < 0) ∧
    strcmp [0x9c] [] < 0 ∧ strcmp [] [0x64] < 0 ∧ strcmp [0x64] [0x9c] < 0 := by
  decide

end Stardust.Libc
