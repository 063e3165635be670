import Stardust.Xmalloc.Bytes
import Stardust.Xmalloc.HeapRuns

/-! # What a request gets

`Allocated` says all that `xmalloc_align` can do when it returns, on any heap.  From it
follow where the block lies, which of its alignments are a matter of luck, and when it
is as large as the caller asked for. -/
set_option autoImplicit false
namespace Stardust.Xmalloc

open Stardust.Lib
open Stardust.Mm (pageSize isBulk)

/-- From the node `pos` on, `i` is the first entry of the list that is large enough. -/
inductive FirstFit (mem : Mem) (freelist size : Nat) : Nat → Nat → Prop
  | here {pos : Nat} (entry : pos ≠ freelist) (fits : size ≤ mem (listEntry pos)) :
      FirstFit mem freelist size pos (listEntry pos)
  | later {pos i : Nat} (entry : pos ≠ freelist) (short : mem (listEntry pos) < size)
      (rest : FirstFit mem freelist size (mem pos) i) : FirstFit mem freelist size pos i

/-- `i` is the first entry of `freelist` that a request for `asize` bytes fits in. -/
def Fits (heap : Heap) (asize i : Nat) : Prop :=
  requestSize asize < pageSize ∧
    FirstFit heap.mem heap.freelist (requestSize asize) (heap.mem heap.freelist) i

/-- What `xmalloc_align(asize)` returns, and the heap it leaves. -/
inductive Allocated (heap : Heap) (asize page : Nat) : Heap → Nat → Prop
  | null (full : ∀ i, ¬Fits heap asize i) (none : page = 0) : Allocated heap asize page heap 0
  | entry {i : Nat} {after : Heap} (fits : Fits heap asize i)
      (split : maybeSplit { heap with mem := heap.mem.listDel (node i) } i (requestSize asize)
        (heap.mem.listDel (node i) i) = .ok after) :
      Allocated heap asize page after (i + headerSize)
  | newPage {after : Heap} (full : ∀ i, ¬Fits heap asize i) (some : page ≠ 0)
      (small : requestSize asize < pageSize)
      (split : maybeSplit (heap.take ⟨page, 1⟩) page (requestSize asize) pageSize = .ok after) :
      Allocated heap asize page after (page + headerSize)
  | wholePages (full : ∀ i, ¬Fits heap asize i) (some : page ≠ 0)
      (large : pageSize ≤ requestSize asize) (positive : 0 < intOfUlong (wholePages asize)) :
      Allocated heap asize page
        { heap.take ⟨page, requestPages asize⟩ with
          mem := heap.mem.publish page (wholePages asize * pageSize) } (page + headerSize)

section Search
variable {mem : Mem} {freelist size pos i : Nat}

theorem findEntry_spec {fuel : Nat} {found : Option Nat}
    (run : findEntry mem freelist size fuel pos = .ok found) :
    found = some i ↔ FirstFit mem freelist size pos i := by
  induction fuel generalizing pos with
  | zero => contradiction
  | succ fuel ih =>
    rw [findEntry] at run
    by_cases atEnd : pos = freelist
    · rw [if_pos atEnd] at run
      cases Except.ok.inj run
      constructor
      · intro some
        contradiction
      · intro fit
        cases fit with
        | here entry => exact absurd atEnd entry
        | later entry => exact absurd atEnd entry
    · rw [if_neg atEnd] at run
      by_cases short : mem (listEntry pos) < size
      · rw [if_pos short] at run
        rw [ih run]
        constructor
        · exact FirstFit.later atEnd short
        · intro fit
          cases fit with
          | here _ fits => omega
          | later _ _ rest => exact rest
      · rw [if_neg short] at run
        cases Except.ok.inj run
        constructor
        · intro same
          cases Option.some.inj same
          exact FirstFit.here atEnd (Nat.le_of_not_lt short)
        · intro fit
          cases fit with
          | here => rfl
          | later _ less => exact absurd less short

end Search

section Inversion
variable {heap after : Heap} {asize page p : Nat}

theorem allocatePages_inv {n : Int} {hdr : Nat} (run : allocatePages heap n page = .ok (after, hdr)) :
    0 < n ∧ hdr = page ∧ after = if page = 0 then heap else heap.take ⟨page, n.toNat⟩ := by
  rw [allocatePages] at run
  by_cases positive : n ≤ 0
  · rw [if_pos positive] at run
    contradiction
  · rw [if_neg positive] at run
    by_cases none : page = 0
    · rw [if_pos none] at run
      by_cases bulk : isBulk n.toNat
      · rw [if_pos bulk] at run
        cases Except.ok.inj run
        exact ⟨by omega, none.symm, (if_pos none).symm⟩
      · rw [if_neg bulk] at run
        contradiction
    · rw [if_neg none] at run
      cases Except.ok.inj run
      exact ⟨by omega, rfl, (if_neg none).symm⟩

theorem xmallocWholePages_inv (full : ∀ i, ¬Fits heap asize i) (large : pageSize ≤ requestSize asize)
    (run : xmallocWholePages heap (requestSize asize) page = .ok (after, p)) :
    Allocated heap asize page after p := by
  unfold xmallocWholePages at run
  dsimp only at run
  rw [wholePages_mul, Nat.mul_div_cancel _ (by decide)] at run
  obtain ⟨⟨taken, hdr⟩, pages, run⟩ := Halt.bind_eq_ok.mp run
  obtain ⟨positive, rfl, rfl⟩ := allocatePages_inv pages
  dsimp only at run
  by_cases none : hdr = 0
  · rw [if_pos none, if_pos none] at run
    cases Except.ok.inj run
    exact .null full none
  · rw [if_neg none, if_neg none] at run
    cases Except.ok.inj run
    have count : (intOfUlong (wholePages asize)).toNat = requestPages asize := (if_pos large).symm
    rw [count]
    exact .wholePages full none large positive

theorem xmallocNewPage_inv (full : ∀ i, ¬Fits heap asize i) (small : requestSize asize < pageSize)
    (run : xmallocNewPage heap (requestSize asize) page = .ok (after, p)) :
    Allocated heap asize page after p := by
  unfold xmallocNewPage at run
  obtain ⟨⟨taken, hdr⟩, pages, run⟩ := Halt.bind_eq_ok.mp run
  obtain ⟨positive, rfl, rfl⟩ := allocatePages_inv pages
  dsimp only at run
  by_cases none : hdr = 0
  · rw [if_pos none, if_pos none] at run
    cases Except.ok.inj run
    exact .null full none
  · rw [if_neg none, if_neg none] at run
    obtain ⟨final, split, run⟩ := Halt.bind_eq_ok.mp run
    cases Except.ok.inj run
    exact .newPage full none small split

/-- What a request that returns has done. -/
theorem xmallocAlign_inv (run : xmallocAlign heap asize page = .ok (after, p)) :
    Allocated heap asize page after p := by
  unfold xmallocAlign at run
  dsimp only at run
  by_cases large : pageSize ≤ requestSize asize
  · rw [if_pos large] at run
    exact xmallocWholePages_inv (fun i fits => absurd fits.1 (Nat.not_lt.mpr large)) large run
  · rw [if_neg large] at run
    obtain ⟨found, search, run⟩ := Halt.bind_eq_ok.mp run
    cases found with
    | none =>
      have full : ∀ i, ¬Fits heap asize i := fun i fits =>
        Option.some_ne_none i ((findEntry_spec search).mpr fits.2).symm
      exact xmallocNewPage_inv full (Nat.not_le.mp large) run
    | some i =>
      obtain ⟨final, split, run⟩ := Halt.bind_eq_ok.mp run
      cases Except.ok.inj run
      exact .entry ⟨Nat.not_le.mp large, (findEntry_spec search).mp rfl⟩ split

end Inversion

theorem FirstFit.unique {mem : Mem} {freelist size pos i j : Nat}
    (left : FirstFit mem freelist size pos i) (right : FirstFit mem freelist size pos j) : i = j := by
  induction left with
  | here _ fits =>
    cases right with
    | here => rfl
    | later _ short => omega
  | later _ short _ ih =>
    cases right with
    | here _ fits => omega
    | later _ _ rest => exact ih rest

/-! ## Enough memory -/

/-- What `allocate_pages` may answer if a request for `asize` bytes asks it. -/
def Answer (heap : Heap) (asize page : Nat) : Prop :=
  page = 0 ∨ FreshRun heap ⟨page, requestPages asize⟩

/-- The `n` bytes at `p` lie in a run that the heap holds, and meet no block other than the
one at `p`. -/
def Enough (heap : Heap) (live : List Nat) (p n : Nat) : Prop :=
  (∃ run ∈ heap.held, run.base ≤ p ∧ p + n ≤ run.stop) ∧
    ∃ free, IsList (links heap.mem) heap.freelist (free.map node) ∧
      ∀ b ∈ live ++ free, b + headerSize ≠ p →
        Disjoint (Set.Ico p (p + n)) (Set.Ico b (b + heap.mem b))

/-- The request crashes for lack of memory, or returns `NULL`, or as many bytes as `n`, all
of which are `good`. -/
inductive Suffices (live : List Nat) (n : Nat) (good : Heap → Nat → Prop) :
    Except Halt (Heap × Nat) → Prop
  | crash : Suffices live n good (.error .crash)
  | null (heap : Heap) : Suffices live n good (.ok (heap, 0))
  | block {heap : Heap} {p : Nat} (enough : Enough heap live p n)
      (each : ∀ k < n, good heap (p + k)) : Suffices live n good (.ok (heap, p))

/-- `allocate_pages` crashes on the page count of every such request. -/
def CountCrashes (asize : Nat) : Prop :=
  pageSize ≤ requestSize asize ∧ intOfUlong (wholePages asize) ≤ 0

/-- The request obtains no block: no entry fits and `allocate_pages` finds no pages, or it
crashes on their count. -/
def Refused (heap : Heap) (asize page : Nat) : Prop :=
  (page = 0 ∧ ∀ i, ¬Fits heap asize i) ∨ CountCrashes asize

section Sizes
variable {asize : Nat}

theorem requestSize_le (noWrap : NoWrap asize) : requestSize asize ≤ asize + 31 := by
  unfold NoWrap at noWrap
  have sum : ulongAdd asize headerSize = asize + 24 := ulongAdd_eq (by simp only [headerSize]; omega)
  rw [requestSize, sum, alignUp_eq (by decide) (by omega)]
  omega

theorem wholePages_le (noWrap : NoWrap asize) :
    wholePages asize * pageSize < requestSize asize + pageSize := by
  have fits := (requestSize_bounds noWrap).2.2
  rw [← wholePages_mul]
  simp only [alignUp, ulongSub, ulongAdd, pageSize]
  omega

/-- A count that is cut off comes out smaller. -/
theorem truncated_short (noWrap : NoWrap asize) (truncated : ¬NotTruncated asize) :
    pageSize ≤ requestSize asize ∧ requestPages asize * pageSize < asize + 24 := by
  obtain ⟨aligned, large, fits⟩ := requestSize_bounds noWrap
  have most := requestSize_le noWrap
  have short := wholePages_le noWrap
  unfold NotTruncated at truncated
  obtain ⟨many, positive⟩ := not_or.mp truncated
  have count : (intOfUlong (wholePages asize)).toNat < 2 ^ 31 := by
    unfold intOfUlong
    rw [Int.bmod_def]
    omega
  have isLarge : pageSize ≤ requestSize asize := by
    simp only [pageSize] at short ⊢
    omega
  have pages : requestPages asize = (intOfUlong (wholePages asize)).toNat := if_pos isLarge
  have fewer : requestPages asize * pageSize + pageSize ≤ wholePages asize * pageSize := by
    rw [pages, ← Nat.succ_mul]
    exact Nat.mul_le_mul_right pageSize (by omega)
  have below : requestPages asize * pageSize < requestSize asize :=
    Nat.lt_of_add_lt_add_right (Nat.lt_of_le_of_lt fewer short)
  -- both sides are multiples of 8
  have eight : requestPages asize * pageSize % 8 = 0 :=
    Nat.mod_eq_zero_of_dvd (Nat.dvd_mul_left_of_dvd (by decide : 8 ∣ pageSize) _)
  exact ⟨isLarge, by omega⟩

end Sizes

section Errors
variable {heap : Heap} {asize page : Nat} {halt : Halt}

theorem findEntry_error {mem : Mem} {freelist size fuel pos : Nat}
    (run : findEntry mem freelist size fuel pos = .error halt) : halt = .fuel := by
  induction fuel generalizing pos with
  | zero =>
    cases run
    rfl
  | succ fuel ih =>
    rw [findEntry] at run
    split at run
    · contradiction
    · split at run
      · exact ih run
      · contradiction

theorem maybeSplit_error {hdr size block : Nat} (run : maybeSplit heap hdr size block = .error halt) :
    halt = .bug := by
  unfold maybeSplit Mem.listAdd at run
  dsimp only at run
  split at run
  · split at run
    · rw [Halt.error_bind] at run
      cases run
      rfl
    · contradiction
  · contradiction

theorem allocatePages_error {n : Int} (run : allocatePages heap n page = .error halt) :
    n ≤ 0 ∨ page = 0 := by
  by_contra neither
  obtain ⟨positive, some⟩ := not_or.mp neither
  rw [allocatePages, if_neg positive, if_neg some] at run
  contradiction

theorem xmallocNewPage_error {size : Nat} (run : xmallocNewPage heap size page = .error halt) :
    page = 0 ∨ halt = .bug := by
  unfold xmallocNewPage at run
  rcases Halt.bind_eq_error.mp run with pages | ⟨⟨taken, hdr⟩, _, later⟩
  · exact .inl ((allocatePages_error pages).resolve_left (by decide))
  · dsimp only at later
    split at later
    · contradiction
    · rcases Halt.bind_eq_error.mp later with split | ⟨_, _, returns⟩
      · exact .inr (maybeSplit_error split)
      · cases returns

theorem xmallocWholePages_error
    (run : xmallocWholePages heap (requestSize asize) page = .error halt) :
    intOfUlong (wholePages asize) ≤ 0 ∨ page = 0 := by
  unfold xmallocWholePages at run
  dsimp only at run
  rw [wholePages_mul, Nat.mul_div_cancel _ (by decide)] at run
  rcases Halt.bind_eq_error.mp run with pages | ⟨⟨taken, hdr⟩, _, later⟩
  · exact allocatePages_error pages
  · dsimp only at later
    split at later <;> cases later

/-- A request that crashes finds no block. -/
theorem xmallocAlign_crash (run : xmallocAlign heap asize page = .error .crash) :
    Refused heap asize page := by
  unfold xmallocAlign at run
  dsimp only at run
  by_cases large : pageSize ≤ requestSize asize
  · rw [if_pos large] at run
    rcases xmallocWholePages_error run with few | none
    · exact .inr ⟨large, few⟩
    · exact .inl ⟨none, fun i fits => absurd fits.1 (Nat.not_lt.mpr large)⟩
  · rw [if_neg large] at run
    rcases Halt.bind_eq_error.mp run with search | ⟨found, search, later⟩
    · exact nomatch findEntry_error search
    · cases found with
      | none =>
        rcases xmallocNewPage_error later with none | bug
        · exact .inl ⟨none, fun i fits =>
            Option.some_ne_none i ((findEntry_spec search).mpr fits.2).symm⟩
        · cases bug
      | some i =>
        rcases Halt.bind_eq_error.mp later with split | ⟨_, _, returns⟩
        · exact nomatch maybeSplit_error split
        · cases returns

end Errors

section Enough
variable {heap after : Heap} {g h : Blocks} {asize page p : Nat}

theorem HeapInv.search (inv : HeapInv heap g) (asize : Nat) :
    ∃ found, Xmalloc.findEntry heap.mem heap.freelist (requestSize asize) (traversalBound heap)
      (heap.mem heap.freelist) = .ok found ∧
      ∀ i, found = some i → i ∈ g.free ∧ requestSize asize ≤ g.size i := by
  obtain ⟨found, search, suits⟩ := inv.findEntry (requestSize asize) (List.nil_append _).symm
    inv.free_length
  rw [show heap.mem heap.freelist = (g.free.map node).headD heap.freelist from inv.list.next_head]
  exact ⟨found, search, suits⟩

/-- The entry that serves a request is a free block that is large enough. -/
theorem HeapInv.fits (inv : HeapInv heap g) {i : Nat} (fits : Fits heap asize i) :
    i ∈ g.free ∧ requestSize asize ≤ g.size i := by
  obtain ⟨found, search, suits⟩ := inv.search asize
  exact suits i ((findEntry_spec search).mpr fits.2)

theorem maybeSplit_held {hdr size block : Nat} (run : maybeSplit heap hdr size block = .ok after) :
    after.held = heap.held := by
  unfold maybeSplit at run
  dsimp only at run
  split at run
  · obtain ⟨mem, _, same⟩ := Halt.bind_eq_ok.mp run
    cases Except.ok.inj same
    rfl
  · cases Except.ok.inj run
    rfl

/-- A block that is returned lies behind the header of a free block or of fresh pages, and
the heap takes no other pages. -/
theorem HeapInv.allocated_place (inv : HeapInv heap g) (answer : Answer heap asize page)
    (allocated : Allocated heap asize page after p) (some : p ≠ 0) :
    pageSize + headerSize ≤ p ∧ (after.held = heap.held ∨
      FreshRun heap ⟨page, requestPages asize⟩ ∧ p = page + headerSize ∧
        after.held = ⟨page, requestPages asize⟩ :: heap.held) := by
  have fresh (known : page ≠ 0) : FreshRun heap ⟨page, requestPages asize⟩ :=
    answer.resolve_left known
  have low (run : FreshRun heap ⟨page, requestPages asize⟩) : pageSize ≤ page :=
    Nat.le_of_dvd run.positive (Nat.dvd_of_mod_eq_zero run.aligned)
  cases allocated with
  | null => exact absurd rfl some
  | entry fits split =>
    obtain ⟨free, _⟩ := inv.fits fits
    obtain ⟨run, held, _, base, _⟩ := inv.locate (Or.inr (Or.inr free))
    obtain ⟨positive, aligned, _⟩ := inv.runs run held
    have first := Nat.le_of_dvd positive (Nat.dvd_of_mod_eq_zero aligned)
    have same := maybeSplit_held split
    exact ⟨Nat.add_le_add_right (Nat.le_trans first base) _, .inl same⟩
  | newPage _ known small split =>
    have one : requestPages asize = 1 := if_neg (Nat.not_le.mpr small)
    have run := fresh known
    refine ⟨Nat.add_le_add_right (low run) _, .inr ⟨run, rfl, ?_⟩⟩
    rw [one]
    exact maybeSplit_held split
  | wholePages _ known =>
    have run := fresh known
    exact ⟨Nat.add_le_add_right (low run) _, .inr ⟨run, rfl, rfl⟩⟩

/-- Where a request wraps or its count is cut off, no run holds as many bytes as were asked
for. -/
theorem HeapInv.allocated_short (inv : HeapInv heap g) (answer : Answer heap asize page)
    (allocated : Allocated heap asize page after p) (some : p ≠ 0) {n : Nat}
    (asked : n = asize ∨ 2 ^ 64 ≤ n) (bad : ¬(NoWrap n ∧ NotTruncated n)) :
    ∀ run ∈ after.held, run.base ≤ p → ¬p + n ≤ run.stop := by
  obtain ⟨low, place⟩ := inv.allocated_place answer allocated some
  intro run held base stop
  have limit : run.stop < 2 ^ 64 := by
    rcases place with same | ⟨fresh, _, taken⟩
    · exact (inv.runs run (same ▸ held)).2.2.2
    · rw [taken] at held
      rcases List.mem_cons.mp held with rfl | old
      · exact fresh.fits
      · exact (inv.runs run old).2.2.2
  simp only [pageSize, headerSize] at low
  have noWrap : NoWrap n := by
    unfold NoWrap
    omega
  have isAsize : n = asize := by
    unfold NoWrap at noWrap
    omega
  subst isAsize
  obtain ⟨large, short⟩ := truncated_short noWrap fun counted => bad ⟨noWrap, counted⟩
  -- the block is a run of its own
  rcases place with same | ⟨fresh, rfl, taken⟩
  · cases allocated with
    | null => exact absurd rfl some
    | entry fits => exact absurd fits.1 (Nat.not_lt.mpr large)
    | newPage _ _ small => exact absurd small (Nat.not_lt.mpr large)
    | wholePages =>
      have longer := congrArg List.length same
      simp [Heap.take] at longer
  · rw [taken] at held
    rcases List.mem_cons.mp held with rfl | old
    · simp only [headerSize, Run.stop, Run.bytes] at stop
      omega
    · have apart := fresh.apart run old
      have bytes := fresh.bytes_le
      unfold Run.Apart at apart
      simp only [headerSize] at stop base
      simp only [Run.stop, pageSize] at apart stop bytes
      omega

/-- The payload of a block in use meets no other block. -/
theorem HeapInv.enough (inv : HeapInv heap g) {live : List Nat} {a n : Nat} (inUse : a ∈ g.live)
    (room : 24 + n ≤ g.size a) (callers : ∀ b ∈ live, b ∈ g.live ∧ heap.mem b = g.size b) :
    Enough heap live (a + headerSize) n := by
  obtain ⟨run, held, _, base, stop, _⟩ := inv.locate (Or.inl inUse)
  refine ⟨⟨run, held, by simp only [headerSize]; omega, by simp only [headerSize]; omega⟩,
    g.free, inv.list, fun b member other => ?_⟩
  have different : a ≠ b := fun same => other (same ▸ rfl)
  have known : (b ∈ g.live ∨ b ∈ g.busy ∨ b ∈ g.free) ∧ heap.mem b = g.size b := by
    rcases List.mem_append.mp member with caller | free
    · exact ⟨Or.inl (callers b caller).1, (callers b caller).2⟩
    · exact ⟨Or.inr (Or.inr free), inv.freeHeader b free⟩
  have apart := inv.blocks_apart (Or.inl inUse) known.1 different
  rw [known.2]
  apply disjoint_of_apart
  simp only [headerSize]
  omega

/-- A block that serves its request holds as many bytes as were asked for, whatever has
been written to them. -/
theorem Served.enough {live : List Nat} {a : Nat} (served : Served heap g asize a after h)
    (counted : NotTruncated asize) (callers : live = g.live)
    (exact : ∀ b ∈ g.live, heap.mem b = g.size b) {mem : Mem}
    (filled : ∀ w, w < a + 24 ∨ a + 24 + asize ≤ w → mem w = after.mem w) :
    Enough { after with mem := mem } live (a + headerSize) asize := by
  have isLive : a ∈ h.live := by simp [served.live]
  obtain ⟨_, large⟩ := served.large counted
  obtain ⟨inv, words⟩ := served.inv.fill isLive (by omega) filled
  refine inv.enough isLive (by omega) fun b caller => ?_
  have old : b ∈ g.live := callers ▸ caller
  obtain ⟨word, size⟩ := served.kept b old
  have known : b ∈ h.live := served.live ▸ List.mem_cons_of_mem a old
  exact ⟨known, ((words b (Or.inl known)).trans word).trans ((exact b old).trans size.symm)⟩

theorem xmallocAlign_whole (large : pageSize ≤ requestSize asize) :
    xmallocAlign heap asize page = (do
      let (heap, hdr) ← allocatePages heap (intOfUlong (wholePages asize)) page
      if hdr = 0 then .ok (heap, 0)
      else .ok ({ heap with mem := heap.mem.publish hdr (wholePages asize * pageSize) }, hdr + headerSize)) := by
  simp only [xmallocAlign, if_pos large, xmallocWholePages, wholePages_mul,
    Nat.mul_div_cancel _ (show 0 < pageSize by decide)]

/-- Where a bulk run is asked for and not found, the request returns `NULL`. -/
theorem xmallocAlign_bulk_null (large : pageSize ≤ requestSize asize)
    (counted : ¬intOfUlong (wholePages asize) ≤ 0)
    (bulk : isBulk (intOfUlong (wholePages asize)).toNat) :
    xmallocAlign heap asize 0 = .ok (heap, 0) := by
  rw [xmallocAlign_whole large, allocatePages, if_neg counted, if_pos rfl, if_pos bulk]
  rfl

/-- Without pages, a request returns `NULL` or crashes. -/
theorem HeapInv.xmallocAlign_refused (inv : HeapInv heap g) (refused : Refused heap asize page) :
    Xmalloc.xmallocAlign heap asize page = .error .crash ∨
      Xmalloc.xmallocAlign heap asize page = .ok (heap, 0) := by
  by_cases large : pageSize ≤ requestSize asize
  · by_cases crashes : intOfUlong (wholePages asize) ≤ 0
    · rw [xmallocAlign_whole large, allocatePages, if_pos crashes]
      exact .inl rfl
    · rcases refused with ⟨rfl, _⟩ | ⟨_, few⟩
      · by_cases bulk : isBulk (intOfUlong (wholePages asize)).toNat
        · exact .inr (xmallocAlign_bulk_null large crashes bulk)
        · rw [xmallocAlign_whole large, allocatePages, if_neg crashes, if_pos rfl, if_neg bulk]
          exact .inl rfl
      · exact absurd few crashes
  · rcases refused with ⟨none, full⟩ | ⟨also, _⟩
    · obtain ⟨found, search, _⟩ := inv.search asize
      simp only [Xmalloc.xmallocAlign, if_neg large, search, Halt.ok_bind]
      cases found with
      | some i => exact absurd ⟨Nat.not_le.mp large, (findEntry_spec search).mp rfl⟩ (full i)
      | none =>
        subst none
        exact .inl rfl
    · exact absurd also large

/-- A request that returns `NULL` found no block. -/
theorem Allocated.refused (allocated : Allocated heap asize page after 0) :
    Refused heap asize page := by
  generalize result : 0 = p at allocated
  cases allocated with
  | null full none => exact .inl ⟨none, full⟩
  | entry => simp at result
  | newPage => simp at result
  | wholePages => simp at result

end Enough

/-! ## Alignment -/

section Alignment
variable {heap after : Heap} {g : Blocks} {asize page p : Nat}

/-- A block lies behind a header on a multiple of 8. -/
theorem HeapInv.allocated_aligned (inv : HeapInv heap g) (answer : Answer heap asize page)
    (allocated : Allocated heap asize page after p) : 8 ∣ p := by
  have header : 8 ∣ headerSize := by decide
  have fresh (known : page ≠ 0) : 8 ∣ page + headerSize := by
    have aligned : page % pageSize = 0 := (answer.resolve_left known).aligned
    have whole : 8 ∣ pageSize := by decide
    exact Nat.dvd_add (Nat.dvd_trans whole (Nat.dvd_of_mod_eq_zero aligned)) header
  cases allocated with
  | null => exact Nat.dvd_zero 8
  | entry fits =>
    obtain ⟨free, _⟩ := inv.fits fits
    exact Nat.dvd_add (inv.aligned (Or.inr (Or.inr free))) header
  | newPage _ known => exact fresh known
  | wholePages _ known => exact fresh known

/-- A header-inclusive size that wraps is that of a header at most. -/
theorem requestSize_wrapped (word : asize < 2 ^ 64) (wraps : ¬NoWrap asize) :
    requestSize asize = 0 ∨ requestSize asize = 8 ∨ requestSize asize = 16 ∨
      requestSize asize = 24 := by
  unfold NoWrap at wraps
  simp only [requestSize, alignUp, ulongSub, ulongAdd, headerSize]
  omega

theorem emptyHeap_freshRun {n : Nat} (some : 0 < n) (most : n < 2 ^ 31) :
    FreshRun emptyHeap.heap ⟨0x10000, n⟩ where
  positive := show 0 < 0x10000 by decide
  aligned := show 0x10000 % pageSize = 0 by decide
  nonempty := some
  fits := by
    simp only [Run.stop, Run.bytes, pageSize]
    omega
  headOutside := .inl (show 0x1000 + 16 ≤ 0x10000 by decide)
  apart := nofun

/-- The first block of all lies behind the header of its page. -/
theorem first_block (word : asize < 2 ^ 64) (counted : ¬CountCrashes asize) :
    ∃ after, Answer emptyHeap.heap asize 0x10000 ∧
      xmallocAlign emptyHeap.heap asize 0x10000 = .ok (after, 0x10018) := by
  have pages : 0 < requestPages asize ∧ requestPages asize < 2 ^ 31 := by
    unfold requestPages
    split
    · next large =>
      have positive : ¬intOfUlong (wholePages asize) ≤ 0 := fun few => counted ⟨large, few⟩
      unfold intOfUlong at positive ⊢
      rw [Int.bmod_def] at positive ⊢
      omega
    · decide
  have answer : Answer emptyHeap.heap asize 0x10000 :=
    .inr (emptyHeap_freshRun pages.1 pages.2)
  by_cases noWrap : NoWrap asize
  · have obtains : ¬Refused emptyHeap.heap asize 0x10000 := by
      rintro (⟨null, _⟩ | crashes)
      · exact absurd null (by decide)
      · exact counted crashes
    have settled := emptyHeap_empty.settled
    rcases settled.inv.xmallocAlign rfl noWrap answer with crash | null | ⟨a, after, h, run, _⟩
    · exact absurd (xmallocAlign_crash crash) obtains
    · exact absurd (xmallocAlign_inv null).refused obtains
    · refine ⟨after, answer, ?_⟩
      have allocated := xmallocAlign_inv run
      generalize place : a + 24 = p at run allocated
      cases allocated with
      | null => simp at place
      | entry fits => exact absurd (settled.inv.fits fits).1 List.not_mem_nil
      | newPage => exact run
      | wholePages => exact run
  · have result : (xmallocAlign emptyHeap.heap asize 0x10000).toOption.map Prod.snd =
        some 0x10018 := by
      unfold xmallocAlign
      rcases requestSize_wrapped word noWrap with size | size | size | size <;> rw [size] <;>
        decide +kernel
    obtain ⟨⟨after, p⟩, run, rfl⟩ := Halt.map_toOption_eq_some.mp result
    exact ⟨after, answer, run⟩

/-- Whatever the heap that the request meets, a block that it returns is aligned to `align`. -/
def ReturnsAligned (asize align : Nat) : Prop :=
  ∀ state, Reach EmptyHeap HeapStep (fun state op => FreshPages state op ∧ WholeCounts op) state →
    ∀ page after p, Answer state.heap asize page →
      xmallocAlign state.heap asize page = .ok (after, p) → p ≠ 0 → align ∣ p

/-- All blocks that requests for `asize` bytes return are aligned to a power of two exactly
if it is at most 8, the alignment of a header; the alignment asked for is not looked at. -/
theorem xmallocAlign_aligned_iff (word : asize < 2 ^ 64) (k : Nat) :
    ReturnsAligned asize (2 ^ k) ↔ 2 ^ k ≤ 8 ∨ CountCrashes asize := by
  constructor
  · intro aligned
    by_contra neither
    obtain ⟨more, counted⟩ := not_or.mp neither
    obtain ⟨after, answer, run⟩ := first_block word counted
    have divides := aligned emptyHeap (.start emptyHeap_empty) 0x10000 after 0x10018 answer run
      (by decide)
    have four : 4 ≤ k := by
      by_contra few
      exact more (Nat.pow_le_pow_right (by decide) (by omega : k ≤ 3))
    have sixteen : 2 ^ 4 ∣ 0x10018 := Nat.dvd_trans (Nat.pow_dvd_pow 2 four) divides
    exact absurd sixteen (by decide)
  · rintro (small | crashes) state reached page after p answer run some
    · obtain ⟨g, settled, _⟩ := heapRun_settled reached
      have eight : 2 ^ k ∣ 2 ^ 3 :=
        Nat.pow_dvd_pow 2 ((Nat.pow_le_pow_iff_right (by decide)).mp small)
      exact Nat.dvd_trans eight (settled.inv.allocated_aligned answer (xmallocAlign_inv run))
    · cases xmallocAlign_inv run with
      | null => exact absurd rfl some
      | entry fits => exact absurd fits.1 (Nat.not_lt.mpr crashes.1)
      | newPage _ _ small => exact absurd small (Nat.not_lt.mpr crashes.1)
      | wholePages _ _ _ positive => exact absurd crashes.2 (Int.not_le.mpr positive)

theorem xmallocAlign_aligned_words : ReturnsAligned 100 8 ∧ ¬ReturnsAligned 100 16 := by
  refine ⟨(xmallocAlign_aligned_iff (by decide) 3).mpr (.inl (by decide)), fun aligned => ?_⟩
  rcases (xmallocAlign_aligned_iff (by decide) 4).mp aligned with small | crashes
  · exact absurd small (by decide)
  · exact absurd crashes.1 (by decide)

/-- A first block aligned to 16 is asked for, and it lies behind the header of a page. -/
theorem first_block_misaligned :
    ∃ state, Reach EmptyHeap HeapStep (fun state op => FreshPages state op ∧ WholeCounts op) state ∧
      ∃ after p, xmallocAlign state.heap 100 0x10000 = .ok (after, p) ∧ p ≠ 0 ∧ ¬2 ^ 4 ∣ p := by
  have counted : ¬CountCrashes 100 := by
    rintro ⟨large, _⟩
    exact absurd large (by decide)
  obtain ⟨after, _, run⟩ := first_block (by decide) counted
  exact ⟨emptyHeap, .start emptyHeap_empty, after, 0x10018, run, by decide, by decide⟩

end Alignment

section Entry
variable {state : HeapRun} {g : Blocks} {page : Nat}

theorem Settled.xmallocAlign_suffices (settled : Settled state g) (exact : Exact state g)
    {asize : Nat} (answer : Answer state.heap asize page) :
    Suffices state.live asize (fun _ _ => True) (Xmalloc.xmallocAlign state.heap asize page) ↔
      (NoWrap asize ∧ NotTruncated asize) ∨ Refused state.heap asize page := by
  constructor
  · intro result_ok
    by_contra neither
    obtain ⟨bad, refused⟩ := not_or.mp neither
    generalize run : Xmalloc.xmallocAlign state.heap asize page = result at result_ok
    cases result_ok with
    | crash => exact refused (xmallocAlign_crash run)
    | null => exact refused (xmallocAlign_inv run).refused
    | @block _ p enough =>
      have allocated := xmallocAlign_inv run
      by_cases null : p = 0
      · exact refused (null ▸ allocated).refused
      · obtain ⟨⟨run, held, base, stop⟩, _⟩ := enough
        exact settled.inv.allocated_short answer allocated null (.inl rfl) bad run held base stop
  · intro holds
    cases holds with
    | inl possible =>
      rcases settled.inv.xmallocAlign settled.busy possible.1 answer with crash | null | served
      · rw [crash]
        exact .crash
      · rw [null]
        exact .null _
      · obtain ⟨a, after, h, run, served⟩ := served
        rw [run]
        exact .block (served.enough possible.2 settled.live.symm exact fun _ _ => rfl)
          fun _ _ => trivial
    | inr refused =>
      rcases settled.inv.xmallocAlign_refused refused with crash | null
      · rw [crash]
        exact .crash
      · rw [null]
        exact .null _

theorem memset_outside (mem : Mem) {x c n w : Nat} (outside : w < x ∨ x + n ≤ w) :
    mem.memset x c n w = mem w := by
  have away : ¬(x ≤ w ∧ w < x + n) := by omega
  exact if_neg away

theorem xcalloc_error {heap : Heap} {n size : Nat} {halt : Halt}
    (run : xmallocAlign heap (ulongMul size n) page = .error halt) :
    xcalloc heap n size page = .error halt := by
  rw [xcalloc, run]
  rfl

theorem xcalloc_null {heap after : Heap} {n size : Nat}
    (run : xmallocAlign heap (ulongMul size n) page = .ok (after, 0)) :
    xcalloc heap n size page = .ok (after, 0) := by
  rw [xcalloc, run]
  rfl

theorem xcalloc_block {heap after : Heap} {n size p : Nat} (some : p ≠ 0)
    (run : xmallocAlign heap (ulongMul size n) page = .ok (after, p)) :
    xcalloc heap n size page =
      .ok ({ after with mem := after.mem.memset p 0 (ulongMul size n) }, p) := by
  rw [xcalloc, run]
  exact if_pos some

/-- The wrapped product is the product, or the product is too large for any run. -/
theorem product_asked (n size : Nat) : n * size = ulongMul size n ∨ 2 ^ 64 ≤ n * size := by
  by_cases fits : n * size < 2 ^ 64
  · exact .inl (by rw [ulongMul_eq (by rwa [Nat.mul_comm]), Nat.mul_comm])
  · exact .inr (Nat.le_of_not_lt fits)

theorem Settled.xcalloc_suffices (settled : Settled state g) (exact : Exact state g) {n size : Nat}
    (answer : Answer state.heap (ulongMul size n) page) :
    Suffices state.live (n * size) (fun heap address => heap.mem.byte address = 0)
        (xcalloc state.heap n size page) ↔
      (NoWrap (n * size) ∧ NotTruncated (n * size)) ∨ Refused state.heap (ulongMul size n) page := by
  constructor
  · intro result_ok
    by_contra neither
    obtain ⟨bad, refused⟩ := not_or.mp neither
    cases run : Xmalloc.xmallocAlign state.heap (ulongMul size n) page with
    | error halt =>
      rw [xcalloc_error run] at result_ok
      cases result_ok
      exact refused (xmallocAlign_crash run)
    | ok result =>
      obtain ⟨after, p⟩ := result
      have allocated := xmallocAlign_inv run
      by_cases null : p = 0
      · exact refused (null ▸ allocated).refused
      · rw [xcalloc_block null run] at result_ok
        cases result_ok with
        | null => exact null rfl
        | block enough =>
          obtain ⟨⟨run, held, base, stop⟩, _⟩ := enough
          exact settled.inv.allocated_short answer allocated null (product_asked n size) bad run held
            base stop
  · intro holds
    cases holds with
    | inl possible =>
      obtain ⟨noWrap, counted⟩ := possible
      have same : n * size = ulongMul size n := (product_asked n size).resolve_right (by
        unfold NoWrap at noWrap
        omega)
      rw [same] at noWrap counted ⊢
      rcases settled.inv.xmallocAlign settled.busy noWrap answer with crash | null | served
      · rw [xcalloc_error crash]
        exact .crash
      · rw [xcalloc_null null]
        exact .null _
      · obtain ⟨a, after, h, run, served⟩ := served
        have isLive : a ∈ h.live := by simp [served.live]
        have aligned : 8 ∣ a + 24 :=
          Nat.dvd_add (served.inv.aligned (Or.inl isLive)) (by decide)
        rw [xcalloc_block (Nat.succ_ne_zero _) run]
        exact .block (served.enough counted settled.live.symm exact fun w => memset_outside after.mem)
          fun k inside => byte_memset after.mem aligned inside
    | inr refused =>
      rcases settled.inv.xmallocAlign_refused refused with crash | null
      · rw [xcalloc_error crash]
        exact .crash
      · rw [xcalloc_null null]
        exact .null _

theorem Settled.xmallocArrayAlign_suffices (settled : Settled state g) (exact : Exact state g)
    {size num : Nat} (answer : Answer state.heap (ulongMul size num) page) :
    Suffices state.live (size * num) (fun _ _ => True)
      (xmallocArrayAlign state.heap size num page) := by
  unfold xmallocArrayAlign
  by_cases large : size ≠ 0 ∧ (2 ^ 32 - 1) / size < num
  · rw [if_pos large]
    exact .null _
  · rw [if_neg large]
    have small : size * num ≤ 2 ^ 32 - 1 := by
      by_cases none : size = 0
      · simp [none]
      · have most : num ≤ (2 ^ 32 - 1) / size := Nat.le_of_not_lt fun more => large ⟨none, more⟩
        exact Nat.le_trans (Nat.mul_le_mul_left size most) (Nat.mul_div_le _ _)
    have same : ulongMul size num = size * num := ulongMul_eq (by omega)
    rw [same] at answer ⊢
    have noWrap : NoWrap (size * num) := by
      unfold NoWrap
      omega
    refine (settled.xmallocAlign_suffices exact answer).mpr (.inl ⟨noWrap, .inl ?_⟩)
    have most := requestSize_le noWrap
    have short := wholePages_le noWrap
    simp only [pageSize] at short
    omega

end Entry

/-- Each entry point returns enough memory exactly when the number of bytes wraps nowhere and
the page count is not cut off, or when there is no block to return; `xmalloc_array_align`
always does. -/
theorem requests_suffice_iff {state : HeapRun}
    (reached : Reach EmptyHeap HeapStep (fun state op => FreshPages state op ∧ WholeCounts op) state)
    (page : Nat) :
    (∀ asize, Answer state.heap asize page →
      (Suffices state.live asize (fun _ _ => True) (xmallocAlign state.heap asize page) ↔
        (NoWrap asize ∧ NotTruncated asize) ∨ Refused state.heap asize page)) ∧
    (∀ n size, Answer state.heap (ulongMul size n) page →
      (Suffices state.live (n * size) (fun heap address => heap.mem.byte address = 0)
          (xcalloc state.heap n size page) ↔
        (NoWrap (n * size) ∧ NotTruncated (n * size)) ∨
          Refused state.heap (ulongMul size n) page)) ∧
    ∀ size num, Answer state.heap (ulongMul size num) page →
      Suffices state.live (size * num) (fun _ _ => True)
        (xmallocArrayAlign state.heap size num page) := by
  obtain ⟨g, settled, exact⟩ := heapRun_settled reached
  exact ⟨fun _ answer => settled.xmallocAlign_suffices exact answer,
    fun _ _ answer => settled.xcalloc_suffices exact answer,
    fun _ _ answer => settled.xmallocArrayAlign_suffices exact answer⟩

/-- Requests of a heap that holds a block in use between two free ones. -/
theorem requests_suffice_iff_between :
    ∃ state, runLabels heapStep (fun state op => FreshPages state op ∧ WholeCounts op)
        [.xmallocAlign 100 0x10000, .xmallocAlign 50 0, .xfree 0x10000] emptyHeap = some state ∧
      state.live = [0x10080] ∧
      (Suffices state.live 5000 (fun _ _ => True) (xmallocAlign state.heap 5000 0x20000) ↔
        (NoWrap 5000 ∧ NotTruncated 5000) ∨ Refused state.heap 5000 0x20000) ∧
      (Suffices state.live (3 * 40) (fun heap address => heap.mem.byte address = 0)
          (xcalloc state.heap 3 40 0x20000) ↔
        (NoWrap (3 * 40) ∧ NotTruncated (3 * 40)) ∨ Refused state.heap (ulongMul 40 3) 0x20000) ∧
      Suffices state.live (8 * 10) (fun _ _ => True) (xmallocArrayAlign state.heap 8 10 0x20000) := by
  have runs : ∃ state, runLabels heapStep (fun state op => FreshPages state op ∧ WholeCounts op)
        [.xmallocAlign 100 0x10000, .xmallocAlign 50 0, .xfree 0x10000] emptyHeap = some state ∧
      state.live = [0x10080] ∧ FreshRun state.heap ⟨0x20000, 2⟩ ∧ FreshRun state.heap ⟨0x20000, 1⟩ := by
    refine ⟨(runLabels heapStep (fun state op => FreshPages state op ∧ WholeCounts op)
        [.xmallocAlign 100 0x10000, .xmallocAlign 50 0, .xfree 0x10000] emptyHeap).get (by decide +kernel),
      (Option.some_get _).symm, ?_, ?_, ?_⟩ <;> decide +kernel
  obtain ⟨state, run, live, two, one⟩ := runs
  obtain ⟨align, calloc, array⟩ :=
    requests_suffice_iff (Reach.of_runLabels (.start emptyHeap_empty) run) 0x20000
  exact ⟨state, run, live, align 5000 (.inr two), calloc 3 40 (.inr one), array 8 10 (.inr one)⟩

/-- One page is returned for 16 TiB. -/
theorem truncated_request_short :
    ∃ state, Reach EmptyHeap HeapStep (fun state op => FreshPages state op ∧ WholeCounts op) state ∧
      Answer state.heap (2 ^ 44) 0x10000 ∧
      ¬Suffices state.live (2 ^ 44) (fun _ _ => True) (xmallocAlign state.heap (2 ^ 44) 0x10000) := by
  have answer : Answer emptyHeap.heap (2 ^ 44) 0x10000 := .inr (by decide +kernel)
  refine ⟨emptyHeap, .start emptyHeap_empty, answer, fun enough => ?_⟩
  rcases (emptyHeap_empty.settled.xmallocAlign_suffices nofun answer).mp enough with
    ⟨_, counted⟩ | ⟨null, _⟩ | ⟨_, few⟩
  · exact absurd counted (by decide +kernel)
  · exact absurd null (by decide)
  · exact absurd few (by decide +kernel)

end Stardust.Xmalloc
