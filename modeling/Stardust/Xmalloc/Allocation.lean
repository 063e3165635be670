import Stardust.Xmalloc.Tiles

/-! # What `xmalloc_align` does to the heap

`Obtained` is what a successful request leaves: one more block in use, and every
other block in use untouched. -/
set_option autoImplicit false
namespace Stardust.Xmalloc

open Stardust.Lib
open Stardust.Mm (pageSize isBulk)

/-! ## Sizes -/

theorem alignUp_eq {size align : Nat} (positive : 0 < align) (fits : size + align ≤ 2 ^ 64) :
    alignUp size align = (size + align - 1) - (size + align - 1) % align := by
  have sum : ulongSub (ulongAdd size align) 1 = size + align - 1 := by
    unfold ulongSub ulongAdd
    omega
  rw [alignUp, sum]

theorem alignUp_mod (size align : Nat) : alignUp size align % align = 0 := by
  unfold alignUp
  exact Nat.sub_mod_eq_zero_of_mod_eq (Nat.mod_mod _ _).symm

/-- The header-inclusive size of a request does not wrap. -/
def NoWrap (asize : Nat) : Prop := asize + 31 < 2 ^ 64

theorem requestSize_bounds {asize : Nat} (noWrap : NoWrap asize) :
    requestSize asize % 8 = 0 ∧ asize + 24 ≤ requestSize asize ∧ requestSize asize < 2 ^ 64 := by
  unfold NoWrap at noWrap
  have sum : ulongAdd asize headerSize = asize + 24 := ulongAdd_eq (by simp only [headerSize]; omega)
  have value : requestSize asize = (asize + 31) - (asize + 31) % 8 := by
    rw [requestSize, sum, alignUp_eq (by decide) (by omega)]
    rfl
  rw [value]
  omega

/-- The pages that `xmalloc_whole_pages` asks for, as it counts them. -/
def wholePages (asize : Nat) : Nat := alignUp (requestSize asize) pageSize / pageSize

/-- The pages that the request takes if it takes any. -/
def requestPages (asize : Nat) : Nat :=
  if pageSize ≤ requestSize asize then (intOfUlong (wholePages asize)).toNat else 1

/-- `allocate_pages` is not asked for fewer pages than were counted: the count
fits its `int` parameter, or becomes one that it crashes on. -/
def NotTruncated (asize : Nat) : Prop :=
  wholePages asize < 2 ^ 31 ∨ intOfUlong (wholePages asize) ≤ 0

theorem wholePages_large {asize : Nat} (noWrap : NoWrap asize) (some : 0 < wholePages asize) :
    asize + 24 ≤ alignUp (requestSize asize) pageSize := by
  obtain ⟨_, large, fits⟩ := requestSize_bounds noWrap
  simp only [wholePages, alignUp, ulongSub, ulongAdd, pageSize] at some ⊢
  omega

theorem wholePages_mul (asize : Nat) :
    alignUp (requestSize asize) pageSize = wholePages asize * pageSize :=
  (Nat.div_mul_cancel (Nat.dvd_of_mod_eq_zero (alignUp_mod _ _))).symm

theorem wholePages_pos {asize : Nat} (positive : 0 < intOfUlong (wholePages asize)) :
    0 < wholePages asize := by
  by_contra zero
  have isZero : wholePages asize = 0 := by omega
  rw [isZero] at positive
  exact absurd positive (by decide)

section Allocation
variable {heap : Heap} {g : Blocks}

/-- One more block `a` is in use, and the others in use are as they were. -/
structure Obtained (heap : Heap) (g : Blocks) (a : Nat) (after : Heap) (h : Blocks) : Prop where
  inv : HeapInv after h
  busy : h.busy = []
  live : h.live = a :: g.live
  freelist : after.freelist = heap.freelist
  kept : ∀ b ∈ g.live, after.mem b = heap.mem b ∧ h.size b = g.size b

/-! ## Handing out a detached block -/

theorem publish_apply (mem : Mem) (a size w : Nat) (outside : w < a ∨ a + 24 ≤ w) :
    mem.publish a size w = mem w := by
  have first : w ≠ a := by omega
  have second : w ≠ a + 8 := by omega
  have third : w ≠ a + 8 + 8 := by omega
  simp [Mem.publish, Mem.store, first, second, third]

theorem publish_header (mem : Mem) (a size : Nat) : mem.publish a size a = size ∧
    mem.publish a size (node a) = 0 ∧ mem.publish a size (node a + 8) = 0 := by
  have notPrev : a ≠ a + 8 + 8 := by omega
  simp [Mem.publish, Mem.store, node, notPrev]

/-- The header of a detached block is written, and the block is in use. -/
theorem HeapInv.handOut (inv : HeapInv heap g) {a size : Nat} (busy : g.busy = [a])
    (header : HeaderOk size (g.size a)) :
    Obtained heap g a { heap with mem := heap.mem.publish a size }
      { g with live := a :: g.live, busy := [] } := by
  have here : a ∈ g.busy := by simp [busy]
  have owned : a ∈ g.live ∨ a ∈ g.busy ∨ a ∈ g.free := Or.inr (Or.inl here)
  obtain ⟨_, _, _, _, _, large, _⟩ := inv.locate owned
  obtain ⟨first, next, prev⟩ := publish_header heap.mem a size
  have written : HeapInv { heap with mem := heap.mem.publish a size } g := by
    refine inv.write fun w elsewhere => publish_apply heap.mem a size w ?_
    by_contra within
    exact elsewhere (Or.inl ⟨a, here, by omega⟩)
  have word : HeaderOk (heap.mem.publish a size a) (g.size a) := by
    rw [first]
    exact header
  refine ⟨written.publish busy word next prev, rfl, rfl, rfl, ?_⟩
  intro b live
  refine ⟨publish_apply heap.mem a size b ?_, rfl⟩
  have different : b ≠ a := by
    rintro rfl
    exact (inv.busy_not_free here).2 live
  obtain ⟨_, _, _, _, _, largeB, _⟩ := inv.locate (Or.inl live)
  have apart := inv.blocks_apart (Or.inl live) owned different
  omega

theorem Blocks.split_size (g : Blocks) {base a s : Nat} {xs ys : List Nat} (positive : 0 < s) :
    (g.split base a s xs ys).size a = s ∧ (g.split base a s xs ys).size (a + s) = g.size a - s := by
  have apart : s ≠ 0 := Nat.ne_of_gt positive
  simp [Blocks.split, apart]

/-- A block that is not at hand is neither of the two that a split makes. -/
theorem HeapInv.split_other {base a s : Nat} {xs ys : List Nat} (cut : HeapInv heap (g.split base a s xs ys))
    {b : Nat} (other : b ∈ g.live ∨ b ∈ g.free) :
    b ≠ a ∧ b ≠ a + s ∧ (g.split base a s xs ys).size b = g.size b := by
  have apart : ∀ c ∈ [a + s, a], b ≠ c := by
    rintro c made rfl
    rcases other with live | free
    · exact (cut.live_not_busy live).1 made
    · exact (cut.free_not_busy free).1 made
  have first := apart a (by simp)
  have second := apart (a + s) (by simp)
  exact ⟨first, second, by simp [Blocks.split, first, second]⟩

theorem HeapInv.maybeSplit (inv : HeapInv heap g) {run : Run} (held : run ∈ heap.held)
    (single : run.count = 1) {a size : Nat} (busy : g.busy = [a]) (member : a ∈ g.tiles run.base)
    (least : 24 ≤ size) (aligned : size % 8 = 0) (fits : size ≤ g.size a)
    (above : ∀ b ∈ g.free, samePage b a → a + g.size a ≠ b) :
    ∃ after h, maybeSplit heap a size (g.size a) = .ok after ∧ Obtained heap g a after h ∧
      after.mem a = h.size a ∧ size ≤ h.size a := by
  have bounds := (inv.tiled run held).bounds member
  have limits := inv.runs run held
  have bytes : run.stop = run.base + 4096 := by
    rw [Run.stop, Run.bytes, single]
    rfl
  have sizedA := inv.sized run held a member
  have leftover : ulongSub (g.size a) size = g.size a - size := ulongSub_eq fits (by omega)
  have small : ∀ s, s ≤ 4096 → s % 8 = 0 → HeaderOk s s := by
    intro s bound _
    rcases Nat.lt_or_ge s 4096 with less | equal
    · exact Or.inl ⟨less, rfl⟩
    · have same : s = 4096 := by omega
      rw [same]
      exact Or.inr ⟨Nat.le_refl _, rfl, rfl⟩
  by_cases room : 2 * headerSize ≤ g.size a - size
  · simp only [headerSize] at room
    obtain ⟨xs, ys, tiles⟩ := List.append_of_mem member
    have cut := inv.split held single tiles busy least aligned (by omega)
    obtain ⟨sizeA, sizeNew⟩ := @Blocks.split_size g run.base a size xs ys (by omega)
    have newBusy : a + size ∈ (g.split run.base a size xs ys).busy := by simp [Blocks.split]
    have oldBusy : a ∈ (g.split run.base a size xs ys).busy := by simp [Blocks.split]
    -- the size of the new block is written inside it
    have sized : HeapInv { heap with mem := heap.mem.store (a + size) (g.size a - size) }
        (g.split run.base a size xs ys) := by
      refine cut.write fun w elsewhere => ?_
      have different : w ≠ a + size := by
        rintro rfl
        exact elsewhere (Or.inl ⟨a + size, newBusy, by omega⟩)
      simp [Mem.store, different]
    have keptFree : ∀ b ∈ g.free, (g.split run.base a size xs ys).size b = g.size b ∧
        (a + size ≤ b ∨ b + g.size b ≤ a) := by
      intro b free
      obtain ⟨different, _, sizeB⟩ := cut.split_other (Or.inr free)
      have apart := cut.blocks_apart (Or.inr (Or.inl oldBusy)) (Or.inr (Or.inr free)) different.symm
      rw [sizeA, sizeB] at apart
      exact ⟨sizeB, apart⟩
    have onePage : samePage (a + size) a := by
      have base := limits.2.1
      simp only [pageSize] at base
      unfold samePage pageSize
      omega
    obtain ⟨linkedMem, linkRun, linked, linkedSizes⟩ := @HeapInv.link _ _ sized (a + size) [a] rfl
      (by rw [sizeNew]; simp [Mem.store])
      (by rw [sizeNew]; unfold pageSize; omega)
      (fun b free page => by
        obtain ⟨sizeB, apart⟩ := keptFree b free
        obtain ⟨_, _, _, _, _, large, _⟩ := inv.locate (Or.inr (Or.inr free))
        rw [sizeB]
        omega)
      (fun b free page => by
        rw [sizeNew]
        have neighbour := above b free (page.trans onePage)
        omega)
    have handed := @HeapInv.handOut _ _ linked a size rfl
      (by simp only [sizeA]; exact small size (by omega) aligned)
    refine ⟨{ heap with mem := linkedMem.publish a size }, _, ?_, ⟨handed.inv, rfl, rfl, rfl, ?_⟩,
      ?_, Nat.le_of_eq sizeA.symm⟩
    · have extra : ulongAdd a size = a + size := ulongAdd_eq (by omega)
      have large : 2 * headerSize ≤ g.size a - size := by
        simp only [headerSize]
        omega
      simp only [Xmalloc.maybeSplit, leftover, if_pos large, extra]
      simp only at linkRun
      rw [linkRun]
      rfl
    · intro b live
      obtain ⟨mem, size'⟩ := handed.kept b live
      obtain ⟨_, notNew, sizeB⟩ := cut.split_other (Or.inl live)
      refine ⟨mem.trans ((linkedSizes b (Or.inl live)).trans ?_), sizeB⟩
      simp [Mem.store, notNew]
    · exact (publish_header linkedMem a size).1.trans sizeA.symm
  · have handed := inv.handOut busy (small (g.size a) (by omega) sizedA.1)
    refine ⟨_, _, ?_, handed, (publish_header heap.mem a (g.size a)).1, fits⟩
    simp only [Xmalloc.maybeSplit, leftover, if_neg room]

/-! ## The search of `freelist` -/

theorem listEntry_node {a : Nat} (fits : a + 8 < 2 ^ 64) : listEntry (node a) = a := by
  unfold listEntry node
  rw [ulongSub_eq (by omega) fits]
  omega

theorem HeapInv.node_fits (inv : HeapInv heap g) {a : Nat}
    (owned : a ∈ g.live ∨ a ∈ g.busy ∨ a ∈ g.free) : a + 24 < 2 ^ 64 := by
  obtain ⟨run, held, _, _, high, large, _⟩ := inv.locate owned
  have limit := (inv.runs run held).2.2.2
  omega

/-- The links lead from the head, and from every entry, to the next entry. -/
theorem HeapInv.follow (inv : HeapInv heap g) {pre post : List Nat} {a : Nat}
    (split : g.free = pre ++ a :: post) :
    heap.mem (node a) = (post.map node).headD heap.freelist ∧ node a ≠ heap.freelist ∧
      listEntry (node a) = a := by
  have list := inv.list
  rw [split, List.map_append, List.map_cons] at list
  have free : a ∈ g.free := by simp [split]
  refine ⟨list.next_member, ?_, listEntry_node ?_⟩
  · intro same
    refine (List.nodup_cons.mp inv.list.nodup).1 ?_
    rw [← same]
    exact mem_map_node.mpr free
  · have fits := inv.node_fits (Or.inr (Or.inr free))
    omega

theorem HeapInv.findEntry (inv : HeapInv heap g) (size : Nat) {fuel : Nat} {pre rest : List Nat}
    (split : g.free = pre ++ rest) (enough : rest.length < fuel) :
    ∃ found, findEntry heap.mem heap.freelist size fuel ((rest.map node).headD heap.freelist) =
        .ok found ∧ ∀ i, found = some i → i ∈ g.free ∧ size ≤ g.size i := by
  induction rest generalizing fuel pre with
  | nil =>
    obtain ⟨fuel, rfl⟩ := Nat.exists_eq_succ_of_ne_zero (Nat.ne_of_gt enough)
    refine ⟨none, ?_, nofun⟩
    simp [Xmalloc.findEntry]
  | cons i post ih =>
    obtain ⟨fuel, rfl⟩ := Nat.exists_eq_succ_of_ne_zero (Nat.ne_of_gt (Nat.zero_lt_of_lt enough))
    obtain ⟨next, notHead, entry⟩ := inv.follow split
    have free : i ∈ g.free := by simp [split]
    have header := inv.freeHeader i free
    rw [List.length_cons] at enough
    simp only [List.map_cons, List.headD_cons, Xmalloc.findEntry, if_neg notHead, entry, header]
    by_cases short : g.size i < size
    · rw [if_pos short, next]
      have longer : g.free = (pre ++ [i]) ++ post := by simp [split]
      exact ih longer (by omega)
    · rw [if_neg short]
      refine ⟨some i, rfl, fun j same => ?_⟩
      cases same
      exact ⟨free, by omega⟩

/-! ## The whole request -/

/-- The block `a` serves a request for `asize` bytes, unless its page count was
truncated. -/
structure Served (heap : Heap) (g : Blocks) (asize a : Nat) (after : Heap) (h : Blocks) : Prop
    extends Obtained heap g a after h where
  large : NotTruncated asize → after.mem a = h.size a ∧ asize + 24 ≤ h.size a

theorem allocatePages_ok (heap : Heap) {n : Int} {page : Nat} (positive : 0 < n) (some : page ≠ 0) :
    allocatePages heap n page = .ok (heap.take ⟨page, n.toNat⟩, page) := by
  rw [allocatePages, if_neg (by omega), if_neg some]

theorem HeapInv.xmallocNewPage (inv : HeapInv heap g) (busy : g.busy = []) {size page : Nat}
    (least : 24 ≤ size) (aligned : size % 8 = 0) (fits : size ≤ pageSize)
    (answer : page = 0 ∨ FreshRun heap ⟨page, 1⟩) :
    xmallocNewPage heap size page = .error .crash ∨
      ∃ a after h, xmallocNewPage heap size page = .ok (after, a + 24) ∧
        Obtained heap g a after h ∧ after.mem a = h.size a ∧ size ≤ h.size a := by
  by_cases none : page = 0
  · subst none
    exact Or.inl rfl
  have fresh := answer.resolve_left none
  have taken := inv.take fresh busy
  have sizePage : (g.takeRun ⟨page, 1⟩).size page = pageSize := by
    simp [Blocks.takeRun, Run.bytes]
  have tilesPage : page ∈ (g.takeRun ⟨page, 1⟩).tiles page := by simp [Blocks.takeRun]
  have isBusy : page ∈ (g.takeRun ⟨page, 1⟩).busy := by simp [Blocks.takeRun]
  have newRun : ⟨page, 1⟩ ∈ (heap.take ⟨page, 1⟩).held := List.mem_cons_self ..
  have fitsPage : size ≤ (g.takeRun ⟨page, 1⟩).size page := sizePage ▸ fits
  obtain ⟨after, h, run, obtained, exact, enough⟩ := taken.maybeSplit newRun rfl rfl tilesPage least
    aligned fitsPage fun b _ same => by
      rw [sizePage]
      unfold samePage pageSize at same
      unfold pageSize
      omega
  rw [sizePage] at run
  refine Or.inr ⟨page, after, h, ?_, ⟨obtained.inv, obtained.busy, obtained.live,
    obtained.freelist, fun b live => ?_⟩, exact, enough⟩
  · have taking : allocatePages heap 1 page = .ok (heap.take ⟨page, 1⟩, page) :=
      allocatePages_ok heap (by decide) none
    simp only [Xmalloc.xmallocNewPage, taking, Halt.ok_bind, if_neg none, run, headerSize]
  · have different : b ≠ page := by
      rintro rfl
      exact (taken.live_not_busy live).1 isBusy
    obtain ⟨mem, size'⟩ := obtained.kept b live
    exact ⟨mem, size'.trans (by simp [Blocks.takeRun, different])⟩

/-- A fresh run handed out as one block. -/
theorem HeapInv.handOutRun (inv : HeapInv heap g) (busy : g.busy = []) {n page word : Nat}
    (fresh : FreshRun heap ⟨page, n⟩) (header : HeaderOk word (n * pageSize)) :
    ∃ h, Obtained heap g page { heap.take ⟨page, n⟩ with mem := heap.mem.publish page word } h ∧
      h.size page = n * pageSize := by
  have taken := inv.take fresh busy
  have sizePage : (g.takeRun ⟨page, n⟩).size page = n * pageSize := by
    simp [Blocks.takeRun, Run.bytes]
  have isBusy : page ∈ (g.takeRun ⟨page, n⟩).busy := by simp [Blocks.takeRun]
  have obtained := taken.handOut rfl (sizePage.symm ▸ header)
  refine ⟨_, ⟨obtained.inv, obtained.busy, obtained.live, obtained.freelist, fun b live => ?_⟩,
    sizePage⟩
  have different : b ≠ page := by
    rintro rfl
    exact (taken.live_not_busy live).1 isBusy
  obtain ⟨mem, size'⟩ := obtained.kept b live
  exact ⟨mem, size'.trans (by simp [Blocks.takeRun, different])⟩

theorem HeapInv.xmallocWholePages (inv : HeapInv heap g) (busy : g.busy = []) {asize page : Nat}
    (noWrap : NoWrap asize) (large : pageSize ≤ requestSize asize)
    (answer : page = 0 ∨ FreshRun heap ⟨page, requestPages asize⟩) :
    xmallocWholePages heap (requestSize asize) page = .error .crash ∨
      xmallocWholePages heap (requestSize asize) page = .ok (heap, 0) ∨
      ∃ a after h, xmallocWholePages heap (requestSize asize) page = .ok (after, a + 24) ∧
        Served heap g asize a after h := by
  have pages : requestPages asize = (intOfUlong (wholePages asize)).toNat := if_pos large
  have whole := wholePages_mul asize
  have counts : wholePages asize * pageSize / pageSize = wholePages asize :=
    Nat.mul_div_cancel _ (by decide)
  rw [pages] at answer
  simp only [Xmalloc.xmallocWholePages, whole, counts]
  by_cases positive : 0 < intOfUlong (wholePages asize)
  swap
  · refine Or.inl ?_
    have crashes : allocatePages heap (intOfUlong (wholePages asize)) page = .error .crash :=
      if_pos (by omega)
    rw [crashes, Halt.error_bind]
  by_cases none : page = 0
  · subst none
    by_cases bulk : isBulk (intOfUlong (wholePages asize)).toNat
    · refine Or.inr (Or.inl ?_)
      have null : allocatePages heap (intOfUlong (wholePages asize)) 0 = .ok (heap, 0) := by
        rw [allocatePages, if_neg (by omega), if_pos rfl, if_pos bulk]
      rw [null, Halt.ok_bind]
      rfl
    · refine Or.inl ?_
      have crashes : allocatePages heap (intOfUlong (wholePages asize)) 0 = .error .crash := by
        rw [allocatePages, if_neg (by omega), if_pos rfl, if_neg bulk]
      rw [crashes, Halt.error_bind]
  refine Or.inr (Or.inr ?_)
  have counted := wholePages_pos positive
  have enough := wholePages_large noWrap counted
  have header : HeaderOk (wholePages asize * pageSize)
      ((intOfUlong (wholePages asize)).toNat * pageSize) := by
    refine Or.inr ⟨Nat.le_mul_of_pos_left pageSize counted, Nat.mul_mod_left .., ?_⟩
    rw [counts]
  obtain ⟨h, obtained, size⟩ := inv.handOutRun busy (answer.resolve_left none) header
  refine ⟨page, _, h, ?_, obtained, fun exact => ?_⟩
  · rw [allocatePages_ok heap positive none, Halt.ok_bind]
    exact if_neg none
  · have small : wholePages asize < 2 ^ 31 := exact.resolve_right (by omega)
    have value : (intOfUlong (wholePages asize)).toNat = wholePages asize := by
      rw [intOfUlong_eq small, Int.toNat_natCast]
    rw [size, value, ← whole]
    exact ⟨(publish_header heap.mem page _).1, enough⟩

/-- A request crashes, or returns `NULL` with nothing changed, or obtains a block. -/
theorem HeapInv.xmallocAlign (inv : HeapInv heap g) (busy : g.busy = []) {asize page : Nat}
    (noWrap : NoWrap asize) (answer : page = 0 ∨ FreshRun heap ⟨page, requestPages asize⟩) :
    xmallocAlign heap asize page = .error .crash ∨
      xmallocAlign heap asize page = .ok (heap, 0) ∨
      ∃ a after h, xmallocAlign heap asize page = .ok (after, a + 24) ∧
        Served heap g asize a after h := by
  obtain ⟨aligned, least, _⟩ := requestSize_bounds noWrap
  by_cases large : pageSize ≤ requestSize asize
  · simp only [Xmalloc.xmallocAlign, if_pos large]
    exact inv.xmallocWholePages busy noWrap large answer
  have onePage : requestPages asize = 1 := if_neg large
  rw [onePage] at answer
  obtain ⟨found, search, suits⟩ := inv.findEntry (requestSize asize) (List.nil_append _).symm
    inv.free_length
  have start : heap.mem heap.freelist = (g.free.map node).headD heap.freelist := inv.list.next_head
  rw [← start] at search
  simp only [Xmalloc.xmallocAlign, if_neg large, search, Halt.ok_bind]
  cases found with
  | none =>
    rcases inv.xmallocNewPage busy (by omega) aligned (by omega) answer with crash | served
    · exact Or.inl crash
    · obtain ⟨a, after, h, run, obtained, exact, enough⟩ := served
      exact Or.inr (Or.inr ⟨a, after, h, run, obtained, fun _ => ⟨exact, by omega⟩⟩)
  | some i =>
    obtain ⟨free, fits⟩ := suits i rfl
    obtain ⟨pre, post, split⟩ := List.append_of_mem free
    obtain ⟨unlinked, sizes⟩ := inv.unlink split
    obtain ⟨run, held, member⟩ := (inv.owned i).mp (Or.inr (Or.inr free))
    have small := inv.broken i free
    have single := inv.singlePage held member (by unfold pageSize at small ⊢; omega)
    have isBusy : i :: g.busy = [i] := by rw [busy]
    have kept : ∀ b ∈ pre ++ post, b ∈ g.free := by
      intro b inside
      rw [split]
      rcases List.mem_append.mp inside with before | after
      · exact List.mem_append_left _ before
      · exact List.mem_append_right _ (List.mem_cons_of_mem i after)
    obtain ⟨after, h, splitRun, obtained, exact, enough⟩ := unlinked.maybeSplit held single isBusy
      member (show 24 ≤ requestSize asize by omega) aligned fits
      fun b inside page => inv.separate i free b (kept b inside) page.symm
    refine Or.inr (Or.inr ⟨i, after, h, ?_, ⟨obtained.inv, obtained.busy, obtained.live,
      obtained.freelist, fun b live => ?_⟩, fun _ => ⟨exact, ?_⟩⟩)
    · have block : heap.mem.listDel (node i) i = g.size i :=
        (sizes i (Or.inr (Or.inr free))).trans (inv.freeHeader i free)
      simp only [block, splitRun, Halt.ok_bind, headerSize]
    · obtain ⟨mem, size⟩ := obtained.kept b live
      exact ⟨mem.trans (sizes b (Or.inl live)), size⟩
    · omega

end Allocation

end Stardust.Xmalloc
