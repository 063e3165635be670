import Stardust.Xmalloc.HeapRuns

/-! # Freeing a block once, and twice

A live block passes the checks of `xfree`, and what the loop joins to a whole page starts
where the page does. -/
set_option autoImplicit false
namespace Stardust.Xmalloc

open Stardust.Lib
open Stardust.Mm (pageSize)

/-! ## The traps of `xfree` -/

/-- `xfree` of any block in use returns, and finds the header on the page of the pointer. -/
def TrapFree (state : HeapRun) : Prop := ∀ hdr ∈ state.live,
  samePage (hdr + headerSize) hdr ∧ ∃ after, xfree state.heap (hdr + headerSize) = .ok after

/-- The traps of `xfree` are not reached, as long as no request wraps and no page count is
cut off. -/
theorem heapRun_trapFree {state : HeapRun}
    (reached : Reach EmptyHeap HeapStep (fun state op => FreshPages state op ∧ WholeCounts op)
      state) :
    TrapFree state := by
  obtain ⟨g, settled, _⟩ := heapRun_settled reached
  intro hdr owned
  have live : hdr ∈ g.live := settled.live ▸ owned
  obtain ⟨after, _, run, _⟩ := settled.inv.xfree live settled.busy
  exact ⟨settled.inv.header_page (Or.inl live), after, run⟩

/-- A block without bytes, two neighbours, and the first freed. -/
def trapScript : List HeapOp :=
  [.xmallocAlign 0 0x10000, .xmallocAlign 100 0, .xmallocAlign 8 0, .xfree 0x10018]

theorem heapRun_trapFree_script :
    ∃ state, runLabels heapStep (fun state op => FreshPages state op ∧ WholeCounts op) trapScript
        emptyHeap = some state ∧ TrapFree state := by
  have runs : (runLabels heapStep (fun state op => FreshPages state op ∧ WholeCounts op) trapScript
      emptyHeap).isSome := by decide +kernel
  obtain ⟨state, run⟩ := Option.isSome_iff_exists.mp runs
  exact ⟨state, run, heapRun_trapFree (Reach.of_runLabels (.start emptyHeap_empty) run)⟩

/-- The block at `0x10000` is one page long, and its owner, who asked for 16 TiB, writes
`0xfe0` to a word of the next page, where the header of `0x11040` is. -/
def overrunScript : List HeapOp :=
  [.xmallocAlign (2 ^ 44) 0x10000, .xmallocAlign 8 0x11000, .xmallocAlign 8 0, .xmallocAlign 8 0,
    .xfree 0x11020, .write 0x10000 0x11040 0xfe0]

/-- The neighbour below is 32 bytes long, and joined with the block that is freed it makes
a page that starts at `0x11020`. -/
theorem truncated_count_traps :
    ∃ state, Reach EmptyHeap HeapStep FreshPages state ∧ ¬TrapFree state := by
  have runs : ∃ state, runLabels heapStep FreshPages overrunScript emptyHeap = some state ∧
      0x11040 ∈ state.live ∧ (xfree state.heap (0x11040 + headerSize)).toOption = none := by
    refine ⟨(runLabels heapStep FreshPages overrunScript emptyHeap).get (by decide +kernel),
      (Option.some_get _).symm, ?_, ?_⟩
    · decide +kernel
    · decide +kernel
  obtain ⟨state, run, live, traps⟩ := runs
  refine ⟨state, Reach.of_runLabels (.start emptyHeap_empty) run, fun free => ?_⟩
  obtain ⟨_, after, returns⟩ := free 0x11040 live
  rw [returns] at traps
  exact Option.some_ne_none after traps

/-! ## How far the freed block grows -/

/-- The free block `i` ends where `hdr` begins. -/
def Below (g : Blocks) (hdr i : Nat) : Prop := samePage i hdr ∧ i + g.size i = hdr

/-- The free block `i` begins where `hdr` ends. -/
def Above (g : Blocks) (hdr i : Nat) : Prop := samePage i hdr ∧ i = hdr + g.size hdr

/-- The block `last` of the view `h` is what the loop has made of `hdr`, with the entries in
`rest` to come: it takes in the free neighbours that `hdr` had, and no more, and what is left
of the header of `hdr` looks like a block in use. -/
structure Span (g : Blocks) (hdr : Nat) (mem : Mem) (h : Blocks) (last : Nat) (rest : List Nat) :
    Prop where
  entries : ∀ c ∈ rest, c ∈ g.free ∧ h.size c = g.size c
  low : last = hdr ∨ last ∈ g.free ∧ Below g hdr last
  lowDone : ∀ i ∈ g.free, Below g hdr i → i ∈ rest ∨ last = i
  high : last + h.size last = hdr + g.size hdr ∨
    ∃ i ∈ g.free, Above g hdr i ∧ last + h.size last = i + g.size i
  highDone : ∀ i ∈ g.free, Above g hdr i → i ∈ rest ∨ last + h.size last = i + g.size i
  next : mem (node hdr) = 0
  prev : mem (node hdr + 8) = 0
  stale : last = hdr ∨ 24 ≤ mem hdr ∧ hdr + mem hdr ≤ last + h.size last

section Span
variable {heap : Heap} {g h k : Blocks} {mem : Mem} {hdr last i : Nat} {pre post : List Nat}

theorem Span.page {rest : List Nat} (span : Span g hdr mem h last rest) : samePage last hdr := by
  rcases span.low with rfl | ⟨_, below⟩
  · rfl
  · exact below.1

/-- The block reaches from `hdr` or below it to its end or above it. -/
theorem Span.covers (inv : HeapInv heap g) (live : hdr ∈ g.live) {rest : List Nat}
    (span : Span g hdr mem h last rest) :
    last ≤ hdr ∧ hdr + 24 ≤ hdr + g.size hdr ∧ hdr + g.size hdr ≤ last + h.size last := by
  obtain ⟨_, _, _, _, _, large, _⟩ := inv.locate (Or.inl live)
  refine ⟨?_, by omega, ?_⟩
  · rcases span.low with rfl | ⟨_, below⟩
    · exact Nat.le_refl _
    · exact below.2 ▸ Nat.le_add_right ..
  · rcases span.high with same | ⟨i, _, above, same⟩
    · exact Nat.le_of_eq same.symm
    · rw [same, ← above.2]
      exact Nat.le_add_right ..

/-- The words of the old header lie in the detached block. -/
theorem Span.writable (inv : HeapInv heap g) (live : hdr ∈ g.live) {rest : List Nat}
    (span : Span g hdr mem h last rest) (busy : h.busy = [last]) {w : Nat}
    (inside : hdr ≤ w ∧ w < hdr + 24) : Writable h w := by
  obtain ⟨low, header, high⟩ := span.covers inv live
  exact .inl ⟨last, by simp [busy], by omega, by omega⟩

/-- An entry that does not adjoin is passed. -/
theorem Span.pass (inv : HeapInv heap g) (live : hdr ∈ g.live)
    (span : Span g hdr mem h last (i :: post)) (apart : NotAdjacent h.size i last)
    (size : k.size = h.size) : Span g hdr mem k last post := by
  obtain ⟨free, sizeI⟩ := span.entries i (List.mem_cons_self ..)
  obtain ⟨low, header, high⟩ := span.covers inv live
  refine ⟨fun c member => ?_, span.low, fun j freeJ below => ?_, ?_, fun j freeJ above => ?_,
    span.next, span.prev, ?_⟩
  · rw [size]
    exact span.entries c (List.mem_cons_of_mem i member)
  · rcases span.lowDone j freeJ below with member | same
    · rcases List.mem_cons.mp member with rfl | later
      · -- the entry would adjoin `hdr`, or the block below it that was taken in
        right
        rcases span.low with rfl | ⟨freeLast, belowLast⟩
        · exact absurd (sizeI ▸ below.2) (apart below.1).1
        · by_contra different
          have separate := inv.blocks_apart (Or.inr (Or.inr freeLast)) (Or.inr (Or.inr freeJ)) different
          have endsLast := belowLast.2
          have endsJ := below.2
          obtain ⟨_, _, _, _, _, large, _⟩ := inv.locate (Or.inr (Or.inr freeJ))
          obtain ⟨_, _, _, _, _, large', _⟩ := inv.locate (Or.inr (Or.inr freeLast))
          omega
      · exact .inl later
    · exact .inr same
  · rw [size]
    exact span.high
  · rw [size]
    rcases span.highDone j freeJ above with member | same
    · rcases List.mem_cons.mp member with rfl | later
      · right
        rcases span.high with ends | ⟨other, _, aboveOther, ends⟩
        · exact absurd (ends.trans above.2.symm) (apart (above.1.trans span.page.symm)).2
        · have isOther : other = j := aboveOther.2.trans above.2.symm
          exact isOther ▸ ends
      · exact .inl later
    · exact .inr same
  · rw [size]
    exact span.stale

/-- Unlinking an entry and writing a size keeps the links that are left of the old header. -/
theorem Span.links_kept (inv : HeapInv heap g) (live : hdr ∈ g.live) {rest : List Nat}
    (span : Span g hdr mem h last rest) (current : HeapInv { heap with mem := mem } h)
    (busy : h.busy = [last]) (free : i ∈ h.free) (size : Nat) {a : Nat} (target : a = i ∨ a = last) :
    (mem.listDel (node i)).store a size (node hdr) = 0 ∧
      (mem.listDel (node i)).store a size (node hdr + 8) = 0 := by
  have kept : ∀ w, hdr ≤ w ∧ w < hdr + 24 → w ≠ a → (mem.listDel (node i)).store a size w = mem w := by
    intro w inside different
    have written := current.unlink_frame free (span.writable inv live busy inside)
    simp [Mem.store, different, written]
  have notLink : ∀ w, hdr < w ∧ w < hdr + 24 → w ≠ a := by
    rintro w inside rfl
    rcases target with rfl | rfl
    · exact current.header_not_writable (Or.inr free) ⟨Nat.le_refl _, by omega⟩
        (span.writable inv live busy (by omega))
    · have low := (span.covers inv live).1
      omega
  simp only [node]
  constructor
  · rw [kept _ (by omega) (notLink _ (by omega))]
    exact span.next
  · rw [kept _ (by omega) (notLink _ (by omega))]
    exact span.prev

/-- The entry below is taken in. -/
theorem Span.lower (inv : HeapInv heap g) (live : hdr ∈ g.live)
    (merging : Merging { heap with mem := mem } h last pre) (split : h.free = pre ++ i :: post)
    (span : Span g hdr mem h last (i :: post)) (page : samePage i last)
    (adjacent : i + h.size i = last) (size : k.size i = h.size i + h.size last)
    (kept : ∀ c, c ≠ i → k.size c = h.size c) :
    Span g hdr ((mem.listDel (node i)).store i (h.size i + h.size last)) k i post := by
  obtain ⟨free, sizeI⟩ := span.entries i (List.mem_cons_self ..)
  have listed : i ∈ h.free := by simp [split]
  obtain ⟨low, header, high⟩ := span.covers inv live
  obtain ⟨_, _, _, _, _, large, _⟩ := inv.locate (Or.inr (Or.inr free))
  -- two free neighbours would have been joined before
  have isHdr : last = hdr := by
    rcases span.low with same | ⟨freeLast, _⟩
    · exact same
    · exact absurd (sizeI ▸ adjacent) (inv.separate i free last freeLast page)
  have below : Below g hdr i := ⟨page.trans span.page, by rw [← sizeI, adjacent, isHdr]⟩
  obtain ⟨next, prev⟩ := span.links_kept inv live merging.inv merging.busy listed
    (h.size i + h.size last) (Or.inl rfl)
  have different : hdr ≠ i := by
    have ends := below.2
    omega
  have nodup : (i :: post).Nodup := by
    have once : h.free.Nodup := List.nodup_iff_count_le_one.mpr fun a => by
      have count := merging.inv.once a
      omega
    rw [split] at once
    exact (List.nodup_append.mp once).2.1
  have word : (mem.listDel (node i)).store i (h.size i + h.size last) hdr = h.size last := by
    have written := merging.inv.unlink_frame listed
      (span.writable inv live merging.busy (show hdr ≤ hdr ∧ hdr < hdr + 24 by omega))
    have header := merging.header
    simp only [Mem.store, Function.update_of_ne different]
    exact written.trans (isHdr ▸ header)
  refine ⟨fun c member => ?_, .inr ⟨free, below⟩, fun j freeJ belowJ => ?_, ?_,
    fun j freeJ above => ?_, next, prev, ?_⟩
  · obtain ⟨freeC, sizeC⟩ := span.entries c (List.mem_cons_of_mem i member)
    have other : c ≠ i := fun same => (List.nodup_cons.mp nodup).1 (same ▸ member)
    exact ⟨freeC, (kept c other).trans sizeC⟩
  · rcases span.lowDone j freeJ belowJ with member | same
    · rcases List.mem_cons.mp member with rfl | later
      · exact .inr rfl
      · exact .inl later
    · have ends := belowJ.2
      obtain ⟨_, _, _, _, _, largeJ, _⟩ := inv.locate (Or.inr (Or.inr freeJ))
      omega
  · rw [size, ← Nat.add_assoc, adjacent]
    exact span.high
  · rw [size, ← Nat.add_assoc, adjacent]
    rcases span.highDone j freeJ above with member | same
    · rcases List.mem_cons.mp member with rfl | later
      · have begins := above.2
        omega
      · exact .inl later
    · exact .inr same
  · right
    rw [word, size, ← Nat.add_assoc, adjacent]
    omega

/-- The entry above is taken in. -/
theorem Span.upper (inv : HeapInv heap g) (live : hdr ∈ g.live)
    (merging : Merging { heap with mem := mem } h last pre) (split : h.free = pre ++ i :: post)
    (span : Span g hdr mem h last (i :: post)) (page : samePage i last)
    (adjacent : last + h.size last = i) (size : k.size last = h.size last + h.size i)
    (kept : ∀ c, c ≠ last → k.size c = h.size c) :
    Span g hdr ((mem.listDel (node i)).store last (h.size last + h.size i)) k last post := by
  obtain ⟨free, sizeI⟩ := span.entries i (List.mem_cons_self ..)
  have listed : i ∈ h.free := by simp [split]
  obtain ⟨low, header, high⟩ := span.covers inv live
  obtain ⟨_, _, _, _, _, large, _⟩ := inv.locate (Or.inr (Or.inr free))
  have above : Above g hdr i := by
    refine ⟨page.trans span.page, ?_⟩
    rcases span.high with ends | ⟨other, freeOther, aboveOther, ends⟩
    · exact adjacent.symm.trans ends
    · exact absurd (ends.symm.trans adjacent) (inv.separate other freeOther i free
        (aboveOther.1.trans (page.trans span.page).symm))
  have begins := above.2
  obtain ⟨next, prev⟩ := span.links_kept inv live merging.inv merging.busy listed
    (h.size last + h.size i) (Or.inr rfl)
  refine ⟨fun c member => ?_, span.low, fun j freeJ below => ?_, .inr ⟨i, free, above, ?_⟩,
    fun j freeJ aboveJ => ?_, next, prev, ?_⟩
  · obtain ⟨freeC, sizeC⟩ := span.entries c (List.mem_cons_of_mem i member)
    have inList : c ∈ h.free := by simp [split, member]
    have other : c ≠ last := by
      rintro rfl
      exact (merging.inv.free_not_busy inList).1 (by simp [merging.busy])
    exact ⟨freeC, (kept c other).trans sizeC⟩
  · rcases span.lowDone j freeJ below with member | same
    · rcases List.mem_cons.mp member with rfl | later
      · have ends := below.2
        omega
      · exact .inl later
    · exact .inr same
  · rw [size, ← Nat.add_assoc, adjacent, sizeI]
  · rw [size, ← Nat.add_assoc, adjacent, sizeI]
    exact .inr (by rw [aboveJ.2, begins])
  · rcases span.stale with same | ⟨least, most⟩
    · exact .inl same
    · by_cases isHdr : last = hdr
      · exact .inl isHdr
      · right
        have written := merging.inv.unlink_frame listed
          (span.writable inv live merging.busy (show hdr ≤ hdr ∧ hdr < hdr + 24 by omega))
        have word : (mem.listDel (node i)).store last (h.size last + h.size i) hdr = mem hdr := by
          simp only [Mem.store, Function.update_of_ne (Ne.symm isHdr)]
          exact written
        rw [word, size]
        omega

theorem Span.start (inv : HeapInv heap g) (live : hdr ∈ g.live) :
    Span g hdr heap.mem (g.retired hdr) hdr g.free := by
  obtain ⟨_, next, prev⟩ := inv.liveHeader hdr live
  exact ⟨fun c member => ⟨member, rfl⟩, .inl rfl, fun i free _ => .inl free, .inl rfl,
    fun i free _ => .inl free, next, prev, .inl rfl⟩

/-- The call on a small block, with what the loop has taken in. -/
theorem HeapInv.xfree_span (inv : HeapInv heap g) (busy : g.busy = []) (live : hdr ∈ g.live)
    (small : heap.mem hdr < pageSize) :
    ∃ mem last h, Xmalloc.xfree heap (hdr + 24) = releaseMerged { heap with mem := mem } last ∧
      Merging { heap with mem := mem } h last h.free ∧ Span g hdr mem h last [] := by
  refine inv.xfree_loop live busy small (Span g hdr) ?_ (Span.start inv live)
  intro mem h k last i pre post turn merging split same turned span
  cases turned with
  | pass apart size => exact span.pass inv live apart size
  | lower page adjacent size kept => exact span.lower inv live merging split page adjacent size kept
  | upper page adjacent size kept => exact span.upper inv live merging split page adjacent size kept

end Span

/-! ## The second call -/

/-- `xfree` leaves the list, the sizes of the blocks and the page allocator as they were. -/
structure Unchanged (before after : Heap) (live : List Nat) : Prop where
  list : ∀ free : List Nat, IsList (links before.mem) before.freelist (free.map node) →
    IsList (links after.mem) after.freelist (free.map node)
  sizes : ∀ free : List Nat, IsList (links before.mem) before.freelist (free.map node) →
    ∀ b ∈ live ++ free, after.mem b = before.mem b
  held : after.held = before.held
  given : after.given = before.given

/-- The block is freed, and freed again without effect. -/
def DoubleFreeHarmless (state : HeapRun) (hdr : Nat) : Prop :=
  ∃ once twice, xfree state.heap (hdr + headerSize) = .ok once ∧
    xfree once (hdr + headerSize) = .ok twice ∧ Unchanged once twice (state.live.erase hdr)

/-- The block, smaller than a page, has no neighbour below it among the entries, and does not
make up a page with the one above it. -/
def StaysApart (heap : Heap) (free : List Nat) (hdr : Nat) : Prop :=
  heap.mem hdr < pageSize ∧ ∀ i ∈ free, samePage i hdr →
    i + heap.mem i ≠ hdr ∧ (hdr + heap.mem hdr = i → heap.mem hdr + heap.mem i ≠ pageSize)

/-- Once freed, the block is an entry of `freelist` under its own header. -/
def StaysOnList (heap : Heap) (hdr : Nat) : Prop :=
  ∃ free, IsList (links heap.mem) heap.freelist (free.map node) ∧ StaysApart heap free hdr

section Twice
variable {heap twice : Heap} {g h : Blocks} {hdr : Nat} {live : List Nat}

theorem listAdd_ok {mem linked : Mem} {new head : Nat} (run : mem.listAdd new head = .ok linked) :
    linked = mem.insertBetween new head (mem head) := by
  unfold Mem.listAdd at run
  dsimp only at run
  split at run
  · contradiction
  · exact (Except.ok.inj run).symm

/-- A header that is linked is seen. -/
theorem xfree_linked (fits : hdr + 24 < 2 ^ 64) (page : samePage (hdr + 24) hdr)
    (prev : heap.mem (node hdr + 8) ≠ 0) : xfree heap (hdr + 24) = .ok heap := by
  have header : ulongSub (hdr + 24) headerSize = hdr := ulongSub_header fits
  have notNull : ¬hdr + 24 = 0 := by omega
  simp only [xfree, header, if_neg notNull, if_neg (not_not.mpr page), if_pos (Or.inr prev)]

theorem HeapInv.staysOnList_iff (inv : HeapInv heap g) :
    StaysOnList heap hdr ↔ StaysApart heap g.free hdr := by
  constructor
  · rintro ⟨free, list, apart⟩
    have same : free.map node = g.free.map node := list.unique inv.list
    have entries : free = g.free := List.map_injective_iff.mpr (fun _ _ => Nat.add_right_cancel) same
    exact entries ▸ apart
  · intro apart
    exact ⟨g.free, inv.list, apart⟩

/-- The pages are given back once more. -/
theorem refree_large (fits : hdr + 24 < 2 ^ 64) (page : samePage (hdr + 24) hdr)
    (next : heap.mem (node hdr) = 0) (prev : heap.mem (node hdr + 8) = 0)
    (large : pageSize ≤ heap.mem hdr) (run : xfree heap (hdr + 24) = .ok twice) :
    ¬Unchanged heap twice live := by
  intro same
  rw [xfree_unlinked fits page next prev, if_pos large] at run
  cases Except.ok.inj run
  have longer := congrArg List.length same.given
  simp [Heap.give] at longer

/-- The loop passes over a list on which nothing adjoins the block. -/
theorem HeapInv.coalesceLoop_apart (inv : HeapInv heap g)
    (apart : ∀ i ∈ g.free, samePage i hdr → i + g.size i ≠ hdr ∧ hdr + heap.mem hdr ≠ i)
    (fits : hdr + heap.mem hdr < 2 ^ 64) {fuel tmp : Nat} {pre rest : List Nat}
    (split : g.free = pre ++ rest) (enough : rest.length < fuel)
    (cached : ∀ i post, rest = i :: post → tmp = (post.map node).headD heap.freelist) :
    coalesceLoop heap.freelist fuel heap.mem hdr ((rest.map node).headD heap.freelist) tmp =
      .ok (heap.mem, hdr) := by
  induction rest generalizing fuel tmp pre with
  | nil =>
    obtain ⟨fuel, rfl⟩ := Nat.exists_eq_succ_of_ne_zero (Nat.ne_of_gt enough)
    simp [coalesceLoop]
  | cons i post ih =>
    obtain ⟨fuel, rfl⟩ := Nat.exists_eq_succ_of_ne_zero (Nat.ne_of_gt (Nat.zero_lt_of_lt enough))
    obtain ⟨_, notHead, entry⟩ := inv.follow split
    have free : i ∈ g.free := by simp [split]
    have longer : g.free = (pre ++ [i]) ++ post := by simp [split]
    have passes : coalesce heap.mem hdr i = (heap.mem, hdr) := by
      by_cases page : samePage i hdr
      · obtain ⟨run, held, _, _, stop, _⟩ := inv.locate (Or.inr (Or.inr free))
        have limit := (inv.runs run held).2.2.2
        have below : ulongAdd i (heap.mem i) = i + g.size i := by
          rw [inv.freeHeader i free, ulongAdd_eq (by omega)]
        have above : ulongAdd hdr (heap.mem hdr) = hdr + heap.mem hdr := ulongAdd_eq fits
        obtain ⟨offBelow, offAbove⟩ := apart i free page
        simp only [coalesce, if_pos page, below, if_neg offBelow, above, if_neg offAbove]
      · exact if_neg page
    have successor := cached i post rfl
    rw [List.length_cons] at enough
    simp only [List.map_cons, List.headD_cons, coalesceLoop, if_neg notHead, entry, passes]
    rw [successor]
    refine ih longer (by omega) fun j later isNext => ?_
    subst isNext
    exact (inv.follow longer).1

/-- A stale header that adjoins no free block is put on the list. -/
theorem HeapInv.refree_small (inv : HeapInv heap g) (fits : hdr + 24 < 2 ^ 64)
    (page : samePage (hdr + 24) hdr) (next : heap.mem (node hdr) = 0)
    (prev : heap.mem (node hdr + 8) = 0) (small : heap.mem hdr < pageSize)
    (limit : hdr + heap.mem hdr < 2 ^ 64)
    (apart : ∀ i ∈ g.free, samePage i hdr → i + g.size i ≠ hdr ∧ hdr + heap.mem hdr ≠ i)
    (off : node hdr ∉ heap.freelist :: g.free.map node)
    (run : Xmalloc.xfree heap (hdr + 24) = .ok twice) : ¬Unchanged heap twice live := by
  intro same
  have first : heap.mem heap.freelist = (g.free.map node).headD heap.freelist := inv.list.next_head
  have loop := inv.coalesceLoop_apart apart limit (List.nil_append g.free).symm inv.free_length
    fun i post isFirst => by
      show heap.mem (heap.mem heap.freelist) = _
      rw [first, isFirst]
      exact (inv.follow (isFirst.trans (List.nil_append _).symm)).1
  rw [← first] at loop
  rw [xfree_unlinked fits page next prev, if_neg (Nat.not_le.mpr small), loop, Halt.ok_bind,
    releaseMerged, if_neg (Nat.ne_of_lt small)] at run
  obtain ⟨linked, added, returns⟩ := Halt.bind_eq_ok.mp run
  cases Except.ok.inj returns
  -- the head leads to the stale header now, and led to an entry before
  have head : linked heap.freelist = node hdr := by
    rw [listAdd_ok added]
    simp [Mem.insertBetween, Mem.store]
  have list := (same.list g.free inv.list).next_head
  have member : linked heap.freelist ∈ heap.freelist :: g.free.map node := by
    have value : linked heap.freelist = (g.free.map node).headD heap.freelist := list
    rw [value]
    cases g.free <;> simp
  exact off (head ▸ member)

/-- What the first call leaves is found by the second, when the block stays on the list. -/
theorem HeapInv.freed_found (inv : HeapInv heap g) (busy : g.busy = []) (owned : hdr ∈ g.live)
    (static : heap.freelist ≠ 0) (word : heap.mem hdr = g.size hdr)
    (stays : StaysApart heap g.free hdr) :
    ∃ once, Xmalloc.xfree heap (hdr + 24) = .ok once ∧
      Xmalloc.xfree once (hdr + 24) = .ok once := by
  obtain ⟨small, apart⟩ := stays
  obtain ⟨mem, last, h, run, merging, span⟩ := inv.xfree_span busy owned small
  have isHdr : last = hdr := by
    rcases span.low with same | ⟨free, below⟩
    · exact same
    · exact absurd (inv.freeHeader last free ▸ below.2) (apart last free below.1).1
  subst isHdr
  have part : h.size last ≠ pageSize := by
    rcases span.high with ends | ⟨i, free, above, ends⟩
    · omega
    · have most := (apart i free above.1).2 (by rw [word, above.2])
      rw [inv.freeHeader i free, word] at most
      have begins := above.2
      omega
  obtain ⟨linked, added, released, _, _⟩ := merging.linkBack part
  refine ⟨_, run.trans released, ?_⟩
  apply xfree_linked (inv.node_fits (Or.inl owned)) (inv.header_page (Or.inl owned))
  -- the header's `prev` is the head of the list
  have outside := inv.head_outside (Or.inl owned)
  obtain ⟨_, _, _, _, _, large, _⟩ := inv.locate (Or.inl owned)
  have apartHead : last + 8 + 8 ≠ heap.freelist := by omega
  show linked (node last + 8) ≠ 0
  rw [listAdd_ok added]
  simpa [Mem.insertBetween, Mem.store, apartHead] using static

/-- The header that is left is no entry of the list. -/
theorem Span.off_list (inv : HeapInv heap g) (owned : hdr ∈ g.live) {mem : Mem} {last : Nat}
    (merging : Merging { heap with mem := mem } h last h.free) (span : Span g hdr mem h last []) :
    node hdr ∉ heap.freelist :: h.free.map node := by
  obtain ⟨low, header, high⟩ := span.covers inv owned
  intro listed
  rcases List.mem_cons.mp listed with same | entry
  · have busy : last ∈ h.busy := by simp [merging.busy]
    have outside := merging.inv.head_outside (Or.inr (Or.inl busy))
    simp only [node] at same outside
    omega
  · have free := mem_map_node.mp entry
    obtain ⟨_, _, _, _, _, large, _⟩ := merging.inv.locate (Or.inr (Or.inr free))
    have apart := merging.away free
    omega

/-- The block of a header that is lost begins below it, or is a page. -/
theorem Span.ne_header (inv : HeapInv heap g) (owned : hdr ∈ g.live)
    (word : heap.mem hdr = g.size hdr) (small : heap.mem hdr < pageSize)
    (leaves : ¬StaysApart heap g.free hdr) {mem : Mem} {last : Nat}
    (span : Span g hdr mem h last []) (part : h.size last ≠ pageSize) : last ≠ hdr := by
  rintro rfl
  refine leaves ⟨small, fun i free here => ⟨fun ends => ?_, fun begins total => part ?_⟩⟩
  · rw [inv.freeHeader i free] at ends
    rcases span.lowDone i free ⟨here, ends⟩ with impossible | same
    · exact nomatch impossible
    · exact (inv.live_not_busy owned).2 (same ▸ free)
  · rw [word] at begins total
    rw [inv.freeHeader i free] at total
    rcases span.highDone i free ⟨here, begins.symm⟩ with impossible | ends
    · exact nomatch impossible
    · omega

/-- The first call has given the page back, with the header in it. -/
theorem HeapInv.refree_page (inv : HeapInv heap g) (owned : hdr ∈ g.live) {mem : Mem} {last : Nat}
    (merging : Merging { heap with mem := mem } h last h.free) (span : Span g hdr mem h last [])
    (whole : h.size last = pageSize)
    (second : Xmalloc.xfree (Heap.give { heap with mem := mem } ⟨last, 1⟩) (hdr + 24) = .ok twice) :
    ¬Unchanged (Heap.give { heap with mem := mem } ⟨last, 1⟩) twice live := by
  have fits := inv.node_fits (Or.inl owned)
  have page := inv.header_page (Or.inl owned)
  obtain ⟨low, header, high⟩ := span.covers inv owned
  obtain ⟨tile, held, single, member⟩ := merging.single
  obtain ⟨_, start, finish, limit, aligned, _⟩ := merging.inv.tile_limits held single member
  have given := (merging.giveBack whole).2
  by_cases isHdr : last = hdr
  · subst isHdr
    exact refree_large fits page span.next span.prev
      (Nat.le_of_eq (whole.symm.trans merging.header.symm)) second
  · obtain ⟨least, most⟩ := span.stale.resolve_left isHdr
    have offList := span.off_list inv owned merging
    refine given.refree_small fits page span.next span.prev ?_ ?_ ?_ offList second
    · show mem hdr < pageSize
      omega
    · show hdr + mem hdr < 2 ^ 64
      omega
    · intro i free here
      have apart := merging.away free
      exfalso
      -- the block is the page
      unfold samePage at here
      simp only [pageSize] at whole here aligned start finish limit
      obtain ⟨_, _, _, _, _, large, _⟩ := given.locate (Or.inr (Or.inr free))
      simp only at large
      omega

/-- The first call has put a block on the list that has the header inside it. -/
theorem HeapInv.refree_inside (inv : HeapInv heap g) (owned : hdr ∈ g.live) {mem linked : Mem}
    {last : Nat} (merging : Merging { heap with mem := mem } h last h.free)
    (span : Span g hdr mem h last []) (part : h.size last ≠ pageSize) (notHdr : last ≠ hdr)
    (added : mem.listAdd (node last) heap.freelist = .ok linked)
    (second : Xmalloc.xfree { heap with mem := linked } (hdr + 24) = .ok twice) :
    ¬Unchanged { heap with mem := linked } twice live := by
  have fits := inv.node_fits (Or.inl owned)
  have page := inv.header_page (Or.inl owned)
  obtain ⟨low, header, high⟩ := span.covers inv owned
  obtain ⟨tile, held, single, member⟩ := merging.single
  obtain ⟨_, start, finish, limit, aligned, _⟩ := merging.inv.tile_limits held single member
  obtain ⟨least, most⟩ := span.stale.resolve_left notHdr
  have above : last + 24 ≤ hdr := by
    obtain ⟨free, below⟩ := span.low.resolve_left notHdr
    obtain ⟨_, _, _, _, _, large, _⟩ := inv.locate (Or.inr (Or.inr free))
    have ends := below.2
    omega
  have inBlock : ∀ w, hdr ≤ w ∧ w < hdr + 24 → linked w = mem w := by
    intro w inside
    rw [listAdd_ok added]
    exact merging.inv.link_frame (span.writable inv owned merging.busy inside) (Or.inr (by omega))
  have stale : linked hdr = mem hdr := inBlock hdr (by omega)
  have next : linked (node hdr) = 0 := by
    rw [inBlock _ (by simp only [node]; omega)]
    exact span.next
  have prev : linked (node hdr + 8) = 0 := by
    rw [inBlock _ (by simp only [node]; omega)]
    exact span.prev
  obtain ⟨_, again, _, listed, _⟩ := merging.linkBack part
  cases Except.ok.inj (added.symm.trans again)
  refine listed.refree_small fits page next prev ?_ ?_ ?_ ?_ second
  · show linked hdr < pageSize
    omega
  · show hdr + linked hdr < 2 ^ 64
    omega
  · intro i free here
    show i + h.size i ≠ hdr ∧ hdr + linked hdr ≠ i
    rw [stale]
    rcases List.mem_cons.mp free with rfl | other
    · omega
    · have apart := (merging.passed i other (here.trans span.page.symm)).2
      have separate := merging.away other
      omega
  · have offList := span.off_list inv owned merging
    intro member
    rcases List.mem_cons.mp member with same | entry
    · exact offList (same ▸ List.mem_cons_self ..)
    · rcases List.mem_cons.mp (mem_map_node.mp entry) with same | free
      · exact notHdr same.symm
      · exact offList (List.mem_cons_of_mem _ (mem_map_node.mpr free))

/-- Neither a free neighbour below nor a whole page: the other ways to lose the header. -/
theorem HeapInv.freed_stale (inv : HeapInv heap g) (busy : g.busy = []) (owned : hdr ∈ g.live)
    (word : heap.mem hdr = g.size hdr) (leaves : ¬StaysApart heap g.free hdr) {once : Heap}
    (first : Xmalloc.xfree heap (hdr + 24) = .ok once)
    (second : Xmalloc.xfree once (hdr + 24) = .ok twice) :
    ¬Unchanged once twice live := by
  by_cases large : pageSize ≤ heap.mem hdr
  · obtain ⟨_, next, prev⟩ := inv.liveHeader hdr owned
    rw [inv.xfree_eq owned, if_pos large] at first
    cases Except.ok.inj first
    exact refree_large (inv.node_fits (Or.inl owned)) (inv.header_page (Or.inl owned)) next prev large
      second
  · have small := Nat.not_le.mp large
    obtain ⟨mem, last, h, run, merging, span⟩ := inv.xfree_span busy owned small
    have released := run.symm.trans first
    by_cases whole : h.size last = pageSize
    · cases Except.ok.inj (released.symm.trans (merging.giveBack whole).1)
      exact inv.refree_page owned merging span whole second
    · obtain ⟨linked, added, linkedBack, _, _⟩ := merging.linkBack whole
      cases Except.ok.inj (released.symm.trans linkedBack)
      have notHdr := span.ne_header inv owned word small leaves whole
      exact inv.refree_inside owned merging span whole notHdr added second

theorem Unchanged.refl : Unchanged heap heap live :=
  ⟨fun _ list => list, fun _ _ _ _ => rfl, rfl, rfl⟩

end Twice

/-- A second `xfree` of a block that was just freed does nothing exactly when the first has
left its header on `freelist`, which as a static variable does not lie at address 0. -/
theorem doubleFree_iff {state : HeapRun}
    (reached : Reach EmptyHeap HeapStep (fun state op => FreshPages state op ∧ WholeCounts op) state)
    (static : state.heap.freelist ≠ 0) {hdr : Nat} (owned : hdr ∈ state.live) :
    DoubleFreeHarmless state hdr ↔ StaysOnList state.heap hdr := by
  obtain ⟨g, settled, exact⟩ := heapRun_settled reached
  have live : hdr ∈ g.live := settled.live ▸ owned
  have word := exact hdr live
  rw [settled.inv.staysOnList_iff]
  constructor
  · rintro ⟨once, twice, first, second, same⟩
    by_contra leaves
    exact settled.inv.freed_stale settled.busy live word leaves first second same
  · intro stays
    obtain ⟨once, first, second⟩ := settled.inv.freed_found settled.busy live static word stays
    exact ⟨once, once, first, second, .refl⟩

/-- The neighbour above the first block is in use. -/
theorem doubleFree_iff_neighbour :
    ∃ state, runLabels heapStep (fun state op => FreshPages state op ∧ WholeCounts op)
        [.xmallocAlign 100 0x10000, .xmallocAlign 8 0] emptyHeap = some state ∧
      StaysOnList state.heap 0x10000 ∧ DoubleFreeHarmless state 0x10000 := by
  have runs : ∃ state, runLabels heapStep (fun state op => FreshPages state op ∧ WholeCounts op)
        [.xmallocAlign 100 0x10000, .xmallocAlign 8 0] emptyHeap = some state ∧
      state.heap.freelist ≠ 0 ∧ 0x10000 ∈ state.live ∧ StaysOnList state.heap 0x10000 := by
    refine ⟨(runLabels heapStep (fun state op => FreshPages state op ∧ WholeCounts op)
        [.xmallocAlign 100 0x10000, .xmallocAlign 8 0] emptyHeap).get (by decide +kernel),
      (Option.some_get _).symm, by decide +kernel, by decide +kernel, [0x100a0], ⟨⟨?_, ?_⟩, ?_⟩, ?_⟩
    · decide +kernel
    · constructor <;> decide +kernel
    · decide +kernel
    · unfold StaysApart
      decide +kernel
  obtain ⟨state, run, static, owned, stays⟩ := runs
  have reached := Reach.of_runLabels (.start emptyHeap_empty) run
  exact ⟨state, run, stays, (doubleFree_iff reached static owned).mpr stays⟩

/-- The only block of a page: the first `xfree` gives the page back, and the second gives it
back again. -/
theorem only_block_freed_twice :
    ∃ state, Reach EmptyHeap HeapStep (fun state op => FreshPages state op ∧ WholeCounts op) state ∧
      state.heap.freelist ≠ 0 ∧ 0x10000 ∈ state.live ∧ ¬DoubleFreeHarmless state 0x10000 := by
  have runs : ∃ state, runLabels heapStep (fun state op => FreshPages state op ∧ WholeCounts op)
        [.xmallocAlign 100 0x10000] emptyHeap = some state ∧
      state.heap.freelist ≠ 0 ∧ 0x10000 ∈ state.live ∧
      ∀ once ∈ (xfree state.heap (0x10000 + headerSize)).toOption,
        ∀ twice ∈ (xfree once (0x10000 + headerSize)).toOption,
          twice.given.length ≠ once.given.length := by
    refine ⟨(runLabels heapStep (fun state op => FreshPages state op ∧ WholeCounts op)
        [.xmallocAlign 100 0x10000] emptyHeap).get (by decide +kernel),
      (Option.some_get _).symm, by decide +kernel, by decide +kernel, ?_⟩
    decide +kernel
  obtain ⟨state, run, static, owned, grows⟩ := runs
  refine ⟨state, Reach.of_runLabels (.start emptyHeap_empty) run, static, owned, ?_⟩
  rintro ⟨once, twice, first, second, same⟩
  have more := grows once (by rw [first]; rfl) twice (by rw [second]; rfl)
  exact more (congrArg List.length same.given)

end Stardust.Xmalloc
