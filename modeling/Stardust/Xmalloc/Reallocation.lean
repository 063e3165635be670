import Stardust.Xmalloc.Freeing
import Stardust.Xmalloc.Requests

/-! # What `xrealloc` keeps

A request and a release write to headers and links only, never to a payload.  What is left
to chance when a block is moved is then whether the old payload was copied as a whole. -/
set_option autoImplicit false
namespace Stardust.Xmalloc

open Stardust.Lib
open Stardust.Mm (pageSize)

/-! ## Payloads that a call does not write to -/

section Frames
variable {heap after : Heap} {g h : Blocks} {mem : Mem} {a b i hdr w size : Nat}

/-- A word behind the header of a block is not a link of the list. -/
theorem HeapInv.body_not_link (inv : HeapInv heap g) (owned : b ∈ g.live ∨ b ∈ g.busy ∨ b ∈ g.free)
    (body : b + 24 ≤ w ∧ w < b + g.size b) {n : Nat}
    (known : n ∈ heap.freelist :: g.free.map node) : w ≠ n ∧ w ≠ n + 8 := by
  have outside := inv.head_outside owned
  rcases List.mem_cons.mp known with rfl | entry
  · omega
  · obtain ⟨c, free, rfl⟩ := List.mem_map.mp entry
    simp only [node]
    by_cases same : c = b
    · omega
    · obtain ⟨_, _, _, _, _, large, _⟩ := inv.locate (Or.inr (Or.inr free))
      have apart := inv.blocks_apart (Or.inr (Or.inr free)) owned same
      omega

theorem HeapInv.unlink_body (inv : HeapInv heap g) (owned : b ∈ g.live ∨ b ∈ g.busy ∨ b ∈ g.free)
    (body : b + 24 ≤ w ∧ w < b + g.size b) (free : i ∈ g.free) :
    heap.mem.listDel (node i) w = heap.mem w :=
  inv.unlink_apart free fun _ known => inv.body_not_link owned body known

theorem HeapInv.link_body (inv : HeapInv heap g) (owned : b ∈ g.live ∨ b ∈ g.busy ∨ b ∈ g.free)
    (body : b + 24 ≤ w ∧ w < b + g.size b) (outside : w < a ∨ a + 24 ≤ w)
    (run : heap.mem.listAdd (node a) heap.freelist = .ok mem) : mem w = heap.mem w := by
  rw [listAdd_ok run]
  exact inv.link_apart (fun _ known => inv.body_not_link owned body known) outside

/-- Bodies of two blocks, one of them the block at `a`. -/
theorem HeapInv.body_outside (inv : HeapInv heap g)
    (owned : b ∈ g.live ∨ b ∈ g.busy ∨ b ∈ g.free) (body : b + 24 ≤ w ∧ w < b + g.size b)
    (here : a ∈ g.live ∨ a ∈ g.busy ∨ a ∈ g.free) : w < a ∨ a + 24 ≤ w := by
  by_cases same : b = a
  · omega
  · obtain ⟨_, _, _, _, _, large, _⟩ := inv.locate here
    have apart := inv.blocks_apart owned here same
    omega

/-- `maybe_split` writes the header of the block it hands out, the header behind the cut, and
links. -/
theorem HeapInv.maybeSplit_body (inv : HeapInv heap g) (here : a ∈ g.busy) (fits : size ≤ g.size a)
    (run : Xmalloc.maybeSplit heap a size (g.size a) = .ok after)
    (owned : b ∈ g.live ∨ b ∈ g.busy ∨ b ∈ g.free) (body : b + 24 ≤ w ∧ w < b + g.size b)
    (beyond : w < a + size ∨ a + g.size a ≤ w) : after.mem w = heap.mem w := by
  have isBusy : a ∈ g.live ∨ a ∈ g.busy ∨ a ∈ g.free := Or.inr (Or.inl here)
  have outside := inv.body_outside owned body isBusy
  obtain ⟨tile, held, _, _, stop, _, _⟩ := inv.locate isBusy
  have limit := (inv.runs tile held).2.2.2
  have leftover : ulongSub (g.size a) size = g.size a - size := ulongSub_eq fits (by omega)
  have extra : ulongAdd a size = a + size := ulongAdd_eq (by omega)
  unfold Xmalloc.maybeSplit at run
  simp only [leftover, extra] at run
  split at run
  · next room =>
    simp only [headerSize] at room
    obtain ⟨linked, added, same⟩ := Halt.bind_eq_ok.mp run
    cases Except.ok.inj same
    have written : HeapInv { heap with mem := heap.mem.store (a + size) (g.size a - size) } g := by
      refine inv.write fun c elsewhere => ?_
      have different : c ≠ a + size := by
        rintro rfl
        exact elsewhere (Or.inl ⟨a, here, by omega⟩)
      simp [Mem.store, different]
    have cut : w ≠ a + size := by omega
    show linked.publish a size w = heap.mem w
    rw [publish_apply linked a size w outside,
      written.link_body owned body (by omega) added]
    simp [Mem.store, cut]
  · cases Except.ok.inj run
    exact publish_apply heap.mem a (g.size a) w outside

/-- What a request makes of the view: the block it hands out is detached, of `size` bytes,
and nothing has been written to a body. -/
structure Detached (heap : Heap) (g : Blocks) (a size : Nat) (middle : Heap) (h : Blocks) : Prop where
  inv : HeapInv middle h
  busy : a ∈ h.busy
  live : ∀ b ∈ g.live, b ∈ h.live ∧ h.size b = g.size b
  size : h.size a = size
  kept : ∀ b w, b ∈ g.live ∨ b = a → b + 24 ≤ w ∧ w < b + h.size b → middle.mem w = heap.mem w

theorem HeapInv.detach (inv : HeapInv heap g) (free : i ∈ g.free) :
    ∃ h, Detached heap g i (g.size i) { heap with mem := heap.mem.listDel (node i) } h ∧
      heap.mem.listDel (node i) i = g.size i := by
  obtain ⟨pre, post, split⟩ := List.append_of_mem free
  obtain ⟨unlinked, sizes⟩ := inv.unlink split
  refine ⟨_, ⟨unlinked, List.mem_cons_self .., fun b live => ⟨live, rfl⟩, rfl,
    fun b w known body => inv.unlink_body ?_ body free⟩,
    (sizes i (Or.inr (Or.inr free))).trans (inv.freeHeader i free)⟩
  rcases known with live | rfl
  · exact Or.inl live
  · exact Or.inr (Or.inr free)

theorem HeapInv.detachRun (inv : HeapInv heap g) (busy : g.busy = []) {run : Run}
    (fresh : FreshRun heap run) : ∃ h, Detached heap g run.base run.bytes (heap.take run) h := by
  have taken := inv.take fresh busy
  have here : run.base ∈ (g.takeRun run).busy := by simp [Blocks.takeRun]
  refine ⟨_, taken, here, fun b live => ⟨live, ?_⟩, by simp [Blocks.takeRun], fun _ _ _ _ => rfl⟩
  have different : b ≠ run.base := by
    rintro rfl
    exact (taken.live_not_busy live).1 here
  simp [Blocks.takeRun, different]

/-- A request writes to no payload of a block in use, nor to that of the block it returns. -/
theorem HeapInv.allocated_body (inv : HeapInv heap g) (busy : g.busy = []) {asize page p : Nat}
    (noWrap : NoWrap asize) (answer : Answer heap asize page)
    (allocated : Allocated heap asize page after p)
    (inside : (∃ b ∈ g.live, b + 24 ≤ w ∧ w < b + g.size b) ∨ p ≤ w ∧ w < p + asize) :
    after.mem w = heap.mem w := by
  have least := (requestSize_bounds noWrap).2.1
  -- what the split does not write to
  have splits : ∀ {middle : Heap} {k : Blocks} {c block : Nat}, Detached heap g c block middle k →
      requestSize asize ≤ block →
      Xmalloc.maybeSplit middle c (requestSize asize) block = .ok after → p = c + headerSize →
      after.mem w = heap.mem w := by
    intro middle k c block detached fits run place
    have isBusy : c ∈ k.live ∨ c ∈ k.busy ∨ c ∈ k.free := Or.inr (Or.inl detached.busy)
    have size := detached.size
    simp only [headerSize] at place
    rw [← size] at run fits
    rcases inside with ⟨b, live, body⟩ | body
    · obtain ⟨inUse, same⟩ := detached.live b live
      rw [← same] at body
      have different : b ≠ c := by
        rintro rfl
        exact (detached.inv.live_not_busy inUse).1 detached.busy
      have apart := detached.inv.blocks_apart (Or.inl inUse) isBusy different
      rw [detached.inv.maybeSplit_body detached.busy fits run (Or.inl inUse) body (by omega)]
      exact detached.kept b w (Or.inl live) body
    · have range : c + 24 ≤ w ∧ w < c + k.size c := by omega
      rw [detached.inv.maybeSplit_body detached.busy fits run isBusy range (by omega)]
      exact detached.kept c w (Or.inr rfl) range
  cases allocated with
  | null => rfl
  | entry fits split =>
    obtain ⟨free, large⟩ := inv.fits fits
    obtain ⟨k, detached, block⟩ := inv.detach free
    rw [block] at split
    exact splits detached large split rfl
  | newPage _ known small split =>
    have one : requestPages asize = 1 := if_neg (Nat.not_le.mpr small)
    have fresh := answer.resolve_left known
    rw [one] at fresh
    obtain ⟨k, detached⟩ := inv.detachRun busy fresh
    have bytes : Run.bytes ⟨page, 1⟩ = pageSize := Nat.one_mul pageSize
    rw [bytes] at detached
    exact splits detached (Nat.le_of_lt small) split rfl
  | wholePages _ known =>
    obtain ⟨k, detached⟩ := inv.detachRun busy (answer.resolve_left known)
    refine publish_apply heap.mem page _ w ?_
    rcases inside with ⟨b, live, body⟩ | body
    · obtain ⟨inUse, same⟩ := detached.live b live
      exact detached.inv.body_outside (Or.inl inUse) (same ▸ body) (Or.inr (Or.inl detached.busy))
    · simp only [headerSize] at body
      omega

/-- `xfree` writes to no payload of another block in use. -/
theorem HeapInv.xfree_body (inv : HeapInv heap g) (busy : g.busy = []) (live : hdr ∈ g.live)
    (run : Xmalloc.xfree heap (hdr + 24) = .ok after) (other : b ∈ g.live.erase hdr)
    (body : b + 24 ≤ w ∧ w < b + g.size b) : after.mem w = heap.mem w := by
  by_cases large : pageSize ≤ heap.mem hdr
  · rw [inv.xfree_eq live, if_pos large] at run
    cases Except.ok.inj run
    rfl
  obtain ⟨mem, last, h, loop, merging, inUse, size, kept⟩ := inv.xfree_loop live busy
    (Nat.not_le.mp large) (fun mem h _ _ => b ∈ h.live ∧ h.size b = g.size b ∧ mem w = heap.mem w)
    (fun mem h k last i pre post turn merging split same turned before => by
      obtain ⟨inUse, size, kept⟩ := before
      have sizeK := (same.kept b inUse).2
      refine ⟨same.live ▸ inUse, sizeK.trans size, ?_⟩
      have bodyH : b + 24 ≤ w ∧ w < b + h.size b := size ▸ body
      have free : i ∈ h.free := by simp [split]
      have unlinked := merging.inv.unlink_body (Or.inl inUse) bodyH free
      have store : ∀ {c value : Nat}, (c ∈ h.live ∨ c ∈ h.busy ∨ c ∈ h.free) →
          (mem.listDel (node i)).store c value w = heap.mem w := by
        intro c value owned
        have outside := merging.inv.body_outside (Or.inl inUse) bodyH owned
        have different : w ≠ c := by omega
        rw [Mem.store, Function.update_of_ne different]
        exact unlinked.trans kept
      cases turned with
      | pass => exact kept
      | lower => exact store (Or.inr (Or.inr free))
      | upper => exact store (Or.inr (Or.inl (by simp [merging.busy]))))
    ⟨other, rfl, rfl⟩
  rw [loop] at run
  rw [← size] at body
  by_cases whole : h.size last = pageSize
  · obtain ⟨released, _⟩ := merging.giveBack whole
    cases Except.ok.inj (released.symm.trans run)
    exact kept
  · obtain ⟨linked, added, released, _, _⟩ := merging.linkBack whole
    cases Except.ok.inj (released.symm.trans run)
    have isBusy : last ∈ h.busy := by simp [merging.busy]
    have outside := merging.inv.body_outside (Or.inl inUse) body (Or.inr (Or.inl isBusy))
    exact (merging.inv.link_body (Or.inl inUse) body outside added).trans kept

end Frames

/-! ## The old block -/

/-- The `n` bytes at `hdr` lie in a run that the heap holds, and meet no entry of `freelist`. -/
def InUse (heap : Heap) (hdr n : Nat) : Prop :=
  (∃ run ∈ heap.held, run.base ≤ hdr ∧ hdr + n ≤ run.stop) ∧
    ∃ free : List Nat, IsList (links heap.mem) heap.freelist (free.map node) ∧
      ∀ b ∈ free, Disjoint (Set.Ico hdr (hdr + n)) (Set.Ico b (b + heap.mem b))

section OldBlock
variable {heap after : Heap} {g : Blocks} {hdr n p : Nat}

theorem HeapInv.inUse (inv : HeapInv heap g) (live : hdr ∈ g.live) (word : heap.mem hdr = g.size hdr) :
    InUse heap hdr (heap.mem hdr) := by
  obtain ⟨run, held, _, base, stop, _⟩ := inv.locate (Or.inl live)
  rw [word]
  refine ⟨⟨run, held, base, stop⟩, g.free, inv.list, fun b free => ?_⟩
  have different : hdr ≠ b := fun same => (inv.live_not_busy live).2 (same ▸ free)
  rw [inv.freeHeader b free]
  exact disjoint_of_apart (inv.blocks_apart (Or.inl live) (Or.inr (Or.inr free)) different)

theorem HeapInv.run_nonempty (inv : HeapInv heap g) {run : Run} (held : run ∈ heap.held) :
    run.base < run.stop := by
  have positive := (inv.runs run held).2.2.1
  unfold Run.stop Run.bytes pageSize
  omega

/-- A run that was given back is gone. -/
theorem HeapInv.given_not_inUse (inv : HeapInv heap g) {run : Run} (held : run ∈ heap.held)
    (inside : run.base ≤ hdr ∧ hdr < run.stop) (some : 0 < n) : ¬InUse (heap.give run) hdr n := by
  rintro ⟨⟨other, remains, base, stop⟩, _⟩
  obtain ⟨different, old⟩ := inv.held_nodup.mem_erase_iff.mp remains
  exact different (inv.run_unique old held (w := hdr) ⟨base, by omega⟩ inside)

/-- After `xfree` the block is no longer there: it is part of an entry, or its run is gone. -/
theorem HeapInv.xfree_not_inUse (inv : HeapInv heap g) (busy : g.busy = []) (live : hdr ∈ g.live)
    (some : 0 < n) (run : Xmalloc.xfree heap (hdr + 24) = .ok after) : ¬InUse after hdr n := by
  by_cases large : pageSize ≤ heap.mem hdr
  · rw [inv.xfree_eq live, if_pos large] at run
    cases Except.ok.inj run
    have held := (inv.wholeRun live large).1
    exact inv.given_not_inUse held ⟨Nat.le_refl _, inv.run_nonempty held⟩ some
  obtain ⟨mem, last, h, loop, merging, span⟩ := inv.xfree_span busy live (Nat.not_le.mp large)
  rw [loop] at run
  obtain ⟨low, header, high⟩ := span.covers inv live
  by_cases whole : h.size last = pageSize
  · obtain ⟨released, _⟩ := merging.giveBack whole
    cases Except.ok.inj (released.symm.trans run)
    refine merging.inv.given_not_inUse (merging.wholePage whole).1 ⟨low, ?_⟩ some
    show hdr < last + Run.bytes ⟨last, 1⟩
    have bytes : Run.bytes ⟨last, 1⟩ = h.size last := (Nat.one_mul pageSize).trans whole.symm
    omega
  · obtain ⟨linked, added, released, listed, sizes⟩ := merging.linkBack whole
    cases Except.ok.inj (released.symm.trans run)
    rintro ⟨_, free, list, apart⟩
    have isFree : last ∈ free := by
      have entries := list.unique listed.list
      apply mem_map_node.mp
      rw [entries]
      exact List.mem_cons_self ..
    have word : linked last = h.size last := listed.freeHeader last (List.mem_cons_self ..)
    have inBlock : hdr ∈ Set.Ico hdr (hdr + n) := ⟨Nat.le_refl hdr, Nat.lt_add_of_pos_right some⟩
    have inEntry : hdr ∈ Set.Ico last (last + linked last) := ⟨low, by omega⟩
    exact Set.disjoint_left.mp (apart last isFree) inBlock inEntry

/-- `xfree` takes no pages. -/
theorem xfree_held (run : xfree heap p = .ok after) : ∀ run ∈ after.held, run ∈ heap.held := by
  have erased : ∀ run, ∀ r ∈ (heap.give run).held, r ∈ heap.held := fun run r =>
    List.mem_of_mem_erase
  unfold xfree at run
  dsimp only at run
  split at run
  · cases Except.ok.inj run
    exact fun _ => id
  split at run
  · cases run
  split at run
  · cases Except.ok.inj run
    exact fun _ => id
  split at run
  · cases Except.ok.inj run
    exact erased _
  obtain ⟨⟨mem, last⟩, _, run⟩ := Halt.bind_eq_ok.mp run
  dsimp only at run
  split at run
  · split at run
    · cases run
    · cases Except.ok.inj run
      exact erased _
  · obtain ⟨linked, _, run⟩ := Halt.bind_eq_ok.mp run
    cases Except.ok.inj run
    exact fun _ => id

end OldBlock

/-! ## What the caller keeps -/

/-- The call on the block `hdr` returns `size` bytes with what was in the block, and the old
block is gone exactly if they lie elsewhere; or it returns `NULL`, and the block is as it
was. -/
inductive Preserved (state : HeapRun) (hdr size : Nat) : Except Halt (Heap × Nat) → Prop
  | null {after : Heap} (inUse : InUse after hdr (state.heap.mem hdr))
      (same : ∀ w, hdr ≤ w → w < hdr + state.heap.mem hdr → after.mem w = state.heap.mem w) :
      Preserved state hdr size (.ok (after, 0))
  | block {after : Heap} {q : Nat} (some : q ≠ 0) (enough : Enough after (state.live.erase hdr) q size)
      (same : ∀ k < size, k + headerSize < state.heap.mem hdr →
        after.mem.byte (q + k) = state.heap.mem.byte (hdr + headerSize + k))
      (stays : InUse after hdr (state.heap.mem hdr) ↔ q = hdr + headerSize) :
      Preserved state hdr size (.ok (after, q))

/-- The `psize` of the call as it is compared with `size`. -/
def comparedSize (heap : Heap) (hdr : Nat) : Nat := ulongOfInt (payloadSize heap.mem hdr)

/-- Where the block for `size` bytes will lie. -/
def Lands (heap : Heap) (size page a : Nat) : Prop :=
  Fits heap size a ∨ (∀ i, ¬Fits heap size i) ∧ a = page

/-- A block that is large enough stays; another can be obtained, and the bytes from `psize`
on, which are not copied, happen to be there. -/
def CopiesAll (heap : Heap) (hdr size page : Nat) : Prop :=
  (size ≤ comparedSize heap hdr ∧ size + headerSize ≤ heap.mem hdr) ∨
    (¬size ≤ comparedSize heap hdr ∧ NoWrap size ∧ NotTruncated size ∧ ¬Refused heap size page ∧
      ∀ a, Lands heap size page a → ∀ k < size, comparedSize heap hdr ≤ k →
        k + headerSize < heap.mem hdr →
        heap.mem.byte (a + headerSize + k) = heap.mem.byte (hdr + headerSize + k))

theorem Lands.unique {heap : Heap} {size page a b : Nat} (left : Lands heap size page a)
    (right : Lands heap size page b) : a = b := by
  rcases left with fits | ⟨full, rfl⟩
  · rcases right with other | ⟨none, _⟩
    · exact fits.2.unique other.2
    · exact absurd fits (none a)
  · rcases right with other | ⟨_, rfl⟩
    · exact absurd other (full b)
    · rfl

theorem Allocated.lands {heap after : Heap} {size page p : Nat}
    (allocated : Allocated heap size page after p) (some : p ≠ 0) :
    ∃ a, p = a + headerSize ∧ Lands heap size page a := by
  cases allocated with
  | null => exact absurd rfl some
  | entry fits => exact ⟨_, rfl, .inl fits⟩
  | newPage full => exact ⟨page, rfl, .inr ⟨full, rfl⟩⟩
  | wholePages full => exact ⟨page, rfl, .inr ⟨full, rfl⟩⟩

section Outcome
variable {state : HeapRun} {g : Blocks} {call : Except Halt (Heap × Nat)} {hdr size page : Nat}

theorem Preserved.returns (kept : Preserved state hdr size call) :
    ∃ after q, call = .ok (after, q) ∧
      (q = 0 ∧ InUse after hdr (state.heap.mem hdr) ∨
        q ≠ 0 ∧ Enough after (state.live.erase hdr) q size ∧
          ∀ k < size, k + headerSize < state.heap.mem hdr →
            after.mem.byte (q + k) = state.heap.mem.byte (hdr + headerSize + k)) := by
  cases kept with
  | null inUse => exact ⟨_, 0, rfl, .inl ⟨rfl, inUse⟩⟩
  | block some enough same => exact ⟨_, _, rfl, .inr ⟨some, enough, same⟩⟩

/-- Below 2 GiB `psize` is the capacity of the block. -/
theorem comparedSize_eq {heap : Heap} (header : headerSize ≤ heap.mem hdr)
    (small : heap.mem hdr < 2 ^ 31 + headerSize) :
    comparedSize heap hdr = heap.mem hdr - headerSize := by
  simp only [headerSize] at *
  have capacity : ulongSub (heap.mem hdr) 24 = heap.mem hdr - 24 := ulongSub_eq header (by omega)
  simp only [comparedSize, payloadSize, headerSize, capacity]
  rw [intOfUlong_eq (by omega), ulongOfInt_natCast (by omega)]

/-- The block is large enough if it stays, unless `psize` says so by mistake. -/
theorem Settled.stays_iff (settled : Settled state g) (exact : Exact state g)
    (owned : hdr ∈ state.live) (claimed : size ≤ comparedSize state.heap hdr) :
    Preserved state hdr size (.ok (state.heap, hdr + headerSize)) ↔
      size + headerSize ≤ state.heap.mem hdr := by
  have inv := settled.inv
  have live : hdr ∈ g.live := settled.live ▸ owned
  have word := exact hdr live
  obtain ⟨_, _, _, _, _, least, _⟩ := inv.locate (Or.inl live)
  constructor
  · intro kept
    obtain ⟨after, q, same, result⟩ := kept.returns
    cases Except.ok.inj same
    rcases result with ⟨null, _⟩ | ⟨_, ⟨⟨run, held, base, stop⟩, _⟩, _⟩
    · simp at null
    by_contra short
    have big : ¬state.heap.mem hdr < 2 ^ 31 + headerSize := by
      intro small
      rw [comparedSize_eq (by simp only [headerSize]; omega) small] at claimed
      simp only [headerSize] at *
      omega
    -- a block of this size has the run to itself
    have large : pageSize ≤ state.heap.mem hdr := by
      simp only [headerSize, pageSize] at *
      omega
    obtain ⟨own, tiles⟩ := inv.wholeRun live large
    have tiled := inv.tiled _ own
    rw [tiles] at tiled
    have ends : hdr + g.size hdr = Run.stop ⟨hdr, _⟩ := tiled.2
    simp only [headerSize] at *
    have isRun := inv.run_unique held own (w := hdr + 24) ⟨base, by omega⟩
      ⟨Nat.le_add_right hdr 24, by omega⟩
    rw [isRun] at stop
    omega
  · intro room
    simp only [headerSize] at room
    refine .block (by simp) (inv.enough live (by omega) fun b other => ?_) (fun _ _ _ => rfl)
      ⟨fun _ => rfl, fun _ => inv.inUse live word⟩
    have old : b ∈ g.live := settled.live ▸ List.mem_of_mem_erase other
    exact ⟨old, exact b old⟩

/-- The bytes of the new block: those copied, and those that were there before the request. -/
theorem HeapInv.copied_byte {heap : Heap} (inv : HeapInv heap g) (busy : g.busy = [])
    (live : hdr ∈ g.live) (word : heap.mem hdr = g.size hdr) {a psize : Nat} {middle : Heap}
    (noWrap : NoWrap size) (answer : Answer heap size page)
    (allocated : Allocated heap size page middle (a + 24)) (alignedA : 8 ∣ a + 24) {j : Nat}
    (inside : j < size) (old : j + 24 < heap.mem hdr) :
    (middle.mem.memcpy (a + 24) (hdr + 24) psize).byte (a + 24 + j) =
      heap.mem.byte ((if j < psize then hdr else a) + 24 + j) := by
  have alignedHdr : 8 ∣ hdr + 24 := Nat.dvd_add (inv.aligned (Or.inl live)) (by decide)
  by_cases copies : j < psize
  · rw [byte_memcpy middle.mem alignedA alignedHdr copies, if_pos copies]
    have source : ∀ w, hdr + 24 ≤ w → w < hdr + 24 + (heap.mem hdr - 24) →
        middle.mem w = heap.mem w := fun w low high =>
      inv.allocated_body busy noWrap answer allocated (Or.inl ⟨hdr, live, low, by omega⟩)
    exact byte_congr alignedHdr source (by omega)
  · rw [byte_memcpy_behind middle.mem alignedA (Nat.le_of_not_lt copies), if_neg copies]
    exact byte_congr alignedA (fun w low high =>
      inv.allocated_body busy noWrap answer allocated (Or.inr ⟨low, high⟩)) inside

/-- The new block, and what has been copied to it. -/
theorem Settled.moved (settled : Settled state g) (exact : Exact state g)
    (owned : hdr ∈ state.live) {a psize : Nat} {middle : Heap} {h : Blocks}
    (noWrap : NoWrap size) (counted : NotTruncated size) (answer : Answer state.heap size page)
    (short : psize < size)
    (run : Xmalloc.xmallocAlign state.heap size page = .ok (middle, a + headerSize))
    (served : Served state.heap g size a middle h) :
    ∃ after, Xmalloc.xfree
        { middle with mem := middle.mem.memcpy (a + headerSize) (hdr + headerSize) psize }
        (hdr + headerSize) = .ok after ∧
      Enough after (state.live.erase hdr) (a + headerSize) size ∧
      ¬InUse after hdr (state.heap.mem hdr) ∧ a ≠ hdr ∧
      ∀ k < size, k + headerSize < state.heap.mem hdr →
        after.mem.byte (a + headerSize + k) =
          state.heap.mem.byte ((if k < psize then hdr else a) + headerSize + k) := by
  have inv := settled.inv
  have live : hdr ∈ g.live := settled.live ▸ owned
  have word := exact hdr live
  have isLive : a ∈ h.live := by simp [served.live]
  have stillLive : hdr ∈ h.live := by simp [served.live, live]
  obtain ⟨newWord, large⟩ := served.large counted
  obtain ⟨_, _, _, _, _, least, _⟩ := inv.locate (Or.inl live)
  have different : a ≠ hdr := by
    rintro rfl
    have once := served.inv.once a
    rw [served.live, List.count_cons_self] at once
    have here := List.count_pos_iff.mpr live
    omega
  have alignedA : 8 ∣ a + 24 := Nat.dvd_add (served.inv.aligned (Or.inl isLive)) (by decide)
  obtain ⟨copied, headers⟩ := served.inv.memcpy (p := hdr + 24) isLive
    (show 24 + psize ≤ h.size a by omega)
  obtain ⟨after, k, freed, released⟩ := copied.xfree stillLive served.busy
  have rest : h.live.erase hdr = a :: g.live.erase hdr := by
    rw [served.live, List.erase_cons_tail (by simpa using different)]
  have inRest : a ∈ h.live.erase hdr := by simp [rest]
  have final : a ∈ k.live := released.live ▸ inRest
  refine ⟨after, freed, released.inv.enough final ?_ fun b other => ?_, ?_, different,
    fun j inside old => ?_⟩
  · rw [(released.kept a inRest).2]
    omega
  · rw [← settled.live] at other
    have member : b ∈ h.live.erase hdr := by simp [rest, other]
    have wasLive : b ∈ g.live := List.mem_of_mem_erase other
    obtain ⟨first, sizeFirst⟩ := served.kept b wasLive
    obtain ⟨last, sizeLast⟩ := released.kept b member
    have middleWord := headers b (by simp [served.live, wasLive])
    exact ⟨released.live ▸ member, ((last.trans middleWord).trans first).trans
      ((exact b wasLive).trans (sizeFirst.symm.trans sizeLast.symm))⟩
  · exact copied.xfree_not_inUse served.busy stillLive (by omega) freed
  · -- `xfree`, the copy and the request, from the last to the first
    have allocated := xmallocAlign_inv run
    simp only [headerSize] at *
    have freeing : after.mem.byte (a + 24 + j) =
        (middle.mem.memcpy (a + 24) (hdr + 24) psize).byte (a + 24 + j) :=
      byte_congr alignedA (fun w low high => copied.xfree_body served.busy stillLive freed inRest
        ⟨low, by omega⟩) inside
    rw [freeing]
    exact inv.copied_byte settled.busy live word noWrap answer allocated alignedA inside old

theorem xrealloc_error {heap : Heap} {halt : Halt} (fits : hdr + 24 < 2 ^ 64)
    (short : ¬size ≤ comparedSize heap hdr) (run : xmallocAlign heap size page = .error halt) :
    xrealloc heap (hdr + headerSize) size page = .error halt := by
  have header : ulongSub (hdr + headerSize) headerSize = hdr := ulongSub_header fits
  have notNull : ¬hdr + headerSize = 0 := by simp
  rw [xrealloc, if_neg notNull, header]
  dsimp only
  rw [if_neg (show ¬size ≤ ulongOfInt (payloadSize heap.mem hdr) from short), run]
  rfl

theorem xrealloc_stays {heap : Heap} (fits : hdr + 24 < 2 ^ 64)
    (claimed : size ≤ comparedSize heap hdr) :
    xrealloc heap (hdr + headerSize) size page = .ok (heap, hdr + headerSize) := by
  have header : ulongSub (hdr + headerSize) headerSize = hdr := ulongSub_header fits
  have notNull : ¬hdr + headerSize = 0 := by simp
  rw [xrealloc, if_neg notNull, header]
  exact if_pos claimed

/-- Without another block, the block is lost. -/
theorem Settled.not_obtained (settled : Settled state g) (owned : hdr ∈ state.live)
    (short : ¬size ≤ comparedSize state.heap hdr) (refused : Refused state.heap size page) :
    ¬Preserved state hdr size (Xmalloc.xrealloc state.heap (hdr + headerSize) size page) := by
  have inv := settled.inv
  have live : hdr ∈ g.live := settled.live ▸ owned
  have fits := inv.node_fits (Or.inl live)
  intro kept
  obtain ⟨after, q, same, result⟩ := kept.returns
  rcases inv.xmallocAlign_refused refused with crash | null
  · rw [xrealloc_error fits short crash] at same
    cases same
  rw [headerSize, xrealloc_moves fits rfl short null] at same
  by_cases fault : 0 = 0 ∧ ulongOfInt (payloadSize state.heap.mem hdr) ≠ 0
  · rw [if_pos fault] at same
    cases same
  · have none : ulongOfInt (payloadSize state.heap.mem hdr) = 0 := by
      by_contra some
      exact fault ⟨rfl, some⟩
    have nothing : state.heap.mem.memcpy 0 (hdr + 24) 0 = state.heap.mem :=
      funext fun w => memcpy_outside state.heap.mem (Or.inr (Nat.zero_le w))
    rw [if_neg fault, none, nothing] at same
    obtain ⟨freed, run, same⟩ := Halt.bind_eq_ok.mp same
    cases Except.ok.inj same
    rcases result with ⟨_, inUse⟩ | ⟨some, _⟩
    · have large : 0 < state.heap.mem hdr := by
        have word := (inv.liveHeader hdr live).1
        obtain ⟨_, _, _, _, _, least, _⟩ := inv.locate (Or.inl live)
        rcases word with ⟨_, word⟩ | ⟨big, _⟩
        · omega
        · exact Nat.lt_of_lt_of_le (by decide) big
      exact inv.xfree_not_inUse settled.busy live large run inUse
    · exact some rfl

/-- A block that is kept although it is moved: what the request and the bytes behind the copy
were. -/
theorem Settled.moves_only (settled : Settled state g) (exact : Exact state g)
    (owned : hdr ∈ state.live) (answer : Answer state.heap size page)
    (short : ¬size ≤ comparedSize state.heap hdr)
    (kept : Preserved state hdr size (Xmalloc.xrealloc state.heap (hdr + headerSize) size page)) :
    NoWrap size ∧ NotTruncated size ∧ ¬Refused state.heap size page ∧
      ∀ a, Lands state.heap size page a → ∀ k < size, comparedSize state.heap hdr ≤ k →
        k + headerSize < state.heap.mem hdr →
        state.heap.mem.byte (a + headerSize + k) =
          state.heap.mem.byte (hdr + headerSize + k) := by
  have inv := settled.inv
  have live : hdr ∈ g.live := settled.live ▸ owned
  have fits := inv.node_fits (Or.inl live)
  have less := Nat.not_le.mp short
  have obtains : ¬Refused state.heap size page := fun refused =>
    settled.not_obtained owned short refused kept
  obtain ⟨after, q, same, result⟩ := kept.returns
  cases run : Xmalloc.xmallocAlign state.heap size page with
  | error halt =>
    rw [xrealloc_error fits short run] at same
    cases same
  | ok block =>
    obtain ⟨middle, p⟩ := block
    have allocated := xmallocAlign_inv run
    have some : p ≠ 0 := fun null => obtains (null ▸ allocated).refused
    rw [headerSize, xrealloc_moves fits rfl short run, if_neg fun fault => some fault.1] at same
    obtain ⟨freed, freeing, same⟩ := Halt.bind_eq_ok.mp same
    cases Except.ok.inj same
    obtain ⟨_, ⟨⟨tile, held, base, stop⟩, _⟩, bytes⟩ := result.resolve_left fun null => some null.1
    have asked : NoWrap size ∧ NotTruncated size := by
      by_contra bad
      exact inv.allocated_short answer allocated some (.inl rfl) bad tile
        (xfree_held freeing tile held) base stop
    obtain ⟨noWrap, counted⟩ := asked
    refine ⟨noWrap, counted, obtains, fun a lands k inside uncopied old => ?_⟩
    rcases inv.xmallocAlign settled.busy noWrap answer with crash | null | ⟨b, _, h, found, served⟩
    · rw [crash] at run
      cases run
    · cases Except.ok.inj (null.symm.trans run)
      exact absurd rfl some
    · cases Except.ok.inj (found.symm.trans run)
      obtain ⟨c, place, landsC⟩ := allocated.lands some
      have isB : a = b := (lands.unique landsC).trans (Nat.add_right_cancel place).symm
      subst isB
      obtain ⟨final, freed', _, _, _, contents⟩ :=
        settled.moved exact owned noWrap counted answer less run served
      cases Except.ok.inj (freeing.symm.trans freed')
      have after := contents k inside old
      rw [if_neg (Nat.not_lt.mpr uncopied)] at after
      exact after.symm.trans (bytes k inside old)

theorem Settled.moves_keeps (settled : Settled state g) (exact : Exact state g)
    (owned : hdr ∈ state.live) (answer : Answer state.heap size page)
    (short : ¬size ≤ comparedSize state.heap hdr) (noWrap : NoWrap size) (counted : NotTruncated size)
    (obtains : ¬Refused state.heap size page)
    (lucky : ∀ a, Lands state.heap size page a → ∀ k < size, comparedSize state.heap hdr ≤ k →
      k + headerSize < state.heap.mem hdr →
      state.heap.mem.byte (a + headerSize + k) = state.heap.mem.byte (hdr + headerSize + k)) :
    Preserved state hdr size (Xmalloc.xrealloc state.heap (hdr + headerSize) size page) := by
  have inv := settled.inv
  have live : hdr ∈ g.live := settled.live ▸ owned
  have fits := inv.node_fits (Or.inl live)
  have less := Nat.not_le.mp short
  rcases inv.xmallocAlign settled.busy noWrap answer with crash | null | ⟨a, middle, h, run, served⟩
  · exact absurd (xmallocAlign_crash crash) obtains
  · exact absurd (xmallocAlign_inv null).refused obtains
  · obtain ⟨after, freeing, enough, gone, different, contents⟩ :=
      settled.moved exact owned noWrap counted answer less run served
    have some : a + headerSize ≠ 0 := by simp
    obtain ⟨c, place, lands⟩ := (xmallocAlign_inv run).lands some
    cases Nat.add_right_cancel place
    rw [headerSize, xrealloc_moves fits rfl short run, if_neg fun fault => some fault.1]
    simp only [headerSize] at freeing
    rw [show ulongOfInt (payloadSize state.heap.mem hdr) = comparedSize state.heap hdr from rfl,
      freeing, Halt.ok_bind]
    refine .block some enough (fun k inside old => ?_) ⟨fun inUse => absurd inUse gone, fun same => ?_⟩
    · rw [contents k inside old]
      by_cases copied : k < comparedSize state.heap hdr
      · rw [if_pos copied]
      · rw [if_neg copied]
        exact lucky a lands k inside (Nat.le_of_not_lt copied) old
    · exact absurd (Nat.add_right_cancel same) different

/-- A block that is moved is kept exactly if another can be obtained and takes all bytes. -/
theorem Settled.moves_iff (settled : Settled state g) (exact : Exact state g)
    (owned : hdr ∈ state.live) (answer : Answer state.heap size page)
    (short : ¬size ≤ comparedSize state.heap hdr) :
    Preserved state hdr size (Xmalloc.xrealloc state.heap (hdr + headerSize) size page) ↔
      NoWrap size ∧ NotTruncated size ∧ ¬Refused state.heap size page ∧
        ∀ a, Lands state.heap size page a → ∀ k < size, comparedSize state.heap hdr ≤ k →
          k + headerSize < state.heap.mem hdr →
          state.heap.mem.byte (a + headerSize + k) =
            state.heap.mem.byte (hdr + headerSize + k) := by
  constructor
  · exact settled.moves_only exact owned answer short
  · rintro ⟨noWrap, counted, obtains, lucky⟩
    exact settled.moves_keeps exact owned answer short noWrap counted obtains lucky

end Outcome

/-- The two functions of the source have one body. -/
theorem xmallocAt_eq (heap : Heap) (p size page : Nat) :
    xmallocAt heap p size page = xrealloc heap p size page := rfl

/-- `xrealloc` and `xmalloc_at` keep what the block holds exactly when it is copied as a
whole. -/
theorem realloc_preserves_iff {state : HeapRun}
    (reached : Reach EmptyHeap HeapStep (fun state op => FreshPages state op ∧ WholeCounts op) state)
    {hdr : Nat} (owned : hdr ∈ state.live) {size page : Nat} (answer : Answer state.heap size page) :
    (Preserved state hdr size (xrealloc state.heap (hdr + headerSize) size page) ↔
        CopiesAll state.heap hdr size page) ∧
      (Preserved state hdr size (xmallocAt state.heap (hdr + headerSize) size page) ↔
        CopiesAll state.heap hdr size page) := by
  obtain ⟨g, settled, exact⟩ := heapRun_settled reached
  have fits := settled.inv.node_fits (Or.inl (settled.live ▸ owned : hdr ∈ g.live))
  have result : Preserved state hdr size (xrealloc state.heap (hdr + headerSize) size page) ↔
      CopiesAll state.heap hdr size page := by
    unfold CopiesAll
    by_cases claimed : size ≤ comparedSize state.heap hdr
    · rw [xrealloc_stays fits claimed, settled.stays_iff exact owned claimed]
      simp only [claimed, true_and, not_true_eq_false, false_and, or_false]
    · rw [settled.moves_iff exact owned answer claimed]
      simp only [claimed, false_and, not_false_eq_true, true_and, false_or]
  refine ⟨result, ?_⟩
  rw [xmallocAt_eq]
  exact result

/-- A block of 100 bytes that grows into a page run. -/
theorem realloc_preserves_iff_grows :
    ∃ state, runLabels heapStep (fun state op => FreshPages state op ∧ WholeCounts op)
        [.xmallocAlign 100 0x10000] emptyHeap = some state ∧
      Preserved state 0x10000 5000 (xrealloc state.heap (0x10000 + headerSize) 5000 0x20000) ∧
      Preserved state 0x10000 5000 (xmallocAt state.heap (0x10000 + headerSize) 5000 0x20000) := by
  have runs : ∃ state, runLabels heapStep (fun state op => FreshPages state op ∧ WholeCounts op)
        [.xmallocAlign 100 0x10000] emptyHeap = some state ∧
      0x10000 ∈ state.live ∧ FreshRun state.heap ⟨0x20000, requestPages 5000⟩ ∧
      state.heap.mem 0x10000 = 128 ∧ comparedSize state.heap 0x10000 = 104 := by
    refine ⟨(runLabels heapStep (fun state op => FreshPages state op ∧ WholeCounts op)
        [.xmallocAlign 100 0x10000] emptyHeap).get (by decide +kernel),
      (Option.some_get _).symm, ?_, ?_, ?_, ?_⟩ <;> decide +kernel
  obtain ⟨state, run, owned, fresh, size, compared⟩ := runs
  have reached := Reach.of_runLabels (.start emptyHeap_empty) run
  have copies : CopiesAll state.heap 0x10000 5000 0x20000 := by
    refine .inr ⟨by omega, by decide, by decide +kernel, ?_, fun a _ k _ uncopied old => ?_⟩
    · rintro (⟨null, _⟩ | ⟨_, few⟩)
      · exact absurd null (by decide)
      · exact absurd few (by decide +kernel)
    · simp only [headerSize] at old
      omega
  have answer : Answer state.heap 5000 0x20000 := .inr fresh
  obtain ⟨grows, growsAt⟩ := realloc_preserves_iff reached owned answer
  exact ⟨state, run, grows.mpr copies, growsAt.mpr copies⟩

/-- Where no 513 pages are found, the copy goes to address 0; and a block of 2 GiB is taken
for one that is large enough for anything. -/
theorem realloc_loses :
    (∃ state, Reach EmptyHeap HeapStep (fun state op => FreshPages state op ∧ WholeCounts op) state ∧
      0x10000 ∈ state.live ∧
      xrealloc state.heap (0x10000 + headerSize) (2 ^ 21) 0 = .error .fault ∧
      ¬Preserved state 0x10000 (2 ^ 21) (xrealloc state.heap (0x10000 + headerSize) (2 ^ 21) 0)) ∧
    ∃ state, Reach EmptyHeap HeapStep (fun state op => FreshPages state op ∧ WholeCounts op) state ∧
      0x10000 ∈ state.live ∧
      ¬Preserved state 0x10000 (2 ^ 40) (xrealloc state.heap (0x10000 + headerSize) (2 ^ 40) 0) := by
  constructor
  · have runs : ∃ state, runLabels heapStep (fun state op => FreshPages state op ∧ WholeCounts op)
        [.xmallocAlign 100 0x10000] emptyHeap = some state ∧ 0x10000 ∈ state.live ∧
        comparedSize state.heap 0x10000 = 104 := by
      refine ⟨(runLabels heapStep (fun state op => FreshPages state op ∧ WholeCounts op)
        [.xmallocAlign 100 0x10000] emptyHeap).get (by decide +kernel),
        (Option.some_get _).symm, ?_, ?_⟩ <;> decide +kernel
    obtain ⟨state, run, owned, compared⟩ := runs
    have null : xmallocAlign state.heap (2 ^ 21) 0 = .ok (state.heap, 0) :=
      xmallocAlign_bulk_null (by decide) (by decide) (by decide)
    have faults : xrealloc state.heap (0x10000 + headerSize) (2 ^ 21) 0 = .error .fault := by
      have moves := xrealloc_moves (by decide) rfl
        (show ¬2 ^ 21 ≤ comparedSize state.heap 0x10000 by rw [compared]; decide) null
      have some : ulongOfInt (payloadSize state.heap.mem 0x10000) ≠ 0 := by
        rw [show ulongOfInt (payloadSize state.heap.mem 0x10000) = 104 from compared]
        decide
      exact moves.trans (if_pos ⟨rfl, some⟩)
    refine ⟨state, Reach.of_runLabels (.start emptyHeap_empty) run, owned, faults, fun kept => ?_⟩
    obtain ⟨after, q, returns, _⟩ := kept.returns
    exact nomatch faults.symm.trans returns
  · have runs : ∃ state, runLabels heapStep (fun state op => FreshPages state op ∧ WholeCounts op)
        [.xmallocAlign (2 ^ 31) 0x10000] emptyHeap = some state ∧ 0x10000 ∈ state.live ∧
        state.heap.mem 0x10000 = 2 ^ 31 + 4096 ∧ 2 ^ 40 ≤ comparedSize state.heap 0x10000 := by
      refine ⟨(runLabels heapStep (fun state op => FreshPages state op ∧ WholeCounts op)
        [.xmallocAlign (2 ^ 31) 0x10000] emptyHeap).get (by decide +kernel),
        (Option.some_get _).symm, ?_, ?_, ?_⟩ <;> decide +kernel
    obtain ⟨state, run, owned, size, claimed⟩ := runs
    have reached := Reach.of_runLabels (.start emptyHeap_empty) run
    obtain ⟨g, settled, exact⟩ := heapRun_settled reached
    refine ⟨state, reached, owned, fun kept => ?_⟩
    rw [xrealloc_stays (by decide) claimed, settled.stays_iff exact owned claimed, size] at kept
    exact absurd kept (by decide)

end Stardust.Xmalloc
