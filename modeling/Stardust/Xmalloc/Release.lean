import Stardust.Xmalloc.Allocation

/-! # What `xfree` does to the heap

The loop walks `freelist` once.  `Merging` is its invariant: the block being
freed is detached, and of the entries passed so far none adjoins it. -/
set_option autoImplicit false
namespace Stardust.Xmalloc

open Stardust.Lib
open Stardust.Mm (pageSize)

/-- Neither of two blocks of one page begins where the other ends. -/
def NotAdjacent (size : Nat → Nat) (c hdr : Nat) : Prop :=
  samePage c hdr → c + size c ≠ hdr ∧ hdr + size hdr ≠ c

structure Merging (heap : Heap) (g : Blocks) (hdr : Nat) (passed : List Nat) : Prop where
  inv : HeapInv heap g
  busy : g.busy = [hdr]
  header : heap.mem hdr = g.size hdr
  single : ∃ run ∈ heap.held, run.count = 1 ∧ hdr ∈ g.tiles run.base
  passed : ∀ c ∈ passed, NotAdjacent g.size c hdr

/-- The blocks in use, and what the heap says of them, are the same. -/
structure SameLive (heap : Heap) (g : Blocks) (mem : Mem) (h : Blocks) : Prop where
  live : h.live = g.live
  kept : ∀ b ∈ g.live, mem b = heap.mem b ∧ h.size b = g.size b

theorem SameLive.trans {heap : Heap} {g h k : Blocks} {mem final : Mem}
    (first : SameLive heap g mem h) (second : SameLive { heap with mem := mem } h final k) :
    SameLive heap g final k where
  live := second.live.trans first.live
  kept b live := by
    have before := first.kept b live
    have after := second.kept b (first.live ▸ live)
    exact ⟨after.1.trans before.1, after.2.trans before.2⟩

/-- What a turn of the loop does to the view, with the memory and the header it leaves. -/
inductive Turned (mem : Mem) (g : Blocks) (hdr i : Nat) (h : Blocks) : Mem × Nat → Prop
  | pass (apart : NotAdjacent g.size i hdr) (size : h.size = g.size) : Turned mem g hdr i h (mem, hdr)
  | lower (page : samePage i hdr) (adjacent : i + g.size i = hdr)
      (size : h.size i = g.size i + g.size hdr) (kept : ∀ c, c ≠ i → h.size c = g.size c) :
      Turned mem g hdr i h ((mem.listDel (node i)).store i (g.size i + g.size hdr), i)
  | upper (page : samePage i hdr) (adjacent : hdr + g.size hdr = i)
      (size : h.size hdr = g.size hdr + g.size i) (kept : ∀ c, c ≠ hdr → h.size c = g.size c) :
      Turned mem g hdr i h ((mem.listDel (node i)).store hdr (g.size hdr + g.size i), hdr)

section Release
variable {heap : Heap} {g : Blocks}

/-! ## Joining the entry with the block being freed -/

/-- Two blocks of one single-page run, the second where the first ends. -/
theorem HeapInv.neighbours (inv : HeapInv heap g) {run : Run} (held : run ∈ heap.held) {a b : Nat}
    (left : a ∈ g.tiles run.base) (right : b ∈ g.tiles run.base) (adjacent : a + g.size a = b) :
    ∃ xs ys, g.tiles run.base = xs ++ a :: b :: ys := by
  obtain ⟨xs, rest, tiles⟩ := List.append_of_mem left
  have tiled := inv.tiled run held
  have inside := tiled.bounds right
  have large := (inv.sized run held b right).2.1
  simp only [headerSize] at large
  rw [tiles] at tiled
  rcases tiled.neighbour with ⟨_, stops⟩ | ⟨ys, follows⟩
  · omega
  · exact ⟨xs, ys, by rw [tiles, follows, adjacent]⟩

/-- Unlinking the entry `i` and joining two neighbours, of which it is one and the
block being freed the other: the sum is written into the lower block `a`. -/
theorem HeapInv.absorb (inv : HeapInv heap g) {hdr i a b : Nat} {pre post : List Nat}
    (busy : g.busy = [hdr]) (split : g.free = pre ++ i :: post) {run : Run}
    (held : run ∈ heap.held) (single : run.count = 1) (left : a ∈ g.tiles run.base)
    (right : b ∈ g.tiles run.base) (adjacent : a + g.size a = b)
    (pair : (a = i ∧ b = hdr) ∨ (a = hdr ∧ b = i)) :
    ∃ h, HeapInv { heap with mem := (heap.mem.listDel (node i)).store a (g.size a + g.size b) } h ∧
      h.busy = [a] ∧ h.free = pre ++ post ∧ h.size a = g.size a + g.size b ∧
      a ∈ h.tiles run.base ∧ (∀ c, c ≠ a → h.size c = g.size c) ∧
      SameLive heap g ((heap.mem.listDel (node i)).store a (g.size a + g.size b)) h := by
  obtain ⟨xs, ys, tiles⟩ := inv.neighbours held left right adjacent
  obtain ⟨unlinked, sizes⟩ := inv.unlink split
  have busyPair : ∀ c, c ∈ i :: g.busy ↔ c = a ∨ c = b := by
    intro c
    rw [busy, List.mem_cons, List.mem_singleton]
    rcases pair with ⟨rfl, rfl⟩ | ⟨rfl, rfl⟩
    · exact Iff.rfl
    · exact or_comm
  have isBusy : a ∈ i :: g.busy := (busyPair a).mpr (Or.inl rfl)
  have large := (inv.sized run held a left).2.1
  simp only [headerSize] at large
  have written : HeapInv
      { heap with mem := (heap.mem.listDel (node i)).store a (g.size a + g.size b) }
      { g with free := pre ++ post, busy := i :: g.busy } := by
    refine unlinked.write fun w elsewhere => ?_
    have different : w ≠ a := by
      rintro rfl
      exact elsewhere (Or.inl ⟨w, isBusy, Nat.le_refl w, by simp only; omega⟩)
    simp [Mem.store, different]
  have merged := written.merge held single tiles busyPair
  refine ⟨_, merged, rfl, rfl, ?_, ?_, fun c different => ?_, rfl, fun c live => ?_⟩
  · simp [Blocks.merge]
  · simp [Blocks.merge]
  · simp [Blocks.merge, different]
  · have different : c ≠ a := by
      rintro rfl
      exact (unlinked.live_not_busy live).1 isBusy
    refine ⟨?_, by simp [Blocks.merge, different]⟩
    rw [← sizes c (Or.inl live)]
    simp [Mem.store, different]

theorem HeapInv.tile_limits (inv : HeapInv heap g) {run : Run} (held : run ∈ heap.held)
    (single : run.count = 1) {a : Nat} (member : a ∈ g.tiles run.base) :
    pageSize ≤ run.base ∧ run.base ≤ a ∧ a + g.size a ≤ run.base + pageSize ∧
      run.base + pageSize < 2 ^ 64 ∧ run.base % pageSize = 0 ∧ 24 ≤ g.size a := by
  have bounds := (inv.tiled run held).bounds member
  obtain ⟨positive, aligned, _, fits⟩ := inv.runs run held
  have large := (inv.sized run held a member).2.1
  simp only [headerSize] at large
  have stop : run.stop = run.base + pageSize := by
    rw [Run.stop, Run.bytes, single, Nat.one_mul]
  rw [stop] at bounds fits
  refine ⟨?_, bounds.1, bounds.2, fits, aligned, large⟩
  unfold pageSize at aligned ⊢
  omega

/-! ## One turn of the loop -/

/-- An entry that does not adjoin the block being freed stays on the list. -/
theorem Merging.pass {hdr i : Nat} {pre post : List Nat} (merging : Merging heap g hdr pre)
    (split : g.free = pre ++ i :: post)
    (apart : NotAdjacent g.size i hdr)
    (value : coalesce heap.mem hdr i = (heap.mem, hdr)) :
    ∃ h passed, Merging { heap with mem := (coalesce heap.mem hdr i).1 } h
        (coalesce heap.mem hdr i).2 passed ∧ h.free = passed ++ post ∧
      SameLive heap g (coalesce heap.mem hdr i).1 h ∧
      Turned heap.mem g hdr i h (coalesce heap.mem hdr i) := by
  obtain ⟨inv, busy, header, here, passed⟩ := merging
  rw [value]
  refine ⟨g, pre ++ [i], ⟨inv, busy, header, here, ?_⟩, by simp [split],
    ⟨rfl, fun b _ => ⟨rfl, rfl⟩⟩, .pass apart rfl⟩
  intro c inside
  rcases List.mem_append.mp inside with before | isI
  · exact passed c before
  · rw [List.mem_singleton.mp isI]
    exact apart

theorem Merging.turn {hdr i : Nat} {pre post : List Nat} (merging : Merging heap g hdr pre)
    (split : g.free = pre ++ i :: post) :
    ∃ h passed, Merging { heap with mem := (coalesce heap.mem hdr i).1 } h
        (coalesce heap.mem hdr i).2 passed ∧ h.free = passed ++ post ∧
      SameLive heap g (coalesce heap.mem hdr i).1 h ∧
      Turned heap.mem g hdr i h (coalesce heap.mem hdr i) := by
  have whole := merging
  obtain ⟨inv, busy, header, ⟨run, held, single, member⟩, passed⟩ := merging
  have free : i ∈ g.free := by simp [split]
  have headerI := inv.freeHeader i free
  have preFree : ∀ c ∈ pre, c ∈ g.free := fun c inside => by
    rw [split]
    exact List.mem_append_left _ inside
  obtain ⟨low, start, finish, fits, aligned, largeHdr⟩ := inv.tile_limits held single member
  by_cases page : samePage i hdr
  swap
  · exact whole.pass split (fun here => absurd here page) (if_neg page)
  -- the entry lies in the run of the block being freed
  obtain ⟨runI, heldI, memberI⟩ := (inv.owned i).mp (Or.inr (Or.inr free))
  have boundsI := (inv.tiled runI heldI).bounds memberI
  have bounds := (inv.tiled run held).bounds member
  have largeI := (inv.sized runI heldI i memberI).2.1
  simp only [headerSize] at largeI
  have sameRun : runI = run :=
    inv.run_of_samePage heldI held (by omega) (by omega) page
  rw [sameRun] at memberI
  obtain ⟨_, startI, finishI, _, _, _⟩ := inv.tile_limits held single memberI
  simp only [pageSize] at low start finish fits aligned startI finishI
  have sumI : ulongAdd i (heap.mem i) = i + g.size i := by
    rw [headerI, ulongAdd_eq (by omega)]
  have sumHdr : ulongAdd hdr (heap.mem hdr) = hdr + g.size hdr := by
    rw [header, ulongAdd_eq (by omega)]
  obtain ⟨unlinked, sizes⟩ := inv.unlink split
  have sizeI : heap.mem.listDel (node i) i = g.size i :=
    (sizes i (Or.inr (Or.inr free))).trans headerI
  have sizeHdr : heap.mem.listDel (node i) hdr = g.size hdr :=
    (sizes hdr (Or.inr (Or.inl (by simp [busy])))).trans header
  by_cases lower : i + g.size i = hdr
  · -- the entry ends where the block being freed begins
    have total : ulongAdd (g.size i) (g.size hdr) = g.size i + g.size hdr := ulongAdd_eq (by omega)
    have notAbove : ¬ulongAdd hdr (((heap.mem.listDel (node i)).store i
        (g.size i + g.size hdr)) i) = i := by
      simp only [Mem.store, Function.update_self]
      unfold ulongAdd
      omega
    have value : coalesce heap.mem hdr i =
        ((heap.mem.listDel (node i)).store i (g.size i + g.size hdr), i) := by
      simp only [coalesce, if_pos page, sumI, if_pos lower, sizeI, sizeHdr, total, if_neg notAbove]
    obtain ⟨h, after, afterBusy, afterFree, afterSize, afterTile, afterKept, same⟩ :=
      inv.absorb busy split held single memberI member lower (Or.inl ⟨rfl, rfl⟩)
    rw [value]
    refine ⟨h, pre, ⟨after, afterBusy, ?_, ⟨run, held, single, afterTile⟩, ?_⟩, afterFree, same,
      .lower page lower afterSize afterKept⟩
    · simp [Mem.store, afterSize]
    · intro c inside here
      have cFree := preFree c inside
      have different : c ≠ i := by
        rintro rfl
        have once := inv.once c
        rw [split] at once
        simp only [List.count_append, List.count_cons_self] at once
        have positive := List.count_pos_iff.mpr inside
        omega
      rw [afterKept c different, afterSize]
      refine ⟨fun meets => inv.separate c cFree i free here meets, fun meets => ?_⟩
      exact (passed c inside (here.trans page)).2 (by omega)
  · by_cases upper : hdr + g.size hdr = i
    · -- the entry begins where the block being freed ends
      have total : ulongAdd (g.size hdr) (g.size i) = g.size hdr + g.size i := ulongAdd_eq (by omega)
      have value : coalesce heap.mem hdr i =
          ((heap.mem.listDel (node i)).store hdr (g.size hdr + g.size i), hdr) := by
        simp only [coalesce, if_pos page, sumI, if_neg lower, sumHdr, if_pos upper, sizeI, sizeHdr,
          total]
      obtain ⟨h, after, afterBusy, afterFree, afterSize, afterTile, afterKept, same⟩ :=
        inv.absorb busy split held single member memberI upper (Or.inr ⟨rfl, rfl⟩)
      rw [value]
      refine ⟨h, pre, ⟨after, afterBusy, ?_, ⟨run, held, single, afterTile⟩, ?_⟩, afterFree, same,
        .upper page upper afterSize afterKept⟩
      · simp [Mem.store, afterSize]
      · intro c inside here
        have cFree := preFree c inside
        have different : c ≠ hdr := by
          rintro rfl
          exact (inv.free_not_busy cFree).1 (by simp [busy])
        rw [afterKept c different, afterSize]
        refine ⟨(passed c inside here).1, fun meets => ?_⟩
        exact inv.separate i free c cFree (page.trans here.symm) (by omega)
    · have value : coalesce heap.mem hdr i = (heap.mem, hdr) := by
        simp only [coalesce, if_pos page, sumI, if_neg lower, sumHdr, if_neg upper]
      exact whole.pass split (fun _ => ⟨lower, upper⟩) value

/-! ## The whole loop -/

/-- The loop ends, and carries to its end what each turn keeps of the memory, the view,
the header and the entries that are left. -/
theorem Merging.loop {fuel hdr tmp : Nat} {pre rest : List Nat} (merging : Merging heap g hdr pre)
    (split : g.free = pre ++ rest) (enough : rest.length < fuel)
    (cached : ∀ i post, rest = i :: post → tmp = (post.map node).headD heap.freelist)
    (Carry : Mem → Blocks → Nat → List Nat → Prop)
    (keeps : ∀ mem g h hdr i pre post turn, Merging { heap with mem := mem } g hdr pre →
      g.free = pre ++ i :: post → SameLive { heap with mem := mem } g turn.1 h →
      Turned mem g hdr i h turn → Carry mem g hdr (i :: post) → Carry turn.1 h turn.2 post)
    (start : Carry heap.mem g hdr rest) :
    ∃ mem last h, coalesceLoop heap.freelist fuel heap.mem hdr
        ((rest.map node).headD heap.freelist) tmp = .ok (mem, last) ∧
      Merging { heap with mem := mem } h last h.free ∧ Carry mem h last [] := by
  induction rest generalizing heap g fuel hdr tmp pre with
  | nil =>
    obtain ⟨fuel, rfl⟩ := Nat.exists_eq_succ_of_ne_zero (Nat.ne_of_gt enough)
    rw [List.append_nil] at split
    refine ⟨heap.mem, hdr, g, ?_, split ▸ merging, start⟩
    simp [coalesceLoop]
  | cons i post ih =>
    obtain ⟨fuel, rfl⟩ := Nat.exists_eq_succ_of_ne_zero (Nat.ne_of_gt (Nat.zero_lt_of_lt enough))
    obtain ⟨_, notHead, entry⟩ := merging.inv.follow split
    obtain ⟨h, passed, turned, turnedSplit, same, turn⟩ := merging.turn split
    have successor := cached i post rfl
    rw [List.length_cons] at enough
    obtain ⟨mem, last, k, run, finished, carried⟩ :=
      @ih { heap with mem := (coalesce heap.mem hdr i).1 } h fuel _ ((coalesce heap.mem hdr i).1 tmp)
        passed turned turnedSplit (Nat.lt_of_succ_lt_succ enough) (fun j later isNext => by
          -- the cached successor is still an entry, and its link leads on
          subst isNext
          rw [successor]
          exact (turned.inv.follow turnedSplit).1) keeps
        (keeps heap.mem g h hdr i pre post _ merging split same turn start)
    refine ⟨mem, last, k, ?_, finished, carried⟩
    simp only [List.map_cons, List.headD_cons, coalesceLoop, if_neg notHead, entry]
    rw [successor] at run ⊢
    exact run

/-! ## The call -/

/-- The block `a` is no longer in use, and the others in use are as they were. -/
structure Released (heap : Heap) (g : Blocks) (a : Nat) (after : Heap) (h : Blocks) : Prop where
  inv : HeapInv after h
  busy : h.busy = []
  live : h.live = g.live.erase a
  freelist : after.freelist = heap.freelist
  kept : ∀ b ∈ g.live.erase a, after.mem b = heap.mem b ∧ h.size b = g.size b

/-- A block as large as its run is the whole run. -/
theorem HeapInv.fillsRun (inv : HeapInv heap g) {run : Run} (held : run ∈ heap.held) {a : Nat}
    (member : a ∈ g.tiles run.base) (fills : run.bytes ≤ g.size a) :
    g.tiles run.base = [a] ∧ run.base = a ∧ run.bytes = g.size a := by
  have tiled := inv.tiled run held
  have bounds := tiled.bounds member
  have stop : run.stop = run.base + run.bytes := rfl
  obtain ⟨xs, ys, tiles⟩ := List.append_of_mem member
  have none : ∀ b, b ∉ xs ++ ys := by
    intro b inside
    obtain ⟨old, different⟩ := inv.tile_ne held tiles inside
    have boundsB := tiled.bounds old
    have apart := tiled.apart old member different
    have large := (inv.sized run held b old).2.1
    simp only [headerSize] at large
    omega
  have empty := List.append_eq_nil_iff.mp (List.eq_nil_iff_forall_not_mem.mpr none)
  rw [tiles, empty.1, empty.2]
  exact ⟨rfl, by omega, by omega⟩

/-- A block of a page or more is a whole run. -/
theorem HeapInv.wholeRun (inv : HeapInv heap g) {a : Nat} (live : a ∈ g.live)
    (large : pageSize ≤ heap.mem a) :
    ⟨a, (intOfUlong (heap.mem a / pageSize)).toNat⟩ ∈ heap.held ∧ g.tiles a = [a] := by
  obtain ⟨header, _⟩ := inv.liveHeader a live
  have size : g.size a = (intOfUlong (heap.mem a / pageSize)).toNat * pageSize := by
    rcases header with ⟨small, _⟩ | ⟨_, _, size⟩
    · omega
    · exact size
  obtain ⟨run, held, member⟩ := (inv.owned a).mp (Or.inl live)
  have sized := (inv.sized run held a member).2.1
  simp only [headerSize] at sized
  have fills : run.bytes ≤ g.size a := by
    rcases inv.whole run held with single | ⟨one, _⟩
    · have bytes : run.bytes = pageSize := by rw [Run.bytes, single, Nat.one_mul]
      rw [bytes, size]
      refine Nat.le_mul_of_pos_left pageSize (Nat.pos_of_ne_zero fun zero => ?_)
      rw [zero] at size
      omega
    · have tiled := inv.tiled run held
      rw [one] at member tiled
      have whole : run.base + g.size run.base = run.base + run.bytes := tiled.2
      rw [List.mem_singleton.mp member]
      omega
  obtain ⟨tiles, base, bytes⟩ := inv.fillsRun held member fills
  have count : run.count = (intOfUlong (heap.mem a / pageSize)).toNat := by
    rw [size, Run.bytes] at bytes
    exact Nat.eq_of_mul_eq_mul_right (by decide) bytes
  rw [← count, ← base]
  exact ⟨held, base ▸ tiles⟩

/-- It goes back as one. -/
theorem HeapInv.releaseRun (inv : HeapInv heap g) {a : Nat} (live : a ∈ g.live)
    (busy : g.busy = []) (large : pageSize ≤ heap.mem a) :
    ∃ h, Released heap g a
      (heap.give ⟨a, (intOfUlong (heap.mem a / pageSize)).toNat⟩) h := by
  obtain ⟨held, tiles⟩ := inv.wholeRun live large
  have given := (inv.retire live busy).give held tiles rfl
  exact ⟨_, given, rfl, rfl, rfl, fun b _ => ⟨rfl, rfl⟩⟩

/-- What `xfree` does with the block that the loop leaves. -/
def releaseMerged (heap : Heap) (hdr : Nat) : Except Halt Heap :=
  if heap.mem hdr = pageSize then
    if hdr % pageSize ≠ 0 then .error .fault else .ok (heap.give ⟨hdr, 1⟩)
  else do
    let mem ← heap.mem.listAdd (node hdr) heap.freelist
    .ok { heap with mem := mem }

/-- A block as large as a page is the page. -/
theorem Merging.wholePage {hdr : Nat} {passed : List Nat} (merging : Merging heap g hdr passed)
    (whole : g.size hdr = pageSize) : ⟨hdr, 1⟩ ∈ heap.held ∧ g.tiles hdr = [hdr] := by
  obtain ⟨inv, busy, header, ⟨run, held, single, member⟩, _⟩ := merging
  have bytes : run.bytes = pageSize := by rw [Run.bytes, single, Nat.one_mul]
  obtain ⟨tiles, base, _⟩ := inv.fillsRun held member (by omega)
  rw [← single, ← base]
  exact ⟨held, base ▸ tiles⟩

/-- A whole page goes back to the page allocator. -/
theorem Merging.giveBack {hdr : Nat} (merging : Merging heap g hdr g.free)
    (whole : g.size hdr = pageSize) : releaseMerged heap hdr = .ok (heap.give ⟨hdr, 1⟩) ∧
      HeapInv (heap.give ⟨hdr, 1⟩) { g with busy := [] } := by
  obtain ⟨held, tiles⟩ := merging.wholePage whole
  have aligned := (merging.inv.runs _ held).2.1
  refine ⟨?_, merging.inv.give held tiles merging.busy⟩
  rw [releaseMerged, merging.header, if_pos whole, if_neg (not_not.mpr aligned)]

/-- The block that has been freed lies apart from the entries. -/
theorem Merging.away {hdr i : Nat} {passed : List Nat} (merging : Merging heap g hdr passed)
    (free : i ∈ g.free) : hdr + g.size hdr ≤ i ∨ i + g.size i ≤ hdr := by
  have busy : hdr ∈ g.busy := by simp [merging.busy]
  apply merging.inv.blocks_apart (Or.inr (Or.inl busy)) (Or.inr (Or.inr free))
  rintro rfl
  exact (merging.inv.busy_not_free busy).1 free

/-- Less than a page goes back on the list. -/
theorem Merging.linkBack {hdr : Nat} (merging : Merging heap g hdr g.free)
    (part : g.size hdr ≠ pageSize) :
    ∃ mem, heap.mem.listAdd (node hdr) heap.freelist = .ok mem ∧
      releaseMerged heap hdr = .ok { heap with mem := mem } ∧
      HeapInv { heap with mem := mem } { g with free := hdr :: g.free, busy := [] } ∧
      ∀ b, (b ∈ g.live ∨ b ∈ g.busy ∨ b ∈ g.free) → mem b = heap.mem b := by
  obtain ⟨inv, busy, header, ⟨run, held, single, member⟩, passed⟩ := merging
  obtain ⟨_, start, finish, _⟩ := inv.tile_limits held single member
  obtain ⟨mem, run', linked, sizes⟩ := inv.link busy header (by omega)
    (fun c free page => (passed c free page).1) (fun c free page => (passed c free page).2)
  refine ⟨mem, run', ?_, linked, sizes⟩
  rw [releaseMerged, header, if_neg part, run', Halt.ok_bind]

theorem Merging.finish {hdr : Nat} (merging : Merging heap g hdr g.free) :
    ∃ after h, releaseMerged heap hdr = .ok after ∧ HeapInv after h ∧
      h.busy = [] ∧ h.live = g.live ∧ after.freelist = heap.freelist ∧
      ∀ b ∈ g.live, after.mem b = heap.mem b ∧ h.size b = g.size b := by
  by_cases whole : g.size hdr = pageSize
  · obtain ⟨run, given⟩ := merging.giveBack whole
    exact ⟨_, _, run, given, rfl, rfl, rfl, fun b _ => ⟨rfl, rfl⟩⟩
  · obtain ⟨mem, _, run, linked, sizes⟩ := merging.linkBack whole
    exact ⟨_, _, run, linked, rfl, rfl, rfl, fun b live => ⟨sizes b (Or.inl live), rfl⟩⟩

/-- A header and the payload behind it begin on one page. -/
theorem HeapInv.header_page (inv : HeapInv heap g) {a : Nat}
    (owned : a ∈ g.live ∨ a ∈ g.busy ∨ a ∈ g.free) : samePage (a + 24) a := by
  obtain ⟨run, held, member⟩ := (inv.owned a).mp owned
  obtain ⟨_, large, last⟩ := inv.sized run held a member
  have bounds := (inv.tiled run held).bounds member
  have aligned := (inv.runs run held).2.1
  simp only [headerSize, pageSize] at large last aligned
  unfold samePage pageSize
  rcases inv.whole run held with single | ⟨one, _⟩
  · have stop : run.stop = run.base + 4096 := by
      rw [Run.stop, Run.bytes, single]
      rfl
    -- a last block has room for more than its header
    have inside : a + 24 < run.stop := by
      by_cases ends : a + g.size a = run.stop
      · have room := last ends
        omega
      · omega
    omega
  · rw [one] at member
    have isBase := List.mem_singleton.mp member
    omega

/-- The view of the heap once the call has taken the block `a` from its owner. -/
def Blocks.retired (g : Blocks) (a : Nat) : Blocks := { g with live := g.live.erase a, busy := [a] }

/-- The checks of `xfree` let a block pass whose links are `NULL`. -/
theorem xfree_unlinked {a : Nat} (fits : a + 24 < 2 ^ 64) (page : samePage (a + 24) a)
    (next : heap.mem (node a) = 0) (prev : heap.mem (node a + 8) = 0) :
    xfree heap (a + 24) =
      if pageSize ≤ heap.mem a then
        .ok (heap.give ⟨a, (intOfUlong (heap.mem a / pageSize)).toNat⟩)
      else
        coalesceLoop heap.freelist (traversalBound heap) heap.mem a (heap.mem heap.freelist)
          (heap.mem (heap.mem heap.freelist)) >>= fun turn =>
        releaseMerged { heap with mem := turn.1 } turn.2 := by
  have hdr : ulongSub (a + 24) headerSize = a := by
    simp only [headerSize]
    rw [ulongSub_eq (by omega) fits]
    omega
  have notNull : ¬a + 24 = 0 := by omega
  have notFreed : ¬(heap.mem (node a) ≠ 0 ∨ heap.mem (node a + 8) ≠ 0) := by
    rw [next, prev]
    simp
  simp only [Xmalloc.xfree, hdr, if_neg notNull, if_neg (not_not.mpr page), if_neg notFreed]
  rfl

theorem HeapInv.xfree_eq (inv : HeapInv heap g) {a : Nat} (live : a ∈ g.live) :
    Xmalloc.xfree heap (a + 24) =
      if pageSize ≤ heap.mem a then
        .ok (heap.give ⟨a, (intOfUlong (heap.mem a / pageSize)).toNat⟩)
      else
        coalesceLoop heap.freelist (traversalBound heap) heap.mem a (heap.mem heap.freelist)
          (heap.mem (heap.mem heap.freelist)) >>= fun turn =>
        releaseMerged { heap with mem := turn.1 } turn.2 := by
  obtain ⟨_, next, prev⟩ := inv.liveHeader a live
  exact xfree_unlinked (inv.node_fits (Or.inl live)) (inv.header_page (Or.inl live)) next prev

/-- The size word of a small block in use is exact, and the loop may start. -/
theorem HeapInv.retire_merging (inv : HeapInv heap g) {a : Nat} (live : a ∈ g.live)
    (busy : g.busy = []) (small : heap.mem a < pageSize) : Merging heap (g.retired a) a [] := by
  obtain ⟨header, _⟩ := inv.liveHeader a live
  have word : heap.mem a = g.size a := by
    rcases header with ⟨_, same⟩ | ⟨big, _⟩
    · exact same
    · exact absurd big (Nat.not_le.mpr small)
  obtain ⟨run, held, member⟩ := (inv.owned a).mp (Or.inl live)
  have single := inv.singlePage held member (by rw [← word]; unfold pageSize at small ⊢; omega)
  exact ⟨inv.retire live busy, rfl, word, ⟨run, held, single, member⟩, nofun⟩

/-- The call on a small block: the loop, and what is done with the block it leaves. -/
theorem HeapInv.xfree_loop (inv : HeapInv heap g) {a : Nat} (live : a ∈ g.live)
    (busy : g.busy = []) (small : heap.mem a < pageSize)
    (Carry : Mem → Blocks → Nat → List Nat → Prop)
    (keeps : ∀ mem g h hdr i pre post turn, Merging { heap with mem := mem } g hdr pre →
      g.free = pre ++ i :: post → SameLive { heap with mem := mem } g turn.1 h →
      Turned mem g hdr i h turn → Carry mem g hdr (i :: post) → Carry turn.1 h turn.2 post)
    (start : Carry heap.mem (g.retired a) a g.free) :
    ∃ mem last h, xfree heap (a + 24) = releaseMerged { heap with mem := mem } last ∧
      Merging { heap with mem := mem } h last h.free ∧ Carry mem h last [] := by
  have merging := inv.retire_merging live busy small
  have first : heap.mem heap.freelist = (g.free.map node).headD heap.freelist := inv.list.next_head
  obtain ⟨mem, last, h, loop, merged, carried⟩ := merging.loop
    (List.nil_append g.free).symm inv.free_length (fun i post isFirst => by
      -- the second entry, read before the first turn
      show heap.mem (heap.mem heap.freelist) = _
      rw [first, isFirst]
      exact (inv.follow (isFirst.trans (List.nil_append _).symm)).1) Carry keeps start
  rw [← first] at loop
  refine ⟨mem, last, h, ?_, merged, carried⟩
  rw [inv.xfree_eq live, if_neg (Nat.not_le.mpr small), loop, Halt.ok_bind]

theorem HeapInv.xfree (inv : HeapInv heap g) {a : Nat} (live : a ∈ g.live) (busy : g.busy = []) :
    ∃ after h, xfree heap (a + 24) = .ok after ∧ Released heap g a after h := by
  by_cases large : pageSize ≤ heap.mem a
  · obtain ⟨h, released⟩ := inv.releaseRun live busy large
    exact ⟨_, h, (inv.xfree_eq live).trans (if_pos large), released⟩
  · obtain ⟨mem, last, h, run, merged, same⟩ := inv.xfree_loop live busy (Nat.not_le.mp large)
      (fun mem h _ _ => SameLive heap (g.retired a) mem h)
      (fun _ _ _ _ _ _ _ _ _ _ next _ before => before.trans next) ⟨rfl, fun b _ => ⟨rfl, rfl⟩⟩
    obtain ⟨after, k, finished, final, noBusy, finalLive, freelist, kept⟩ := merged.finish
    refine ⟨after, k, run.trans finished, final, noBusy, finalLive.trans same.live, freelist,
      fun b member => ?_⟩
    have before := same.kept b member
    have later := kept b (same.live ▸ member)
    exact ⟨later.1.trans before.1, later.2.trans before.2⟩

end Release

end Stardust.Xmalloc
