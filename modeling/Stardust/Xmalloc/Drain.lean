import Stardust.Xmalloc.HeapRuns

/-! # Freeing everything

Coalescing leaves no two neighbours on `freelist`.  A page run without blocks in
use would be tiled by free blocks, so there is none once all blocks are freed. -/
set_option autoImplicit false
namespace Stardust.Xmalloc

open Stardust.Lib
open Stardust.Mm (pageSize)

section Drain
variable {heap : Heap} {g : Blocks}

/-- With no block in use, no run is held. -/
theorem HeapInv.drained (inv : HeapInv heap g) (busy : g.busy = []) (live : g.live = []) :
    heap.held = [] := by
  apply List.eq_nil_iff_forall_not_mem.mpr
  intro run held
  have free : ∀ a ∈ g.tiles run.base, a ∈ g.free := by
    intro a member
    rcases inv.tile_owned held member with inUse | detached | free
    · simp [live] at inUse
    · simp [busy] at detached
    · exact free
  have positive := (inv.runs run held).2.2.1
  rcases inv.whole run held with single | ⟨one, notFree⟩
  · have tiled := inv.tiled run held
    have bytes : run.stop = run.base + pageSize := by
      rw [Run.stop, Run.bytes, single, Nat.one_mul]
    cases tiles : g.tiles run.base with
    | nil =>
      rw [tiles] at tiled
      have empty : run.base = run.stop := tiled
      simp only [pageSize] at bytes
      omega
    | cons a rest =>
      rw [tiles] at free tiled
      have small := inv.broken a (free a (List.mem_cons_self ..))
      have first : a = run.base := tiled.1
      rcases @Tiled.neighbour _ _ _ [] _ _ tiled with ⟨_, ends⟩ | ⟨others, follows⟩
      · omega
      · -- the next block of the page is free too, and adjoins
        have next : a + g.size a ∈ g.free := free _ (by simp [follows])
        have aligned := (inv.runs run held).2.1
        have page : samePage a (a + g.size a) := by
          unfold samePage
          simp only [pageSize] at small aligned ⊢
          omega
        exact inv.separate a (free a (List.mem_cons_self ..)) _ next page rfl
  · exact notFree (free run.base (by simp [one]))

/-- `xfree` of the blocks in the given order. -/
def freeAll (heap : Heap) : List Nat → Except Halt Heap
  | [] => .ok heap
  | hdr :: rest => do
    let heap ← xfree heap (hdr + headerSize)
    freeAll heap rest

theorem HeapInv.freeAll (inv : HeapInv heap g) (busy : g.busy = []) {order : List Nat}
    (same : order.Perm g.live) :
    ∃ after h, freeAll heap order = .ok after ∧ HeapInv after h ∧ h.busy = [] ∧ h.live = [] := by
  induction order generalizing heap g with
  | nil => exact ⟨heap, g, rfl, inv, busy, same.nil_eq.symm⟩
  | cons a rest ih =>
    have live : a ∈ g.live := same.mem_iff.mp (List.mem_cons_self ..)
    obtain ⟨freed, h, run, released⟩ := inv.xfree live busy
    have remaining : rest.Perm h.live := by
      rw [released.live]
      exact (same.trans (List.perm_cons_erase live)).cons_inv
    obtain ⟨after, k, runs, final, noBusy, noLive⟩ := ih released.inv released.busy remaining
    refine ⟨after, k, ?_, final, noBusy, noLive⟩
    rw [Xmalloc.freeAll, run, Halt.ok_bind, runs]

end Drain

/-! ## No leak in any run -/

/-- No two free blocks of one page adjoin, and freeing the blocks in use, in any
order, leaves nothing behind. -/
structure LeakFree (state : HeapRun) : Prop where
  separate : ∃ free : List Nat, IsList (links state.heap.mem) state.heap.freelist (free.map node) ∧
    ∀ a ∈ free, ∀ b ∈ free, samePage a b → a + state.heap.mem a ≠ b
  drains : ∀ order, order.Perm state.live → ∃ after, freeAll state.heap order = .ok after ∧
    after.mem after.freelist = after.freelist ∧ after.held = [] ∧ after.given.Perm after.taken

theorem Settled.leakFree {state : HeapRun} {g : Blocks} (settled : Settled state g) :
    LeakFree state := by
  obtain ⟨inv, busy, live⟩ := settled
  constructor
  · refine ⟨g.free, inv.list, fun a left b right page => ?_⟩
    rw [inv.freeHeader a left]
    exact inv.separate a left b right page
  · intro order same
    rw [← live] at same
    obtain ⟨after, h, run, final, noBusy, noLive⟩ := inv.freeAll busy same
    have held := final.drained noBusy noLive
    have noFree : h.free = [] := by
      apply List.eq_nil_iff_forall_not_mem.mpr
      intro a free
      obtain ⟨run, member, _⟩ := (final.owned a).mp (Or.inr (Or.inr free))
      simp [held] at member
    refine ⟨after, run, ?_, held, ?_⟩
    · have next := final.list.next_head
      rw [noFree] at next
      exact next
    · have logged := final.logged
      rw [held, List.append_nil] at logged
      exact logged.symm

/-- Requests do not wrap, the page allocator answers with fresh pages, and owners
write only to blocks whose page count fits an `int`. -/
def FreshRequests (state : HeapRun) : HeapOp → Prop
  | .xmallocAlign asize page => Served.Allowed state.heap asize page
  | .xfree _ => True
  | .xrealloc _ _ _ => False
  | .write hdr _ _ => state.heap.mem hdr < 2 ^ 31 * pageSize

instance (state : HeapRun) : (op : HeapOp) → Decidable (FreshRequests state op)
  | .xmallocAlign asize page => inferInstanceAs (Decidable (Served.Allowed state.heap asize page))
  | .xfree _ => inferInstanceAs (Decidable True)
  | .xrealloc _ _ _ => inferInstanceAs (Decidable False)
  | .write hdr _ _ => inferInstanceAs (Decidable (state.heap.mem hdr < 2 ^ 31 * pageSize))

theorem heapRun_leakFree {state : HeapRun} (reached : Reach EmptyHeap HeapStep FreshRequests state) :
    LeakFree state := by
  have settled : ∃ g, Settled state g := by
    refine Reach.invariant (fun state => ∃ g, Settled state g) ?_ ?_ reached
    · intro start empty
      exact ⟨_, empty.settled⟩
    · rintro before op after ⟨g, settled⟩ fresh move
      rcases heapStep_cases move with ⟨asize, page, heap, p, rfl, run, rfl⟩ |
        ⟨hdr, heap, rfl, owned, run, rfl⟩ | ⟨hdr, size, page, heap, p, rfl, _⟩ |
        ⟨hdr, address, value, rfl, owned, low, high, rfl⟩
      · obtain ⟨h, next, _⟩ := settled.xmallocAlign fresh run
        exact ⟨h, next⟩
      · obtain ⟨h, next, _⟩ := settled.xfree owned run
        exact ⟨h, next⟩
      · exact absurd fresh id
      · have header := (settled.inv.liveHeader hdr (settled.live ▸ owned)).1
        exact ⟨g, (settled.write value owned low high (header.exact fresh)).1⟩
  obtain ⟨g, settled⟩ := settled
  exact settled.leakFree

/-- Three blocks of a page, the middle one freed, and a block that takes pages. -/
def drainScript : List HeapOp :=
  [.xmallocAlign 100 0x10000, .xmallocAlign 50 0, .xmallocAlign 8 0, .xfree 0x10080,
    .xmallocAlign 9000 0x20000]

theorem heapRun_leakFree_script :
    ∃ state, runLabels heapStep FreshRequests drainScript emptyHeap = some state ∧
      LeakFree state := by
  have runs : (runLabels heapStep FreshRequests drainScript emptyHeap).isSome := by decide +kernel
  obtain ⟨state, run⟩ := Option.isSome_iff_exists.mp runs
  exact ⟨state, run, heapRun_leakFree (Reach.of_runLabels (.start emptyHeap_empty) run)⟩

/-- The pages that `allocate_pages` answers with are fresh; requests may wrap. -/
def FreshAnswers (state : HeapRun) : HeapOp → Prop
  | .xmallocAlign asize page => page = 0 ∨ FreshRun state.heap ⟨page, requestPages asize⟩
  | .xfree _ => True
  | .xrealloc _ _ _ => False
  | .write _ _ _ => False

instance (state : HeapRun) : (op : HeapOp) → Decidable (FreshAnswers state op)
  | .xmallocAlign asize page =>
    inferInstanceAs (Decidable (page = 0 ∨ FreshRun state.heap ⟨page, requestPages asize⟩))
  | .xfree _ => inferInstanceAs (Decidable True)
  | .xrealloc _ _ _ => inferInstanceAs (Decidable False)
  | .write _ _ _ => inferInstanceAs (Decidable False)

/-- A request for 2^64 - 8 bytes wraps to a block of 16, too short for the header
that ends where the next block begins; the page does not come back. -/
theorem wrapped_request_leaks :
    ∃ state, Reach EmptyHeap HeapStep FreshAnswers state ∧ ¬LeakFree state := by
  have runs : ∃ state, runLabels heapStep FreshAnswers [.xmallocAlign (2 ^ 64 - 8) 0x10000] emptyHeap =
        some state ∧ state.live = [0x10000] ∧
      (freeAll state.heap [0x10000]).toOption.map Heap.held = some [⟨0x10000, 1⟩] := by
    refine ⟨(runLabels heapStep FreshAnswers [.xmallocAlign (2 ^ 64 - 8) 0x10000] emptyHeap).get
      (by decide +kernel), (Option.some_get _).symm, ?_, ?_⟩
    · decide +kernel
    · decide +kernel
  obtain ⟨state, run, live, held⟩ := runs
  refine ⟨state, Reach.of_runLabels (.start emptyHeap_empty) run, fun leakFree => ?_⟩
  obtain ⟨after, freed, _, none, _⟩ := leakFree.drains [0x10000] (by rw [live])
  rw [freed] at held
  have kept : some after.held = some [⟨0x10000, 1⟩] := held
  rw [none] at kept
  contradiction

end Stardust.Xmalloc
