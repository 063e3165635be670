import Stardust.Xmalloc.Release
import Stardust.Lib.Reach

/-! # Runs of the heap

`heapStep` is one call, or one store of a caller into a block it owns.  A run
starts from an empty `freelist`; `Layout` says what every reached state looks
like, in terms of the words in memory only. -/
set_option autoImplicit false
namespace Stardust.Xmalloc

open Stardust.Lib
open Stardust.Mm (pageSize)

section Reallocation
variable {heap : Heap} {g : Blocks}

/-! ## What `xrealloc` does to the heap -/

theorem ulongSub_header {hdr : Nat} (fits : hdr + 24 < 2 ^ 64) :
    ulongSub (hdr + 24) headerSize = hdr := by
  simp only [headerSize]
  rw [ulongSub_eq (by omega) fits]
  omega

theorem memcpy_outside (mem : Mem) {result p n w : Nat} (outside : w < result ∨ result + n ≤ w) :
    mem.memcpy result p n w = mem w := by
  have away : ¬(result ≤ w ∧ w < result + n) := by omega
  exact if_neg away

/-- Writes to the payload of a block in use. -/
theorem HeapInv.fill (inv : HeapInv heap g) {a n : Nat} {mem : Mem} (live : a ∈ g.live)
    (room : 24 + n ≤ g.size a)
    (outside : ∀ w, w < a + 24 ∨ a + 24 + n ≤ w → mem w = heap.mem w) :
    HeapInv { heap with mem := mem } g ∧
      ∀ b, (b ∈ g.live ∨ b ∈ g.busy ∨ b ∈ g.free) → mem b = heap.mem b := by
  constructor
  · apply inv.write
    intro w elsewhere
    apply outside
    by_contra inside
    exact elsewhere (Or.inr ⟨a, live, by omega, by omega⟩)
  · intro b other
    apply outside
    by_cases same : b = a
    · omega
    · obtain ⟨_, _, _, _, _, large, _⟩ := inv.locate other
      have apart := inv.blocks_apart other (Or.inl live) same
      omega

/-- `memcpy` into the payload of a block in use. -/
theorem HeapInv.memcpy (inv : HeapInv heap g) {a p n : Nat} (live : a ∈ g.live)
    (room : 24 + n ≤ g.size a) :
    HeapInv { heap with mem := heap.mem.memcpy (a + 24) p n } g ∧
      ∀ b ∈ g.live, heap.mem.memcpy (a + 24) p n b = heap.mem b := by
  obtain ⟨filled, sizes⟩ := inv.fill live room fun w => memcpy_outside heap.mem
  exact ⟨filled, fun b other => sizes b (Or.inl other)⟩

/-- The block at `hdr` is replaced by one at `a`. -/
structure Moved (heap : Heap) (g : Blocks) (hdr a : Nat) (after : Heap) (h : Blocks) : Prop where
  inv : HeapInv after h
  busy : h.busy = []
  live : h.live = a :: g.live.erase hdr
  freelist : after.freelist = heap.freelist
  fresh : a ∉ g.live
  exact : after.mem a = h.size a
  kept : ∀ b ∈ g.live.erase hdr, after.mem b = heap.mem b ∧ h.size b = g.size b

/-- What `xrealloc` does once it has to move the block. -/
theorem xrealloc_moves {hdr size page psize result : Nat} {middle : Heap}
    (fits : hdr + 24 < 2 ^ 64) (payload : ulongOfInt (payloadSize heap.mem hdr) = psize)
    (short : ¬size ≤ psize) (run : xmallocAlign heap size page = .ok (middle, result)) :
    xrealloc heap (hdr + 24) size page =
      if result = 0 ∧ psize ≠ 0 then .error .fault
      else (do
        let after ← xfree { middle with mem := middle.mem.memcpy result (hdr + 24) psize } (hdr + 24)
        .ok (after, result)) := by
  have header : ulongSub (hdr + 24) headerSize = hdr := ulongSub_header fits
  have notNull : ¬hdr + 24 = 0 := by omega
  rw [Xmalloc.xrealloc, if_neg notNull, header, payload]
  dsimp only
  rw [if_neg short, run, Halt.ok_bind]

theorem HeapInv.xrealloc (inv : HeapInv heap g) (busy : g.busy = []) {hdr size page : Nat}
    (live : hdr ∈ g.live) (noWrap : NoWrap size) (counted : NotTruncated size)
    (answer : page = 0 ∨ FreshRun heap ⟨page, requestPages size⟩) :
    (∃ halt, xrealloc heap (hdr + 24) size page = .error halt ∧ (halt = .crash ∨ halt = .fault)) ∨
      xrealloc heap (hdr + 24) size page = .ok (heap, hdr + 24) ∨
      (∃ after h, xrealloc heap (hdr + 24) size page = .ok (after, 0) ∧
        Released heap g hdr after h) ∨
      ∃ a after h, xrealloc heap (hdr + 24) size page = .ok (after, a + 24) ∧
        Moved heap g hdr a after h := by
  have fits := inv.node_fits (Or.inl live)
  have header : ulongSub (hdr + 24) headerSize = hdr := ulongSub_header fits
  have notNull : ¬hdr + 24 = 0 := by omega
  obtain ⟨psize, payload⟩ : ∃ psize, ulongOfInt (payloadSize heap.mem hdr) = psize := ⟨_, rfl⟩
  by_cases enough : size ≤ psize
  · refine Or.inr (Or.inl ?_)
    rw [Xmalloc.xrealloc, if_neg notNull, header, payload]
    exact if_pos enough
  rcases inv.xmallocAlign busy noWrap answer with crash | null | ⟨a, middle, h, run, served⟩
  · refine Or.inl ⟨.crash, ?_, Or.inl rfl⟩
    rw [Xmalloc.xrealloc, if_neg notNull, header, payload]
    dsimp only
    rw [if_neg enough, crash, Halt.error_bind]
  · have moves := xrealloc_moves fits payload enough null
    by_cases empty : psize = 0
    · obtain ⟨after, h, freed, released⟩ := inv.xfree live busy
      refine Or.inr (Or.inr (Or.inl ⟨after, h, ?_, released⟩))
      -- nothing is copied, and the block is freed all the same
      have nothing : heap.mem.memcpy 0 (hdr + 24) 0 = heap.mem :=
        funext fun w => memcpy_outside heap.mem (Or.inr (Nat.zero_le w))
      have noFault : ¬(0 = 0 ∧ psize ≠ 0) := fun fault => fault.2 empty
      rw [moves, if_neg noFault, empty, nothing, freed, Halt.ok_bind]
    · refine Or.inl ⟨.fault, ?_, Or.inr rfl⟩
      rw [moves, if_pos ⟨rfl, empty⟩]
  · refine Or.inr (Or.inr (Or.inr ?_))
    have isLive : a ∈ h.live := by simp [served.live]
    obtain ⟨exact, large⟩ := served.large counted
    obtain ⟨copied, headers⟩ := served.inv.memcpy (p := hdr + 24) isLive
      (show 24 + psize ≤ h.size a by omega)
    have fresh : a ∉ g.live := by
      have once := served.inv.once a
      rw [served.live, List.count_cons_self] at once
      exact List.count_eq_zero.mp (by omega)
    have different : hdr ≠ a := by
      rintro rfl
      exact fresh live
    have stillLive : hdr ∈ h.live := by simp [served.live, live]
    obtain ⟨after, k, freed, released⟩ := copied.xfree stillLive served.busy
    have rest : h.live.erase hdr = a :: g.live.erase hdr := by
      rw [served.live, List.erase_cons_tail (by simpa using different.symm)]
    refine ⟨a, after, k, ?_, released.inv, released.busy, released.live.trans rest,
      released.freelist.trans served.freelist, fresh, ?_, fun b member => ?_⟩
    · have someResult : ¬(a + 24 = 0 ∧ psize ≠ 0) := by omega
      rw [xrealloc_moves fits payload enough run, if_neg someResult, freed, Halt.ok_bind]
    · obtain ⟨word, sizeA⟩ := released.kept a (by simp [rest])
      rw [word, sizeA]
      exact (headers a isLive).trans exact
    · obtain ⟨word, sizeB⟩ := released.kept b (by simp [rest, member])
      have wasLive : b ∈ g.live := List.mem_of_mem_erase member
      have still : b ∈ h.live := by simp [served.live, wasLive]
      obtain ⟨wordBefore, sizeBefore⟩ := served.kept b wasLive
      exact ⟨word.trans ((headers b still).trans wordBefore), sizeB.trans sizeBefore⟩

end Reallocation

/-! ## Runs -/

/-- The heap, and the headers of the blocks that callers hold. -/
structure HeapRun where
  heap : Heap
  live : List Nat

/-- `page` is what `allocate_pages` answers if the call asks it. -/
inductive HeapOp
  | xmallocAlign (asize page : Nat)
  | xfree (hdr : Nat)
  | xrealloc (hdr size page : Nat)
  /-- the owner of the block writes to its payload -/
  | write (hdr address value : Nat)
  deriving DecidableEq

/-- The blocks held once a call has returned `p`. -/
def obtained (p : Nat) (live : List Nat) : List Nat :=
  if p = 0 then live else ulongSub p headerSize :: live

/-- The state after a call, if the call returns. -/
def returned {α : Type} (call : Except Halt α) (next : α → HeapRun) : Option HeapRun :=
  match call with
  | .ok result => some (next result)
  | .error _ => none

theorem returned_eq_some {α : Type} {call : Except Halt α} {next : α → HeapRun} {after : HeapRun} :
    returned call next = some after ↔ ∃ result, call = .ok result ∧ next result = after := by
  cases call with
  | ok result => simp [returned]
  | error halt => simp [returned]

def heapStep (state : HeapRun) : HeapOp → Option HeapRun
  | .xmallocAlign asize page =>
    returned (xmallocAlign state.heap asize page) fun (heap, p) => ⟨heap, obtained p state.live⟩
  | .xfree hdr =>
    if hdr ∈ state.live then
      returned (xfree state.heap (hdr + headerSize)) fun heap => ⟨heap, state.live.erase hdr⟩
    else none
  | .xrealloc hdr size page =>
    if hdr ∈ state.live then
      returned (xrealloc state.heap (hdr + headerSize) size page) fun (heap, p) =>
        if p = hdr + headerSize then ⟨heap, state.live⟩
        else ⟨heap, obtained p (state.live.erase hdr)⟩
    else none
  | .write hdr address value =>
    if hdr ∈ state.live ∧ address % 8 = 0 ∧ hdr + headerSize ≤ address ∧
        address + 8 ≤ hdr + state.heap.mem hdr then
      some { state with heap.mem := state.heap.mem.store address value }
    else none

abbrev HeapStep (before : HeapRun) (op : HeapOp) (after : HeapRun) : Prop :=
  heapStep before op = some after

/-- `LIST_HEAD(freelist)`, and nothing allocated. -/
structure EmptyHeap (state : HeapRun) : Prop where
  next : state.heap.mem state.heap.freelist = state.heap.freelist
  prev : state.heap.mem (state.heap.freelist + 8) = state.heap.freelist
  held : state.heap.held = []
  taken : state.heap.taken = []
  given : state.heap.given = []
  live : state.live = []

instance (a b : Run) : Decidable (Run.Apart a b) := by
  unfold Run.Apart
  infer_instance

instance (heap : Heap) (run : Run) : Decidable (FreshRun heap run) :=
  decidable_of_iff
    (0 < run.base ∧ run.base % pageSize = 0 ∧ 0 < run.count ∧ run.stop < 2 ^ 64 ∧
      (heap.freelist + 16 ≤ run.base ∨ run.stop ≤ heap.freelist) ∧
      ∀ r ∈ heap.held, Run.Apart run r)
    ⟨fun ⟨positive, aligned, nonempty, fits, headOutside, apart⟩ =>
      ⟨positive, aligned, nonempty, fits, headOutside, apart⟩,
     fun fresh => ⟨fresh.positive, fresh.aligned, fresh.nonempty, fresh.fits, fresh.headOutside,
      fresh.apart⟩⟩

instance (asize : Nat) : Decidable (NoWrap asize) := by
  unfold NoWrap
  infer_instance

instance (asize : Nat) : Decidable (NotTruncated asize) := by
  unfold NotTruncated
  infer_instance

/-- A request that does not wrap, and that the page allocator serves, if it does,
with fresh pages. -/
def Served.Allowed (heap : Heap) (asize page : Nat) : Prop :=
  NoWrap asize ∧ (page = 0 ∨ FreshRun heap ⟨page, requestPages asize⟩)

instance (heap : Heap) (asize page : Nat) : Decidable (Served.Allowed heap asize page) := by
  unfold Served.Allowed
  infer_instance

def FreshPages (state : HeapRun) : HeapOp → Prop
  | .xmallocAlign asize page => Served.Allowed state.heap asize page
  | .xrealloc _ size page => Served.Allowed state.heap size page
  | .xfree _ => True
  | .write _ _ _ => True

instance (state : HeapRun) (op : HeapOp) : Decidable (FreshPages state op) := by
  cases op <;> unfold FreshPages <;> infer_instance

/-- No page count of the step is cut off. -/
def WholeCounts : HeapOp → Prop
  | .xmallocAlign asize _ => NotTruncated asize
  | .xrealloc _ size _ => NotTruncated size
  | .xfree _ => True
  | .write _ _ _ => True

instance (op : HeapOp) : Decidable (WholeCounts op) := by
  cases op <;> unfold WholeCounts <;> infer_instance

/-! ## The invariant of a run -/

/-- `g` is the layout of the heap between two calls. -/
structure Settled (state : HeapRun) (g : Blocks) : Prop where
  inv : HeapInv state.heap g
  busy : g.busy = []
  live : g.live = state.live

/-- All size words are exact. -/
def Exact (state : HeapRun) (g : Blocks) : Prop := ∀ a ∈ g.live, state.heap.mem a = g.size a

theorem EmptyHeap.settled {state : HeapRun} (empty : EmptyHeap state) :
    Settled state ⟨[], [], [], fun _ => [], fun _ => 0⟩ := by
  obtain ⟨next, prev, held, taken, given, live⟩ := empty
  have none : ∀ run, run ∉ state.heap.held := by simp [held]
  refine ⟨⟨⟨?_, ?_⟩, ?_, ?_, ?_, ?_, ?_, ?_, ?_, ?_, nofun, nofun, nofun, nofun, ?_⟩, rfl, live.symm⟩
  · exact ⟨next, prev⟩
  · simp
  · exact fun run member => absurd member (none run)
  · exact fun run member => absurd member (none run)
  · rw [held]
    exact List.Pairwise.nil
  · exact fun run member => absurd member (none run)
  · exact fun run member => absurd member (none run)
  · exact fun run member => absurd member (none run)
  · simp [held]
  · simp
  · rw [taken, given, held]
    exact List.Perm.nil

theorem obtained_header {a : Nat} (fits : a + 24 < 2 ^ 64) (live : List Nat) :
    obtained (a + 24) live = a :: live := by
  have notNull : ¬a + 24 = 0 := by omega
  rw [obtained, if_neg notNull, ulongSub_header fits]

section Steps
variable {state after : HeapRun} {op : HeapOp} {g : Blocks}

/-- What one step can do. -/
theorem heapStep_cases (move : heapStep state op = some after) :
    (∃ asize page heap p, op = .xmallocAlign asize page ∧
      xmallocAlign state.heap asize page = .ok (heap, p) ∧ after = ⟨heap, obtained p state.live⟩) ∨
    (∃ hdr heap, op = .xfree hdr ∧ hdr ∈ state.live ∧
      xfree state.heap (hdr + headerSize) = .ok heap ∧ after = ⟨heap, state.live.erase hdr⟩) ∨
    (∃ hdr size page heap p, op = .xrealloc hdr size page ∧ hdr ∈ state.live ∧
      xrealloc state.heap (hdr + headerSize) size page = .ok (heap, p) ∧
      after = if p = hdr + headerSize then ⟨heap, state.live⟩
        else ⟨heap, obtained p (state.live.erase hdr)⟩) ∨
    (∃ hdr address value, op = .write hdr address value ∧ hdr ∈ state.live ∧
      hdr + headerSize ≤ address ∧ address + 8 ≤ hdr + state.heap.mem hdr ∧
      after = { state with heap.mem := state.heap.mem.store address value }) := by
  cases op with
  | xmallocAlign asize page =>
    rw [heapStep] at move
    obtain ⟨⟨heap, p⟩, run, same⟩ := returned_eq_some.mp move
    exact Or.inl ⟨asize, page, heap, p, rfl, run, same.symm⟩
  | xfree hdr =>
    rw [heapStep] at move
    obtain ⟨owned, move⟩ := Option.ite_none_right_eq_some.mp move
    obtain ⟨heap, run, same⟩ := returned_eq_some.mp move
    exact Or.inr (Or.inl ⟨hdr, heap, rfl, owned, run, same.symm⟩)
  | xrealloc hdr size page =>
    rw [heapStep] at move
    obtain ⟨owned, move⟩ := Option.ite_none_right_eq_some.mp move
    obtain ⟨⟨heap, p⟩, run, same⟩ := returned_eq_some.mp move
    refine Or.inr (Or.inr (Or.inl ⟨hdr, size, page, heap, p, rfl, owned, run, ?_⟩))
    exact same.symm
  | write hdr address value =>
    rw [heapStep] at move
    obtain ⟨⟨owned, _, low, high⟩, move⟩ := Option.ite_none_right_eq_some.mp move
    exact Or.inr (Or.inr (Or.inr ⟨hdr, address, value, rfl, owned, low, high,
      (Option.some.inj move).symm⟩))

/-- The words of the blocks in use are as they were, so they stay exact. -/
theorem Exact.kept {heap : Heap} {live : List Nat} {h : Blocks} (exact : Exact state g)
    (inside : ∀ b ∈ h.live, b ∈ g.live ∧ heap.mem b = state.heap.mem b ∧ h.size b = g.size b) :
    Exact ⟨heap, live⟩ h := by
  intro b member
  obtain ⟨old, word, size⟩ := inside b member
  exact (word.trans (exact b old)).trans size.symm

theorem Settled.xmallocAlign (settled : Settled state g) {asize page p : Nat} {heap : Heap}
    (allowed : Served.Allowed state.heap asize page)
    (run : xmallocAlign state.heap asize page = .ok (heap, p)) :
    ∃ h, Settled ⟨heap, obtained p state.live⟩ h ∧
      (NotTruncated asize → Exact state g → Exact ⟨heap, obtained p state.live⟩ h) := by
  obtain ⟨inv, busy, live⟩ := settled
  rcases inv.xmallocAlign busy allowed.1 allowed.2 with crash | null | ⟨a, middle, h, found, served⟩
  · rw [crash] at run
    contradiction
  · cases Except.ok.inj (null.symm.trans run)
    exact ⟨g, ⟨inv, busy, live⟩, fun _ exact => exact⟩
  · cases Except.ok.inj (found.symm.trans run)
    have isLive : a ∈ h.live := by simp [served.live]
    rw [obtained_header (served.inv.node_fits (Or.inl isLive))]
    refine ⟨h, ⟨served.inv, served.busy, by rw [served.live, live]⟩, fun counted exact b member => ?_⟩
    rw [served.live] at member
    rcases List.mem_cons.mp member with rfl | old
    · exact (served.large counted).1
    · obtain ⟨word, size⟩ := served.kept b old
      exact (word.trans (exact b old)).trans size.symm

theorem Settled.released {hdr : Nat} {heap : Heap} {h : Blocks} (settled : Settled state g)
    (released : Released state.heap g hdr heap h) :
    Settled ⟨heap, state.live.erase hdr⟩ h ∧
      (Exact state g → Exact ⟨heap, state.live.erase hdr⟩ h) := by
  refine ⟨⟨released.inv, released.busy, by rw [released.live, settled.live]⟩, fun exact => ?_⟩
  apply exact.kept
  intro b member
  rw [released.live] at member
  exact ⟨List.mem_of_mem_erase member, released.kept b member⟩

theorem Settled.xfree (settled : Settled state g) {hdr : Nat} {heap : Heap}
    (owned : hdr ∈ state.live) (run : xfree state.heap (hdr + headerSize) = .ok heap) :
    ∃ h, Settled ⟨heap, state.live.erase hdr⟩ h ∧
      (Exact state g → Exact ⟨heap, state.live.erase hdr⟩ h) := by
  obtain ⟨freed, h, found, released⟩ := settled.inv.xfree (settled.live ▸ owned) settled.busy
  cases Except.ok.inj (found.symm.trans run)
  exact ⟨h, settled.released released⟩

theorem Settled.xrealloc (settled : Settled state g) (exact : Exact state g)
    {hdr size page p : Nat} {heap : Heap} (allowed : Served.Allowed state.heap size page)
    (counted : NotTruncated size) (owned : hdr ∈ state.live)
    (run : xrealloc state.heap (hdr + headerSize) size page = .ok (heap, p)) :
    ∃ h, Settled (if p = hdr + headerSize then ⟨heap, state.live⟩
        else ⟨heap, obtained p (state.live.erase hdr)⟩) h ∧
      Exact (if p = hdr + headerSize then ⟨heap, state.live⟩
        else ⟨heap, obtained p (state.live.erase hdr)⟩) h := by
  have live := settled.live
  simp only [headerSize] at run ⊢
  rcases settled.inv.xrealloc settled.busy (live ▸ owned) allowed.1 counted allowed.2 with
    ⟨halt, found, _⟩ | found | ⟨freed, h, found, released⟩ | ⟨a, freed, h, found, moved⟩
  · rw [found] at run
    contradiction
  · cases Except.ok.inj (found.symm.trans run)
    rw [if_pos rfl]
    exact ⟨g, ⟨settled.inv, settled.busy, live⟩, exact⟩
  · cases Except.ok.inj (found.symm.trans run)
    have null : ¬0 = hdr + 24 := by omega
    obtain ⟨after, keeps⟩ := settled.released released
    rw [if_neg null, obtained, if_pos rfl]
    exact ⟨h, after, keeps exact⟩
  · cases Except.ok.inj (found.symm.trans run)
    have isLive : a ∈ h.live := by simp [moved.live]
    have different : ¬a + 24 = hdr + 24 := by
      intro same
      rw [Nat.add_right_cancel same] at moved
      exact moved.fresh (live ▸ owned)
    rw [if_neg different, obtained_header (moved.inv.node_fits (Or.inl isLive))]
    refine ⟨h, ⟨moved.inv, moved.busy, by rw [moved.live, live]⟩, fun b member => ?_⟩
    rw [moved.live] at member
    rcases List.mem_cons.mp member with rfl | old
    · exact moved.exact
    · obtain ⟨word, size⟩ := moved.kept b old
      exact (word.trans (exact b (List.mem_of_mem_erase old))).trans size.symm

/-- A store into the payload that the size word promises stays in the block when
the word is exact. -/
theorem Settled.write (settled : Settled state g) (value : Nat) {hdr address : Nat}
    (owned : hdr ∈ state.live) (low : hdr + headerSize ≤ address)
    (high : address + 8 ≤ hdr + state.heap.mem hdr) (word : state.heap.mem hdr = g.size hdr) :
    Settled { state with heap.mem := state.heap.mem.store address value } g ∧
      (Exact state g → Exact { state with heap.mem := state.heap.mem.store address value } g) := by
  obtain ⟨inv, busy, live⟩ := settled
  rw [← live] at owned
  rw [word] at high
  simp only [headerSize] at low
  have writable : Writable g address := Or.inr ⟨hdr, owned, low, by omega⟩
  have elsewhere : ∀ w, ¬Writable g w → state.heap.mem.store address value w = state.heap.mem w := by
    intro w outside
    have different : w ≠ address := by
      rintro rfl
      exact outside writable
    simp [Mem.store, different]
  refine ⟨⟨inv.write elsewhere, busy, live⟩, fun all b other => ?_⟩
  have header := inv.header_not_writable (Or.inl other) (show b ≤ b ∧ b < b + 24 by omega)
  exact (elsewhere b header).trans (all b other)

end Steps

/-! ## The layout of every reached heap -/

/-- What the words in memory say: the blocks of every held run follow each other
from its start to its end, and are in use or on `freelist`. -/
structure Layout (state : HeapRun) (free : List Nat) (tiles : Nat → List Nat) : Prop where
  list : IsList (links state.heap.mem) state.heap.freelist (free.map node)
  tiled : ∀ run ∈ state.heap.held,
    Tiled state.heap.mem run.base (tiles run.base) run.stop
  sized : ∀ run ∈ state.heap.held, ∀ a ∈ tiles run.base,
    state.heap.mem a % 8 = 0 ∧ headerSize ≤ state.heap.mem a
  page : ∀ run ∈ state.heap.held, run.count = 1 →
    ((tiles run.base).map state.heap.mem).sum = pageSize
  owned : ∀ a, a ∈ state.live ++ free ↔ ∃ run ∈ state.heap.held, a ∈ tiles run.base
  once : (state.live ++ free).Nodup
  payloads : ∀ a ∈ state.live, ∀ b ∈ state.live, a ≠ b →
    Disjoint (Set.Ico (a + 24) (a + state.heap.mem a)) (Set.Ico (b + 24) (b + state.heap.mem b))
  headers : ∀ a ∈ state.live, ∀ b ∈ state.live ++ free,
    Disjoint (Set.Ico (a + 24) (a + state.heap.mem a)) (Set.Ico b (b + 24))

/-- A range of one block and a range of another do not meet. -/
theorem disjoint_of_apart {a b c d : Nat} (apart : b ≤ c ∨ d ≤ a) :
    Disjoint (Set.Ico a b) (Set.Ico c d) := by
  apply Set.disjoint_left.mpr
  intro w left right
  have bounds : a ≤ w ∧ w < b := left
  have others : c ≤ w ∧ w < d := right
  omega

theorem Settled.layout {state : HeapRun} {g : Blocks} (settled : Settled state g)
    (exact : Exact state g) : Layout state g.free g.tiles := by
  obtain ⟨inv, busy, live⟩ := settled
  have owned : ∀ a, a ∈ g.live ++ g.free ↔ ∃ run ∈ state.heap.held, a ∈ g.tiles run.base := by
    intro a
    have known := inv.owned a
    rw [busy] at known
    simpa using known
  have size : ∀ a ∈ g.live ++ g.free, state.heap.mem a = g.size a := by
    intro a member
    rcases List.mem_append.mp member with inUse | free
    · exact exact a inUse
    · exact inv.freeHeader a free
  have sizeTile : ∀ run ∈ state.heap.held, ∀ a ∈ g.tiles run.base, state.heap.mem a = g.size a :=
    fun run held a member => size a ((owned a).mpr ⟨run, held, member⟩)
  have apart : ∀ a ∈ g.live ++ g.free, ∀ b ∈ g.live ++ g.free, a ≠ b →
      a + g.size a ≤ b ∨ b + g.size b ≤ a := by
    intro a left b right different
    refine inv.blocks_apart ?_ ?_ different
    · exact (List.mem_append.mp left).imp_right Or.inr
    · exact (List.mem_append.mp right).imp_right Or.inr
  have tiled : ∀ run ∈ state.heap.held,
      Tiled state.heap.mem run.base (g.tiles run.base) run.stop := fun run held =>
    (inv.tiled run held).congr fun a member => sizeTile run held a member
  refine ⟨inv.list, tiled, ?_, ?_, live ▸ owned, ?_, ?_, ?_⟩
  · intro run held a member
    rw [sizeTile run held a member]
    have sized := inv.sized run held a member
    exact ⟨sized.1, sized.2.1⟩
  · intro run held single
    have total := (tiled run held).sum
    rw [Run.stop, Run.bytes, single] at total
    omega
  · apply List.nodup_iff_count_le_one.mpr
    intro a
    have once := inv.once a
    rw [List.count_append, ← live]
    omega
  · rw [← live]
    intro a left b right different
    have inA := List.mem_append_left g.free left
    have inB := List.mem_append_left g.free right
    have separate := apart a inA b inB different
    rw [size a inA, size b inB]
    apply disjoint_of_apart
    omega
  · rw [← live]
    intro a left b right
    have inA := List.mem_append_left g.free left
    rw [size a inA]
    apply disjoint_of_apart
    by_cases same : a = b
    · omega
    · have separate := apart a inA b right same
      obtain ⟨_, _, _, _, _, large, _⟩ := inv.locate
        ((List.mem_append.mp right).imp_right Or.inr)
      omega

/-- Every reached heap has a layout, and all its size words are exact, as long as no
page count is cut off. -/
theorem heapRun_settled {state : HeapRun}
    (reached : Reach EmptyHeap HeapStep (fun state op => FreshPages state op ∧ WholeCounts op)
      state) :
    ∃ g, Settled state g ∧ Exact state g := by
  refine Reach.invariant (fun state => ∃ g, Settled state g ∧ Exact state g) ?_ ?_ reached
  · intro start empty
    exact ⟨_, empty.settled, nofun⟩
  · rintro before op after ⟨g, settled, exact⟩ ⟨fresh, whole⟩ move
    rcases heapStep_cases move with ⟨asize, page, heap, p, rfl, run, rfl⟩ |
      ⟨hdr, heap, rfl, owned, run, rfl⟩ | ⟨hdr, size, page, heap, p, rfl, owned, run, rfl⟩ |
      ⟨hdr, address, value, rfl, owned, low, high, rfl⟩
    · obtain ⟨h, next, keeps⟩ := settled.xmallocAlign fresh run
      exact ⟨h, next, keeps whole exact⟩
    · obtain ⟨h, next, keeps⟩ := settled.xfree owned run
      exact ⟨h, next, keeps exact⟩
    · exact settled.xrealloc exact fresh whole owned run
    · obtain ⟨next, keeps⟩ := settled.write value owned low high
        (exact hdr (settled.live ▸ owned))
      exact ⟨g, next, keeps exact⟩

/-- Every page run of a reached heap is tiled by blocks in use and free blocks, as
long as no page count is cut off. -/
theorem heapRun_layout {state : HeapRun}
    (reached : Reach EmptyHeap HeapStep (fun state op => FreshPages state op ∧ WholeCounts op)
      state) :
    ∃ free tiles, Layout state free tiles := by
  obtain ⟨g, settled, exact⟩ := heapRun_settled reached
  exact ⟨g.free, g.tiles, settled.layout exact⟩

/-! ## A run, and a run that cuts a count off -/

/-- `freelist` at `0x1000`, empty. -/
def emptyHeap : HeapRun where
  heap :=
    { freelist := 0x1000
      mem := fun address => if address = 0x1000 ∨ address = 0x1008 then 0x1000 else 0
      held := []
      taken := []
      given := [] }
  live := []

theorem emptyHeap_empty : EmptyHeap emptyHeap := ⟨rfl, rfl, rfl, rfl, rfl, rfl⟩

/-- Two blocks of one page, a store, a block that grows into a page run, a free. -/
def heapScript : List HeapOp :=
  [.xmallocAlign 100 0x10000, .xmallocAlign 50 0, .write 0x10000 0x10018 7,
    .xrealloc 0x10000 5000 0x20000, .xfree 0x10080]

theorem heapRun_layout_script :
    ∃ state, runLabels heapStep (fun state op => FreshPages state op ∧ WholeCounts op) heapScript
        emptyHeap = some state ∧ ∃ free tiles, Layout state free tiles := by
  have runs : (runLabels heapStep (fun state op => FreshPages state op ∧ WholeCounts op) heapScript
      emptyHeap).isSome := by decide +kernel
  obtain ⟨state, run⟩ := Option.isSome_iff_exists.mp runs
  exact ⟨state, run, heapRun_layout (Reach.of_runLabels (.start emptyHeap_empty) run)⟩

/-- A request for 2^32 + 1 pages, and then one for a small block. -/
def truncatingScript : List HeapOp :=
  [.xmallocAlign (2 ^ 44) 0x10000, .xmallocAlign 8 0x11000]

/-- The count 2^32 + 1 reaches `allocate_pages` as 1: the block that its owner
sees as 16 TiB long is a single page, and the next block lies inside it. -/
theorem truncated_count_overlaps :
    ∃ state, Reach EmptyHeap HeapStep FreshPages state ∧ ¬∃ free tiles, Layout state free tiles := by
  have runs : ∃ state, runLabels heapStep FreshPages truncatingScript emptyHeap = some state ∧
      state.live = [0x11000, 0x10000] ∧ state.heap.mem 0x10000 = 2 ^ 44 + 4096 := by
    refine ⟨(runLabels heapStep FreshPages truncatingScript emptyHeap).get (by decide +kernel),
      (Option.some_get _).symm, ?_, ?_⟩
    · decide +kernel
    · decide +kernel
  obtain ⟨state, run, live, size⟩ := runs
  refine ⟨state, Reach.of_runLabels (.start emptyHeap_empty) run, ?_⟩
  rintro ⟨free, tiles, layout⟩
  have header := layout.headers 0x10000 (by simp [live]) 0x11000 (by simp [live])
  rw [size] at header
  have inPayload : 0x11000 ∈ Set.Ico (0x10000 + 24) (0x10000 + (2 ^ 44 + 4096)) :=
    ⟨by decide, by decide⟩
  have inHeader : 0x11000 ∈ Set.Ico 0x11000 (0x11000 + 24) := ⟨by decide, by decide⟩
  exact Set.disjoint_left.mp header inPayload inHeader

end Stardust.Xmalloc
