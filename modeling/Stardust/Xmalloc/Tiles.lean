import Stardust.Xmalloc.Moves

/-! # Cutting, joining, taking and giving back

The moves of this file change only the view of the heap, not memory: a detached
block is cut in two or joined with a detached neighbour, a fresh run enters as
one detached block, and a run that is one detached block leaves. -/
set_option autoImplicit false
namespace Stardust.Xmalloc

open Stardust.Lib
open Stardust.Mm (pageSize)

section Tiles
variable {heap : Heap} {g : Blocks}

theorem HeapInv.run_of_base (inv : HeapInv heap g) {r s : Run} (left : r ∈ heap.held)
    (right : s ∈ heap.held) (same : r.base = s.base) : r = s := by
  have positiveR := (inv.runs r left).2.2.1
  have positiveS := (inv.runs s right).2.2.1
  apply inv.run_unique left right (w := r.base)
  · unfold Run.stop Run.bytes pageSize
    omega
  · unfold Run.stop Run.bytes pageSize
    omega

theorem HeapInv.tile_run (inv : HeapInv heap g) {r s : Run} (left : r ∈ heap.held)
    (right : s ∈ heap.held) {a : Nat} (inLeft : a ∈ g.tiles r.base) (inRight : a ∈ g.tiles s.base) :
    r = s := by
  have boundsL := (inv.tiled r left).bounds inLeft
  have boundsR := (inv.tiled s right).bounds inRight
  have large := (inv.sized r left a inLeft).2.1
  simp only [headerSize] at large
  exact inv.run_unique left right (w := a) (by omega) (by omega)

/-- A new view of one single-page run: its detached blocks are cut or joined, and
all other blocks keep their place and size. -/
structure Retiled (heap : Heap) (g after : Blocks) (run : Run) : Prop where
  held : run ∈ heap.held
  single : run.count = 1
  live : after.live = g.live
  free : after.free = g.free
  elsewhere : ∀ r ∈ heap.held, r ≠ run → after.tiles r.base = g.tiles r.base
  kept : ∀ b, b ∉ g.busy → b ∉ after.busy → after.size b = g.size b
  inside : ∀ b ∈ g.busy, b ∈ g.tiles run.base
  tiles : ∀ b, b ∈ after.tiles run.base ↔
    (b ∈ g.tiles run.base ∧ b ∉ g.busy) ∨ b ∈ after.busy
  fresh : ∀ b ∈ after.busy, b ∉ g.live ∧ b ∉ g.free
  nodup : after.busy.Nodup
  tiled : Tiled after.size run.base (after.tiles run.base) run.stop
  sized : ∀ a ∈ after.tiles run.base, after.size a % 8 = 0 ∧ headerSize ≤ after.size a ∧
    (a + after.size a = run.stop → 2 * headerSize ≤ after.size a)

theorem HeapInv.retile_owned (inv : HeapInv heap g) {after : Blocks} {run : Run}
    (re : Retiled heap g after run) (b : Nat) :
    (b ∈ after.live ∨ b ∈ after.busy ∨ b ∈ after.free) ↔ ∃ r ∈ heap.held, b ∈ after.tiles r.base := by
  rw [re.live, re.free]
  constructor
  · intro known
    by_cases busy : b ∈ after.busy
    · exact ⟨run, re.held, (re.tiles b).mpr (Or.inr busy)⟩
    · have notBusy : b ∉ g.busy := by
        rcases known with live | now | free
        · exact (inv.live_not_busy live).1
        · exact absurd now busy
        · exact (inv.free_not_busy free).1
      have old : b ∈ g.live ∨ b ∈ g.busy ∨ b ∈ g.free :=
        known.imp_right fun rest => rest.imp_left fun now => absurd now busy
      obtain ⟨r, held, member⟩ := (inv.owned b).mp old
      refine ⟨r, held, ?_⟩
      by_cases same : r = run
      · subst same
        exact (re.tiles b).mpr (Or.inl ⟨member, notBusy⟩)
      · rw [re.elsewhere r held same]
        exact member
  · rintro ⟨r, held, member⟩
    by_cases same : r = run
    · subst same
      rcases (re.tiles b).mp member with ⟨old, notBusy⟩ | busy
      · exact (inv.tile_owned held old).imp_right fun rest =>
          Or.inr (rest.resolve_left notBusy)
      · exact Or.inr (Or.inl busy)
    · rw [re.elsewhere r held same] at member
      have notBusy : b ∉ g.busy := fun busy =>
        same (inv.tile_run held re.held member (re.inside b busy))
      exact (inv.tile_owned held member).imp_right fun rest =>
        Or.inr (rest.resolve_left notBusy)

theorem HeapInv.retile (inv : HeapInv heap g) {after : Blocks} {run : Run}
    (re : Retiled heap g after run) : HeapInv heap after := by
  have keptLive : ∀ b ∈ g.live, after.size b = g.size b := fun b live =>
    re.kept b (inv.live_not_busy live).1 fun busy => (re.fresh b busy).1 live
  have keptFree : ∀ b ∈ g.free, after.size b = g.size b := fun b free =>
    re.kept b (inv.free_not_busy free).1 fun busy => (re.fresh b busy).2 free
  have keptElsewhere : ∀ r ∈ heap.held, r ≠ run → ∀ b ∈ g.tiles r.base,
      after.size b = g.size b := by
    intro r held different b member
    have notBusy : b ∉ g.busy := fun busy =>
      different (inv.tile_run held re.held member (re.inside b busy))
    rcases inv.tile_owned held member with live | busy | free
    · exact keptLive b live
    · exact absurd busy notBusy
    · exact keptFree b free
  refine ⟨?_, inv.runs, inv.headOutside, inv.apart, ?_, ?_, ?_, ?_, ?_, ?_, ?_, ?_, ?_, inv.logged⟩
  · rw [re.free]
    exact inv.list
  · intro r held
    by_cases same : r = run
    · exact same ▸ re.tiled
    · rw [re.elsewhere r held same]
      exact (inv.tiled r held).congr (keptElsewhere r held same)
  · intro r held b member
    by_cases same : r = run
    · subst same
      exact re.sized b member
    · rw [re.elsewhere r held same] at member
      rw [keptElsewhere r held same b member]
      exact inv.sized r held b member
  · intro r held
    by_cases same : r = run
    · exact Or.inl (same ▸ re.single)
    · rw [re.elsewhere r held same, re.free]
      exact inv.whole r held
  · exact inv.retile_owned re
  · intro b
    rw [re.live, re.free]
    have before := inv.once b
    have most := List.nodup_iff_count_le_one.mp re.nodup b
    by_cases busy : b ∈ after.busy
    · obtain ⟨offLive, offFree⟩ := re.fresh b busy
      rw [List.count_eq_zero.mpr offLive, List.count_eq_zero.mpr offFree]
      omega
    · rw [List.count_eq_zero.mpr busy]
      omega
  · intro b live
    rw [re.live] at live
    rw [keptLive b live]
    exact inv.liveHeader b live
  · intro b free
    rw [re.free] at free
    rw [keptFree b free]
    exact inv.freeHeader b free
  · intro b left c right
    rw [re.free] at left right
    rw [keptFree b left]
    exact inv.separate b left c right
  · intro b free
    rw [re.free] at free
    rw [keptFree b free]
    exact inv.broken b free

/-! ## Cutting a detached block -/

def Blocks.split (g : Blocks) (base a s : Nat) (xs ys : List Nat) : Blocks :=
  { g with
    busy := [a + s, a]
    tiles := Function.update g.tiles base (xs ++ a :: (a + s) :: ys)
    size := Function.update (Function.update g.size (a + s) (g.size a - s)) a s }

/-- In a tiling every other block differs from the one at hand. -/
theorem HeapInv.tile_ne (inv : HeapInv heap g) {run : Run} (held : run ∈ heap.held)
    {xs ys : List Nat} {a b : Nat} (tiles : g.tiles run.base = xs ++ a :: ys)
    (member : b ∈ xs ++ ys) : b ∈ g.tiles run.base ∧ b ≠ a := by
  have tiled := inv.tiled run held
  rw [tiles] at tiled
  have nodup := tiled.nodup fun c inside => by
    have large := (inv.sized run held c (tiles ▸ inside)).2.1
    simp only [headerSize] at large
    omega
  refine ⟨?_, ?_⟩
  · rw [tiles]
    rcases List.mem_append.mp member with inXs | inYs
    · exact List.mem_append_left _ inXs
    · exact List.mem_append_right _ (List.mem_cons_of_mem a inYs)
  · rintro rfl
    exact (List.nodup_cons.mp (List.nodup_middle.mp nodup)).1 member

theorem HeapInv.split (inv : HeapInv heap g) {run : Run} (held : run ∈ heap.held)
    (single : run.count = 1) {xs ys : List Nat} {a s : Nat}
    (tiles : g.tiles run.base = xs ++ a :: ys) (busy : g.busy = [a]) (least : 24 ≤ s)
    (aligned : s % 8 = 0) (room : s + 48 ≤ g.size a) :
    HeapInv heap (g.split run.base a s xs ys) := by
  have here : a ∈ g.tiles run.base := by simp [tiles]
  have owned := inv.tile_owned held here
  have sizedA := inv.sized run held a here
  have tiled := inv.tiled run held
  rw [tiles] at tiled
  have bounds := tiled.bounds (a := a) (by simp)
  -- nothing else begins inside the block
  have inside : ∀ b, (b ∈ g.live ∨ b ∈ g.busy ∨ b ∈ g.free) → b ≠ a + s := by
    rintro b known rfl
    have different : a + s ≠ a := by omega
    have apart := inv.blocks_apart owned known different.symm
    omega
  have sizeA : (g.split run.base a s xs ys).size a = s := by simp [Blocks.split]
  have sizeNew : (g.split run.base a s xs ys).size (a + s) = g.size a - s := by
    have positive : s ≠ 0 := by omega
    simp [Blocks.split, positive]
  have kept : ∀ b, b ≠ a → b ≠ a + s → (g.split run.base a s xs ys).size b = g.size b := by
    intro b notA notNew
    simp [Blocks.split, notA, notNew]
  have tilesHere : (g.split run.base a s xs ys).tiles run.base = xs ++ a :: (a + s) :: ys := by
    simp [Blocks.split]
  have keptTile : ∀ b ∈ xs ++ ys, (g.split run.base a s xs ys).size b = g.size b := by
    intro b member
    obtain ⟨old, different⟩ := inv.tile_ne held tiles member
    exact kept b different (inside b (inv.tile_owned held old))
  refine inv.retile (?_ : Retiled heap g _ run)
  refine ⟨held, single, rfl, rfl, ?_, ?_, ?_, ?_, ?_, ?_, ?_, ?_⟩
  · intro r heldR different
    have base : r.base ≠ run.base := fun same => different (inv.run_of_base heldR held same)
    simp [Blocks.split, base]
  · intro b notBusy notAfter
    simp only [Blocks.split, List.mem_cons, List.not_mem_nil, or_false, not_or] at notAfter
    exact kept b notAfter.2 notAfter.1
  · intro b member
    rw [busy, List.mem_singleton] at member
    exact member ▸ here
  · intro b
    rw [tilesHere, busy]
    simp only [Blocks.split, List.mem_append, List.mem_cons, List.not_mem_nil, or_false]
    constructor
    · rintro (inXs | isA | isNew | inYs)
      · exact Or.inl (by simpa using inv.tile_ne held tiles (List.mem_append_left ys inXs))
      · exact Or.inr (Or.inr isA)
      · exact Or.inr (Or.inl isNew)
      · exact Or.inl (by simpa using inv.tile_ne held tiles (List.mem_append_right xs inYs))
    · rintro (⟨old, notA⟩ | isNew | isA)
      · rw [tiles, List.mem_append, List.mem_cons] at old
        rcases old with inXs | isA | inYs
        · exact Or.inl inXs
        · exact absurd isA notA
        · exact Or.inr (Or.inr (Or.inr inYs))
      · exact Or.inr (Or.inr (Or.inl isNew))
      · exact Or.inr (Or.inl isA)
  · intro b member
    simp only [Blocks.split, List.mem_cons, List.not_mem_nil, or_false] at member
    rcases member with rfl | rfl
    · exact ⟨fun live => inside _ (Or.inl live) rfl, fun free => inside _ (Or.inr (Or.inr free)) rfl⟩
    · have notFree := inv.busy_not_free (a := b) (by simp [busy])
      exact ⟨notFree.2, notFree.1⟩
  · have positive : s ≠ 0 := by omega
    simp [Blocks.split, positive]
  · rw [tilesHere]
    exact tiled.split (by omega) sizeA sizeNew keptTile
  · intro b member
    rw [tilesHere] at member
    simp only [List.mem_append, List.mem_cons] at member
    have others : b ∈ xs ++ ys → _ := fun old => by
      have sized := inv.sized run held b (inv.tile_ne held tiles old).1
      rw [← keptTile b old] at sized
      exact sized
    rcases member with inXs | rfl | rfl | inYs
    · exact others (List.mem_append_left ys inXs)
    · rw [sizeA]
      simp only [headerSize]
      omega
    · rw [sizeNew]
      simp only [headerSize]
      omega
    · exact others (List.mem_append_right xs inYs)

/-! ## Joining two detached neighbours -/

def Blocks.merge (g : Blocks) (base a b : Nat) (xs ys : List Nat) : Blocks :=
  { g with
    busy := [a]
    tiles := Function.update g.tiles base (xs ++ a :: ys)
    size := Function.update g.size a (g.size a + g.size b) }

theorem HeapInv.merge (inv : HeapInv heap g) {run : Run} (held : run ∈ heap.held)
    (single : run.count = 1) {xs ys : List Nat} {a b : Nat}
    (tiles : g.tiles run.base = xs ++ a :: b :: ys) (busy : ∀ c, c ∈ g.busy ↔ c = a ∨ c = b) :
    HeapInv heap (g.merge run.base a b xs ys) := by
  have tilesB : g.tiles run.base = (xs ++ [a]) ++ b :: ys := by simp [tiles]
  have hereA : a ∈ g.tiles run.base := by simp [tiles]
  have hereB : b ∈ g.tiles run.base := by simp [tiles]
  have sizedA := inv.sized run held a hereA
  have sizedB := inv.sized run held b hereB
  have tiled := inv.tiled run held
  rw [tiles] at tiled
  have different : b ≠ a := (inv.tile_ne held tiles (by simp)).2
  have sizeA : (g.merge run.base a b xs ys).size a = g.size a + g.size b := by simp [Blocks.merge]
  have kept : ∀ c, c ≠ a → (g.merge run.base a b xs ys).size c = g.size c := by
    intro c notA
    simp [Blocks.merge, notA]
  have tilesHere : (g.merge run.base a b xs ys).tiles run.base = xs ++ a :: ys := by
    simp [Blocks.merge]
  have other : ∀ c ∈ xs ++ ys, c ∈ g.tiles run.base ∧ c ≠ a ∧ c ≠ b := by
    intro c member
    have fromA := inv.tile_ne held tiles (b := c) (by
      rcases List.mem_append.mp member with inXs | inYs
      · exact List.mem_append_left _ inXs
      · exact List.mem_append_right _ (List.mem_cons_of_mem b inYs))
    have fromB := inv.tile_ne held tilesB (b := c) (by
      rcases List.mem_append.mp member with inXs | inYs
      · exact List.mem_append_left _ (List.mem_append_left _ inXs)
      · exact List.mem_append_right _ inYs)
    exact ⟨fromA.1, fromA.2, fromB.2⟩
  have ends : b + g.size b = a + (g.size a + g.size b) := by
    obtain ⟨_, _, first, second, _⟩ := tiled_append.mp tiled
    omega
  refine inv.retile (?_ : Retiled heap g _ run)
  refine ⟨held, single, rfl, rfl, ?_, ?_, ?_, ?_, ?_, ?_, ?_, ?_⟩
  · intro r heldR notHere
    have base : r.base ≠ run.base := fun same => notHere (inv.run_of_base heldR held same)
    simp [Blocks.merge, base]
  · intro c notBusy notAfter
    simp only [Blocks.merge, List.mem_singleton] at notAfter
    exact kept c notAfter
  · intro c member
    rcases (busy c).mp member with rfl | rfl
    · exact hereA
    · exact hereB
  · intro c
    rw [tilesHere, busy c, List.mem_append, List.mem_cons]
    simp only [Blocks.merge, List.mem_singleton]
    constructor
    · rintro (inXs | isA | inYs)
      · have facts := other c (List.mem_append_left ys inXs)
        exact Or.inl ⟨facts.1, not_or.mpr facts.2⟩
      · exact Or.inr isA
      · have facts := other c (List.mem_append_right xs inYs)
        exact Or.inl ⟨facts.1, not_or.mpr facts.2⟩
    · rintro (⟨old, notBusy⟩ | isA)
      · rw [tiles, List.mem_append, List.mem_cons, List.mem_cons] at old
        rcases old with inXs | isA | isB | inYs
        · exact Or.inl inXs
        · exact absurd (Or.inl isA) notBusy
        · exact absurd (Or.inr isB) notBusy
        · exact Or.inr (Or.inr inYs)
      · exact Or.inr (Or.inl isA)
  · intro c member
    simp only [Blocks.merge, List.mem_singleton] at member
    have notFree := inv.busy_not_free ((busy c).mpr (Or.inl member))
    exact ⟨notFree.2, notFree.1⟩
  · exact List.nodup_singleton a
  · rw [tilesHere]
    exact tiled.merge sizeA fun c member => kept c (other c member).2.1
  · intro c member
    rw [tilesHere] at member
    simp only [List.mem_append, List.mem_cons] at member
    have others : c ∈ xs ++ ys → _ := fun old => by
      have sized := inv.sized run held c (other c old).1
      rw [← kept c (other c old).2.1] at sized
      exact sized
    rcases member with inXs | rfl | inYs
    · exact others (List.mem_append_left ys inXs)
    · rw [sizeA]
      simp only [headerSize] at sizedA sizedB ⊢
      omega
    · exact others (List.mem_append_right xs inYs)

/-! ## Runs that come and go -/

/-- What the page allocator promises of the pages it hands out. -/
structure FreshRun (heap : Heap) (run : Run) : Prop where
  positive : 0 < run.base
  aligned : run.base % pageSize = 0
  nonempty : 0 < run.count
  fits : run.stop < 2 ^ 64
  headOutside : heap.freelist + 16 ≤ run.base ∨ run.stop ≤ heap.freelist
  apart : ∀ r ∈ heap.held, Run.Apart run r

def Blocks.takeRun (g : Blocks) (run : Run) : Blocks :=
  { g with
    busy := [run.base]
    tiles := Function.update g.tiles run.base [run.base]
    size := Function.update g.size run.base run.bytes }

theorem FreshRun.bytes_le {run : Run} (fresh : FreshRun heap run) : pageSize ≤ run.bytes :=
  Nat.le_mul_of_pos_left pageSize fresh.nonempty

/-- No block that the heap knows begins where a fresh run does. -/
theorem HeapInv.fresh_not_owned (inv : HeapInv heap g) {run : Run} (fresh : FreshRun heap run) :
    ¬(run.base ∈ g.live ∨ run.base ∈ g.busy ∨ run.base ∈ g.free) := by
  intro known
  obtain ⟨r, held, member⟩ := (inv.owned run.base).mp known
  have bytes := fresh.bytes_le
  have stop : run.stop = run.base + run.bytes := rfl
  have apart := fresh.apart r held
  have bounds := (inv.tiled r held).bounds member
  have large := (inv.sized r held _ member).2.1
  simp only [headerSize] at large
  simp only [pageSize] at bytes
  unfold Run.Apart at apart
  omega

theorem HeapInv.fresh_base_ne (inv : HeapInv heap g) {run : Run} (fresh : FreshRun heap run) :
    ∀ r ∈ heap.held, r.base ≠ run.base := by
  intro r held same
  have nonempty := fresh.nonempty
  have apart := fresh.apart r held
  have positive := (inv.runs r held).2.2.1
  unfold Run.Apart Run.stop Run.bytes pageSize at apart
  omega

theorem HeapInv.take (inv : HeapInv heap g) {run : Run} (fresh : FreshRun heap run)
    (busy : g.busy = []) : HeapInv (heap.take run) (g.takeRun run) := by
  have bytes := fresh.bytes_le
  have notOwned := inv.fresh_not_owned fresh
  have bases := inv.fresh_base_ne fresh
  have keptSize : ∀ b, (b ∈ g.live ∨ b ∈ g.busy ∨ b ∈ g.free) →
      (g.takeRun run).size b = g.size b := by
    intro b known
    have different : b ≠ run.base := fun same => notOwned (same ▸ known)
    simp [Blocks.takeRun, different]
  have keptTiles : ∀ r ∈ heap.held, (g.takeRun run).tiles r.base = g.tiles r.base := by
    intro r held
    simp [Blocks.takeRun, bases r held]
  have newTiles : (g.takeRun run).tiles run.base = [run.base] := by simp [Blocks.takeRun]
  have newSize : (g.takeRun run).size run.base = run.bytes := by simp [Blocks.takeRun]
  refine ⟨inv.list, ?_, ?_, ?_, ?_, ?_, ?_, ?_, ?_, ?_, ?_, ?_, ?_, ?_⟩
  · intro r held
    rcases List.mem_cons.mp held with rfl | held
    · exact ⟨fresh.positive, fresh.aligned, fresh.nonempty, fresh.fits⟩
    · exact inv.runs r held
  · intro r held
    rcases List.mem_cons.mp held with rfl | held
    · exact fresh.headOutside
    · exact inv.headOutside r held
  · exact List.pairwise_cons.mpr ⟨fresh.apart, inv.apart⟩
  · intro r held
    rcases List.mem_cons.mp held with rfl | held
    · rw [newTiles]
      exact ⟨rfl, by rw [newSize]; rfl⟩
    · rw [keptTiles r held]
      exact (inv.tiled r held).congr fun b member => keptSize b (inv.tile_owned held member)
  · intro r held b member
    rcases List.mem_cons.mp held with rfl | held
    · rw [newTiles, List.mem_singleton] at member
      rw [member, newSize]
      simp only [headerSize]
      unfold Run.bytes at bytes ⊢
      simp only [pageSize] at bytes ⊢
      omega
    · rw [keptTiles r held] at member
      rw [keptSize b (inv.tile_owned held member)]
      exact inv.sized r held b member
  · intro r held
    rcases List.mem_cons.mp held with rfl | held
    · exact Or.inr ⟨newTiles, fun free => notOwned (Or.inr (Or.inr free))⟩
    · rw [keptTiles r held]
      exact inv.whole r held
  · intro b
    have before := inv.owned b
    rw [busy] at before
    simp only [List.not_mem_nil, false_or] at before
    simp only [Heap.take, List.exists_mem_cons_iff, newTiles, List.mem_singleton]
    have rest : (∃ r ∈ heap.held, b ∈ (g.takeRun run).tiles r.base) ↔
        ∃ r ∈ heap.held, b ∈ g.tiles r.base :=
      exists_congr fun r => and_congr_right fun held => by rw [keptTiles r held]
    rw [rest, ← before]
    simp only [Blocks.takeRun, List.mem_singleton]
    exact or_left_comm
  · intro b
    have before := inv.once b
    rw [busy] at before
    simp only [Blocks.takeRun, List.count_nil, Nat.add_zero] at before ⊢
    by_cases isNew : b = run.base
    · have noLive : g.live.count b = 0 :=
        List.count_eq_zero.mpr fun live => notOwned (isNew ▸ Or.inl live)
      have noFree : g.free.count b = 0 :=
        List.count_eq_zero.mpr fun free => notOwned (isNew ▸ Or.inr (Or.inr free))
      rw [noLive, noFree, isNew]
      simp
    · have other : run.base ≠ b := fun same => isNew same.symm
      rw [List.count_cons_of_ne other, List.count_nil]
      exact before
  · intro b live
    rw [keptSize b (Or.inl live)]
    exact inv.liveHeader b live
  · intro b free
    rw [keptSize b (Or.inr (Or.inr free))]
    exact inv.freeHeader b free
  · intro b left c right
    rw [keptSize b (Or.inr (Or.inr left))]
    exact inv.separate b left c right
  · intro b free
    rw [keptSize b (Or.inr (Or.inr free))]
    exact inv.broken b free
  · exact (inv.logged.cons run).trans List.perm_middle.symm

theorem HeapInv.held_nodup (inv : HeapInv heap g) : heap.held.Nodup := by
  refine inv.apart.imp_of_mem fun left _ apart same => ?_
  have positive := (inv.runs _ left).2.2.1
  rw [← same] at apart
  unfold Run.Apart Run.stop Run.bytes pageSize at apart
  omega

theorem HeapInv.give (inv : HeapInv heap g) {run : Run} (held : run ∈ heap.held) {a : Nat}
    (tiles : g.tiles run.base = [a]) (busy : g.busy = [a]) :
    HeapInv (heap.give run) { g with busy := [] } := by
  have remains : ∀ r, r ∈ (heap.give run).held ↔ r ∈ heap.held ∧ r ≠ run := fun r =>
    (inv.held_nodup.mem_erase_iff).trans and_comm
  refine ⟨inv.list, ?_, ?_, ?_, ?_, ?_, ?_, ?_, ?_, inv.liveHeader, inv.freeHeader, inv.separate,
    inv.broken, ?_⟩
  · exact fun r member => inv.runs r ((remains r).mp member).1
  · exact fun r member => inv.headOutside r ((remains r).mp member).1
  · exact inv.apart.sublist List.erase_sublist
  · exact fun r member => inv.tiled r ((remains r).mp member).1
  · exact fun r member => inv.sized r ((remains r).mp member).1
  · exact fun r member => inv.whole r ((remains r).mp member).1
  · intro b
    have before := inv.owned b
    rw [busy] at before
    constructor
    · intro known
      have old : b ∈ g.live ∨ b ∈ [a] ∨ b ∈ g.free :=
        known.imp_right fun rest => rest.imp_left fun impossible => nomatch impossible
      obtain ⟨r, heldR, member⟩ := before.mp old
      refine ⟨r, (remains r).mpr ⟨heldR, ?_⟩, member⟩
      rintro rfl
      rw [tiles, List.mem_singleton] at member
      have gone := inv.busy_not_free (a := a) (by simp [busy])
      rcases known with live | impossible | free
      · exact gone.2 (member ▸ live)
      · exact nomatch impossible
      · exact gone.1 (member ▸ free)
    · rintro ⟨r, member, inTiles⟩
      obtain ⟨heldR, different⟩ := (remains r).mp member
      rcases before.mpr ⟨r, heldR, inTiles⟩ with live | isA | free
      · exact Or.inl live
      · rw [List.mem_singleton.mp isA] at inTiles
        exact absurd (inv.tile_run heldR held inTiles (by simp [tiles])) different
      · exact Or.inr (Or.inr free)
  · intro b
    have before := inv.once b
    simp only [List.count_nil]
    omega
  · have order := (inv.logged.trans ((List.perm_cons_erase held).append_left heap.given))
    exact order.trans List.perm_middle

/-! ## How long `freelist` can be -/

theorem sum_length_le (inv : HeapInv heap g) :
    ((heap.held.map fun run => (g.tiles run.base).length).sum) * headerSize ≤
      (heap.held.map Run.bytes).sum := by
  have each : ∀ run ∈ heap.held, (g.tiles run.base).length * headerSize ≤ run.bytes := by
    intro run held
    have bound := (inv.tiled run held).length_le fun a member => (inv.sized run held a member).2.1
    unfold Run.stop at bound
    omega
  revert each
  induction heap.held with
  | nil => simp
  | cons run rest ih =>
    intro each
    have first := each run (List.mem_cons_self ..)
    have others := ih fun r member => each r (List.mem_cons_of_mem run member)
    simp only [List.map_cons, List.sum_cons, Nat.add_mul]
    omega

theorem HeapInv.free_length (inv : HeapInv heap g) : g.free.length < traversalBound heap := by
  have nodup : g.free.Nodup := List.nodup_iff_count_le_one.mpr fun a => by
    have once := inv.once a
    omega
  have inside : g.free ⊆ heap.held.flatMap fun run => g.tiles run.base := by
    intro a free
    obtain ⟨run, held, member⟩ := (inv.owned a).mp (Or.inr (Or.inr free))
    exact List.mem_flatMap.mpr ⟨run, held, member⟩
  have shorter := (List.subperm_of_subset nodup inside).length_le
  rw [List.length_flatMap] at shorter
  have total := sum_length_le inv
  unfold traversalBound
  simp only [headerSize] at total ⊢
  omega

end Tiles

end Stardust.Xmalloc
