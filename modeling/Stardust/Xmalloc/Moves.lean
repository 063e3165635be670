import Stardust.Xmalloc.Layout

/-! # Moves that keep the heap's layout

Each rule takes the layout before a move to the layout after it.  Blocks that a
call has detached may be written freely; their size words need not be set. -/
set_option autoImplicit false
namespace Stardust.Xmalloc

open Stardust.Lib
open Stardust.Mm (pageSize)

section Moves
variable {heap : Heap} {g : Blocks}

/-! ## Writing where no header or link lives -/

/-- A word inside a detached block or inside the payload of a block in use. -/
def Writable (g : Blocks) (w : Nat) : Prop :=
  (∃ a ∈ g.busy, a ≤ w ∧ w < a + g.size a) ∨
    ∃ a ∈ g.live, a + 24 ≤ w ∧ w < a + g.size a

theorem HeapInv.header_not_writable (inv : HeapInv heap g) {a w : Nat}
    (owned : a ∈ g.live ∨ a ∈ g.free) (inside : a ≤ w ∧ w < a + 24) : ¬Writable g w := by
  have known : a ∈ g.live ∨ a ∈ g.busy ∨ a ∈ g.free := owned.imp_right Or.inr
  obtain ⟨_, _, _, _, _, large, _⟩ := inv.locate known
  rintro (⟨b, busy, range⟩ | ⟨b, live, range⟩)
  · have different : a ≠ b := by
      rintro rfl
      have apart := inv.busy_not_free busy
      exact owned.elim apart.2 apart.1
    have apart := inv.blocks_apart known (Or.inr (Or.inl busy)) different
    omega
  · by_cases same : a = b
    · omega
    · have apart := inv.blocks_apart known (Or.inl live) same
      omega

theorem HeapInv.head_not_writable (inv : HeapInv heap g) {w : Nat}
    (inside : heap.freelist ≤ w ∧ w < heap.freelist + 16) : ¬Writable g w := by
  rintro (⟨b, busy, range⟩ | ⟨b, live, range⟩)
  · have outside := inv.head_outside (Or.inr (Or.inl busy))
    omega
  · have outside := inv.head_outside (Or.inl live)
    omega

/-- Writes to detached blocks and payloads leave the layout as it is. -/
theorem HeapInv.write (inv : HeapInv heap g) {mem : Mem}
    (writes : ∀ w, ¬Writable g w → mem w = heap.mem w) :
    HeapInv { heap with mem := mem } g := by
  have header : ∀ {a}, a ∈ g.live ∨ a ∈ g.free → ∀ k, k < 24 → mem (a + k) = heap.mem (a + k) :=
    fun owned k inside => writes _ (inv.header_not_writable owned (by omega))
  refine { inv with list := ?_, liveHeader := ?_, freeHeader := ?_ }
  · refine inv.list.congr fun n member => ?_
    rcases List.mem_cons.mp member with rfl | member
    · exact ⟨writes _ (inv.head_not_writable (by omega)), writes _ (inv.head_not_writable (by omega))⟩
    · obtain ⟨a, free, rfl⟩ := List.mem_map.mp member
      exact ⟨header (Or.inr free) 8 (by decide), header (Or.inr free) 16 (by decide)⟩
  · intro a live
    obtain ⟨size, next, prev⟩ := inv.liveHeader a live
    have same : mem a = heap.mem a := header (Or.inl live) 0 (by decide)
    rw [← same] at size
    exact ⟨size, (header (Or.inl live) 8 (by decide)).trans next,
      (header (Or.inl live) 16 (by decide)).trans prev⟩
  · intro a free
    exact (header (Or.inr free) 0 (by decide)).trans (inv.freeHeader a free)

/-! ## The links in memory -/

/-- No node's `next` word is another node's `prev` word. -/
def Spread (nodes : Nat → Prop) : Prop := ∀ n m, nodes n → nodes m → n + 8 ≠ m

theorem links_insertBetween {mem : Mem} {nodes : Nat → Prop} (spread : Spread nodes)
    {new before after : Nat} (newIn : nodes new) (beforeIn : nodes before) (afterIn : nodes after)
    {k : Nat} (known : nodes k) :
    (links (mem.insertBetween new before after)).next k =
        ((links mem).insertBetween new before after).next k ∧
      (links (mem.insertBetween new before after)).prev k =
        ((links mem).insertBetween new before after).prev k := by
  have k1 := spread new k newIn known
  have k2 := spread after k afterIn known
  have k3 := spread k before known beforeIn
  have k4 := spread k new known newIn
  simp [links, Mem.insertBetween, Mem.store, Links.insertBetween, Links.setNext, Links.setPrev,
    Function.update_apply, k1.symm, k2.symm, k3, k4]

theorem links_listDel {mem : Mem} {nodes : Nat → Prop} (spread : Spread nodes) {entry : Nat}
    (nextIn : nodes (mem entry)) (prevIn : nodes (mem (entry + 8))) {k : Nat} (known : nodes k) :
    (links (mem.listDel entry)).next k = ((links mem).listDel entry).next k ∧
      (links (mem.listDel entry)).prev k = ((links mem).listDel entry).prev k := by
  have k1 := spread (mem entry) k nextIn known
  have k2 := spread k (mem (entry + 8)) known prevIn
  simp [links, Mem.listDel, Mem.store, Links.listDel, Links.joinAround, Links.setNext,
    Links.setPrev, Function.update_apply, k1.symm, k2]

/-- The list head and the nodes of all blocks. -/
def HeapNode (heap : Heap) (g : Blocks) (n : Nat) : Prop :=
  n = heap.freelist ∨ ∃ a, (a ∈ g.live ∨ a ∈ g.busy ∨ a ∈ g.free) ∧ n = a + 8

theorem HeapInv.spread (inv : HeapInv heap g) : Spread (HeapNode heap g) := by
  rintro n m (rfl | ⟨a, ownedA, rfl⟩) (rfl | ⟨b, ownedB, rfl⟩) same
  · omega
  · have outside := inv.head_outside ownedB
    obtain ⟨_, _, _, _, _, large, _⟩ := inv.locate ownedB
    omega
  · have outside := inv.head_outside ownedA
    obtain ⟨_, _, _, _, _, large, _⟩ := inv.locate ownedA
    omega
  · have different : a ≠ b := by omega
    have apart := inv.blocks_apart ownedA ownedB different
    obtain ⟨_, _, _, _, _, large, _⟩ := inv.locate ownedA
    obtain ⟨_, _, _, _, _, large', _⟩ := inv.locate ownedB
    omega

/-- A size word is not a link of the list head or of a block. -/
theorem HeapInv.size_not_link (inv : HeapInv heap g) {a n : Nat}
    (owned : a ∈ g.live ∨ a ∈ g.busy ∨ a ∈ g.free) (known : HeapNode heap g n) :
    a ≠ n ∧ a ≠ n + 8 := by
  obtain ⟨_, _, _, _, _, large, _⟩ := inv.locate owned
  rcases known with rfl | ⟨b, ownedB, rfl⟩
  · have outside := inv.head_outside owned
    omega
  · by_cases same : a = b
    · omega
    · have apart := inv.blocks_apart owned ownedB same
      obtain ⟨_, _, _, _, _, large', _⟩ := inv.locate ownedB
      omega

theorem heapNode_of_mem {n : Nat}
    (member : n ∈ heap.freelist :: g.free.map node) : HeapNode heap g n := by
  rcases List.mem_cons.mp member with rfl | member
  · exact Or.inl rfl
  · obtain ⟨a, free, rfl⟩ := List.mem_map.mp member
    exact Or.inr ⟨a, Or.inr (Or.inr free), rfl⟩

/-! ## Linking and unlinking -/

theorem node_injective {a b : Nat} (same : node a = node b) : a = b :=
  Nat.add_right_cancel same

theorem mem_map_node {a : Nat} {xs : List Nat} : node a ∈ xs.map node ↔ a ∈ xs := by
  constructor
  · intro member
    obtain ⟨b, inside, same⟩ := List.mem_map.mp member
    rw [← node_injective same]
    exact inside
  · exact List.mem_map_of_mem

theorem HeapInv.off_list (inv : HeapInv heap g) {a : Nat}
    (owned : a ∈ g.live ∨ a ∈ g.busy ∨ a ∈ g.free) (off : a ∉ g.free) :
    ∀ n ∈ heap.freelist :: g.free.map node, node a ≠ n := by
  rintro n member rfl
  rcases List.mem_cons.mp member with same | member
  · have outside := inv.head_outside owned
    obtain ⟨_, _, _, _, _, large, _⟩ := inv.locate owned
    simp only [node] at same
    omega
  · exact off (mem_map_node.mp member)

/-- The links of an entry lead to the head or to entries. -/
theorem HeapInv.entry_links (inv : HeapInv heap g) {a : Nat} (free : a ∈ g.free) :
    heap.mem (node a) ∈ heap.freelist :: g.free.map node ∧
      heap.mem (node a + 8) ∈ heap.freelist :: g.free.map node :=
  inv.list.neighbours (mem_map_node.mpr free)

/-- No link word of the list is writable. -/
theorem HeapInv.link_not_writable (inv : HeapInv heap g) {n w : Nat}
    (known : n ∈ heap.freelist :: g.free.map node) (writable : Writable g w) :
    w ≠ n ∧ w ≠ n + 8 := by
  rcases List.mem_cons.mp known with rfl | member
  · constructor
    · rintro rfl
      exact inv.head_not_writable (by omega) writable
    · rintro rfl
      exact inv.head_not_writable (by omega) writable
  · obtain ⟨a, free, rfl⟩ := List.mem_map.mp member
    simp only [node]
    constructor
    · rintro rfl
      exact inv.header_not_writable (Or.inr free) (by omega) writable
    · rintro rfl
      exact inv.header_not_writable (Or.inr free) (by omega) writable

/-- Unlinking an entry writes to links of the list only. -/
theorem HeapInv.unlink_apart (inv : HeapInv heap g) {a w : Nat} (free : a ∈ g.free)
    (apart : ∀ n ∈ heap.freelist :: g.free.map node, w ≠ n ∧ w ≠ n + 8) :
    heap.mem.listDel (node a) w = heap.mem w := by
  obtain ⟨next, prev⟩ := inv.entry_links free
  have offNext := (apart _ next).2
  have offPrev := (apart _ prev).1
  simp [Mem.listDel, Mem.store, offNext, offPrev]

/-- Unlinking an entry writes to no detached block and no payload. -/
theorem HeapInv.unlink_frame (inv : HeapInv heap g) {a w : Nat} (free : a ∈ g.free)
    (writable : Writable g w) : heap.mem.listDel (node a) w = heap.mem w :=
  inv.unlink_apart free fun _ known => inv.link_not_writable known writable

theorem HeapInv.unlink (inv : HeapInv heap g) {pre post : List Nat} {a : Nat}
    (split : g.free = pre ++ a :: post) :
    HeapInv { heap with mem := heap.mem.listDel (node a) }
        { g with free := pre ++ post, busy := a :: g.busy } ∧
      ∀ b, (b ∈ g.live ∨ b ∈ g.busy ∨ b ∈ g.free) → heap.mem.listDel (node a) b = heap.mem b := by
  have list := inv.list
  rw [split, List.map_append, List.map_cons] at list
  have free : a ∈ g.free := by simp [split]
  obtain ⟨nextList, prevList⟩ := inv.entry_links free
  have nextNode := heapNode_of_mem nextList
  have prevNode := heapNode_of_mem prevList
  have sizes : ∀ b, (b ∈ g.live ∨ b ∈ g.busy ∨ b ∈ g.free) →
      heap.mem.listDel (node a) b = heap.mem b := by
    intro b owned
    have atNext := inv.size_not_link owned nextNode
    have atPrev := inv.size_not_link owned prevNode
    simp [Mem.listDel, Mem.store, atNext.2, atPrev.1]
  have count : ∀ b, (pre ++ post).count b + [a].count b = g.free.count b := by
    intro b
    rw [split]
    simp only [List.count_append, List.count_cons, List.count_nil]
    omega
  have moved : ∀ b, b ∈ g.free ↔ b = a ∨ b ∈ pre ++ post := by
    intro b
    rw [split]
    simp only [List.mem_append, List.mem_cons]
    tauto
  refine ⟨{ inv with
    list := ?_, whole := ?_, owned := ?_, once := ?_, liveHeader := ?_, freeHeader := ?_,
    separate := ?_, broken := ?_ }, sizes⟩
  · have removed := list.listDel
    rw [← List.map_append] at removed
    refine removed.congr fun n member => ?_
    refine links_listDel inv.spread nextNode prevNode (heapNode_of_mem ?_)
    rcases List.mem_cons.mp member with rfl | member
    · exact List.mem_cons_self ..
    · obtain ⟨b, inside, rfl⟩ := List.mem_map.mp member
      exact List.mem_cons_of_mem _ (mem_map_node.mpr ((moved b).mpr (Or.inr inside)))
  · intro run held
    exact (inv.whole run held).imp_right fun only =>
      ⟨only.1, fun member => only.2 ((moved _).mpr (Or.inr member))⟩
  · intro b
    rw [← inv.owned b, moved b]
    simp only [List.mem_cons]
    tauto
  · intro b
    have before := inv.once b
    have here := count b
    simp only [List.count_cons, List.count_nil] at here ⊢
    omega
  · intro b live
    have before := inv.liveHeader b live
    have nodeB : HeapNode heap g (node b) := Or.inr ⟨b, Or.inl live, rfl⟩
    have offList := inv.off_list (Or.inl live) (inv.live_not_busy live).2
    have frame : ((links heap.mem).listDel (node a)).next (node b) = heap.mem (node b) ∧
        ((links heap.mem).listDel (node a)).prev (node b) = heap.mem (node b + 8) :=
      listDel_frame (offList _ prevList) (offList _ nextList)
    obtain ⟨nextSame, prevSame⟩ := links_listDel inv.spread nextNode prevNode nodeB
    rw [← sizes b (Or.inl live)] at before
    exact ⟨before.1, (nextSame.trans frame.1).trans before.2.1,
      (prevSame.trans frame.2).trans before.2.2⟩
  · intro b member
    have old := (moved b).mpr (Or.inr member)
    exact (sizes b (Or.inr (Or.inr old))).trans (inv.freeHeader b old)
  · intro b left c right
    exact inv.separate b ((moved b).mpr (Or.inr left)) c ((moved c).mpr (Or.inr right))
  · intro b member
    exact inv.broken b ((moved b).mpr (Or.inr member))

section Link
variable {a : Nat}

/-- The node of a detached block is not on the list. -/
theorem HeapInv.node_fresh (inv : HeapInv heap g) (here : a ∈ g.busy) :
    node a ∉ heap.freelist :: g.free.map node :=
  fun member => inv.off_list (Or.inr (Or.inl here)) (inv.busy_not_free here).1 _ member rfl

theorem HeapInv.links_linked (inv : HeapInv heap g) (here : a ∈ g.busy) {k : Nat} (known : HeapNode heap g k) :
    (links (heap.mem.insertBetween (node a) heap.freelist (heap.mem heap.freelist))).next k =
        ((links heap.mem).listAdd (node a) heap.freelist).next k ∧
      (links (heap.mem.insertBetween (node a) heap.freelist (heap.mem heap.freelist))).prev k =
        ((links heap.mem).listAdd (node a) heap.freelist).prev k :=
  links_insertBetween inv.spread (Or.inr ⟨a, Or.inr (Or.inl here), rfl⟩) (Or.inl rfl)
    (heapNode_of_mem inv.list.next_mem) known

theorem HeapInv.sizes_linked (inv : HeapInv heap g) (here : a ∈ g.busy) {b : Nat}
    (known : b ∈ g.live ∨ b ∈ g.busy ∨ b ∈ g.free) :
    heap.mem.insertBetween (node a) heap.freelist (heap.mem heap.freelist) b = heap.mem b := by
  have nodeA : HeapNode heap g (node a) := Or.inr ⟨a, Or.inr (Or.inl here), rfl⟩
  have nodeHead : HeapNode heap g heap.freelist := Or.inl rfl
  have nextList : heap.mem heap.freelist ∈ heap.freelist :: g.free.map node := inv.list.next_mem
  have atNext := inv.size_not_link known (heapNode_of_mem nextList)
  have atNode := inv.size_not_link known nodeA
  have atHead := inv.size_not_link known nodeHead
  simp only [node] at atNode
  simp [Mem.insertBetween, Mem.store, atNext.2, atNode, atHead.1]

/-- Linking a block writes to its header, and to links of the list. -/
theorem HeapInv.link_apart (inv : HeapInv heap g) {w : Nat}
    (apart : ∀ n ∈ heap.freelist :: g.free.map node, w ≠ n ∧ w ≠ n + 8)
    (outside : w < a ∨ a + 24 ≤ w) :
    heap.mem.insertBetween (node a) heap.freelist (heap.mem heap.freelist) w = heap.mem w := by
  have offNext := (apart _ inv.list.next_mem).2
  have offHead := (apart _ (List.mem_cons_self ..)).1
  have offNode : w ≠ a + 8 := by omega
  have offPrev : w ≠ a + 8 + 8 := by omega
  simp only [links] at offNext
  simp [Mem.insertBetween, Mem.store, offNext, offHead, offNode, offPrev]

/-- Linking a detached block writes to its header, but to no other writable word. -/
theorem HeapInv.link_frame (inv : HeapInv heap g) {w : Nat} (writable : Writable g w)
    (outside : w < a ∨ a + 24 ≤ w) :
    heap.mem.insertBetween (node a) heap.freelist (heap.mem heap.freelist) w = heap.mem w :=
  inv.link_apart (fun _ known => inv.link_not_writable known writable) outside

/-- The `BUG_ON` that follows the insertion is not reached. -/
theorem HeapInv.linked_noBug (inv : HeapInv heap g) (here : a ∈ g.busy) :
    ¬heap.mem.insertBetween (node a) heap.freelist (heap.mem heap.freelist) (node a) = node a := by
  intro loops
  have fresh := inv.node_fresh here
  have same := (inv.links_linked here (Or.inr ⟨a, Or.inr (Or.inl here), rfl⟩)).1
  have value : ((links heap.mem).listAdd (node a) heap.freelist).next (node a) =
      heap.mem heap.freelist := by
    have head : node a ≠ heap.freelist := fun same => fresh (same ▸ List.mem_cons_self ..)
    simp [Links.listAdd, Links.insertBetween, Links.setNext, Links.setPrev, head, links]
  have next : heap.mem heap.freelist = node a := (same.trans value).symm.trans loops
  exact fresh (next ▸ inv.list.next_mem)

end Link

theorem HeapInv.link (inv : HeapInv heap g) {a : Nat} {others : List Nat}
    (busy : g.busy = a :: others)
    (header : heap.mem a = g.size a) (small : g.size a < pageSize)
    (below : ∀ b ∈ g.free, samePage b a → b + g.size b ≠ a)
    (above : ∀ b ∈ g.free, samePage b a → a + g.size a ≠ b) :
    ∃ mem, heap.mem.listAdd (node a) heap.freelist = .ok mem ∧
      HeapInv { heap with mem := mem } { g with free := a :: g.free, busy := others } ∧
      ∀ b, (b ∈ g.live ∨ b ∈ g.busy ∨ b ∈ g.free) → mem b = heap.mem b := by
  have here : a ∈ g.busy := by simp [busy]
  have owned : a ∈ g.live ∨ a ∈ g.busy ∨ a ∈ g.free := Or.inr (Or.inl here)
  have nodeA : HeapNode heap g (node a) := Or.inr ⟨a, owned, rfl⟩
  have nextList : heap.mem heap.freelist ∈ heap.freelist :: g.free.map node := inv.list.next_mem
  have sizes : ∀ b, (b ∈ g.live ∨ b ∈ g.busy ∨ b ∈ g.free) →
      heap.mem.insertBetween (node a) heap.freelist (heap.mem heap.freelist) b = heap.mem b :=
    fun b known => inv.sizes_linked here known
  refine ⟨_, if_neg (inv.linked_noBug here), { inv with
    list := ?_, whole := ?_, owned := ?_, once := ?_, liveHeader := ?_, freeHeader := ?_,
    separate := ?_, broken := ?_ }, sizes⟩
  · refine (inv.list.listAdd (inv.node_fresh here)).congr fun n member => inv.links_linked here ?_
    rcases List.mem_cons.mp member with rfl | member
    · exact Or.inl rfl
    · rcases List.mem_cons.mp member with rfl | member
      · exact nodeA
      · exact heapNode_of_mem (List.mem_cons_of_mem _ member)
  · intro run held
    rcases inv.whole run held with single | ⟨one, off⟩
    · exact Or.inl single
    · by_cases base : run.base = a
      · refine Or.inl (inv.singlePage held (a := a) ?_ (by omega))
        rw [one, base]
        exact List.mem_cons_self ..
      · refine Or.inr ⟨one, fun member => ?_⟩
        rcases List.mem_cons.mp member with same | member
        · exact base same
        · exact off member
  · intro b
    rw [← inv.owned b, busy]
    simp only [List.mem_cons, or_assoc, or_left_comm]
  · intro b
    have before := inv.once b
    rw [busy] at before
    simp only [List.count_cons] at before ⊢
    omega
  · intro b live
    have before := inv.liveHeader b live
    have nodeB : HeapNode heap g (node b) := Or.inr ⟨b, Or.inl live, rfl⟩
    have offList := inv.off_list (Or.inl live) (inv.live_not_busy live).2
    have notA : node b ≠ node a := fun same =>
      (inv.live_not_busy live).1 (node_injective same ▸ here)
    have frame := listAdd_frame (l := links heap.mem) notA (offList _ (List.mem_cons_self ..))
      (offList _ nextList)
    obtain ⟨nextSame, prevSame⟩ := inv.links_linked here nodeB
    rw [← sizes b (Or.inl live)] at before
    exact ⟨before.1, (nextSame.trans frame.1).trans before.2.1,
      (prevSame.trans frame.2).trans before.2.2⟩
  · intro b member
    rcases List.mem_cons.mp member with rfl | member
    · exact (sizes b owned).trans header
    · exact (sizes b (Or.inr (Or.inr member))).trans (inv.freeHeader b member)
  · intro b left c right page
    rcases List.mem_cons.mp left with isA | oldB
    · rcases List.mem_cons.mp right with alsoA | oldC
      · obtain ⟨_, _, _, _, _, large, _⟩ := inv.locate owned
        rw [isA, alsoA]
        simp only
        omega
      · rw [isA] at page ⊢
        exact above c oldC page.symm
    · rcases List.mem_cons.mp right with isA | oldC
      · rw [isA] at page ⊢
        exact below b oldB page
      · exact inv.separate b oldB c oldC page
  · intro b member
    rcases List.mem_cons.mp member with rfl | member
    · exact small
    · exact inv.broken b member

/-! ## Between in use and detached -/

theorem HeapInv.retire (inv : HeapInv heap g) {a : Nat} (live : a ∈ g.live) (busy : g.busy = []) :
    HeapInv heap { g with live := g.live.erase a, busy := [a] } where
  list := inv.list
  runs := inv.runs
  headOutside := inv.headOutside
  apart := inv.apart
  tiled := inv.tiled
  sized := inv.sized
  whole := inv.whole
  owned b := by
    have before := inv.once b
    have here := List.count_pos_iff.mpr live
    rw [← inv.owned b, busy]
    simp only [List.mem_singleton, List.not_mem_nil, false_or]
    by_cases same : b = a
    · subst same
      simp [live]
    · simp [List.mem_erase_of_ne same, same]
  once b := by
    have before := inv.once b
    have here := List.count_pos_iff.mpr live
    rw [busy] at before
    by_cases same : b = a
    · subst same
      simp only [List.count_erase_self, List.count_cons_self, List.count_nil] at before ⊢
      omega
    · have other : a ≠ b := fun back => same back.symm
      simp only [List.count_erase_of_ne same, List.count_cons_of_ne other, List.count_nil]
        at before ⊢
      omega
  liveHeader b member := inv.liveHeader b (List.mem_of_mem_erase member)
  freeHeader := inv.freeHeader
  separate := inv.separate
  broken := inv.broken
  logged := inv.logged

theorem HeapInv.publish (inv : HeapInv heap g) {a : Nat} (busy : g.busy = [a])
    (header : HeaderOk (heap.mem a) (g.size a)) (next : heap.mem (node a) = 0)
    (prev : heap.mem (node a + 8) = 0) :
    HeapInv heap { g with live := a :: g.live, busy := [] } where
  list := inv.list
  runs := inv.runs
  headOutside := inv.headOutside
  apart := inv.apart
  tiled := inv.tiled
  sized := inv.sized
  whole := inv.whole
  owned b := by
    rw [← inv.owned b, busy]
    simp only [List.mem_cons, List.not_mem_nil, or_false, false_or]
    tauto
  once b := by
    have before := inv.once b
    rw [busy] at before
    simp only [List.count_cons, List.count_nil] at before ⊢
    omega
  liveHeader b member := by
    rcases List.mem_cons.mp member with rfl | member
    · exact ⟨header, next, prev⟩
    · exact inv.liveHeader b member
  freeHeader := inv.freeHeader
  separate := inv.separate
  broken := inv.broken
  logged := inv.logged

end Moves

end Stardust.Xmalloc
