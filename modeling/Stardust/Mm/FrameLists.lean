import Mathlib.Logic.Function.Basic
import Stardust.Mm.Growth

/-! # The frame lists of `arch_init_p2m`

The toolstack finds the pages of the physical-to-machine table through a page of frame
numbers of list pages, each of which has the frames of 512 pages of the table.  All of these
come from `alloc_page`, which may grow the memory on the way. -/
set_option autoImplicit false
namespace Stardust.Mm

open Stardust.Lib

def maxL2Pages : Nat := 32

/-- `ENTRIES_PER_L2_PAGE` -/
def entriesPerL2Page : Nat := 512

/-- What the code finds: the hypervisor's answers, the frame of each page, and the address of
`phys_to_machine_mapping`. -/
structure P2mSource where
  hv : Hypervisor
  mfnOf : Nat → Nat
  physToMachineMapping : Nat

/-- The static variables of the lists, the two words of `HYPERVISOR_shared_info->arch`, the
memory as words at addresses, and the page allocator. -/
structure FrameLists where
  pfnToMfnTable : Nat
  l2ListPages : Nat → Nat
  numL2Pages : Nat
  maxPfnTable : Nat
  maxmemPfnTable : Nat
  frameListList : Nat
  archMaxPfn : Nat
  memory : Nat → Nat
  mm : PageAllocator

/-- The variables of the loop. -/
structure ListLoop where
  l1Offset : Nat
  l2Offset : Nat
  l3Offset : Nat
  i : Nat
  l2List : Nat

section Code
variable (source : P2mSource)

def P2mSource.virtToMfn (address : Nat) : Nat := source.mfnOf (virtToPfn address)

/-- `&phys_to_machine_mapping[pfn]` -/
def P2mSource.entryOf (pfn : Nat) : Nat := ulongAdd source.physToMachineMapping (8 * pfn)

/-- `pointer[index] = value` -/
def FrameLists.write (s : FrameLists) (pointer index value : Nat) : FrameLists :=
  { s with memory := Function.update s.memory (pointer + 8 * index) value }

/-- The same; there is nothing to write to behind `NULL`. -/
def FrameLists.store (s : FrameLists) (pointer index value : Nat) : Except Halt FrameLists :=
  if pointer = 0 then .error .fault else .ok (s.write pointer index value)

/-- `arch_update_p2m` for pages added behind page 0. -/
def FrameLists.addPages (s : FrameLists) (endPfn : Nat) : FrameLists :=
  let maxPfnTable := if s.maxPfnTable < endPfn then endPfn else s.maxPfnTable
  { s with maxPfnTable := maxPfnTable, archMaxPfn := maxPfnTable }

/-- `alloc_page()`, which is `_allocate_pages(1, DATA_VM)`.  Growing the memory calls
`arch_update_p2m` for the new pages, which end at the new `end_alloc_page`. -/
def allocPage (s : FrameLists) : Except Halt (FrameLists × Nat) := do
  let (mm, page) ← allocatePages source.hv s.mm 1
  let before := s.mm.endAllocPage
  let s := { s with mm := mm }
  return (if before < mm.endAllocPage then s.addPages mm.endAllocPage else s, page)

/-- The branch of a turn that begins a list page. -/
def newListPage (s : FrameLists) (v : ListLoop) : Except Halt (FrameLists × ListLoop) := do
  if maxL2Pages ≤ s.numL2Pages + v.i then .error .bug
  let (s, l2List) ← allocPage source s
  let s := { s with l2ListPages := Function.update s.l2ListPages (s.numL2Pages + v.i) l2List }
  let s ← s.store s.pfnToMfnTable (s.numL2Pages + v.l3Offset) (source.virtToMfn l2List)
  return (s, { v with l2List := l2List, l3Offset := v.l3Offset + 1, i := v.i + 1 })

/-- The rest of a turn. -/
def putFrame (s : FrameLists) (v : ListLoop) : Except Halt (FrameLists × ListLoop) := do
  let s ← s.store v.l2List (v.l2Offset % entriesPerL2Page) (source.virtToMfn (source.entryOf v.l1Offset))
  return (s, { v with l1Offset := v.l1Offset + entriesPerL2Page, l2Offset := v.l2Offset + 1 })

def listTurn (s : FrameLists) (v : ListLoop) : Except Halt (FrameLists × ListLoop) :=
  if v.l2Offset % entriesPerL2Page = 0 then do
    let (s, v) ← newListPage source s v
    putFrame source s v
  else putFrame source s v

def listLoop (endPfn : Nat) : Nat → FrameLists → ListLoop → Except Halt (FrameLists × ListLoop)
  | 0, _, _ => .error .fuel
  | turns + 1, s, v =>
    if v.l1Offset < endPfn then do
      let (s, v) ← listTurn source s v
      listLoop endPfn turns s v
    else .ok (s, v)

def archUpdateP2m (s : FrameLists) (startPfn endPfn : Nat) (adding : Bool) : Except Halt FrameLists :=
  if adding then do
    let s ←
      if startPfn = 0 then do
        let (s, v) ← listLoop source endPfn (endPfn + 1) s
          ⟨startPfn, startPfn / entriesPerL2Page, 0, 0, 0⟩
        pure { s with numL2Pages := s.numL2Pages + v.i }
      else pure s
    return s.addPages endPfn
  else
    let maxPfnTable := if endPfn = s.maxPfnTable then startPfn else s.maxPfnTable
    .ok { s with maxPfnTable := maxPfnTable, archMaxPfn := maxPfnTable }

def archInitP2m (s : FrameLists) (maxPfn maxmemPfn : Nat) : Except Halt FrameLists := do
  let s := { s with numL2Pages := 0 }
  let (s, table) ← allocPage source s
  let s := { s with
    pfnToMfnTable := table
    frameListList := source.virtToMfn table
    maxPfnTable := 0
    maxmemPfnTable := maxmemPfn }
  let s ← archUpdateP2m source s 0 maxmemPfn true
  return { s with maxPfnTable := maxPfn, archMaxPfn := maxPfn }

end Code

/-! ## The pages that the lists are made of -/

/-- The page of the list pages' frames, and behind it the list pages. -/
def FrameLists.page (s : FrameLists) : Nat → Nat
  | 0 => s.pfnToMfnTable
  | q + 1 => s.l2ListPages q

/-- The pages up to number `lists` are there, each handed out once. -/
structure Paged (s : FrameLists) (lists : Nat) (given : List Block) : Prop where
  taken : ∀ n ≤ lists, s.page n ≠ 0 ∧ pageSize ∣ s.page n ∧ ⟨virtToPfn (s.page n), 1⟩ ∈ given
  distinct : ∀ n ≤ lists, ∀ m ≤ lists, s.page n = s.page m → n = m

/-- A page that the allocator hands out. -/
structure NewPage (given : List Block) (page : Nat) : Prop where
  nonzero : page ≠ 0
  aligned : pageSize ∣ page
  apart : ∀ block ∈ given, block.count = 1 → block.page ≠ virtToPfn page

section Pages
variable {source : P2mSource} {start : PageRun} {given : List Block} {s : FrameLists} {lists : Nat}

/-- The runs of `alloc_page` alone. -/
def SinglePages : PageRun → PageOp → Prop := fun _ op => op = .allocatePages 1

/-- Behind some calls of `alloc_page` the next one finds no page, and crashes. -/
def NoPage (source : P2mSource) (start : PageRun) : Prop :=
  ∃ state, Reach (· = start) (PageStep source.hv) SinglePages state ∧
    allocatePages source.hv state.mm 1 = .error .crash

/-- `alloc_page` crashes, or hands out a new page and leaves the lists alone. -/
theorem allocPage_cases (marked : Marked start.mm start.blocks)
    (reached : Reach (· = start) (PageStep source.hv) SinglePages ⟨s.mm, given⟩) :
    (allocPage source s = .error .crash ∧ NoPage source start) ∨
      ∃ mm page maxPfnTable archMaxPfn,
        allocPage source s =
          .ok ({ s with mm := mm, maxPfnTable := maxPfnTable, archMaxPfn := archMaxPfn }, page) ∧
        NewPage given page ∧
        Reach (· = start) (PageStep source.hv) SinglePages ⟨mm, ⟨virtToPfn page, 1⟩ :: given⟩ := by
  have begun : ∀ state, state = start → Marked state.mm state.blocks := by
    rintro _ rfl
    exact marked
  have here := pageRun_marked begun reached
  cases run : allocatePages source.hv s.mm 1 with
  | error halt =>
    cases here.growable.allocatePages_error source.hv (by decide) run
    refine Or.inl ⟨?_, ⟨s.mm, given⟩, reached, run⟩
    rw [allocPage, run]
    rfl
  | ok result =>
    obtain ⟨mm, page⟩ := result
    obtain ⟨⟨mid, value⟩, loop, rest⟩ := Halt.bind_eq_ok.mp run
    -- a single page is no bulk allocation: the request crashes rather than fail
    have nonzero : value ≠ 0 := by
      rintro rfl
      cases rest
    simp only [nonzero, decide_false, Bool.false_and, Bool.false_eq_true, if_false] at rest
    cases Except.ok.inj rest
    obtain ⟨_, pfn, _, _, address, _⟩ := (allocateLoop_claims loop).resolve_left nonzero
    have aligned : pageSize ∣ page := by
      rw [address]
      simp only [pfnToVirt, toVirt, pfnPhys, ulongAdd, virtStart, pageSize]
      omega
    have move : PageStep source.hv ⟨s.mm, given⟩ (.allocatePages 1) ⟨mm, ⟨virtToPfn page, 1⟩ :: given⟩ := by
      simp [PageStep, pageStep, run, granted, nonzero]
    have after := reached.next rfl move
    have apart : ∀ block ∈ given, block.count = 1 → block.page ≠ virtToPfn page := by
      intro block member one same
      have blocks := (pageRun_marked begun after).apart
      have first := (List.pairwise_cons.mp blocks).1 block (List.mem_append_left _ member)
      unfold Block.Apart at first
      simp only at first
      omega
    refine Or.inr ?_
    rw [allocPage, run, Halt.ok_bind]
    by_cases grew : s.mm.endAllocPage < mm.endAllocPage
    · simp only [if_pos grew]
      exact ⟨mm, page, _, _, rfl, ⟨nonzero, aligned, apart⟩, after⟩
    · simp only [if_neg grew]
      exact ⟨mm, page, s.maxPfnTable, s.archMaxPfn, rfl, ⟨nonzero, aligned, apart⟩, after⟩

/-- Words of two pages. -/
theorem word_inj {a b i j : Nat} (page : pageSize ∣ a) (other : pageSize ∣ b) (small : i < 512) (less : j < 512)
    (same : a + 8 * i = b + 8 * j) : a = b ∧ i = j := by
  obtain ⟨m, rfl⟩ := page
  obtain ⟨n, rfl⟩ := other
  simp only [pageSize] at *
  omega

/-- Two words of the pages have addresses of their own. -/
theorem Paged.apart (paged : Paged s lists given) {n m i j : Nat} (left : n ≤ lists) (right : m ≤ lists)
    (different : n ≠ m ∨ i ≠ j) (small : i < 512) (less : j < 512) : s.page n + 8 * i ≠ s.page m + 8 * j := by
  intro same
  obtain ⟨page, index⟩ := word_inj (paged.taken n left).2.1 (paged.taken m right).2.1 small less same
  exact different.elim (fun apart => apart (paged.distinct n left m right page)) (fun apart => apart index)

/-- One more list page. -/
theorem Paged.add (paged : Paged s lists given) {page : Nat} (new : NewPage given page) {after : FrameLists}
    (old : ∀ n ≤ lists, after.page n = s.page n) (last : after.page (lists + 1) = page) :
    Paged after (lists + 1) (⟨virtToPfn page, 1⟩ :: given) := by
  have fresh : ∀ n ≤ lists, after.page n ≠ after.page (lists + 1) := by
    intro n most same
    rw [old n most, last] at same
    exact new.apart _ (paged.taken n most).2.2 rfl (congrArg virtToPfn same)
  constructor
  · intro n most
    rcases Nat.lt_or_eq_of_le most with less | rfl
    · obtain ⟨nonzero, aligned, member⟩ := paged.taken n (Nat.le_of_lt_succ less)
      rw [old n (Nat.le_of_lt_succ less)]
      exact ⟨nonzero, aligned, List.mem_cons_of_mem _ member⟩
    · rw [last]
      exact ⟨new.nonzero, new.aligned, List.mem_cons_self ..⟩
  · intro n most m least same
    rcases Nat.lt_or_eq_of_le most with first | rfl
    · rcases Nat.lt_or_eq_of_le least with second | rfl
      · rw [old n (Nat.le_of_lt_succ first), old m (Nat.le_of_lt_succ second)] at same
        exact paged.distinct n (Nat.le_of_lt_succ first) m (Nat.le_of_lt_succ second) same
      · exact absurd same (fresh n (Nat.le_of_lt_succ first))
    · rcases Nat.lt_or_eq_of_le least with second | rfl
      · exact absurd same.symm (fresh m (Nat.le_of_lt_succ second))
      · rfl

end Pages

/-! ## What a turn adds -/

/-- `lists` list pages are there, and the frames of the first `pages` pages of the table. -/
structure Listing (source : P2mSource) (start : PageRun) (lists pages : Nat) (given : List Block)
    (s : FrameLists) (v : ListLoop) : Prop extends Paged s lists given where
  reached : Reach (· = start) (PageStep source.hv) SinglePages ⟨s.mm, given⟩
  l1Offset : v.l1Offset = entriesPerL2Page * pages
  l2Offset : v.l2Offset = pages
  l3Offset : v.l3Offset = lists
  i : v.i = lists
  numL2Pages : s.numL2Pages = 0
  current : 0 < lists → v.l2List = s.page lists
  tableRoom : lists ≤ maxL2Pages
  listRoom : pages ≤ entriesPerL2Page * lists
  listed : ∀ q < lists, s.memory (s.page 0 + 8 * q) = source.virtToMfn (s.page (q + 1))
  frames : ∀ j < pages, s.memory (s.page (j / entriesPerL2Page + 1) + 8 * (j % entriesPerL2Page)) =
    source.virtToMfn (source.entryOf (entriesPerL2Page * j))

section Turns
variable {source : P2mSource} {start : PageRun} {lists pages : Nat} {given : List Block} {s : FrameLists}
  {v : ListLoop}

@[simp] theorem FrameLists.write_memory (pointer index value : Nat) :
    (s.write pointer index value).memory = Function.update s.memory (pointer + 8 * index) value := rfl

@[simp] theorem FrameLists.write_page (pointer index value n : Nat) :
    (s.write pointer index value).page n = s.page n := by
  cases n <;> rfl

/-- What a step of the loop does: the system stops for want of a page, or the lists go on. -/
def GoesOn (source : P2mSource) (start : PageRun) (lists pages : Nat)
    (result : Except Halt (FrameLists × ListLoop)) : Prop :=
  (result = .error .crash ∧ NoPage source start) ∨
    ∃ s v given, result = .ok (s, v) ∧ Listing source start lists pages given s v

/-- A new list page. -/
theorem Listing.newListPage (marked : Marked start.mm start.blocks)
    (listing : Listing source start lists pages given s v) (room : lists < maxL2Pages) :
    GoesOn source start (lists + 1) pages (Mm.newListPage source s v) := by
  obtain ⟨paged, reached, l1, l2, l3, i, num, current, _, listRoom, listed, frames⟩ := listing
  have guard : ¬maxL2Pages ≤ s.numL2Pages + v.i := by omega
  simp only [Mm.newListPage, if_neg guard]
  rcases allocPage_cases marked reached with ⟨crash, none⟩ | ⟨mm, page, top, archTop, run, new, next⟩
  · refine Or.inl ⟨?_, none⟩
    rw [crash]
    rfl
  have table := (paged.taken 0 (Nat.zero_le _)).1
  obtain ⟨after, opened, allocator, number, old, last, memory⟩ :
      ∃ after, (allocPage source s >>= fun (s, l2List) => do
          let s := { s with l2ListPages := Function.update s.l2ListPages (s.numL2Pages + v.i) l2List }
          let s ← s.store s.pfnToMfnTable (s.numL2Pages + v.l3Offset) (source.virtToMfn l2List)
          return (s, { v with l2List := l2List, l3Offset := v.l3Offset + 1, i := v.i + 1 })) =
            .ok (after, { v with l2List := page, l3Offset := v.l3Offset + 1, i := v.i + 1 }) ∧
        after.mm = mm ∧ after.numL2Pages = 0 ∧ (∀ n ≤ lists, after.page n = s.page n) ∧
        after.page (lists + 1) = page ∧
        after.memory = Function.update s.memory (s.page 0 + 8 * lists) (source.virtToMfn page) := by
    rw [run, Halt.ok_bind]
    simp only [FrameLists.store, if_neg (show ¬s.pfnToMfnTable = 0 from table)]
    refine ⟨_, rfl, rfl, num, fun n most => ?_, ?_, ?_⟩
    · cases n with
      | zero => rfl
      | succ q => exact Function.update_of_ne (by omega) ..
    · show Function.update s.l2ListPages (s.numL2Pages + v.i) page lists = page
      rw [num, i, Nat.zero_add]
      exact Function.update_self ..
    · simp only [FrameLists.write_memory, num, l3, Nat.zero_add]
      rfl
  refine Or.inr ⟨after, _, _, opened, ⟨paged.add new old last, allocator ▸ next, l1, l2, congrArg (· + 1) l3,
    congrArg (· + 1) i, number, fun _ => last.symm, room, ?_, ?_, ?_⟩⟩
  · simp only [entriesPerL2Page] at *
    omega
  · intro q less
    simp only [maxL2Pages] at room
    rw [memory, old 0 (Nat.zero_le _)]
    rcases Nat.lt_succ_iff_lt_or_eq.mp less with earlier | rfl
    · rw [old (q + 1) earlier, Function.update_of_ne]
      · exact listed q earlier
      · exact paged.apart (Nat.zero_le _) (Nat.zero_le _) (Or.inr (Nat.ne_of_lt earlier)) (by omega) (by omega)
    · rw [last]
      exact Function.update_self ..
  · intro j less
    simp only [entriesPerL2Page, maxL2Pages] at less listRoom frames room ⊢
    have list : j / 512 + 1 ≤ lists := by omega
    rw [memory, old _ list, Function.update_of_ne]
    · exact frames j less
    · exact paged.apart list (Nat.zero_le _) (Or.inl (Nat.succ_ne_zero _)) (by omega) (by omega)

/-- The frame of the next page of the table. -/
theorem Listing.putFrame (listing : Listing source start lists pages given s v)
    (room : pages < entriesPerL2Page * lists) (last : entriesPerL2Page * lists ≤ pages + entriesPerL2Page) :
    GoesOn source start lists (pages + 1) (Mm.putFrame source s v) := by
  obtain ⟨paged, reached, l1, l2, l3, i, num, current, tableRoom, listRoom, listed, frames⟩ := listing
  have positive : 0 < lists := by
    rcases Nat.eq_zero_or_pos lists with rfl | positive
    · exact absurd room (Nat.not_lt_zero _)
    · exact positive
  have page := (paged.taken lists (Nat.le_refl _)).1
  have index := Nat.mod_lt pages (by decide : 0 < entriesPerL2Page)
  simp only [Mm.putFrame, FrameLists.store, current positive, l2, l1, if_neg page]
  refine Or.inr ⟨_, _, given, rfl, ⟨⟨?_, ?_⟩, reached, (Nat.mul_succ ..).symm, rfl, l3, i, num, fun _ => ?_,
    tableRoom, room, ?_, ?_⟩⟩
  · simpa using paged.taken
  · simpa using paged.distinct
  · exact (FrameLists.write_page ..).symm
  · intro q less
    simp only [FrameLists.write_page, FrameLists.write_memory]
    rw [Function.update_of_ne]
    · exact listed q less
    · simp only [maxL2Pages] at tableRoom
      exact paged.apart (Nat.zero_le _) (Nat.le_refl _) (Or.inl (by omega)) (by omega) index
  · intro j less
    have number : pages / entriesPerL2Page + 1 = lists := by
      simp only [entriesPerL2Page] at *
      omega
    simp only [FrameLists.write_page, FrameLists.write_memory]
    rcases Nat.lt_succ_iff_lt_or_eq.mp less with earlier | rfl
    · have inside := Nat.mod_lt j (by decide : 0 < entriesPerL2Page)
      have cell : j / entriesPerL2Page + 1 ≠ lists ∨ j % entriesPerL2Page ≠ pages % entriesPerL2Page := by
        simp only [entriesPerL2Page] at *
        omega
      have inLists : j / entriesPerL2Page + 1 ≤ lists := by
        simp only [entriesPerL2Page] at *
        omega
      rw [Function.update_of_ne (paged.apart inLists (Nat.le_refl _) cell inside index)]
      exact frames j earlier
    · rw [number]
      exact Function.update_self ..

theorem Listing.turn (marked : Marked start.mm start.blocks)
    (listing : Listing source start lists pages given s v)
    (last : entriesPerL2Page * lists < pages + entriesPerL2Page) (few : pages < maxL2Pages * entriesPerL2Page) :
    GoesOn source start (pages / entriesPerL2Page + 1) (pages + 1) (listTurn source s v) := by
  have listRoom := listing.listRoom
  simp only [entriesPerL2Page, maxL2Pages] at few last listRoom ⊢
  by_cases full : v.l2Offset % entriesPerL2Page = 0
  · rw [listTurn, if_pos full]
    rw [listing.l2Offset, entriesPerL2Page] at full
    have number : pages / 512 = lists := by omega
    rw [number]
    rcases listing.newListPage marked (by simp only [maxL2Pages]; omega) with
      ⟨crash, none⟩ | ⟨between, w, more, opened, next⟩
    · refine Or.inl ⟨?_, none⟩
      rw [crash]
      rfl
    · rw [opened]
      exact next.putFrame (by simp only [entriesPerL2Page]; omega) (by simp only [entriesPerL2Page]; omega)
  · rw [listTurn, if_neg full]
    rw [listing.l2Offset, entriesPerL2Page] at full
    have number : pages / 512 + 1 = lists := by omega
    rw [number]
    exact listing.putFrame (by simp only [entriesPerL2Page]; omega) (by simp only [entriesPerL2Page]; omega)

end Turns

/-! ## The lists -/

/-- Behind the word for 512 list pages and the word for a page of the table is the frame of
the page that has the entry of `pfn`. -/
def ListsFrames (source : P2mSource) (s : FrameLists) (maxmemPfn : Nat) : Prop :=
  ∀ pfn < maxmemPfn,
    let list := s.l2ListPages (pfn / (512 * 512))
    s.memory (s.pfnToMfnTable + 8 * (pfn / (512 * 512))) = source.virtToMfn list ∧
      s.memory (list + 8 * (pfn / 512 % 512)) = source.virtToMfn (source.entryOf pfn)

section Lists
variable {source : P2mSource} {start : PageRun} {lists pages endPfn : Nat} {given : List Block}
  {s : FrameLists} {v : ListLoop}

/-- The loop runs to its end, unless a page is wanting. -/
theorem Listing.loop (marked : Marked start.mm start.blocks)
    (listing : Listing source start lists pages given s v)
    (last : entriesPerL2Page * lists < pages + entriesPerL2Page)
    (few : endPfn ≤ maxL2Pages * 512 * 512) (turns : Nat) (enough : endPfn < 512 * pages + turns)
    (more : 0 < turns) :
    ∃ lists' pages', endPfn ≤ 512 * pages' ∧
      GoesOn source start lists' pages' (listLoop source endPfn turns s v) := by
  induction turns generalizing lists pages given s v with
  | zero => cases more
  | succ turns ih =>
    rw [listLoop]
    by_cases inside : v.l1Offset < endPfn
    · rw [if_pos inside]
      rw [listing.l1Offset, entriesPerL2Page] at inside
      simp only [maxL2Pages] at few
      rcases listing.turn marked last (by simp only [maxL2Pages, entriesPerL2Page]; omega) with
        ⟨crash, none⟩ | ⟨between, w, next, turn, added⟩
      · refine ⟨0, endPfn, by omega, Or.inl ⟨?_, none⟩⟩
        rw [crash]
        rfl
      · rw [turn]
        exact ih added (by simp only [entriesPerL2Page]; omega) (by omega) (by omega)
    · rw [if_neg inside]
      rw [listing.l1Offset, entriesPerL2Page] at inside
      exact ⟨lists, pages, Nat.not_lt.mp inside, Or.inr ⟨s, v, given, rfl, listing⟩⟩

/-- The entry of a page frame lies in the page that a list has for it. -/
theorem virtToMfn_entryOf (aligned : pageSize ∣ source.physToMachineMapping) (pfn : Nat) :
    source.virtToMfn (source.entryOf (entriesPerL2Page * (pfn / 512))) = source.virtToMfn (source.entryOf pfn) := by
  obtain ⟨page, first⟩ := aligned
  have same : virtToPfn (source.entryOf (entriesPerL2Page * (pfn / 512))) = virtToPfn (source.entryOf pfn) := by
    simp only [virtToPfn, P2mSource.entryOf, first, ulongAdd, ulongSub, virtStart, pageSize, entriesPerL2Page]
    omega
  rw [P2mSource.virtToMfn, P2mSource.virtToMfn, same]

theorem Listing.listsFrames (aligned : pageSize ∣ source.physToMachineMapping)
    (listing : Listing source start lists pages given s v) (all : endPfn ≤ 512 * pages) :
    ListsFrames source s endPfn := by
  intro pfn below
  have listRoom := listing.listRoom
  rw [entriesPerL2Page] at listRoom
  have list : pfn / (512 * 512) < lists := by omega
  have frame := listing.frames (pfn / 512) (by omega)
  rw [virtToMfn_entryOf aligned, entriesPerL2Page, Nat.div_div_eq_div_mul] at frame
  exact ⟨listing.listed _ list, frame⟩

end Lists

/-- The lists are as the toolstack reads them, for every map of pages to frames and every state
of the allocator, unless an `alloc_page` crashes because there is no page. -/
theorem archInitP2m_lists {source : P2mSource} (aligned : pageSize ∣ source.physToMachineMapping)
    {s : FrameLists} {live : List Block}
    (reached : Reach MarkedRun (PageStep source.hv) Always ⟨s.mm, live⟩) (maxPfn : Nat) {maxmemPfn : Nat}
    (few : maxmemPfn ≤ maxL2Pages * 512 * 512) :
    (∃ after, archInitP2m source s maxPfn maxmemPfn = .ok after ∧ ListsFrames source after maxmemPfn) ∨
      archInitP2m source s maxPfn maxmemPfn = .error .crash ∧ NoPage source ⟨s.mm, live⟩ := by
  have marked := pageRun_marked (fun _ => MarkedRun.marked) reached
  have here : Reach (· = (⟨s.mm, live⟩ : PageRun)) (PageStep source.hv) SinglePages ⟨s.mm, live⟩ := .start rfl
  rw [archInitP2m]
  rcases allocPage_cases (s := { s with numL2Pages := 0 }) marked here with
    ⟨crash, none⟩ | ⟨mm, table, top, archTop, run, new, next⟩
  · refine Or.inr ⟨?_, none⟩
    simp only [crash, Halt.error_bind]
  simp only [run, Halt.ok_bind, archUpdateP2m, if_true]
  have begins : Listing source ⟨s.mm, live⟩ 0 0 (⟨virtToPfn table, 1⟩ :: live)
      { s with
        numL2Pages := 0, mm := mm, archMaxPfn := archTop, pfnToMfnTable := table
        frameListList := source.virtToMfn table, maxPfnTable := 0, maxmemPfnTable := maxmemPfn }
      ⟨0, 0 / entriesPerL2Page, 0, 0, 0⟩ := by
    refine ⟨⟨fun n most => ?_, fun n most m least _ => by omega⟩, next, rfl, rfl, rfl, rfl, rfl, nofun,
      Nat.zero_le _, Nat.le_refl _, nofun, nofun⟩
    cases Nat.le_zero.mp most
    exact ⟨new.nonzero, new.aligned, List.mem_cons_self ..⟩
  obtain ⟨lists, pages, all, crash | ⟨after, v, given, loop, listing⟩⟩ :=
    begins.loop marked (by decide) few (maxmemPfn + 1) (by omega) (Nat.succ_pos _)
  · refine Or.inr ⟨?_, crash.2⟩
    rw [crash.1]
    rfl
  · have listed : ListsFrames source after maxmemPfn := listing.listsFrames aligned all
    rw [loop]
    exact Or.inl ⟨_, rfl, listed⟩

/-- A hypervisor that populates nothing; each page is its own frame. -/
def ownFrames : P2mSource where
  hv := exhaustedHypervisor
  mfnOf page := page
  physToMachineMapping := 0x100000

/-- Nothing is listed yet. -/
def noLists : FrameLists := ⟨0, fun _ => 0, 0, 0, 0, 0, 0, fun _ => 0, fivePages⟩

/-- The first list page of a table of 1000 entries. -/
theorem archInitP2m_lists_thousand :
    (archInitP2m ownFrames noLists 1000 1000).toOption.map
        (fun after => (after.pfnToMfnTable, after.l2ListPages 0, after.numL2Pages)) =
      some (pfnToVirt 3, pfnToVirt 4, 1) ∧
    ((∃ after, archInitP2m ownFrames noLists 1000 1000 = .ok after ∧ ListsFrames ownFrames after 1000) ∨
      archInitP2m ownFrames noLists 1000 1000 = .error .crash ∧ NoPage ownFrames ⟨noLists.mm, []⟩) :=
  ⟨by decide +kernel, archInitP2m_lists (by decide) (.start ⟨⟨fivePages_fresh, rfl⟩, by decide⟩) 1000 (by decide)⟩

end Stardust.Mm
