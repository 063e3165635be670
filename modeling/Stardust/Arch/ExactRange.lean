import Stardust.Arch.BuildRuns

/-! # `build_pagetable` maps its range

A present entry of level 2 with the PSE bit has no table of level 1 behind it; the code
takes it for one and writes the entry of a page into the data of the superpage. -/
set_option autoImplicit false
namespace Stardust.Arch

open Stardust.Mm Stardust.Lib

namespace BuildCall

/-- The call, with its result. -/
def run (call : BuildCall) : Except Halt (Build × Int) :=
  buildPagetable call.domain call.source call.frames call.startAddress call.endAddress

/-- Each frame for a table that the call takes is a good one. -/
def Served (call : BuildCall) : Prop := ∀ b result, call.run = .ok (b, result) → call.Supplies b.npfs

/-- What `pfn_alloc` of `env_pfn` gives for an address of the range. -/
def frameOf (call : BuildCall) (va : Nat) : Int := call.source.pfn ((va - call.startAddress) / 4096)

/-- The tables map each page of the range to its frame, if it has one, and nothing else is
changed. -/
structure MapsExactly (call : BuildCall) (after : Frames) : Prop where
  mapped : ∀ va, call.Inside va → 0 < call.frameOf va → ∃ t, table call.domain after (path1 va) = some t ∧
    isPresent (after t (l1TableOffset va)) = true ∧
    pteToMfn (after t (l1TableOffset va)) = (call.frameOf va).toNat
  skipped : ∀ va, call.Inside va → call.frameOf va = 0 →
    lastEntry call.domain after va = lastEntry call.domain call.frames va
  others : ∀ va m, Canonical va → ¬ call.Inside va → translate call.domain call.frames va = some m →
    translate call.domain after va = some m

/-- No page that gets a frame is in a superpage. -/
def NoSuperpage (call : BuildCall) : Prop :=
  ∀ j < call.pages, 0 < call.source.pfn j → ∀ entry, ¬ Superpage call.domain call.frames (call.page j) entry

section Range
variable {call : BuildCall} {used : Nat} {frames : Frames} {va : Nat}

/-- A run comes to its end, with the whole range done. -/
theorem run_built (ready : call.Ready) (served : call.Served) :
    ∃ b, call.run = .ok (b, 1) ∧ call.Built call.pages b.npfs b.frames := by
  obtain ⟨⟨b, result⟩, ran⟩ : ∃ outcome, call.run = .ok outcome :=
    buildLoop_ends ready ready.startAligned (Nat.lt_succ_self _)
  have start : call.Building 0 ⟨call.frames, 0, 0, [], call.startAddress⟩ :=
    ⟨Built.begin ready, nofun, rfl, rfl, Nat.zero_lt_succ 511⟩
  obtain ⟨rfl, building, submitted⟩ := buildLoop_ok ready start (Nat.zero_le _) (fun _ => rfl) ran (served b _ ran)
  refine ⟨b, ran, ?_⟩
  have built := building.built
  rw [Build.effective, submitted] at built
  exact built

/-- The page of an address of the range, with what `env_pfn` gave for it. -/
theorem Inside.page (ready : call.Ready) (inside : call.Inside va) :
    ∃ j < call.pages, call.frameOf va = call.source.pfn j ∧ va / 4096 = call.page j / 4096 := by
  refine ⟨(va - call.startAddress) / 4096, ?_, rfl, ?_⟩
  · have last := ready.endAligned
    have first := ready.startAligned
    obtain ⟨low, high⟩ := inside
    unfold pages
    omega
  · have first := ready.startAligned
    have low := inside.1
    rw [page_div ready]
    omega

theorem Superpage.congr {domain : Domain} {other entry : Nat} (same : va / 4096 = other / 4096) :
    Superpage domain frames va entry ↔ Superpage domain frames other entry := by
  have path := path1_congr same
  simp only [path1, List.cons.injEq, and_true] at path
  obtain ⟨l4, l3, l2⟩ := path
  rw [Superpage, Superpage, path2, path2, l4, l3, l2]

/-- A superpage stays. -/
theorem Built.superpage (built : call.Built call.pages used frames) {entry : Nat}
    (superpage : Superpage call.domain call.frames va entry) : Superpage call.domain frames va entry := by
  obtain ⟨parent, found, rfl, present, pse⟩ := superpage
  have same := built.keeps _ _ _ (path2_short va) found (l2TableOffset_lt va) present
  exact ⟨parent, built.grows _ _ (Nat.le_succ_of_le (path2_short va)) found, same, present, pse⟩

/-- Where the code did not write, the word is kept. -/
theorem Built.skipped (ready : call.Ready) (built : call.Built call.pages used frames) (inside : call.Inside va)
    (none : call.frameOf va = 0) : lastEntry call.domain frames va = lastEntry call.domain call.frames va := by
  obtain ⟨j, less, frame, samePage⟩ := inside.page ready
  rw [frame] at none
  have off : ∀ k < call.pages, 0 < call.source.pfn k → va / 4096 ≠ call.page k / 4096 := by
    intro k _ positive same
    rw [samePage, page_div ready, page_div ready, Nat.add_left_cancel_iff] at same
    subst same
    omega
  rcases built.reached j less with ⟨t, reached⟩ | ⟨entry, superpage⟩
  · rw [← path1_congr samePage] at reached
    rcases built.kept va (ready.canonical va inside) off t reached with ⟨before, word⟩ | ⟨missing, zero⟩
    · have word := word.resolve_right fun changed => changed.1 inside
      rw [(walk_table reached).1, (walk_table before).1, word]
    · rw [(walk_table reached).1, zero]
      rcases walk_cases call.domain call.frames va with ⟨u, before⟩ | ⟨entry, superpage⟩ | ⟨early, _⟩
      · rw [missing] at before
        cases before
      · exact absurd reached (built.superpage superpage).path1_none
      · exact early.symm
  · have superpage := (Superpage.congr samePage).mpr superpage
    rw [(walk_superpage (built.superpage superpage)).1, (walk_superpage superpage).1]

/-- Outside the range a translation stays. -/
theorem Built.others (ready : call.Ready) (built : call.Built call.pages used frames) {m : Nat}
    (canonical : Canonical va) (outside : ¬ call.Inside va)
    (translated : translate call.domain call.frames va = some m) : translate call.domain frames va = some m := by
  have off : ∀ k < call.pages, 0 < call.source.pfn k → va / 4096 ≠ call.page k / 4096 :=
    fun k less _ same => outside ((inside_congr ready same).mpr (page_inside ready less))
  rcases walk_cases call.domain call.frames va with ⟨t, before⟩ | ⟨entry, superpage⟩ | ⟨_, early⟩
  · have reached := built.grows _ _ (path1_short va) before
    rw [(walk_table before).2] at translated
    rw [(walk_table reached).2]
    rcases built.kept va canonical off t reached with ⟨_, word | ⟨_, present, there, mfn⟩⟩ | ⟨missing, _⟩
    · rw [word]
      exact translated
    · rw [if_pos there] at translated
      rw [if_pos present, mfn]
      exact translated
    · rw [missing] at before
      cases before
  · rw [(walk_superpage (built.superpage superpage)).2, ← (walk_superpage superpage).2]
    exact translated
  · rw [early] at translated
    cases translated

theorem Built.mapsExactly (ready : call.Ready) (built : call.Built call.pages used frames)
    (none : call.NoSuperpage) : call.MapsExactly frames where
  mapped va inside positive := by
    obtain ⟨j, less, frame, samePage⟩ := inside.page ready
    rw [frame] at positive ⊢
    obtain ⟨t, reached⟩ := (built.reached j less).resolve_right fun ⟨entry, superpage⟩ =>
      none j less positive entry superpage
    have small := (ready.pfns j less).2
    obtain ⟨mfn, present, _⟩ := @pteOf_spec (call.source.pfn j).toNat l1Prot (by omega) (by decide)
    rw [path1_congr samePage, l1TableOffset_congr samePage]
    refine ⟨t, reached, ?_⟩
    rw [built.mapped j less positive t reached]
    exact ⟨present, mfn⟩
  skipped _ inside none := built.skipped ready inside none
  others _ _ canonical outside translated := built.others ready canonical outside translated

/-- A page of a superpage gets no entry of its own. -/
theorem Built.mapsExactly_iff (ready : call.Ready) (built : call.Built call.pages used frames) :
    call.MapsExactly frames ↔ call.NoSuperpage := by
  refine ⟨?_, built.mapsExactly ready⟩
  intro exactly j less positive entry superpage
  have inside := page_inside ready less
  have frame : call.frameOf (call.page j) = call.source.pfn j := by
    rw [frameOf, page, Nat.add_sub_cancel_left, Nat.mul_div_cancel_left j (by decide)]
  rw [← frame] at positive
  obtain ⟨t, reached, _⟩ := exactly.mapped _ inside positive
  exact (built.superpage superpage).path1_none reached

/-- A call that its sources serve succeeds, and maps its range exactly just when no page
that gets a frame is in a superpage. -/
theorem run_mapsExactly_iff (ready : call.Ready) (served : call.Served) :
    ∃ b, call.run = .ok (b, 1) ∧ (call.MapsExactly b.frames ↔ call.NoSuperpage) := by
  obtain ⟨b, ran, built⟩ := run_built ready served
  exact ⟨b, ran, built.mapsExactly_iff ready⟩

end Range

/-! ## Two calls -/

/-- Tables in the frames 1 to 4, which map the first 2 MB, with an entry of level 2 for the
next 2 MB. -/
def smallFrames (l2 mfn index : Nat) : Nat :=
  match mfn, index with
  | 1, 0 => 0x2067
  | 2, 0 => 0x3067
  | 3, 0 => 0x4067
  | 3, 1 => l2
  | 4, index => index * 4096 + 0x67
  | _, _ => 0

def smallDomain : Domain := ⟨0x1000, id, id⟩

theorem smallDomain_root : smallDomain.root = 1 := by decide

theorem smallDomain_based : smallDomain.Based := ⟨by decide, by decide, by decide⟩

/-- Two pages from 2 MB on. -/
def smallCall (l2 : Nat) : BuildCall where
  domain := smallDomain
  source := ⟨fun j => j + 16, fun c => c + 5⟩
  frames := smallFrames l2
  startAddress := 0x200000
  endAddress := 0x202000

theorem smallFrames_present {l2 n i : Nat} (low : n ≤ 3) (present : isPresent (smallFrames l2 n i) = true) :
    (i = 0 ∧ smallFrames l2 n i = (n + 1) * 4096 + 0x67) ∨ (n = 3 ∧ smallFrames l2 n i = l2) := by
  have absent : isPresent 0 = false := rfl
  unfold smallFrames at present ⊢
  split at present
  · exact Or.inl ⟨rfl, rfl⟩
  · exact Or.inl ⟨rfl, rfl⟩
  · exact Or.inl ⟨rfl, rfl⟩
  · exact Or.inr ⟨rfl, rfl⟩
  · omega
  · rw [absent] at present
    cases present

theorem smallFrames_pse {l2 n i : Nat} (low : n ≤ 3) (present : isPresent (smallFrames l2 n i) = true)
    (pse : isPse (smallFrames l2 n i) = true) : n = 3 ∧ smallFrames l2 n i = l2 := by
  refine (smallFrames_present low present).resolve_left ?_
  rintro ⟨_, word⟩
  rw [isPse_iff] at pse
  omega

section Small
variable {l2 : Nat} (leaf : isPresent l2 = true → isPse l2 = true ∧ 4 < pteToMfn l2)
include leaf

/-- The tables are in a row. -/
theorem smallCall_table {p : List Nat} {t : Nat} (short : p.length ≤ 3)
    (found : table smallDomain (smallFrames l2) p = some t) :
    p = List.replicate p.length 0 ∧ t = p.length + 1 := by
  induction p using List.reverseRecOn generalizing t with
  | nil => exact ⟨rfl, (Option.some.inj found).symm.trans smallDomain_root⟩
  | append_singleton p i ih =>
    rw [List.length_append, List.length_singleton] at short ⊢
    obtain ⟨parent, before, step⟩ := table_concat.mp found
    obtain ⟨path, rfl⟩ := ih (Nat.le_of_succ_le short) before
    obtain ⟨⟨_, present, plain⟩, frame⟩ := child_eq_some.mp step
    rcases smallFrames_present short present with ⟨rfl, word⟩ | ⟨_, word⟩
    · rw [word, pteToMfn_eq] at frame
      rw [List.replicate_succ', ← path]
      exact ⟨rfl, by omega⟩
    · rw [word] at present plain
      rw [(leaf present).1] at plain
      cases plain

theorem smallCall_ready : (smallCall l2).Ready where
  based := smallDomain_based
  four := by
    refine ⟨?_, ?_, ?_, ?_⟩
    · intro p q t short small first second
      obtain ⟨path, place⟩ := smallCall_table leaf short first
      obtain ⟨other, same⟩ := smallCall_table leaf small second
      rw [path, other]
      congr 1
      omega
    · intro p t i short found _ present
      obtain ⟨_, rfl⟩ := smallCall_table leaf (by omega) found
      by_contra superpage
      have last := (smallFrames_pse (by omega) present (Bool.not_eq_false _ |>.mp superpage)).1
      omega
    · intro p t i q u length found _ present pse few reached
      obtain ⟨_, rfl⟩ := smallCall_table leaf (by omega) found
      obtain ⟨_, rfl⟩ := smallCall_table leaf few reached
      obtain ⟨_, word⟩ := smallFrames_pse (by omega) present pse
      change isPresent (smallFrames l2 (p.length + 1) i) = true at present
      change _ ≠ pteToMfn (smallFrames l2 (p.length + 1) i)
      rw [word] at present ⊢
      have far := (leaf present).2
      omega
    · intro p t short found
      obtain ⟨_, rfl⟩ := smallCall_table leaf (by omega) found
      exact ⟨rfl, by change p.length + 1 < 2 ^ 52; omega⟩
  startAligned := by
    change 0x200000 % 4096 = 0
    decide
  endAligned := by
    change 0x202000 % 4096 = 0
    decide
  word := by
    change 0x202000 < 2 ^ 64
    decide
  canonical va inside := by
    have high : va < 0x202000 := inside.2
    exact Or.inl (by omega)
  pfns j less := by
    have two : (smallCall l2).pages = (0x202000 - 0x200000) / 4096 := rfl
    rw [two] at less
    change (0 : Int) ≤ j + 16 ∧ (j : Int) + 16 < 2 ^ 40
    omega

end Small

theorem zero_leaf : isPresent 0 = true → isPse 0 = true ∧ 4 < pteToMfn 0 := fun present => absurd present (by decide)

theorem smallFrames_zero {n i : Nat} (low : n ≤ 3) (present : isPresent (smallFrames 0 n i) = true) :
    isPse (smallFrames 0 n i) = false := by
  by_contra superpage
  obtain ⟨_, word⟩ := smallFrames_pse low present (Bool.not_eq_false _ |>.mp superpage)
  rw [word] at present
  cases present

/-- The frame of the only call for a table is good: its page is one of the first 2 MB. -/
theorem smallCall_served : (smallCall 0).Served := by
  intro b result ran
  have count : (smallCall 0).run.toOption.map (fun outcome => outcome.1.npfs) = some 1 := by decide +kernel
  rw [ran] at count
  have one : b.npfs = 1 := Option.some.inj count
  rw [one]
  refine ⟨fun c less => ?_, fun c less => ?_, fun c d first second _ => by omega⟩
  · exact Int.natCast_nonneg (c + 5)
  · obtain rfl : c = 0 := Nat.lt_one_iff.mp less
    have frame : ((smallCall 0).source.npf 0).toNat = 5 := by decide
    have own : (smallCall 0).ownPage 5 = 0x5000 := by decide
    rw [frame]
    refine ⟨by decide, ⟨rfl, by decide⟩, ?_, ?_, ?_, ?_, ?_⟩
    · intro p short found
      have place := (smallCall_table zero_leaf short found).2
      omega
    · intro p t i length found _ present pse
      obtain ⟨_, rfl⟩ := smallCall_table zero_leaf (by omega) found
      exact absurd pse (Bool.eq_false_iff.mp (smallFrames_zero (by omega) present))
    · rw [own]
      exact Or.inl (by decide)
    · rw [own]
      rintro ⟨low, _⟩
      change 0x200000 ≤ 0x5000 at low
      omega
    · rw [own]
      exact ⟨3, 4, by decide, by decide, by decide, by decide, by decide⟩

/-- A new table for two pages. -/
theorem run_mapsExactly_two :
    ∃ b, (smallCall 0).run = .ok (b, 1) ∧ (smallCall 0).MapsExactly b.frames := by
  obtain ⟨b, ran, exactly⟩ := run_mapsExactly_iff (smallCall_ready zero_leaf) smallCall_served
  refine ⟨b, ran, exactly.mpr ?_⟩
  rintro j less _ _ ⟨t, found, rfl, present, pse⟩
  obtain ⟨_, rfl⟩ := smallCall_table zero_leaf (Nat.le_succ_of_le (path2_short _)) found
  exact absurd pse (Bool.eq_false_iff.mp (smallFrames_zero (Nat.le_refl 3) present))

/-- The entries for two pages of a superpage are written into its data. -/
theorem run_superpage_data : (smallCall 0x6000e7).Ready ∧ (smallCall 0x6000e7).Served ∧
    ∃ b, (smallCall 0x6000e7).run = .ok (b, 1) ∧ ¬ (smallCall 0x6000e7).MapsExactly b.frames := by
  have leaf : isPresent 0x6000e7 = true → isPse 0x6000e7 = true ∧ 4 < pteToMfn 0x6000e7 :=
    fun _ => ⟨by decide, by decide⟩
  have ready := smallCall_ready leaf
  have served : (smallCall 0x6000e7).Served := by
    intro b result ran
    have count : (smallCall 0x6000e7).run.toOption.map (fun outcome => outcome.1.npfs) = some 0 := by decide +kernel
    rw [ran] at count
    have none : b.npfs = 0 := Option.some.inj count
    rw [none]
    exact ⟨nofun, nofun, nofun⟩
  obtain ⟨b, ran, built⟩ := run_built ready served
  refine ⟨ready, served, b, ran, fun exactly => ?_⟩
  have superpage : Superpage (smallCall 0x6000e7).domain (smallCall 0x6000e7).frames
      ((smallCall 0x6000e7).page 0) 0x6000e7 := ⟨3, by decide, by decide, by decide, by decide⟩
  exact (built.mapsExactly_iff ready).mp exactly 0 (by decide) (by decide) _ superpage

end BuildCall

end Stardust.Arch
