import Mathlib.Algebra.Group.Nat.Defs
import Mathlib.Data.Nat.Notation
import Mathlib.Logic.Function.Basic
import Stardust.Lib.Reach

/-! # Records under a version

A writer publishes a record by counting a version up, writing its fields and counting it up
again.  A copy of the record is taken field by field, between two looks at the version, and
taken again when they differ; it can be interrupted at any point by another taking of the
same copy.  A reader of the copy looks at its version in the same way. -/
set_option autoImplicit false
namespace Stardust.Lib

universe u v

variable {ι : Type u} {α : Type v} [DecidableEq ι]

/-- Where the taking of a copy is. -/
inductive CopyPlace (ι : Type u)
  /-- the version is to be taken over -/
  | version
  /-- these fields are still to be taken over -/
  | fields (rest : List ι)
  /-- whether the version was odd has been looked at; it is to be compared -/
  | compare (odd : Bool)
  deriving DecidableEq

/-- Where the reader of the copy is. -/
inductive ReadPlace (ι : Type u)
  | idle
  | version
  | fields (rest : List ι)
  | compare
  | done
  deriving DecidableEq

structure SeqLock (ι : Type u) (α : Type v) where
  /-- how often the version has been counted up -/
  ticks : ℕ
  source : ι → α
  /-- ghost: what was published with each tick -/
  record : ℕ → ι → α
  version : ℕ
  copy : ι → α
  /-- ghost: the tick that `version` was taken over at -/
  taken : ℕ
  /-- the takings of the copy, the one that runs first -/
  frames : List (CopyPlace ι)
  reading : ReadPlace ι
  localVersion : ℕ
  /-- ghost: the tick of `localVersion` -/
  localTaken : ℕ
  got : ι → Option α

inductive SeqTurn (ι : Type u) (α : Type v)
  | begin
  | write (i : ι) (value : α)
  | finish
  /-- another taking of the copy comes in between -/
  | interrupt
  | read
  | run
  deriving DecidableEq

namespace SeqLock
variable (copyOrder readOrder : List ι) (wrap : ℕ)

/-- The next access of a taking of the copy. -/
def copyStep (s : SeqLock ι α) (below : List (CopyPlace ι)) : CopyPlace ι → SeqLock ι α
  | .version =>
    { s with version := s.ticks % wrap, taken := s.ticks, frames := .fields copyOrder :: below }
  | .fields (i :: rest) =>
    { s with copy := Function.update s.copy i (s.source i), frames := .fields rest :: below }
  | .fields [] => { s with frames := .compare (decide (s.ticks % wrap % 2 = 1)) :: below }
  | .compare odd =>
    if odd = true ∨ s.version ≠ s.ticks % wrap then { s with frames := .version :: below }
    else { s with frames := below }

/-- The next access of the reader. -/
def readStep (s : SeqLock ι α) : ReadPlace ι → Option (SeqLock ι α)
  | .idle => none
  | .version =>
    some { s with
      localVersion := s.version, localTaken := s.taken, got := fun _ => none, reading := .fields readOrder }
  | .fields (i :: rest) =>
    some { s with got := Function.update s.got i (some (s.copy i)), reading := .fields rest }
  | .fields [] =>
    -- a copy that is not up to date is taken again
    some { s with
      reading := .compare
      frames := if s.version = s.ticks % wrap then s.frames else [.version] }
  | .compare => some { s with reading := if s.localVersion = s.version then .done else .version }
  | .done => some { s with reading := .idle }

def exec (s : SeqLock ι α) : SeqTurn ι α → Option (SeqLock ι α)
  | .begin => if s.ticks % 2 = 0 then some { s with ticks := s.ticks + 1 } else none
  | .write i value => if s.ticks % 2 = 1 then some { s with source := Function.update s.source i value } else none
  | .finish =>
    if s.ticks % 2 = 1 then
      some { s with ticks := s.ticks + 1, record := Function.update s.record (s.ticks + 1) s.source }
    else none
  | .interrupt => some { s with frames := .version :: s.frames }
  | .read => if s.reading = .idle ∧ s.frames = [] then some { s with reading := .version } else none
  | .run =>
    match s.frames with
    | place :: below => some (s.copyStep copyOrder wrap below place)
    | [] => s.readStep readOrder wrap s.reading

/-- Nothing has been published, and the copy is what was there before. -/
structure Fresh (s : SeqLock ι α) : Prop where
  ticks : s.ticks = 0
  record : s.record 0 = s.source
  version : s.version = 0
  copy : s.copy = s.source
  taken : s.taken = 0
  frames : s.frames = []
  reading : s.reading = .idle

/-- The oldest version that is still to be compared. -/
def oldest (s : SeqLock ι α) : ℕ :=
  match s.reading with
  | .fields _ | .compare => s.localTaken
  | .idle | .version | .done => s.taken

/-- Between a look at a version and the comparison with it the writer does not count all the
way round. -/
def Timely (s : SeqLock ι α) : SeqTurn ι α → Prop
  | .begin | .finish => s.ticks + 1 < s.oldest + wrap
  | _ => True

instance (s : SeqLock ι α) (turn : SeqTurn ι α) : Decidable (s.Timely wrap turn) :=
  match turn with
  | .begin => inferInstanceAs (Decidable (s.ticks + 1 < s.oldest + wrap))
  | .finish => inferInstanceAs (Decidable (s.ticks + 1 < s.oldest + wrap))
  | .write .. => isTrue trivial
  | .interrupt => isTrue trivial
  | .read => isTrue trivial
  | .run => isTrue trivial

/-- The copy is one published record, with its version. -/
def Settled (s : SeqLock ι α) : Prop :=
  s.taken % 2 = 0 ∧ s.taken ≤ s.ticks ∧ s.version = s.taken % wrap ∧ s.copy = s.record s.taken

/-! ## The invariant -/

/-- What a taking of the copy has got so far, if the version has not moved on. -/
def CopyFits (s : SeqLock ι α) : CopyPlace ι → Prop
  | .version => True
  | .fields rest => s.ticks = s.taken → s.taken % 2 = 0 → ∀ i, i ∉ rest → s.copy i = s.record s.taken i
  | .compare odd =>
    (s.ticks = s.taken → s.taken % 2 = 0 → s.copy = s.record s.taken) ∧
      (odd = false → s.ticks = s.taken → s.taken % 2 = 0)

/-- The taking that runs is where it says; with none the copy is whole. -/
def FramesFit (s : SeqLock ι α) : List (CopyPlace ι) → Prop
  | [] => s.taken % 2 = 0 ∧ s.copy = s.record s.taken
  | place :: _ => s.CopyFits place

/-- What the reader has got so far, if the copy has not moved on. -/
def GotFrom (s : SeqLock ι α) (rest : List ι) : Prop :=
  s.localTaken ≤ s.taken ∧ s.localVersion = s.localTaken % wrap ∧
    (s.taken = s.localTaken → ∀ i ∈ readOrder, i ∉ rest → s.got i = some (s.record s.localTaken i))

/-- The values of one published record. -/
def OneRecord (s : SeqLock ι α) : Prop :=
  ∃ tick ≤ s.ticks, tick % 2 = 0 ∧ ∀ i ∈ readOrder, s.got i = some (s.record tick i)

def ReadFits (s : SeqLock ι α) : ReadPlace ι → Prop
  | .idle | .version => True
  | .fields rest => s.GotFrom readOrder wrap rest
  | .compare => s.GotFrom readOrder wrap []
  | .done => s.OneRecord readOrder

structure Sound (s : SeqLock ι α) : Prop where
  published : s.ticks % 2 = 0 → s.source = s.record s.ticks
  taken : s.taken ≤ s.ticks
  version : s.version = s.taken % wrap
  near : s.ticks < s.oldest + wrap
  frames : s.FramesFit s.frames
  reading : s.ReadFits readOrder wrap s.reading

/-! ## Steps -/

section Steps
variable {copyOrder readOrder : List ι} {wrap : ℕ} {s after : SeqLock ι α} {turn : SeqTurn ι α}

omit [DecidableEq ι] in
theorem GotFrom.of_same {m : SeqLock ι α} {rest : List ι} (got : s.GotFrom readOrder wrap rest)
    (localTaken : m.localTaken = s.localTaken) (localVersion : m.localVersion = s.localVersion) (values : m.got = s.got)
    (record : m.record s.localTaken = s.record s.localTaken) (least : s.taken ≤ m.taken) :
    m.GotFrom readOrder wrap rest := by
  obtain ⟨bound, version, same⟩ := got
  refine ⟨by omega, by rw [localVersion, localTaken, version], fun still i inside done => ?_⟩
  rw [values, localTaken, record]
  exact same (by omega) i inside done

omit [DecidableEq ι] in
/-- A step that leaves the reader alone. -/
theorem ReadFits.of_same {m : SeqLock ι α} (fits : s.ReadFits readOrder wrap s.reading)
    (localTaken : m.localTaken = s.localTaken) (localVersion : m.localVersion = s.localVersion) (values : m.got = s.got)
    (ticks : s.ticks ≤ m.ticks) (bound : s.taken ≤ s.ticks) (record : ∀ tick ≤ s.ticks, m.record tick = s.record tick)
    (least : s.taken ≤ m.taken) : m.ReadFits readOrder wrap s.reading := by
  cases place : s.reading with
  | idle => trivial
  | version => trivial
  | fields rest =>
    rw [place] at fits
    exact GotFrom.of_same fits localTaken localVersion values (record _ (Nat.le_trans fits.1 bound)) least
  | compare =>
    rw [place] at fits
    exact GotFrom.of_same fits localTaken localVersion values (record _ (Nat.le_trans fits.1 bound)) least
  | done =>
    rw [place] at fits
    obtain ⟨tick, earlier, even, same⟩ := fits
    refine ⟨tick, Nat.le_trans earlier ticks, even, fun i inside => ?_⟩
    rw [values, record tick earlier]
    exact same i inside

omit [DecidableEq ι] in
theorem Sound.oldest_le (sound : s.Sound readOrder wrap) : s.oldest ≤ s.taken := by
  have fits := sound.reading
  unfold oldest
  cases place : s.reading with
  | fields rest => rw [place] at fits; exact fits.1
  | compare => rw [place] at fits; exact fits.1
  | idle => exact Nat.le_refl _
  | version => exact Nat.le_refl _
  | done => exact Nat.le_refl _

omit [DecidableEq ι] in
/-- What a taking has got so far counts for nothing once the version moves on. -/
theorem CopyFits.of_moved {m : SeqLock ι α} (place : CopyPlace ι) (moved : m.ticks ≠ m.taken) : m.CopyFits place := by
  cases place with
  | version => trivial
  | fields rest => exact fun same => absurd same moved
  | compare odd => exact ⟨fun same => absurd same moved, fun _ same => absurd same moved⟩

omit [DecidableEq ι] in
/-- A whole copy serves every taking that it came in between of. -/
theorem CopyFits.of_settled {m : SeqLock ι α} (place : CopyPlace ι) (even : m.taken % 2 = 0)
    (copy : m.copy = m.record m.taken) : m.CopyFits place := by
  cases place with
  | version => trivial
  | fields rest => exact fun _ _ i _ => congrFun copy i
  | compare odd => exact ⟨fun _ _ => copy, fun _ _ => even⟩

omit [DecidableEq ι] in
theorem Sound.begins (sound : s.Sound readOrder wrap) (even : s.ticks % 2 = 0)
    (timely : s.ticks + 1 < s.oldest + wrap) : ({ s with ticks := s.ticks + 1 } : SeqLock ι α).Sound readOrder wrap := by
  have bound := sound.taken
  refine ⟨fun later => ?_, Nat.le_succ_of_le bound, sound.version, timely, ?_, ?_⟩
  · dsimp only at later
    omega
  · have frames := sound.frames
    cases known : s.frames with
    | nil => rwa [known] at frames
    | cons place below => exact CopyFits.of_moved place (by dsimp only; omega)
  · exact ReadFits.of_same (s := s) sound.reading rfl rfl rfl (Nat.le_succ _) bound (fun _ _ => rfl) (Nat.le_refl _)

omit [DecidableEq ι] in
theorem Sound.finishes (sound : s.Sound readOrder wrap) (timely : s.ticks + 1 < s.oldest + wrap) :
    ({ s with
      ticks := s.ticks + 1
      record := Function.update s.record (s.ticks + 1) s.source } : SeqLock ι α).Sound readOrder wrap := by
  have bound := sound.taken
  have record : ∀ tick ≤ s.ticks, Function.update s.record (s.ticks + 1) s.source tick = s.record tick :=
    fun tick earlier => Function.update_of_ne (by omega) ..
  refine ⟨fun _ => ?_, Nat.le_succ_of_le bound, sound.version, timely, ?_, ?_⟩
  · dsimp only
    rw [Function.update_self]
  · have frames := sound.frames
    cases known : s.frames with
    | nil =>
      rw [known] at frames
      exact ⟨frames.1, frames.2.trans (record _ bound).symm⟩
    | cons place below => exact CopyFits.of_moved place (by dsimp only; omega)
  · exact ReadFits.of_same (s := s) sound.reading rfl rfl rfl (Nat.le_succ _) bound record (Nat.le_refl _)

/-- The version has not gone all the way round. -/
theorem eq_of_version {a b : ℕ} (least : a ≤ b) (near : b < a + wrap) (same : a % wrap = b % wrap) : a = b := by
  have apart := Nat.sub_mod_eq_zero_of_mod_eq same.symm
  rw [Nat.mod_eq_of_lt (by omega)] at apart
  omega

theorem Sound.copies {place : CopyPlace ι} {below : List (CopyPlace ι)} (sound : s.Sound readOrder wrap)
    (positive : 0 < wrap) (double : 2 ∣ wrap) (all : ∀ i, i ∈ copyOrder) (runs : s.frames = place :: below) :
    (s.copyStep copyOrder wrap below place).Sound readOrder wrap := by
  obtain ⟨published, bound, version, near, frames, reading⟩ := sound
  have oldest := Sound.oldest_le ⟨published, bound, version, near, frames, reading⟩
  rw [runs] at frames
  cases place with
  | version =>
    refine ⟨published, Nat.le_refl _, rfl, ?_, fun _ _ i out => absurd (all i) out,
      ReadFits.of_same (s := s) reading rfl rfl rfl (Nat.le_refl _) bound (fun _ _ => rfl) bound⟩
    unfold SeqLock.oldest at near ⊢
    dsimp only [copyStep]
    split
    · rename_i rest place
      rw [place] at near
      exact near
    · rename_i place
      rw [place] at near
      exact near
    · omega
    · omega
    · omega
  | fields rest =>
    cases rest with
    | nil =>
      refine ⟨published, bound, version, near, ⟨fun same even => funext fun i => frames same even i (by simp), ?_⟩, reading⟩
      intro looked same
      have even := of_decide_eq_false looked
      rw [Nat.mod_mod_of_dvd _ double] at even
      change s.ticks = s.taken at same
      change s.taken % 2 = 0
      omega
    | cons i rest =>
      refine ⟨published, bound, version, near, fun same even j out => ?_, reading⟩
      change Function.update s.copy i (s.source i) j = s.record s.taken j
      change s.ticks = s.taken at same
      change s.taken % 2 = 0 at even
      by_cases this : j = i
      · subst this
        rw [Function.update_self, ← same, published (same ▸ even)]
      · rw [Function.update_of_ne this]
        exact frames same even j (by simp [this, out])
  | compare odd =>
    unfold copyStep
    dsimp only
    split
    · exact ⟨published, bound, version, near, trivial, reading⟩
    · rename_i passes
      obtain ⟨even, unchanged⟩ := not_or.mp passes
      have even := eq_false_of_ne_true even
      have unchanged := not_not.mp unchanged
      have same : s.taken = s.ticks := eq_of_version bound (by omega) (version ▸ unchanged)
      have taken := frames.2 even same.symm
      have copy := frames.1 same.symm taken
      refine ⟨published, bound, version, near, ?_, reading⟩
      cases below with
      | nil => exact ⟨taken, copy⟩
      | cons next below => exact CopyFits.of_settled next taken copy

theorem Sound.reads (sound : s.Sound readOrder wrap) (quiet : s.frames = [])
    (move : s.readStep readOrder wrap s.reading = some after) : after.Sound readOrder wrap := by
  obtain ⟨published, bound, version, near, frames, reading⟩ := sound
  have settled : s.taken % 2 = 0 ∧ s.copy = s.record s.taken := by
    rwa [quiet] at frames
  have oldest := Sound.oldest_le ⟨published, bound, version, near, frames, reading⟩
  cases place : s.reading with
  | idle =>
    rw [place] at move
    cases move
  | version =>
    rw [place] at move
    cases move
    refine ⟨published, bound, version, ?_, frames, Nat.le_refl _, version, fun _ i inside out => absurd inside out⟩
    change s.ticks < s.taken + wrap
    omega
  | fields rest =>
    rw [place] at move reading
    have kept : s.oldest = s.localTaken := by
      unfold SeqLock.oldest
      rw [place]
    cases rest with
    | nil =>
      cases move
      refine ⟨published, bound, version, kept ▸ near, ?_, reading⟩
      by_cases upToDate : s.version = s.ticks % wrap
      · dsimp only
        rw [if_pos upToDate]
        exact frames
      · dsimp only
        rw [if_neg upToDate]
        trivial
    | cons i rest =>
      cases move
      obtain ⟨least, same, got⟩ := reading
      refine ⟨published, bound, version, kept ▸ near, frames, least, same, fun still j inside out => ?_⟩
      change Function.update s.got i (some (s.copy i)) j = some (s.record s.localTaken j)
      change s.taken = s.localTaken at still
      by_cases this : j = i
      · subst this
        rw [Function.update_self, settled.2, still]
      · rw [Function.update_of_ne this]
        exact got still j inside (by simp [this, out])
  | compare =>
    rw [place] at move reading
    have kept : s.oldest = s.localTaken := by
      unfold SeqLock.oldest
      rw [place]
    obtain ⟨least, same, got⟩ := reading
    cases move
    have later : s.ticks < s.taken + wrap := by omega
    split
    · rename_i unchanged
      rw [same, version] at unchanged
      have still : s.localTaken = s.taken := eq_of_version least (by omega) unchanged
      refine ⟨published, bound, version, later, frames, s.localTaken, by dsimp only; omega, by omega,
        fun i inside => got still.symm i inside (by simp)⟩
    · exact ⟨published, bound, version, later, frames, trivial⟩
  | done =>
    rw [place] at move
    cases move
    refine ⟨published, bound, version, ?_, frames, trivial⟩
    change s.ticks < s.taken + wrap
    omega

theorem Sound.exec (sound : s.Sound readOrder wrap) (positive : 0 < wrap) (double : 2 ∣ wrap)
    (all : ∀ i, i ∈ copyOrder) (timely : s.Timely wrap turn)
    (move : s.exec copyOrder readOrder wrap turn = some after) : after.Sound readOrder wrap := by
  cases turn with
  | begin =>
    simp only [SeqLock.exec, Option.ite_none_right_eq_some, Option.some.injEq] at move
    obtain ⟨even, rfl⟩ := move
    exact sound.begins even timely
  | write i value =>
    simp only [SeqLock.exec, Option.ite_none_right_eq_some, Option.some.injEq] at move
    obtain ⟨odd, rfl⟩ := move
    refine ⟨fun even => ?_, sound.taken, sound.version, sound.near, sound.frames, sound.reading⟩
    change s.ticks % 2 = 0 at even
    omega
  | finish =>
    simp only [SeqLock.exec, Option.ite_none_right_eq_some, Option.some.injEq] at move
    obtain ⟨_, rfl⟩ := move
    exact sound.finishes timely
  | interrupt =>
    cases move
    exact ⟨sound.published, sound.taken, sound.version, sound.near, trivial, sound.reading⟩
  | read =>
    simp only [SeqLock.exec, Option.ite_none_right_eq_some, Option.some.injEq] at move
    obtain ⟨⟨idle, _⟩, rfl⟩ := move
    refine ⟨sound.published, sound.taken, sound.version, ?_, sound.frames, trivial⟩
    have near := sound.near
    unfold SeqLock.oldest at near ⊢
    rw [idle] at near
    exact near
  | run =>
    simp only [SeqLock.exec] at move
    split at move
    · rename_i place below runs
      cases move
      exact sound.copies positive double all runs
    · rename_i quiet
      exact sound.reads quiet move

omit [DecidableEq ι] in
theorem Fresh.sound (fresh : s.Fresh) (positive : 0 < wrap) : s.Sound readOrder wrap := by
  refine ⟨fun _ => ?_, ?_, ?_, ?_, ?_, ?_⟩
  · rw [fresh.ticks, fresh.record]
  · rw [fresh.taken]
    exact Nat.zero_le _
  · rw [fresh.version, fresh.taken, Nat.zero_mod]
  · unfold SeqLock.oldest
    rw [fresh.reading, fresh.ticks, fresh.taken]
    dsimp only
    omega
  · rw [fresh.frames]
    refine ⟨?_, ?_⟩
    · rw [fresh.taken]
    · rw [fresh.copy, fresh.taken, fresh.record]
  · rw [fresh.reading]
    trivial

end Steps

/-! ## Runs -/

section Runs
variable {copyOrder readOrder : List ι} {wrap : ℕ} {s : SeqLock ι α}

theorem Sound.of_reach (positive : 0 < wrap) (double : 2 ∣ wrap) (all : ∀ i, i ∈ copyOrder)
    (reached : Reach Fresh (fun before turn after => before.exec copyOrder readOrder wrap turn = some after)
      (fun before turn => before.Timely wrap turn) s) : s.Sound readOrder wrap :=
  reached.invariant (fun s => s.Sound readOrder wrap) (fun _ fresh => fresh.sound positive)
    fun _ _ _ sound timely move => sound.exec positive double all timely move

omit [DecidableEq ι] in
/-- Whenever no copy is being taken, the copy is one record. -/
theorem Sound.settled (sound : s.Sound readOrder wrap) (quiet : s.frames = []) : s.Settled wrap := by
  have frames := sound.frames
  rw [quiet] at frames
  exact ⟨frames.1, sound.taken, sound.version, frames.2⟩

omit [DecidableEq ι] in
/-- What a reader returns is one record. -/
theorem Sound.one_record (sound : s.Sound readOrder wrap) (done : s.reading = .done) : s.OneRecord readOrder := by
  have reading := sound.reading
  rwa [done] at reading

end Runs

end SeqLock

end Stardust.Lib
