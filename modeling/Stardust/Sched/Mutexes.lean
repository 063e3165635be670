import Mathlib.Algebra.Group.Nat.Defs
import Mathlib.Logic.Function.Basic
import Stardust.Lib.Reach

/-! # Mutexes

One mutex and the threads that use it, on any number of processors: between two
accesses of a thread to the lock, any other thread may run. -/
set_option autoImplicit false
namespace Stardust.Sched

open Stardust.Lib

/-- Who called `os_spin_lock`: `mutex_lock`, or `mutex_try_lock`, itself called from
`mutex_timed_lock` or not. -/
inductive Caller
  | mutexLock
  | tryLock (timed : Bool)
  deriving DecidableEq

inductive Pc
  | idle
  /-- `mutex_try_lock` at `arch_spin_can_lock` -/
  | test (timed : Bool)
  /-- `os_spin_lock` at `_raw_spin_trylock` -/
  | exchange (caller : Caller)
  /-- the exchange failed; `break_lock` is to be set -/
  | mark (caller : Caller)
  /-- `while (!spin_can_lock(lock) && lock->break_lock)` -/
  | spin (caller : Caller)
  /-- the exchange succeeded; the fields of the lock are to be written -/
  | acquired (caller : Caller)
  /-- `mutex_try_lock` returns -/
  | tried (timed result : Bool)
  /-- `mutex_timed_lock` at `while(NOW() < end_time)` -/
  | clock
  /-- `os_spin_unlock` at `_raw_spin_unlock` -/
  | unlocking
  /-- `os_spin_unlock` at the check of `lock_count` -/
  | unlocked
  deriving DecidableEq

/-- Where `os_spin_lock` returns to. -/
def Caller.back : Caller → Pc
  | .mutexLock => .idle
  | .tryLock timed => .tried timed true

variable {τ : Type} [DecidableEq τ]

/-- `spinlock_t` and the threads; `holder` is the one whose exchange took the word. -/
structure Mutex (τ : Type) where
  slock : Int
  breakLock : Bool
  spinCount : Nat
  owner : Option τ
  lockCount : τ → Int
  pc : τ → Pc
  holder : Option τ

inductive Call
  | lock
  | tryLock
  | timedLock
  | unlock
  deriving DecidableEq

inductive Turn (τ : Type)
  | call (t : τ) (op : Call)
  /-- the next access of `t`; `expired` is what a look at the clock would tell -/
  | run (t : τ) (expired : Bool)

def Mutex.goto (s : Mutex τ) (t : τ) (pc : Pc) : Mutex τ := { s with pc := Function.update s.pc t pc }

/-! ## The code -/

def Mutex.canLock (s : Mutex τ) : Bool := decide (0 < s.slock)

def Mutex.call (s : Mutex τ) (t : τ) (op : Call) : Option (Mutex τ) :=
  if s.pc t ≠ .idle then none
  else match op with
    | .lock => some (s.goto t (.exchange .mutexLock))
    | .tryLock => some (s.goto t (.test false))
    | .timedLock => some (s.goto t .clock)
    | .unlock =>
      -- `BUG_ON(lock->owner != current)`
      if s.owner ≠ some t then none
      else some ({ s with
        lockCount := Function.update s.lockCount t (s.lockCount t - 1)
        owner := none }.goto t .unlocking)

def Mutex.run (s : Mutex τ) (t : τ) (expired : Bool) : Option (Mutex τ) :=
  match s.pc t with
  | .idle => none
  | .test timed => some (s.goto t (if s.canLock then .exchange (.tryLock timed) else .tried timed false))
  | .exchange caller =>
    if 0 < s.slock then some ({ s with slock := 0, holder := some t }.goto t (.acquired caller))
    else some ({ s with slock := 0 }.goto t (.mark caller))
  | .mark caller => some ({ s with breakLock := true }.goto t (.spin caller))
  | .spin caller =>
    if s.canLock = false ∧ s.breakLock = true then some { s with spinCount := (s.spinCount + 1) % 2 ^ 64 }
    else some (s.goto t (.exchange caller))
  | .acquired caller =>
    some ({ s with
      breakLock := false
      spinCount := 0
      owner := some t
      lockCount := Function.update s.lockCount t (s.lockCount t + 1) }.goto t caller.back)
  | .tried timed result => some (s.goto t (if timed && !result then .clock else .idle))
  | .clock => some (s.goto t (if expired then .idle else .test true))
  | .unlocking => some ({ s with slock := 1, holder := none }.goto t .unlocked)
  | .unlocked => if s.lockCount t < 0 then none else some (s.goto t .idle)

def Mutex.exec (s : Mutex τ) : Turn τ → Option (Mutex τ)
  | .call t op => s.call t op
  | .run t expired => s.run t expired

/-- `spin_lock_init`, and no thread in a call. -/
def Mutex.Free (s : Mutex τ) : Prop :=
  s.slock = 1 ∧ s.owner = none ∧ s.holder = none ∧ ∀ t, s.pc t = .idle

/-- `t` is in the retry loop below `mutex_try_lock` while another thread has the lock. -/
def Mutex.Waits (s : Mutex τ) (t : τ) : Prop :=
  (∃ timed, s.pc t = .mark (.tryLock timed) ∨ s.pc t = .spin (.tryLock timed)) ∧
    ∃ other, other ≠ t ∧ s.holder = some other

/-- `mutex_try_lock` returns 1 to the owner of the lock and 0 to a thread that is not. -/
def Mutex.Results (s : Mutex τ) : Prop :=
  ∀ t timed result, s.pc t = .tried timed result → (result = true ↔ s.owner = some t)

/-- The test of `mutex_try_lock` is made by a thread that does not own the lock, and the exchange
below it finds the lock free, as the test did. -/
def Mutex.TriesWell (s : Mutex τ) : Turn τ → Prop
  | .run t _ => (∀ timed, s.pc t = .test timed → s.owner ≠ some t) ∧
      ∀ timed, s.pc t = .exchange (.tryLock timed) → 0 < s.slock
  | .call .. => True

/-! ## The invariant -/

/-- What a thread's place says about its ownership: `owns` after the fields of the lock,
`holds` after the word. -/
def Pc.Fits (owns holds : Prop) : Pc → Prop
  | .tried _ true => owns ∧ holds
  | .tried _ false | .exchange (.tryLock _) => ¬owns ∧ ¬holds
  | .mark (.tryLock _) | .spin (.tryLock _) => False
  | .acquired _ | .unlocking => ¬owns ∧ holds
  | .idle | .unlocked | .test _ | .clock | .exchange .mutexLock | .mark .mutexLock | .spin .mutexLock =>
    holds ↔ owns

structure Mutex.Sound (s : Mutex τ) : Prop where
  word : (s.slock = 1 ∧ s.holder = none) ∨ (s.slock = 0 ∧ s.holder.isSome)
  thread : ∀ t, (s.pc t).Fits (s.owner = some t) (s.holder = some t)

section Steps
variable {s m after : Mutex τ} {t u : τ} {pc : Pc}

@[simp] theorem goto_self : (s.goto t pc).pc t = pc := by
  simp [Mutex.goto]

theorem goto_other (ne : u ≠ t) : (s.goto t pc).pc u = s.pc u := by
  simp [Mutex.goto, ne]

omit [DecidableEq τ] in
theorem Mutex.Sound.at_place (sound : s.Sound) (place : s.pc t = pc) :
    pc.Fits (s.owner = some t) (s.holder = some t) :=
  place ▸ sound.thread t

omit [DecidableEq τ] in
/-- Only a thread that holds the word owns the lock. -/
theorem Mutex.Sound.holds_of_owns (sound : s.Sound) (owns : s.owner = some t) : s.holder = some t := by
  have fits := sound.thread t
  unfold Pc.Fits at fits
  split at fits
  · exact fits.2
  · exact absurd owns fits.1
  · exact absurd owns fits.1
  · exact fits.elim
  · exact fits.elim
  · exact fits.2
  · exact fits.2
  all_goals exact fits.mpr owns

omit [DecidableEq τ] in
theorem Mutex.Sound.free_iff (sound : s.Sound) : 0 < s.slock ↔ s.holder = none := by
  rcases sound.word with ⟨word, holder⟩ | ⟨word, holder⟩
  · simp [word, holder]
  · simp [word, Option.isSome_iff_ne_none.mp holder]

/-- A step of `u` that leaves the ownership of the others as it is. -/
theorem Mutex.Sound.move (sound : s.Sound) (places : m.pc = s.pc)
    (word : (m.slock = 1 ∧ m.holder = none) ∨ (m.slock = 0 ∧ m.holder.isSome))
    (others : ∀ t, t ≠ u →
      (m.owner = some t ↔ s.owner = some t) ∧ (m.holder = some t ↔ s.holder = some t))
    (self : pc.Fits (m.owner = some u) (m.holder = some u)) : (m.goto u pc).Sound := by
  refine ⟨word, fun t => ?_⟩
  by_cases this : t = u
  · subst this
    rw [goto_self]
    exact self
  · obtain ⟨owner, holder⟩ := others t this
    have fits := sound.thread t
    rw [← propext owner, ← propext holder] at fits
    rw [goto_other this, places]
    exact fits

/-- A step of `u` that only reads, or writes the fields that no one relies on. -/
theorem Mutex.Sound.stay (sound : s.Sound) (places : m.pc = s.pc) (word : m.slock = s.slock)
    (owner : m.owner = s.owner) (holder : m.holder = s.holder)
    (self : pc.Fits (s.owner = some u) (s.holder = some u)) : (m.goto u pc).Sound := by
  apply sound.move places
  · rw [word, holder]
    exact sound.word
  · intro t _
    rw [owner, holder]
    exact ⟨Iff.rfl, Iff.rfl⟩
  · rw [owner, holder]
    exact self

theorem Mutex.Sound.call {op : Call} (sound : s.Sound) (move : s.call t op = some after) : after.Sound := by
  simp only [Mutex.call, Option.ite_none_left_eq_some, not_not] at move
  obtain ⟨place, moved⟩ := move
  have idle := sound.at_place place
  cases op with
  | lock =>
    cases moved
    exact sound.stay rfl rfl rfl rfl idle
  | tryLock =>
    cases moved
    exact sound.stay rfl rfl rfl rfl idle
  | timedLock =>
    cases moved
    exact sound.stay rfl rfl rfl rfl idle
  | unlock =>
    obtain ⟨owns, moved⟩ := Option.ite_none_left_eq_some.mp moved
    have owner := not_not.mp owns
    cases moved
    apply sound.move
    · rfl
    · exact sound.word
    · intro u ne
      refine ⟨?_, Iff.rfl⟩
      simp [owner, ne.symm]
    · exact ⟨by simp, sound.holds_of_owns owner⟩

/-- The exchange that takes the word. -/
theorem Mutex.Sound.take (sound : s.Sound) (caller : Caller) (free : 0 < s.slock) :
    ({ s with slock := 0, holder := some t }.goto t (.acquired caller)).Sound := by
  have none := sound.free_iff.mp free
  have unowned : ∀ u, s.owner ≠ some u := by
    intro u owns
    have holds := sound.holds_of_owns owns
    rw [none] at holds
    cases holds
  apply sound.move
  · rfl
  · exact Or.inr ⟨rfl, rfl⟩
  · intro u ne
    simp [none, ne.symm]
  · exact ⟨unowned t, rfl⟩

/-- The exchange that finds the word taken. -/
theorem Mutex.Sound.miss {caller : Caller} (sound : s.Sound) (place : s.pc t = .exchange caller)
    (taken : ¬0 < s.slock) (allowed : ∀ timed, caller ≠ .tryLock timed) :
    ({ s with slock := 0 }.goto t (.mark caller)).Sound := by
  have fits := sound.at_place place
  have word : s.slock = 0 := by
    rcases sound.word with ⟨one, _⟩ | ⟨zero, _⟩
    · omega
    · exact zero
  cases caller with
  | mutexLock => exact sound.stay rfl word.symm rfl rfl fits
  | tryLock timed => exact absurd rfl (allowed timed)

theorem Mutex.Sound.test {timed : Bool} (sound : s.Sound) (place : s.pc t = .test timed)
    (unowned : s.owner ≠ some t) :
    (s.goto t (if s.canLock then .exchange (.tryLock timed) else .tried timed false)).Sound := by
  have fits := sound.at_place place
  have without : s.owner ≠ some t ∧ s.holder ≠ some t := ⟨unowned, fun holds => unowned (fits.mp holds)⟩
  apply sound.stay rfl rfl rfl rfl
  split
  · exact without
  · exact without

/-- The thread that has the word becomes the owner of the lock. -/
theorem Mutex.Sound.own {caller : Caller} {count : τ → Int} (sound : s.Sound)
    (place : s.pc t = .acquired caller) :
    ({ s with
      breakLock := false
      spinCount := 0
      owner := some t
      lockCount := count }.goto t caller.back).Sound := by
  obtain ⟨_, holds⟩ := sound.at_place place
  apply sound.move
  · rfl
  · exact sound.word
  · intro u ne
    refine ⟨?_, Iff.rfl⟩
    have other : s.owner ≠ some u := by
      intro owns
      have same := (sound.holds_of_owns owns).symm.trans holds
      exact ne (Option.some.inj same)
    simp [ne.symm, other]
  · cases caller with
    | mutexLock => exact iff_of_true holds rfl
    | tryLock timed => exact ⟨rfl, holds⟩

theorem Mutex.Sound.back {timed result : Bool} (sound : s.Sound) (place : s.pc t = .tried timed result) :
    (s.goto t (if timed && !result then .clock else .idle)).Sound := by
  have fits := sound.at_place place
  apply sound.stay rfl rfl rfl rfl
  cases result with
  | true =>
    simp only [Bool.not_true, Bool.and_false]
    exact iff_of_true fits.2 fits.1
  | false =>
    have neither := iff_of_false fits.2 fits.1
    cases timed with
    | true => exact neither
    | false => exact neither

theorem Mutex.Sound.release (sound : s.Sound) (place : s.pc t = .unlocking) :
    ({ s with slock := 1, holder := none }.goto t .unlocked).Sound := by
  obtain ⟨unowned, holds⟩ := sound.at_place place
  apply sound.move
  · rfl
  · exact Or.inl ⟨rfl, rfl⟩
  · intro u ne
    simp [holds, ne.symm]
  · simpa [Pc.Fits] using unowned

theorem Mutex.Sound.run {expired : Bool} (sound : s.Sound) (allowed : s.TriesWell (.run t expired))
    (move : s.run t expired = some after) : after.Sound := by
  cases place : s.pc t with
  | idle => simp [Mutex.run, place] at move
  | test timed =>
    simp only [Mutex.run, place, Option.some.injEq] at move
    subst move
    exact sound.test place (allowed.1 timed place)
  | exchange caller =>
    simp only [Mutex.run, place] at move
    split at move
    · rename_i free
      cases move
      exact sound.take caller free
    · rename_i taken
      cases move
      apply sound.miss place taken
      rintro timed rfl
      exact taken (allowed.2 timed place)
  | mark caller =>
    have fits := sound.at_place place
    simp only [Mutex.run, place, Option.some.injEq] at move
    subst move
    cases caller with
    | mutexLock => exact sound.stay rfl rfl rfl rfl fits
    | tryLock timed => exact fits.elim
  | spin caller =>
    have fits := sound.at_place place
    cases caller with
    | mutexLock =>
      simp only [Mutex.run, place] at move
      split at move
      · cases move
        exact ⟨sound.word, sound.thread⟩
      · cases move
        exact sound.stay rfl rfl rfl rfl fits
    | tryLock timed => exact fits.elim
  | acquired caller =>
    simp only [Mutex.run, place, Option.some.injEq] at move
    subst move
    exact sound.own place
  | tried timed result =>
    simp only [Mutex.run, place, Option.some.injEq] at move
    subst move
    exact sound.back place
  | clock =>
    have fits := sound.at_place place
    simp only [Mutex.run, place, Option.some.injEq] at move
    subst move
    apply sound.stay rfl rfl rfl rfl
    cases expired with
    | true => exact fits
    | false => exact fits
  | unlocking =>
    simp only [Mutex.run, place, Option.some.injEq] at move
    subst move
    exact sound.release place
  | unlocked =>
    have fits := sound.at_place place
    simp only [Mutex.run, place, Option.ite_none_left_eq_some] at move
    obtain ⟨_, moved⟩ := move
    cases moved
    exact sound.stay rfl rfl rfl rfl fits

theorem Mutex.Sound.exec {turn : Turn τ} (sound : s.Sound) (allowed : s.TriesWell turn)
    (move : s.exec turn = some after) : after.Sound := by
  cases turn with
  | call t op => exact sound.call move
  | run t expired => exact sound.run allowed move

/-! ## What it gives -/

omit [DecidableEq τ] in
theorem Mutex.Sound.never_waits (sound : s.Sound) (t : τ) : ¬s.Waits t := by
  rintro ⟨⟨timed, place | place⟩, _⟩
  · exact sound.at_place place
  · exact sound.at_place place

omit [DecidableEq τ] in
theorem Mutex.Sound.results (sound : s.Sound) : s.Results := by
  intro t timed result place
  have fits := sound.at_place place
  cases result with
  | true => exact iff_of_true rfl fits.1
  | false => exact iff_of_false nofun fits.1

/-- An exchange below `mutex_try_lock` that fails leaves its thread waiting for another. -/
theorem Mutex.Sound.waits {timed expired : Bool} (sound : s.Sound)
    (place : s.pc t = .exchange (.tryLock timed)) (taken : ¬0 < s.slock)
    (move : s.run t expired = some after) : after.Waits t := by
  simp only [Mutex.run, place, if_neg taken] at move
  cases move
  refine ⟨⟨timed, Or.inl goto_self⟩, ?_⟩
  obtain ⟨holder, holds⟩ := Option.ne_none_iff_exists'.mp fun none => taken (sound.free_iff.mpr none)
  refine ⟨holder, ?_, holds⟩
  rintro rfl
  exact (sound.at_place place).2 holds

/-- A test of the owner finds its own lock, and returns 0 to it. -/
theorem Mutex.Sound.refuses {timed expired : Bool} (sound : s.Sound) (place : s.pc t = .test timed)
    (owns : s.owner = some t) (move : s.run t expired = some after) : ¬after.Results := by
  have taken : s.canLock = false := decide_eq_false fun free => by
    have none := sound.free_iff.mp free
    rw [sound.holds_of_owns owns] at none
    cases none
  simp only [Mutex.run, place, taken, Option.some.injEq] at move
  subst move
  intro results
  exact Bool.false_ne_true ((results t timed false goto_self).mpr owns)

theorem Mutex.Sound.waits_iff {turn : Turn τ} (sound : s.Sound) (move : s.exec turn = some after) :
    ((∀ t, ¬after.Waits t) ∧ after.Results) ↔ s.TriesWell turn := by
  constructor
  · rintro ⟨never, results⟩
    cases turn with
    | call t op => trivial
    | run t expired =>
      refine ⟨fun timed place owns => ?_, fun timed place => ?_⟩
      · exact sound.refuses place owns move results
      · by_contra taken
        exact never t (sound.waits place taken move)
  · intro allowed
    have kept := sound.exec allowed move
    exact ⟨kept.never_waits, kept.results⟩

end Steps

/-! ## Runs -/

/-- As long as every test of `mutex_try_lock` is made without the lock and every exchange below it
finds the lock free, no thread in `mutex_try_lock` waits for another and its results are right;
the first step that is not so leaves a thread waiting, or a wrong result. -/
theorem mutex_try_lock_waits_iff {s : Mutex τ}
    (reached : Reach Mutex.Free (fun before turn after => before.exec turn = some after)
      Mutex.TriesWell s) :
    (∀ t, ¬s.Waits t) ∧ s.Results ∧
      ∀ turn after, s.exec turn = some after →
        (((∀ t, ¬after.Waits t) ∧ after.Results) ↔ s.TriesWell turn) := by
  have sound : s.Sound := by
    apply reached.invariant Mutex.Sound
    · rintro s ⟨word, owner, holder, places⟩
      refine ⟨Or.inl ⟨word, holder⟩, fun t => ?_⟩
      simp [places t, owner, holder, Pc.Fits]
    · intro s turn after sound allowed move
      exact sound.exec allowed move
  exact ⟨sound.never_waits, sound.results, fun turn after move => sound.waits_iff move⟩

/-- A free lock, for threads that have taken no other lock. -/
def Mutex.initial : Mutex Nat where
  slock := 1
  breakLock := false
  spinCount := 0
  owner := none
  lockCount _ := 0
  pc _ := .idle
  holder := none

theorem Mutex.initial_free : Mutex.initial.Free := ⟨rfl, rfl, rfl, fun _ => rfl⟩

instance (s : Mutex τ) (turn : Turn τ) : Decidable (s.TriesWell turn) :=
  match turn with
  | .call .. => isTrue trivial
  | .run t _ =>
    match place : s.pc t with
    | .test timed => decidable_of_iff (s.owner ≠ some t)
        ⟨fun unowned => ⟨fun _ _ => unowned, fun _ same => (by rw [place] at same; cases same)⟩,
          fun all => all.1 timed place⟩
    | .exchange (.tryLock timed) => decidable_of_iff (0 < s.slock)
        ⟨fun free => ⟨fun _ same => (by rw [place] at same; cases same), fun _ _ => free⟩,
          fun all => all.2 timed place⟩
    | .exchange .mutexLock | .idle | .mark _ | .spin _ | .acquired _ | .tried .. | .clock | .unlocking
    | .unlocked => isTrue ⟨fun _ same => (by rw [place] at same; cases same),
        fun _ same => (by rw [place] at same; cases same)⟩

/-- Thread 0 tries the lock and gets it, thread 1 tries it and does not. -/
theorem mutex_try_lock_waits_iff_two : ∃ s : Mutex Nat,
    (s.pc 0 = .tried false true ∧ s.pc 1 = .tried false false) ∧ s.owner = some 0 ∧
      s.owner ≠ some 1 ∧ ∀ t, ¬s.Waits t := by
  have run : (runLabels Mutex.exec Mutex.TriesWell
      [.call 0 .tryLock, .run 0 false, .run 0 false, .run 0 false, .call 1 .tryLock, .run 1 false]
      Mutex.initial).any (fun s => decide (s.pc 0 = .tried false true ∧
        s.pc 1 = .tried false false)) = true := by decide +kernel
  obtain ⟨s, reached, first, second⟩ := Reach.of_run_ends Mutex.initial_free run
  obtain ⟨never, results, _⟩ := mutex_try_lock_waits_iff reached
  have owns := (results 0 false true first).mp rfl
  exact ⟨s, ⟨first, second⟩, owns, fun other => Bool.false_ne_true ((results 1 false false second).mpr other), never⟩

/-- Thread 0 finds the lock free in `mutex_try_lock`, thread 1 takes it with `mutex_lock`,
and thread 0 is left in the retry loop of `os_spin_lock`. -/
theorem try_lock_waits : ∃ s : Mutex Nat,
    Reach Mutex.Free (fun before turn after => before.exec turn = some after) Always s ∧ s.Waits 0 := by
  have run : (runLabels Mutex.exec Always
      [.call 0 .tryLock, .run 0 false, .call 1 .lock, .run 1 false, .run 0 false] Mutex.initial).any
        (fun s => decide (s.pc 0 = .mark (.tryLock false) ∧ s.holder = some 1)) = true := by
    decide +kernel
  obtain ⟨s, reached, place, holder⟩ := Reach.of_run_ends Mutex.initial_free run
  exact ⟨s, reached, ⟨false, Or.inl place⟩, 1, by decide, holder⟩

end Stardust.Sched
