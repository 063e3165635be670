import Stardust.Lib.Crowd
import Stardust.Lib.Reach
import Stardust.Pte.CondVar

/-! # Barriers

`pthread_barrier_wait`, called over and over by as many threads as the barrier was made
for.  Between two accesses of a thread any other may run; the two semaphores count, and no
thread is cancelled while it waits. -/
set_option autoImplicit false
namespace Stardust.Pte

open Stardust.Lib

def pthreadBarrierSerialThread : Int := -1

/-- Where a thread is; `step` is what it read of `iStep`, one of the two semaphores. -/
inductive BarrierPlace
  | out
  /-- `step = b->iStep` -/
  | read
  /-- `PTE_ATOMIC_DECREMENT(&b->nCurrentBarrierHeight)` -/
  | decrement (step : Bool)
  /-- `b->nCurrentBarrierHeight = b->nInitialBarrierHeight` -/
  | reset (step : Bool)
  /-- in `sem_post_multiple`, with so many posts left -/
  | posting (step : Bool) (left : Nat)
  /-- in `sem_wait` -/
  | wait (step : Bool)
  /-- `PTE_ATOMIC_COMPARE_EXCHANGE(&b->iStep, 1 - step, step)` -/
  | flip (step : Bool)
  | returning (result : Int)
  deriving DecidableEq

/-- `pthread_barrier_t_` and its threads. -/
structure Barrier (τ : Type) where
  nInitialBarrierHeight : Nat
  nCurrentBarrierHeight : Int
  iStep : Bool
  semBarrierBreeched : Bool → Nat
  threads : Crowd τ BarrierPlace
  /-- ghost: how often a thread has called -/
  called : τ → Nat
  /-- ghost: how often a thread has got through -/
  returned : τ → Nat
  /-- ghost: the calls of each round with the result `PTHREAD_BARRIER_SERIAL_THREAD` -/
  serials : Nat → Nat

variable {τ : Type} [DecidableEq τ]

/-! ## The code -/

def Barrier.goto (b : Barrier τ) (t : τ) (place : BarrierPlace) : Barrier τ :=
  { b with threads := b.threads.move t place }

def Barrier.setSem (b : Barrier τ) (step : Bool) (value : Nat) : Barrier τ :=
  { b with semBarrierBreeched := Function.update b.semBarrierBreeched step value }

/-- Ghost: a thread is through, with this result. -/
def Barrier.count (b : Barrier τ) (t : τ) (result : Int) : Barrier τ :=
  { b with
    returned := Function.update b.returned t (b.returned t + 1)
    serials := Function.update b.serials (b.returned t)
      (b.serials (b.returned t) + if result = pthreadBarrierSerialThread then 1 else 0) }

def Barrier.leave (b : Barrier τ) (t : τ) (result : Int) : Barrier τ := (b.count t result).goto t (.returning result)

/-- The next access of a thread. -/
def Barrier.access (b : Barrier τ) (t : τ) : BarrierPlace → Option (Barrier τ)
  | .out => some ({ b with called := Function.update b.called t (b.called t + 1) }.goto t .read)
  | .read => some (b.goto t (.decrement b.iStep))
  | .decrement step =>
    let height := intSub b.nCurrentBarrierHeight 1
    some ({ b with nCurrentBarrierHeight := height }.goto t (if height = 0 then .reset step else .wait step))
  | .reset step =>
    let posts := b.nInitialBarrierHeight - 1
    some ({ b with nCurrentBarrierHeight := b.nInitialBarrierHeight }.goto t
      (if 1 < b.nInitialBarrierHeight then .posting step posts else .flip step))
  | .posting step 0 => some (b.goto t (.flip step))
  | .posting step (left + 1) =>
    some ((b.setSem step (b.semBarrierBreeched step + 1)).goto t (.posting step left))
  | .wait step =>
    if 0 < b.semBarrierBreeched step then
      some ((b.setSem step (b.semBarrierBreeched step - 1)).goto t (.flip step))
    else none
  | .flip step =>
    -- `1L - step` is the other of the two
    if b.iStep = step then some ({ b with iStep := !step }.leave t pthreadBarrierSerialThread)
    else some (b.leave t 0)
  | .returning _ => some (b.goto t .out)

def Barrier.run (b : Barrier τ) (t : τ) : Option (Barrier τ) :=
  if t ∈ b.threads.members then b.access t (b.threads.place t) else none

/-- `pthread_barrier_init` for the threads that are going to use it. -/
structure Barrier.Fresh (count : Nat) (b : Barrier τ) : Prop where
  card : b.threads.members.card = count
  positive : 0 < count
  int : (count : Int) ≤ intMax
  initial : b.nInitialBarrierHeight = count
  current : b.nCurrentBarrierHeight = count
  iStep : b.iStep = false
  sem : ∀ step, b.semBarrierBreeched step = 0
  place : ∀ t, b.threads.place t = .out
  called : ∀ t, b.called t = 0
  returned : ∀ t, b.returned t = 0
  serials : ∀ round, b.serials round = 0

abbrev Barrier.Reached (count : Nat) (b : Barrier τ) : Prop :=
  Reach (Barrier.Fresh count) (fun before t after => before.run t = some after) Always b

/-- Nobody is through a round before everybody has come to it, and one call of each round
is told that it is the one. -/
structure Barrier.Meets (b : Barrier τ) : Prop where
  together : ∀ t ∈ b.threads.members, ∀ u ∈ b.threads.members, b.returned t ≤ b.called u
  once : ∀ round, b.serials round ≤ 1
  serial : ∀ t ∈ b.threads.members, ∀ round < b.returned t, b.serials round = 1

/-! ## The invariant -/

/-- Waits at the semaphore of `phase`. -/
def BarrierPlace.waits (phase : Bool) : BarrierPlace → Nat
  | .wait step => if step = phase then 1 else 0
  | _ => 0

def BarrierPlace.resets : BarrierPlace → Nat
  | .reset _ => 1
  | _ => 0

/-- The posts that a thread is going to make. -/
def BarrierPlace.owes (count : Nat) : BarrierPlace → Nat
  | .reset _ => count - 1
  | .posting _ left => left
  | _ => 0

/-- While `round` fills up at the semaphore of `phase`, the others are still on their way
out of the round before. -/
def BarrierPlace.Fits (phase : Bool) (round called returned : Nat) : BarrierPlace → Prop
  | .out | .returning _ => called = round ∧ returned = round
  | .read => called = round + 1 ∧ returned = round
  | .decrement step => step = phase ∧ called = round + 1 ∧ returned = round
  | .wait step =>
    (step = phase ∧ called = round + 1 ∧ returned = round) ∨
      (step = !phase) ∧ called = round ∧ returned + 1 = round
  | .reset step | .posting step _ | .flip step => (step = !phase) ∧ called = round ∧ returned + 1 = round

structure Barrier.Sound (count round : Nat) (phase : Bool) (b : Barrier τ) : Prop where
  card : b.threads.members.card = count
  positive : 0 < count
  int : (count : Int) ≤ intMax
  initial : b.nInitialBarrierHeight = count
  filling : b.threads.total BarrierPlace.resets = 0 →
    0 < b.nCurrentBarrierHeight ∧ b.nCurrentBarrierHeight + b.threads.total (BarrierPlace.waits phase) = count
  closing : b.threads.total BarrierPlace.resets ≠ 0 →
    b.nCurrentBarrierHeight = 0 ∧ b.threads.total (BarrierPlace.waits phase) = 0
  single : b.threads.total BarrierPlace.resets ≤ 1
  ahead : b.semBarrierBreeched phase = 0
  behind : b.semBarrierBreeched (!phase) + b.threads.total (BarrierPlace.owes count) =
    b.threads.total (BarrierPlace.waits !phase)
  place : ∀ t ∈ b.threads.members, (b.threads.place t).Fits phase round (b.called t) (b.returned t)
  flipped : ∀ t ∈ b.threads.members, b.returned t = round → b.iStep = phase
  past : ∀ before, before + 1 < round → b.serials before = 1
  last : ∀ before, before + 1 = round → b.serials before = if b.iStep = phase then 1 else 0
  future : ∀ later, round ≤ later → b.serials later = 0

section Steps
variable {count round : Nat} {phase : Bool} {b m after : Barrier τ} {t u : τ} {place : BarrierPlace}

/-- The counts of a place, before and after a step of `t`. -/
structure BarrierCounts (count : Nat) (phase : Bool) (before after : Barrier τ) (old new : BarrierPlace) : Prop where
  filling : after.threads.total (BarrierPlace.waits phase) + old.waits phase =
    before.threads.total (BarrierPlace.waits phase) + new.waits phase
  draining : after.threads.total (BarrierPlace.waits !phase) + old.waits (!phase) =
    before.threads.total (BarrierPlace.waits !phase) + new.waits (!phase)
  resetting : after.threads.total BarrierPlace.resets + old.resets =
    before.threads.total BarrierPlace.resets + new.resets
  owing : after.threads.total (BarrierPlace.owes count) + old.owes count =
    before.threads.total (BarrierPlace.owes count) + new.owes count

theorem Barrier.counts (member : t ∈ b.threads.members) (threads : m.threads = b.threads) (count : Nat) (phase : Bool)
    (place : BarrierPlace) : BarrierCounts count phase b (m.goto t place) (b.threads.place t) place := by
  have moved : (m.goto t place).threads = b.threads.move t place := congrArg (·.move t place) threads
  refine ⟨?_, ?_, ?_, ?_⟩
  · rw [moved]
    exact Crowd.total_move _ member place
  · rw [moved]
    exact Crowd.total_move _ member place
  · rw [moved]
    exact Crowd.total_move _ member place
  · rw [moved]
    exact Crowd.total_move _ member place

/-- A step after which the same round fills up. -/
theorem Barrier.Sound.move (sound : b.Sound count round phase) (threads : m.threads = b.threads)
    (initial : m.nInitialBarrierHeight = count)
    (filling : (m.goto t place).threads.total BarrierPlace.resets = 0 → 0 < m.nCurrentBarrierHeight ∧
      m.nCurrentBarrierHeight + (m.goto t place).threads.total (BarrierPlace.waits phase) = count)
    (closing : (m.goto t place).threads.total BarrierPlace.resets ≠ 0 →
      m.nCurrentBarrierHeight = 0 ∧ (m.goto t place).threads.total (BarrierPlace.waits phase) = 0)
    (single : (m.goto t place).threads.total BarrierPlace.resets ≤ 1)
    (ahead : m.semBarrierBreeched phase = 0)
    (behind : m.semBarrierBreeched (!phase) + (m.goto t place).threads.total (BarrierPlace.owes count) =
      (m.goto t place).threads.total (BarrierPlace.waits !phase))
    (others : ∀ u, u ≠ t → m.called u = b.called u ∧ m.returned u = b.returned u)
    (self : place.Fits phase round (m.called t) (m.returned t))
    (flipped : ∀ u ∈ b.threads.members, m.returned u = round → m.iStep = phase)
    (past : ∀ before, before + 1 < round → m.serials before = 1)
    (last : ∀ before, before + 1 = round → m.serials before = if m.iStep = phase then 1 else 0)
    (future : ∀ later, round ≤ later → m.serials later = 0) : (m.goto t place).Sound count round phase := by
  refine ⟨?_, sound.positive, sound.int, initial, filling, closing, single, ahead, behind, fun u inside => ?_,
    fun u inside => ?_, past, last, future⟩
  · change m.threads.members.card = count
    rw [threads]
    exact sound.card
  · have inside : u ∈ b.threads.members := threads ▸ inside
    change ((m.threads.move t place).place u).Fits phase round (m.called u) (m.returned u)
    by_cases this : u = t
    · subst this
      rw [Crowd.place_move_self]
      exact self
    · rw [Crowd.place_move_other this, threads, (others u this).1, (others u this).2]
      exact sound.place u inside
  · exact flipped u (threads ▸ inside)

/-- A step that changes nothing but the place of its thread, and counts a call. -/
theorem Barrier.Sound.stay {called : τ → Nat} (sound : b.Sound count round phase) (member : t ∈ b.threads.members)
    (waits : ∀ step, place.waits step = (b.threads.place t).waits step)
    (resets : place.resets = (b.threads.place t).resets)
    (owes : place.owes count = (b.threads.place t).owes count) (others : ∀ u, u ≠ t → called u = b.called u)
    (self : place.Fits phase round (called t) (b.returned t)) :
    ({ b with called := called }.goto t place).Sound count round phase := by
  obtain ⟨filling, draining, resetting, owing⟩ :=
    Barrier.counts (m := { b with called := called }) member rfl count phase place
  rw [waits] at filling draining
  rw [resets] at resetting
  rw [owes] at owing
  have filling := Nat.add_right_cancel filling
  have draining := Nat.add_right_cancel draining
  have resetting := Nat.add_right_cancel resetting
  have owing := Nat.add_right_cancel owing
  refine sound.move rfl sound.initial ?_ ?_ ?_ sound.ahead ?_ (fun u ne => ⟨others u ne, rfl⟩) self sound.flipped
    sound.past sound.last sound.future
  · rw [filling, resetting]
    exact sound.filling
  · rw [filling, resetting]
    exact sound.closing
  · rw [resetting]
    exact sound.single
  · rw [owing, draining]
    exact sound.behind

theorem BarrierPlace.waits_le (phase : Bool) (place : BarrierPlace) : place.waits phase ≤ 1 := by
  cases place with
  | wait step =>
    simp only [BarrierPlace.waits]
    split
    · exact Nat.le_refl 1
    · exact Nat.zero_le 1
  | out => exact Nat.zero_le 1
  | read => exact Nat.zero_le 1
  | decrement step => exact Nat.zero_le 1
  | reset step => exact Nat.zero_le 1
  | posting step left => exact Nat.zero_le 1
  | flip step => exact Nat.zero_le 1
  | returning result => exact Nat.zero_le 1

theorem BarrierPlace.waits_eq_one {place : BarrierPlace} : place.waits phase = 1 ↔ place = .wait phase := by
  cases place with
  | wait step => simp [BarrierPlace.waits]
  | out => simp [BarrierPlace.waits]
  | read => simp [BarrierPlace.waits]
  | decrement step => simp [BarrierPlace.waits]
  | reset step => simp [BarrierPlace.waits]
  | posting step left => simp [BarrierPlace.waits]
  | flip step => simp [BarrierPlace.waits]
  | returning result => simp [BarrierPlace.waits]

theorem BarrierPlace.waits_resets_le (phase : Bool) (place : BarrierPlace) :
    place.waits phase + place.resets ≤ 1 := by
  cases place with
  | wait step => exact BarrierPlace.waits_le phase (.wait step)
  | reset step => simp [BarrierPlace.waits, BarrierPlace.resets]
  | out => simp [BarrierPlace.waits, BarrierPlace.resets]
  | read => simp [BarrierPlace.waits, BarrierPlace.resets]
  | decrement step => simp [BarrierPlace.waits, BarrierPlace.resets]
  | posting step left => simp [BarrierPlace.waits, BarrierPlace.resets]
  | flip step => simp [BarrierPlace.waits, BarrierPlace.resets]
  | returning result => simp [BarrierPlace.waits, BarrierPlace.resets]

theorem BarrierPlace.resets_le_owes (count : Nat) (place : BarrierPlace) :
    place.resets = 0 ∨ place.owes count = count - 1 := by
  cases place with
  | reset step => exact Or.inr rfl
  | out => exact Or.inl rfl
  | read => exact Or.inl rfl
  | decrement step => exact Or.inl rfl
  | posting step left => exact Or.inl rfl
  | wait step => exact Or.inl rfl
  | flip step => exact Or.inl rfl
  | returning result => exact Or.inl rfl

omit [DecidableEq τ] in
/-- Until the height is set again, every other thread waits for the posts. -/
theorem Barrier.Sound.closed (sound : b.Sound count round phase)
    (resets : b.threads.total BarrierPlace.resets ≠ 0) (member : t ∈ b.threads.members) :
    (b.threads.place t).waits (!phase) + (b.threads.place t).resets = 1 := by
  refine Crowd.eq_one_of_full (w := fun place => place.waits (!phase) + place.resets)
    (BarrierPlace.waits_resets_le !phase) ?_ member
  obtain ⟨u, inside, here⟩ := Crowd.exists_of_pos (Nat.pos_of_ne_zero resets)
  have owed := Crowd.le_total (w := BarrierPlace.owes count) inside
  rcases BarrierPlace.resets_le_owes count (b.threads.place u) with none | owes
  · omega
  · have behind := sound.behind
    have card := sound.card
    rw [Crowd.total_add]
    omega

omit [DecidableEq τ] in
/-- A thread that comes to the counter finds it open. -/
theorem Barrier.Sound.no_reset {step : Bool} (sound : b.Sound count round phase) (member : t ∈ b.threads.members)
    (here : b.threads.place t = .decrement step) : b.threads.total BarrierPlace.resets = 0 := by
  by_contra resets
  have closed := sound.closed resets member
  rw [here] at closed
  simp [BarrierPlace.waits, BarrierPlace.resets] at closed

/-- The thread is not the last to come. -/
theorem Barrier.Sound.count_down (sound : b.Sound count round phase) (member : t ∈ b.threads.members)
    (here : b.threads.place t = .decrement phase) (more : b.nCurrentBarrierHeight - 1 ≠ 0) :
    ({ b with nCurrentBarrierHeight := b.nCurrentBarrierHeight - 1 }.goto t (.wait phase)).Sound count round phase := by
  have none := sound.no_reset member here
  have filled := sound.filling none
  have behind := sound.behind
  have fits := sound.place t member
  obtain ⟨filling, draining, resetting, owing⟩ :=
    Barrier.counts (m := { b with nCurrentBarrierHeight := b.nCurrentBarrierHeight - 1 }) member rfl count phase
      (.wait phase)
  rw [here] at filling draining resetting owing fits
  simp only [BarrierPlace.waits, BarrierPlace.resets, BarrierPlace.owes, if_true, Bool.eq_not_self, if_false,
    Nat.add_zero] at filling draining resetting owing
  refine sound.move rfl sound.initial ?_ ?_ ?_ sound.ahead ?_ (fun _ _ => ⟨rfl, rfl⟩) (Or.inl fits) sound.flipped
    sound.past sound.last sound.future
  · intro _
    rw [filling]
    simp only
    omega
  · intro some_
    omega
  · omega
  · rw [owing, draining]
    exact behind

/-- The last thread to come begins a round: all others wait where it has read `iStep`. -/
theorem Barrier.Sound.begin_round (sound : b.Sound count round phase) (member : t ∈ b.threads.members)
    (here : b.threads.place t = .decrement phase) (last : b.nCurrentBarrierHeight - 1 = 0) :
    ({ b with nCurrentBarrierHeight := b.nCurrentBarrierHeight - 1 }.goto t (.reset phase)).Sound count (round + 1)
      (!phase) := by
  have none := sound.no_reset member here
  have filled := sound.filling none
  have card := sound.card
  have others : ∀ u ∈ b.threads.members, u ≠ t → b.threads.place u = .wait phase := by
    intro u inside other
    refine BarrierPlace.waits_eq_one.mp
      (Crowd.eq_one_of_others (BarrierPlace.waits_le phase) (by omega) member ?_ inside other)
    rw [here]
    rfl
  have nothing : ∀ w : BarrierPlace → Nat, w (.decrement phase) = 0 → w (.wait phase) = 0 → b.threads.total w = 0 := by
    intro w mine theirs
    refine Crowd.total_eq_zero.mpr fun u inside => ?_
    by_cases this : u = t
    · rw [this, here, mine]
    · rw [others u inside this, theirs]
  have notOwed := nothing (BarrierPlace.owes count) rfl rfl
  have notDraining := nothing (BarrierPlace.waits !phase) rfl (by simp [BarrierPlace.waits])
  have behind := sound.behind
  obtain ⟨filling, draining, resetting, owing⟩ :=
    Barrier.counts (m := { b with nCurrentBarrierHeight := b.nCurrentBarrierHeight - 1 }) member rfl count phase
      (.reset phase)
  rw [here] at filling draining resetting owing
  simp only [BarrierPlace.waits, BarrierPlace.resets, BarrierPlace.owes, Nat.add_zero] at filling draining resetting owing
  have fits : phase = phase ∧ b.called t = round + 1 ∧ b.returned t = round := by
    have fits := sound.place t member
    rwa [here] at fits
  refine ⟨card, sound.positive, sound.int, sound.initial, ?_, ?_, ?_, ?_, ?_, ?_, ?_, ?_, ?_, ?_⟩
  · intro some_
    omega
  · intro _
    rw [draining, notDraining]
    exact ⟨last, rfl⟩
  · omega
  · change b.semBarrierBreeched (!phase) = 0
    omega
  · rw [Bool.not_not, owing, filling]
    change b.semBarrierBreeched phase + _ = _
    rw [sound.ahead]
    omega
  · intro u inside
    change ((b.threads.move t (.reset phase)).place u).Fits (!phase) (round + 1) (b.called u) (b.returned u)
    by_cases this : u = t
    · subst this
      rw [Crowd.place_move_self]
      simp [BarrierPlace.Fits, fits]
    · have waiting := sound.place u inside
      rw [others u inside this] at waiting
      rw [Crowd.place_move_other this, others u inside this]
      simp only [BarrierPlace.Fits, Bool.eq_not_self, false_and, or_false, true_and] at waiting
      simp [BarrierPlace.Fits, waiting]
  · intro u inside through
    exfalso
    change b.returned u = round + 1 at through
    by_cases this : u = t
    · subst this
      omega
    · have waiting := sound.place u inside
      rw [others u inside this] at waiting
      simp only [BarrierPlace.Fits, Bool.eq_not_self, false_and, or_false, true_and] at waiting
      omega
  · intro before earlier
    by_cases latest : before + 1 = round
    · exact (sound.last before latest).trans (if_pos (sound.flipped t member fits.2.2))
    · exact sound.past before (by omega)
  · intro before latest
    change b.serials before = if b.iStep = !phase then 1 else 0
    rw [sound.future before (by omega), sound.flipped t member fits.2.2]
    simp
  · intro later after
    exact sound.future later (by omega)

/-- The last thread to come sets the height again and goes on to post. -/
theorem Barrier.Sound.reset (sound : b.Sound count round phase) (member : t ∈ b.threads.members)
    (here : b.threads.place t = .reset !phase)
    (next : (1 < count ∧ place = .posting (!phase) (count - 1)) ∨ (count ≤ 1 ∧ place = .flip !phase)) :
    ({ b with nCurrentBarrierHeight := b.nInitialBarrierHeight }.goto t place).Sound count round phase := by
  have single := sound.single
  have behind := sound.behind
  have positive := sound.positive
  have fits := sound.place t member
  obtain ⟨filling, draining, resetting, owing⟩ :=
    Barrier.counts (m := { b with nCurrentBarrierHeight := b.nInitialBarrierHeight }) member rfl count phase place
  rw [here] at filling draining resetting owing fits
  have mine := Crowd.le_total (w := BarrierPlace.resets) member
  rw [here] at mine
  have closed := sound.closing (Nat.ne_of_gt mine)
  have moved : place.waits phase = 0 ∧ place.waits (!phase) = 0 ∧ place.resets = 0 ∧ place.owes count = count - 1 ∧
      place.Fits phase round (b.called t) (b.returned t) := by
    rcases next with ⟨_, rfl⟩ | ⟨small, rfl⟩
    · exact ⟨rfl, rfl, rfl, rfl, fits⟩
    · exact ⟨rfl, rfl, rfl, by simp only [BarrierPlace.owes]; omega, fits⟩
  obtain ⟨noWait, noDrain, noReset, owes, self⟩ := moved
  rw [noWait] at filling
  rw [noDrain] at draining
  rw [noReset] at resetting
  rw [owes] at owing
  simp only [BarrierPlace.waits, BarrierPlace.resets, BarrierPlace.owes, Nat.add_zero] at filling draining resetting owing
  refine sound.move rfl sound.initial ?_ ?_ ?_ sound.ahead ?_ (fun _ _ => ⟨rfl, rfl⟩) self sound.flipped
    sound.past sound.last sound.future
  · intro _
    rw [filling, closed.2]
    change (0 : Int) < b.nInitialBarrierHeight ∧ (b.nInitialBarrierHeight : Int) + (0 : Nat) = count
    rw [sound.initial]
    omega
  · intro some_
    omega
  · omega
  · rw [Nat.add_right_cancel owing, draining]
    exact behind

theorem Barrier.Sound.post {left : Nat} (sound : b.Sound count round phase) (member : t ∈ b.threads.members)
    (here : b.threads.place t = .posting (!phase) (left + 1)) :
    ((b.setSem (!phase) (b.semBarrierBreeched (!phase) + 1)).goto t (.posting (!phase) left)).Sound count round
      phase := by
  have behind := sound.behind
  have fits := sound.place t member
  obtain ⟨filling, draining, resetting, owing⟩ :=
    Barrier.counts (m := b.setSem (!phase) (b.semBarrierBreeched (!phase) + 1)) member rfl count phase
      (.posting (!phase) left)
  rw [here] at filling draining resetting owing fits
  simp only [BarrierPlace.waits, BarrierPlace.resets, BarrierPlace.owes, Nat.add_zero] at filling draining resetting owing
  refine sound.move rfl sound.initial ?_ ?_ ?_ ?_ ?_ (fun _ _ => ⟨rfl, rfl⟩) fits sound.flipped sound.past
    sound.last sound.future
  · rw [filling, resetting]
    exact sound.filling
  · rw [filling, resetting]
    exact sound.closing
  · rw [resetting]
    exact sound.single
  · simp [Barrier.setSem, sound.ahead]
  · rw [draining]
    simp only [Barrier.setSem, Function.update_self]
    change _ + (b.goto t (.posting (!phase) left)).threads.total (BarrierPlace.owes count) = _
    change (b.goto t (.posting (!phase) left)).threads.total (BarrierPlace.owes count) + _ = _ at owing
    omega

theorem Barrier.Sound.wake (sound : b.Sound count round phase) (member : t ∈ b.threads.members)
    (here : b.threads.place t = .wait !phase) (posted : 0 < b.semBarrierBreeched !phase) :
    ((b.setSem (!phase) (b.semBarrierBreeched (!phase) - 1)).goto t (.flip !phase)).Sound count round phase := by
  have behind := sound.behind
  have fits := sound.place t member
  obtain ⟨filling, draining, resetting, owing⟩ :=
    Barrier.counts (m := b.setSem (!phase) (b.semBarrierBreeched (!phase) - 1)) member rfl count phase (.flip !phase)
  rw [here] at filling draining resetting owing fits
  simp only [BarrierPlace.waits, BarrierPlace.resets, BarrierPlace.owes, Nat.add_zero, if_true, Bool.not_eq_self,
    if_false] at filling draining resetting owing
  have old : b.called t = round ∧ b.returned t + 1 = round := by
    simpa [BarrierPlace.Fits] using fits
  refine sound.move rfl sound.initial ?_ ?_ ?_ ?_ ?_ (fun _ _ => ⟨rfl, rfl⟩) ⟨rfl, old⟩ sound.flipped sound.past
    sound.last sound.future
  · rw [filling, resetting]
    exact sound.filling
  · rw [filling, resetting]
    exact sound.closing
  · rw [resetting]
    exact sound.single
  · simp [Barrier.setSem, sound.ahead]
  · rw [owing]
    simp only [Barrier.setSem, Function.update_self]
    change _ = (b.goto t (.flip !phase)).threads.total (BarrierPlace.waits !phase)
    change (b.goto t (.flip !phase)).threads.total (BarrierPlace.waits !phase) + 1 = _ at draining
    omega

/-- The first thread out of a round moves `iStep` on and is told so; the others find it moved. -/
theorem Barrier.Sound.out (sound : b.Sound count round phase) (member : t ∈ b.threads.members)
    (here : b.threads.place t = .flip !phase) {result : Int}
    (first : result = pthreadBarrierSerialThread ↔ b.iStep ≠ phase) :
    ({ b with iStep := phase }.leave t result).Sound count round phase := by
  have behind := sound.behind
  have fits := sound.place t member
  rw [here] at fits
  obtain ⟨_, called, returned⟩ := fits
  obtain ⟨filling, draining, resetting, owing⟩ :=
    Barrier.counts (m := ({ b with iStep := phase } : Barrier τ).count t result) member rfl count phase
      (.returning result)
  rw [here] at filling draining resetting owing
  simp only [BarrierPlace.waits, BarrierPlace.resets, BarrierPlace.owes, Nat.add_zero] at filling draining resetting owing
  refine sound.move rfl sound.initial ?_ ?_ ?_ sound.ahead ?_ ?_ ?_ ?_ ?_ ?_ ?_
  · rw [filling, resetting]
    exact sound.filling
  · rw [filling, resetting]
    exact sound.closing
  · rw [resetting]
    exact sound.single
  · rw [owing, draining]
    exact behind
  · intro u ne
    exact ⟨rfl, Function.update_of_ne ne ..⟩
  · change b.called t = round ∧ Function.update b.returned t (b.returned t + 1) t = round
    rw [Function.update_self]
    exact ⟨called, returned⟩
  · intro _ _ _
    rfl
  · intro before earlier
    have other : before ≠ b.returned t := by omega
    exact (Function.update_of_ne other ..).trans (sound.past before earlier)
  · intro before latest
    have same : before = b.returned t := by omega
    subst same
    change Function.update b.serials (b.returned t) _ (b.returned t) = if phase = phase then 1 else 0
    rw [Function.update_self, sound.last _ latest, if_pos rfl]
    by_cases moved : b.iStep = phase
    · rw [if_pos moved, if_neg (mt first.mp (not_not.mpr moved))]
    · rw [if_neg moved, if_pos (first.mpr moved)]
  · intro later after
    have other : later ≠ b.returned t := by omega
    exact (Function.update_of_ne other ..).trans (sound.future later after)

theorem Barrier.Sound.run (sound : b.Sound count round phase) (move : b.run t = some after) :
    ∃ round phase, after.Sound count round phase := by
  simp only [Barrier.run, Option.ite_none_right_eq_some] at move
  obtain ⟨member, move⟩ := move
  have fits := sound.place t member
  cases here : b.threads.place t with
  | out =>
    rw [here] at move fits
    cases move
    refine ⟨round, phase, sound.stay member (by simp [here, BarrierPlace.waits]) (by rw [here]; rfl) (by rw [here]; rfl)
      (fun u ne => Function.update_of_ne ne ..) ?_⟩
    rw [Function.update_self, fits.1]
    exact ⟨rfl, fits.2⟩
  | read =>
    rw [here] at move fits
    cases move
    exact ⟨round, phase, sound.stay member (by simp [here, BarrierPlace.waits]) (by rw [here]; rfl) (by rw [here]; rfl)
      (fun _ _ => rfl) ⟨sound.flipped t member fits.2, fits⟩⟩
  | decrement step =>
    rw [here] at move fits
    obtain ⟨rfl, _⟩ := fits
    have small := sound.int
    have filled := sound.filling (sound.no_reset member here)
    have less : intSub b.nCurrentBarrierHeight 1 = b.nCurrentBarrierHeight - 1 := by
      unfold intMax at small
      exact intSub_eq (by omega) (by omega)
    simp only [Barrier.access, less, Option.some.injEq] at move
    subst move
    by_cases last : b.nCurrentBarrierHeight - 1 = 0
    · rw [if_pos last]
      exact ⟨round + 1, !step, sound.begin_round member here last⟩
    · rw [if_neg last]
      exact ⟨round, step, sound.count_down member here last⟩
  | reset step =>
    rw [here] at move fits
    obtain ⟨rfl, _⟩ := fits
    cases move
    refine ⟨round, phase, sound.reset member here ?_⟩
    rw [sound.initial]
    by_cases more : 1 < count
    · exact Or.inl ⟨more, if_pos more⟩
    · exact Or.inr ⟨by omega, if_neg more⟩
  | posting step left =>
    rw [here] at move fits
    obtain ⟨rfl, old⟩ := fits
    cases left with
    | zero =>
      cases move
      exact ⟨round, phase, sound.stay member (by simp [here, BarrierPlace.waits]) (by rw [here]; rfl)
        (by rw [here]; rfl) (fun _ _ => rfl) ⟨rfl, old⟩⟩
    | succ left =>
      cases move
      exact ⟨round, phase, sound.post member here⟩
  | wait step =>
    rw [here] at move fits
    simp only [Barrier.access, Option.ite_none_right_eq_some] at move
    obtain ⟨posted, moved⟩ := move
    have old : step = !phase := by
      rcases fits with ⟨rfl, _⟩ | ⟨old, _⟩
      · rw [sound.ahead] at posted
        exact absurd posted (Nat.lt_irrefl 0)
      · exact old
    subst old
    cases moved
    exact ⟨round, phase, sound.wake member here posted⟩
  | flip step =>
    rw [here] at move fits
    obtain ⟨rfl, old⟩ := fits
    simp only [Barrier.access] at move
    split at move
    · rename_i unmoved
      cases move
      refine ⟨round, phase, ?_⟩
      rw [Bool.not_not]
      exact sound.out member here (iff_of_true rfl (by rw [unmoved]; cases phase <;> decide))
    · rename_i moved
      cases move
      have now : b.iStep = phase := by
        cases phase
        · simpa using moved
        · simpa using moved
      have unchanged : ({ b with iStep := phase } : Barrier τ) = b := by rw [← now]
      have left : ({ b with iStep := phase }.leave t 0).Sound count round phase :=
        sound.out member here (iff_of_false (by decide) (not_not.mpr now))
      rw [unchanged] at left
      exact ⟨round, phase, left⟩
  | returning result =>
    rw [here] at move fits
    cases move
    exact ⟨round, phase, sound.stay member (by simp [here, BarrierPlace.waits]) (by rw [here]; rfl) (by rw [here]; rfl)
      (fun _ _ => rfl) fits⟩

omit [DecidableEq τ] in
theorem Barrier.Sound.called_returned (sound : b.Sound count round phase) (member : t ∈ b.threads.members) :
    round ≤ b.called t ∧ b.returned t ≤ round := by
  have fits := sound.place t member
  cases here : b.threads.place t with
  | out => rw [here] at fits; exact ⟨fits.1.ge, fits.2.le⟩
  | returning result => rw [here] at fits; exact ⟨fits.1.ge, fits.2.le⟩
  | read => rw [here] at fits; exact ⟨by have := fits.1; omega, fits.2.le⟩
  | decrement step => rw [here] at fits; exact ⟨by have := fits.2.1; omega, fits.2.2.le⟩
  | wait step => rw [here] at fits; rcases fits with ⟨_, called, returned⟩ | ⟨_, called, returned⟩ <;> omega
  | reset step => rw [here] at fits; obtain ⟨_, called, returned⟩ := fits; omega
  | posting step left => rw [here] at fits; obtain ⟨_, called, returned⟩ := fits; omega
  | flip step => rw [here] at fits; obtain ⟨_, called, returned⟩ := fits; omega

omit [DecidableEq τ] in
theorem Barrier.Sound.meets (sound : b.Sound count round phase) : b.Meets := by
  refine ⟨fun t inside u alsoInside => ?_, fun before => ?_, fun t inside before through => ?_⟩
  · have mine := (sound.called_returned inside).2
    have theirs := (sound.called_returned alsoInside).1
    omega
  · rcases Nat.lt_trichotomy (before + 1) round with earlier | latest | later
    · exact (sound.past before earlier).le
    · rw [sound.last before latest]
      split
      · exact Nat.le_refl 1
      · exact Nat.zero_le 1
    · rw [sound.future before (by omega)]
      exact Nat.zero_le 1
  · have bound := (sound.called_returned inside).2
    by_cases latest : before + 1 = round
    · rw [sound.last before latest, if_pos (sound.flipped t inside (by omega))]
    · exact sound.past before (by omega)

omit [DecidableEq τ] in
/-- A thread that waits for its own round finds one that has not counted down. -/
theorem Barrier.Sound.missing (sound : b.Sound count round phase) (filling : b.threads.total BarrierPlace.resets = 0) :
    ∃ u ∈ b.threads.members, b.threads.place u ≠ .wait phase := by
  by_contra all
  have everyone : ∀ u ∈ b.threads.members, b.threads.place u = .wait phase := by
    intro u inside
    by_contra other
    exact all ⟨u, inside, other⟩
  have full := Crowd.total_of_all (w := BarrierPlace.waits phase) everyone
  have card := sound.card
  obtain ⟨open_, height⟩ := sound.filling filling
  simp only [BarrierPlace.waits, if_true, Nat.mul_one] at full
  omega

/-- A thread that has left `sem_wait` behind, or has not come to it, can go on. -/
theorem Barrier.runs (member : t ∈ b.threads.members)
    (free : ∀ step, b.threads.place t = .wait step → 0 < b.semBarrierBreeched step) : (b.run t).isSome := by
  simp only [Barrier.run, if_pos member]
  cases here : b.threads.place t with
  | wait step => simp [Barrier.access, free step here]
  | posting step left => cases left <;> rfl
  | flip step => simp only [Barrier.access]; split <;> rfl
  | out => rfl
  | read => rfl
  | decrement step => rfl
  | reset step => rfl
  | returning result => rfl

/-- The posts that the threads on their way out of a round still need are there or to come. -/
theorem Barrier.Sound.posts (sound : b.Sound count round phase) (member : t ∈ b.threads.members)
    (waits : b.threads.place t = .wait !phase) :
    ∃ u ∈ b.threads.members, b.returned u + 1 = round ∧ (b.run u).isSome := by
  by_cases posted : 0 < b.semBarrierBreeched !phase
  · have fits := sound.place t member
    rw [waits] at fits
    have old : b.called t = round ∧ b.returned t + 1 = round := by
      simpa [BarrierPlace.Fits] using fits
    refine ⟨t, member, old.2, Barrier.runs member fun step here => ?_⟩
    · cases waits.symm.trans here
      exact posted
  · have behind := sound.behind
    have mine := Crowd.le_total (w := BarrierPlace.waits !phase) member
    rw [waits] at mine
    simp only [BarrierPlace.waits, if_true] at mine
    obtain ⟨u, inside, owes⟩ :=
      Crowd.exists_of_pos (show 0 < b.threads.total (BarrierPlace.owes count) by omega)
    have fits := sound.place u inside
    cases here : b.threads.place u with
    | reset step => rw [here] at fits; exact ⟨u, inside, fits.2.2, Barrier.runs inside (by simp [here])⟩
    | posting step left => rw [here] at fits; exact ⟨u, inside, fits.2.2, Barrier.runs inside (by simp [here])⟩
    | wait step => rw [here] at owes; exact absurd owes (Nat.lt_irrefl 0)
    | flip step => rw [here] at owes; exact absurd owes (Nat.lt_irrefl 0)
    | out => rw [here] at owes; exact absurd owes (Nat.lt_irrefl 0)
    | read => rw [here] at owes; exact absurd owes (Nat.lt_irrefl 0)
    | decrement step => rw [here] at owes; exact absurd owes (Nat.lt_irrefl 0)
    | returning result => rw [here] at owes; exact absurd owes (Nat.lt_irrefl 0)

/-- Whoever waits, a thread can go on that is through no more rounds. -/
theorem Barrier.Sound.served {step : Bool} (sound : b.Sound count round phase) (member : t ∈ b.threads.members)
    (waits : b.threads.place t = .wait step) :
    ∃ u ∈ b.threads.members, b.returned u ≤ b.returned t ∧ (b.run u).isSome := by
  have fits := sound.place t member
  rw [waits] at fits
  rcases fits with ⟨rfl, _, returned⟩ | ⟨rfl, _, returned⟩
  · have filling : b.threads.total BarrierPlace.resets = 0 := by
      by_contra resets
      have mine := Crowd.le_total (w := BarrierPlace.waits step) member
      rw [waits, (sound.closing resets).2] at mine
      simp [BarrierPlace.waits] at mine
    obtain ⟨u, inside, other⟩ := sound.missing filling
    by_cases behind : b.threads.place u = .wait !step
    · obtain ⟨v, alsoInside, earlier, runs⟩ := sound.posts inside behind
      exact ⟨v, alsoInside, by omega, runs⟩
    · have bound := (sound.called_returned inside).2
      refine ⟨u, inside, by omega, Barrier.runs inside fun place here => ?_⟩
      exfalso
      by_cases this : place = step
      · exact other (this ▸ here)
      · exact behind (by rw [here, Bool.eq_not_of_ne this])
  · obtain ⟨u, inside, earlier, runs⟩ := sound.posts member waits
    exact ⟨u, inside, by omega, runs⟩

end Steps

/-! ## Runs -/

theorem Barrier.reached_sound {count : Nat} {b : Barrier τ} (reached : b.Reached count) :
    ∃ round phase, b.Sound count round phase := by
  refine reached.invariant (fun b => ∃ round phase, b.Sound count round phase) (fun b fresh => ?_)
    fun b t after sound _ move => ?_
  · have nothing : ∀ w : BarrierPlace → Nat, w .out = 0 → b.threads.total w = 0 := fun w zero =>
      Crowd.total_eq_zero.mpr fun t _ => by rw [fresh.place t, zero]
    have noResets := nothing BarrierPlace.resets rfl
    refine ⟨0, false, fresh.card, fresh.positive, fresh.int, fresh.initial, fun _ => ?_, fun some_ => ?_, ?_,
      fresh.sem false, ?_, fun t _ => ?_, fun _ _ _ => fresh.iStep, fun before earlier => ?_, fun before latest => ?_,
      fun later _ => fresh.serials later⟩
    · rw [fresh.current, nothing (BarrierPlace.waits false) rfl]
      have := fresh.positive
      omega
    · exact absurd noResets some_
    · omega
    · rw [fresh.sem, nothing (BarrierPlace.owes count) rfl, nothing (BarrierPlace.waits !false) rfl]
    · rw [fresh.place t, fresh.called t, fresh.returned t]
      exact ⟨rfl, rfl⟩
    · omega
    · omega
  · obtain ⟨round, phase, sound⟩ := sound
    exact sound.run move

/-- In every run of the threads that a barrier was made for. -/
theorem Barrier.barrier_meets {count : Nat} {b : Barrier τ} (reached : b.Reached count) : b.Meets := by
  obtain ⟨round, phase, sound⟩ := Barrier.reached_sound reached
  exact sound.meets

/-- A barrier for two threads. -/
def Barrier.initial : Barrier Nat where
  nInitialBarrierHeight := 2
  nCurrentBarrierHeight := 2
  iStep := false
  semBarrierBreeched _ := 0
  threads := ⟨{0, 1}, fun _ => .out⟩
  called _ := 0
  returned _ := 0
  serials _ := 0

theorem Barrier.initial_fresh : Barrier.initial.Fresh 2 :=
  ⟨rfl, by decide, by decide, rfl, rfl, rfl, fun _ => rfl, fun _ => rfl, fun _ => rfl, fun _ => rfl, fun _ => rfl⟩

/-- Thread 1 is through and has come again; thread 0 is still on its way out. -/
theorem Barrier.meets_two : ∃ b : Barrier Nat, b.returned 1 = 1 ∧ b.threads.place 1 = .wait true ∧
    b.threads.place 0 = .flip false ∧ 1 ≤ b.called 0 ∧ b.serials 0 = 1 := by
  have run : (runLabels Barrier.run Always [0, 0, 0, 1, 1, 1, 1, 1, 1, 1, 1, 1, 1, 1, 0] Barrier.initial).any
      (fun b => decide ((b.returned 1 = 1 ∧ 1 ∈ b.threads.members ∧ 0 ∈ b.threads.members) ∧
        b.threads.place 1 = .wait true ∧ b.threads.place 0 = .flip false)) = true := by decide +kernel
  obtain ⟨b, reached, ⟨through, one, zero⟩, again, late⟩ := Reach.of_run_ends Barrier.initial_fresh run
  obtain ⟨together, _, serial⟩ := Barrier.barrier_meets reached
  exact ⟨b, through, again, late, through ▸ together 1 one 0 zero, serial 1 one 0 (by omega)⟩

/-- No thread is left at a semaphore that nobody is going to post. -/
theorem Barrier.barrier_waiter_served {count : Nat} {b : Barrier τ} {t : τ} {step : Bool} (reached : b.Reached count)
    (member : t ∈ b.threads.members) (waits : b.threads.place t = .wait step) :
    ∃ u ∈ b.threads.members, b.returned u ≤ b.returned t ∧ (b.run u).isSome := by
  obtain ⟨round, phase, sound⟩ := Barrier.reached_sound reached
  exact sound.served member waits

/-- Thread 0 waits, and thread 1 has not come. -/
theorem Barrier.barrier_waiter_served_two : ∃ b : Barrier Nat, b.threads.place 0 = .wait false ∧
    ∃ u ∈ b.threads.members, b.returned u ≤ b.returned 0 ∧ (b.run u).isSome := by
  have run : (runLabels Barrier.run Always [0, 0, 0] Barrier.initial).any
      (fun b => decide (b.threads.place 0 = .wait false ∧ 0 ∈ b.threads.members)) = true := by decide +kernel
  obtain ⟨b, reached, waits, member⟩ := Reach.of_run_ends Barrier.initial_fresh run
  exact ⟨b, waits, Barrier.barrier_waiter_served reached member waits⟩

end Stardust.Pte
