import Stardust.Lib.Crowd
import Stardust.Lib.Reach
import Stardust.Pte.CondVar

/-! # Waits on a condition variable

`pthread_cond_wait`, `pthread_cond_timedwait`, `pthread_cond_signal` and
`pthread_cond_broadcast` of any number of threads, access by access.  The two semaphores
and the mutex of the variable are taken one step at a time; no thread is cancelled, and the
caller's own mutex is left to the caller. -/
set_option autoImplicit false
namespace Stardust.Pte

open Stardust.Lib

inductive CondPlace
  | out
  /-- `sem_wait(&cv->semBlockLock)` -/
  | enter (timed : Bool)
  /-- `++cv->nWaitersBlocked` -/
  | block (timed : Bool)
  /-- `sem_post(&cv->semBlockLock)` -/
  | blocked (timed : Bool)
  /-- `sem_timedwait(&cv->semBlockQueue, abstime)` -/
  | queue (timed : Bool)
  /-- `pte_cond_wait_cleanup` at the lock of `mtxUnblockLock`, with a post taken or not -/
  | cleanup (got : Bool)
  /-- the handler looks at `nWaitersToUnblock` -/
  | count (got : Bool)
  /-- `sem_wait(&cv->semBlockLock)` with `INT_MAX / 2` waiters gone -/
  | drain
  /-- `cv->nWaitersBlocked -= cv->nWaitersGone` -/
  | settle
  /-- `sem_post(&cv->semBlockLock)` after it -/
  | settled
  /-- `pthread_mutex_unlock(&cv->mtxUnblockLock)` -/
  | leave (nSignalsWasLeft : Int)
  /-- `sem_post(&cv->semBlockLock)` of the last waiter to be unblocked -/
  | reopen
  /-- `pte_cond_unblock` at the lock of `mtxUnblockLock` -/
  | signal (unblockAll : Bool)
  /-- it looks at the counters -/
  | look (unblockAll : Bool)
  /-- waiters are to be unblocked already; more are added -/
  | add (unblockAll : Bool)
  /-- `sem_wait(&cv->semBlockLock)` -/
  | gate (unblockAll : Bool)
  /-- the counters are set with the gate closed -/
  | close (unblockAll : Bool)
  /-- `pthread_mutex_unlock(&cv->mtxUnblockLock)` with so many signals to issue -/
  | unlock (nSignalsToIssue : Nat)
  /-- in `sem_post_multiple(&cv->semBlockQueue, nSignalsToIssue)` -/
  | posting (left : Nat)
  deriving DecidableEq

/-- `pthread_cond_t_` and the threads that use it. -/
structure CondWaits (τ : Type) where
  nWaitersBlocked : Int
  nWaitersGone : Int
  nWaitersToUnblock : Int
  semBlockQueue : Nat
  semBlockLock : Nat
  mtxUnblockLock : Bool
  threads : Crowd τ CondPlace

inductive WaitsOp
  | wait
  | timedwait
  | signal
  | broadcast
  deriving DecidableEq

inductive WaitsTurn (τ : Type)
  | call (t : τ) (op : WaitsOp)
  /-- the next access of `t`; `expired` is what the clock tells a timed wait -/
  | run (t : τ) (expired : Bool)

variable {τ : Type} [DecidableEq τ]

/-! ## The code -/

def WaitsOp.first : WaitsOp → CondPlace
  | .wait => .enter false
  | .timedwait => .enter true
  | .signal => .signal false
  | .broadcast => .signal true

def CondWaits.goto (s : CondWaits τ) (t : τ) (place : CondPlace) : CondWaits τ :=
  { s with threads := s.threads.move t place }

/-- The counters once some waiters are to be unblocked already. -/
def CondWaits.added (s : CondWaits τ) (unblockAll : Bool) : Nat × CondWaits τ :=
  if unblockAll then
    let nSignalsToIssue := toInt s.nWaitersBlocked
    (nSignalsToIssue.toNat,
      { s with nWaitersToUnblock := s.nWaitersToUnblock + nSignalsToIssue, nWaitersBlocked := 0 })
  else (1, { s with nWaitersToUnblock := s.nWaitersToUnblock + 1, nWaitersBlocked := s.nWaitersBlocked - 1 })

/-- The counters set with the gate closed. -/
def CondWaits.closed (s : CondWaits τ) (unblockAll : Bool) : Nat × CondWaits τ :=
  let nWaitersBlocked := if s.nWaitersGone ≠ 0 then s.nWaitersBlocked - s.nWaitersGone else s.nWaitersBlocked
  if unblockAll then
    ((toInt nWaitersBlocked).toNat,
      { s with nWaitersToUnblock := nWaitersBlocked, nWaitersBlocked := 0, nWaitersGone := 0 })
  else (1, { s with nWaitersToUnblock := 1, nWaitersBlocked := nWaitersBlocked - 1, nWaitersGone := 0 })

/-- The next access of a thread.  What is touched under `mtxUnblockLock` only, and what only
the holder of `semBlockLock` writes, is read and written in one step. -/
def CondWaits.access (s : CondWaits τ) (t : τ) (expired : Bool) : CondPlace → Option (CondWaits τ)
  | .out => none
  | .enter timed =>
    if 0 < s.semBlockLock then some ({ s with semBlockLock := s.semBlockLock - 1 }.goto t (.block timed)) else none
  | .block timed => some ({ s with nWaitersBlocked := s.nWaitersBlocked + 1 }.goto t (.blocked timed))
  | .blocked timed => some ({ s with semBlockLock := s.semBlockLock + 1 }.goto t (.queue timed))
  | .queue timed =>
    if 0 < s.semBlockQueue then
      some ({ s with semBlockQueue := s.semBlockQueue - 1 }.goto t (.cleanup true))
    -- the handler of `sem_timedwait` has tried once more
    else if timed && expired then some (s.goto t (.cleanup false))
    else none
  | .cleanup got => if s.mtxUnblockLock then none else some ({ s with mtxUnblockLock := true }.goto t (.count got))
  | .count _ =>
    if s.nWaitersToUnblock ≠ 0 then
      some ({ s with nWaitersToUnblock := s.nWaitersToUnblock - 1 }.goto t (.leave (toInt s.nWaitersToUnblock)))
    else
      some ({ s with nWaitersGone := s.nWaitersGone + 1 }.goto t
        (if s.nWaitersGone + 1 = intMax / 2 then .drain else .leave 0))
  | .drain =>
    if 0 < s.semBlockLock then some ({ s with semBlockLock := s.semBlockLock - 1 }.goto t .settle) else none
  | .settle =>
    -- `nWaitersGone = 0` comes after the post, still under `mtxUnblockLock`
    some ({ s with nWaitersBlocked := s.nWaitersBlocked - s.nWaitersGone, nWaitersGone := 0 }.goto t .settled)
  | .settled => some ({ s with semBlockLock := s.semBlockLock + 1 }.goto t (.leave 0))
  | .leave nSignalsWasLeft =>
    some ({ s with mtxUnblockLock := false }.goto t (if nSignalsWasLeft = 1 then .reopen else .out))
  | .reopen => some ({ s with semBlockLock := s.semBlockLock + 1 }.goto t .out)
  | .signal unblockAll =>
    if s.mtxUnblockLock then none else some ({ s with mtxUnblockLock := true }.goto t (.look unblockAll))
  | .look unblockAll =>
    if s.nWaitersToUnblock ≠ 0 then
      if s.nWaitersBlocked = 0 then some (s.goto t (.unlock 0)) else some (s.goto t (.add unblockAll))
    else if s.nWaitersGone < s.nWaitersBlocked then some (s.goto t (.gate unblockAll))
    else some (s.goto t (.unlock 0))
  | .add unblockAll => some ((s.added unblockAll).2.goto t (.unlock (s.added unblockAll).1))
  | .gate unblockAll =>
    if 0 < s.semBlockLock then some ({ s with semBlockLock := s.semBlockLock - 1 }.goto t (.close unblockAll))
    else none
  | .close unblockAll => some ((s.closed unblockAll).2.goto t (.unlock (s.closed unblockAll).1))
  | .unlock nSignalsToIssue =>
    some ({ s with mtxUnblockLock := false }.goto t (if nSignalsToIssue = 0 then .out else .posting nSignalsToIssue))
  | .posting 0 => some (s.goto t .out)
  | .posting (left + 1) => some ({ s with semBlockQueue := s.semBlockQueue + 1 }.goto t (.posting left))

def CondWaits.exec (s : CondWaits τ) : WaitsTurn τ → Option (CondWaits τ)
  | .call t op =>
    if t ∈ s.threads.members ∧ s.threads.place t = .out then some (s.goto t op.first) else none
  | .run t expired => if t ∈ s.threads.members then s.access t expired (s.threads.place t) else none

/-- `pthread_cond_init`; there are no more than 2^16 threads, as many as `uint16_t` ids. -/
structure CondWaits.Fresh (s : CondWaits τ) : Prop where
  nWaitersBlocked : s.nWaitersBlocked = 0
  nWaitersGone : s.nWaitersGone = 0
  nWaitersToUnblock : s.nWaitersToUnblock = 0
  semBlockQueue : s.semBlockQueue = 0
  semBlockLock : s.semBlockLock = 1
  mtxUnblockLock : s.mtxUnblockLock = false
  place : ∀ t, s.threads.place t = .out
  card : s.threads.members.card ≤ 2 ^ 16

/-! ## What is counted -/

/-- A thread that `nWaitersBlocked` counts, or `nWaitersToUnblock` does. -/
def CondPlace.waits : CondPlace → Nat
  | .blocked _ | .queue _ | .cleanup _ | .count _ => 1
  | _ => 0

/-- A thread in `sem_timedwait`. -/
def CondPlace.queues : CondPlace → Nat
  | .queue _ => 1
  | _ => 0

/-- The posts of `semBlockQueue` that a thread has taken or is going to make. -/
def CondPlace.posts : CondPlace → Nat
  | .cleanup true | .count true => 1
  | .unlock signals | .posting signals => signals
  | _ => 0

/-- The signals that a thread is going to post. -/
def CondPlace.owes : CondPlace → Nat
  | .unlock signals | .posting signals => signals
  | _ => 0

/-- A thread that will post `semBlockLock` and has taken it, or took the last signal. -/
def CondPlace.shuts : CondPlace → Nat
  | .block _ | .blocked _ | .settle | .settled | .close _ | .reopen => 1
  | .leave left => if left = 1 then 1 else 0
  | _ => 0

/-- A thread that has `mtxUnblockLock`. -/
def CondPlace.locks : CondPlace → Nat
  | .count _ | .drain | .settle | .settled | .leave _ | .look _ | .add _ | .gate _ | .close _ | .unlock _ => 1
  | _ => 0

/-- `semBlockLock` is taken as long as waiters are to be unblocked. -/
def shut (nWaitersToUnblock : Int) : Nat := if nWaitersToUnblock = 0 then 0 else 1

/-! ## The invariant -/

/-- What the holder of `mtxUnblockLock` has seen of the counters. -/
def CondPlace.Fits (blocked gone toUnblock : Int) : CondPlace → Prop
  | .drain | .settle => toUnblock = 0
  | .gate _ | .close _ => toUnblock = 0 ∧ gone < blocked
  | .add _ => toUnblock ≠ 0 ∧ blocked ≠ 0
  | _ => True

/-- `stray` posts of `semBlockQueue` are without a waiter to be unblocked: another waiter,
that did not get its post in time, has left in its place. -/
structure CondWaits.Sound (stray : Nat) (s : CondWaits τ) : Prop where
  card : s.threads.members.card ≤ 2 ^ 16
  blocked : 0 ≤ s.nWaitersBlocked
  gone : 0 ≤ s.nWaitersGone
  toUnblock : 0 ≤ s.nWaitersToUnblock
  fresh : s.nWaitersToUnblock ≠ 0 → s.nWaitersGone = 0
  counted : s.nWaitersBlocked + s.nWaitersToUnblock = s.threads.total CondPlace.waits + s.nWaitersGone
  gate : s.semBlockLock + s.threads.total CondPlace.shuts + shut s.nWaitersToUnblock = 1
  mutex : s.threads.total CondPlace.locks = held s.mtxUnblockLock
  signals : s.nWaitersToUnblock + stray = s.semBlockQueue + s.threads.total CondPlace.posts
  place : ∀ t ∈ s.threads.members,
    (s.threads.place t).Fits s.nWaitersBlocked s.nWaitersGone s.nWaitersToUnblock

section Steps
variable {s m after : CondWaits τ} {t : τ} {old place : CondPlace} {stray rest : Nat} {expired : Bool}

omit [DecidableEq τ] in
/-- The holder of `mtxUnblockLock` is alone with the counters. -/
theorem CondWaits.Sound.alone {u : τ} (sound : s.Sound stray) (member : t ∈ s.threads.members)
    (locks : (s.threads.place t).locks = 1) (inside : u ∈ s.threads.members) (other : u ≠ t) :
    (s.threads.place u).locks = 0 := by
  classical
  have pair := Crowd.pair_le_total (w := CondPlace.locks) member inside other
  have mutex := sound.mutex
  have most := held_le s.mtxUnblockLock
  omega

/-- A thread without `mtxUnblockLock` has seen nothing. -/
theorem CondPlace.fits_of_unlocked {blocked gone toUnblock : Int} (unlocked : place.locks = 0) :
    place.Fits blocked gone toUnblock := by
  cases place with
  | drain => cases unlocked
  | settle => cases unlocked
  | gate unblockAll => cases unlocked
  | close unblockAll => cases unlocked
  | add unblockAll => cases unlocked
  | _ => trivial

/-- One more waiter leaves what the holder has seen as it is. -/
theorem CondPlace.Fits.more {blocked gone toUnblock : Int} (fits : place.Fits blocked gone toUnblock)
    (least : 0 ≤ blocked) : place.Fits (blocked + 1) gone toUnblock := by
  cases place with
  | drain => exact fits
  | settle => exact fits
  | gate unblockAll => exact ⟨fits.1, by have := fits.2; omega⟩
  | close unblockAll => exact ⟨fits.1, by have := fits.2; omega⟩
  | add unblockAll => exact ⟨fits.1, by omega⟩
  | _ => trivial

/-- A step of `t` from `old` to `place`, by what it changes of each count. -/
theorem CondWaits.Sound.move (sound : s.Sound stray) (member : t ∈ s.threads.members)
    (here : s.threads.place t = old) (threads : m.threads = s.threads)
    (blocked : 0 ≤ m.nWaitersBlocked) (gone : 0 ≤ m.nWaitersGone) (toUnblock : 0 ≤ m.nWaitersToUnblock)
    (fresh : m.nWaitersToUnblock ≠ 0 → m.nWaitersGone = 0)
    (counted : m.nWaitersBlocked + m.nWaitersToUnblock + s.nWaitersGone + old.waits =
      s.nWaitersBlocked + s.nWaitersToUnblock + m.nWaitersGone + place.waits)
    (gate : m.semBlockLock + shut m.nWaitersToUnblock + place.shuts =
      s.semBlockLock + shut s.nWaitersToUnblock + old.shuts)
    (mutex : held m.mtxUnblockLock + old.locks = held s.mtxUnblockLock + place.locks)
    (signals : m.nWaitersToUnblock + rest + s.semBlockQueue + old.posts =
      s.nWaitersToUnblock + stray + m.semBlockQueue + place.posts)
    (self : place.Fits m.nWaitersBlocked m.nWaitersGone m.nWaitersToUnblock)
    (others : old.locks = 1 ∨ ∀ p : CondPlace, p.Fits s.nWaitersBlocked s.nWaitersGone s.nWaitersToUnblock →
      p.Fits m.nWaitersBlocked m.nWaitersGone m.nWaitersToUnblock) : (m.goto t place).Sound rest := by
  have moved : (m.goto t place).threads = s.threads.move t place := congrArg (·.move t place) threads
  have waits := Crowd.total_move CondPlace.waits member place
  have shuts := Crowd.total_move CondPlace.shuts member place
  have locks := Crowd.total_move CondPlace.locks member place
  have posts := Crowd.total_move CondPlace.posts member place
  have before := sound.counted
  have closed := sound.gate
  have taken := sound.mutex
  have sent := sound.signals
  rw [here] at waits shuts locks posts
  refine ⟨?_, blocked, gone, toUnblock, fresh, ?_, ?_, ?_, ?_, fun u inside => ?_⟩
  · rw [moved]
    exact sound.card
  · rw [moved]
    change m.nWaitersBlocked + m.nWaitersToUnblock = _ + m.nWaitersGone
    omega
  · rw [moved]
    change m.semBlockLock + _ + shut m.nWaitersToUnblock = 1
    omega
  · rw [moved]
    change _ = held m.mtxUnblockLock
    omega
  · rw [moved]
    change m.nWaitersToUnblock + rest = m.semBlockQueue + _
    omega
  · rw [moved] at inside ⊢
    change ((s.threads.move t place).place u).Fits m.nWaitersBlocked m.nWaitersGone m.nWaitersToUnblock
    by_cases this : u = t
    · subst this
      rw [Crowd.place_move_self]
      exact self
    · rw [Crowd.place_move_other this]
      rcases others with locked | keeps
      · exact CondPlace.fits_of_unlocked (sound.alone member (here ▸ locked) inside this)
      · exact keeps _ (sound.place u inside)

/-- A step that leaves the three counters as they are. -/
theorem CondWaits.Sound.still (sound : s.Sound stray) (member : t ∈ s.threads.members)
    (here : s.threads.place t = old) {queue lock : Nat} {mutex : Bool} (waits : place.waits = old.waits)
    (gate : lock + place.shuts = s.semBlockLock + old.shuts)
    (locks : held mutex + old.locks = held s.mtxUnblockLock + place.locks)
    (posts : s.semBlockQueue + old.posts = queue + place.posts)
    (self : place.Fits s.nWaitersBlocked s.nWaitersGone s.nWaitersToUnblock) :
    ({ s with semBlockQueue := queue, semBlockLock := lock, mtxUnblockLock := mutex }.goto t place).Sound stray := by
  refine sound.move member here rfl sound.blocked sound.gone sound.toUnblock sound.fresh ?_ ?_ locks ?_ self
    (Or.inr fun _ fits => fits)
  · change s.nWaitersBlocked + s.nWaitersToUnblock + s.nWaitersGone + old.waits =
      s.nWaitersBlocked + s.nWaitersToUnblock + s.nWaitersGone + place.waits
    rw [waits]
  · change lock + shut s.nWaitersToUnblock + place.shuts = s.semBlockLock + shut s.nWaitersToUnblock + old.shuts
    omega
  · change s.nWaitersToUnblock + stray + s.semBlockQueue + old.posts = s.nWaitersToUnblock + stray + queue + place.posts
    omega

theorem CondPlace.waits_le (place : CondPlace) : place.waits ≤ 1 := by
  unfold CondPlace.waits
  split
  · exact Nat.le_refl 1
  · exact Nat.le_refl 1
  · exact Nat.le_refl 1
  · exact Nat.le_refl 1
  · exact Nat.zero_le 1

omit [DecidableEq τ] in
theorem CondWaits.Sound.waits_le (sound : s.Sound stray) : s.threads.total CondPlace.waits ≤ 2 ^ 16 := by
  have all : s.threads.total CondPlace.waits ≤ s.threads.total fun _ => 1 := Crowd.total_le CondPlace.waits_le
  rw [Crowd.total_one] at all
  exact all.trans sound.card

omit [DecidableEq τ] in
/-- The mutex is taken when a thread is where it has it. -/
theorem CondWaits.Sound.locked (sound : s.Sound stray) (member : t ∈ s.threads.members)
    (here : s.threads.place t = old) (locks : old.locks = 1) : s.mtxUnblockLock = true := by
  have mine := Crowd.le_total (w := CondPlace.locks) member
  rw [here, locks, sound.mutex] at mine
  cases known : s.mtxUnblockLock with
  | true => rfl
  | false =>
    rw [known] at mine
    exact absurd mine (by decide)

theorem CondWaits.Sound.count {got : Bool} (sound : s.Sound stray) (member : t ∈ s.threads.members)
    (here : s.threads.place t = .count got) (move : s.access t expired (.count got) = some after) :
    ∃ rest, after.Sound rest ∧ (rest ≤ stray ∨ got = false) := by
  have waits := sound.waits_le
  have counted := sound.counted
  have blocked := sound.blocked
  have gone := sound.gone
  have toUnblock := sound.toUnblock
  have fresh := sound.fresh
  simp only [CondWaits.access] at move
  split at move
  · rename_i some_
    cases move
    have none := fresh some_
    rw [toInt_of_small toUnblock (by omega)]
    have gate : shut (s.nWaitersToUnblock - 1) + (CondPlace.leave s.nWaitersToUnblock).shuts =
        shut s.nWaitersToUnblock := by
      simp only [shut, CondPlace.shuts, if_neg some_]
      by_cases last : s.nWaitersToUnblock = 1
      · simp [last]
      · rw [if_neg (by omega), if_neg last]
    refine ⟨if got then stray else stray + 1, sound.move member here rfl blocked gone ?_ (fun _ => none) ?_ ?_ ?_ ?_
      trivial (Or.inl rfl), ?_⟩
    · change 0 ≤ s.nWaitersToUnblock - 1
      omega
    · simp only [CondPlace.waits]
      omega
    · change s.semBlockLock + shut (s.nWaitersToUnblock - 1) + (CondPlace.leave s.nWaitersToUnblock).shuts =
        s.semBlockLock + shut s.nWaitersToUnblock + 0
      omega
    · rfl
    · cases got
      · simp only [CondPlace.posts]
        push_cast
        omega
      · simp only [CondPlace.posts, if_true]
        omega
    · cases got
      · exact Or.inr rfl
      · exact Or.inl (Nat.le_refl stray)
  · rename_i none
    cases move
    have none := not_not.mp none
    have signals := sound.signals
    have mine := Crowd.le_total (w := CondPlace.posts) member
    rw [here] at mine
    have stays : 0 < stray ∨ got = false := by
      cases got
      · exact Or.inr rfl
      · simp only [CondPlace.posts] at mine
        exact Or.inl (by omega)
    have next : ∀ place : CondPlace, place.waits = 0 ∧ place.shuts = 0 ∧ place.locks = 1 ∧ place.posts = 0 ∧
        place.Fits s.nWaitersBlocked (s.nWaitersGone + 1) s.nWaitersToUnblock →
        ({ s with nWaitersGone := s.nWaitersGone + 1 }.goto t place).Sound (if got then stray - 1 else stray) := by
      intro place ⟨noWait, noShut, locks, noPost, self⟩
      refine sound.move member here rfl blocked ?_ toUnblock (fun some_ => absurd none some_) ?_ ?_ ?_ ?_ self (Or.inl rfl)
      · change 0 ≤ s.nWaitersGone + 1
        omega
      · rw [noWait]
        simp only [CondPlace.waits]
        omega
      · rw [noShut]
        rfl
      · rw [locks]
        rfl
      · rw [noPost]
        cases got
        · rfl
        · simp only [CondPlace.posts, if_true]
          rcases stays with more | other
          · omega
          · cases other
    refine ⟨if got then stray - 1 else stray, next _ ?_, ?_⟩
    · split
      · exact ⟨rfl, rfl, rfl, rfl, none⟩
      · exact ⟨rfl, rfl, rfl, rfl, trivial⟩
    · cases got
      · exact Or.inl (Nat.le_refl stray)
      · exact Or.inl (Nat.sub_le stray 1)

/-- More waiters are to be unblocked. -/
theorem CondWaits.Sound.add {unblockAll : Bool} (sound : s.Sound stray) (member : t ∈ s.threads.members)
    (here : s.threads.place t = .add unblockAll) :
    ((s.added unblockAll).2.goto t (.unlock (s.added unblockAll).1)).Sound stray := by
  have waits := sound.waits_le
  have counted := sound.counted
  have blocked := sound.blocked
  have toUnblock := sound.toUnblock
  have seen : s.nWaitersToUnblock ≠ 0 ∧ s.nWaitersBlocked ≠ 0 := by
    have fits := sound.place t member
    rwa [here] at fits
  have none := sound.fresh seen.1
  cases unblockAll with
  | true =>
    have all : toInt s.nWaitersBlocked = s.nWaitersBlocked := toInt_of_small blocked (by omega)
    simp only [CondWaits.added, if_true, all]
    refine sound.move member here rfl (Int.le_refl 0) sound.gone ?_ (fun _ => none) ?_ ?_ rfl ?_ trivial (Or.inl rfl)
    · change 0 ≤ s.nWaitersToUnblock + s.nWaitersBlocked
      omega
    · simp only [CondPlace.waits]
      omega
    · have more : s.nWaitersToUnblock + s.nWaitersBlocked ≠ 0 := by omega
      simp only [shut, if_neg more, if_neg seen.1, CondPlace.shuts]
    · simp only [CondPlace.posts]
      omega
  | false =>
    simp only [CondWaits.added, Bool.false_eq_true, if_false]
    refine sound.move member here rfl ?_ sound.gone ?_ (fun _ => none) ?_ ?_ rfl ?_ trivial (Or.inl rfl)
    · change 0 ≤ s.nWaitersBlocked - 1
      omega
    · change 0 ≤ s.nWaitersToUnblock + 1
      omega
    · simp only [CondPlace.waits]
      omega
    · have more : s.nWaitersToUnblock + 1 ≠ 0 := by omega
      simp only [shut, if_neg more, if_neg seen.1, CondPlace.shuts]
    · simp only [CondPlace.posts]
      omega

/-- The first waiters are to be unblocked, and the gate stays shut for them. -/
theorem CondWaits.Sound.close {unblockAll : Bool} (sound : s.Sound stray) (member : t ∈ s.threads.members)
    (here : s.threads.place t = .close unblockAll) :
    ((s.closed unblockAll).2.goto t (.unlock (s.closed unblockAll).1)).Sound stray := by
  have waits := sound.waits_le
  have counted := sound.counted
  have gone := sound.gone
  obtain ⟨none, more⟩ : s.nWaitersToUnblock = 0 ∧ s.nWaitersGone < s.nWaitersBlocked := by
    have fits := sound.place t member
    rwa [here] at fits
  have settled : (if s.nWaitersGone ≠ 0 then s.nWaitersBlocked - s.nWaitersGone else s.nWaitersBlocked) =
      s.nWaitersBlocked - s.nWaitersGone := by
    split
    · rfl
    · omega
  have some_ : s.nWaitersBlocked - s.nWaitersGone ≠ 0 := by omega
  cases unblockAll with
  | true =>
    have all : toInt (s.nWaitersBlocked - s.nWaitersGone) = s.nWaitersBlocked - s.nWaitersGone :=
      toInt_of_small (by omega) (by omega)
    simp only [CondWaits.closed, settled, if_true, all]
    refine sound.move member here rfl (Int.le_refl 0) (Int.le_refl 0) ?_ (fun _ => rfl) ?_ ?_ rfl ?_ trivial (Or.inl rfl)
    · change 0 ≤ s.nWaitersBlocked - s.nWaitersGone
      omega
    · simp only [CondPlace.waits]
      omega
    · simp only [shut, if_neg some_, none, if_true, CondPlace.shuts]
    · simp only [CondPlace.posts]
      omega
  | false =>
    simp only [CondWaits.closed, settled, Bool.false_eq_true, if_false]
    refine sound.move member here rfl ?_ (Int.le_refl 0) ?_ (fun _ => rfl) ?_ ?_ rfl ?_ trivial (Or.inl rfl)
    · change 0 ≤ s.nWaitersBlocked - s.nWaitersGone - 1
      omega
    · change (0 : Int) ≤ 1
      decide
    · simp only [CondPlace.waits]
      omega
    · simp only [shut, none, if_true, CondPlace.shuts]
      rfl
    · simp only [CondPlace.posts]
      omega

theorem CondWaits.Sound.run (sound : s.Sound stray) (move : s.exec (.run t expired) = some after) :
    ∃ rest, after.Sound rest ∧ (rest ≤ stray ∨ s.threads.place t = .count false) := by
  simp only [CondWaits.exec, Option.ite_none_right_eq_some] at move
  obtain ⟨member, move⟩ := move
  have fits := sound.place t member
  cases here : s.threads.place t with
  | out =>
    rw [here] at move
    cases move
  | enter timed =>
    rw [here] at move
    simp only [CondWaits.access, Option.ite_none_right_eq_some, Option.some.injEq] at move
    obtain ⟨open_, rfl⟩ := move
    exact ⟨stray, sound.still member here rfl (Nat.sub_add_cancel open_) rfl rfl trivial, Or.inl (Nat.le_refl stray)⟩
  | block timed =>
    rw [here] at move
    cases move
    have blocked := sound.blocked
    refine ⟨stray, sound.move member here rfl ?_ sound.gone sound.toUnblock sound.fresh ?_ rfl rfl rfl trivial
      (Or.inr fun p seen => ?_), Or.inl (Nat.le_refl stray)⟩
    · change 0 ≤ s.nWaitersBlocked + 1
      omega
    · simp only [CondPlace.waits]
      omega
    · exact seen.more blocked
  | blocked timed =>
    rw [here] at move
    cases move
    exact ⟨stray, sound.still member here rfl rfl rfl rfl trivial, Or.inl (Nat.le_refl stray)⟩
  | queue timed =>
    rw [here] at move
    simp only [CondWaits.access] at move
    split at move
    · rename_i posted
      cases move
      exact ⟨stray, sound.still member here rfl rfl rfl (Nat.sub_add_cancel posted).symm trivial,
        Or.inl (Nat.le_refl stray)⟩
    · split at move
      · cases move
        exact ⟨stray, sound.still member here rfl rfl rfl rfl trivial, Or.inl (Nat.le_refl stray)⟩
      · cases move
  | cleanup got =>
    rw [here] at move
    simp only [CondWaits.access, Option.ite_none_left_eq_some, Bool.not_eq_true] at move
    obtain ⟨free, moved⟩ := move
    cases moved
    refine ⟨stray, sound.still member here rfl rfl ?_ ?_ trivial, Or.inl (Nat.le_refl stray)⟩
    · rw [free]
      rfl
    · cases got <;> rfl
  | count got =>
    rw [here] at move
    obtain ⟨rest, sound, bound⟩ := sound.count member here move
    refine ⟨rest, sound, bound.imp_right fun missed => ?_⟩
    rw [missed]
  | drain =>
    rw [here] at move fits
    simp only [CondWaits.access, Option.ite_none_right_eq_some, Option.some.injEq] at move
    obtain ⟨open_, rfl⟩ := move
    exact ⟨stray, sound.still member here rfl (Nat.sub_add_cancel open_) rfl rfl fits, Or.inl (Nat.le_refl stray)⟩
  | settle =>
    rw [here] at move fits
    cases move
    have none : s.nWaitersToUnblock = 0 := fits
    have counted := sound.counted
    refine ⟨stray, sound.move member here rfl ?_ (Int.le_refl 0) sound.toUnblock (fun _ => rfl) ?_ rfl rfl rfl trivial
      (Or.inl rfl), Or.inl (Nat.le_refl stray)⟩
    · change 0 ≤ s.nWaitersBlocked - s.nWaitersGone
      omega
    · simp only [CondPlace.waits]
      omega
  | settled =>
    rw [here] at move
    cases move
    exact ⟨stray, sound.still member here rfl rfl rfl rfl trivial, Or.inl (Nat.le_refl stray)⟩
  | leave left =>
    rw [here] at move
    cases move
    have locked := sound.locked member here rfl
    refine ⟨stray, ?_, Or.inl (Nat.le_refl stray)⟩
    split
    · rename_i last
      refine sound.still member here rfl ?_ (by rw [locked]; rfl) rfl trivial
      simp only [CondPlace.shuts, if_pos last]
    · rename_i more
      refine sound.still member here rfl ?_ (by rw [locked]; rfl) rfl trivial
      simp only [CondPlace.shuts, if_neg more]
  | reopen =>
    rw [here] at move
    cases move
    exact ⟨stray, sound.still member here rfl rfl rfl rfl trivial, Or.inl (Nat.le_refl stray)⟩
  | signal unblockAll =>
    rw [here] at move
    simp only [CondWaits.access, Option.ite_none_left_eq_some, Bool.not_eq_true] at move
    obtain ⟨free, moved⟩ := move
    cases moved
    exact ⟨stray, sound.still member here rfl rfl (by rw [free]; rfl) rfl trivial, Or.inl (Nat.le_refl stray)⟩
  | look unblockAll =>
    rw [here] at move
    simp only [CondWaits.access] at move
    refine ⟨stray, ?_, Or.inl (Nat.le_refl stray)⟩
    split at move
    · rename_i some_
      split at move
      · cases move
        exact sound.still member here rfl rfl rfl rfl trivial
      · rename_i waiters
        cases move
        exact sound.still member here rfl rfl rfl rfl ⟨some_, waiters⟩
    · rename_i none
      split at move
      · rename_i waiters
        cases move
        exact sound.still member here rfl rfl rfl rfl ⟨not_not.mp none, waiters⟩
      · cases move
        exact sound.still member here rfl rfl rfl rfl trivial
  | add unblockAll =>
    rw [here] at move
    cases move
    exact ⟨stray, sound.add member here, Or.inl (Nat.le_refl stray)⟩
  | gate unblockAll =>
    rw [here] at move fits
    simp only [CondWaits.access, Option.ite_none_right_eq_some, Option.some.injEq] at move
    obtain ⟨open_, rfl⟩ := move
    exact ⟨stray, sound.still member here rfl (Nat.sub_add_cancel open_) rfl rfl fits, Or.inl (Nat.le_refl stray)⟩
  | close unblockAll =>
    rw [here] at move
    cases move
    exact ⟨stray, sound.close member here, Or.inl (Nat.le_refl stray)⟩
  | unlock signals =>
    rw [here] at move
    cases move
    have locked := sound.locked member here rfl
    refine ⟨stray, ?_, Or.inl (Nat.le_refl stray)⟩
    split
    · rename_i none
      subst none
      exact sound.still member here rfl rfl (by rw [locked]; rfl) rfl trivial
    · exact sound.still member here rfl rfl (by rw [locked]; rfl) rfl trivial
  | posting left =>
    rw [here] at move
    refine ⟨stray, ?_, Or.inl (Nat.le_refl stray)⟩
    cases left with
    | zero =>
      cases move
      exact sound.still member here rfl rfl rfl rfl trivial
    | succ left =>
      cases move
      refine sound.still member here rfl rfl rfl ?_ trivial
      simp only [CondPlace.posts]
      omega

theorem CondWaits.Sound.call {op : WaitsOp} (sound : s.Sound stray) (move : s.exec (.call t op) = some after) :
    after.Sound stray := by
  simp only [CondWaits.exec, Option.ite_none_right_eq_some, Option.some.injEq] at move
  obtain ⟨⟨member, here⟩, rfl⟩ := move
  have first : op.first.waits = 0 ∧ op.first.shuts = 0 ∧ op.first.locks = 0 ∧ op.first.posts = 0 := by
    cases op <;> exact ⟨rfl, rfl, rfl, rfl⟩
  obtain ⟨waits, shuts, locks, posts⟩ := first
  exact sound.still member here waits (by rw [shuts]; rfl) (by rw [locks]; rfl) (by rw [posts]; rfl)
    (CondPlace.fits_of_unlocked locks)

theorem CondWaits.Sound.exec {turn : WaitsTurn τ} (sound : s.Sound stray) (move : s.exec turn = some after) :
    ∃ rest, after.Sound rest := by
  cases turn with
  | call t op => exact ⟨stray, sound.call move⟩
  | run t expired =>
    obtain ⟨rest, sound, _⟩ := sound.run move
    exact ⟨rest, sound⟩

omit [DecidableEq τ] in
theorem CondWaits.Fresh.sound (fresh : s.Fresh) : s.Sound 0 := by
  have nothing : ∀ w : CondPlace → Nat, w .out = 0 → s.threads.total w = 0 := fun w zero =>
    Crowd.total_eq_zero.mpr fun t _ => by rw [fresh.place t, zero]
  refine ⟨fresh.card, fresh.nWaitersBlocked.ge, fresh.nWaitersGone.ge, fresh.nWaitersToUnblock.ge,
    fun _ => fresh.nWaitersGone, ?_, ?_, ?_, ?_, fun t _ => ?_⟩
  · rw [fresh.nWaitersBlocked, fresh.nWaitersGone, fresh.nWaitersToUnblock, nothing CondPlace.waits rfl]
    rfl
  · rw [fresh.semBlockLock, fresh.nWaitersToUnblock, nothing CondPlace.shuts rfl]
    rfl
  · rw [fresh.mtxUnblockLock, nothing CondPlace.locks rfl]
    rfl
  · rw [fresh.semBlockQueue, fresh.nWaitersToUnblock, nothing CondPlace.posts rfl]
    rfl
  · rw [fresh.place t]
    trivial

end Steps

/-! ## Signals -/

abbrev CondWaits.Reached (s : CondWaits τ) : Prop :=
  Reach CondWaits.Fresh (fun before turn after => before.exec turn = some after) Always s

theorem CondWaits.reached_sound {s : CondWaits τ} (reached : s.Reached) : ∃ stray, s.Sound stray :=
  reached.invariant (fun s => ∃ stray, s.Sound stray) (fun _ fresh => ⟨0, fresh.sound⟩)
    fun _ _ _ sound _ move => by
      obtain ⟨stray, sound⟩ := sound
      exact sound.exec move

/-- Every thread in a wait is counted as blocked or as to be unblocked; whoever is to be
unblocked has a post, taken, there or to come; and of the threads in `sem_timedwait` no more
than the blocked ones are without. -/
structure CondWaits.Serves (s : CondWaits τ) : Prop where
  counted : s.nWaitersBlocked + s.nWaitersToUnblock = s.threads.total CondPlace.waits + s.nWaitersGone
  posted : s.nWaitersToUnblock ≤ s.semBlockQueue + s.threads.total CondPlace.posts
  queued : s.threads.total CondPlace.queues + s.nWaitersGone ≤
    s.nWaitersBlocked + s.semBlockQueue + s.threads.total CondPlace.owes

theorem CondPlace.queues_posts_le (place : CondPlace) : place.queues + place.posts ≤ place.waits + place.owes := by
  cases place with
  | cleanup got => cases got <;> decide
  | count got => cases got <;> decide
  | unlock signals => simp [CondPlace.queues, CondPlace.posts, CondPlace.owes]
  | posting left => simp [CondPlace.queues, CondPlace.posts, CondPlace.owes]
  | queue timed => exact Nat.le_refl 1
  | blocked timed => exact Nat.zero_le 1
  | _ => exact Nat.le_refl 0

/-- In every run, with timeouts or without. -/
theorem CondWaits.serves {s : CondWaits τ} (reached : s.Reached) : s.Serves := by
  obtain ⟨stray, sound⟩ := CondWaits.reached_sound reached
  have counted := sound.counted
  have signals := sound.signals
  have places : s.threads.total (fun place => place.queues + place.posts) ≤
      s.threads.total fun place => place.waits + place.owes := Crowd.total_le CondPlace.queues_posts_le
  rw [Crowd.total_add, Crowd.total_add] at places
  exact ⟨counted, by omega, by omega⟩

def CondWaits.initial : CondWaits Nat where
  nWaitersBlocked := 0
  nWaitersGone := 0
  nWaitersToUnblock := 0
  semBlockQueue := 0
  semBlockLock := 1
  mtxUnblockLock := false
  threads := ⟨{0, 1}, fun _ => .out⟩

theorem CondWaits.initial_fresh : CondWaits.initial.Fresh :=
  ⟨rfl, rfl, rfl, rfl, rfl, rfl, fun _ => rfl, by decide⟩

/-- Thread 0 waits, and thread 1 is about to post for its broadcast. -/
def broadcastTurns : List (WaitsTurn Nat) :=
  [.call 0 .wait, .run 0 false, .run 0 false, .run 0 false, .call 1 .broadcast, .run 1 false, .run 1 false, .run 1 false,
    .run 1 false, .run 1 false]

theorem CondWaits.serves_two : ∃ s : CondWaits Nat, s.threads.place 0 = .queue false ∧ s.nWaitersBlocked = 0 ∧
    s.threads.total CondPlace.queues + s.nWaitersGone ≤ s.semBlockQueue + s.threads.total CondPlace.owes := by
  have run : (runLabels CondWaits.exec Always broadcastTurns CondWaits.initial).any
      (fun s => decide (s.threads.place 0 = .queue false ∧ s.nWaitersBlocked = 0)) = true := by decide +kernel
  obtain ⟨s, reached, waits, none⟩ := Reach.of_run_ends CondWaits.initial_fresh run
  have queued := (CondWaits.serves reached).queued
  exact ⟨s, waits, none, by omega⟩

/-! ## Waits that do not time out -/

/-- A waiter that did not get its post in time. -/
def CondPlace.missed : CondPlace → Nat
  | .cleanup false | .count false => 1
  | _ => 0

def CondWaits.Patient (_ : CondWaits τ) : WaitsTurn τ → Prop
  | .call .. => True
  | .run _ expired => expired = false

/-- Every post that a waiter has taken, that is there or that is to come, is for one waiter
to be unblocked; and a waiter that comes out of `sem_timedwait` is one of them. -/
structure CondWaits.Exact (s : CondWaits τ) : Prop where
  posted : s.nWaitersToUnblock = s.semBlockQueue + s.threads.total CondPlace.posts
  woken : ∀ t ∈ s.threads.members, ∀ got, s.threads.place t = .cleanup got ∨ s.threads.place t = .count got →
    got = true ∧ s.nWaitersToUnblock ≠ 0

section Patience
variable {s after : CondWaits τ} {t : τ} {place : CondPlace}

/-- Only a wait that times out comes to the handler without a post. -/
theorem CondWaits.access_patient (move : s.access t false place = some after) :
    ∃ (m : CondWaits τ) (next : CondPlace), after = m.goto t next ∧ m.threads = s.threads ∧ next.missed ≤ place.missed := by
  cases place with
  | out => cases move
  | enter timed =>
    simp only [CondWaits.access, Option.ite_none_right_eq_some, Option.some.injEq] at move
    exact ⟨_, _, move.2.symm, rfl, Nat.le_refl 0⟩
  | block timed => cases move; exact ⟨_, _, rfl, rfl, Nat.le_refl 0⟩
  | blocked timed => cases move; exact ⟨_, _, rfl, rfl, Nat.le_refl 0⟩
  | queue timed =>
    simp only [CondWaits.access, Bool.and_false, Bool.false_eq_true, if_false, Option.ite_none_right_eq_some,
      Option.some.injEq] at move
    exact ⟨_, _, move.2.symm, rfl, Nat.le_refl 0⟩
  | cleanup got =>
    simp only [CondWaits.access, Option.ite_none_left_eq_some, Option.some.injEq] at move
    refine ⟨_, _, move.2.symm, rfl, ?_⟩
    cases got <;> decide
  | count got =>
    simp only [CondWaits.access] at move
    split at move
    · cases move
      exact ⟨_, _, rfl, rfl, Nat.zero_le _⟩
    · cases move
      refine ⟨_, _, rfl, rfl, ?_⟩
      split
      · exact Nat.zero_le _
      · exact Nat.zero_le _
  | drain =>
    simp only [CondWaits.access, Option.ite_none_right_eq_some, Option.some.injEq] at move
    exact ⟨_, _, move.2.symm, rfl, Nat.le_refl 0⟩
  | settle => cases move; exact ⟨_, _, rfl, rfl, Nat.le_refl 0⟩
  | settled => cases move; exact ⟨_, _, rfl, rfl, Nat.le_refl 0⟩
  | leave left =>
    cases move
    refine ⟨_, _, rfl, rfl, ?_⟩
    split
    · exact Nat.le_refl 0
    · exact Nat.le_refl 0
  | reopen => cases move; exact ⟨_, _, rfl, rfl, Nat.le_refl 0⟩
  | signal unblockAll =>
    simp only [CondWaits.access, Option.ite_none_left_eq_some, Option.some.injEq] at move
    exact ⟨_, _, move.2.symm, rfl, Nat.le_refl 0⟩
  | look unblockAll =>
    simp only [CondWaits.access] at move
    split at move
    · split at move
      · cases move; exact ⟨_, _, rfl, rfl, Nat.le_refl 0⟩
      · cases move; exact ⟨_, _, rfl, rfl, Nat.le_refl 0⟩
    · split at move
      · cases move; exact ⟨_, _, rfl, rfl, Nat.le_refl 0⟩
      · cases move; exact ⟨_, _, rfl, rfl, Nat.le_refl 0⟩
  | add unblockAll =>
    cases move
    refine ⟨_, _, rfl, ?_, Nat.le_refl 0⟩
    unfold CondWaits.added
    split
    · rfl
    · rfl
  | gate unblockAll =>
    simp only [CondWaits.access, Option.ite_none_right_eq_some, Option.some.injEq] at move
    exact ⟨_, _, move.2.symm, rfl, Nat.le_refl 0⟩
  | close unblockAll =>
    cases move
    refine ⟨_, _, rfl, ?_, Nat.le_refl 0⟩
    unfold CondWaits.closed
    simp only
    split
    · rfl
    · rfl
  | unlock signals =>
    cases move
    refine ⟨_, _, rfl, rfl, ?_⟩
    split
    · exact Nat.le_refl 0
    · exact Nat.le_refl 0
  | posting left =>
    cases left with
    | zero => cases move; exact ⟨_, _, rfl, rfl, Nat.le_refl 0⟩
    | succ left => cases move; exact ⟨_, _, rfl, rfl, Nat.le_refl 0⟩

/-- What holds as long as no wait has timed out. -/
structure CondWaits.Timely (s : CondWaits τ) : Prop where
  sound : s.Sound 0
  missed : s.threads.total CondPlace.missed = 0

theorem CondWaits.Timely.exec {turn : WaitsTurn τ} (timely : s.Timely) (allowed : s.Patient turn)
    (move : s.exec turn = some after) : after.Timely := by
  obtain ⟨sound, missed⟩ := timely
  cases turn with
  | call t op =>
    refine ⟨sound.call move, ?_⟩
    simp only [CondWaits.exec, Option.ite_none_right_eq_some, Option.some.injEq] at move
    obtain ⟨⟨member, here⟩, rfl⟩ := move
    have moved := Crowd.total_move CondPlace.missed member op.first
    have first : op.first.missed = 0 := by
      cases op <;> rfl
    change (s.threads.move t op.first).total CondPlace.missed = 0
    omega
  | run t expired =>
    cases allowed
    obtain ⟨rest, later, bound⟩ := sound.run move
    simp only [CondWaits.exec, Option.ite_none_right_eq_some] at move
    obtain ⟨member, move⟩ := move
    have zero := Crowd.total_eq_zero.mp missed t member
    have exact_ : rest = 0 := by
      rcases bound with none | here
      · omega
      · rw [here] at zero
        cases zero
    subst exact_
    obtain ⟨m, next, rfl, threads, less⟩ := CondWaits.access_patient move
    have moved := Crowd.total_move CondPlace.missed member next
    refine ⟨later, ?_⟩
    change (m.threads.move t next).total CondPlace.missed = 0
    rw [threads]
    omega

omit [DecidableEq τ] in
theorem CondWaits.Timely.exact (timely : s.Timely) : s.Exact := by
  obtain ⟨sound, missed⟩ := timely
  have signals := sound.signals
  refine ⟨by omega, fun t inside got here => ?_⟩
  have zero := Crowd.total_eq_zero.mp missed t inside
  have mine := Crowd.le_total (w := CondPlace.posts) inside
  cases got with
  | true =>
    refine ⟨rfl, ?_⟩
    rcases here with here | here
    · rw [here] at mine
      simp only [CondPlace.posts] at mine
      omega
    · rw [here] at mine
      simp only [CondPlace.posts] at mine
      omega
  | false =>
    rcases here with here | here
    · rw [here] at zero
      cases zero
    · rw [here] at zero
      cases zero

/-- In every run whose waits do not time out. -/
theorem CondWaits.wakeups_exact {s : CondWaits τ}
    (reached : Reach CondWaits.Fresh (fun before turn after => before.exec turn = some after) CondWaits.Patient s) :
    s.Exact := by
  refine CondWaits.Timely.exact (reached.invariant CondWaits.Timely (fun s fresh => ⟨fresh.sound, ?_⟩)
    fun s turn after timely allowed move => timely.exec allowed move)
  exact Crowd.total_eq_zero.mpr fun t _ => by rw [fresh.place t]; rfl

end Patience

instance (s : CondWaits τ) (turn : WaitsTurn τ) : Decidable (s.Patient turn) :=
  match turn with
  | .call .. => isTrue trivial
  | .run _ expired => inferInstanceAs (Decidable (expired = false))

/-- Thread 0 has taken its post. -/
theorem CondWaits.wakeups_exact_two : ∃ s : CondWaits Nat, s.threads.place 0 = .cleanup true ∧ s.nWaitersToUnblock ≠ 0 := by
  have run : (runLabels CondWaits.exec CondWaits.Patient (broadcastTurns ++ [.run 1 false, .run 0 false])
      CondWaits.initial).any
        (fun s => decide (s.threads.place 0 = .cleanup true ∧ 0 ∈ s.threads.members)) = true := by decide +kernel
  obtain ⟨s, reached, here, member⟩ := Reach.of_run_ends CondWaits.initial_fresh run
  exact ⟨s, here, ((CondWaits.wakeups_exact reached).woken 0 member true (Or.inl here)).2⟩

/-! ## No call is stuck -/

section Progress
variable {s : CondWaits τ} {t : τ} {stray : Nat}

/-- What a place waits for. -/
def CondPlace.Open (s : CondWaits τ) : CondPlace → Prop
  | .out => False
  | .enter _ | .drain | .gate _ => 0 < s.semBlockLock
  | .queue _ => 0 < s.semBlockQueue
  | .cleanup _ | .signal _ => s.mtxUnblockLock = false
  | _ => True

theorem CondWaits.runs (member : t ∈ s.threads.members) (free : (s.threads.place t).Open s) :
    (s.exec (.run t false)).isSome := by
  simp only [CondWaits.exec, if_pos member]
  cases here : s.threads.place t with
  | out => rw [here] at free; exact free.elim
  | enter timed => rw [here] at free; simp only [CondWaits.access, if_pos (show 0 < s.semBlockLock from free)]; rfl
  | drain => rw [here] at free; simp only [CondWaits.access, if_pos (show 0 < s.semBlockLock from free)]; rfl
  | gate all => rw [here] at free; simp only [CondWaits.access, if_pos (show 0 < s.semBlockLock from free)]; rfl
  | queue timed => rw [here] at free; simp only [CondWaits.access, if_pos (show 0 < s.semBlockQueue from free)]; rfl
  | cleanup got =>
    rw [here] at free
    simp [CondWaits.access, show s.mtxUnblockLock = false from free]
  | signal all =>
    rw [here] at free
    simp [CondWaits.access, show s.mtxUnblockLock = false from free]
  | count got => simp only [CondWaits.access]; split <;> rfl
  | look all => simp only [CondWaits.access]; split <;> split <;> rfl
  | posting left => cases left <;> rfl
  | _ => rfl

omit [DecidableEq τ] in
/-- A thread that keeps the gate shut can go on. -/
theorem CondPlace.open_of_shuts {place : CondPlace} (shuts : 0 < place.shuts) : place.Open s := by
  cases place with
  | block timed => trivial
  | blocked timed => trivial
  | settle => trivial
  | settled => trivial
  | close all => trivial
  | reopen => trivial
  | leave left => trivial
  | _ => exact absurd shuts (Nat.lt_irrefl 0)

omit [DecidableEq τ] in
/-- While waiters are to be unblocked, a thread can go on. -/
theorem CondWaits.Sound.unblocks (sound : s.Sound stray) (free : s.mtxUnblockLock = false)
    (some_ : s.nWaitersToUnblock ≠ 0) : ∃ u ∈ s.threads.members, (s.threads.place u).Open s := by
  have counted := sound.counted
  have blocked := sound.blocked
  have toUnblock := sound.toUnblock
  have none := sound.fresh some_
  have signals := sound.signals
  obtain ⟨u, inside, waits⟩ := Crowd.exists_of_pos (show 0 < s.threads.total CondPlace.waits by omega)
  cases here : s.threads.place u with
  | blocked timed => exact ⟨u, inside, by rw [here]; trivial⟩
  | cleanup got => exact ⟨u, inside, by rw [here]; exact free⟩
  | count got => exact ⟨u, inside, by rw [here]; trivial⟩
  | queue timed =>
    by_cases posted : 0 < s.semBlockQueue
    · exact ⟨u, inside, by rw [here]; exact posted⟩
    · obtain ⟨v, alsoInside, posts⟩ := Crowd.exists_of_pos (show 0 < s.threads.total CondPlace.posts by omega)
      refine ⟨v, alsoInside, ?_⟩
      cases there : s.threads.place v with
      | cleanup got => exact free
      | count got => trivial
      | unlock signals => trivial
      | posting left => trivial
      | _ => rw [there] at posts; exact absurd posts (Nat.lt_irrefl 0)
  | _ => rw [here] at waits; exact absurd waits (Nat.lt_irrefl 0)

omit [DecidableEq τ] in
/-- The gate is open or will be, when no waiter is to be unblocked. -/
theorem CondWaits.Sound.gate_opens (sound : s.Sound stray) (none : s.nWaitersToUnblock = 0) :
    0 < s.semBlockLock ∨ ∃ u ∈ s.threads.members, (s.threads.place u).Open s := by
  have gate := sound.gate
  simp only [shut, if_pos none] at gate
  by_cases open_ : 0 < s.semBlockLock
  · exact Or.inl open_
  · obtain ⟨u, inside, shuts⟩ := Crowd.exists_of_pos (show 0 < s.threads.total CondPlace.shuts by omega)
    exact Or.inr ⟨u, inside, CondPlace.open_of_shuts shuts⟩

omit [DecidableEq τ] in
/-- The holder of `mtxUnblockLock` can go on, or waits for the gate and another can. -/
theorem CondWaits.Sound.holder_goes (sound : s.Sound stray) (member : t ∈ s.threads.members)
    (locks : 0 < (s.threads.place t).locks) : ∃ u ∈ s.threads.members, (s.threads.place u).Open s := by
  have fits := sound.place t member
  cases here : s.threads.place t with
  | drain =>
    rw [here] at fits
    rcases sound.gate_opens fits with open_ | other
    · exact ⟨t, member, by rw [here]; exact open_⟩
    · exact other
  | gate unblockAll =>
    rw [here] at fits
    rcases sound.gate_opens fits.1 with open_ | other
    · exact ⟨t, member, by rw [here]; exact open_⟩
    · exact other
  | count got => exact ⟨t, member, by rw [here]; trivial⟩
  | settle => exact ⟨t, member, by rw [here]; trivial⟩
  | settled => exact ⟨t, member, by rw [here]; trivial⟩
  | leave left => exact ⟨t, member, by rw [here]; trivial⟩
  | look unblockAll => exact ⟨t, member, by rw [here]; trivial⟩
  | add unblockAll => exact ⟨t, member, by rw [here]; trivial⟩
  | close unblockAll => exact ⟨t, member, by rw [here]; trivial⟩
  | unlock signals => exact ⟨t, member, by rw [here]; trivial⟩
  | _ => rw [here] at locks; exact absurd locks (Nat.lt_irrefl 0)

omit [DecidableEq τ] in
theorem CondWaits.Sound.goes (sound : s.Sound stray)
    (busy : s.nWaitersToUnblock ≠ 0 ∨
      ∃ t ∈ s.threads.members, s.threads.place t ≠ .out ∧ ∀ timed, s.threads.place t ≠ .queue timed) :
    ∃ u ∈ s.threads.members, (s.threads.place u).Open s := by
  by_cases held : 0 < s.threads.total CondPlace.locks
  · obtain ⟨u, inside, locks⟩ := Crowd.exists_of_pos held
    exact sound.holder_goes inside locks
  have free : s.mtxUnblockLock = false := by
    have mutex := sound.mutex
    cases known : s.mtxUnblockLock with
    | false => rfl
    | true =>
      rw [known] at mutex
      exact absurd (mutex ▸ Nat.one_pos) held
  by_cases some_ : s.nWaitersToUnblock ≠ 0
  · exact sound.unblocks free some_
  have none := not_not.mp some_
  obtain ⟨t, member, inside, waiting⟩ := busy.resolve_left some_
  cases here : s.threads.place t with
  | out => exact absurd here inside
  | queue timed => exact absurd here (waiting timed)
  | enter timed =>
    rcases sound.gate_opens none with open_ | other
    · exact ⟨t, member, by rw [here]; exact open_⟩
    · exact other
  | drain => exact sound.holder_goes member (by rw [here]; exact Nat.one_pos)
  | gate unblockAll => exact sound.holder_goes member (by rw [here]; exact Nat.one_pos)
  | cleanup got => exact ⟨t, member, by rw [here]; exact free⟩
  | signal unblockAll => exact ⟨t, member, by rw [here]; exact free⟩
  | _ => exact ⟨t, member, by rw [here]; trivial⟩

/-- The locks of a condition variable never leave all its threads waiting: as long as
waiters are to be unblocked, or a thread is in a call and not in `sem_timedwait`, a thread
can take its next step without a timeout. -/
theorem CondWaits.waits_progress {s : CondWaits τ} (reached : s.Reached)
    (busy : s.nWaitersToUnblock ≠ 0 ∨
      ∃ t ∈ s.threads.members, s.threads.place t ≠ .out ∧ ∀ timed, s.threads.place t ≠ .queue timed) :
    ∃ u ∈ s.threads.members, (s.exec (.run u false)).isSome := by
  obtain ⟨stray, sound⟩ := CondWaits.reached_sound reached
  obtain ⟨u, inside, free⟩ := sound.goes busy
  exact ⟨u, inside, CondWaits.runs inside free⟩

end Progress

/-- Thread 0 waits, and thread 1 goes on to post. -/
theorem CondWaits.waits_progress_two : ∃ s : CondWaits Nat, s.threads.place 0 = .queue false ∧ s.nWaitersToUnblock = 1 ∧
    ∃ u ∈ s.threads.members, (s.exec (.run u false)).isSome := by
  have run : (runLabels CondWaits.exec Always broadcastTurns CondWaits.initial).any
      (fun s => decide (s.threads.place 0 = .queue false ∧ s.nWaitersToUnblock = 1)) = true := by decide +kernel
  obtain ⟨s, reached, waits, one⟩ := Reach.of_run_ends CondWaits.initial_fresh run
  exact ⟨s, waits, one, CondWaits.waits_progress reached (Or.inl (by omega))⟩

end Stardust.Pte
