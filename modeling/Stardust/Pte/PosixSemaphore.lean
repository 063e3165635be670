import Stardust.Sched.Semaphore

/-! # POSIX semaphores

A `sem_t` counts in `value`, under its lock, and a kernel semaphore counts beside it.
Every call that takes one off the one takes one off the other, some time later;
`sem_wait_nocancel` does so only when `value` was not positive. -/
set_option autoImplicit false
namespace Stardust.Pte

open Stardust.Lib Stardust.Sched

/-- `SEM_VALUE_MAX` -/
def semValueMax : Int := 2 ^ 31 - 1

/-- What the holder of `s->lock` does next. -/
inductive Section
  | post
  /-- before `++s->value` -/
  | posted
  | postMultiple (count : Int)
  /-- so many calls of `semaphore_post` are left -/
  | posting (left : Nat)
  | tryWait
  /-- before `s->value--` -/
  | taken
  | wait
  | waitNocancel
  /-- `abstime` is null or not -/
  | timedWait (abstime : Bool)
  /-- the handler of a `sem_timedwait` that got nothing -/
  | cleanup
  deriving DecidableEq

/-- Where a thread is that does not hold `s->lock`. -/
inductive WaitPhase
  /-- in no call -/
  | out
  /-- before `semaphore_pend` -/
  | pending
  /-- in the loop of the timed pend -/
  | polling
  /-- in `semaphore_pend` -/
  | pended
  /-- before the lock of the handler -/
  | expired
  deriving DecidableEq

/-- One is off `value` that is not yet off the kernel's. -/
def WaitPhase.owes (phase : WaitPhase) : Bool :=
  match phase with
  | .pending | .polling | .expired => true
  | .out | .pended => false

structure PosixSem where
  value : Int
  lock : Option (Thread × Section)
  sem : SemRun
  phase : Thread → WaitPhase
  /-- ghost: the threads that owe -/
  owed : List Thread
  /-- ghost: what the accepted posts add up to -/
  posts : Nat
  /-- ghost: the waits that have got the semaphore -/
  succeeded : Nat

inductive PosixOp
  /-- a call gets `s->lock` -/
  | call (t : Thread) (start : Section)
  /-- the holder's next access -/
  | holder
  | pend (t : Thread)
  /-- a turn of the loop, the last when it ends with a timeout or an interrupt -/
  | poll (t : Thread) (last : Bool)
  /-- the handler gets `s->lock` -/
  | handler (t : Thread)
  | finish (t : Thread)
  /-- the scheduler, and other threads' suspend, resume and wake -/
  | scheduler (op : SemOp)
  deriving DecidableEq

/-! ## The code -/

/-- The sections that calls start with; the test of `count` comes before the lock. -/
def Section.starts (start : Section) : Bool :=
  match start with
  | .post | .tryWait | .wait | .waitNocancel | .timedWait _ => true
  | .postMultiple count => 0 < count
  | .posted | .posting _ | .taken | .cleanup => false

def PosixSem.unlock (state : PosixSem) : PosixSem := { state with lock := none }

def PosixSem.goTo (state : PosixSem) (t : Thread) (phase : WaitPhase) (owed : List Thread) : PosixSem :=
  { state with phase := Function.update state.phase t phase, owed := owed }

def PosixSem.success (state : PosixSem) : PosixSem := { state with succeeded := state.succeeded + 1 }

/-- `semaphore_try_pend(s->sem)` and the two ways on. -/
def PosixSem.tryPend (state : PosixSem) (got missed : PosixSem → PosixSem) : Option PosixSem :=
  (semStep state.sem .tryPend).map fun sem =>
    let after : PosixSem := { state with sem := sem }
    if (semaphoreTryPend state.sem.sem).1 then got after.success else missed after

/-- `v = --s->value` and the unlock. -/
def PosixSem.takeOne (state : PosixSem) (t : Thread) (phase : WaitPhase) : PosixSem :=
  ({ state with value := intSub state.value 1 }.unlock).goTo t phase (t :: state.owed)

def holderStep (state : PosixSem) (t : Thread) : Section → Option PosixSem
  | .post =>
    if state.value < semValueMax then
      (semStep state.sem .post).map fun sem =>
        { state with sem := sem, lock := some (t, .posted), posts := state.posts + 1 }
    else some state.unlock
  | .posted => some { state with value := intAdd state.value 1 }.unlock
  | .postMultiple count =>
    if state.value ≤ semValueMax - count then
      some { state with
        value := intAdd state.value count
        lock := some (t, .posting count.toNat)
        posts := state.posts + count.toNat }
    else some state.unlock
  | .posting 0 => some state.unlock
  | .posting (left + 1) =>
    (semStep state.sem .post).map fun sem => { state with sem := sem, lock := some (t, .posting left) }
  | .tryWait => state.tryPend (fun after => { after with lock := some (t, .taken) }) PosixSem.unlock
  | .taken => some { state with value := intSub state.value 1 }.unlock
  | .wait => some (state.takeOne t .pending)
  | .waitNocancel =>
    if intSub state.value 1 < 0 then some (state.takeOne t .pending)
    else some ({ state with value := intSub state.value 1 }.unlock).success
  | .timedWait abstime => some (state.takeOne t (if abstime then .polling else .pending))
  | .cleanup =>
    state.tryPend (fun after => after.unlock.goTo t .out (after.owed.erase t)) fun after =>
      ({ after with value := intAdd after.value 1 }.unlock).goTo t .out (after.owed.erase t)

def posixStep (state : PosixSem) : PosixOp → Option PosixSem
  | .call t start =>
    if state.lock = none ∧ state.phase t = .out ∧ start.starts = true then
      some { state with lock := some (t, start) }
    else none
  | .holder => state.lock.bind fun (t, next) => holderStep state t next
  | .pend t =>
    if state.phase t = .pending then
      (semStep state.sem (.pend t)).map fun sem =>
        let after : PosixSem := { state with sem := sem }
        if sem.phase t = .out then after.success.goTo t .out (state.owed.erase t)
        else after.goTo t .pended (state.owed.erase t)
    else none
  | .poll t last =>
    if state.phase t = .polling then
      state.tryPend (fun after => after.goTo t .out (after.owed.erase t)) fun after =>
        if last then after.goTo t .expired after.owed else after
    else none
  | .handler t =>
    if state.lock = none ∧ state.phase t = .expired then some { state with lock := some (t, .cleanup) }
    else none
  | .finish t =>
    if state.phase t = .pended then
      (semStep state.sem (.finish t)).map fun sem =>
        ({ state with sem := sem } : PosixSem).success.goTo t .out state.owed
    else none
  | .scheduler op =>
    match op with
    | .run _ | .suspend _ | .wakeSuspended _ | .wake _ =>
      (semStep state.sem op).map fun sem => { state with sem := sem }
    | .pend _ | .tryPend | .post | .finish _ => none

abbrev PosixStep (before : PosixSem) (op : PosixOp) (after : PosixSem) : Prop :=
  posixStep before op = some after

/-- `sem_init` with the value `v0` -/
structure FreshPosix (v0 : Nat) (state : PosixSem) : Prop where
  sem : FreshSem v0 state.sem
  value : state.value = v0
  lock : state.lock = none
  phase : ∀ t, state.phase t = .out
  owed : state.owed = []
  posts : state.posts = 0
  succeeded : state.succeeded = 0

/-- No call is in progress. -/
def PosixSem.Idle (state : PosixSem) : Prop := state.lock = none ∧ ∀ t, state.phase t = .out

structure PosixCorrect (v0 : Nat) (state : PosixSem) : Prop where
  value : state.Idle → state.value = state.sem.sem.value
  succeeded : state.succeeded ≤ v0 + state.posts

/-- `sem_wait_nocancel` finds no positive value, and neither counter leaves the range
of an `int`. -/
def PendsBoth (state : PosixSem) : PosixOp → Prop
  | .holder =>
    match state.lock with
    | some (_, .waitNocancel) => state.value ≤ 0 ∧ state.value ≠ -2 ^ 31
    | some (_, .wait) | some (_, .timedWait _) | some (_, .taken) => state.value ≠ -2 ^ 31
    | some (_, .post) => state.value < semValueMax → state.sem.sem.value ≠ 2 ^ 31 - 1
    | some (_, .posting (_ + 1)) => state.sem.sem.value ≠ 2 ^ 31 - 1
    | _ => True
  | .pend _ => state.sem.sem.value ≠ -2 ^ 31
  | _ => True

instance (state : PosixSem) (op : PosixOp) : Decidable (PendsBoth state op) := by
  cases op with
  | holder =>
    unfold PendsBoth
    dsimp only
    split <;> infer_instance
  | pend t =>
    unfold PendsBoth
    infer_instance
  | call t start => exact isTrue trivial
  | poll t last => exact isTrue trivial
  | handler t => exact isTrue trivial
  | finish t => exact isTrue trivial
  | scheduler op => exact isTrue trivial

/-! ## What the kernel's steps count -/

section Kernel
variable {v0 : Nat} {sem after : SemRun} {t : Thread}

theorem semStep_post (inv : Waiting v0 sem) (room : sem.sem.value ≠ 2 ^ 31 - 1)
    (move : SemStep sem .post after) : Waiting v0 after ∧ after.posts = sem.posts + 1 ∧
      after.pends = sem.pends ∧ after.returned = sem.returned := by
  have allowed : InRange sem .post := room
  have kept := inv.step allowed move
  refine ⟨kept, ?_⟩
  obtain ⟨_, move⟩ := Option.ite_none_right_eq_some.mp move
  split at move
  · cases Option.some.inj move
    exact ⟨rfl, rfl, rfl⟩
  · cases Option.some.inj move
    nomatch kept.faulted

theorem semStep_tryPend (inv : Waiting v0 sem) (move : SemStep sem .tryPend after) :
    Waiting v0 after ∧ after.posts = sem.posts ∧
      if (semaphoreTryPend sem.sem).1 then
        after.pends = sem.pends + 1 ∧ after.returned = sem.returned + 1
      else after = sem := by
  have allowed : InRange sem .tryPend := trivial
  refine ⟨inv.step allowed move, ?_⟩
  obtain ⟨_, move⟩ := Option.ite_none_right_eq_some.mp move
  split at move
  · rename_i got
    cases Option.some.inj move
    rw [if_pos got]
    exact ⟨rfl, rfl, rfl⟩
  · rename_i missed
    cases Option.some.inj move
    rw [if_neg missed]
    exact ⟨rfl, rfl⟩

theorem semStep_pend (inv : Waiting v0 sem) (room : sem.sem.value ≠ -2 ^ 31)
    (move : SemStep sem (.pend t) after) :
    Waiting v0 after ∧ after.posts = sem.posts ∧ after.pends = sem.pends + 1 ∧
      after.returned = sem.returned + if after.phase t = .out then 1 else 0 := by
  have allowed : InRange sem (.pend t) := room
  refine ⟨inv.step allowed move, ?_⟩
  obtain ⟨⟨out, _⟩, move⟩ := Option.ite_none_right_eq_some.mp move
  split at move
  · cases Option.some.inj move
    exact ⟨rfl, rfl, by simp⟩
  · cases Option.some.inj move
    exact ⟨rfl, rfl, by simp [out]⟩

theorem semStep_finish (inv : Waiting v0 sem) (move : SemStep sem (.finish t) after) :
    Waiting v0 after ∧ after.posts = sem.posts ∧ after.pends = sem.pends ∧
      after.returned = sem.returned + 1 := by
  have allowed : InRange sem (.finish t) := trivial
  refine ⟨inv.step allowed move, ?_⟩
  obtain ⟨_, move⟩ := Option.ite_none_right_eq_some.mp move
  cases Option.some.inj move
  exact ⟨rfl, rfl, rfl⟩

end Kernel

/-! ## The invariant -/

/-- How far the kernel's value is ahead, in the section of the holder. -/
def Section.ahead : Section → Int
  | .posted => 1
  | .posting left => -left
  | .taken => -1
  | _ => 0

/-- Posts that the holder has still to make. -/
def Section.left : Section → Nat
  | .posting left => left
  | _ => 0

def lockAhead (lock : Option (Thread × Section)) : Int := (lock.map fun held => held.2.ahead).getD 0

def lockLeft (lock : Option (Thread × Section)) : Nat := (lock.map fun held => held.2.left).getD 0

structure Owes (phase : Thread → WaitPhase) (owed : List Thread) : Prop where
  mem : ∀ t, t ∈ owed ↔ (phase t).owes = true
  nodup : owed.Nodup

structure Holder (phase : WaitPhase) (held : Section) : Prop where
  phase : phase = if held = .cleanup then .expired else .out
  count : ∀ count, held = .postMultiple count → 0 < count

structure Synced (v0 : Nat) (state : PosixSem) : Prop where
  sem : Waiting v0 state.sem
  value : state.sem.sem.value = state.value + state.owed.length + lockAhead state.lock
  low : -2 ^ 31 ≤ state.value
  high : state.value < 2 ^ 31
  owed : Owes state.phase state.owed
  holder : ∀ t held, state.lock = some (t, held) → Holder (state.phase t) held
  posts : state.posts = state.sem.posts + lockLeft state.lock
  succeeded : state.succeeded = state.sem.returned

section Invariant
variable {v0 : Nat} {state after : PosixSem} {phase : Thread → WaitPhase} {owed : List Thread} {t : Thread}

theorem Owes.owe (inv : Owes phase owed) {now : WaitPhase} (before : phase t = .out)
    (owes : now.owes = true) : Owes (Function.update phase t now) (t :: owed) := by
  refine ⟨fun u => ?_, List.nodup_cons.mpr ⟨fun member => ?_, inv.nodup⟩⟩
  · by_cases same : u = t
    · simp [same, owes]
    · simp [same, inv.mem]
  · have owing := (inv.mem t).mp member
    rw [before] at owing
    cases owing

theorem Owes.settle (inv : Owes phase owed) {now : WaitPhase} (settled : now.owes = false) :
    Owes (Function.update phase t now) (owed.erase t) := by
  refine ⟨fun u => ?_, inv.nodup.erase t⟩
  rw [inv.nodup.mem_erase_iff]
  by_cases same : u = t
  · simp [same, settled]
  · simp [same, inv.mem]

theorem Owes.keep (inv : Owes phase owed) {now : WaitPhase} (same : now.owes = (phase t).owes) :
    Owes (Function.update phase t now) owed := by
  refine ⟨fun u => ?_, inv.nodup⟩
  by_cases here : u = t
  · simp [here, inv.mem, same]
  · simp [here, inv.mem]

theorem Synced.start (fresh : FreshPosix v0 state) : Synced v0 state := by
  obtain ⟨sem, value, lock, phase, owed, posts, succeeded⟩ := fresh
  have initial := sem.initial
  refine ⟨Waiting.start sem, ?_, ?_, ?_, ⟨?_, ?_⟩, ?_, ?_, ?_⟩
  · rw [sem.value, value, owed, lock]
    simp [lockAhead]
  · omega
  · omega
  · intro t
    rw [owed, phase]
    simp [WaitPhase.owes]
  · rw [owed]
    exact List.nodup_nil
  · intro t held holds
    rw [lock] at holds
    cases holds
  · rw [posts, sem.posts, lock]
    rfl
  · rw [succeeded, sem.returned]

theorem Synced.correct (inv : Synced v0 state) : PosixCorrect v0 state := by
  constructor
  · intro idle
    have nobody : state.owed = [] := by
      apply List.eq_nil_iff_forall_not_mem.mpr
      intro t member
      have owing := (inv.owed.mem t).mp member
      rw [idle.2 t] at owing
      cases owing
    have value := inv.value
    rw [nobody, idle.1] at value
    simpa [lockAhead] using value.symm
  · have returns := inv.sem.correct.returns
    have posts := inv.posts
    rw [inv.succeeded]
    omega

/-! ## The holder of the lock -/

/-- The holder lets the lock go, with a new `value`. -/
theorem Synced.unlock (inv : Synced v0 state) {value : Int} (none : lockLeft state.lock = 0)
    (settled : value = state.value + lockAhead state.lock) (low : -2 ^ 31 ≤ value)
    (high : value < 2 ^ 31) : Synced v0 { state with value := value, lock := Option.none } := by
  refine ⟨inv.sem, ?_, low, high, inv.owed, nofun, ?_, inv.succeeded⟩
  · have ahead := inv.value
    simp only [settled, lockAhead, Option.map_none, Option.getD_none]
    unfold lockAhead at ahead
    omega
  · have posts := inv.posts
    simp only [lockLeft, Option.map_none, Option.getD_none]
    omega

/-- A section that changes nothing. -/
theorem Synced.leave (inv : Synced v0 state) {held : Section} (holds : state.lock = some (t, held))
    (even : held.ahead = 0) (none : held.left = 0) : Synced v0 state.unlock := by
  apply inv.unlock
  · simp [holds, lockLeft, none]
  · simp [holds, lockAhead, even]
  · exact inv.low
  · exact inv.high

/-- The section in which the holder takes one off `value` and owes it. -/
theorem Synced.takeOne (inv : Synced v0 state) {held : Section} {now : WaitPhase}
    (holds : state.lock = some (t, held)) (plain : held ≠ .cleanup) (even : held.ahead = 0)
    (none : held.left = 0) (room : state.value ≠ -2 ^ 31) (owes : now.owes = true) :
    Synced v0 (state.takeOne t now) := by
  have low := inv.low
  have high := inv.high
  have ahead := inv.value
  have posts := inv.posts
  have out := (inv.holder t held holds).phase
  rw [if_neg plain] at out
  rw [holds] at ahead posts
  simp only [lockAhead, Option.map_some, Option.getD_some, even] at ahead
  simp only [lockLeft, Option.map_some, Option.getD_some, none] at posts
  have less : intSub state.value 1 = state.value - 1 := intSub_eq (by omega) (by omega)
  refine ⟨inv.sem, ?_, ?_, ?_, inv.owed.owe out owes, nofun, posts, inv.succeeded⟩
  · change state.sem.sem.value = intSub state.value 1 + (t :: state.owed).length + 0
    rw [less, List.length_cons]
    push_cast
    omega
  · change -2 ^ 31 ≤ intSub state.value 1
    omega
  · change intSub state.value 1 < 2 ^ 31
    omega

/-- A step of the kernel semaphore in the holder's section. -/
theorem Synced.relock (inv : Synced v0 state) {sem : SemRun} {held next : Section} {posts succeeded : Nat}
    (holds : state.lock = some (t, held)) (plain : held ≠ .cleanup) (goes : Holder .out next)
    (kept : Waiting v0 sem)
    (value : sem.sem.value - next.ahead = state.sem.sem.value - held.ahead)
    (left : posts = sem.posts + next.left) (got : succeeded = sem.returned) :
    Synced v0 { state with
      sem := sem, lock := some (t, next), posts := posts, succeeded := succeeded } := by
  have ahead := inv.value
  rw [holds] at ahead
  simp only [lockAhead, Option.map_some, Option.getD_some] at ahead
  refine ⟨kept, ?_, inv.low, inv.high, inv.owed, ?_, left, got⟩
  · change sem.sem.value = state.value + state.owed.length + next.ahead
    omega
  · intro u now same
    cases Option.some.inj same
    have out := (inv.holder t held holds).phase
    rw [if_neg plain] at out
    rw [← out] at goes
    exact goes

/-- One `semaphore_post` in the holder's section. -/
theorem Synced.kernelPost (inv : Synced v0 state) {sem : SemRun} {held next : Section} {accepted : Nat}
    (holds : state.lock = some (t, held)) (plain : held ≠ .cleanup) (goes : Holder .out next)
    (room : state.sem.sem.value ≠ 2 ^ 31 - 1) (run : SemStep state.sem .post sem)
    (ahead : next.ahead = held.ahead + 1) (left : accepted + held.left = state.posts + 1 + next.left) :
    Synced v0 { state with sem := sem, lock := some (t, next), posts := accepted } := by
  obtain ⟨kept, posts, pends, returned⟩ := semStep_post inv.sem room run
  have before := inv.posts
  have one := inv.sem.value
  have two := kept.value
  rw [holds] at before
  simp only [lockLeft, Option.map_some, Option.getD_some] at before
  apply inv.relock holds plain goes kept
  · omega
  · omega
  · rw [inv.succeeded, returned]

theorem Synced.post_step (inv : Synced v0 state) (holds : state.lock = some (t, .post))
    (room : state.value < semValueMax → state.sem.sem.value ≠ 2 ^ 31 - 1)
    (move : holderStep state t .post = some after) : Synced v0 after := by
  simp only [holderStep] at move
  split at move
  · rename_i less
    obtain ⟨sem, run, rfl⟩ := Option.map_eq_some_iff.mp move
    exact inv.kernelPost holds (by simp) ⟨rfl, by simp⟩ (room less) run rfl rfl
  · cases Option.some.inj move
    exact inv.leave holds rfl rfl

theorem Synced.posting_step (inv : Synced v0 state) {left : Nat}
    (holds : state.lock = some (t, .posting (left + 1))) (room : state.sem.sem.value ≠ 2 ^ 31 - 1)
    (move : holderStep state t (.posting (left + 1)) = some after) : Synced v0 after := by
  simp only [holderStep] at move
  obtain ⟨sem, run, rfl⟩ := Option.map_eq_some_iff.mp move
  apply inv.kernelPost holds (by simp) ⟨rfl, by simp⟩ room run
  · simp only [Section.ahead]
    omega
  · simp only [Section.left]
    omega

theorem Synced.postMultiple_step (inv : Synced v0 state) {count : Int}
    (holds : state.lock = some (t, .postMultiple count)) (positive : 0 < count)
    (move : holderStep state t (.postMultiple count) = some after) : Synced v0 after := by
  simp only [holderStep] at move
  have low := inv.low
  split at move
  · rename_i fits
    unfold semValueMax at fits
    cases Option.some.inj move
    have more : intAdd state.value count = state.value + count := intAdd_eq (by omega) (by omega)
    have ahead := inv.value
    have posts := inv.posts
    rw [holds] at ahead posts
    simp only [lockAhead, Section.ahead, Option.map_some, Option.getD_some] at ahead
    simp only [lockLeft, Section.left, Option.map_some, Option.getD_some] at posts
    refine ⟨inv.sem, ?_, ?_, ?_, inv.owed, ?_, ?_, inv.succeeded⟩
    · change state.sem.sem.value = intAdd state.value count + state.owed.length + -count.toNat
      omega
    · change -2 ^ 31 ≤ intAdd state.value count
      omega
    · change intAdd state.value count < 2 ^ 31
      omega
    · intro u now same
      cases Option.some.inj same
      exact ⟨(inv.holder t _ holds).phase, nofun⟩
    · change state.posts + count.toNat = state.sem.posts + count.toNat
      omega
  · cases Option.some.inj move
    exact inv.leave holds rfl rfl

theorem Synced.tryWait_step (inv : Synced v0 state) (holds : state.lock = some (t, .tryWait))
    (move : holderStep state t .tryWait = some after) : Synced v0 after := by
  simp only [holderStep, PosixSem.tryPend] at move
  obtain ⟨sem, run, rfl⟩ := Option.map_eq_some_iff.mp move
  obtain ⟨kept, posts, counts⟩ := semStep_tryPend inv.sem run
  split
  · rename_i got
    rw [if_pos got] at counts
    have before := inv.posts
    have one := inv.sem.value
    have two := kept.value
    rw [holds] at before
    simp only [lockLeft, Section.left, Option.map_some, Option.getD_some] at before
    apply inv.relock holds (by simp) ⟨rfl, by simp⟩ kept
    · simp only [Section.ahead]
      omega
    · simp only [PosixSem.success, Section.left]
      omega
    · simp only [PosixSem.success]
      rw [inv.succeeded, counts.2]
  · rename_i missed
    rw [if_neg missed] at counts
    rw [counts]
    exact inv.leave holds rfl rfl

/-- A thread that owes takes one off the kernel's, or gives `value` one back. -/
theorem Synced.settle (inv : Synced v0 state) {sem : SemRun} {value : Int} {now : WaitPhase}
    {lock : Option (Thread × Section)} {succeeded : Nat} (owing : (state.phase t).owes = true)
    (settled : now.owes = false) (kept : Waiting v0 sem) (posts : sem.posts = state.sem.posts)
    (pays : sem.sem.value - value = state.sem.sem.value - state.value - 1) (low : -2 ^ 31 ≤ value)
    (high : value < 2 ^ 31) (ahead : lockAhead lock = lockAhead state.lock)
    (left : lockLeft lock = lockLeft state.lock)
    (others : ∀ u held, lock = some (u, held) → u ≠ t ∧ state.lock = some (u, held))
    (got : succeeded = sem.returned) :
    Synced v0 { state with
      value := value
      lock := lock
      sem := sem
      phase := Function.update state.phase t now
      owed := state.owed.erase t
      succeeded := succeeded } := by
  have member := (inv.owed.mem t).mpr owing
  have shorter := List.length_erase_of_mem member
  have nonempty := List.length_pos_of_mem member
  have before := inv.value
  refine ⟨kept, ?_, low, high, inv.owed.settle settled, ?_, ?_, got⟩
  · change sem.sem.value = value + (state.owed.erase t).length + lockAhead lock
    rw [shorter, ahead]
    omega
  · intro u held holds
    obtain ⟨other, before⟩ := others u held holds
    dsimp only
    rw [Function.update_of_ne other]
    exact inv.holder u held before
  · change state.posts = sem.posts + lockLeft lock
    rw [posts, left]
    exact inv.posts

/-- What is behind cannot be at the greatest value. -/
theorem Synced.behind (inv : Synced v0 state) (owing : (state.phase t).owes = true)
    (even : lockAhead state.lock = 0) : state.value < 2 ^ 31 - 1 := by
  have nonempty := List.length_pos_of_mem ((inv.owed.mem t).mpr owing)
  have value := inv.value
  have high := inv.sem.high
  omega

theorem Synced.cleanup_step (inv : Synced v0 state) (holds : state.lock = some (t, .cleanup))
    (move : holderStep state t .cleanup = some after) : Synced v0 after := by
  simp only [holderStep, PosixSem.tryPend] at move
  obtain ⟨sem, run, rfl⟩ := Option.map_eq_some_iff.mp move
  obtain ⟨kept, posts, counts⟩ := semStep_tryPend inv.sem run
  have low := inv.low
  have owing : (state.phase t).owes = true := by
    rw [(inv.holder t _ holds).phase]
    rfl
  have even : lockAhead state.lock = 0 := by
    rw [holds]
    rfl
  have none : lockLeft state.lock = 0 := by
    rw [holds]
    rfl
  have room := inv.behind owing even
  split
  · rename_i got
    rw [if_pos got] at counts
    have one := inv.sem.value
    have two := kept.value
    apply inv.settle owing rfl kept posts
    · change sem.sem.value - state.value = state.sem.sem.value - state.value - 1
      omega
    · exact low
    · exact inv.high
    · exact even.symm
    · exact none.symm
    · nofun
    · change state.succeeded + 1 = sem.returned
      rw [inv.succeeded, counts.2]
  · rename_i missed
    rw [if_neg missed] at counts
    have more : intAdd state.value 1 = state.value + 1 := intAdd_eq (by omega) (by omega)
    apply inv.settle owing rfl kept posts
    · change sem.sem.value - intAdd state.value 1 = state.sem.sem.value - state.value - 1
      rw [counts, more]
      omega
    · change -2 ^ 31 ≤ intAdd state.value 1
      omega
    · change intAdd state.value 1 < 2 ^ 31
      omega
    · exact even.symm
    · exact none.symm
    · nofun
    · change state.succeeded = sem.returned
      rw [inv.succeeded, counts]

theorem Synced.holder_step (inv : Synced v0 state) {held : Section} (holds : state.lock = some (t, held))
    (allowed : PendsBoth state .holder) (move : holderStep state t held = some after) : Synced v0 after := by
  have low := inv.low
  have high := inv.high
  have value := inv.value
  unfold PendsBoth at allowed
  rw [holds] at allowed value
  simp only [lockAhead, Option.map_some, Option.getD_some] at value
  cases held with
  | post => exact inv.post_step holds allowed move
  | posted =>
    cases Option.some.inj move
    have top := inv.sem.high
    simp only [Section.ahead] at value
    have more : intAdd state.value 1 = state.value + 1 := intAdd_eq (by omega) (by omega)
    apply inv.unlock
    · rw [holds]
      rfl
    · rw [holds]
      exact more
    · change -2 ^ 31 ≤ intAdd state.value 1
      omega
    · change intAdd state.value 1 < 2 ^ 31
      omega
  | postMultiple count => exact inv.postMultiple_step holds ((inv.holder t _ holds).count count rfl) move
  | posting left =>
    cases left with
    | zero =>
      cases Option.some.inj move
      exact inv.leave holds rfl rfl
    | succ left => exact inv.posting_step holds allowed move
  | tryWait => exact inv.tryWait_step holds move
  | taken =>
    cases Option.some.inj move
    have less : intSub state.value 1 = state.value - 1 := intSub_eq (by omega) (by omega)
    apply inv.unlock
    · rw [holds]
      rfl
    · rw [holds]
      exact less
    · change -2 ^ 31 ≤ intSub state.value 1
      omega
    · change intSub state.value 1 < 2 ^ 31
      omega
  | wait =>
    cases Option.some.inj move
    exact inv.takeOne holds (by simp) rfl rfl allowed rfl
  | waitNocancel =>
    obtain ⟨small, room⟩ := allowed
    have less : intSub state.value 1 = state.value - 1 := intSub_eq (by omega) (by omega)
    simp only [holderStep] at move
    rw [if_pos (by omega)] at move
    cases Option.some.inj move
    exact inv.takeOne holds (by simp) rfl rfl room rfl
  | timedWait abstime =>
    cases Option.some.inj move
    apply inv.takeOne holds (by simp) rfl rfl allowed
    cases abstime with
    | true => rfl
    | false => rfl
  | cleanup => exact inv.cleanup_step holds move

/-! ## The steps without the lock -/

/-- The holder is another thread than one that is in no section. -/
theorem Synced.other (inv : Synced v0 state) (out : state.phase t ≠ .out)
    (expired : state.phase t ≠ .expired) :
    ∀ u held, state.lock = some (u, held) → u ≠ t ∧ state.lock = some (u, held) := by
  intro u held holds
  refine ⟨?_, holds⟩
  rintro rfl
  have phase := (inv.holder u held holds).phase
  split at phase
  · exact expired phase
  · exact out phase

theorem Synced.pend_step (inv : Synced v0 state) (allowed : PendsBoth state (.pend t))
    (move : PosixStep state (.pend t) after) : Synced v0 after := by
  obtain ⟨pending, move⟩ := Option.ite_none_right_eq_some.mp move
  obtain ⟨sem, run, rfl⟩ := Option.map_eq_some_iff.mp move
  obtain ⟨kept, posts, pends, returned⟩ := semStep_pend inv.sem allowed run
  have owing : (state.phase t).owes = true := by
    rw [pending]
    rfl
  have others := inv.other (by rw [pending]; simp) (by rw [pending]; simp)
  have one := inv.sem.value
  have two := kept.value
  have pays : sem.sem.value - state.value = state.sem.sem.value - state.value - 1 := by omega
  split
  · rename_i passed
    rw [if_pos passed] at returned
    apply inv.settle owing rfl kept posts pays inv.low inv.high rfl rfl others
    rw [returned]
    exact congrArg (· + 1) inv.succeeded
  · rename_i waits
    rw [if_neg waits] at returned
    apply inv.settle owing rfl kept posts pays inv.low inv.high rfl rfl others
    rw [returned]
    exact inv.succeeded

/-- A thread that owes as much after it. -/
theorem Synced.goTo (inv : Synced v0 state) {now : WaitPhase} {sem : SemRun} {succeeded : Nat}
    (same : now.owes = (state.phase t).owes)
    (others : ∀ u held, state.lock = some (u, held) → u ≠ t ∧ state.lock = some (u, held))
    (kept : Waiting v0 sem) (posts : sem.posts = state.sem.posts) (pends : sem.pends = state.sem.pends)
    (got : succeeded = sem.returned) :
    Synced v0 { state with
      sem := sem, phase := Function.update state.phase t now, succeeded := succeeded } := by
  have one := inv.sem.value
  have two := kept.value
  have value := inv.value
  refine ⟨kept, ?_, inv.low, inv.high, inv.owed.keep same, ?_, ?_, got⟩
  · dsimp only
    omega
  · intro u held holds
    dsimp only
    rw [Function.update_of_ne (others u held holds).1]
    exact inv.holder u held holds
  · change state.posts = sem.posts + lockLeft state.lock
    rw [posts]
    exact inv.posts

theorem Synced.poll_step (inv : Synced v0 state) {last : Bool}
    (move : PosixStep state (.poll t last) after) : Synced v0 after := by
  obtain ⟨polling, move⟩ := Option.ite_none_right_eq_some.mp move
  obtain ⟨sem, run, rfl⟩ := Option.map_eq_some_iff.mp move
  obtain ⟨kept, posts, counts⟩ := semStep_tryPend inv.sem run
  have owing : (state.phase t).owes = true := by
    rw [polling]
    rfl
  have others := inv.other (by rw [polling]; simp) (by rw [polling]; simp)
  split
  · rename_i got
    rw [if_pos got] at counts
    have one := inv.sem.value
    have two := kept.value
    apply inv.settle owing rfl kept posts _ inv.low inv.high rfl rfl others
    · rw [counts.2]
      exact congrArg (· + 1) inv.succeeded
    · omega
  · rename_i missed
    rw [if_neg missed] at counts
    subst counts
    split
    · exact inv.goTo owing.symm others kept rfl rfl inv.succeeded
    · exact inv

theorem Synced.finish_step (inv : Synced v0 state) (move : PosixStep state (.finish t) after) :
    Synced v0 after := by
  obtain ⟨pended, move⟩ := Option.ite_none_right_eq_some.mp move
  obtain ⟨sem, run, rfl⟩ := Option.map_eq_some_iff.mp move
  obtain ⟨kept, posts, pends, returned⟩ := semStep_finish inv.sem run
  have others := inv.other (by rw [pended]; simp) (by rw [pended]; simp)
  apply inv.goTo _ others kept posts pends
  · rw [returned]
    exact congrArg (· + 1) inv.succeeded
  · rw [pended]
    rfl

/-- A step of the kernel semaphore that leaves the counts alone. -/
theorem Synced.uncounted (inv : Synced v0 state) {op : SemOp} {sem : SemRun}
    (run : SemStep state.sem op sem) (allowed : InRange state.sem op) (posts : sem.posts = state.sem.posts)
    (returned : sem.returned = state.sem.returned) (pends : sem.pends = state.sem.pends) :
    Synced v0 { state with sem := sem } := by
  have kept := inv.sem.step allowed run
  have one := inv.sem.value
  have two := kept.value
  have value := inv.value
  refine ⟨kept, ?_, inv.low, inv.high, inv.owed, inv.holder, ?_, ?_⟩
  · dsimp only
    omega
  · dsimp only
    rw [posts]
    exact inv.posts
  · dsimp only
    rw [returned]
    exact inv.succeeded

theorem Synced.scheduler_step (inv : Synced v0 state) {op : SemOp}
    (move : PosixStep state (.scheduler op) after) : Synced v0 after := by
  cases op with
  | pend t => cases move
  | tryPend => cases move
  | post => cases move
  | finish t => cases move
  | run t =>
    obtain ⟨sem, run, rfl⟩ := Option.map_eq_some_iff.mp move
    apply inv.uncounted run trivial
    all_goals
      obtain ⟨_, run⟩ := Option.ite_none_right_eq_some.mp run
      cases Option.some.inj run
      rfl
  | suspend t =>
    cases Option.some.inj move
    have run : SemStep state.sem (.suspend t) _ := rfl
    exact inv.uncounted run trivial rfl rfl rfl
  | wakeSuspended t =>
    cases Option.some.inj move
    have run : SemStep state.sem (.wakeSuspended t) _ := rfl
    exact inv.uncounted run trivial rfl rfl rfl
  | wake t =>
    obtain ⟨sem, run, rfl⟩ := Option.map_eq_some_iff.mp move
    apply inv.uncounted run trivial
    all_goals
      obtain ⟨threads, _, rfl⟩ := Halt.map_toOption_eq_some.mp run
      rfl

/-- The lock is free, and a thread gets it. -/
theorem Synced.enter (inv : Synced v0 state) {held : Section} (free : state.lock = none)
    (holder : Holder (state.phase t) held) (even : held.ahead = 0) (none : held.left = 0) :
    Synced v0 { state with lock := some (t, held) } := by
  have value := inv.value
  have posts := inv.posts
  rw [free] at value posts
  refine ⟨inv.sem, ?_, inv.low, inv.high, inv.owed, ?_, ?_, inv.succeeded⟩
  · simp only [lockAhead, Option.map_some, Option.getD_some, even]
    exact value
  · intro u now same
    cases Option.some.inj same
    exact holder
  · simp only [lockLeft, Option.map_some, Option.getD_some, none]
    exact posts

theorem Synced.step (inv : Synced v0 state) {op : PosixOp} (allowed : PendsBoth state op)
    (move : PosixStep state op after) : Synced v0 after := by
  cases op with
  | call t start =>
    obtain ⟨⟨free, out, starts⟩, move⟩ := Option.ite_none_right_eq_some.mp move
    cases Option.some.inj move
    apply inv.enter free
    · cases start with
      | cleanup => cases starts
      | postMultiple count =>
        refine ⟨out, fun other same => ?_⟩
        cases same
        exact of_decide_eq_true starts
      | _ => exact ⟨out, nofun⟩
    · cases start <;> first | rfl | cases starts
    · cases start <;> first | rfl | cases starts
  | holder =>
    obtain ⟨⟨t, held⟩, holds, move⟩ := Option.bind_eq_some_iff.mp move
    exact inv.holder_step holds allowed move
  | pend t => exact inv.pend_step allowed move
  | poll t last => exact inv.poll_step move
  | handler t =>
    obtain ⟨⟨free, expired⟩, move⟩ := Option.ite_none_right_eq_some.mp move
    cases Option.some.inj move
    exact inv.enter free ⟨expired, nofun⟩ rfl rfl
  | finish t => exact inv.finish_step move
  | scheduler op => exact inv.scheduler_step move

/-- In a run that pends on both counters they agree when no call is in progress, and
no more waits succeed than there are posts for. -/
theorem posix_semaphore_in_step {v0 : Nat} {state : PosixSem}
    (reached : Reach (FreshPosix v0) PosixStep PendsBoth state) : PosixCorrect v0 state := by
  have inv : Synced v0 state := by
    apply Reach.invariant (Synced v0) _ _ reached
    · exact fun _ fresh => Synced.start fresh
    · exact fun _ _ _ inv allowed move => inv.step allowed move
  exact inv.correct

end Invariant

/-! ## Two runs -/

def newPosix (v0 : Nat) : PosixSem :=
  { value := v0
    lock := none
    sem := newSemaphore v0
    phase := fun _ => .out
    owed := []
    posts := 0
    succeeded := 0 }

theorem newPosix_fresh {v0 : Nat} (initial : v0 < 2 ^ 31) : FreshPosix v0 (newPosix v0) :=
  ⟨newSemaphore_fresh initial, rfl, rfl, fun _ => rfl, rfl, rfl, rfl⟩

/-- One waits without cancellation, one for a time that runs out, and three are posted;
then one is taken at once. -/
def posixScript : List PosixOp :=
  [.call (.thread 1) .waitNocancel, .holder, .pend (.thread 1),
    .call (.thread 2) (.timedWait true), .holder, .poll (.thread 2) true,
    .call (.thread 3) (.postMultiple 3), .holder, .holder, .scheduler (.run (.thread 1)),
    .finish (.thread 1), .holder, .holder, .holder, .handler (.thread 2), .holder,
    .call (.thread 4) .tryWait, .holder, .holder, .call (.thread 5) .post, .holder, .holder]

theorem posix_semaphore_in_step_posted :
    ∃ state, Reach (FreshPosix 0) PosixStep PendsBoth state ∧ PosixCorrect 0 state ∧
      state.value = 1 ∧ state.sem.sem.value = 1 ∧ state.succeeded = 3 := by
  have run : (runLabels posixStep PendsBoth posixScript (newPosix 0)).any (fun state =>
      decide (state.value = 1 ∧ state.sem.sem.value = 1 ∧ state.succeeded = 3)) = true := by
    decide +kernel
  obtain ⟨state, reached, counts⟩ := Reach.of_run_ends (newPosix_fresh (by decide)) run
  exact ⟨state, reached, posix_semaphore_in_step reached, counts⟩

/-- A semaphore of one that two threads get: the first does not pend on the kernel's. -/
theorem nocancel_leaves_kernel_behind :
    ∃ state, Reach (FreshPosix 1) PosixStep Always state ∧ ¬PosixCorrect 1 state ∧
      state.succeeded = 2 ∧ state.posts = 0 := by
  have run : (runLabels posixStep Always
      [.call (.thread 1) .waitNocancel, .holder, .call (.thread 2) .wait, .holder, .pend (.thread 2)]
      (newPosix 1)).any (fun state => decide (state.succeeded = 2 ∧ state.posts = 0)) = true := by
    decide +kernel
  obtain ⟨state, reached, succeeded, posts⟩ := Reach.of_run_ends (newPosix_fresh (by decide)) run
  refine ⟨state, reached, fun correct => ?_, succeeded, posts⟩
  have most := correct.succeeded
  omega

end Stardust.Pte
