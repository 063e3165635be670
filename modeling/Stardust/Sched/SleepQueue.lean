import Mathlib.Data.Int.Order.Basic
import Stardust.Lib.Reach
import Stardust.Lib.StableQueue
import Stardust.Sched.Core

/-! # The sleep queue

Every section here holds `sleep_lock`.  A time is the value of an `s_time_t`; the
walks along the queue take a bound, which only matters when it runs out. -/
set_option autoImplicit false
namespace Stardust.Sched

open Stardust.Lib

/-- The head of the queue, and the `list` field of an entry. -/
inductive SleepNode
  | sleepQueue
  | list (sq : Nat)
  deriving DecidableEq

/-- `struct sleep_queue` -/
structure SleepEntry where
  flags : BitVec 32
  timeout : Int
  thread : Thread

def activeSqFlag : BitVec 32 := 1

def SleepEntry.isActive (entry : SleepEntry) : Bool := entry.flags &&& activeSqFlag != 0

def SleepEntry.setActive (entry : SleepEntry) : SleepEntry :=
  { entry with flags := entry.flags ||| activeSqFlag }

def SleepEntry.clearActive (entry : SleepEntry) : SleepEntry :=
  { entry with flags := entry.flags &&& ~~~activeSqFlag }

structure SleepState where
  links : Links SleepNode
  entries : Nat → SleepEntry

def SleepState.timeout (s : SleepState) (sq : Nat) : Int := (s.entries sq).timeout

def SleepState.modify (s : SleepState) (sq : Nat) (f : SleepEntry → SleepEntry) : SleepState :=
  { s with entries := Function.update s.entries sq (f (s.entries sq)) }

/-- `list_add_tail(&sq->list, iterator)` -/
def SleepState.linkBefore (s : SleepState) (sq : Nat) (iterator : SleepNode) : SleepState :=
  { s with links := s.links.listAddTail (.list sq) iterator }

/-! ## The code -/

def initSleepQueue (s : SleepState) (sq : Nat) : SleepState :=
  { s with links := s.links.initListHead (.list sq) }.modify sq fun entry => { entry with flags := 0 }

/-- What `add_timer` and `nanosleep` write before they add the entry. -/
def setTimer (s : SleepState) (sq : Nat) (thread : Thread) (timeout : Int) : SleepState :=
  s.modify sq fun entry => { entry with thread := thread, timeout := timeout }

/-- The `list_for_each` of `sleep_queue_add`: where its iterator stops. -/
def laterEntry (s : SleepState) (timeout : Int) : Nat → SleepNode → Except Halt SleepNode
  | _, .sleepQueue => .ok .sleepQueue
  | 0, .list _ => .error .fuel
  | more + 1, .list sq =>
    if timeout < s.timeout sq then .ok (.list sq) else laterEntry s timeout more (s.links.next (.list sq))

def sleepQueueAdd (fuel : Nat) (s : SleepState) (sq : Nat) : Except Halt SleepState := do
  let iterator ← laterEntry s (s.timeout sq) fuel (s.links.next .sleepQueue)
  .ok ((s.linkBefore sq iterator).modify sq SleepEntry.setActive)

def sleepQueueDel (s : SleepState) (sq : Nat) : SleepState :=
  { s with links := s.links.listDelInit (.list sq) }.modify sq SleepEntry.clearActive

/-- The clock is read twice, the second time for `NOW() + SECONDS(1)`. -/
def schedBlockingTime (s : SleepState) (early now : Int) : Int :=
  let timeout := match s.links.next .sleepQueue with
    | .sleepQueue => (now + 1000000000).bmod (2 ^ 64)
    | .list sq => s.timeout sq
  if timeout < early then -1 else timeout

/-- The `list_for_each` of `sched_wake_expired`. -/
def wakeFrom (s : SleepState) (now : Int) : Nat → SleepNode → Threads → Except Halt Threads
  | _, .sleepQueue, threads => .ok threads
  | 0, .list _, _ => .error .fuel
  | more + 1, .list sq, threads =>
    if s.timeout sq ≤ now then do
      let threads ← wake threads (s.entries sq).thread
      wakeFrom s now more (s.links.next (.list sq)) threads
    else .ok threads

def schedWakeExpired (fuel : Nat) (s : SleepState) (now : Int) (threads : Threads) : Except Halt Threads :=
  wakeFrom s now fuel (s.links.next .sleepQueue) threads

/-! ## The order -/

/-- `members` is the queue: the active entries, in the order of their timeouts
and, where these are equal, of their insertion. -/
structure Ordered (s : SleepState) (added members : List Nat) : Prop where
  list : IsList s.links .sleepQueue (members.map .list)
  active : ∀ sq, sq ∈ members ↔ (s.entries sq).isActive = true
  queue : StableQueue s.timeout added members

section Entries
variable {s : SleepState} {entry : SleepEntry} {sq other : Nat} {f : SleepEntry → SleepEntry}

@[simp] theorem setActive_isActive : entry.setActive.isActive = true := by
  have bit : (entry.flags ||| activeSqFlag) &&& activeSqFlag = activeSqFlag := by
    ext n
    simp [imp_or]
  simp only [SleepEntry.isActive, SleepEntry.setActive, bit]
  decide

@[simp] theorem clearActive_isActive : entry.clearActive.isActive = false := by
  have bit : entry.flags &&& ~~~activeSqFlag &&& activeSqFlag = 0 := by
    ext n
    simp
  simp only [SleepEntry.isActive, SleepEntry.clearActive, bit]
  decide

@[simp] theorem modify_links : (s.modify sq f).links = s.links := rfl

@[simp] theorem modify_self : (s.modify sq f).entries sq = f (s.entries sq) := by
  simp [SleepState.modify]

theorem modify_other (ne : other ≠ sq) : (s.modify sq f).entries other = s.entries other := by
  simp [SleepState.modify, ne]

/-- A change that keeps the timeout. -/
theorem modify_timeout (same : (f (s.entries sq)).timeout = (s.entries sq).timeout) :
    (s.modify sq f).timeout = s.timeout := by
  funext other
  by_cases this : other = sq
  · subst this
    simp [SleepState.timeout, same]
  · simp [SleepState.timeout, modify_other this]

end Entries

theorem listNode_injective : Function.Injective SleepNode.list := by
  intro a b same
  cases same
  rfl

/-! ## The walks -/

section Walks
variable {s : SleepState} {xs ys : List Nat} {limit now : Int} {fuel : Nat}

/-- The node that follows a member. -/
theorem next_of_member {sq : Nat} (list : IsList s.links .sleepQueue ((xs ++ sq :: ys).map .list)) :
    s.links.next (.list sq) = (ys.map SleepNode.list).headD .sleepQueue := by
  rw [List.map_append, List.map_cons] at list
  exact list.next_member

theorem laterEntry_eq (list : IsList s.links .sleepQueue ((xs ++ ys).map .list)) (enough : ys.length ≤ fuel) :
    laterEntry s limit fuel ((ys.map SleepNode.list).headD .sleepQueue) =
      .ok (((ys.dropWhile fun sq => s.timeout sq ≤ limit).map SleepNode.list).headD .sleepQueue) := by
  induction ys generalizing xs fuel with
  | nil => cases fuel <;> rfl
  | cons sq ys ih =>
    obtain ⟨fuel, rfl⟩ : ∃ less, fuel = less + 1 := Nat.exists_eq_add_one_of_ne_zero (by simp at enough; omega)
    rw [List.map_cons, List.headD_cons, laterEntry]
    by_cases later : limit < s.timeout sq
    · rw [if_pos later, List.dropWhile_cons_of_neg (by simp [later])]
      rfl
    · have rest : IsList s.links .sleepQueue ((xs ++ [sq] ++ ys).map .list) := by simpa using list
      rw [if_neg later, next_of_member list, ih rest (by simpa using enough),
        List.dropWhile_cons_of_pos (by simpa using later)]

theorem wakeFrom_eq {threads : Threads} (list : IsList s.links .sleepQueue ((xs ++ ys).map .list))
    (enough : ys.length ≤ fuel) :
    wakeFrom s now fuel ((ys.map SleepNode.list).headD .sleepQueue) threads =
      ((ys.takeWhile fun sq => s.timeout sq ≤ now).map fun sq => (s.entries sq).thread).foldlM
        wake threads := by
  induction ys generalizing xs fuel threads with
  | nil => cases fuel <;> rfl
  | cons sq ys ih =>
    obtain ⟨fuel, rfl⟩ : ∃ less, fuel = less + 1 := Nat.exists_eq_add_one_of_ne_zero (by simp at enough; omega)
    rw [List.map_cons, List.headD_cons, wakeFrom]
    by_cases expired : s.timeout sq ≤ now
    · rw [if_pos expired, List.takeWhile_cons_of_pos (by simp [expired]), List.map_cons, List.foldlM_cons]
      congr 1
      funext woken
      have rest : IsList s.links .sleepQueue ((xs ++ [sq] ++ ys).map .list) := by simpa using list
      rw [next_of_member list]
      exact ih rest (by simpa using enough)
    · rw [if_neg expired, List.takeWhile_cons_of_neg (by simp [expired])]
      rfl

theorem laterEntry_more {bound : Nat} {node result : SleepNode}
    (run : laterEntry s limit fuel node = .ok result) (more : fuel ≤ bound) :
    laterEntry s limit bound node = .ok result := by
  induction fuel generalizing node bound with
  | zero =>
    cases node with
    | sleepQueue => cases bound <;> exact run
    | list sq => cases run
  | succ fuel ih =>
    obtain ⟨bound, rfl⟩ : ∃ less, bound = less + 1 := Nat.exists_eq_add_one_of_ne_zero (by omega)
    cases node with
    | sleepQueue => exact run
    | list sq =>
      rw [laterEntry] at run ⊢
      split at run
      · rename_i later
        rw [if_pos later]
        exact run
      · rename_i early
        rw [if_neg early]
        exact ih run (by omega)

end Walks

/-! ## What each section keeps -/

section Sections
variable {s after : SleepState} {added members : List Nat} {sq fuel : Nat} {f : SleepEntry → SleepEntry}

theorem Ordered.nodup (ordered : Ordered s added members) : members.Nodup :=
  (List.nodup_cons.mp ordered.list.nodup).2.of_map

theorem Ordered.next_head (ordered : Ordered s added members) :
    s.links.next .sleepQueue = (members.map SleepNode.list).headD .sleepQueue :=
  ordered.list.next_head

theorem Ordered.outside (ordered : Ordered s added members) (inactive : (s.entries sq).isActive = false) :
    sq ∉ members := by
  intro member
  rw [ordered.active, inactive] at member
  cases member

theorem Ordered.list_outside (ordered : Ordered s added members)
    (inactive : (s.entries sq).isActive = false) : SleepNode.list sq ∉ .sleepQueue :: members.map .list := by
  intro member
  rcases List.mem_cons.mp member with isHead | inside
  · cases isHead
  · exact ordered.outside inactive ((List.mem_map_of_injective listNode_injective).mp inside)

/-- The owner of an inactive entry may change it. -/
theorem Ordered.modify (ordered : Ordered s added members) (inactive : (s.entries sq).isActive = false)
    (stays : (f (s.entries sq)).isActive = false) : Ordered (s.modify sq f) added members := by
  refine ⟨ordered.list, fun other => ?_, ordered.queue.congr fun other member => ?_⟩
  · by_cases this : other = sq
    · subst this
      rw [modify_self, stays, ordered.active, inactive]
    · rw [modify_other this]
      exact ordered.active other
  · have ne : other ≠ sq := fun same => ordered.outside inactive (same ▸ member)
    rw [SleepState.timeout, modify_other ne]
    rfl

theorem Ordered.set {thread : Thread} {timeout : Int} (ordered : Ordered s added members)
    (inactive : (s.entries sq).isActive = false) : Ordered (setTimer s sq thread timeout) added members := by
  rw [setTimer]
  exact ordered.modify inactive inactive

theorem Ordered.init (ordered : Ordered s added members) (inactive : (s.entries sq).isActive = false) :
    Ordered (initSleepQueue s sq) added members := by
  have linked : Ordered { s with links := s.links.initListHead (.list sq) } added members := by
    refine ⟨ordered.list.congr fun node member => ?_, ordered.active, ordered.queue⟩
    apply initListHead_frame
    exact fun same => ordered.list_outside inactive (same ▸ member)
  apply linked.modify inactive
  simp [SleepEntry.isActive]

/-- Where the new entry goes. -/
theorem sleepQueueAdd_eq (ordered : Ordered s added members) (enough : members.length ≤ fuel) :
    sleepQueueAdd fuel s sq = .ok ((s.linkBefore sq
      (((members.dropWhile fun other => s.timeout other ≤ s.timeout sq).map SleepNode.list).headD
        .sleepQueue)).modify sq SleepEntry.setActive) := by
  have whole : IsList s.links .sleepQueue (([] ++ members).map .list) := ordered.list
  rw [sleepQueueAdd, ordered.next_head, laterEntry_eq whole enough]
  rfl

theorem sleepQueueAdd_more {bound : Nat} (run : sleepQueueAdd fuel s sq = .ok after) (more : fuel ≤ bound) :
    sleepQueueAdd bound s sq = .ok after := by
  obtain ⟨iterator, walk, result⟩ := except_bind_ok.mp run
  exact except_bind_ok.mpr ⟨iterator, laterEntry_more walk more, result⟩

theorem Ordered.add (ordered : Ordered s added members) (inactive : (s.entries sq).isActive = false)
    (run : sleepQueueAdd fuel s sq = .ok after) :
    Ordered after (added ++ [sq]) (insertStable s.timeout sq members) := by
  have longer := sleepQueueAdd_more run (Nat.le_max_left fuel members.length)
  rw [sleepQueueAdd_eq ordered (Nat.le_max_right fuel members.length)] at longer
  obtain rfl := Except.ok.inj longer
  refine ⟨?_, fun other => ?_, ?_⟩
  · have parts : members.map SleepNode.list =
        (members.takeWhile fun other => s.timeout other ≤ s.timeout sq).map .list ++
          (members.dropWhile fun other => s.timeout other ≤ s.timeout sq).map .list := by
      rw [← List.map_append, List.takeWhile_append_dropWhile]
    have list := ordered.list
    have fresh := ordered.list_outside inactive
    rw [parts] at list fresh
    rw [insertStable, List.map_append, List.map_cons]
    exact list.insertBefore fresh
  · rw [mem_insertStable]
    by_cases this : other = sq
    · subst this
      simp
    · rw [modify_other this, SleepState.linkBefore, ← ordered.active]
      simp [this]
  · rw [modify_timeout (by rfl)]
    exact ordered.queue.insert

theorem Ordered.del (ordered : Ordered s added members) (active : (s.entries sq).isActive = true) :
    Ordered (sleepQueueDel s sq) (added.erase sq) (members.erase sq) := by
  refine ⟨?_, fun other => ?_, ?_⟩
  · rw [List.map_erase listNode_injective]
    exact ordered.list.listDelInit_erase (List.mem_map_of_mem ((ordered.active sq).mpr active))
  · rw [ordered.nodup.mem_erase_iff, ordered.active]
    by_cases this : other = sq
    · subst this
      simp [sleepQueueDel]
    · rw [sleepQueueDel, modify_other this]
      simp [this]
  · rw [sleepQueueDel, modify_timeout (by rfl)]
    exact ordered.queue.erase

/-- The head of the queue decides how long the processor may sleep. -/
theorem Ordered.blockingTime (ordered : Ordered s added members) (nonempty : members ≠ []) (early now : Int) :
    ∃ sq ∈ members, (∀ other ∈ members, s.timeout sq ≤ s.timeout other) ∧
      schedBlockingTime s early now = if s.timeout sq < early then -1 else s.timeout sq := by
  cases members with
  | nil => exact absurd rfl nonempty
  | cons sq rest =>
    refine ⟨sq, List.mem_cons_self .., fun other member => ordered.queue.head_least member, ?_⟩
    rw [schedBlockingTime, ordered.next_head]
    rfl

theorem Ordered.wakeExpired (ordered : Ordered s added members) (enough : members.length ≤ fuel) (now : Int)
    (threads : Threads) :
    schedWakeExpired fuel s now threads =
      ((members.filter fun sq => s.timeout sq ≤ now).map fun sq => (s.entries sq).thread).foldlM
        wake threads := by
  have whole : IsList s.links .sleepQueue (([] ++ members).map .list) := ordered.list
  rw [schedWakeExpired, ordered.next_head, wakeFrom_eq whole enough,
    takeWhile_eq_filter ordered.queue.sorted]

end Sections

/-! ## Runs -/

inductive SleepOp
  | init (sq : Nat)
  | set (sq : Nat) (thread : Thread) (timeout : Int)
  | add (sq : Nat)
  | del (sq : Nat)

/-- The queue with the active entries in the order of their insertion. -/
structure Sleepers where
  state : SleepState
  added : List Nat

/-- Only the owner of an inactive entry writes it or adds it; an active one is deleted.
`fuel` bounds the walk of `sleep_queue_add`. -/
def Sleepers.exec (fuel : Nat) (s : Sleepers) : SleepOp → Option Sleepers
  | .init sq =>
    if (s.state.entries sq).isActive then none else some { s with state := initSleepQueue s.state sq }
  | .set sq thread timeout =>
    if (s.state.entries sq).isActive then none
    else some { s with state := setTimer s.state sq thread timeout }
  | .add sq =>
    if (s.state.entries sq).isActive then none
    else match sleepQueueAdd fuel s.state sq with
      | .ok state => some ⟨state, s.added ++ [sq]⟩
      | .error _ => none
  | .del sq =>
    if (s.state.entries sq).isActive then some ⟨sleepQueueDel s.state sq, s.added.erase sq⟩ else none

/-- `LIST_HEAD(sleep_queue)`, and no entry added yet. -/
def Sleepers.Fresh (s : Sleepers) : Prop :=
  IsList s.state.links .sleepQueue [] ∧ (∀ sq, (s.state.entries sq).isActive = false) ∧ s.added = []

section Runs
variable {fuel : Nat} {s after : Sleepers}

theorem Sleepers.ordered_exec {members : List Nat} {op : SleepOp}
    (ordered : Ordered s.state s.added members) (move : s.exec fuel op = some after) :
    ∃ kept, Ordered after.state after.added kept := by
  cases op with
  | init sq =>
    simp only [Sleepers.exec, Option.ite_none_left_eq_some] at move
    obtain ⟨inactive, moved⟩ := move
    cases moved
    exact ⟨members, ordered.init (Bool.eq_false_iff.mpr inactive)⟩
  | set sq thread timeout =>
    simp only [Sleepers.exec, Option.ite_none_left_eq_some] at move
    obtain ⟨inactive, moved⟩ := move
    cases moved
    exact ⟨members, ordered.set (Bool.eq_false_iff.mpr inactive)⟩
  | add sq =>
    simp only [Sleepers.exec, Option.ite_none_left_eq_some] at move
    obtain ⟨inactive, run⟩ := move
    split at run
    · rename_i state added
      cases run
      exact ⟨_, ordered.add (Bool.eq_false_iff.mpr inactive) added⟩
    · cases run
  | del sq =>
    simp only [Sleepers.exec, Option.ite_none_right_eq_some] at move
    obtain ⟨active, moved⟩ := move
    cases moved
    exact ⟨_, ordered.del active⟩

theorem Sleepers.ordered_reach (reached : Reach Sleepers.Fresh
    (fun before op after => before.exec fuel op = some after) Always s) :
    ∃ members, Ordered s.state s.added members := by
  apply reached.invariant fun s => ∃ members, Ordered s.state s.added members
  · rintro s ⟨list, inactive, none⟩
    refine ⟨[], list, fun sq => ?_, ?_⟩
    · simp [inactive sq]
    · rw [none]
      exact StableQueue.nil
  · rintro s op after ⟨members, ordered⟩ _ move
    exact Sleepers.ordered_exec ordered move

/-- At any point of any run: the queue is sorted by timeout, with equal timeouts in
the order of insertion; its least timeout is what a processor may sleep for, unless
it has passed; the threads woken are those of the entries whose time has come; and
an insertion ends. -/
theorem sleep_queue_sorted (reached : Reach Sleepers.Fresh
    (fun before op after => before.exec fuel op = some after) Always s) :
    ∃ members, Ordered s.state s.added members ∧
      (members ≠ [] → ∀ early now, ∃ sq ∈ members,
        (∀ other ∈ members, s.state.timeout sq ≤ s.state.timeout other) ∧
          schedBlockingTime s.state early now =
            if s.state.timeout sq < early then -1 else s.state.timeout sq) ∧
      (∀ bound now threads, members.length ≤ bound →
        schedWakeExpired bound s.state now threads =
          ((members.filter fun sq => s.state.timeout sq ≤ now).map
            fun sq => (s.state.entries sq).thread).foldlM wake threads) ∧
      ∀ bound sq, members.length ≤ bound → ∃ after, sleepQueueAdd bound s.state sq = .ok after := by
  obtain ⟨members, ordered⟩ := Sleepers.ordered_reach reached
  refine ⟨members, ordered, fun nonempty early now => ordered.blockingTime nonempty early now, ?_, ?_⟩
  · intro bound now threads enough
    exact ordered.wakeExpired enough now threads
  · intro bound sq enough
    exact ⟨_, sleepQueueAdd_eq ordered enough⟩

end Runs

/-- No timer is set, and no entry is linked to another. -/
def Sleepers.initial : Sleepers where
  state := { links := ⟨id, id⟩, entries := fun _ => ⟨0, 0, .thread 0⟩ }
  added := []

/-- Entries 0 and 1 expire at 7 and entry 2 at 5: it is put in front, then 0 is deleted. -/
theorem sleep_queue_sorted_three : ∃ s : Sleepers, s.added = [1, 2] ∧
    ∃ members, Ordered s.state s.added members ∧ members ≠ [] ∧
      schedBlockingTime s.state 6 6 = -1 := by
  have fresh : Sleepers.initial.Fresh := by
    refine ⟨⟨⟨rfl, rfl⟩, by simp⟩, fun sq => ?_, rfl⟩
    simp [Sleepers.initial, SleepEntry.isActive]
  have run : (runLabels (Sleepers.exec 3) Always
      [.set 0 (.thread 4) 7, .add 0, .set 1 (.thread 5) 7, .add 1, .set 2 (.thread 6) 5, .add 2, .del 0]
      Sleepers.initial).any (fun s => s.added = [1, 2] ∧
        s.state.links.next .sleepQueue = .list 2 ∧ s.state.timeout 2 = 5) = true := by decide +kernel
  obtain ⟨s, reached, added, first, timeout⟩ := Reach.of_run_ends fresh run
  obtain ⟨members, ordered, _⟩ := sleep_queue_sorted reached
  refine ⟨s, added, members, ordered, ?_, ?_⟩
  · rintro rfl
    have last := ordered.next_head
    rw [first] at last
    cases last
  · rw [schedBlockingTime, first]
    simp [timeout]

end Stardust.Sched
