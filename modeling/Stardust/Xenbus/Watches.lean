import Stardust.Kernel
import Stardust.Lib.Reach
import Stardust.Lib.Ring

/-! # Watch events

The paths of the events for a token go through `paths`, ten slots that the reader
thread fills and `xenbus_read_watch` drains.  `received` and `returned` are
ghosts: what arrived for a token and what was handed to callers. -/
set_option autoImplicit false
namespace Stardust.Xenbus

open Stardust.Lib

/-- A string without its terminating NUL. -/
abbrev CString := List UInt8

/-- The C string at the start of some bytes. -/
def cString (bytes : List UInt8) : CString := bytes.takeWhile (· ≠ 0)

abbrev maxPaths : Nat := 10

structure Watch where
  token : CString
  path : CString
  pathProdIdx : Int
  pathConsIdx : Int
  paths : Nat → CString
  /-- the caller that sleeps until an event arrives -/
  thread : Option Nat

def findWatch (watches : List Watch) (token : CString) : Option Watch :=
  watches.find? fun watch => watch.token = token

/-- The element that `find_watch` points to is overwritten. -/
def setWatch (watches : List Watch) (token : CString) (watch : Watch) : List Watch :=
  match watches with
  | [] => []
  | first :: rest => if first.token = token then watch :: rest else first :: setWatch rest token watch

/-! ## The code -/

/-- The event is put in the watch; a negative remainder is no slot. -/
def Watch.put (watch : Watch) (path : CString) : Except Halt Watch :=
  if maxPaths < intSub watch.pathProdIdx watch.pathConsIdx then .error .bug
  else if watch.pathProdIdx.tmod maxPaths < 0 then .error .fault
  else .ok { watch with
    paths := Function.update watch.paths (watch.pathProdIdx.tmod maxPaths).toNat path
    pathProdIdx := intAdd watch.pathProdIdx 1 }

/-- The watch-event branch of `xenbus_thread_func`. -/
def watchEvent (watches : List Watch) (path token : CString) : Except Halt (List Watch) :=
  match findWatch watches token with
  | none => .ok watches
  | some watch => do
    let watch ← watch.put path
    .ok (setWatch watches token watch)

/-- The part of `xenbus_watch_path` that registers the watch. -/
def addWatch (watches : List Watch) (path token : CString) : Except Halt (List Watch) :=
  match findWatch watches token with
  | some _ => .error .bug
  | none => .ok (⟨token, path, 0, 0, fun _ => [], none⟩ :: watches)

/-- One turn of `xenbus_read_watch`: a path, or `thread` sleeps and tries again. -/
def readWatch (watches : List Watch) (token : CString) (thread : Nat) :
    Except Halt (List Watch × Option CString) :=
  match findWatch watches token with
  | none => .error .fault
  | some watch =>
    if watch.pathConsIdx < watch.pathProdIdx then
      if watch.pathConsIdx.tmod maxPaths < 0 then .error .fault
      else .ok (setWatch watches token
        { watch with pathConsIdx := intAdd watch.pathConsIdx 1, thread := none },
        some (watch.paths (watch.pathConsIdx.tmod maxPaths).toNat))
    else .ok (setWatch watches token { watch with thread := some thread }, none)

/-! ## Runs -/

structure WatchRun where
  watches : List Watch
  received : CString → List CString
  returned : CString → List CString

inductive WatchOp
  | watchPath (path token : CString)
  | event (path token : CString)
  | readWatch (token : CString) (thread : Nat)
  deriving DecidableEq

/-- `log` with one more entry for the token. -/
def record (log : CString → List CString) (token path : CString) : CString → List CString :=
  Function.update log token (log token ++ [path])

def recordResult (log : CString → List CString) (token : CString) :
    Option CString → CString → List CString
  | some path => record log token path
  | none => log

def watchStep (state : WatchRun) : WatchOp → Option WatchRun
  | .watchPath path token =>
    (addWatch state.watches path token).toOption.map fun watches => { state with watches := watches }
  | .event path token =>
    (watchEvent state.watches path token).toOption.map fun watches =>
      if (findWatch state.watches token).isSome then
        { state with watches := watches, received := record state.received token path }
      else { state with watches := watches }
  | .readWatch token thread =>
    (readWatch state.watches token thread).toOption.map fun (watches, result) =>
      { state with watches := watches, returned := recordResult state.returned token result }

abbrev WatchStep (before : WatchRun) (op : WatchOp) (after : WatchRun) : Prop :=
  watchStep before op = some after

def NoWatches (state : WatchRun) : Prop :=
  state.watches = [] ∧ (∀ token, state.received token = []) ∧ ∀ token, state.returned token = []

/-- There is a slot for one more path, and the index can be counted up.  A watch
with more paths than slots stops the thread. -/
def Watch.HasSlot (watch : Watch) : Prop :=
  watch.pathProdIdx ≠ watch.pathConsIdx + maxPaths ∧ watch.pathProdIdx ≠ 2 ^ 31 - 1

instance (watch : Watch) : Decidable watch.HasSlot := inferInstanceAs (Decidable (_ ∧ _))

def WithSlot (state : WatchRun) : WatchOp → Prop
  | .event _ token => ∀ watch ∈ findWatch state.watches token, watch.HasSlot
  | _ => True

instance (state : WatchRun) (op : WatchOp) : Decidable (WithSlot state op) := by
  cases op <;> unfold WithSlot <;> infer_instance

/-! ## The list of watches -/

section Watches
variable {watches : List Watch} {token other : CString} {watch found : Watch}

theorem findWatch_token (known : findWatch watches token = some watch) : watch.token = token := by
  simpa using List.find?_some known

theorem findWatch_setWatch (known : findWatch watches token = some watch)
    (same : found.token = token) :
    findWatch (setWatch watches token found) other =
      if other = token then some found else findWatch watches other := by
  induction watches with
  | nil => nomatch known
  | cons first rest ih =>
    by_cases here : first.token = token
    · by_cases isOther : other = token
      · simp [setWatch, findWatch, here, isOther, same]
      · have differs : token ≠ other := Ne.symm isOther
        simp [setWatch, findWatch, here, isOther, same, differs]
    · have later : findWatch rest token = some watch := by
        simpa [findWatch, List.find?_cons, here] using known
      simp only [setWatch, if_neg here, findWatch, List.find?_cons]
      by_cases first' : first.token = other
      · have different : other ≠ token := first' ▸ here
        simp [first', different]
      · simpa [findWatch, first'] using ih later

end Watches

/-! ## One queue -/

/-- The slots hold what was received and not yet returned. -/
structure Queued (received returned : List CString) (watch : Watch) : Prop where
  consumed : watch.pathConsIdx = returned.length
  produced : watch.pathProdIdx = received.length
  order : returned ++ ringRead watch.paths maxPaths returned.length
    (received.length - returned.length) = received
  most : received.length ≤ returned.length + maxPaths
  counted : received.length < 2 ^ 31

section Queue
variable {received returned : List CString} {watch after : Watch} {path : CString}

theorem Queued.returned_le (queued : Queued received returned watch) :
    returned.length ≤ received.length := by
  have order := congrArg List.length queued.order
  rw [List.length_append] at order
  omega

theorem tmod_natCast (n : Nat) : (n : Int).tmod maxPaths = (n % maxPaths : Nat) :=
  Int.ofNat_tmod n maxPaths

/-- The event overflows or lands in the slot of its index. -/
theorem Watch.put_ok (run : watch.put path = .ok after) :
    after = { watch with
      paths := Function.update watch.paths (watch.pathProdIdx.tmod maxPaths).toNat path
      pathProdIdx := intAdd watch.pathProdIdx 1 } := by
  unfold Watch.put at run
  split at run
  · nomatch run
  · split at run
    · nomatch run
    · exact (Except.ok.inj run).symm

theorem Queued.put (queued : Queued received returned watch) (slot : watch.HasSlot)
    (run : watch.put path = .ok after) : Queued (received ++ [path]) returned after := by
  obtain ⟨consumed, produced, order, most, small⟩ := queued
  have less := Queued.returned_le ⟨consumed, produced, order, most, small⟩
  obtain ⟨notFull, counted⟩ := slot
  rw [produced, consumed] at notFull
  rw [produced] at counted
  have next : intAdd watch.pathProdIdx 1 = received.length + 1 := by
    rw [produced]
    exact intAdd_eq (by omega) (by omega)
  rw [Watch.put_ok run, produced, tmod_natCast]
  rw [produced] at next
  refine ⟨consumed, ?_, ?_, ?_, ?_⟩
  · dsimp only
    rw [next, List.length_append, List.length_singleton]
    omega
  · -- the new path goes to the slot behind the last one
    have more : (received ++ [path]).length - returned.length =
        (received.length - returned.length) + 1 := by
      rw [List.length_append, List.length_singleton]
      omega
    have stop : returned.length + (received.length - returned.length) = received.length := by
      omega
    have pushed : ringRead (Function.update watch.paths (received.length % maxPaths) path) maxPaths
        returned.length (received.length - returned.length + 1) =
        ringRead watch.paths maxPaths returned.length (received.length - returned.length) ++ [path] := by
      have added := @ringRead_push _ watch.paths maxPaths returned.length
        (received.length - returned.length) path (by omega)
      rw [stop] at added
      exact added
    rw [more, Int.toNat_natCast, pushed, ← List.append_assoc, order]
  · rw [List.length_append, List.length_singleton]
    omega
  · rw [List.length_append, List.length_singleton]
    omega

theorem Queued.take (queued : Queued received returned watch)
    (more : watch.pathConsIdx < watch.pathProdIdx) (thread : Option Nat) :
    Queued received (returned ++ [watch.paths (watch.pathConsIdx.tmod maxPaths).toNat])
      { watch with pathConsIdx := intAdd watch.pathConsIdx 1, thread := thread } := by
  obtain ⟨consumed, produced, order, most, small⟩ := queued
  rw [produced, consumed] at more
  have next : intAdd watch.pathConsIdx 1 = returned.length + 1 := by
    rw [consumed]
    exact intAdd_eq (by omega) (by omega)
  refine ⟨?_, produced, ?_, ?_, small⟩
  · dsimp only
    rw [next, List.length_append, List.length_singleton]
    omega
  · have split : received.length - returned.length = received.length - (returned.length + 1) + 1 := by
      omega
    rw [split, ringRead_succ] at order
    simp only [List.length_append, List.length_singleton, consumed, tmod_natCast, Int.toNat_natCast,
      List.append_assoc, List.cons_append, List.nil_append]
    exact order
  · rw [List.length_append, List.length_singleton]
    omega

end Queue

/-! ## Lossless in every run -/

/-- Every registered watch: the paths returned, followed by those in its slots, are
the paths received, in order. -/
def Lossless (state : WatchRun) : Prop := ∀ token watch, findWatch state.watches token = some watch →
  state.returned token ++ ringRead watch.paths maxPaths (state.returned token).length
    ((state.received token).length - (state.returned token).length) = state.received token

structure WatchInv (state : WatchRun) : Prop where
  known : ∀ token watch, findWatch state.watches token = some watch →
    Queued (state.received token) (state.returned token) watch
  unknown : ∀ token, findWatch state.watches token = none →
    state.received token = [] ∧ state.returned token = []

section Runs
variable {state after : WatchRun} {op : WatchOp}

/-- Only the watch of the token changes. -/
theorem WatchInv.set (inv : WatchInv state) {token : CString} {watch next : Watch}
    {received returned : CString → List CString}
    (found : findWatch state.watches token = some watch) (same : next.token = token)
    (receivedElsewhere : ∀ other, other ≠ token → received other = state.received other)
    (returnedElsewhere : ∀ other, other ≠ token → returned other = state.returned other)
    (queued : Queued (received token) (returned token) next) :
    WatchInv ⟨setWatch state.watches token next, received, returned⟩ := by
  constructor
  · intro other watch' known
    simp only at known ⊢
    rw [findWatch_setWatch found same] at known
    by_cases isToken : other = token
    · rw [if_pos isToken] at known
      cases Option.some.inj known
      rw [isToken]
      exact queued
    · rw [if_neg isToken] at known
      rw [receivedElsewhere other isToken, returnedElsewhere other isToken]
      exact inv.known other watch' known
  · intro other missing
    simp only at missing ⊢
    rw [findWatch_setWatch found same] at missing
    by_cases isToken : other = token
    · rw [if_pos isToken] at missing
      nomatch missing
    · rw [if_neg isToken] at missing
      rw [receivedElsewhere other isToken, returnedElsewhere other isToken]
      exact inv.unknown other missing

theorem record_self (log : CString → List CString) (token path : CString) :
    record log token path token = log token ++ [path] := Function.update_self ..

theorem record_of_ne (log : CString → List CString) {token other : CString} (path : CString)
    (different : other ≠ token) : record log token path other = log other :=
  Function.update_of_ne different ..

theorem WatchInv.watchPath (inv : WatchInv state) {path token : CString} {watches : List Watch}
    (run : addWatch state.watches path token = .ok watches) :
    WatchInv { state with watches := watches } := by
  unfold addWatch at run
  split at run
  · nomatch run
  rename_i found
  rw [← Except.ok.inj run]
  obtain ⟨noneReceived, noneReturned⟩ := inv.unknown token found
  have find : ∀ other, findWatch (⟨token, path, 0, 0, fun _ => [], none⟩ :: state.watches) other =
      if token = other then some ⟨token, path, 0, 0, fun _ => [], none⟩
      else findWatch state.watches other := by
    intro other
    by_cases same : token = other
    · simp [findWatch, same]
    · simp [findWatch, same]
  constructor
  · intro other watch known
    simp only at known ⊢
    rw [find] at known
    split at known
    · rename_i same
      cases Option.some.inj known
      rw [← same, noneReceived, noneReturned]
      exact ⟨rfl, rfl, rfl, by decide, by decide⟩
    · exact inv.known other watch known
  · intro other missing
    simp only at missing ⊢
    rw [find] at missing
    split at missing
    · nomatch missing
    · exact inv.unknown other missing

theorem WatchInv.event (inv : WatchInv state) {path token : CString} {watches : List Watch}
    (slot : WithSlot state (.event path token))
    (run : watchEvent state.watches path token = .ok watches) :
    WatchInv (if (findWatch state.watches token).isSome then
      { state with watches := watches, received := record state.received token path }
      else { state with watches := watches }) := by
  unfold watchEvent at run
  split at run
  · rename_i missing
    cases Except.ok.inj run
    rw [missing]
    exact inv
  · rename_i watch found
    obtain ⟨next, put, same⟩ := Halt.bind_eq_ok.mp run
    cases Except.ok.inj same
    have queued := (inv.known token watch found).put (slot watch found) put
    have token' : next.token = token := by
      rw [Watch.put_ok put]
      exact @findWatch_token _ _ watch found
    rw [found]
    apply inv.set found token'
    · exact fun other different => record_of_ne _ _ different
    · exact fun other _ => rfl
    · rw [record_self]
      exact queued

theorem WatchInv.readWatch (inv : WatchInv state) {token : CString} {thread : Nat}
    {watches : List Watch} {result : Option CString}
    (run : readWatch state.watches token thread = .ok (watches, result)) :
    WatchInv { state with
      watches := watches, returned := recordResult state.returned token result } := by
  unfold Xenbus.readWatch at run
  split at run
  · nomatch run
  rename_i watch found
  have queued := inv.known token watch found
  split at run
  · rename_i more
    split at run
    · nomatch run
    · cases Except.ok.inj run
      apply inv.set found (by exact @findWatch_token _ _ watch found)
      · exact fun other _ => rfl
      · exact fun other different => record_of_ne _ _ different
      · rw [recordResult, record_self]
        exact queued.take more none
  · cases Except.ok.inj run
    apply inv.set found (by exact @findWatch_token _ _ watch found)
    · exact fun other _ => rfl
    · exact fun other _ => rfl
    · exact ⟨queued.consumed, queued.produced, queued.order, queued.most, queued.counted⟩

theorem watches_lossless (reached : Reach NoWatches WatchStep WithSlot state) : Lossless state := by
  have inv : WatchInv state := by
    refine Reach.invariant WatchInv ?_ ?_ reached
    · rintro start ⟨none, received, returned⟩
      refine ⟨fun token watch known => ?_, fun token _ => ⟨received token, returned token⟩⟩
      rw [none] at known
      nomatch known
    · intro before op after inv slot move
      cases op with
      | watchPath path token =>
        obtain ⟨watches, run, rfl⟩ := Halt.map_toOption_eq_some.mp move
        exact inv.watchPath run
      | event path token =>
        obtain ⟨watches, run, rfl⟩ := Halt.map_toOption_eq_some.mp move
        exact inv.event slot run
      | readWatch token thread =>
        obtain ⟨⟨watches, result⟩, run, rfl⟩ := Halt.map_toOption_eq_some.mp move
        exact inv.readWatch run
  intro token watch known
  exact (inv.known token watch known).order

end Runs

/-! ## A burst of eleven events -/

def noWatches : WatchRun := ⟨[], fun _ => [], fun _ => []⟩

theorem noWatches_none : NoWatches noWatches := ⟨rfl, fun _ => rfl, fun _ => rfl⟩

/-- The path of the `k`-th event for the token 7. -/
def burst (n : Nat) : List WatchOp :=
  .watchPath [1] [7] :: (List.range n).map fun k => .event [UInt8.ofNat k] [7]

theorem watches_lossless_ten :
    ∃ state, runLabels watchStep WithSlot (burst 10 ++ [.readWatch [7] 3]) noWatches = some state ∧
      Lossless state := by
  have runs : (runLabels watchStep WithSlot (burst 10 ++ [.readWatch [7] 3]) noWatches).isSome := by
    decide +kernel
  obtain ⟨state, run⟩ := Option.isSome_iff_exists.mp runs
  exact ⟨state, run, watches_lossless (Reach.of_runLabels (.start noWatches_none) run)⟩

/-- The eleventh event passes the check and takes the slot of the first, which no
caller has read; the first path returned is the last one received. -/
theorem eleventh_event_overwrites : ∃ state, Reach NoWatches WatchStep Always state ∧ ¬Lossless state := by
  have facts : (runLabels watchStep Always (burst 11 ++ [.readWatch [7] 3]) noWatches).any
      fun state => decide ((findWatch state.watches [7]).isSome ∧ state.returned [7] = [[10]] ∧
        (state.received [7]).head? = some [0]) := by
    decide +kernel
  obtain ⟨state, reached, known, returned, received⟩ := Reach.of_run_ends noWatches_none facts
  refine ⟨state, reached, fun lossless => ?_⟩
  obtain ⟨watch, found⟩ := Option.isSome_iff_exists.mp known
  have order := lossless [7] watch found
  rw [← order, returned] at received
  nomatch received

end Stardust.Xenbus
