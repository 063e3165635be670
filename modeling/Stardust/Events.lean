import Mathlib.Data.BitVec
import Mathlib.Data.List.Nodup
import Stardust.Kernel
import Stardust.Lib.PackedBits

/-! # Event channels: the callback's scan of the pending ports

The hypervisor keeps one pending bit and one mask bit for each port, packed into
arrays of 64-bit words, and for each processor a selector word with one bit for
each word of those arrays.  The callback reads the selector and the words through
`u32` variables and counts 32 ports to a word. -/
set_option autoImplicit false
namespace Stardust.Events

open Stardust.Lib

def nrEvs : Nat := 1024

/-- `ev_action_t`: the processor the port is bound to (`none` is `ANY_CPU`) and
whether it has a handler. -/
structure EvAction where
  cpu : Option Nat
  handler : Bool

/-- What the callback of one processor reads and writes. -/
structure Channels where
  evtchnPending : Words 64
  evtchnMask : Words 64
  /-- the words of `vcpu_info` from `evtchn_pending_sel` on -/
  vcpuInfo : Words 64
  evtchnUpcallPending : Bool
  evtchnUpcallMask : Bool
  upcallCount : Int
  /-- `ev_actions[].count` -/
  counts : Nat → Nat
  /-- ghost: the calls of `force_evtchn_callback` -/
  forced : Nat
  /-- ghost: the ports `do_event` was called with, in order -/
  done : List Nat
  /-- ghost: the ports whose handler ran, in order -/
  handled : List Nat

/-! ## The bit operations of `hypervisor.c` -/

def maskEvtchn (port : Nat) (channels : Channels) : Channels :=
  { channels with evtchnMask := setBit channels.evtchnMask port }

def clearEvtchn (port : Nat) (channels : Channels) : Channels :=
  { channels with evtchnPending := clearBit channels.evtchnPending port }

/-- The selector bit is `port >> 5`; `btsl` reaches beyond the selector word when
that is 64 or more. -/
def unmaskEvtchn (port : Nat) (channels : Channels) : Channels :=
  let channels := { channels with evtchnMask := clearBit channels.evtchnMask port }
  if bitAt channels.evtchnPending port then
    let old := bitAt channels.vcpuInfo (port >>> 5)
    let channels := { channels with vcpuInfo := setBit channels.vcpuInfo (port >>> 5) }
    if old then channels
    else
      let channels := { channels with evtchnUpcallPending := true }
      if channels.evtchnUpcallMask then channels
      else { channels with forced := channels.forced + 1 }
  else channels

/-! ## `do_event` -/

section Callback
variable (evActions : Nat → EvAction) (cpu : Nat)

def runAction (port : Nat) (channels : Channels) : Channels :=
  if nrEvs ≤ port then channels
  else
    let action := evActions port
    let channels := { channels with
      counts := Function.update channels.counts port (uintAdd (channels.counts port) 1) }
    if action.cpu ≠ none ∧ action.cpu ≠ some cpu then channels
    else if action.handler then { channels with handled := channels.handled ++ [port] }
    else channels

def doEvent (port : Nat) (channels : Channels) : Channels :=
  let channels := { channels with done := channels.done ++ [port] }
  let channels := clearEvtchn port (maskEvtchn port channels)
  unmaskEvtchn port (runAction evActions cpu port channels)

/-! ## `do_hypervisor_callback` -/

def ffs (word : BitVec 32) : Nat := word.ctz.toNat

/-- `active_evtchns(idx)` as the `u32` it is assigned to. -/
def activeEvtchns (channels : Channels) (idx : Nat) : BitVec 32 :=
  (channels.evtchnPending idx &&& ~~~channels.evtchnMask idx).setWidth 32

/-- The inner loop.  The `l2 &= ~(1 << l2i)` of the source is overwritten by the
next test. -/
def scanWord (l1i : Nat) : Nat → Channels → Except Halt Channels
  | 0, _ => .error .fuel
  | fuel + 1, channels =>
    let l2 := activeEvtchns channels l1i
    if l2 = 0#32 then .ok channels
    else
      let l2i := ffs l2
      let port := (l1i <<< 5) + l2i
      scanWord l1i fuel (doEvent evActions cpu port channels)

def scanSelector (wordFuel : Nat) : Nat → BitVec 32 → Channels → Except Halt Channels
  | 0, _, _ => .error .fuel
  | fuel + 1, l1, channels =>
    if l1 = 0#32 then .ok channels
    else do
      let l1i := ffs l1
      let channels ← scanWord evActions cpu l1i wordFuel channels
      scanSelector wordFuel fuel (l1 &&& ~~~(1#32 <<< l1i)) channels

def callbackLoop (scanFuel : Nat) : Nat → Channels → Except Halt Channels
  | 0, _ => .error .fuel
  | fuel + 1, channels => do
    let nested := channels.upcallCount
    let channels := { channels with
      evtchnUpcallPending := false, upcallCount := intAdd channels.upcallCount 1 }
    if nested ≠ 0 then return channels
    let l1 : BitVec 32 := (channels.vcpuInfo 0).setWidth 32
    let channels := { channels with vcpuInfo := Function.update channels.vcpuInfo 0 0#64 }
    let channels ← scanSelector evActions cpu scanFuel scanFuel l1 channels
    let count := channels.upcallCount
    let channels := { channels with upcallCount := 0 }
    if count ≠ 1 then callbackLoop scanFuel fuel channels else return channels

def doHypervisorCallback (fuel : Nat) (channels : Channels) : Except Halt Channels :=
  callbackLoop evActions cpu fuel fuel channels

/-! ## What one `do_event` changes -/

def live (channels : Channels) (port : Nat) : Bool :=
  bitAt channels.evtchnPending port && !bitAt channels.evtchnMask port

theorem runAction_eq (port : Nat) (channels : Channels) :
    ∃ counts handled, runAction evActions cpu port channels =
      { channels with counts := counts, handled := handled } := by
  unfold runAction
  split
  · exact ⟨channels.counts, channels.handled, rfl⟩
  dsimp only
  split
  · exact ⟨_, channels.handled, rfl⟩
  split
  · exact ⟨_, _, rfl⟩
  · exact ⟨_, channels.handled, rfl⟩

/-- `do_event` has cleared the pending bit when it unmasks the port, so the
selector is left alone. -/
theorem doEvent_eq (port : Nat) (channels : Channels) :
    ∃ counts handled, doEvent evActions cpu port channels =
      { channels with
        done := channels.done ++ [port]
        evtchnPending := clearBit channels.evtchnPending port
        evtchnMask := clearBit (setBit channels.evtchnMask port) port
        counts := counts
        handled := handled } := by
  obtain ⟨counts, handled, same⟩ := runAction_eq evActions cpu port
    (clearEvtchn port (maskEvtchn port { channels with done := channels.done ++ [port] }))
  have cleared : bitAt (clearBit channels.evtchnPending port) port = false := by
    rw [bitAt_clearBit (by decide)]
    simp
  refine ⟨counts, handled, ?_⟩
  rw [doEvent, same, unmaskEvtchn, clearEvtchn, maskEvtchn]
  simp only [cleared, Bool.false_eq_true, if_false]

@[simp] theorem doEvent_done (port : Nat) (channels : Channels) :
    (doEvent evActions cpu port channels).done = channels.done ++ [port] := by
  obtain ⟨_, _, same⟩ := doEvent_eq evActions cpu port channels
  rw [same]

@[simp] theorem doEvent_upcallCount (port : Nat) (channels : Channels) :
    (doEvent evActions cpu port channels).upcallCount = channels.upcallCount := by
  obtain ⟨_, _, same⟩ := doEvent_eq evActions cpu port channels
  rw [same]

theorem live_doEvent (port q : Nat) (channels : Channels) :
    live (doEvent evActions cpu port channels) q = (live channels q && !decide (q = port)) := by
  obtain ⟨_, _, same⟩ := doEvent_eq evActions cpu port channels
  rw [same, live, live]
  dsimp only
  rw [bitAt_clearBit (by decide), bitAt_clearBit (by decide), bitAt_setBit (by decide)]
  by_cases hit : q = port
  · simp [hit]
  · simp [hit]

/-! ## The bits one pass of the inner loop looks at -/

theorem getLsbD_activeEvtchns (channels : Channels) (idx : Nat) {j : Nat} (low : j < 32) :
    (activeEvtchns channels idx).getLsbD j = live channels (64 * idx + j) := by
  have word : (64 * idx + j) / 64 = idx := by omega
  have bit : (64 * idx + j) % 64 = j := by omega
  have wide : j < 64 := by omega
  rw [activeEvtchns, live, bitAt, bitAt, word, bit, BitVec.getLsbD_setWidth, BitVec.getLsbD_and,
    BitVec.getLsbD_not]
  simp [low, wide]

theorem activeEvtchns_eq_zero (channels : Channels) (idx : Nat) :
    activeEvtchns channels idx = 0#32 ↔ ∀ j < 32, live channels (64 * idx + j) = false := by
  constructor
  · intro zero j low
    rw [← getLsbD_activeEvtchns channels idx low, zero, BitVec.getLsbD_zero]
  · intro idle
    apply BitVec.eq_of_getLsbD_eq
    intro j low
    rw [getLsbD_activeEvtchns channels idx low, idle j low, BitVec.getLsbD_zero]

theorem ffs_lt {word : BitVec 32} (nonzero : word ≠ 0#32) : ffs word < 32 := by
  have below := BitVec.ctz_lt_iff_ne_zero.mpr nonzero
  simpa [ffs, BitVec.lt_def] using below

theorem getLsbD_ffs {word : BitVec 32} (nonzero : word ≠ 0#32) : word.getLsbD (ffs word) = true :=
  BitVec.getLsbD_true_ctz_of_ne_zero nonzero

theorem getLsbD_below_ffs {word : BitVec 32} {j : Nat} (below : j < ffs word) :
    word.getLsbD j = false :=
  BitVec.getLsbD_false_of_lt_ctz below

theorem port_eq (l1i l2i : Nat) : (l1i <<< 5) + l2i = 32 * l1i + l2i := by
  rw [Nat.shiftLeft_eq]
  omega

/-! ## The inner loop -/

theorem scanWord_idle {idx : Nat} {channels : Channels} (idle : activeEvtchns channels idx = 0#32)
    (fuel : Nat) : scanWord evActions cpu idx (fuel + 1) channels = .ok channels := by
  rw [scanWord]
  dsimp only
  rw [if_pos idle]

theorem scanWord_busy {idx : Nat} {channels : Channels} (busy : activeEvtchns channels idx ≠ 0#32)
    (fuel : Nat) : scanWord evActions cpu idx (fuel + 1) channels =
      scanWord evActions cpu idx fuel
        (doEvent evActions cpu (32 * idx + ffs (activeEvtchns channels idx)) channels) := by
  rw [scanWord]
  dsimp only
  rw [if_neg busy, port_eq]

/-- For a word other than the first the loop passes a port of an earlier word to
`do_event`, so the bits it waits for stay as they are. -/
theorem scanWord_stuck {idx : Nat} (later : 0 < idx) (fuel : Nat) {channels : Channels}
    (busy : activeEvtchns channels idx ≠ 0#32) :
    scanWord evActions cpu idx fuel channels = .error .fuel := by
  induction fuel generalizing channels with
  | zero => rfl
  | succ fuel ih =>
    have low := ffs_lt busy
    rw [scanWord_busy evActions cpu busy]
    apply ih
    have same : activeEvtchns (doEvent evActions cpu
        (32 * idx + ffs (activeEvtchns channels idx)) channels) idx = activeEvtchns channels idx := by
      apply BitVec.eq_of_getLsbD_eq
      intro j inside
      have apart : 64 * idx + j ≠ 32 * idx + ffs (activeEvtchns channels idx) := by omega
      rw [getLsbD_activeEvtchns _ idx inside, getLsbD_activeEvtchns _ idx inside, live_doEvent]
      simp [apart]
    rw [same]
    exact busy

/-- `after` is `before` with `do_event` called for the ports of `ports`. -/
structure Served (before after : Channels) (ports : List Nat) : Prop where
  done : after.done = before.done ++ ports
  upcallCount : after.upcallCount = before.upcallCount
  live : ∀ q, live after q = (live before q && !decide (q ∈ ports))

theorem Served.refl (channels : Channels) : Served channels channels [] :=
  ⟨(List.append_nil _).symm, rfl, fun q => by simp⟩

theorem Served.cons {before after : Channels} {port : Nat} {ports : List Nat}
    (rest : Served (doEvent evActions cpu port before) after ports) :
    Served before after (port :: ports) := by
  refine ⟨?_, ?_, fun q => ?_⟩
  · rw [rest.done, doEvent_done, List.append_assoc]
    rfl
  · rw [rest.upcallCount, doEvent_upcallCount]
  · rw [rest.live, live_doEvent]
    by_cases hit : q = port
    · simp [hit]
    · simp [hit]

theorem Served.trans {first second third : Channels} {ports more : List Nat}
    (left : Served first second ports) (right : Served second third more) :
    Served first third (ports ++ more) := by
  refine ⟨?_, ?_, fun q => ?_⟩
  · rw [right.done, left.done, List.append_assoc]
  · rw [right.upcallCount, left.upcallCount]
  · rw [right.live, left.live]
    simp [Bool.and_assoc]

/-- Whatever word it scans, a loop that ends has served ports of the first one
only. -/
theorem scanWord_ok {idx fuel : Nat} {channels after : Channels}
    (ran : scanWord evActions cpu idx fuel channels = .ok after) :
    ∃ ports, Served channels after ports ∧ ∀ p ∈ ports, p < 32 := by
  induction fuel generalizing channels with
  | zero => cases ran
  | succ fuel ih =>
    by_cases idle : activeEvtchns channels idx = 0#32
    · rw [scanWord_idle evActions cpu idle] at ran
      cases ran
      exact ⟨[], Served.refl _, by simp⟩
    · rcases Nat.eq_zero_or_pos idx with first | later
      · subst first
        rw [scanWord_busy evActions cpu idle] at ran
        obtain ⟨ports, served, low⟩ := ih ran
        refine ⟨_ :: ports, served.cons evActions cpu, ?_⟩
        intro p member
        rcases List.mem_cons.mp member with same | rest
        · have bound := ffs_lt idle
          omega
        · exact low p rest
      · rw [scanWord_stuck evActions cpu later _ idle] at ran
        cases ran

/-- The first word: the loop goes upwards through its low half. -/
theorem scanWord_zero {k fuel : Nat} {channels : Channels}
    (scanned : ∀ j < k, live channels j = false) (inside : k ≤ 32) (enough : 32 < fuel + k) :
    ∃ after ports, scanWord evActions cpu 0 fuel channels = .ok after ∧
      Served channels after ports ∧ ports.Nodup ∧
      ∀ p, p ∈ ports ↔ p < 32 ∧ live channels p = true := by
  induction fuel generalizing k channels with
  | zero => omega
  | succ fuel ih =>
    by_cases idle : activeEvtchns channels 0 = 0#32
    · refine ⟨channels, [], scanWord_idle evActions cpu idle fuel, Served.refl _,
        List.nodup_nil, fun p => ?_⟩
      have silent := (activeEvtchns_eq_zero channels 0).mp idle
      constructor
      · intro member
        cases member
      · intro ⟨low, busy⟩
        have absent := silent p low
        rw [show 64 * 0 + p = p by omega, busy] at absent
        cases absent
    · -- the lowest live port is served and none below it becomes live
      have low := ffs_lt idle
      have lowest := getLsbD_ffs idle
      rw [getLsbD_activeEvtchns channels 0 low] at lowest
      rw [scanWord_busy evActions cpu idle]
      rw [show 64 * 0 + ffs (activeEvtchns channels 0) = 32 * 0 + ffs (activeEvtchns channels 0)
        by omega] at lowest
      have below : ∀ j < 32 * 0 + ffs (activeEvtchns channels 0), live channels j = false := by
        intro j under
        have clear := getLsbD_below_ffs (by omega : j < ffs (activeEvtchns channels 0))
        rw [getLsbD_activeEvtchns channels 0 (by omega)] at clear
        rwa [show 64 * 0 + j = j by omega] at clear
      have bound : 32 * 0 + ffs (activeEvtchns channels 0) < 32 := by omega
      generalize 32 * 0 + ffs (activeEvtchns channels 0) = port at lowest below bound
      have reached : k ≤ port := by
        by_contra early
        rw [scanned port (by omega)] at lowest
        cases lowest
      have next : ∀ j < port + 1, live (doEvent evActions cpu port channels) j = false := by
        intro j under
        rw [live_doEvent]
        by_cases same : j = port
        · simp [same]
        · rw [below j (by omega), Bool.false_and]
      obtain ⟨after, ports, ran, served, distinct, members⟩ := ih next (by omega) (by omega)
      refine ⟨after, port :: ports, ran, served.cons evActions cpu, ?_, fun p => ?_⟩
      · apply List.nodup_cons.mpr
        refine ⟨fun again => ?_, distinct⟩
        have still := ((members port).mp again).2
        rw [live_doEvent] at still
        simp at still
      · rw [List.mem_cons, members, live_doEvent]
        by_cases same : p = port
        · simp [same, bound, lowest]
        · simp [same]

/-! ## The outer loop -/

theorem getLsbD_clear_ffs (word : BitVec 32) {j : Nat} (inside : j < 32) :
    (word &&& ~~~(1#32 <<< ffs word)).getLsbD j = (word.getLsbD j && !decide (j = ffs word)) := by
  rw [BitVec.getLsbD_and, BitVec.getLsbD_not, ← BitVec.twoPow_eq, BitVec.getLsbD_twoPow]
  by_cases same : j = ffs word
  · subst same
    simp [inside]
  · simp [inside, same, Ne.symm same]

theorem scanSelector_ok {wordFuel fuel : Nat} {l1 : BitVec 32} {channels after : Channels}
    (ran : scanSelector evActions cpu wordFuel fuel l1 channels = .ok after) :
    ∃ ports, Served channels after ports ∧ ∀ p ∈ ports, p < 32 := by
  induction fuel generalizing l1 channels with
  | zero => cases ran
  | succ fuel ih =>
    rw [scanSelector] at ran
    split at ran
    · cases ran
      exact ⟨[], Served.refl _, by simp⟩
    · obtain ⟨middle, word, rest⟩ := Halt.bind_eq_ok.mp ran
      obtain ⟨ports, served, low⟩ := scanWord_ok evActions cpu word
      obtain ⟨more, servedMore, lowMore⟩ := ih rest
      refine ⟨ports ++ more, served.trans servedMore, fun p member => ?_⟩
      rcases List.mem_append.mp member with here | later
      · exact low p here
      · exact lowMore p later

/-- Words whose low half has nothing to deliver are passed over. -/
theorem scanSelector_idle {wordFuel k fuel : Nat} {l1 : BitVec 32} {channels : Channels}
    (scanned : ∀ j < k, l1.getLsbD j = false) (inside : k ≤ 32) (enough : 32 < fuel + k)
    (idle : ∀ i < 32, l1.getLsbD i = true → activeEvtchns channels i = 0#32) :
    scanSelector evActions cpu (wordFuel + 1) fuel l1 channels = .ok channels := by
  induction fuel generalizing k l1 with
  | zero => omega
  | succ fuel ih =>
    rw [scanSelector]
    by_cases zero : l1 = 0#32
    · rw [if_pos zero]
    · have low := ffs_lt zero
      have selected := getLsbD_ffs zero
      have reached : k ≤ ffs l1 := by
        by_contra early
        rw [scanned (ffs l1) (by omega)] at selected
        cases selected
      rw [if_neg zero]
      dsimp only
      rw [scanWord_idle evActions cpu (idle _ low selected), Halt.ok_bind]
      have rest : ∀ j < ffs l1 + 1, (l1 &&& ~~~(1#32 <<< ffs l1)).getLsbD j = false := by
        intro j under
        rw [getLsbD_clear_ffs l1 (by omega)]
        by_cases same : j = ffs l1
        · simp [same]
        · rw [getLsbD_below_ffs (by omega), Bool.false_and]
      refine ih rest (by omega) (by omega) fun i bound still => ?_
      rw [getLsbD_clear_ffs l1 bound, Bool.and_eq_true] at still
      exact idle i bound still.1

theorem scanSelector_first {l1 : BitVec 32} {channels : Channels}
    (idle : ∀ i < 32, 0 < i → l1.getLsbD i = true → activeEvtchns channels i = 0#32) :
    ∃ after ports, scanSelector evActions cpu 33 33 l1 channels = .ok after ∧
      Served channels after ports ∧ ports.Nodup ∧
      ∀ p, p ∈ ports ↔ p < 32 ∧ live channels p = true ∧ l1.getLsbD 0 = true := by
  by_cases first : l1.getLsbD 0 = true
  · have nonzero : l1 ≠ 0#32 := by
      intro zero
      rw [zero, BitVec.getLsbD_zero] at first
      cases first
    have lowest : ffs l1 = 0 := by
      by_contra above
      rw [getLsbD_below_ffs (by omega)] at first
      cases first
    have fresh : ∀ j < 0, live channels j = false := fun j under => absurd under (Nat.not_lt_zero j)
    obtain ⟨after, ports, ran, served, distinct, members⟩ :=
      scanWord_zero evActions cpu fresh (by decide) (by decide : 32 < 33 + 0)
    have cleared : ∀ j < 1, (l1 &&& ~~~(1#32 <<< ffs l1)).getLsbD j = false := by
      intro j under
      have zero : j = 0 := by omega
      rw [getLsbD_clear_ffs l1 (by omega), lowest, zero]
      simp
    have passed : scanSelector evActions cpu 33 32 (l1 &&& ~~~(1#32 <<< ffs l1)) after =
        .ok after := by
      apply scanSelector_idle evActions cpu cleared (by decide) (by decide)
      intro i bound still
      rw [getLsbD_clear_ffs l1 bound, lowest, Bool.and_eq_true] at still
      have later : i ≠ 0 := by simpa using still.2
      have silent := (activeEvtchns_eq_zero channels i).mp (idle i bound (by omega) still.1)
      apply (activeEvtchns_eq_zero after i).mpr
      intro j low
      rw [served.live, silent j low, Bool.false_and]
    refine ⟨after, ports, ?_, served, distinct, fun p => ?_⟩
    · rw [scanSelector, if_neg nonzero]
      dsimp only
      rw [lowest, ran, Halt.ok_bind, ← lowest]
      exact passed
    · rw [members, first]
      simp
  · have clear := Bool.eq_false_of_not_eq_true first
    have cleared : ∀ j < 1, l1.getLsbD j = false := by
      intro j under
      have zero : j = 0 := by omega
      rw [zero, clear]
    have passed : scanSelector evActions cpu 33 33 l1 channels = .ok channels := by
      apply scanSelector_idle evActions cpu cleared (by decide) (by decide)
      intro i bound selected
      apply idle i bound _ selected
      apply Nat.pos_of_ne_zero
      intro zero
      rw [zero] at selected
      exact first selected
    refine ⟨channels, [], passed, Served.refl _, List.nodup_nil, fun p => ?_⟩
    rw [clear]
    simp

/-- A selected word other than the first whose low half has a live port is never
left. -/
theorem scanSelector_stuck {i wordFuel fuel : Nat} {l1 : BitVec 32} {channels : Channels}
    (bound : i < 32) (later : 0 < i) (selected : l1.getLsbD i = true)
    (busy : activeEvtchns channels i ≠ 0#32) :
    ∀ after, scanSelector evActions cpu wordFuel fuel l1 channels ≠ .ok after := by
  induction fuel generalizing l1 channels with
  | zero =>
    intro after ran
    cases ran
  | succ fuel ih =>
    intro after ran
    have nonzero : l1 ≠ 0#32 := by
      intro zero
      rw [zero, BitVec.getLsbD_zero] at selected
      cases selected
    rw [scanSelector, if_neg nonzero] at ran
    obtain ⟨middle, word, rest⟩ := Halt.bind_eq_ok.mp ran
    by_cases here : ffs l1 = i
    · rw [here, scanWord_stuck evActions cpu later wordFuel busy] at word
      cases word
    · obtain ⟨ports, served, low⟩ := scanWord_ok evActions cpu word
      apply ih _ _ after rest
      · rw [getLsbD_clear_ffs l1 bound, selected]
        simp [Ne.symm here]
      · intro silent
        apply busy
        rw [activeEvtchns_eq_zero] at silent ⊢
        intro j inside
        have outside : 64 * i + j ∉ ports := by
          intro member
          have small := low _ member
          omega
        have same := served.live (64 * i + j)
        rw [silent j inside] at same
        simpa [outside] using same.symm

/-! ## One run of the callback -/

/-- The port has its pending bit set and its mask bit clear, and the selector bit
of the word that holds it is set. -/
def Deliverable (channels : Channels) (port : Nat) : Prop :=
  port < 4096 ∧ live channels port = true ∧ bitAt channels.vcpuInfo (port / 64) = true

/-- The callback returns and has called `do_event` once for each deliverable port
and for no other. -/
def Dispatched (channels : Channels) : Prop :=
  ∃ fuel after ports, doHypervisorCallback evActions cpu fuel channels = .ok after ∧
    after.done = channels.done ++ ports ∧ ports.Nodup ∧ ∀ p, p ∈ ports ↔ Deliverable channels p

/-- What the callback starts its scan with. -/
def entered (channels : Channels) : Channels :=
  { channels with
    evtchnUpcallPending := false
    upcallCount := 1
    vcpuInfo := Function.update channels.vcpuInfo 0 0#64 }

def selector (channels : Channels) : BitVec 32 := (channels.vcpuInfo 0).setWidth 32

theorem live_entered (channels : Channels) (q : Nat) : live (entered channels) q = live channels q :=
  rfl

theorem getLsbD_selector (channels : Channels) {i : Nat} (bound : i < 32) :
    (selector channels).getLsbD i = bitAt channels.vcpuInfo i := by
  rw [selector, BitVec.getLsbD_setWidth, bitAt, Nat.div_eq_of_lt (by omega),
    Nat.mod_eq_of_lt (by omega : i < 64)]
  simp [bound]

/-- With no event arriving during the scan the callback does one round. -/
theorem doHypervisorCallback_ok {fuel : Nat} {channels after : Channels}
    (outermost : channels.upcallCount = 0) :
    doHypervisorCallback evActions cpu (fuel + 1) channels = .ok after ↔
      ∃ scanned, scanSelector evActions cpu (fuel + 1) (fuel + 1) (selector channels)
        (entered channels) = .ok scanned ∧ after = { scanned with upcallCount := 0 } := by
  have first : intAdd channels.upcallCount 1 = 1 := by
    rw [outermost]
    rfl
  rw [doHypervisorCallback, callbackLoop]
  dsimp only
  rw [if_neg (not_not_intro outermost), first]
  constructor
  · intro ran
    obtain ⟨scanned, scan, rest⟩ := Halt.bind_eq_ok.mp ran
    obtain ⟨_, served, _⟩ := scanSelector_ok evActions cpu scan
    have one : scanned.upcallCount = 1 := served.upcallCount
    rw [if_neg (not_not_intro one)] at rest
    cases rest
    exact ⟨scanned, scan, rfl⟩
  · intro ⟨scanned, scan, same⟩
    obtain ⟨_, served, _⟩ := scanSelector_ok evActions cpu scan
    have one : scanned.upcallCount = 1 := served.upcallCount
    apply Halt.bind_eq_ok.mpr
    refine ⟨scanned, scan, ?_⟩
    rw [if_neg (not_not_intro one), same]
    rfl

/-- A callback that returns has called `do_event` for ports below 32 only. -/
theorem doHypervisorCallback_low {fuel : Nat} {channels after : Channels}
    (outermost : channels.upcallCount = 0)
    (ran : doHypervisorCallback evActions cpu fuel channels = .ok after) :
    ∃ ports, after.done = channels.done ++ ports ∧ ∀ p ∈ ports, p < 32 := by
  cases fuel with
  | zero => cases ran
  | succ fuel =>
    obtain ⟨scanned, scan, same⟩ := (doHypervisorCallback_ok evActions cpu outermost).mp ran
    obtain ⟨ports, served, low⟩ := scanSelector_ok evActions cpu scan
    rw [same]
    exact ⟨ports, served.done, low⟩

theorem dispatched_of_low {channels : Channels} (outermost : channels.upcallCount = 0)
    (low : ∀ p, Deliverable channels p → p < 32) : Dispatched evActions cpu channels := by
  have idle : ∀ i < 32, 0 < i → (selector channels).getLsbD i = true →
      activeEvtchns (entered channels) i = 0#32 := by
    intro i bound later selected
    apply (activeEvtchns_eq_zero _ i).mpr
    intro j inside
    apply Bool.eq_false_of_not_eq_true
    intro busy
    rw [getLsbD_selector channels bound] at selected
    have word : (64 * i + j) / 64 = i := by omega
    have small := low (64 * i + j) ⟨by omega, busy, by rwa [word]⟩
    omega
  obtain ⟨scanned, ports, scan, served, distinct, members⟩ :=
    scanSelector_first evActions cpu idle
  refine ⟨33, _, ports, (doHypervisorCallback_ok evActions cpu outermost).mpr
    ⟨scanned, scan, rfl⟩, served.done, distinct, fun p => ?_⟩
  rw [members, live_entered, getLsbD_selector channels (by decide : 0 < 32)]
  constructor
  · intro ⟨small, busy, selected⟩
    have word : p / 64 = 0 := by omega
    exact ⟨by omega, busy, by rwa [word]⟩
  · intro deliverable
    have small := low p deliverable
    have word : p / 64 = 0 := by omega
    have selected := deliverable.2.2
    rw [word] at selected
    exact ⟨small, deliverable.2.1, selected⟩

/-- A deliverable port in the low half of a word of the selector other than the
first keeps the callback from returning. -/
theorem doHypervisorCallback_spins {channels : Channels} (outermost : channels.upcallCount = 0)
    {port : Nat} (deliverable : Deliverable channels port) (later : 64 ≤ port)
    (reached : port < 2048) (lowHalf : port % 64 < 32) (fuel : Nat) (after : Channels) :
    doHypervisorCallback evActions cpu fuel channels ≠ .ok after := by
  intro ran
  cases fuel with
  | zero => cases ran
  | succ fuel =>
    obtain ⟨scanned, scan, _⟩ := (doHypervisorCallback_ok evActions cpu outermost).mp ran
    have bound : port / 64 < 32 := by omega
    have selected := deliverable.2.2
    rw [← getLsbD_selector channels bound] at selected
    apply scanSelector_stuck evActions cpu bound (by omega) selected _ scanned scan
    intro idle
    have silent := (activeEvtchns_eq_zero _ _).mp idle (port % 64) lowHalf
    rw [show 64 * (port / 64) + port % 64 = port by omega, live_entered,
      deliverable.2.1] at silent
    cases silent

/-! ## `unmask_evtchn` -/

theorem bitAt_unmaskEvtchn {port : Nat} {channels : Channels}
    (pending : bitAt channels.evtchnPending port = true) (i : Nat) :
    bitAt (unmaskEvtchn port channels).vcpuInfo i =
      (bitAt channels.vcpuInfo i || decide (i = port >>> 5)) := by
  have set : (unmaskEvtchn port channels).vcpuInfo = setBit channels.vcpuInfo (port >>> 5) := by
    rw [unmaskEvtchn]
    dsimp only
    rw [if_pos pending]
    split
    · rfl
    split
    · rfl
    · rfl
  rw [set, bitAt_setBit (by decide)]

theorem unmaskEvtchn_selects {port : Nat} {channels : Channels}
    (pending : bitAt channels.evtchnPending port = true) :
    bitAt (unmaskEvtchn port channels).vcpuInfo (port / 64) = true ↔
      port < 32 ∨ bitAt channels.vcpuInfo (port / 64) = true := by
  have same : port / 64 = port >>> 5 ↔ port < 32 := by
    rw [Nat.shiftRight_eq_div_pow]
    omega
  rw [bitAt_unmaskEvtchn pending, Bool.or_eq_true, decide_eq_true_iff, same]
  exact or_comm

/-! ## Main result -/

/-- The callback does its work exactly when every deliverable port is below 32;
`unmask_evtchn` selects the word of its port exactly when the port is below 32 or
that word was selected before. -/
theorem dispatch_correct_iff (channels : Channels) (outermost : channels.upcallCount = 0) :
    (Dispatched evActions cpu channels ↔ ∀ p, Deliverable channels p → p < 32) ∧
      ∀ port < 4096, bitAt channels.evtchnPending port = true →
        (bitAt (unmaskEvtchn port channels).vcpuInfo (port / 64) = true ↔
          port < 32 ∨ bitAt channels.vcpuInfo (port / 64) = true) := by
  refine ⟨⟨?_, dispatched_of_low evActions cpu outermost⟩, ?_⟩
  · intro ⟨fuel, after, ports, ran, calls, _, exactly⟩ p deliverable
    obtain ⟨low, lowCalls, small⟩ := doHypervisorCallback_low evActions cpu outermost ran
    have same : ports = low := List.append_cancel_left (calls.symm.trans lowCalls)
    rw [same] at exactly
    exact small p ((exactly p).mpr deliverable)
  · intro port _ pending
    exact unmaskEvtchn_selects pending

end Callback

/-! ## Two contents of the bitmaps -/

/-- Nothing masked, and `ports` pending with the selector bits of `words` set. -/
def raised (ports words : List Nat) : Channels :=
  { evtchnPending := ports.foldl setBit fun _ => 0#64
    evtchnMask := fun _ => 0#64
    vcpuInfo := words.foldl setBit fun _ => 0#64
    evtchnUpcallPending := true
    evtchnUpcallMask := false
    upcallCount := 0
    counts := fun _ => 0
    forced := 0
    done := []
    handled := [] }

/-- Port 3 pending is delivered. -/
theorem dispatch_correct_iff_low :
    Dispatched (fun _ => ⟨none, true⟩) 0 (raised [3] [0]) ∧
      bitAt (unmaskEvtchn 3 (raised [3] [])).vcpuInfo 0 = true := by
  have correct := dispatch_correct_iff (fun _ => ⟨none, true⟩) 0 (raised [3] [0]) rfl
  have unmask := dispatch_correct_iff (fun _ => ⟨none, true⟩) 0 (raised [3] []) rfl
  refine ⟨correct.1.mpr fun p deliverable => ?_, (unmask.2 3 (by decide) (by decide)).mpr ?_⟩
  · have busy := deliverable.2.1
    rw [live, Bool.and_eq_true] at busy
    have pending : bitAt (setBit (fun _ => 0#64) 3) p = true := busy.1
    rw [bitAt_setBit (by decide)] at pending
    have three : p = 3 := by simpa [bitAt] using pending
    omega
  · exact Or.inl (by decide)

/-- Port 64 pending: the callback calls `do_event` for port 32 without end, and
unmasking the port selects word 2. -/
theorem port_64_not_dispatched :
    Deliverable (raised [64] [1]) 64 ∧
      ¬Dispatched (fun _ => ⟨none, true⟩) 0 (raised [64] [1]) ∧
      bitAt (raised [64] []).evtchnPending 64 = true ∧
      bitAt (unmaskEvtchn 64 (raised [64] [])).vcpuInfo 1 = false := by
  have deliverable : Deliverable (raised [64] [1]) 64 := ⟨by decide, by decide, by decide⟩
  refine ⟨deliverable, ?_, by decide, by decide⟩
  intro ⟨fuel, after, _, ran, _⟩
  exact doHypervisorCallback_spins _ 0 rfl deliverable (by decide) (by decide) (by decide)
    fuel after ran

end Stardust.Events
