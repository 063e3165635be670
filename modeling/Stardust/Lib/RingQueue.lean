import Stardust.Lib.Ring

/-! # A queue between two counters

The counters run freely and wrap at `wrap`, a multiple of the ring's size; what lies
between them in the ring is the queue. -/
set_option autoImplicit false
namespace Stardust.Lib

universe u

variable {α : Type u}

structure RingQueue (wrap size : Nat) (ring : Nat → α) (cons prod : Nat) (content : List α) : Prop where
  range : cons < wrap
  counter : prod = (cons + content.length) % wrap
  fits : content.length ≤ size
  read : ringRead ring size cons content.length = content

section Rules
variable {wrap size cons prod n : Nat} {ring : Nat → α} {content : List α}

/-- The difference of the counters, when it is at most the size. -/
theorem RingQueue.of_counters {used : Nat} (range : cons < wrap) (counter : prod = (cons + used) % wrap)
    (fits : used ≤ size) : RingQueue wrap size ring cons prod (ringRead ring size cons used) := by
  refine ⟨range, ?_, ?_, ?_⟩
  · rw [ringRead_length]
    exact counter
  · rw [ringRead_length]
    exact fits
  · rw [ringRead_length]

theorem RingQueue.cell (queue : RingQueue wrap size ring cons prod content) (laps : size ∣ wrap)
    (less : n < content.length) : content[n]? = some (ring ((cons + n) % wrap % size)) := by
  have read : (ringRead ring size cons content.length)[n]? = _ := ringRead_get less
  rw [queue.read] at read
  rw [Nat.mod_mod_of_dvd _ laps]
  exact read

theorem RingQueue.push (queue : RingQueue wrap size ring cons prod content) (laps : size ∣ wrap)
    (room : content.length < size) (b : α) :
    RingQueue wrap size (Function.update ring (prod % size) b) cons ((prod + 1) % wrap) (content ++ [b]) := by
  have length : (content ++ [b]).length = content.length + 1 := List.length_append
  refine ⟨queue.range, ?_, ?_, ?_⟩
  · rw [queue.counter, length, Nat.mod_add_mod, Nat.add_assoc]
  · rw [length]
    exact room
  · rw [queue.counter, Nat.mod_mod_of_dvd _ laps, length, ringRead_push room, queue.read]

theorem RingQueue.take (queue : RingQueue wrap size ring cons prod content) (least : n ≤ content.length) :
    RingQueue wrap size ring cons ((cons + n) % wrap) (content.take n) := by
  have length : (content.take n).length = n := List.length_take_of_le least
  have fits := queue.fits
  refine ⟨queue.range, by rw [length], by omega, ?_⟩
  have part : (ringRead ring size cons content.length).take n = _ := ringRead_take least
  rw [queue.read] at part
  rw [length, part]

theorem RingQueue.drop (queue : RingQueue wrap size ring cons prod content) (laps : size ∣ wrap)
    (least : n ≤ content.length) :
    RingQueue wrap size ring ((cons + n) % wrap) prod (content.drop n) := by
  have fits := queue.fits
  have rest : content.length = n + (content.length - n) := by omega
  have parts := queue.read
  rw [rest, ringRead_add] at parts
  refine ⟨Nat.mod_lt _ (Nat.zero_lt_of_lt queue.range), ?_, ?_, ?_⟩
  · rw [queue.counter, List.length_drop, Nat.mod_add_mod]
    congr 1
    omega
  · rw [List.length_drop]
    omega
  · have lap : (cons + n) % wrap ≡ cons + n [MOD size] := Nat.mod_mod_of_dvd _ laps
    rw [List.length_drop, ringRead_lap lap]
    have behind := congrArg (List.drop n) parts
    rw [List.drop_left' ringRead_length] at behind
    exact behind

end Rules

end Stardust.Lib
