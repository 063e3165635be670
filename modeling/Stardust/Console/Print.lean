import Mathlib.Data.List.Basic

/-! # `console_print`

It puts a carriage return and a newline over each newline and the byte after it, prints
up to there, and puts both bytes back.  What it gives to `checked_print` is the text with
each newline expanded. -/
set_option autoImplicit false
namespace Stardust.Console

def newline : UInt8 := 10

def carriageReturn : UInt8 := 13

/-- The caller's buffer, the three variables of the loop, and the calls of `checked_print`;
pointers are offsets in the buffer. -/
structure Print where
  buf : List UInt8
  currChar : Nat
  data : Nat
  length : Nat
  chunks : List (List UInt8)
  deriving DecidableEq

/-- What `checked_print(data, length)` is given. -/
def Print.part (p : Print) (length : Nat) : List UInt8 := (p.buf.drop p.data).take length

def Print.poke (p : Print) (offset : Nat) (byte : UInt8) : Print := { p with buf := p.buf.set offset byte }

/-- The body of the `if` in the loop. -/
def Print.expandLine (p : Print) : Print :=
  let savedChar := p.buf.getD (p.currChar + 1) 0
  let p : Print := (p.poke p.currChar carriageReturn).poke (p.currChar + 1) newline
  let partLen := p.currChar - p.data + 2
  let p : Print := { p with chunks := p.chunks ++ [p.part partLen] }
  let p : Print := (p.poke (p.currChar + 1) savedChar).poke p.currChar newline
  { p with data := p.currChar + 1, length := p.length - (partLen - 1) }

/-- The loop, for so many turns at most. -/
def Print.loop : Nat → Print → Print
  | 0, p => p
  | turns + 1, p =>
    if p.currChar < p.data + p.length - 1 then
      let p : Print := if p.buf.getD p.currChar 0 = newline then p.expandLine else p
      Print.loop turns { p with currChar := p.currChar + 1 }
    else p

/-- The calls of `checked_print` that a call of `console_print` makes, and the buffer
that it leaves. -/
def consolePrint (data : List UInt8) : List (List UInt8) × List UInt8 :=
  let p := Print.loop data.length ⟨data, 0, 0, data.length, []⟩
  let last :=
    if p.buf.getD (p.data + p.length - 1) 0 = newline then
      [p.part (p.length - 1), [carriageReturn, newline]]
    else [p.part p.length]
  (p.chunks ++ last, p.buf)

/-- Each newline becomes a carriage return and a newline. -/
def expandNewlines (text : List UInt8) : List UInt8 :=
  text.flatMap fun c => if c = newline then [carriageReturn, newline] else [c]

section Spec
variable {p : Print} {xs ys printed mid rest : List UInt8} {c : UInt8}

@[simp] theorem expandNewlines_append :
    expandNewlines (xs ++ ys) = expandNewlines xs ++ expandNewlines ys := by
  unfold expandNewlines
  exact List.flatMap_append

theorem expandNewlines_plain (plain : newline ∉ xs) : expandNewlines xs = xs := by
  induction xs with
  | nil => rfl
  | cons c rest ih =>
    have other : c ≠ newline := fun same => plain (same ▸ List.mem_cons_self)
    have tail := ih fun member => plain (List.mem_cons_of_mem c member)
    unfold expandNewlines at tail ⊢
    rw [List.flatMap_cons, if_neg other, tail, List.singleton_append]

@[simp] theorem expandNewlines_newline : expandNewlines [newline] = [carriageReturn, newline] := rfl

/-- `printed` has gone to `checked_print`, and `mid` without a newline is passed. -/
structure Scanned (p : Print) (printed mid rest : List UInt8) : Prop where
  buf : p.buf = printed ++ mid ++ rest
  data : p.data = printed.length
  currChar : p.currChar = printed.length + mid.length
  length : p.length = mid.length + rest.length
  chunks : p.chunks.flatten = expandNewlines printed
  plain : newline ∉ mid

theorem Scanned.expandLine (inv : Scanned p printed mid (newline :: c :: rest)) :
    Scanned { p.expandLine with currChar := p.currChar + 1 } (printed ++ mid ++ [newline]) []
      (c :: rest) := by
  obtain ⟨buf, data, currChar, length, chunks, plain⟩ := inv
  have saved : p.buf.getD (p.currChar + 1) 0 = c := by
    rw [buf, currChar, List.getD_eq_getElem?_getD, List.getElem?_append_right (by simp)]
    simp
  have patched : (p.buf.set p.currChar carriageReturn).set (p.currChar + 1) newline =
      printed ++ (mid ++ [carriageReturn, newline]) ++ rest := by
    rw [buf, currChar, ← List.length_append, List.set_append_right _ _ (Nat.le_refl _),
      List.set_append_right _ _ (Nat.le_succ _)]
    simp
  have restored : ((printed ++ (mid ++ [carriageReturn, newline]) ++ rest).set (p.currChar + 1) c).set
      p.currChar newline = printed ++ mid ++ [newline] ++ c :: rest := by
    have shape : printed ++ (mid ++ [carriageReturn, newline]) ++ rest =
        (printed ++ mid) ++ carriageReturn :: newline :: rest := by simp
    rw [shape, currChar, ← List.length_append, List.set_append_right _ _ (Nat.le_succ _),
      List.set_append_right _ _ (Nat.le_refl _)]
    simp
  have part : ((printed ++ (mid ++ [carriageReturn, newline]) ++ rest).drop p.data).take
      (p.currChar - p.data + 2) = mid ++ [carriageReturn, newline] := by
    rw [data, currChar, List.append_assoc, List.drop_left, Nat.add_sub_cancel_left]
    exact List.take_left' (by simp)
  unfold Print.expandLine Print.poke Print.part
  dsimp only
  rw [saved, patched, restored, part]
  refine ⟨?_, ?_, ?_, ?_, ?_, nofun⟩
  · simp
  · simp only [currChar, List.length_append, List.length_singleton]
  · simp [currChar, Nat.add_assoc]
  · simp only [length, currChar, data, List.length_cons, List.length_nil]
    omega
  · rw [List.flatten_append, chunks]
    simp [expandNewlines_plain plain]

theorem Scanned.pass (inv : Scanned p printed mid (c :: rest)) (other : c ≠ newline) :
    Scanned { p with currChar := p.currChar + 1 } printed (mid ++ [c]) rest := by
  obtain ⟨buf, data, currChar, length, chunks, plain⟩ := inv
  refine ⟨?_, data, ?_, ?_, chunks, ?_⟩
  · simp [buf]
  · simp [currChar, Nat.add_assoc]
  · simp only [length, List.length_append, List.length_cons, List.length_nil]
    omega
  · intro member
    rcases List.mem_append.mp member with before | last
    · exact plain before
    · exact other (List.mem_singleton.mp last).symm

/-- The loop stops before the last byte. -/
theorem Scanned.loop {turns : Nat} (inv : Scanned p printed mid rest) (some : rest ≠ [])
    (enough : rest.length ≤ turns + 1) : ∃ done passed last,
      Scanned (Print.loop turns p) done passed [last] ∧ done ++ passed ++ [last] = printed ++ mid ++ rest := by
  induction turns generalizing p printed mid rest with
  | zero =>
    obtain ⟨last, rfl⟩ := List.length_eq_one_iff.mp
      (Nat.le_antisymm enough (List.length_pos_of_ne_nil some))
    exact ⟨printed, mid, last, inv, rfl⟩
  | succ turns ih =>
    have limit := inv.length
    have curr := inv.currChar
    have data := inv.data
    cases rest with
    | nil => exact absurd rfl some
    | cons c tail =>
      rw [List.length_cons] at limit enough
      rw [Print.loop]
      cases tail with
      | nil =>
        rw [List.length_nil] at limit
        rw [if_neg (by omega)]
        exact ⟨printed, mid, c, inv, rfl⟩
      | cons next tail =>
        rw [List.length_cons] at limit enough
        rw [if_pos (by omega)]
        have here : p.buf.getD p.currChar 0 = c := by
          rw [inv.buf, curr, List.getD_eq_getElem?_getD, List.getElem?_append_right (by simp)]
          simp
        rw [here]
        by_cases line : c = newline
        · subst line
          rw [if_pos rfl]
          have expanded := inv.expandLine
          have same : p.expandLine.currChar = p.currChar := rfl
          dsimp only
          rw [same]
          obtain ⟨done, passed, last, final, all⟩ := ih expanded (List.cons_ne_nil next tail) (by
            rw [List.length_cons]
            omega)
          exact ⟨done, passed, last, final, by simpa using all⟩
        · rw [if_neg line]
          obtain ⟨done, passed, last, final, all⟩ := ih (inv.pass line) (List.cons_ne_nil next tail) (by
            rw [List.length_cons]
            omega)
          exact ⟨done, passed, last, final, by simpa using all⟩

/-- `console_print` prints the expanded text and leaves the buffer as it was. -/
theorem consolePrint_spec {data : List UInt8} (some : data ≠ []) :
    (consolePrint data).1.flatten = expandNewlines data ∧ (consolePrint data).2 = data := by
  have start : Scanned ⟨data, 0, 0, data.length, []⟩ [] [] data :=
    ⟨rfl, rfl, rfl, (Nat.zero_add _).symm, rfl, nofun⟩
  obtain ⟨done, passed, last, final, all⟩ := start.loop some (Nat.le_succ _)
  rw [List.nil_append, List.nil_append] at all
  unfold consolePrint
  generalize Print.loop data.length ⟨data, 0, 0, data.length, []⟩ = p at final
  obtain ⟨buf, begin, _, length, chunks, plain⟩ := final
  have remains : p.buf.drop p.data = passed ++ [last] := by
    rw [buf, begin, List.append_assoc, List.drop_left]
  have final : p.buf.getD (p.data + p.length - 1) 0 = last := by
    rw [buf, begin, length, List.getD_eq_getElem?_getD, List.getElem?_append_right (by simp)]
    simp
  have whole : p.part p.length = passed ++ [last] := by
    rw [Print.part, remains, length, List.take_of_length_le]
    simp
  have short : p.part (p.length - 1) = passed := by
    rw [Print.part, remains, length, List.length_singleton, Nat.add_sub_cancel, List.take_left]
  dsimp only
  rw [final, whole, short]
  constructor
  · rw [List.flatten_append, chunks, ← all]
    simp only [expandNewlines_append, expandNewlines_plain plain, List.append_assoc]
    by_cases line : last = newline
    · rw [if_pos line, line]
      simp
    · have single : expandNewlines [last] = [last] := by
        apply expandNewlines_plain
        intro member
        exact line (List.mem_singleton.mp member).symm
      rw [if_neg line, single]
      simp
  · rw [buf, all]

end Spec

end Stardust.Console
