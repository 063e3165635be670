import Stardust.Libc.PrintedText

/-! # Truncation

Every directive, also one that ends early, is read without going past the NUL of the format,
and what is put out does not depend on the buffer.  So `vsnprintf` stores a prefix of it. -/
set_option autoImplicit false
namespace Stardust.Libc

open Stardust.Lib

/-! ## Reading the format -/

section Reading
variable {fmt : CString} {args : Nat → Arg} {i k fuel : Nat}

theorem CString.at_ok (fmt : CString) (inside : i ≤ fmt.bytes.length) :
    ∃ c, fmt.at i = .ok c ∧ (c = 0 ↔ i = fmt.bytes.length) := by
  unfold CString.at
  rcases Nat.lt_or_eq_of_le inside with before | rfl
  · have entry : (fmt.bytes ++ [0])[i]? = some fmt.bytes[i] := by
      rw [List.getElem?_append_left before, List.getElem?_eq_getElem before]
    rw [entry]
    refine ⟨_, rfl, iff_of_false ?_ (Nat.ne_of_lt before)⟩
    intro zero
    exact fmt.noNul (zero ▸ List.getElem_mem before)
  · rw [List.getElem?_append_right (Nat.le_refl _), Nat.sub_self]
    exact ⟨0, rfl, iff_of_true rfl rfl⟩

/-- A character other than the NUL is before the end. -/
theorem CString.next (fmt : CString) {c : UInt8} (inside : i ≤ fmt.bytes.length) (read : fmt.at i = .ok c)
    (some_ : c ≠ 0) : i + 1 ≤ fmt.bytes.length := by
  obtain ⟨d, same, zero⟩ := fmt.at_ok inside
  cases read.symm.trans same
  have notEnd := mt zero.mpr some_
  omega

theorem isdigit_ne_zero {c : UInt8} (digit : isdigit c = true) : c ≠ 0 := by
  rintro rfl
  exact absurd digit (by decide +kernel)

theorem flagsLoop_ok (flags : Flags) (inside : i + 1 ≤ fmt.bytes.length) (enough : fmt.bytes.length - i ≤ fuel) :
    ∃ flags' i', flagsLoop fmt fuel i flags = .ok (flags', i') ∧ i < i' ∧ i' ≤ fmt.bytes.length := by
  induction fuel generalizing i flags with
  | zero => omega
  | succ fuel ih =>
    obtain ⟨c, read, _⟩ := fmt.at_ok inside
    rw [flagsLoop, read, Halt.ok_bind]
    have again : ∀ {flag : UInt8} (flags : Flags), flag ≠ 0 → c = flag → ∃ flags' i',
        flagsLoop fmt fuel (i + 1) flags = .ok (flags', i') ∧ i < i' ∧ i' ≤ fmt.bytes.length := by
      intro flag flags some_ same
      obtain ⟨flags', i', run, later, within⟩ := ih flags (fmt.next inside read (by rwa [same])) (by omega)
      exact ⟨flags', i', run, by omega, within⟩
    split_ifs with left plus space special zero
    · exact again _ (by decide) left
    · exact again _ (by decide) plus
    · exact again _ (by decide) space
    · exact again _ (by decide) special
    · exact again _ (by decide) zero
    · exact ⟨flags, i + 1, rfl, Nat.lt_succ_self i, inside⟩

theorem skipAtoi_ok {value : Int} (isValue : IsInt value) (inside : i ≤ fmt.bytes.length)
    (enough : fmt.bytes.length - i < fuel) :
    ∃ value' i', skipAtoi fmt fuel i value = .ok (value', i') ∧ i ≤ i' ∧ i' ≤ fmt.bytes.length ∧ IsInt value' := by
  induction fuel generalizing i value with
  | zero => omega
  | succ fuel ih =>
    obtain ⟨c, read, _⟩ := fmt.at_ok inside
    rw [skipAtoi, read, Halt.ok_bind]
    by_cases digit : isdigit c = true
    · have next := fmt.next inside read (isdigit_ne_zero digit)
      obtain ⟨value', i', run, later, within, isValue'⟩ :=
        ih (bmod_isInt (value * 10 + charValue c - 48)) next (by omega)
      rw [if_pos digit]
      exact ⟨value', i', run, by omega, within, isValue'⟩
    · rw [if_neg digit]
      exact ⟨value, i, rfl, Nat.le_refl i, inside, isValue⟩

/-- A directive that has been read up to somewhere from `low` on in the format. -/
structure Directive.Within (fmt : CString) (low : Nat) (d : Directive) : Prop where
  low : low ≤ d.i
  high : d.i ≤ fmt.bytes.length
  width : IsInt d.fieldWidth
  precision : IsInt d.precision

theorem atLeastZero_isInt {value : Int} (isValue : IsInt value) : IsInt (atLeastZero value) := by
  unfold IsInt atLeastZero at *
  split <;> omega

variable {d : Directive} {low : Nat}

theorem readWidth_ok (args : Nat → Arg) (within : d.Within fmt low) :
    ∃ d', readWidth fmt args d = .ok d' ∧ d'.Within fmt low := by
  obtain ⟨atLeast, high, width, precision⟩ := within
  obtain ⟨c, read, _⟩ := fmt.at_ok high
  rw [readWidth, read, Halt.ok_bind]
  by_cases digit : isdigit c = true
  · obtain ⟨value, i, run, later, inside, isValue⟩ :=
      skipAtoi_ok isInt_zero high (by unfold fuelOf; omega : _ < fuelOf fmt)
    rw [if_pos digit, run, Halt.ok_bind]
    exact ⟨_, rfl, ⟨Nat.le_trans atLeast later, inside, isValue, precision⟩⟩
  · rw [if_neg digit]
    by_cases star : c = byte '*'
    · have next := fmt.next high read (by rw [star]; decide)
      rw [if_pos star]
      by_cases negative : (args d.k).int < 0
      · exact ⟨_, if_pos negative, ⟨Nat.le_succ_of_le atLeast, next, intSub_isInt _ _, precision⟩⟩
      · exact ⟨_, if_neg negative, ⟨Nat.le_succ_of_le atLeast, next, Arg.int_isInt _, precision⟩⟩
    · rw [if_neg star]
      exact ⟨d, rfl, ⟨atLeast, high, width, precision⟩⟩

theorem readPrecision_ok (args : Nat → Arg) (within : d.Within fmt low) :
    ∃ d', readPrecision fmt args d = .ok d' ∧ d'.Within fmt low := by
  obtain ⟨atLeast, high, width, precision⟩ := within
  obtain ⟨c, read, _⟩ := fmt.at_ok high
  rw [readPrecision, read, Halt.ok_bind]
  by_cases point : c = byte '.'
  · have next := fmt.next high read (by rw [point]; decide)
    obtain ⟨c', read', _⟩ := fmt.at_ok next
    rw [if_pos point, read', Halt.ok_bind]
    by_cases digit : isdigit c' = true
    · obtain ⟨value, i, run, later, inside, isValue⟩ :=
        skipAtoi_ok isInt_zero next (by unfold fuelOf; omega : _ < fuelOf fmt)
      rw [if_pos digit, run, Halt.ok_bind]
      exact ⟨_, rfl, ⟨by dsimp only; omega, inside, width, atLeastZero_isInt isValue⟩⟩
    · rw [if_neg digit]
      by_cases star : c' = byte '*'
      · have behind := fmt.next next read' (by rw [star]; decide)
        rw [if_pos star]
        exact ⟨_, rfl, ⟨by dsimp only; omega, behind, width, atLeastZero_isInt (Arg.int_isInt _)⟩⟩
      · rw [if_neg star]
        exact ⟨_, rfl, ⟨Nat.le_succ_of_le atLeast, next, width, atLeastZero_isInt precision⟩⟩
  · rw [if_neg point]
    exact ⟨d, rfl, ⟨atLeast, high, width, precision⟩⟩

theorem readQualifier_ok (within : d.Within fmt low) : ∃ d', readQualifier fmt d = .ok d' ∧ d'.Within fmt low := by
  -- the first part, and then a `q`
  have moved : ∀ {i' : Nat} (qualifier : Qualifier), d.i ≤ i' → i' ≤ fmt.bytes.length →
      Directive.Within fmt low { d with qualifier, i := i' } := fun _ later inside =>
    ⟨Nat.le_trans within.low later, inside, within.width, within.precision⟩
  have last : ∀ {d' : Directive}, d'.Within fmt low → ∃ d'', (do
      let c ← fmt.at d'.i
      if c = byte 'q' then .ok { d' with qualifier := .longLong, i := d'.i + 1 } else .ok d') = .ok d'' ∧
        d''.Within fmt low := by
    intro d' within'
    obtain ⟨c, read, _⟩ := fmt.at_ok within'.high
    rw [read, Halt.ok_bind]
    by_cases quad : c = byte 'q'
    · have next := fmt.next within'.high read (by rw [quad]; decide)
      exact ⟨_, if_pos quad, ⟨Nat.le_succ_of_le within'.low, next, within'.width, within'.precision⟩⟩
    · exact ⟨_, if_neg quad, within'⟩
  obtain ⟨c, read, _⟩ := fmt.at_ok within.high
  rw [readQualifier, read, Halt.ok_bind]
  have next : ∀ {flag : UInt8}, flag ≠ 0 → c = flag → d.i + 1 ≤ fmt.bytes.length := fun some_ same =>
    fmt.next within.high read (by rwa [same])
  split_ifs with short long large size
  · exact last (moved .short (Nat.le_succ _) (next (by decide) short))
  · have inside := next (by decide) long
    obtain ⟨c', read', _⟩ := fmt.at_ok inside
    rw [read', Halt.ok_bind]
    by_cases both : c' = byte 'l'
    · rw [if_pos both]
      exact last (moved .longLong (by omega) (fmt.next inside read' (by rw [both]; decide)))
    · rw [if_neg both]
      exact last (moved .long (Nat.le_succ _) inside)
  · exact last (moved .longLong (Nat.le_succ _) (next (by decide) large))
  · exact last (moved .size (Nat.le_succ _) (next (by decide) size))
  · exact last within

/-- A directive is read to its last character, or to the NUL where it is missing. -/
theorem directive_ok (inside : i + 1 ≤ fmt.bytes.length) :
    ∃ d, directive fmt args i k = .ok d ∧ d.Within fmt (i + 1) := by
  obtain ⟨flags, i', run, later, within⟩ :=
    flagsLoop_ok {} inside (by unfold fuelOf; omega : fmt.bytes.length - i ≤ fuelOf fmt)
  rw [directive, run, Halt.ok_bind]
  have start : Directive.Within fmt (i + 1)
      { flags, fieldWidth := -1, precision := -1, qualifier := .none, i := i', k } :=
    ⟨later, within, isInt_neg_one, isInt_neg_one⟩
  obtain ⟨d, readD, withinD⟩ := readWidth_ok args start
  obtain ⟨d', readD', withinD'⟩ := readPrecision_ok args withinD
  dsimp only
  rw [readD, Halt.ok_bind, readD', Halt.ok_bind]
  exact readQualifier_ok withinD'

/-- Every format has a text. -/
theorem textLoop_ok (args : Nat → Arg) (inside : i ≤ fmt.bytes.length) (enough : fmt.bytes.length - i < fuel) :
    ∃ text, textLoop fmt args fuel i k = .ok text := by
  induction fuel generalizing i k with
  | zero => omega
  | succ fuel ih =>
    obtain ⟨c, read, zero⟩ := fmt.at_ok inside
    rw [textLoop, read, Halt.ok_bind]
    by_cases last : c = 0
    · exact ⟨[], if_pos last⟩
    · have next := fmt.next inside read last
      rw [if_neg last]
      by_cases plain : c ≠ byte '%'
      · obtain ⟨rest, run⟩ := @ih (i + 1) k next (by omega)
        rw [if_pos plain, run]
        exact ⟨c :: rest, rfl⟩
      · obtain ⟨d, parsed, within⟩ := @directive_ok fmt args i k next
        obtain ⟨c', read', zero'⟩ := fmt.at_ok within.high
        have low := within.low
        rw [if_neg plain, parsed, Halt.ok_bind, read', Halt.ok_bind]
        have behind : (if c' = 0 then d.i else d.i + 1) ≤ fmt.bytes.length ∧
            i + 1 ≤ (if c' = 0 then d.i else d.i + 1) := by
          split
          · exact ⟨within.high, low⟩
          · exact ⟨fmt.next within.high read' ‹_›, by omega⟩
        obtain ⟨rest, run⟩ := @ih (if c' = 0 then d.i else d.i + 1) (d.k + argsTaken c') behind.1 (by omega)
        rw [run]
        exact ⟨_, rfl⟩

theorem output_ok (fmt : CString) (args : Nat → Arg) : ∃ text, output fmt args = .ok text :=
  textLoop_ok args (Nat.zero_le _) (Nat.lt_succ_self fmt.bytes.length)

/-- The loop puts out the text, wherever the cursor and the end of the buffer are. -/
theorem formatLoop_eq (buf : Nat) (inside : i ≤ fmt.bytes.length) {text : List UInt8}
    (run : textLoop fmt args fuel i k = .ok text) (p : Printing) :
    ∃ counts, formatLoop buf fmt args fuel i k p = .ok { out := p.out.emit text, counts } := by
  induction fuel generalizing i k text p with
  | zero => cases run
  | succ fuel ih =>
    obtain ⟨c, read, zero⟩ := fmt.at_ok inside
    rw [textLoop, read, Halt.ok_bind] at run
    rw [formatLoop, read, Halt.ok_bind]
    by_cases last : c = 0
    · rw [if_pos last] at run ⊢
      cases run
      exact ⟨p.counts, rfl⟩
    · have next := fmt.next inside read last
      rw [if_neg last] at run ⊢
      by_cases plain : c ≠ byte '%'
      · rw [if_pos plain] at run ⊢
        obtain ⟨rest, runRest, same⟩ := Halt.bind_eq_ok.mp run
        cases same
        exact ih next runRest (p.put c)
      · obtain ⟨d, parsed, within⟩ := @directive_ok fmt args i k next
        obtain ⟨c', read', zero'⟩ := fmt.at_ok within.high
        rw [if_neg plain, parsed, Halt.ok_bind, read', Halt.ok_bind] at run ⊢
        obtain ⟨rest, runRest, same⟩ := Halt.bind_eq_ok.mp run
        cases same
        have goesOn : ∀ {taken : Nat} {own : List UInt8} {p' : Printing}, specifierOf c' ≠ .other →
            argsTaken c' = taken → conversionText c' d (args d.k) = own → p'.out = p.out.emit own →
            ∃ counts, formatLoop buf fmt args fuel (d.i + 1) (d.k + taken) p' =
              .ok { out := p.out.emit (conversionText c' d (args d.k) ++ rest), counts } := by
          intro taken own p' known takes texts puts
          have some_ : c' ≠ 0 := by
            rintro rfl
            exact known (by decide)
          rw [if_neg some_, takes] at runRest
          obtain ⟨counts, done⟩ := ih (fmt.next within.high read' some_) runRest p'
          refine ⟨counts, ?_⟩
          rw [done, puts, texts, Out.emit_append]
        cases known : specifierOf c' with
        | char =>
          exact goesOn (by rw [known]; decide) (by rw [argsTaken, known]) (by rw [conversionText, known]) printChar_eq
        | string =>
          exact goesOn (by rw [known]; decide) (by rw [argsTaken, known]) (by rw [conversionText, known])
            (printString_eq within.width)
        | pointer =>
          exact goesOn (by rw [known]; decide) (by rw [argsTaken, known]) (by rw [conversionText, known])
            (printPointer_eq within.precision)
        | count =>
          exact goesOn (by rw [known]; decide) (by rw [argsTaken, known]) (by rw [conversionText, known])
            (Out.emit_nil _).symm
        | percent =>
          exact goesOn (by rw [known]; decide) (by rw [argsTaken, known]) (by rw [conversionText, known])
            (show (p.put (byte '%')).out = p.out.emit [byte '%'] from rfl)
        | integer base sign large =>
          exact goesOn (by rw [known]; nofun) (by rw [argsTaken, known]) (by rw [conversionText, known])
            (printInteger_eq base sign large within.precision)
        | other =>
          rw [argsTaken, known] at runRest
          rw [conversionText, known]
          dsimp only
          by_cases ends : c' = 0
          · have low := within.low
            rw [if_pos ends] at runRest
            obtain ⟨counts, done⟩ := ih within.high runRest (p.put (byte '%'))
            refine ⟨counts, ?_⟩
            rw [if_neg (not_not_intro ends), if_neg (not_not_intro ends), Nat.sub_add_cancel (by omega)]
            exact done
          · rw [if_neg ends] at runRest
            obtain ⟨counts, done⟩ := ih (fmt.next within.high read' ends) runRest ((p.put (byte '%')).put c')
            refine ⟨counts, ?_⟩
            rw [if_pos ends, if_pos ends]
            exact done

end Reading

/-! ## The buffer -/

/-- A text and its NUL, from `buf` on. -/
def storedText (buf : Nat) (text : List UInt8) (a : Nat) : Option UInt8 :=
  if buf ≤ a then (text ++ [0])[a - buf]? else none

/-- The text is cut to the size, with a NUL behind it, and nothing else is stored. -/
structure Truncates (buf size : Nat) (text : List UInt8) (printed : Printed) : Prop where
  ret : printed.ret = text.length
  empty : size = 0 → ∀ a, printed.stored a = none
  stored : 1 ≤ size → ∀ a, printed.stored a = storedText buf (text.take (size - 1)) a

section Buffer
variable {buf size last : Nat} {text : List UInt8} {a : Nat}

/-- In a buffer that ends below the top of the address space `end` is its last byte. -/
theorem boundsOf_inside (some_ : buf ≠ 0) (below : buf + size < 2 ^ 64) :
    boundsOf buf size = (buf + size - 1, size) := by
  have last : ulongSub (ulongAdd buf size) 1 = buf + size - 1 := by
    unfold ulongSub ulongAdd
    omega
  have before : ulongSub buf 1 = buf - 1 := by
    unfold ulongSub
    omega
  unfold boundsOf
  rw [last, before]
  exact if_neg (by omega)

/-- In any other it is the top, as it is for a null pointer. -/
theorem boundsOf_top (isBuf : buf < 2 ^ 64) (isSize : size < 2 ^ 64) (top : buf = 0 ∨ 2 ^ 64 ≤ buf + size) :
    (boundsOf buf size).1 = 2 ^ 64 - 1 := by
  unfold boundsOf
  by_cases around : ulongSub (ulongAdd buf size) 1 < ulongSub buf 1
  · simp only [around, if_true]
  · simp only [around, if_false]
    unfold ulongSub ulongAdd at around ⊢
    omega

theorem boundsOf_least (isBuf : buf < 2 ^ 64) : buf - 1 ≤ (boundsOf buf size).1 := by
  unfold boundsOf
  by_cases around : ulongSub (ulongAdd buf size) 1 < ulongSub buf 1
  · simp only [around, if_true]
    omega
  · simp only [around, if_false]
    unfold ulongSub at *
    omega

theorem ret_eq_iff :
    intOfUlong (ulongSub ((buf + text.length) % 2 ^ 64) buf) = text.length ↔ text.length < 2 ^ 31 := by
  have distance : ulongSub ((buf + text.length) % 2 ^ 64) buf = text.length % 2 ^ 64 := by
    unfold ulongSub
    omega
  rw [distance]
  constructor
  · intro same
    have range := (intOfUlong_isInt (text.length % 2 ^ 64)).2
    rw [same] at range
    omega
  · intro short
    rw [Nat.mod_eq_of_lt (by omega)]
    exact intOfUlong_eq short

theorem storedText_end (buf : Nat) (text : List UInt8) : storedText buf text (buf + text.length) = some 0 := by
  unfold storedText
  rw [if_pos (Nat.le_add_right ..), Nat.add_sub_cancel_left, List.getElem?_append_right (Nat.le_refl _), Nat.sub_self]
  rfl

theorem storedText_before (below : a < buf) : storedText buf text a = none := if_neg (Nat.not_le.mpr below)

theorem storedText_inside (low : buf ≤ a) (high : a < buf + text.length) :
    storedText buf text a = text[a - buf]? := by
  unfold storedText
  rw [if_pos low, List.getElem?_append_left (by omega)]

theorem storedText_behind (behind : buf + text.length < a) : storedText buf text a = none := by
  unfold storedText
  rw [if_pos (by omega), List.getElem?_append_right (by omega), List.getElem?_eq_none]
  rw [List.length_singleton]
  omega

/-- The bytes of a text and a NUL at its end are the text as it is stored. -/
theorem update_eq_storedText {cells : Nat → Option UInt8}
    (own : ∀ a, a ≠ buf + text.length → cells a = if buf ≤ a ∧ a < buf + text.length then text[a - buf]? else none)
    (a : Nat) : Function.update cells (buf + text.length) (some 0) a = storedText buf text a := by
  by_cases here : a = buf + text.length
  · rw [here, Function.update_self, storedText_end]
  · rw [Function.update_of_ne here, own a here]
    by_cases inside : buf ≤ a ∧ a < buf + text.length
    · rw [if_pos inside, storedText_inside inside.1 inside.2]
    · rw [if_neg inside]
      rcases Nat.lt_or_ge a buf with before | behind
      · exact (storedText_before before).symm
      · exact (storedText_behind (by omega)).symm

theorem startOf_last : ((startOf buf last).emit text).last = last := GuardedWriter.emit_last ..

theorem printed_of {run : Except Halt Printed} {stored : Nat → Option UInt8} (counts : List Count)
    {ret : Int} (done : run = .ok { stored, counts, ret }) :
    ∃ printed, run = .ok printed ∧ printed.stored = stored ∧ printed.ret = ret := ⟨_, done, rfl, rfl⟩

theorem vsnprintf_eq (buf size : Nat) {fmt : CString} {args : Nat → Arg} (run : output fmt args = .ok text) :
    ∃ printed, vsnprintf buf size fmt args = .ok printed ∧
      printed.stored = terminated ((startOf buf (boundsOf buf size).1).emit text) (boundsOf buf size).2 ∧
      printed.ret = intOfUlong (ulongSub ((startOf buf (boundsOf buf size).1).emit text).cursor buf) := by
  obtain ⟨counts, done⟩ :=
    formatLoop_eq buf (Nat.zero_le _) run { out := startOf buf (boundsOf buf size).1, counts := [] }
  refine printed_of counts ?_
  simp only [vsnprintf, done, Halt.ok_bind]

theorem startOf_cursor (isBuf : buf < 2 ^ 64) :
    ((startOf buf last).emit text).cursor = (buf + text.length) % 2 ^ 64 := GuardedWriter.emit_cursor _ _ isBuf

theorem startOf_cells (fits : buf + text.length ≤ 2 ^ 64) (a : Nat) : ((startOf buf last).emit text).cells a =
    if buf ≤ a ∧ a < buf + text.length ∧ a ≤ last then text[a - buf]? else none :=
  GuardedWriter.emit_cells _ _ fits a

/-- Text that is let through to the end of the address space is stored whole. -/
theorem terminated_top (fits : buf + text.length < 2 ^ 64) (a : Nat) :
    terminated ((startOf buf (2 ^ 64 - 1)).emit text) size a = storedText buf text a := by
  have cursor : ((startOf buf (2 ^ 64 - 1)).emit text).cursor = buf + text.length := by
    rw [startOf_cursor (by omega), Nat.mod_eq_of_lt fits]
  unfold terminated
  rw [startOf_last, cursor, if_pos (by omega)]
  refine update_eq_storedText (fun other _ => ?_) a
  rw [startOf_cells (by omega)]
  by_cases inside : buf ≤ other ∧ other < buf + text.length
  · rw [if_pos inside, if_pos ⟨inside.1, inside.2, by omega⟩]
  · rw [if_neg inside, if_neg fun all => inside ⟨all.1, all.2.1⟩]

/-- In a buffer the text is cut. -/
theorem terminated_inside (some_ : buf ≠ 0) (fits : buf + text.length < 2 ^ 64) (a : Nat) :
    terminated ((startOf buf (buf + size - 1)).emit text) size a =
      if size = 0 then none else storedText buf (text.take (size - 1)) a := by
  have cursor : ((startOf buf (buf + size - 1)).emit text).cursor = buf + text.length := by
    rw [startOf_cursor (by omega), Nat.mod_eq_of_lt fits]
  unfold terminated
  rw [startOf_last, cursor]
  by_cases whole : text.length < size
  · rw [if_pos (by omega), if_neg (by omega), List.take_of_length_le (by omega)]
    refine update_eq_storedText (fun other _ => ?_) a
    rw [startOf_cells (by omega)]
    by_cases inside : buf ≤ other ∧ other < buf + text.length
    · rw [if_pos inside, if_pos ⟨inside.1, inside.2, by omega⟩]
    · rw [if_neg inside, if_neg fun all => inside ⟨all.1, all.2.1⟩]
  · rw [if_neg (by omega)]
    by_cases none_ : size = 0
    · rw [if_neg (by omega), if_pos none_, startOf_cells (by omega), if_neg (by omega)]
    · have cut : (text.take (size - 1)).length = size - 1 := List.length_take_of_le (by omega)
      rw [if_pos (by omega), if_neg none_, show buf + size - 1 = buf + (text.take (size - 1)).length by omega]
      refine update_eq_storedText (fun other away => ?_) a
      rw [cut] at away ⊢
      rw [startOf_cells (by omega)]
      by_cases inside : buf ≤ other ∧ other < buf + (size - 1)
      · rw [if_pos inside, if_pos (by omega), List.getElem?_take_of_lt (by omega)]
      · rw [if_neg inside, if_neg (by omega)]

/-- A text that goes around the address space leaves a NUL before the buffer. -/
theorem terminated_around (isBuf : buf < 2 ^ 64) (short : text.length < 2 ^ 31) (around : 2 ^ 64 ≤ buf + text.length)
    (least : buf - 1 ≤ last) :
    terminated ((startOf buf last).emit text) size (buf + text.length - 2 ^ 64) = some 0 := by
  have cursor : ((startOf buf last).emit text).cursor = buf + text.length - 2 ^ 64 := by
    rw [startOf_cursor isBuf]
    omega
  unfold terminated
  rw [startOf_last, cursor, if_pos (by omega), Function.update_self]

end Buffer

section Run
variable {buf size : Nat} {text : List UInt8} {printed : Printed}

theorem ret_of_run (isBuf : buf < 2 ^ 64)
    (ret : printed.ret = intOfUlong (ulongSub ((startOf buf (boundsOf buf size).1).emit text).cursor buf)) :
    printed.ret = text.length ↔ text.length < 2 ^ 31 := by
  rw [ret, startOf_cursor isBuf]
  exact ret_eq_iff

/-- What a run stores when the text is let through to the end of the address space. -/
theorem stored_top (isBuf : buf < 2 ^ 64) (isSize : size < 2 ^ 64)
    (stored : printed.stored = terminated ((startOf buf (boundsOf buf size).1).emit text) (boundsOf buf size).2)
    (fits : buf + text.length < 2 ^ 64) (top : buf = 0 ∨ 2 ^ 64 ≤ buf + size) (a : Nat) :
    printed.stored a = storedText buf text a := by
  rw [stored, boundsOf_top isBuf isSize top]
  exact terminated_top fits a

theorem stored_inside
    (stored : printed.stored = terminated ((startOf buf (boundsOf buf size).1).emit text) (boundsOf buf size).2)
    (some_ : buf ≠ 0) (below : buf + size < 2 ^ 64) (fits : buf + text.length < 2 ^ 64) (a : Nat) :
    printed.stored a = if size = 0 then none else storedText buf (text.take (size - 1)) a := by
  rw [stored, boundsOf_inside some_ below]
  exact terminated_inside some_ fits a

/-- What a run stores if the buffer is not a null pointer or holds the text. -/
theorem stored_eq (isBuf : buf < 2 ^ 64) (isSize : size < 2 ^ 64)
    (stored : printed.stored = terminated ((startOf buf (boundsOf buf size).1).emit text) (boundsOf buf size).2)
    (fits : buf + text.length < 2 ^ 64) (holds : buf ≠ 0 ∨ text.length < size) (a : Nat) :
    printed.stored a = if size = 0 then none else storedText buf (text.take (size - 1)) a := by
  by_cases top : buf = 0 ∨ 2 ^ 64 ≤ buf + size
  · have whole : text.length < size := by omega
    rw [if_neg (by omega), List.take_of_length_le (by omega)]
    exact stored_top isBuf isSize stored fits top a
  · obtain ⟨some_, below⟩ := not_or.mp top
    exact stored_inside stored some_ (Nat.lt_of_not_le below) fits a

theorem stored_around (isBuf : buf < 2 ^ 64) (short : text.length < 2 ^ 31)
    (stored : printed.stored = terminated ((startOf buf (boundsOf buf size).1).emit text) (boundsOf buf size).2)
    (around : 2 ^ 64 ≤ buf + text.length) : printed.stored (buf + text.length - 2 ^ 64) = some 0 := by
  rw [stored]
  exact terminated_around isBuf short around (boundsOf_least isBuf)

end Run

/-! ## Truncation -/

section Truncation
variable {buf size : Nat} {text : List UInt8} {printed : Printed}

theorem Truncates.before (truncates : Truncates buf size text printed) {a : Nat} (below : a < buf) :
    printed.stored a = none := by
  rcases Nat.eq_zero_or_pos size with empty | pos
  · exact truncates.empty empty a
  · rw [truncates.stored pos]
    exact storedText_before below

theorem Truncates.behind (truncates : Truncates buf size text printed) {a : Nat} (behind : buf + size ≤ a) :
    printed.stored a = none := by
  rcases Nat.eq_zero_or_pos size with empty | pos
  · exact truncates.empty empty a
  · have cut := List.length_take_le (size - 1) text
    rw [truncates.stored pos]
    exact storedText_behind (by omega)

end Truncation

/-- `vsnprintf` halts on no format.  It truncates as it should if the length of the output is
an `int`, the output ends below the top of the address space, and the buffer is not a null
pointer or holds the output: the `end` of no buffer at all is the top of the address space. -/
theorem vsnprintf_truncates_iff (buf size : Nat) (fmt : CString) (args : Nat → Arg) (isBuf : buf < 2 ^ 64)
    (isSize : size < 2 ^ 64) :
    ∃ text printed, output fmt args = .ok text ∧ vsnprintf buf size fmt args = .ok printed ∧
      (Truncates buf size text printed ↔
        text.length < 2 ^ 31 ∧ buf + text.length < 2 ^ 64 ∧ (buf ≠ 0 ∨ text.length < size)) := by
  obtain ⟨text, run⟩ := output_ok fmt args
  obtain ⟨printed, done, stored, ret⟩ := vsnprintf_eq buf size run
  have ret := ret_of_run isBuf ret
  refine ⟨text, printed, run, done, ?_, ?_⟩
  · intro truncates
    have short := ret.mp truncates.ret
    have fits : buf + text.length < 2 ^ 64 := by
      by_contra around
      have nul := stored_around isBuf short stored (Nat.le_of_not_lt around)
      have unset := truncates.before (a := buf + text.length - 2 ^ 64) (by omega)
      exact Option.some_ne_none _ (nul.symm.trans unset)
    refine ⟨short, fits, ?_⟩
    by_contra wrong
    obtain ⟨null, long⟩ := not_or.mp wrong
    have null := not_not.mp null
    have nul := stored_top isBuf isSize stored fits (.inl null) (buf + text.length)
    rw [storedText_end] at nul
    have unset := truncates.behind (a := buf + text.length) (by omega)
    exact Option.some_ne_none _ (nul.symm.trans unset)
  · rintro ⟨short, fits, holds⟩
    have stored := stored_eq isBuf isSize stored fits holds
    refine ⟨ret.mpr short, fun empty a => ?_, fun pos a => ?_⟩
    · exact (stored a).trans (if_pos empty)
    · exact (stored a).trans (if_neg (Nat.ne_of_gt pos))

/-- `"%5d"` -/
def fiveWide : CString := ⟨[byte '%', byte '5', byte 'd'], by decide⟩

def fortyTwo (_ : Nat) : Arg := .number 42

/-- The number in it, cut to the size of its buffer. -/
theorem vsnprintf_truncates_iff_cut :
    ∃ text printed, output fiveWide fortyTwo = .ok text ∧ vsnprintf 4096 4 fiveWide fortyTwo = .ok printed ∧
      Truncates 4096 4 text printed := by
  obtain ⟨text, printed, run, done, holds⟩ :=
    vsnprintf_truncates_iff 4096 4 fiveWide fortyTwo (by decide) (by decide)
  have five : (output fiveWide fortyTwo).toOption.map List.length = some 5 := by decide +kernel
  rw [run] at five
  have five : text.length = 5 := Option.some.inj five
  exact ⟨text, printed, run, done, holds.mpr ⟨by omega, by omega, .inl (by decide)⟩⟩

/-- With no buffer and the size zero the output is stored from address zero on. -/
theorem null_buffer_written :
    ∃ text printed, output fiveWide fortyTwo = .ok text ∧
      vsnprintf 0 0 fiveWide fortyTwo = .ok printed ∧
      printed.stored 3 = some (byte '4') ∧ ¬Truncates 0 0 text printed := by
  obtain ⟨text, run⟩ := output_ok fiveWide fortyTwo
  obtain ⟨printed, done, _⟩ := vsnprintf_eq 0 0 run
  have stored : ((vsnprintf 0 0 fiveWide fortyTwo).toOption.map fun printed => printed.stored 3) =
      some (some (byte '4')) := by decide +kernel
  rw [done] at stored
  have stored := Option.some.inj stored
  refine ⟨text, printed, run, done, stored, fun truncates => ?_⟩
  exact absurd (stored.symm.trans (truncates.empty rfl 3)) (by decide)

end Stardust.Libc
