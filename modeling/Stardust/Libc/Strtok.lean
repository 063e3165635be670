import Mathlib.Data.List.TakeWhile
import Stardust.Libc.Strings

/-! # Tokens of a string

`strtok_r` of `lib.c` cuts a string into tokens in place and keeps its place in
`*ptrptr`.  Pointers into the string are offsets from its start. -/
set_option autoImplicit false
namespace Stardust.Libc

/-! ## The code -/

/-- `for (a = accept; *a && *s != *a; a++)` -/
def seekByte (c : UInt8) : List UInt8 → List UInt8
  | [] => []
  | a :: rest => if a ≠ 0 ∧ c ≠ a then seekByte c rest else a :: rest

def strspn : List UInt8 → List UInt8 → Nat
  | [], _ => 0
  | c :: s, accept => if c = 0 then 0 else if deref (seekByte c accept) = 0 then 0 else strspn s accept + 1

/-- Whether `strcspn` returns in its loop over `reject`. -/
def rejects (c : UInt8) : List UInt8 → Bool
  | [] => false
  | r :: rest => if r = 0 then false else if c = r then true else rejects c rest

def strcspn : List UInt8 → List UInt8 → Nat
  | [], _ => 0
  | c :: s, reject => if c = 0 then 0 else if rejects c reject then 0 else strcspn s reject + 1

/-- The token or `none` for NULL, the memory, and `*ptrptr`. -/
def strtokR (memory : List UInt8) (s : Option Nat) (delim : List UInt8) (ptrptr : Nat) :
    Option Nat × List UInt8 × Nat :=
  let s := s.getD ptrptr
  let s := s + strspn (memory.drop s) delim
  if deref (memory.drop s) ≠ 0 then
    let tmp := s
    let s := s + strcspn (memory.drop s) delim
    if deref (memory.drop s) ≠ 0 then (some tmp, memory.set s 0, s + 1)
    else (some tmp, memory, s)
  else (none, memory, s)

/-- Calls with NULL, one for each set of delimiters: what they return, and the memory after them. -/
def strtokNulls (memory : List UInt8) (ptrptr : Nat) : List CString → List (Option Nat) × List UInt8
  | [] => ([], memory)
  | delim :: rest =>
    let (token, memory, ptrptr) := strtokR memory none delim.bytes ptrptr
    let (tokens, final) := strtokNulls memory ptrptr rest
    (token :: tokens, final)

/-- A first call with the string, the others with NULL. -/
def strtokCalls (text : List UInt8) (ptrptr : Nat) : List CString → List (Option Nat) × List UInt8
  | [] => ([], text)
  | delim :: rest =>
    let (token, memory, ptrptr) := strtokR text (some 0) delim.bytes ptrptr
    let (tokens, final) := strtokNulls memory ptrptr rest
    (token :: tokens, final)

/-! ## Tokens -/

/-- The first maximal run without delimiters, and the text after the delimiter that ends it. -/
def nextToken (delim : CString) (text : List UInt8) : Option (List UInt8) × List UInt8 :=
  match text.dropWhile (· ∈ delim.bytes) with
  | [] => (none, [])
  | c :: rest => (some ((c :: rest).takeWhile (· ∉ delim.bytes)), ((c :: rest).dropWhile (· ∉ delim.bytes)).tail)

/-- The tokens of a text, a set of delimiters for each. -/
def tokens : List CString → List UInt8 → List (Option (List UInt8))
  | [], _ => []
  | delim :: rest, text => (nextToken delim text).1 :: tokens rest (nextToken delim text).2

/-- The string at a pointer. -/
def stringAt (memory : List UInt8) (pointer : Nat) : List UInt8 := (memory.drop pointer).takeWhile (· ≠ 0)

structure Tokenises (text : List UInt8) (delims : List CString) (results : List (Option Nat))
    (final : List UInt8) : Prop where
  tokens : results.map (Option.map (stringAt final)) = tokens delims text
  forever : ∀ i j, i ≤ j → results[i]? = some none → j < results.length → results[j]? = some none
  length : final.length = text.length
  /-- a byte that is overwritten was the delimiter at the end of a token -/
  overwritten : ∀ i c, text[i]? = some c → final[i]? = some c ∨
    final[i]? = some 0 ∧ ∃ (n pointer : Nat) (delim : CString), results[n]? = some (some pointer) ∧
      delims[n]? = some delim ∧ c ∈ delim.bytes ∧ i = pointer + (stringAt final pointer).length

/-! ## The scans -/

section Scans
variable {s delim : List UInt8} {c : UInt8}

theorem seekByte_eq_zero (string : 0 ∉ delim) : deref (seekByte c delim) = 0 ↔ c ∉ delim := by
  induction delim with
  | nil => simp [seekByte]
  | cons a rest ih =>
    have nonzero : a ≠ 0 := fun zero => string (zero ▸ List.mem_cons_self)
    rw [seekByte, List.mem_cons, not_or]
    by_cases same : c = a
    · simp [same, nonzero]
    · rw [if_pos ⟨nonzero, same⟩, ih fun member => string (List.mem_cons_of_mem _ member)]
      exact (and_iff_right same).symm

theorem rejects_iff (string : 0 ∉ delim) : rejects c delim = true ↔ c ∈ delim := by
  induction delim with
  | nil => simp [rejects]
  | cons r rest ih =>
    have nonzero : r ≠ 0 := fun zero => string (zero ▸ List.mem_cons_self)
    rw [rejects, if_neg nonzero, List.mem_cons]
    by_cases same : c = r
    · simp [same]
    · rw [if_neg same, ih fun member => string (List.mem_cons_of_mem _ member)]
      exact (or_iff_right same).symm

theorem strspn_eq (text : 0 ∉ s) (string : 0 ∉ delim) :
    strspn s delim = (s.takeWhile (· ∈ delim)).length := by
  induction s with
  | nil => rfl
  | cons c s ih =>
    have nonzero : c ≠ 0 := fun zero => text (zero ▸ List.mem_cons_self)
    rw [strspn, if_neg nonzero]
    by_cases member : c ∈ delim
    · rw [if_neg (mt (seekByte_eq_zero string).mp (not_not_intro member)),
        List.takeWhile_cons_of_pos (p := (· ∈ delim)) (decide_eq_true member),
        ih fun zero => text (List.mem_cons_of_mem _ zero)]
      rfl
    · rw [if_pos ((seekByte_eq_zero string).mpr member), List.takeWhile_cons_of_neg (by simpa using member)]
      rfl

theorem strcspn_eq (text : 0 ∉ s) (string : 0 ∉ delim) :
    strcspn s delim = (s.takeWhile (· ∉ delim)).length := by
  induction s with
  | nil => rfl
  | cons c s ih =>
    have nonzero : c ≠ 0 := fun zero => text (zero ▸ List.mem_cons_self)
    rw [strcspn, if_neg nonzero]
    by_cases member : c ∈ delim
    · rw [if_pos ((rejects_iff string).mpr member), List.takeWhile_cons_of_neg (by simpa using member)]
      rfl
    · rw [if_neg (mt (rejects_iff string).mp member),
        List.takeWhile_cons_of_pos (p := (· ∉ delim)) (decide_eq_true member),
        ih fun zero => text (List.mem_cons_of_mem _ zero)]
      rfl

end Scans

/-! ## One call -/

/-- The delimiters that a call skips. -/
def gapOf (delim : CString) (text : List UInt8) : List UInt8 := text.takeWhile (· ∈ delim.bytes)

def wordOf (delim : CString) (text : List UInt8) : List UInt8 :=
  (text.dropWhile (· ∈ delim.bytes)).takeWhile (· ∉ delim.bytes)

/-- What is behind the token, from the delimiter that ends it. -/
def behindOf (delim : CString) (text : List UInt8) : List UInt8 :=
  (text.dropWhile (· ∈ delim.bytes)).dropWhile (· ∉ delim.bytes)

/-- The end of a token after `*s++=0`. -/
def cutOff : List UInt8 → List UInt8
  | [] => []
  | _ :: rest => 0 :: rest

section Calls
variable {delim : CString} {text : List UInt8}

theorem parts_eq (delim : CString) (text : List UInt8) :
    gapOf delim text ++ (wordOf delim text ++ behindOf delim text) = text := by
  unfold gapOf wordOf behindOf
  rw [List.takeWhile_append_dropWhile, List.takeWhile_append_dropWhile]

theorem dropWhile_gap : text.dropWhile (· ∈ delim.bytes) = wordOf delim text ++ behindOf delim text :=
  List.takeWhile_append_dropWhile.symm

theorem wordOf_eq_nil : wordOf delim text = [] ↔ wordOf delim text ++ behindOf delim text = [] := by
  rw [← dropWhile_gap]
  unfold wordOf
  cases found : text.dropWhile (· ∈ delim.bytes) with
  | nil => simp
  | cons c rest =>
    have first := List.head_dropWhile_not (· ∈ delim.bytes) (l := text) (by rw [found]; exact List.cons_ne_nil c rest)
    simp only [found, List.head_cons] at first
    rw [List.takeWhile_cons_of_pos (p := (· ∉ delim.bytes)) (by simpa using first)]
    simp

theorem behindOf_head {stop : UInt8} {rest : List UInt8} (behind : behindOf delim text = stop :: rest) :
    stop ∈ delim.bytes := by
  unfold behindOf at behind
  have ends := List.head_dropWhile_not (· ∉ delim.bytes) (l := text.dropWhile (· ∈ delim.bytes))
    (by rw [behind]; exact List.cons_ne_nil stop rest)
  simp only [behind, List.head_cons] at ends
  simpa using ends

theorem nextToken_eq : nextToken delim text =
    (if wordOf delim text = [] then none else some (wordOf delim text), (behindOf delim text).tail) := by
  have word : wordOf delim text = (text.dropWhile (· ∈ delim.bytes)).takeWhile (· ∉ delim.bytes) := rfl
  have behind : behindOf delim text = (text.dropWhile (· ∈ delim.bytes)).dropWhile (· ∉ delim.bytes) := rfl
  unfold nextToken
  split
  · rename_i all
    rw [word, behind, all]
    rfl
  · rename_i c rest found
    rw [if_neg, word, behind, found]
    rw [wordOf_eq_nil, ← dropWhile_gap, found]
    exact List.cons_ne_nil c rest

theorem deref_ne_zero {s : List UInt8} (string : 0 ∉ s) : deref s ≠ 0 ↔ s ≠ [] := by
  cases s with
  | nil => simp
  | cons c s =>
    have nonzero : c ≠ 0 := fun zero => string (zero ▸ List.mem_cons_self)
    simpa using nonzero

/-- A call where `before` is what earlier calls are done with. -/
theorem strtokR_eq (before : List UInt8) (string : 0 ∉ text) :
    strtokR (before ++ text) none delim.bytes before.length =
      (if wordOf delim text = [] then none else some (before ++ gapOf delim text).length,
        before ++ gapOf delim text ++ wordOf delim text ++ cutOff (behindOf delim text),
        (before ++ gapOf delim text ++ wordOf delim text).length + ((behindOf delim text).take 1).length) := by
  have parts := parts_eq delim text
  have atEnd := @wordOf_eq_nil delim text
  have gapLength : strspn text delim.bytes = (gapOf delim text).length := strspn_eq string delim.noNul
  have stringWord : 0 ∉ wordOf delim text ++ behindOf delim text := by
    intro member
    rw [← parts] at string
    exact string (List.mem_append_right _ member)
  have wordLength : strcspn (wordOf delim text ++ behindOf delim text) delim.bytes = (wordOf delim text).length := by
    rw [strcspn_eq stringWord delim.noNul, ← dropWhile_gap]
    rfl
  revert parts atEnd gapLength stringWord wordLength
  generalize gapOf delim text = gap
  generalize wordOf delim text = word
  generalize behindOf delim text = behind
  intro parts atEnd gapLength stringWord wordLength
  have stringBehind : 0 ∉ behind := fun member => stringWord (List.mem_append_right _ member)
  have first : (before ++ text).drop (before.length + gap.length) = word ++ behind := by
    rw [← parts, ← List.append_assoc, ← List.length_append, List.drop_left]
  have second : (before ++ text).drop (before.length + gap.length + word.length) = behind := by
    rw [← List.drop_drop, first, List.drop_left]
  unfold strtokR
  simp only [Option.getD_none, List.drop_left, gapLength, first, wordLength, second, deref_ne_zero stringWord,
    deref_ne_zero stringBehind]
  subst parts
  by_cases none : word = []
  · have all := atEnd.mp none
    have nothing := (List.append_eq_nil_iff.mp all).2
    rw [if_neg (not_not_intro all), if_pos none, none, nothing]
    simp [cutOff]
  · rw [if_pos (mt atEnd.mpr none), if_neg none]
    cases behind with
    | nil => simp [cutOff, Nat.add_assoc]
    | cons stop rest =>
      have place : before.length + gap.length + word.length = (before ++ gap ++ word).length := by
        rw [List.length_append, List.length_append]
      rw [if_pos (List.cons_ne_nil stop rest), place, ← List.append_assoc gap, ← List.append_assoc before,
        ← List.append_assoc before, List.set_append_right _ _ (Nat.le_refl _), Nat.sub_self]
      simp [cutOff]

end Calls

/-! ## A sequence of calls -/

/-- What calls with NULL do to the text behind `before`. -/
structure TokenisesFrom (before text : List UInt8) (delims : List CString) (results : List (Option Nat))
    (final : List UInt8) : Prop where
  tokens : results.map (Option.map (stringAt final)) = Libc.tokens delims text
  length : final.length = (before ++ text).length
  kept : final.take before.length = before
  overwritten : ∀ i c, text[i]? = some c → final[before.length + i]? = some c ∨
    final[before.length + i]? = some 0 ∧ ∃ (n pointer : Nat) (delim : CString),
      results[n]? = some (some pointer) ∧ delims[n]? = some delim ∧ c ∈ delim.bytes ∧
        before.length + i = pointer + (stringAt final pointer).length

section Sequences
variable {before gap word behind text : List UInt8} {delim : CString} {delims : List CString}

/-- What is done with after a call that leaves `behind` behind its token. -/
def doneWith (before gap word behind : List UInt8) : List UInt8 :=
  before ++ gap ++ word ++ (cutOff behind).take 1

theorem cutOff_eq (behind : List UInt8) : cutOff behind = (cutOff behind).take 1 ++ behind.tail := by
  cases behind <;> rfl

theorem doneWith_length : (doneWith before gap word behind).length =
    (before ++ gap ++ word).length + (behind.take 1).length := by
  unfold doneWith
  rw [List.length_append]
  cases behind <;> rfl

theorem stringAt_word (string : 0 ∉ word) (rest : List UInt8) (ends : rest = [] ∨ deref rest = 0) :
    stringAt (before ++ gap ++ word ++ rest) (before ++ gap).length = word := by
  unfold stringAt
  rw [List.append_assoc (before ++ gap), List.drop_left]
  have inside : ∀ c ∈ word, decide (c ≠ 0) = true := by
    intro c member
    rw [decide_eq_true_eq]
    rintro rfl
    exact string member
  rw [List.takeWhile_append_of_pos inside]
  cases rest with
  | nil => rw [List.takeWhile_nil, List.append_nil]
  | cons c rest =>
    have zero : c = 0 := ends.resolve_left (List.cons_ne_nil c rest)
    rw [List.takeWhile_cons_of_neg (by simp [zero]), List.append_nil]

/-- A call and the calls after it. -/
theorem TokenisesFrom.cons {results : List (Option Nat)} {final : List UInt8}
    (string : 0 ∉ text)
    (later : TokenisesFrom (doneWith before (gapOf delim text) (wordOf delim text) (behindOf delim text))
      (behindOf delim text).tail delims results final) :
    TokenisesFrom before text (delim :: delims)
      ((if wordOf delim text = [] then none else some (before ++ gapOf delim text).length) :: results) final := by
  have parts := parts_eq delim text
  have next := @nextToken_eq delim text
  have ends := @behindOf_head delim text
  have atEnd := @wordOf_eq_nil delim text
  revert later parts next ends atEnd
  generalize gapOf delim text = gap
  generalize wordOf delim text = word
  generalize behindOf delim text = behind
  intro later parts next ends atEnd
  obtain ⟨tail, rfl⟩ : ∃ tail, final = doneWith before gap word behind ++ tail := by
    have parts := List.take_append_drop (doneWith before gap word behind).length final
    rw [later.kept] at parts
    exact ⟨_, parts.symm⟩
  have tailLength : tail.length = behind.tail.length := by
    have lengths := later.length
    rw [List.length_append, List.length_append] at lengths
    omega
  have stringWord : 0 ∉ word := by
    intro member
    rw [← parts] at string
    exact string (List.mem_append_right _ (List.mem_append_left _ member))
  have token : word ≠ [] → stringAt (doneWith before gap word behind ++ tail) (before ++ gap).length = word := by
    intro _
    rw [doneWith, List.append_assoc (before ++ gap ++ word)]
    refine stringAt_word stringWord _ ?_
    cases behind with
    | nil => exact Or.inl (by simpa [cutOff] using tailLength)
    | cons stop rest => exact Or.inr rfl
  subst parts
  refine ⟨?_, ?_, ?_, ?_⟩
  · rw [List.map_cons, Libc.tokens, next, later.tokens]
    by_cases none : word = []
    · rw [if_pos none, if_pos none, Option.map_none]
    · rw [if_neg none, if_neg none, Option.map_some, token none]
  · rw [List.length_append, doneWith_length, tailLength]
    cases behind with
    | nil => simp
    | cons stop rest =>
      simp
      omega
  · simp [doneWith]
  · intro i c at_
    have front : (doneWith before gap word behind ++ tail)[before.length + i]? =
        (gap ++ word ++ ((cutOff behind).take 1 ++ tail))[i]? := by
      rw [doneWith, List.append_assoc, List.append_assoc, List.append_assoc, ← List.append_assoc gap,
        List.getElem?_append_right (by omega), Nat.add_sub_cancel_left]
    rw [← List.append_assoc] at at_
    by_cases inside : i < (gap ++ word).length
    · rw [List.getElem?_append_left inside] at at_
      rw [front, List.getElem?_append_left inside]
      exact Or.inl at_
    · rw [List.getElem?_append_right (by omega)] at at_
      cases behind with
      | nil => simp at at_
      | cons stop rest =>
        obtain ⟨k, rfl⟩ : ∃ k, i = (gap ++ word).length + k := ⟨i - (gap ++ word).length, by omega⟩
        rw [Nat.add_sub_cancel_left] at at_
        cases k with
        | zero =>
          -- the delimiter behind the token of this call
          cases Option.some.inj at_
          have found : word ≠ [] := fun none => by simpa using atEnd.mp none
          right
          rw [front, List.getElem?_append_right (by omega), Nat.add_sub_cancel_left]
          refine ⟨rfl, 0, (before ++ gap).length, delim, ?_, rfl, ends rfl, ?_⟩
          · rw [List.getElem?_cons_zero, if_neg found]
          · rw [token found]
            simp [Nat.add_assoc]
        | succ k =>
          have place : before.length + ((gap ++ word).length + (k + 1)) =
              (doneWith before gap word (stop :: rest)).length + k := by
            rw [doneWith_length]
            simp
            omega
          rw [place]
          refine (later.overwritten k c at_).imp id ?_
          rintro ⟨zero, n, pointer, other, returned, set, member, same⟩
          exact ⟨zero, n + 1, pointer, other, returned, set, member, same⟩

theorem strtokNulls_run (delims : List CString) (before text : List UInt8) (string : 0 ∉ text) :
    TokenisesFrom before text delims (strtokNulls (before ++ text) before.length delims).1
      (strtokNulls (before ++ text) before.length delims).2 := by
  induction delims generalizing before text with
  | nil =>
    refine ⟨rfl, rfl, List.take_left, fun i c at_ => Or.inl ?_⟩
    rw [strtokNulls, List.getElem?_append_right (by omega), Nat.add_sub_cancel_left]
    exact at_
  | cons delim delims ih =>
    have stringTail : 0 ∉ (behindOf delim text).tail := by
      intro member
      rw [← parts_eq delim text] at string
      exact string (List.mem_append_right _ (List.mem_append_right _ (List.mem_of_mem_tail member)))
    have later := ih (doneWith before (gapOf delim text) (wordOf delim text) (behindOf delim text)) _ stringTail
    have memory : doneWith before (gapOf delim text) (wordOf delim text) (behindOf delim text) ++
        (behindOf delim text).tail =
          before ++ gapOf delim text ++ wordOf delim text ++ cutOff (behindOf delim text) := by
      rw [doneWith, List.append_assoc, ← cutOff_eq]
    rw [doneWith_length, memory] at later
    rw [strtokNulls, strtokR_eq before string]
    exact TokenisesFrom.cons string later

/-! ## NULL for ever -/

theorem tokens_length (delims : List CString) (text : List UInt8) : (tokens delims text).length = delims.length := by
  induction delims generalizing text with
  | nil => rfl
  | cons delim delims ih => rw [tokens, List.length_cons, List.length_cons, ih]

theorem tokens_nil (delims : List CString) : ∀ token ∈ tokens delims [], token = none := by
  induction delims with
  | nil => nofun
  | cons delim delims ih =>
    intro token member
    rcases List.mem_cons.mp member with rfl | member
    · rfl
    · exact ih token member

theorem tokens_forever {i j : Nat} (after : i ≤ j) (ended : (tokens delims text)[i]? = some none)
    (inside : j < delims.length) : (tokens delims text)[j]? = some none := by
  induction delims generalizing text i j with
  | nil => nomatch inside
  | cons delim delims ih =>
    rw [tokens] at ended ⊢
    cases i with
    | succ i =>
      cases j with
      | zero => omega
      | succ j => exact ih (by omega) ended (by simpa using inside)
    | zero =>
      have none : (nextToken delim text).1 = none := Option.some.inj ended
      cases j with
      | zero => exact ended
      | succ j =>
        have rest : (nextToken delim text).2 = [] := by
          rw [nextToken_eq] at none ⊢
          by_cases word : wordOf delim text = []
          · have behind := (List.append_eq_nil_iff.mp (wordOf_eq_nil.mp word)).2
            rw [behind]
            rfl
          · rw [if_neg word] at none
            nomatch none
        rw [List.getElem?_cons_succ, rest]
        have within : j < (tokens delims []).length := by
          rw [tokens_length]
          simpa using inside
        rw [List.getElem?_eq_getElem within]
        exact congrArg some (tokens_nil delims _ (List.getElem_mem within))

end Sequences

theorem strtokCalls_eq (text : List UInt8) (ptrptr : Nat) (delims : List CString) :
    strtokCalls text ptrptr delims = strtokNulls text 0 delims := by
  cases delims <;> rfl

/-- Any string, with a set of delimiters for each call. -/
theorem strtok_tokenises (text : CString) (ptrptr : Nat) (delims : List CString) :
    Tokenises text.bytes delims (strtokCalls text.bytes ptrptr delims).1
      (strtokCalls text.bytes ptrptr delims).2 := by
  have run : TokenisesFrom [] text.bytes delims _ _ := strtokNulls_run delims [] text.bytes text.noNul
  rw [strtokCalls_eq]
  refine ⟨run.tokens, ?_, run.length, ?_⟩
  · intro i j after ended inside
    have same : ∀ n : Nat, (strtokNulls text.bytes 0 delims).1[n]? = some none ↔
        (tokens delims text.bytes)[n]? = some none := by
      intro n
      rw [← run.tokens, List.getElem?_map]
      simp
    have count := congrArg List.length run.tokens
    rw [List.length_map, tokens_length] at count
    rw [same] at ended ⊢
    exact tokens_forever after ended (count ▸ inside)
  · intro i c at_
    have result := run.overwritten i c at_
    rwa [List.length_nil, Nat.zero_add] at result

end Stardust.Libc
