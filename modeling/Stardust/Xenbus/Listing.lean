import Mathlib.Data.List.TakeWhile
import Stardust.Xenbus.Operations

/-! # What `xenbus_ls` reads and returns

`xenbus_ls` counts the NULs of a payload, and walks it a second time with `strlen`.  Here
every byte is a read of its own, which faults past the payload's end, and the array has
its last entry.  A payload lies in a ring of 1024 bytes, so no `int` counter wraps. -/
set_option autoImplicit false
namespace Stardust.Xenbus

/-! ## The code -/

/-- `((char *)reply)[x]` -/
def byteAt (payload : List UInt8) (x : Nat) : Except Halt UInt8 :=
  match payload[x]? with
  | some byte => .ok byte
  | none => .error .fault

/-- The loop that counts, with `left` bytes to go. -/
def countElems (payload : List UInt8) : Nat → Nat → Nat → Except Halt Nat
  | 0, _, nrElems => .ok nrElems
  | left + 1, x, nrElems => do
    let byte ← byteAt payload x
    countElems payload left (x + 1) (if byte = 0 then nrElems + 1 else nrElems)

/-- `strlen((char *)reply + x)`, which has passed `n` bytes. -/
def strlen (payload : List UInt8) (x : Nat) : Nat → Nat → Except Halt Nat
  | 0, _ => .error .fuel
  | fuel + 1, n => do
    let byte ← byteAt payload (x + n)
    if byte = 0 then .ok n else strlen payload x fuel (n + 1)

/-- The bytes that `memcpy` reads from `x` on. -/
def memcpyFrom (payload : List UInt8) : Nat → Nat → Except Halt (List UInt8)
  | _, 0 => .ok []
  | x, n + 1 => do
    let byte ← byteAt payload x
    let rest ← memcpyFrom payload (x + 1) n
    .ok (byte :: rest)

/-- A read in an operation. -/
def reading {α : Type} (result : Except Halt α) : XenbusM α := fun call =>
  result.map fun value => (value, call)

/-- The loop that copies, with `nrElems` strings to go, and the entry after it. -/
def copyElems (payload : List UInt8) : Nat → Nat → XenbusM (List (Option Text))
  | 0, _ => pure [none]
  | nrElems + 1, x => do
    let l ← reading (strlen payload x (payload.length + 1) 0)
    let res ← xmallocData
    let bytes ← reading (memcpyFrom payload x (l + 1))
    let rest ← copyElems payload nrElems (x + (l + 1))
    pure (some ⟨res, bytes⟩ :: rest)

/-- `xenbus_ls`: the error and `*contents`, as an array. -/
def xenbusLsBytes (answer : Answer) (xbt : Nat) (pre : CString) :
    XenbusM (Option Text × Option (Block × List (Option Text))) := do
  let repmsg ← xenbusMsgReply answer xsDirectory xbt [segment pre]
  let msg ← errmsg repmsg
  match msg with
  | some msg => pure (some msg, none)
  | none =>
    let nrElems ← reading (countElems repmsg.payload repmsg.payload.length 0 0)
    let res ← xmallocData
    let elems ← copyElems repmsg.payload nrElems 0
    xfree repmsg.block
    pure (none, some (res, elems))

/-! ## The strings of a payload -/

/-- The strings that end with a NUL; what follows the last NUL is none. -/
def terminated (payload : List UInt8) : List CString := (payload.splitOn 0).dropLast

theorem terminated_of_notMem {bytes : List UInt8} (free : 0 ∉ bytes) : terminated bytes = [] := by
  rw [terminated, List.splitOn_eq_singleton free]
  rfl

theorem terminated_append {s : CString} (free : 0 ∉ s) (rest : List UInt8) :
    terminated (s ++ 0 :: rest) = s :: terminated rest := by
  rw [terminated, List.splitOn_append_cons_self_of_not_mem free,
    List.dropLast_cons_of_ne_nil (List.splitOn_ne_nil 0 rest)]
  rfl

/-- Strings without NULs, each followed by one. -/
theorem terminated_flatMap {strings : List CString} (free : ∀ s ∈ strings, 0 ∉ s) :
    terminated (strings.flatMap fun s => s ++ [0]) = strings := by
  induction strings with
  | nil => rfl
  | cons s rest ih =>
    rw [List.flatMap_cons, List.append_assoc, List.singleton_append,
      terminated_append (free s List.mem_cons_self),
      ih fun other member => free other (List.mem_cons_of_mem s member)]

section Strings
variable {bytes : List UInt8}

theorem cString_notMem (bytes : List UInt8) : 0 ∉ cString bytes := by
  intro member
  have holds := List.mem_takeWhile_imp member
  simp at holds

/-- The C string at the start, its NUL, and what is behind. -/
theorem cString_append (more : 0 ∈ bytes) :
    cString bytes ++ 0 :: bytes.drop ((cString bytes).length + 1) = bytes := by
  induction bytes with
  | nil => cases more
  | cons byte rest ih =>
    by_cases zero : byte = 0
    · simp [cString, zero]
    · have later : 0 ∈ rest := (List.mem_cons.mp more).resolve_left (Ne.symm zero)
      have head : cString (byte :: rest) = byte :: cString rest :=
        List.takeWhile_cons_of_pos (by simpa using zero)
      rw [head, List.cons_append, List.length_cons, List.drop_succ_cons, ih later]

theorem cString_length_lt (more : 0 ∈ bytes) : (cString bytes).length < bytes.length := by
  have whole := congrArg List.length (cString_append more)
  rw [List.length_append, List.length_cons] at whole
  omega

theorem take_cString (more : 0 ∈ bytes) : bytes.take ((cString bytes).length + 1) = cString bytes ++ [0] := by
  have whole := cString_append more
  generalize cString bytes = s at *
  rw [← whole, ← List.singleton_append, ← List.append_assoc, List.take_left' (by simp)]

theorem count_cString (more : 0 ∈ bytes) :
    (bytes.drop ((cString bytes).length + 1)).count 0 + 1 = bytes.count 0 := by
  have whole := congrArg (List.count 0) (cString_append more)
  rwa [List.count_append, List.count_eq_zero.mpr (cString_notMem bytes), List.count_cons_self,
    Nat.zero_add] at whole

end Strings

/-! ## The reads -/

section Reads
variable {payload : List UInt8} {x : Nat} {call : XenbusCall}

theorem byteAt_ok {byte : UInt8} (here : payload[x]? = some byte) : byteAt payload x = .ok byte := by
  rw [byteAt, here]

theorem drop_eq_cons {byte : UInt8} {rest : List UInt8} (here : payload.drop x = byte :: rest) :
    payload[x]? = some byte ∧ payload.drop (x + 1) = rest := by
  constructor
  · rw [← List.head?_drop, here]
    rfl
  · rw [← List.drop_drop, here]
    rfl

/-- The first loop reads the payload once and counts its NULs. -/
theorem countElems_ok {left nrElems : Nat} (rest : (payload.drop x).length = left) :
    countElems payload left x nrElems = .ok (nrElems + (payload.drop x).count 0) := by
  induction left generalizing x nrElems with
  | zero =>
    rw [List.length_eq_zero_iff.mp rest]
    rfl
  | succ left ih =>
    cases tail : payload.drop x with
    | nil =>
      rw [tail] at rest
      cases rest
    | cons byte behind =>
      rw [tail, List.length_cons] at rest
      obtain ⟨here, next⟩ := drop_eq_cons tail
      rw [countElems, byteAt_ok here, Halt.ok_bind, ih (by rw [next]; omega), next, List.count_cons]
      by_cases zero : byte = 0
      · simp only [zero, beq_self_eq_true, if_true]
        congr 1
        omega
      · simp [zero]

/-- `strlen` stops at a NUL of the payload. -/
theorem strlen_ok {fuel n : Nat} (ends : 0 ∈ payload.drop (x + n))
    (enough : (cString (payload.drop (x + n))).length < fuel) :
    strlen payload x fuel n = .ok (n + (cString (payload.drop (x + n))).length) := by
  induction fuel generalizing n with
  | zero => omega
  | succ fuel ih =>
    cases tail : payload.drop (x + n) with
    | nil =>
      rw [tail] at ends
      cases ends
    | cons byte behind =>
      obtain ⟨here, next⟩ := drop_eq_cons tail
      rw [strlen, byteAt_ok here, Halt.ok_bind]
      rw [tail] at ends enough
      by_cases zero : byte = 0
      · rw [if_pos zero]
        simp [cString, zero]
      · have head : cString (byte :: behind) = byte :: cString behind :=
          List.takeWhile_cons_of_pos (by simpa using zero)
        rw [head, List.length_cons] at enough ⊢
        have later : 0 ∈ behind := (List.mem_cons.mp ends).resolve_left (Ne.symm zero)
        rw [if_neg zero, ih (by rw [← Nat.add_assoc, next]; exact later)
          (by rw [← Nat.add_assoc, next]; omega), ← Nat.add_assoc, next]
        congr 1
        omega

theorem memcpyFrom_ok {n : Nat} (inside : n ≤ (payload.drop x).length) :
    memcpyFrom payload x n = .ok ((payload.drop x).take n) := by
  induction n generalizing x with
  | zero => rfl
  | succ n ih =>
    cases tail : payload.drop x with
    | nil =>
      rw [tail] at inside
      cases inside
    | cons byte behind =>
      rw [tail, List.length_cons] at inside
      obtain ⟨here, next⟩ := drop_eq_cons tail
      rw [memcpyFrom, byteAt_ok here, Halt.ok_bind, ih (by rw [next]; omega), next]
      rfl

theorem reading_ok {α : Type} {result : Except Halt α} {value : α} (run : result = .ok value) :
    reading result call = .ok (value, call) := by
  rw [reading, run]
  rfl

/-- As long as there are NULs to come, the second loop finds its strings in the payload. -/
theorem copyElems_ok {nrElems : Nat} (terminators : nrElems = (payload.drop x).count 0) :
    ∃ texts : List Text, ∃ after,
      copyElems payload nrElems x call = .ok (texts.map some ++ [none], after) ∧
        copyStrings nrElems (payload.drop x) call = .ok (texts, after) ∧
        texts.map Text.bytes = (terminated (payload.drop x)).map fun s => s ++ [0] := by
  induction nrElems generalizing x call with
  | zero =>
    refine ⟨[], call, rfl, rfl, ?_⟩
    rw [terminated_of_notMem (List.count_eq_zero.mp terminators.symm)]
    rfl
  | succ nrElems ih =>
    have more : 0 ∈ payload.drop x := List.count_pos_iff.mp (by omega)
    have count := count_cString more
    have within := cString_length_lt more
    have short : (payload.drop x).length ≤ payload.length := by
      rw [List.length_drop]
      omega
    rw [List.drop_drop] at count
    obtain ⟨texts, after, copied, strings, bytes⟩ :=
      @ih (x + ((cString (payload.drop x)).length + 1)) { call with next := call.next + 1 } (by omega)
    have length : strlen payload x (payload.length + 1) 0 = .ok (cString (payload.drop x)).length := by
      rw [strlen_ok (by rwa [Nat.add_zero]) (by rw [Nat.add_zero]; omega), Nat.add_zero, Nat.zero_add]
    refine ⟨⟨.data call.next, (payload.drop x).take ((cString (payload.drop x)).length + 1)⟩ :: texts,
      after, ?_, ?_, ?_⟩
    · rw [copyElems, XenbusM.bind_ok (reading_ok length), XenbusM.bind_ok xmallocData_ok,
        XenbusM.bind_ok (reading_ok (memcpyFrom_ok within)), XenbusM.bind_ok copied]
      rfl
    · rw [copyStrings, XenbusM.bind_ok xmallocData_ok]
      rw [List.drop_drop, XenbusM.bind_ok strings]
      rfl
    · have split := terminated_append (cString_notMem (payload.drop x))
        ((payload.drop x).drop ((cString (payload.drop x)).length + 1))
      rw [cString_append more] at split
      rw [split, List.map_cons, List.map_cons, List.drop_drop, bytes, take_cString more]

end Reads

/-- For every reply that is no error: the array holds the strings of the payload in order
and then NULL, and no byte outside the payload is read. -/
theorem xenbusLs_decodes {answer : Answer} {call : XenbusCall} (xbt : Nat) (pre : CString)
    (success : answer.type ≠ xsError) :
    (∃ res : Block, ∃ texts : List Text, ∃ after,
      xenbusLsBytes answer xbt pre call = .ok ((none, some (res, texts.map some ++ [none])), after) ∧
        xenbusLs answer xbt pre call = .ok ((none, some (res, texts)), after) ∧
        texts.map Text.bytes = (terminated answer.payload).map fun s => s ++ [0]) ∧
      ∀ strings : List CString, (∀ s ∈ strings, 0 ∉ s) →
        answer.payload = strings.flatMap (fun s => s ++ [0]) → terminated answer.payload = strings := by
  constructor
  · unfold xenbusLsBytes xenbusLs
    rw [XenbusM.bind_ok (xenbusMsgReply_ok xsDirectory xbt [segment pre]),
      XenbusM.bind_ok (xenbusMsgReply_ok xsDirectory xbt [segment pre]),
      XenbusM.bind_ok (errmsg_success success), XenbusM.bind_ok (errmsg_success success)]
    simp only
    have counted : countElems answer.payload answer.payload.length 0 0 = .ok (answer.payload.count 0) := by
      rw [countElems_ok (by rw [List.drop_zero]), List.drop_zero, Nat.zero_add]
    rw [XenbusM.bind_ok (reading_ok counted), XenbusM.bind_ok xmallocData_ok,
      XenbusM.bind_ok xmallocData_ok]
    obtain ⟨texts, after, copied, strings, bytes⟩ := @copyElems_ok answer.payload 0 _ _
      (by rw [List.drop_zero])
    rw [List.drop_zero] at strings bytes
    rw [XenbusM.bind_ok copied, XenbusM.bind_ok strings]
    exact ⟨_, texts, _, rfl, rfl, bytes⟩
  · intro strings free same
    rw [same]
    exact terminated_flatMap free

/-- A name, an empty name, and bytes that no NUL ends. -/
theorem xenbusLs_decodes_tail :
    ∃ res : Block, ∃ texts : List Text, ∃ after,
      xenbusLsBytes ⟨xsDirectory, [97, 0, 0, 98], []⟩ 0 [47] (.start 0 []) =
          .ok ((none, some (res, texts.map some ++ [none])), after) ∧
        texts.map Text.bytes = [[97, 0], [0]] := by
  obtain ⟨⟨res, texts, after, bytes, _, same⟩, _⟩ :=
    @xenbusLs_decodes ⟨xsDirectory, [97, 0, 0, 98], []⟩ (.start 0 []) 0 [47] (by decide)
  exact ⟨res, texts, after, bytes, same.trans (by decide)⟩

end Stardust.Xenbus
