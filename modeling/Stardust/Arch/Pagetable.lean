import Mathlib.Data.List.Basic
import Mathlib.Data.List.Count
import Stardust.Kernel

/-! # `demolish_pagetable`

The mappings of a range are cleared by `update_va_mapping` calls that go to the
hypervisor in batches.  The call that fills a batch is given the index of the entry
written last as the number of entries, so this entry stays behind: in the array, where
the next batch writes over it, and at the end of the range for good. -/
set_option autoImplicit false
namespace Stardust.Arch

def pageSize : Nat := 4096

/-- `__HYPERVISOR_update_va_mapping` -/
def updateVaMapping : Nat := 14

def uvmfInvlpg : Nat := 2

def uvmfAll : Nat := 4

/-- The arguments that the code sets; the rest of `args` belongs to no call. -/
structure MulticallEntry where
  op : Nat
  args : List Nat
  deriving DecidableEq, Repr

/-- The entry that clears the mapping of an address. -/
def clearMapping (address : Nat) : MulticallEntry :=
  ⟨updateVaMapping, [address, 0, uvmfAll ||| uvmfInvlpg]⟩

/-- The variables of `demolish_pagetable_vs`, and the batches the hypervisor has been given. -/
structure Demolition where
  startAddress : Nat
  i : Nat
  call : List MulticallEntry
  batches : List (List MulticallEntry)
  deriving DecidableEq

/-- All entries submitted, in their order. -/
def Demolition.submitted (d : Demolition) : List MulticallEntry := d.batches.flatten

/-- The four assignments to `call[i]`, and the step of `start_address`. -/
def Demolition.write (d : Demolition) (pageSize : Nat) : Demolition :=
  { d with call := d.call.set d.i (clearMapping d.startAddress), startAddress := ulongAdd d.startAddress pageSize }

/-- `HYPERVISOR_multicall(call, i)` -/
def Demolition.submit (d : Demolition) : Demolition :=
  { d with batches := d.batches ++ [d.call.take d.i] }

def Demolition.setI (d : Demolition) (i : Nat) : Demolition := { d with i := i }

/-- The loop, for so many turns at most.  `multicall` is what the hypervisor returns after
the batches it has been given. -/
def demolishLoop (multicall : List (List MulticallEntry) → Int) (endAddress pageSize : Nat) :
    Nat → Demolition → Demolition × Except Halt Unit
  | 0, d => (d, .error .fuel)
  | turns + 1, d =>
    if d.startAddress < endAddress then
      let d := d.write pageSize
      if d.i = 1023 ∨ d.startAddress = endAddress then
        let d := d.submit
        if multicall d.batches ≠ 0 then (d, .error .crash)
        else demolishLoop multicall endAddress pageSize turns (d.setI (0 + 1))
      else demolishLoop multicall endAddress pageSize turns (d.setI (d.i + 1))
    else (d, .ok ())

/-- `stack` is what the array holds before the call. -/
def demolishPagetableVs (multicall : List (List MulticallEntry) → Int) (stack : List MulticallEntry)
    (startAddress endAddress pageSize : Nat) : Demolition × Except Halt Unit :=
  demolishLoop multicall endAddress pageSize (endAddress - startAddress + 1) ⟨startAddress, 0, stack, []⟩

def demolishPagetable (multicall : List (List MulticallEntry) → Int) (stack : List MulticallEntry)
    (startAddress endAddress : Nat) : Demolition × Except Halt Unit :=
  demolishPagetableVs multicall stack startAddress endAddress pageSize

/-- The entries clear each page from `startAddress` up to `endAddress` once, and touch no
other address. -/
def ClearsExactly (startAddress endAddress : Nat) (entries : List MulticallEntry) : Prop :=
  (∀ entry ∈ entries, ∃ address, entry = clearMapping address) ∧
    ∀ address, entries.count (clearMapping address) =
      if pageSize ∣ address ∧ startAddress ≤ address ∧ address < endAddress then 1 else 0

/-! ## What the batches hold

The pages of the range are counted from 0. -/

/-- The page whose entry is in slot `j` of the array in batch `q`: slot 0 is written in
the first batch only. -/
def slotPage (q j : Nat) : Nat := if j = 0 then 0 else 1023 * q + j

/-- The first `n` entries of batch `q`. -/
def batchEntries (base q n : Nat) : List MulticallEntry :=
  (List.range n).map fun j => clearMapping (base + pageSize * slotPage q j)

def fullBatches (base q : Nat) : List (List MulticallEntry) :=
  (List.range q).map fun r => batchEntries base r 1023

/-- Before a turn of the loop over `pages` pages from `base`, `q` batches are submitted. -/
structure Demolishing (base pages q : Nat) (d : Demolition) : Prop where
  start : d.startAddress = base + pageSize * (1023 * q + d.i)
  left : 1023 * q + d.i < pages
  index : d.i ≤ 1023
  first : q = 0 ∨ d.i ≠ 0
  room : d.call.length = 1024
  slots : d.call.take d.i = batchEntries base q d.i
  batches : d.batches = fullBatches base q

section Spec
variable {base pages q : Nat} {d : Demolition}

@[simp] theorem Demolition.write_i (d : Demolition) (size : Nat) : (d.write size).i = d.i := rfl

@[simp] theorem Demolition.write_room (d : Demolition) (size : Nat) :
    (d.write size).call.length = d.call.length := List.length_set

@[simp] theorem Demolition.write_batches (d : Demolition) (size : Nat) :
    (d.write size).batches = d.batches := rfl

@[simp] theorem Demolition.setI_i (d : Demolition) (n : Nat) : (d.setI n).i = n := rfl

@[simp] theorem Demolition.setI_startAddress (d : Demolition) (n : Nat) :
    (d.setI n).startAddress = d.startAddress := rfl

@[simp] theorem Demolition.setI_call (d : Demolition) (n : Nat) : (d.setI n).call = d.call := rfl

@[simp] theorem Demolition.setI_batches (d : Demolition) (n : Nat) :
    (d.setI n).batches = d.batches := rfl

@[simp] theorem Demolition.submit_call (d : Demolition) : d.submit.call = d.call := rfl

@[simp] theorem Demolition.submit_startAddress (d : Demolition) :
    d.submit.startAddress = d.startAddress := rfl

theorem batchEntries_succ (base q n : Nat) : batchEntries base q (n + 1) =
    batchEntries base q n ++ [clearMapping (base + pageSize * slotPage q n)] := by
  unfold batchEntries
  rw [List.range_succ, List.map_append, List.map_singleton]

theorem fullBatches_succ (base q : Nat) :
    fullBatches base (q + 1) = fullBatches base q ++ [batchEntries base q 1023] := by
  unfold fullBatches
  rw [List.range_succ, List.map_append, List.map_singleton]

/-- Slot 0 holds the first page in every batch. -/
theorem take_one_batchEntries (base q r n : Nat) :
    (batchEntries base q (n + 1)).take 1 = batchEntries base r 1 := by
  unfold batchEntries
  rw [← List.map_take, List.take_range, Nat.min_eq_left (Nat.le_add_left 1 n)]
  rfl

theorem mem_batchEntries {n : Nat} {entry : MulticallEntry} : entry ∈ batchEntries base q n ↔
    ∃ j < n, entry = clearMapping (base + pageSize * slotPage q j) := by
  unfold batchEntries
  simp only [List.mem_map, List.mem_range]
  exact ⟨fun ⟨j, low, same⟩ => ⟨j, low, same.symm⟩, fun ⟨j, low, same⟩ => ⟨j, low, same.symm⟩⟩

theorem clearMapping_inj {a b : Nat} : clearMapping a = clearMapping b ↔ a = b := by
  simp [clearMapping]

/-- Slot `i` is written, and the entries below it stay. -/
theorem Demolishing.write_slots (inv : Demolishing base pages q d) :
    (d.write pageSize).call.take (d.i + 1) = batchEntries base q (d.i + 1) := by
  have page : slotPage q d.i = 1023 * q + d.i := by
    unfold slotPage
    split
    · rename_i zero
      have none := inv.first.resolve_right (fun some => some zero)
      rw [none, zero]
    · rfl
  have within : d.i < (d.call.set d.i (clearMapping d.startAddress)).length := by
    rw [List.length_set, inv.room]
    exact Nat.lt_succ_of_le inv.index
  unfold Demolition.write
  dsimp only
  rw [batchEntries_succ, page, ← inv.start, List.take_succ_eq_append_getElem within,
    List.take_set_of_le (Nat.le_refl _), inv.slots, List.getElem_set_self]

theorem Demolishing.write_start (inv : Demolishing base pages q d)
    (fits : base + pageSize * pages < 2 ^ 64) :
    (d.write pageSize).startAddress = base + pageSize * (1023 * q + d.i + 1) := by
  have left := inv.left
  unfold Demolition.write
  dsimp only
  unfold pageSize at *
  rw [ulongAdd_eq] <;> rw [inv.start] <;> unfold pageSize <;> omega

/-- A turn that submits nothing. -/
theorem Demolishing.turn (inv : Demolishing base pages q d)
    (fits : base + pageSize * pages < 2 ^ 64) (more : 1023 * q + d.i + 1 < pages)
    (space : d.i ≠ 1023) :
    Demolishing base pages q ((d.write pageSize).setI (d.i + 1)) where
  start := by rw [Demolition.setI_startAddress, inv.write_start fits, Demolition.setI_i, Nat.add_assoc]
  left := by
    rw [Demolition.setI_i, ← Nat.add_assoc]
    exact more
  index := by
    have most := inv.index
    rw [Demolition.setI_i]
    omega
  first := .inr (Nat.succ_ne_zero d.i)
  room := by rw [Demolition.setI_call, Demolition.write_room, inv.room]
  slots := by rw [Demolition.setI_call, Demolition.setI_i, inv.write_slots]
  batches := by rw [Demolition.setI_batches, Demolition.write_batches, inv.batches]

/-- The batch that a turn submits lacks the entry just written. -/
theorem Demolishing.submit_batches (inv : Demolishing base pages q d) :
    (d.write pageSize).submit.batches = fullBatches base q ++ [batchEntries base q d.i] := by
  have below : (d.write pageSize).call.take d.i = batchEntries base q d.i := by
    unfold Demolition.write
    dsimp only
    rw [List.take_set_of_le (Nat.le_refl _), inv.slots]
  unfold Demolition.submit
  dsimp only
  rw [Demolition.write_i, below, Demolition.write_batches, inv.batches]

/-- A full batch in the middle of the range: slot 0 keeps its entry. -/
theorem Demolishing.flush (inv : Demolishing base pages q d)
    (fits : base + pageSize * pages < 2 ^ 64) (more : 1023 * q + d.i + 1 < pages)
    (full : d.i = 1023) :
    Demolishing base pages (q + 1) ((d.write pageSize).submit.setI (0 + 1)) where
  start := by
    rw [Demolition.setI_startAddress, Demolition.submit_startAddress, inv.write_start fits, full,
      Demolition.setI_i]
    unfold pageSize
    omega
  left := by
    rw [full] at more
    rw [Demolition.setI_i]
    omega
  index := by
    rw [Demolition.setI_i]
    omega
  first := .inr (Nat.succ_ne_zero 0)
  room := by rw [Demolition.setI_call, Demolition.submit_call, Demolition.write_room, inv.room]
  slots := by
    have whole := congrArg (List.take 1) inv.write_slots
    rw [List.take_take, Nat.min_eq_left (Nat.le_add_left 1 d.i), take_one_batchEntries] at whole
    rw [Demolition.setI_call, Demolition.submit_call, Demolition.setI_i]
    exact whole
  batches := by
    rw [Demolition.setI_batches, inv.submit_batches, full, fullBatches_succ]

/-- The batches when the last page is reached, and the hypervisor has taken them all. -/
def Finished (base pages : Nat) (d : Demolition) : Prop :=
  ∃ q i, 1023 * q + i + 1 = pages ∧ i ≤ 1023 ∧ (q = 0 ∨ i ≠ 0) ∧
    d.batches = fullBatches base q ++ [batchEntries base q i]

/-- The batches when the hypervisor has refused one. -/
def Refused (base pages : Nat) (d : Demolition) : Prop :=
  ∃ q i, 1023 * q + i + 1 ≤ pages ∧ i ≤ 1023 ∧
    d.batches = fullBatches base q ++ [batchEntries base q i]

/-- The loop ends, with the last page reached or with a batch refused. -/
theorem Demolishing.loop {multicall : List (List MulticallEntry) → Int} {turns : Nat}
    (inv : Demolishing base pages q d) (fits : base + pageSize * pages < 2 ^ 64)
    (enough : pages < 1023 * q + d.i + turns) :
    ∃ final, (demolishLoop multicall (base + pageSize * pages) pageSize turns d = (final, .ok ()) ∧
        Finished base pages final) ∨
      (demolishLoop multicall (base + pageSize * pages) pageSize turns d = (final, .error .crash) ∧
        Refused base pages final ∧ multicall final.batches ≠ 0) := by
  induction turns generalizing q d with
  | zero =>
    have left := inv.left
    omega
  | succ turns ih =>
    have left := inv.left
    have here : d.startAddress < base + pageSize * pages := by
      rw [inv.start]
      exact Nat.add_lt_add_left (Nat.mul_lt_mul_of_pos_left left (by decide)) base
    have last : (d.write pageSize).startAddress = base + pageSize * pages ↔ 1023 * q + d.i + 1 = pages := by
      rw [inv.write_start fits]
      unfold pageSize
      omega
    rw [demolishLoop, if_pos here]
    dsimp only
    rw [Demolition.write_i]
    by_cases submits : d.i = 1023 ∨ (d.write pageSize).startAddress = base + pageSize * pages
    · rw [if_pos submits]
      by_cases refused : multicall (d.write pageSize).submit.batches ≠ 0
      · rw [if_pos refused]
        exact ⟨_, .inr ⟨rfl, ⟨q, d.i, left, inv.index, inv.submit_batches⟩, refused⟩⟩
      · rw [if_neg refused]
        by_cases done : 1023 * q + d.i + 1 = pages
        · refine ⟨((d.write pageSize).submit.setI (0 + 1)), .inl ⟨?_, ?_⟩⟩
          · -- the next turn sees `start_address == end_address`
            cases turns with
            | zero => omega
            | succ turns =>
              have stop : ¬ ((d.write pageSize).submit.setI (0 + 1)).startAddress <
                  base + pageSize * pages := by
                rw [Demolition.setI_startAddress, Demolition.submit_startAddress, last.mpr done]
                exact Nat.lt_irrefl _
              rw [demolishLoop, if_neg stop]
          · exact ⟨q, d.i, done, inv.index, inv.first, inv.submit_batches⟩
        · have full : d.i = 1023 := submits.resolve_right (mt last.mp done)
          refine ih (inv.flush fits (Nat.lt_of_le_of_ne left done) full) ?_
          rw [Demolition.setI_i]
          omega
    · rw [if_neg submits]
      have space : d.i ≠ 1023 := fun full => submits (.inl full)
      have more : 1023 * q + d.i + 1 ≠ pages := mt last.mpr (fun ends => submits (.inr ends))
      refine ih (inv.turn fits (Nat.lt_of_le_of_ne left more) space) ?_
      rw [Demolition.setI_i]
      omega

/-- Every entry that is submitted clears a page of the range, and none clears the last. -/
theorem submitted_within {i : Nat} (least : 1023 * q + i + 1 ≤ pages) (index : i ≤ 1023)
    {entry : MulticallEntry}
    (member : entry ∈ (fullBatches base q ++ [batchEntries base q i]).flatten) :
    ∃ k, k + 1 < pages ∧ entry = clearMapping (base + pageSize * k) := by
  rw [List.flatten_append, List.flatten_singleton, List.mem_append] at member
  have slot : ∃ r j, 1023 * r + j < 1023 * q + i ∧
      entry = clearMapping (base + pageSize * slotPage r j) := by
    rcases member with full | last
    · obtain ⟨batch, listed, inside⟩ := List.mem_flatten.mp full
      unfold fullBatches at listed
      obtain ⟨r, low, rfl⟩ := List.mem_map.mp listed
      rw [List.mem_range] at low
      obtain ⟨j, short, same⟩ := mem_batchEntries.mp inside
      exact ⟨r, j, by omega, same⟩
    · obtain ⟨j, short, same⟩ := mem_batchEntries.mp last
      exact ⟨q, j, by omega, same⟩
  obtain ⟨r, j, low, same⟩ := slot
  refine ⟨slotPage r j, ?_, same⟩
  unfold slotPage
  split <;> omega

theorem slotPage_mem {i k : Nat} : ((∃ r < q, ∃ j < 1023, k = slotPage r j) ∨ ∃ j < i, k = slotPage q j) →
    i ≤ 1023 → k < 1023 * q + i ∧ (k = 0 ∨ ¬ 1023 ∣ k) := by
  unfold slotPage
  rintro (⟨r, low, j, short, rfl⟩ | ⟨j, short, rfl⟩) most
  · split <;> omega
  · split <;> omega

theorem mem_slotPage {i k : Nat} (most : i ≤ 1023) (low : k < 1023 * q + i)
    (passed : k = 0 ∨ ¬ 1023 ∣ k) :
    (∃ r < q, ∃ j < 1023, k = slotPage r j) ∨ ∃ j < i, k = slotPage q j := by
  unfold slotPage
  have split := Nat.div_add_mod k 1023
  have short := Nat.mod_lt k (by decide : 0 < 1023)
  have page : k = if k % 1023 = 0 then 0 else 1023 * (k / 1023) + k % 1023 := by
    split <;> omega
  by_cases last : k / 1023 = q
  · refine .inr ⟨k % 1023, by omega, ?_⟩
    rw [← last]
    exact page
  · exact .inl ⟨k / 1023, by omega, k % 1023, short, page⟩

end Spec

section Results
variable {multicall : List (List MulticallEntry) → Int} {stack : List MulticallEntry}
  {startAddress endAddress : Nat}

theorem Demolishing.initial {pages : Nat} (room : stack.length = 1024) (some : 0 < pages) :
    Demolishing startAddress pages 0 ⟨startAddress, 0, stack, []⟩ where
  start := rfl
  left := some
  index := Nat.zero_le _
  first := .inl rfl
  room := room
  slots := rfl
  batches := rfl

/-- A range of whole pages is its start and a count. -/
theorem wholePages_range (startAligned : pageSize ∣ startAddress) (endAligned : pageSize ∣ endAddress)
    (order : startAddress < endAddress) :
    ∃ pages, 0 < pages ∧ endAddress = startAddress + pageSize * pages := by
  obtain ⟨pages, same⟩ := (Nat.dvd_sub endAligned startAligned)
  refine ⟨pages, ?_, by omega⟩
  apply Nat.pos_of_ne_zero
  intro none
  rw [none, Nat.mul_zero] at same
  omega

variable (multicall) in
/-- The batches of a call on a range of whole pages, and how the call ends. -/
theorem demolishPagetable_spec (room : stack.length = 1024) {pages : Nat} (some : 0 < pages)
    (fits : startAddress + pageSize * pages < 2 ^ 64) :
    ∃ final, (demolishPagetable multicall stack startAddress (startAddress + pageSize * pages) =
          (final, .ok ()) ∧ Finished startAddress pages final) ∨
      (demolishPagetable multicall stack startAddress (startAddress + pageSize * pages) =
          (final, .error .crash) ∧ Refused startAddress pages final ∧ multicall final.batches ≠ 0) := by
  unfold demolishPagetable demolishPagetableVs
  apply (Demolishing.initial room some).loop fits
  unfold pageSize
  omega

/-- The last page of the range keeps its mapping, whatever the hypervisor answers. -/
theorem demolishPagetable_keeps_last (room : stack.length = 1024)
    (startAligned : pageSize ∣ startAddress) (endAligned : pageSize ∣ endAddress)
    (order : startAddress < endAddress) (fits : endAddress < 2 ^ 64) :
    clearMapping (endAddress - pageSize) ∉
      (demolishPagetable multicall stack startAddress endAddress).1.submitted := by
  obtain ⟨pages, some, rfl⟩ := wholePages_range startAligned endAligned order
  obtain ⟨final, outcome⟩ := demolishPagetable_spec multicall room some fits
  intro member
  have listed : ∃ q i, 1023 * q + i + 1 ≤ pages ∧ i ≤ 1023 ∧
      clearMapping (startAddress + pageSize * pages - pageSize) ∈
        (fullBatches startAddress q ++ [batchEntries startAddress q i]).flatten := by
    rcases outcome with ⟨run, q, i, ends, index, _, batches⟩ | ⟨run, ⟨q, i, least, index, batches⟩, _⟩
    · rw [run, Demolition.submitted, batches] at member
      exact ⟨q, i, Nat.le_of_eq ends, index, member⟩
    · rw [run, Demolition.submitted, batches] at member
      exact ⟨q, i, least, index, member⟩
  obtain ⟨q, i, least, index, inside⟩ := listed
  obtain ⟨k, low, same⟩ := submitted_within least index inside
  have address := clearMapping_inj.mp same
  unfold pageSize at address
  omega

/-- No call on a non-empty range of whole pages clears just that range. -/
theorem demolishPagetable_never_exact (multicall : List (List MulticallEntry) → Int)
    (stack : List MulticallEntry) (room : stack.length = 1024) (startAddress endAddress : Nat)
    (startAligned : pageSize ∣ startAddress) (endAligned : pageSize ∣ endAddress)
    (order : startAddress < endAddress) (fits : endAddress < 2 ^ 64) :
    ¬ ClearsExactly startAddress endAddress
      (demolishPagetable multicall stack startAddress endAddress).1.submitted := by
  intro exactly
  obtain ⟨pages, some, whole⟩ := wholePages_range startAligned endAligned order
  have once := exactly.2 (endAddress - pageSize)
  rw [List.count_eq_zero.mpr (demolishPagetable_keeps_last room startAligned endAligned order fits),
    if_pos] at once
  · exact absurd once (by decide)
  · refine ⟨Nat.dvd_sub endAligned (Nat.dvd_refl _), ?_, ?_⟩ <;>
    · unfold pageSize at *
      omega

theorem demolishPagetable_never_exact_two_pages : ¬ ClearsExactly 0x1000 0x3000
    (demolishPagetable (fun _ => 0) (List.replicate 1024 ⟨0, []⟩) 0x1000 0x3000).1.submitted :=
  demolishPagetable_never_exact (fun _ => 0) (List.replicate 1024 ⟨0, []⟩) List.length_replicate
    0x1000 0x3000 (by decide) (by decide) (by decide) (by decide)

theorem demolishPagetable_one_page : ¬ ClearsExactly 0x1000 0x2000
    (demolishPagetable (fun _ => 0) (List.replicate 1024 ⟨0, []⟩) 0x1000 0x2000).1.submitted := by
  intro exactly
  have once := exactly.2 0x1000
  rw [if_pos (by decide)] at once
  have none : (demolishPagetable (fun _ => 0) (List.replicate 1024 ⟨0, []⟩) 0x1000 0x2000).1.submitted =
      [] := by decide
  rw [none] at once
  exact absurd once (by decide)

/-- Where the hypervisor takes every batch, a page keeps its mapping when it is the last
of the range or the last of a batch. -/
theorem demolishPagetable_kept (accepts : ∀ batches, multicall batches = 0)
    (room : stack.length = 1024) {pages k : Nat} (fits : startAddress + pageSize * pages < 2 ^ 64)
    (inside : k < pages) :
    clearMapping (startAddress + pageSize * k) ∉
        (demolishPagetable multicall stack startAddress (startAddress + pageSize * pages)).1.submitted ↔
      k + 1 = pages ∨ (k ≠ 0 ∧ 1023 ∣ k) := by
  obtain ⟨final, outcome⟩ := demolishPagetable_spec multicall room
    (Nat.zero_lt_of_lt inside) fits
  rcases outcome with ⟨run, q, i, ends, index, _, batches⟩ | ⟨_, _, refused⟩
  · have same {a : Nat} : clearMapping (startAddress + pageSize * k) =
        clearMapping (startAddress + pageSize * a) ↔ k = a := by
      rw [clearMapping_inj]
      unfold pageSize
      omega
    have listed : clearMapping (startAddress + pageSize * k) ∈
        (fullBatches startAddress q ++ [batchEntries startAddress q i]).flatten ↔
        (∃ r < q, ∃ j < 1023, k = slotPage r j) ∨ ∃ j < i, k = slotPage q j := by
      rw [List.flatten_append, List.flatten_singleton, List.mem_append, mem_batchEntries]
      simp only [fullBatches, List.mem_flatten, List.mem_map, List.mem_range, same]
      constructor
      · rintro (⟨_, ⟨r, low, rfl⟩, member⟩ | last)
        · obtain ⟨j, short, page⟩ := mem_batchEntries.mp member
          exact .inl ⟨r, low, j, short, same.mp page⟩
        · exact .inr last
      · rintro (⟨r, low, j, short, page⟩ | last)
        · exact .inl ⟨_, ⟨r, low, rfl⟩, mem_batchEntries.mpr ⟨j, short, same.mpr page⟩⟩
        · exact .inr last
    rw [run, Demolition.submitted, batches, listed]
    constructor
    · intro kept
      by_contra other
      exact kept (mem_slotPage index (by omega) (by omega))
    · intro kept member
      obtain ⟨low, passed⟩ := slotPage_mem member index
      clear member
      omega
  · exact absurd (accepts _) refused

end Results

end Stardust.Arch
