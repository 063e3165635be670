import Stardust.Arch.Pagetable
import Stardust.Arch.PageWalk
import Mathlib.Logic.Function.Basic

/-! # `build_pagetable`

A page table is written by updates that go to the hypervisor, which holds the tables in
machine frames.  A table that is missing is made at once; the entries of level 1 are queued
and submitted 512 at a time. -/
set_option autoImplicit false
namespace Stardust.Arch

open Stardust.Mm

/-- `start_info.pt_base`, and the two maps between frame numbers. -/
structure Domain where
  ptBase : Nat
  physToMachine : Nat → Nat
  machineToPhys : Nat → Nat

/-- The words of each machine frame. -/
abbrev Frames := Nat → Nat → Nat

/-- The kernel reads its memory through a mapping that no call of `build_pagetable`
replaces. -/
def Domain.space (domain : Domain) (frames : Frames) : AddressSpace where
  ptBase := domain.ptBase
  machineToPhys := domain.machineToPhys
  word address := frames (domain.physToMachine (virtToPfn address)) (address % 4096 / 8)

/-! ## Updates -/

def writeWord (frames : Frames) (mfn index value : Nat) : Frames :=
  Function.update frames mfn (Function.update (frames mfn) index value)

/-- `memset` of a page. -/
def clearFrame (frames : Frames) (mfn : Nat) : Frames := Function.update frames mfn fun _ => 0

structure MmuUpdate where
  ptr : Nat
  val : Nat

/-- The entry at a machine address. -/
def MmuUpdate.frame (update : MmuUpdate) : Nat := update.ptr >>> 12

def MmuUpdate.index (update : MmuUpdate) : Nat := update.ptr % 4096 / 8

/-- `HYPERVISOR_mmu_update`; the hypervisor applies what it is given. -/
def mmuUpdate (frames : Frames) (updates : List MmuUpdate) : Frames :=
  updates.foldl (fun frames update => writeWord frames update.frame update.index update.val) frames

/-- `((pgentry_t)mfn << PAGE_SHIFT) + sizeof(pgentry_t) * offset` -/
def machineEntry (mfn offset : Nat) : Nat := ulongAdd (mfn * 2 ^ 12 % 2 ^ 64) (8 * offset)

/-- `(pgentry_t)mfn << PAGE_SHIFT | prot` -/
def pteOf (mfn prot : Nat) : Nat := mfn * 2 ^ 12 % 2 ^ 64 ||| prot

def l1Prot : Nat := pagePresent ||| pageRw ||| pageAccessed ||| pageUser
def l2Prot : Nat := pagePresent ||| pageRw ||| pageAccessed ||| pageDirty ||| pageUser
def l3Prot : Nat := pagePresent ||| pageRw ||| pageAccessed ||| pageDirty ||| pageUser
def l4Prot : Nat := pagePresent ||| pageRw ||| pageAccessed ||| pageDirty ||| pageUser

/-- `PAGE_MASK` -/
def pageMask : Nat := 2 ^ 64 - 2 ^ 12

/-! ## A new table -/

inductive FrameLevel
  | l1Frame
  | l2Frame
  | l3Frame

def FrameLevel.protE : FrameLevel → Nat
  | .l1Frame => l1Prot
  | .l2Frame => l2Prot
  | .l3Frame => l3Prot

def FrameLevel.protT : FrameLevel → Nat
  | .l1Frame => l2Prot
  | .l2Frame => l3Prot
  | .l3Frame => l4Prot

section Code
variable (domain : Domain)

/-- `new_pt_frame`: the frame is cleared, its own page is made read-only, and the entry
above names it.  The pin request changes no entry. -/
def newPtFrame (frames : Frames) (ptMfnForPfn prevLMfn offset : Nat) (level : FrameLevel) : Frames :=
  let ptPfn := domain.machineToPhys ptMfnForPfn
  let ptPage := pfnToVirt ptPfn
  let frames := clearFrame frames (domain.physToMachine (virtToPfn ptPage))
  let space := domain.space frames
  let tab := space.mfnToVirt (pteToMfn (space.entry domain.ptBase (l4TableOffset ptPage)))
  let tab := space.mfnToVirt (pteToMfn (space.entry tab (l3TableOffset ptPage)))
  let frames := mmuUpdate frames
    [⟨ulongAdd (space.entry tab (l2TableOffset ptPage) &&& pageMask) (8 * l1TableOffset ptPage),
      pteOf (domain.physToMachine ptPfn) (level.protE &&& ulongNot pageRw)⟩]
  mmuUpdate frames [⟨machineEntry prevLMfn offset, pteOf (domain.physToMachine ptPfn) level.protT⟩]

/-- The answers of `pfn_alloc` of `env_pfn` and of `env_npf`, by call. -/
structure FrameSource where
  pfn : Nat → Int
  npf : Nat → Int

/-- The calls of the two so far, `mmu_updates[0]` to `mmu_updates[count - 1]`, and
`start_address`. -/
structure Build where
  frames : Frames
  pfns : Nat
  npfs : Nat
  updates : List MmuUpdate
  startAddress : Nat

variable (source : FrameSource)

/-- The check of an entry above level 1, and the new table when it is not present; an error
is `return 0`. -/
def needPtFrame (tab mfn offset : Nat) (level : FrameLevel) (b : Build) : Except Build Build :=
  if !isPresent ((domain.space b.frames).entry tab offset) then
    let npfPfn := source.npf b.npfs
    let b := { b with npfs := b.npfs + 1 }
    if npfPfn < 0 then .error b
    else .ok { b with frames := newPtFrame domain b.frames npfPfn.toNat mfn offset level }
  else .ok b

/-- The value of an entry, by `page_size`. -/
def leafValue (size mfnForPfn : Nat) : Nat :=
  if size = pageSize then pteOf mfnForPfn l1Prot
  else mfnForPfn * 2 ^ 21 % 2 ^ 64 ||| l1Prot ||| pagePse

/-- The end of a turn: the entry is queued, and the queue submitted when it is full or the
range is done. -/
def putEntry (size endAddress mfn offset : Nat) (b : Build) : Except Build Build :=
  let mfnForPfn := source.pfn b.pfns
  let b := { b with pfns := b.pfns + 1 }
  if mfnForPfn < 0 then .error b
  else
    let b :=
      if 0 < mfnForPfn then
        { b with updates := b.updates ++ [⟨machineEntry mfn offset, leafValue size mfnForPfn.toNat⟩] }
      else b
    let b := { b with startAddress := ulongAdd b.startAddress size }
    if b.updates.length = 512 ∨ b.startAddress = endAddress then
      .ok { b with frames := mmuUpdate b.frames b.updates, updates := [] }
    else .ok b

/-- A turn of the loop of `build_pagetable_vs`. -/
def buildTurn (size endAddress : Nat) (b : Build) : Except Build Build := do
  let startAddress := b.startAddress
  let tab := domain.ptBase
  let mfn := domain.physToMachine (virtToPfn domain.ptBase)
  let offset := l4TableOffset startAddress
  let b ← needPtFrame domain source tab mfn offset .l3Frame b
  let mfn := pteToMfn ((domain.space b.frames).entry tab offset)
  let tab := (domain.space b.frames).mfnToVirt mfn
  let offset := l3TableOffset startAddress
  let b ← needPtFrame domain source tab mfn offset .l2Frame b
  let mfn := pteToMfn ((domain.space b.frames).entry tab offset)
  let tab := (domain.space b.frames).mfnToVirt mfn
  let offset := l2TableOffset startAddress
  if size = pageSize then do
    let b ← needPtFrame domain source tab mfn offset .l1Frame b
    let mfn := pteToMfn ((domain.space b.frames).entry tab offset)
    putEntry source size endAddress mfn (l1TableOffset startAddress) b
  else putEntry source size endAddress mfn offset b

/-- The loop, for so many turns at most, with the result of the call. -/
def buildLoop (size endAddress : Nat) : Nat → Build → Except Halt (Build × Int)
  | 0, _ => .error .fuel
  | turns + 1, b =>
    if b.startAddress < endAddress then
      match buildTurn domain source size endAddress b with
      | .error b => .ok (b, 0)
      | .ok b => buildLoop size endAddress turns b
    else .ok (b, 1)

def buildPagetableVs (frames : Frames) (startAddress endAddress size : Nat) : Except Halt (Build × Int) :=
  buildLoop domain source size endAddress (endAddress - startAddress + 1) ⟨frames, 0, 0, [], startAddress⟩

def buildPagetable (frames : Frames) (startAddress endAddress : Nat) : Except Halt (Build × Int) :=
  buildPagetableVs domain source frames startAddress endAddress pageSize

end Code

end Stardust.Arch
