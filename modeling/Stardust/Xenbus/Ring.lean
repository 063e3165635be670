import Stardust.Kernel
import Stardust.Lib.Ring

/-! # The xenstore rings

`struct xenstore_domain_interface`: two rings of `XENSTORE_RING_SIZE` bytes, each
with a producer and a consumer index that run freely modulo 2^32. -/
set_option autoImplicit false
namespace Stardust.Xenbus

open Stardust.Lib

abbrev ringSize : Nat := 1024

/-- `MASK_XENSTORE_IDX(idx)` -/
abbrev mask (idx : Nat) : Nat := idx % ringSize

/-- `NR_REQS` -/
abbrev nrReqs : Nat := 32

structure XenstoreBuf where
  req : Nat → UInt8
  rsp : Nat → UInt8
  reqCons : Nat
  reqProd : Nat
  rspCons : Nat
  rspProd : Nat

/-- `struct xsd_sockmsg` without its `len` -/
structure SockMsg where
  type : BitVec 32
  reqId : BitVec 32
  txId : BitVec 32
  deriving DecidableEq

/-- The bytes of a `uint32_t`, lowest first. -/
def wordBytes (word : BitVec 32) : List UInt8 :=
  [⟨word.extractLsb' 0 8⟩, ⟨word.extractLsb' 8 8⟩, ⟨word.extractLsb' 16 8⟩, ⟨word.extractLsb' 24 8⟩]

/-- `sizeof(struct xsd_sockmsg)` -/
abbrev headerSize : Nat := 16

def headerBytes (msg : SockMsg) (len : Nat) : List UInt8 :=
  wordBytes msg.type ++ wordBytes msg.reqId ++ wordBytes msg.txId ++ wordBytes (.ofNat 32 len)

theorem headerBytes_length (msg : SockMsg) (len : Nat) : (headerBytes msg len).length = 16 := rfl

/-- `memcpy_from_ring` -/
def memcpyFromRing (ring : Nat → UInt8) (off len : Nat) : List UInt8 :=
  let c1 := min len (ringSize - off)
  fetch ring off c1 ++ fetch ring 0 (len - c1)

/-- The part up to the ring end and the part from its start are one range. -/
theorem memcpyFromRing_eq (ring : Nat → UInt8) {idx len : Nat} (fits : len ≤ ringSize) :
    memcpyFromRing ring (mask idx) len = ringRead ring ringSize idx len := by
  have cell : mask idx < ringSize := Nat.mod_lt _ (by decide)
  unfold memcpyFromRing
  by_cases inside : mask idx + len ≤ ringSize
  · have whole : min len (ringSize - mask idx) = len := Nat.min_eq_left (by omega)
    simp only [whole, Nat.sub_self]
    rw [fetch_eq_ringRead rfl inside]
    simp [fetch]
  · have part : min len (ringSize - mask idx) = ringSize - mask idx := Nat.min_eq_right (by omega)
    simp only [part]
    have first : fetch ring (mask idx) (ringSize - mask idx) =
        ringRead ring ringSize idx (ringSize - mask idx) := fetch_eq_ringRead rfl (by omega)
    -- the second part begins a new lap
    have lap : (idx + (ringSize - mask idx)) % ringSize = 0 := by
      simp only [mask, ringSize] at cell ⊢
      omega
    have second : fetch ring 0 (len - (ringSize - mask idx)) =
        ringRead ring ringSize (idx + (ringSize - mask idx)) (len - (ringSize - mask idx)) :=
      fetch_eq_ringRead lap (by omega)
    rw [first, second, ← ringRead_add]
    congr 1
    omega

/-! ## Indices and positions

An index is a position of the byte stream modulo 2^32, which is a multiple of the
ring size. -/

theorem mod_lap (i : Nat) : i % 2 ^ 32 ≡ i [MOD ringSize] :=
  Nat.mod_mod_of_dvd i (by decide)

/-- Bytes that the producer has put in and the consumer has not taken. -/
abbrev used (prod cons : Nat) : Nat := uintSub prod cons

theorem used_of_position {cons position n : Nat} (index : cons = position % 2 ^ 32)
    (small : n ≤ ringSize) : used ((position + n) % 2 ^ 32) cons = n := by
  simp only [used, uintSub, ringSize] at *
  omega

theorem position_of_used {prod : Nat} (cons : Nat) (prodIndex : prod < 2 ^ 32) :
    prod = (cons + used prod cons) % 2 ^ 32 := by
  simp only [used, uintSub]
  omega

end Stardust.Xenbus
