import Inet4.BitPacking
import Inet4.Ieee80211.Fragmentation
import Inet4.Ipv4.Fragmentation

/-!
# The memory output stream

`MemoryOutputStream` appends typed values to a vector of bytes.  Bits fill each byte from its most
significant bit.  A byte that does not start at a byte boundary is split over the last byte and a
new one; the bits of multi-byte values are those of their bytes.
-/

namespace Inet4.Serialization

open BitPacking List BitVec
open Ieee80211 (MacAddress)
open Ipv4 (Ipv4Address)

/-- `Ipv6Address`, with the four words `d`. -/
structure Ipv6Address where
  d : Fin 4 → BitVec 32

namespace Ipv6Address

def words (address : Ipv6Address) : List (BitVec 32) := ofFn address.d

end Ipv6Address

/-- `MacAddress::getAddressByte`, for `k < MAC_ADDRESS_SIZE`. -/
def getAddressByte (address : MacAddress) (k : ℕ) : BitVec 8 :=
  (address >>> ((6 - k - 1) * 8)).setWidth 8

/-- `MemoryOutputStream`: the bits written so far and their number. -/
structure MemoryOutputStream where
  data : List (BitVec 8)
  length : ℕ
  size_eq : data.length = (length + 7) / 8

/-- `1 << k`, computed with the type `int` and converted to `uint64_t`. -/
def shiftedOne (k : ℕ) : Except Fault (BitVec 64) :=
  if k < 32 then .ok ((1#32 <<< k).signExtend 64) else .error .undefinedBehaviour

namespace MemoryOutputStream

/-- The stream after its construction. -/
def empty : MemoryOutputStream where
  data := []
  length := 0
  size_eq := rfl

variable (stream : MemoryOutputStream)

def isByteAligned : Bool := stream.length % 8 = 0

/-- The data with room for one more bit. -/
def room : List (BitVec 8) :=
  if stream.length % 8 = 0 then stream.data ++ [0#8] else stream.data

theorem length_room : stream.room.length = stream.length / 8 + 1 := by
  have hsize := stream.size_eq
  unfold room
  split
  · rw [length_append, length_singleton]
    omega
  · omega

def writeBit (value : Bool) : MemoryOutputStream where
  data :=
    if value then
      stream.room.modify (stream.length / 8) (· ||| (1#8 <<< (7 - stream.length % 8)))
    else stream.room
  length := stream.length + 1
  size_eq := by
    have hroom := stream.length_room
    split
    · rw [length_modify]
      omega
    · omega

def writeBits (bits : List Bool) : MemoryOutputStream :=
  bits.foldl writeBit stream

variable (value : BitVec 8)

def writeByte : MemoryOutputStream :=
  if haligned : stream.length % 8 = 0 then
    { data := stream.data ++ [value]
      length := stream.length + 8
      size_eq := by
        rw [length_append, length_singleton, stream.size_eq]
        omega }
  else
    let l1 := stream.length % 8
    let l2 := 8 - l1
    { data :=
        stream.data.modify (stream.data.length - 1)
            (· ||| ((value.setWidth 32 &&& (0xFF#32 <<< l2)) >>> l2).setWidth 8) ++
          [((value.setWidth 32 &&& (0xFF#32 >>> l1)) <<< l1).setWidth 8]
      length := stream.length + 8
      size_eq := by
        rw [length_append, length_singleton, length_modify, stream.size_eq]
        omega }

def writeBytes (bytes : List (BitVec 8)) : Except Fault MemoryOutputStream :=
  if haligned : stream.length % 8 = 0 then
    .ok
      { data := stream.data ++ bytes
        length := stream.length + 8 * bytes.length
        size_eq := by
          rw [length_append, stream.size_eq]
          omega }
  else .error .runtimeError

def writeUint2 : MemoryOutputStream :=
  (stream.writeBit (value &&& 0x2 ≠ 0)).writeBit (value &&& 0x1 ≠ 0)

def writeUint4 : MemoryOutputStream :=
  (((stream.writeBit (value &&& 0x8 ≠ 0)).writeBit (value &&& 0x4 ≠ 0)).writeBit
    (value &&& 0x2 ≠ 0)).writeBit (value &&& 0x1 ≠ 0)

/-- The bytes `value >> shift`, in the order of the shifts. -/
def writeShifted {w : ℕ} (shifts : List ℕ) (stream : MemoryOutputStream) (value : BitVec w) :
    MemoryOutputStream :=
  (bytesAt shifts value).foldl writeByte stream

def writeUint8 : MemoryOutputStream :=
  stream.writeByte value

def writeUint16Be (value : BitVec 16) : MemoryOutputStream :=
  writeShifted [8, 0] stream value

def writeUint16Le (value : BitVec 16) : MemoryOutputStream :=
  writeShifted [0, 8] stream value

def writeUint24Be (value : BitVec 32) : MemoryOutputStream :=
  writeShifted [16, 8, 0] stream value

def writeUint24Le (value : BitVec 32) : MemoryOutputStream :=
  writeShifted [0, 8, 16] stream value

def writeUint32Be (value : BitVec 32) : MemoryOutputStream :=
  writeShifted [24, 16, 8, 0] stream value

def writeUint32Le (value : BitVec 32) : MemoryOutputStream :=
  writeShifted [0, 8, 16, 24] stream value

def writeUint64Be (value : BitVec 64) : MemoryOutputStream :=
  writeShifted [56, 48, 40, 32, 24, 16, 8, 0] stream value

def writeUint64Le (value : BitVec 64) : MemoryOutputStream :=
  writeShifted [0, 8, 16, 24, 32, 40, 48, 56] stream value

def writeMacAddress (address : MacAddress) : MemoryOutputStream :=
  (range 6).foldl (fun stream i ↦ stream.writeByte (getAddressByte address i)) stream

def writeIpv4Address (address : Ipv4Address) : MemoryOutputStream :=
  stream.writeUint32Be address

def writeIpv6Address (address : Ipv6Address) : MemoryOutputStream :=
  address.words.foldl writeUint32Be stream

/-- The loop of `writeNBitsOfUint64Be` with `count` rounds left. -/
def writeMasked (value : BitVec 64) : ℕ → BitVec 64 → MemoryOutputStream → MemoryOutputStream
  | 0, _, stream => stream
  | count + 1, mul, stream =>
    writeMasked value count (mul >>> 1) (stream.writeBit (value &&& mul ≠ 0))

def writeNBitsOfUint64Be (value : BitVec 64) (n : BitVec 8) : Except Fault MemoryOutputStream :=
  if n = 0 ∨ n > 64 then .error .runtimeError
  else do
    let mul ← shiftedOne (n.toNat - 1)
    pure (writeMasked value n.toNat mul stream)

variable {stream}

@[simp]
theorem length_writeBit (stream : MemoryOutputStream) (value : Bool) :
    (stream.writeBit value).length = stream.length + 1 := rfl

@[simp]
theorem length_writeByte (stream : MemoryOutputStream) (value : BitVec 8) :
    (stream.writeByte value).length = stream.length + 8 := by
  unfold writeByte
  split <;> rfl

theorem bitAt_room (stream : MemoryOutputStream) (i : ℕ) :
    bitAt stream.room i = bitAt stream.data i := by
  unfold room
  split
  · exact bitAt_append_zero stream.data i
  · rfl

theorem getMsbD_one_shiftLeft : ∀ k < 8, ∀ m < 8,
    (1#8 <<< (7 - k)).getMsbD m = decide (m = k) := by
  decide

/-- `writeBit` adds its bit at the end of the stream. -/
theorem bitAt_writeBit (stream : MemoryOutputStream) (value : Bool) (i : ℕ) :
    bitAt (stream.writeBit value).data i =
      (bitAt stream.data i || (decide (i = stream.length) && value)) := by
  have hroom := stream.length_room
  cases value with
  | false =>
    rw [Bool.and_false, Bool.or_false]
    exact stream.bitAt_room i
  | true =>
    have hindex : stream.length / 8 < stream.room.length := by omega
    have hbit := bitAt_modify_or hindex (1#8 <<< (7 - stream.length % 8)) i
    rw [bitAt_room, getMsbD_one_shiftLeft _ (Nat.mod_lt _ (by decide)) _
      (Nat.mod_lt _ (by decide))] at hbit
    have hposition : (decide (i / 8 = stream.length / 8) && decide (i % 8 = stream.length % 8)) =
        decide (i = stream.length) := by
      rw [← Bool.decide_and, decide_eq_decide]
      omega
    rw [hposition] at hbit
    rw [Bool.and_true]
    exact hbit

/-- The position at which `writeByte` puts the byte when the stream has `length` bits. -/
def bytePosition (length : ℕ) : ℕ := length / 8 * 8 + (8 - length % 8) % 8

theorem getLsbD_ff (k : ℕ) : (0xFF#32).getLsbD k = decide (k < 8) := by
  have hones : 0xFF#32 = (allOnes 8).setWidth 32 := rfl
  rw [hones, getLsbD_setWidth, getLsbD_allOnes, ← Bool.decide_and,
    decide_eq_decide]
  omega

theorem getMsbD_backByte {l2 m : ℕ} (hm : m < 8) :
    (((value.setWidth 32 &&& (0xFF#32 <<< l2)) >>> l2).setWidth 8).getMsbD m =
      (decide (l2 ≤ m) && value.getMsbD (m - l2)) := by
  rw [getMsbD_eq_getLsbD, getMsbD_eq_getLsbD, getLsbD_setWidth,
    getLsbD_ushiftRight, getLsbD_and, getLsbD_shiftLeft,
    getLsbD_setWidth, getLsbD_ff]
  by_cases hle : l2 ≤ m
  · have hindex : l2 + (8 - 1 - m) = 8 - 1 - (m - l2) := by omega
    grind
  · have hout : 8 ≤ l2 + (8 - 1 - m) := by omega
    simp [hle, getLsbD_of_ge value _ hout]

theorem getMsbD_pushedByte {l1 m : ℕ} (hm : m < 8) :
    (((value.setWidth 32 &&& (0xFF#32 >>> l1)) <<< l1).setWidth 8).getMsbD m =
      value.getMsbD (m + l1) := by
  rw [getMsbD_eq_getLsbD, getMsbD_eq_getLsbD, getLsbD_setWidth,
    getLsbD_shiftLeft, getLsbD_and, getLsbD_ushiftRight,
    getLsbD_setWidth, getLsbD_ff]
  by_cases hlt : m + l1 < 8
  · have hindex : 8 - 1 - m - l1 = 8 - 1 - (m + l1) := by omega
    grind
  · have hout : 8 - 1 - m < l1 := by omega
    simp [hlt, hout]

/-- `writeByte` adds the bits of its byte, in one piece but not always at the end of the stream. -/
theorem bitAt_writeByte (stream : MemoryOutputStream) (value : BitVec 8) (i : ℕ) :
    bitAt (stream.writeByte value).data i =
      (bitAt stream.data i || (decide (bytePosition stream.length ≤ i) &&
        value.getMsbD (i - bytePosition stream.length))) := by
  have hsize := stream.size_eq
  have hout : ∀ j, 8 ≤ j → value.getMsbD j = false := fun j hj ↦ getMsbD_of_ge value j hj
  unfold writeByte bytePosition
  split
  · rename_i haligned
    rw [bitAt_append_singleton]
    have hlength : stream.length / 8 * 8 + (8 - stream.length % 8) % 8 =
      8 * stream.data.length := by
      omega
    rw [hlength]
    split
    · rename_i hindex
      have hsub : i - 8 * stream.data.length = i % 8 := by omega
      have hle : 8 * stream.data.length ≤ i := by omega
      simp [hsub, hle, bitAt_of_length_le hle]
    · rename_i hindex
      by_cases hle : 8 * stream.data.length ≤ i
      · rw [hout _ (by omega)]
        simp
      · simp [hle]
  · rename_i haligned
    have hlast : stream.data.length - 1 = stream.length / 8 := by omega
    have hlength : stream.length / 8 * 8 + (8 - stream.length % 8) % 8 =
        8 * (stream.length / 8) + (8 - stream.length % 8) := by
      omega
    simp only [hlength, hlast]
    have hback : stream.length / 8 < stream.data.length := by omega
    rw [bitAt_append_singleton, length_modify, bitAt_modify_or hback,
      getMsbD_backByte value (Nat.mod_lt i (by decide)),
      getMsbD_pushedByte value (Nat.mod_lt i (by decide))]
    split
    · rename_i hindex
      have hle : 8 * (stream.length / 8) + (8 - stream.length % 8) ≤ i := by omega
      have hsub : i - (8 * (stream.length / 8) + (8 - stream.length % 8)) =
          i % 8 + stream.length % 8 := by
        omega
      rw [bitAt_of_length_le (by omega), hsub]
      simp [hle]
    · rename_i hindex
      congr 1
      by_cases hdiv : i / 8 = stream.length / 8
      · have hiff : 8 - stream.length % 8 ≤ i % 8 ↔
            8 * (stream.length / 8) + (8 - stream.length % 8) ≤ i := by
          omega
        have hsub : i % 8 - (8 - stream.length % 8) =
            i - (8 * (stream.length / 8) + (8 - stream.length % 8)) := by
          omega
        simp [hdiv, hiff, hsub]
      · by_cases hle : 8 * (stream.length / 8) + (8 - stream.length % 8) ≤ i
        · rw [hout (i - _) (by omega)]
          simp [hdiv]
        · simp [hdiv, hle]

end MemoryOutputStream

end Inet4.Serialization
