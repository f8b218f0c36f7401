import Inet4.Serialization.MemoryOutputStream

/-!
# The memory input stream

`MemoryInputStream` reads typed values from a vector of bytes.  A read past the end of the stream
sets a flag and delivers zero.  The lemmas below say what each read delivers, and how far it
advances, when the stream holds enough bits: the value is put together from the bits at the
position, whatever this position is.
-/

namespace Inet4.Serialization

open BitPacking List
open Ieee80211 (MacAddress)
open Ipv4 (Ipv4Address)

/-- `MacAddress::setAddressByte`, for `k < MAC_ADDRESS_SIZE`. -/
def setAddressByte (address : MacAddress) (k : ℕ) (addrbyte : BitVec 8) : MacAddress :=
  let offset := (6 - k - 1) * 8
  (address &&& ~~~(0xff#48 <<< offset)) ||| (addrbyte.setWidth 48 <<< offset)

structure MemoryInputStream where
  data : List (BitVec 8)
  length : ℕ
  position : ℕ
  isReadBeyondEnd : Bool

namespace MemoryInputStream

/-- The stream constructed from the data and the length of an output stream. -/
def ofOutput (stream : MemoryOutputStream) : MemoryInputStream where
  data := stream.data
  length := stream.length
  position := 0
  isReadBeyondEnd := false

variable (stream : MemoryInputStream)

/-- `data.at(index)`, or `data[index]`. -/
def byteAt (index : ℕ) : Except Fault (BitVec 8) :=
  match stream.data[index]? with
  | some byte => .ok byte
  | none => .error .undefinedBehaviour

/-- The stream `count` bits further on. -/
def advance (count : ℕ) : MemoryInputStream :=
  { stream with position := stream.position + count }

def readBit : Except Fault (Bool × MemoryInputStream) :=
  if stream.position = stream.length then .ok (false, { stream with isReadBeyondEnd := true })
  else do
    let byte ← stream.byteAt (stream.position / 8)
    pure (byte &&& (1#8 <<< (7 - stream.position % 8)) ≠ 0, stream.advance 1)

def readBits (stream : MemoryInputStream) : ℕ → Except Fault (List Bool × MemoryInputStream)
  | 0 => .ok ([], stream)
  | count + 1 =>
    if stream.isReadBeyondEnd then .ok ([], stream)
    else do
      let (bit, stream) ← stream.readBit
      let (bits, stream) ← stream.readBits count
      pure (bit :: bits, stream)

def readByte : Except Fault (BitVec 8 × MemoryInputStream) :=
  if stream.length < stream.position + 8 then
    .ok (0, { stream with isReadBeyondEnd := true, position := stream.length })
  else if stream.position % 8 = 0 then do
    let byte ← stream.byteAt (stream.position / 8)
    pure (byte, stream.advance 8)
  else do
    let l1 := stream.position % 8
    let l2 := 8 - l1
    let first ← stream.byteAt ((stream.position - l1) / 8)
    let second ← stream.byteAt ((stream.position + l2) / 8)
    pure ((first <<< l1) ||| (second >>> l2), stream.advance 8)

def readBytes (count : ℕ) : Except Fault (List (BitVec 8) × MemoryInputStream) := do
  assert (stream.position % 8 = 0)
  let beyond := decide (stream.length < stream.position + 8 * count)
  let count := if beyond then (stream.length - stream.position) / 8 else count
  assert (stream.position / 8 + count ≤ stream.data.length)
  pure ((stream.data.drop (stream.position / 8)).take count,
    { stream with
      position := stream.position + 8 * count
      isReadBeyondEnd := stream.isReadBeyondEnd || beyond })

def readUint2 : Except Fault (BitVec 8 × MemoryInputStream) := do
  let (bit1, stream) ← stream.readBit
  let (bit0, stream) ← stream.readBit
  pure ((if bit1 then 0x2 else 0) ||| (if bit0 then 0x1 else 0), stream)

def readUint4 : Except Fault (BitVec 8 × MemoryInputStream) := do
  let (bit3, stream) ← stream.readBit
  let (bit2, stream) ← stream.readBit
  let (bit1, stream) ← stream.readBit
  let (bit0, stream) ← stream.readBit
  pure ((if bit3 then 0x8 else 0) ||| (if bit2 then 0x4 else 0) ||| (if bit1 then 0x2 else 0) |||
    (if bit0 then 0x1 else 0), stream)

/-- A loop that reads one byte for each index. -/
def readEach {α I : Type} (step : α → I → BitVec 8 → α) :
    List I → α → MemoryInputStream → Except Fault (α × MemoryInputStream)
  | [], value, stream => .ok (value, stream)
  | i :: indices, value, stream => do
    let (byte, stream) ← stream.readByte
    readEach step indices (step value i byte) stream

/-- `value |= readByte() << shift`, in the order of the shifts. -/
def readShifted (w : ℕ) (shifts : List ℕ) (stream : MemoryInputStream) :
    Except Fault (BitVec w × MemoryInputStream) :=
  readEach orByte shifts 0#w stream

def readUint8 : Except Fault (BitVec 8 × MemoryInputStream) :=
  stream.readByte

def readUint16Be : Except Fault (BitVec 16 × MemoryInputStream) :=
  readShifted 16 [8, 0] stream

def readUint16Le : Except Fault (BitVec 16 × MemoryInputStream) :=
  readShifted 16 [0, 8] stream

def readUint24Be : Except Fault (BitVec 32 × MemoryInputStream) :=
  readShifted 32 [16, 8, 0] stream

def readUint24Le : Except Fault (BitVec 32 × MemoryInputStream) :=
  readShifted 32 [0, 8, 16] stream

def readUint32Be : Except Fault (BitVec 32 × MemoryInputStream) :=
  readShifted 32 [24, 16, 8, 0] stream

def readUint32Le : Except Fault (BitVec 32 × MemoryInputStream) :=
  readShifted 32 [0, 8, 16, 24] stream

def readUint64Be : Except Fault (BitVec 64 × MemoryInputStream) :=
  readShifted 64 [56, 48, 40, 32, 24, 16, 8, 0] stream

def readUint64Le : Except Fault (BitVec 64 × MemoryInputStream) :=
  readShifted 64 [0, 8, 16, 24, 32, 40, 48, 56] stream

def readMacAddress : Except Fault (MacAddress × MemoryInputStream) :=
  readEach setAddressByte (range 6) 0#48 stream

def readIpv4Address : Except Fault (Ipv4Address × MemoryInputStream) :=
  stream.readUint32Be

def readIpv6Address : Except Fault (Ipv6Address × MemoryInputStream) := do
  let (d0, stream) ← stream.readUint32Be
  let (d1, stream) ← stream.readUint32Be
  let (d2, stream) ← stream.readUint32Be
  let (d3, stream) ← stream.readUint32Be
  pure (⟨![d0, d1, d2, d3]⟩, stream)

/-- The loop of `readNBitsToUint64Be` with `count` rounds left. -/
def readMasked : ℕ → BitVec 64 → BitVec 64 → MemoryInputStream →
    Except Fault (BitVec 64 × MemoryInputStream)
  | 0, _, num, stream => .ok (num, stream)
  | count + 1, mul, num, stream => do
    let (bit, stream) ← stream.readBit
    readMasked count (mul >>> 1) (if bit then num ||| mul else num) stream

def readNBitsToUint64Be (n : BitVec 8) : Except Fault (BitVec 64 × MemoryInputStream) :=
  if n = 0 ∨ n > 64 then .error .runtimeError
  else do
    let mul ← shiftedOne (n.toNat - 1)
    readMasked n.toNat mul 0 stream

variable {stream} {m n : ℕ}

/-- The stream holds `n` more bits. -/
structure Has (stream : MemoryInputStream) (n : ℕ) : Prop where
  end_le : stream.position + n ≤ stream.length
  length_le : stream.length ≤ 8 * stream.data.length

/-- The bits from the position on. -/
def next (stream : MemoryInputStream) (i : ℕ) : Bool := bitAt stream.data (stream.position + i)

@[simp]
theorem advance_advance (stream : MemoryInputStream) (m n : ℕ) :
    (stream.advance m).advance n = stream.advance (m + n) := by
  simp [advance, Nat.add_assoc]

@[simp]
theorem next_advance (stream : MemoryInputStream) (m i : ℕ) :
    (stream.advance m).next i = stream.next (m + i) := by
  simp [next, advance, Nat.add_assoc]

theorem Has.mono (h : stream.Has n) (hle : m ≤ n) : stream.Has m :=
  ⟨Nat.le_trans (Nat.add_le_add_left hle _) h.end_le, h.length_le⟩

theorem Has.advance (h : stream.Has (m + n)) : (stream.advance m).Has n := by
  have hend := h.end_le
  refine ⟨?_, h.length_le⟩
  simp only [MemoryInputStream.advance]
  omega

theorem byteAt_eq (stream : MemoryInputStream) {index : ℕ} (h : index < stream.data.length) :
    stream.byteAt index = .ok (stream.data.getD index 0#8) := by
  rw [byteAt, getD, getElem?_eq_getElem h]
  rfl

theorem and_one_shiftLeft_ne_zero (byte : BitVec 8) : ∀ k < 8,
    decide (byte &&& (1#8 <<< (7 - k)) ≠ 0) = byte.getMsbD k := by
  revert byte
  decide +kernel

theorem readBit_eq (h : stream.Has 1) : stream.readBit = .ok (stream.next 0, stream.advance 1) := by
  have hend := h.end_le
  have hlength := h.length_le
  have hne : stream.position ≠ stream.length := by omega
  have hbit := and_one_shiftLeft_ne_zero (stream.data.getD (stream.position / 8) 0#8)
    (stream.position % 8) (Nat.mod_lt _ (by decide))
  rw [readBit, if_neg hne, bind_of_ok (byteAt_eq stream (by omega)), hbit]
  rfl

theorem readBits_eq (hend : stream.isReadBeyondEnd = false) (h : stream.Has n) :
    stream.readBits n = .ok ((range n).map stream.next, stream.advance n) := by
  induction n generalizing stream with
  | zero => rfl
  | succ n ih =>
    have hone : stream.Has (1 + n) := h.mono (by omega)
    have hrest : (stream.advance 1).readBits n =
        .ok ((range n).map (stream.advance 1).next, (stream.advance 1).advance n) :=
      ih hend hone.advance
    have hbits : (range n).map (stream.advance 1).next =
        (range n).map (stream.next ∘ Nat.succ) := by
      apply map_congr_left
      intro i _
      rw [next_advance, Function.comp_apply, Nat.succ_eq_add_one, Nat.add_comm]
    rw [readBits, hend, if_neg Bool.false_ne_true, bind_of_ok (readBit_eq (hone.mono (by omega)))]
    simp only [hrest, hbits, range_succ_eq_map, map_cons, map_map, advance_advance,
      Nat.add_comm 1 n]
    rfl

theorem readByte_eq (h : stream.Has 8) :
    stream.readByte = .ok (byteOf stream.next, stream.advance 8) := by
  have hend := h.end_le
  have hlength := h.length_le
  rw [readByte, if_neg (by omega)]
  split
  · rename_i haligned
    rw [bind_of_ok (byteAt_eq stream (by omega))]
    congr 2
    apply Eq.symm
    apply byteOf_eq
    intro j hj
    have hdiv : (stream.position + j) / 8 = stream.position / 8 := by omega
    have hmod : (stream.position + j) % 8 = j := by omega
    rw [next, bitAt, hdiv, hmod]
  · rename_i haligned
    rw [bind_of_ok (byteAt_eq stream (by omega)), bind_of_ok (byteAt_eq stream (by omega))]
    congr 2
    apply Eq.symm
    apply byteOf_eq
    intro j hj
    rw [BitVec.getMsbD_or, BitVec.getMsbD_shiftLeft, BitVec.getMsbD_ushiftRight, next, bitAt]
    by_cases hfirst : j + stream.position % 8 < 8
    · have hdiv : (stream.position + j) / 8 =
        (stream.position - stream.position % 8) / 8 := by omega
      have hmod : (stream.position + j) % 8 = j + stream.position % 8 := by omega
      have hlt : j < 8 - stream.position % 8 := by omega
      simp [hdiv, hmod, hlt]
    · have hdiv : (stream.position + j) / 8 =
        (stream.position + (8 - stream.position % 8)) / 8 := by
        omega
      have hmod : (stream.position + j) % 8 = j - (8 - stream.position % 8) := by omega
      have hlt : ¬j < 8 - stream.position % 8 := by omega
      have hout : 8 ≤ j + stream.position % 8 := by omega
      rw [BitVec.getMsbD_of_ge _ _ hout]
      simp [hdiv, hmod, hlt, hj]

theorem readEach_eq {α I : Type} (step : α → I → BitVec 8 → α) (indices : List I) (value : α)
    (h : stream.Has (8 * indices.length)) :
    readEach step indices value stream =
      .ok ((indices.zip (bytesFrom stream.next indices.length)).foldl
          (fun value part ↦ step value part.1 part.2) value,
        stream.advance (8 * indices.length)) := by
  induction indices generalizing value stream with
  | nil => rfl
  | cons i indices ih =>
    have hsum : 8 * (indices.length + 1) = 8 + 8 * indices.length := by omega
    rw [length_cons, hsum] at h
    have hnext : (stream.advance 8).next = fun i ↦ stream.next (8 + i) := by
      funext i
      exact stream.next_advance 8 i
    have hrest := ih (step value i (byteOf stream.next)) h.advance
    rw [readEach, bind_of_ok (readByte_eq (h.mono (by omega)))]
    simp only [hrest, hsum, length_cons, bytesFrom_succ, zip_cons_cons, foldl_cons,
      advance_advance, hnext]

theorem readShifted_eq (w : ℕ) (shifts : List ℕ) (h : stream.Has (8 * shifts.length)) :
    readShifted w shifts stream =
      .ok (orBytes 0#w shifts (bytesFrom stream.next shifts.length),
        stream.advance (8 * shifts.length)) :=
  readEach_eq orByte shifts 0#w h

/-- A bit that is not the next one. -/
theorem readBit_advance (h : stream.Has (n + 1)) :
    (stream.advance n).readBit = .ok (stream.next n, stream.advance (n + 1)) := by
  rw [readBit_eq h.advance, next_advance, advance_advance, Nat.add_zero]

/-- The value that `readUint2` puts together. -/
def uint2Of (bits : ℕ → Bool) : BitVec 8 :=
  (if bits 0 then 0x2 else 0) ||| (if bits 1 then 0x1 else 0)

/-- The value that `readUint4` puts together. -/
def uint4Of (bits : ℕ → Bool) : BitVec 8 :=
  (if bits 0 then 0x8 else 0) ||| (if bits 1 then 0x4 else 0) ||| (if bits 2 then 0x2 else 0) |||
    (if bits 3 then 0x1 else 0)

theorem readUint2_eq (h : stream.Has 2) :
    stream.readUint2 = .ok (uint2Of stream.next, stream.advance 2) := by
  have hfirst := readBit_eq (h.mono (by decide))
  have hsecond := readBit_advance h
  rw [readUint2, bind_of_ok hfirst]
  exact bind_of_ok hsecond

theorem readUint4_eq (h : stream.Has 4) :
    stream.readUint4 = .ok (uint4Of stream.next, stream.advance 4) := by
  have hfirst := readBit_eq (h.mono (by decide))
  have hsecond : (stream.advance 1).readBit = .ok (stream.next 1, stream.advance 2) :=
    readBit_advance (h.mono (by decide))
  have hthird : (stream.advance 2).readBit = .ok (stream.next 2, stream.advance 3) :=
    readBit_advance (h.mono (by decide))
  have hfourth := readBit_advance h
  rw [readUint4, bind_of_ok hfirst]
  apply (bind_of_ok hsecond).trans
  apply (bind_of_ok hthird).trans
  exact bind_of_ok hfourth

/-- The value that `readNBitsToUint64Be` puts together, `num` being what it has so far. -/
def maskedOf (mul : BitVec 64) (bits : ℕ → Bool) : ℕ → BitVec 64 → BitVec 64
  | 0, num => num
  | count + 1, num =>
    maskedOf (mul >>> 1) (fun i ↦ bits (1 + i)) count (if bits 0 then num ||| mul else num)

theorem readMasked_eq (count : ℕ) (mul num : BitVec 64) (h : stream.Has count) :
    readMasked count mul num stream =
      .ok (maskedOf mul stream.next count num, stream.advance count) := by
  induction count generalizing mul num stream with
  | zero => rfl
  | succ count ih =>
    have hone : stream.Has (1 + count) := h.mono (by omega)
    have hnext : (stream.advance 1).next = fun i ↦ stream.next (1 + i) := by
      funext i
      exact stream.next_advance 1 i
    have hrest := ih (mul >>> 1) (if stream.next 0 then num ||| mul else num) hone.advance
    rw [readMasked, bind_of_ok (readBit_eq (hone.mono (by omega)))]
    simp only [hrest, hnext, maskedOf, advance_advance, Nat.add_comm 1 count]

theorem setAddressByte_eq_orByte (address : MacAddress) {k : ℕ} (addrbyte : BitVec 8)
    (hclear : ∀ j < 8, address.getLsbD ((6 - k - 1) * 8 + j) = false) :
    setAddressByte address k addrbyte = orByte address ((6 - k - 1) * 8) addrbyte := by
  apply BitVec.eq_of_getLsbD_eq
  intro i hi
  have hones : 0xff#48 = (BitVec.allOnes 8).setWidth 48 := rfl
  simp only [setAddressByte, orByte, hones, BitVec.getLsbD_or, BitVec.getLsbD_and,
    BitVec.getLsbD_not, BitVec.getLsbD_shiftLeft, BitVec.getLsbD_setWidth,
    BitVec.getLsbD_allOnes]
  by_cases hinside : (6 - k - 1) * 8 ≤ i ∧ i < (6 - k - 1) * 8 + 8
  · have hbit := hclear (i - (6 - k - 1) * 8) (by omega)
    rw [Nat.add_sub_cancel' hinside.1] at hbit
    simp [hbit]
  · have hout : i < (6 - k - 1) * 8 ∨ ¬i - (6 - k - 1) * 8 < 8 := by omega
    rcases hout with hlow | hhigh
    · simp [hi, hlow]
    · simp [hi, hhigh]

theorem foldl_setAddressByte (indices : List ℕ) (bytes : List (BitVec 8)) (address : MacAddress)
    (hlt : ∀ k ∈ indices, k < 6) (hnodup : indices.Nodup)
    (hclear : ∀ k ∈ indices, ∀ j < 8, address.getLsbD ((6 - k - 1) * 8 + j) = false) :
    (indices.zip bytes).foldl (fun address part ↦ setAddressByte address part.1 part.2) address =
      orBytes address (indices.map fun k ↦ (6 - k - 1) * 8) bytes := by
  induction indices generalizing bytes address with
  | nil => rfl
  | cons k indices ih =>
    cases bytes with
    | nil => rfl
    | cons byte bytes =>
      have hstep := setAddressByte_eq_orByte address byte (hclear k mem_cons_self)
      have hrest : ∀ k' ∈ indices, ∀ j < 8,
          (orByte address ((6 - k - 1) * 8) byte).getLsbD ((6 - k' - 1) * 8 + j) = false := by
        intro k' hk' j hj
        have hne : k' ≠ k := fun heq ↦ (nodup_cons.mp hnodup).1 (heq ▸ hk')
        have hk := hlt k mem_cons_self
        have hk6 := hlt k' (mem_cons_of_mem _ hk')
        rw [getLsbD_orByte, hclear k' (mem_cons_of_mem _ hk') j hj, Bool.false_or]
        by_cases hle : (6 - k - 1) * 8 ≤ (6 - k' - 1) * 8 + j
        · rw [BitVec.getLsbD_of_ge byte _ (by omega), Bool.and_false]
        · simp [hle]
      have htail := ih bytes _ (fun k' hk' ↦ hlt k' (mem_cons_of_mem _ hk'))
        (nodup_cons.mp hnodup).2 hrest
      rw [zip_cons_cons, foldl_cons, hstep, htail]
      rfl

theorem readMacAddress_eq (h : stream.Has 48) :
    stream.readMacAddress =
      .ok (orBytes 0#48 [40, 32, 24, 16, 8, 0] (bytesFrom stream.next 6), stream.advance 48) := by
  have hclear : ∀ k ∈ range 6, ∀ j < 8, (0#48).getLsbD ((6 - k - 1) * 8 + j) = false := by
    intro k _ j _
    exact BitVec.getLsbD_zero
  have hfold := foldl_setAddressByte (range 6) (bytesFrom stream.next 6) 0#48
    (fun k hk ↦ mem_range.mp hk) nodup_range hclear
  have hread := readEach_eq setAddressByte (range 6) 0#48 h
  rw [length_range, hfold] at hread
  exact hread

theorem readIpv6Address_eq (h : stream.Has 128) :
    stream.readIpv6Address =
      .ok (⟨fun k ↦ orBytes 0#32 [24, 16, 8, 0] (bytesFrom (fun i ↦ stream.next (32 * k + i)) 4)⟩,
        stream.advance 128) := by
  have hword : ∀ k, stream.Has (32 * k + 32) → (stream.advance (32 * k)).readUint32Be =
      .ok (orBytes 0#32 [24, 16, 8, 0] (bytesFrom (fun i ↦ stream.next (32 * k + i)) 4),
        stream.advance (32 * k + 32)) := by
    intro k hk
    have hread := readShifted_eq 32 [24, 16, 8, 0] hk.advance
    have hnext : (stream.advance (32 * k)).next = fun i ↦ stream.next (32 * k + i) := by
      funext i
      exact stream.next_advance (32 * k) i
    exact hread
  apply (bind_of_ok (hword 0 (h.mono (by decide)))).trans
  apply (bind_of_ok (hword 1 (h.mono (by decide)))).trans
  apply (bind_of_ok (hword 2 (h.mono (by decide)))).trans
  apply (bind_of_ok (hword 3 h)).trans
  apply congrArg fun d ↦ Except.ok (Ipv6Address.mk d, stream.advance 128)
  funext k
  fin_cases k <;> rfl

end MemoryInputStream

end Inet4.Serialization
