import Inet4.Serialization.StreamRoundTrip

/-!
# Streams at byte boundaries

Headers are written and read at byte boundaries.  There a write appends the bytes of its value to
the data, and a read takes the bytes of its value from the front of those that are still to come.
-/

namespace Inet4.Serialization

open BitPacking List

inductive CrcMode
  | CRC_MODE_UNDEFINED
  | CRC_DISABLED
  | CRC_DECLARED_CORRECT
  | CRC_DECLARED_INCORRECT
  | CRC_COMPUTED
  deriving DecidableEq, Repr

theorem setWidth_setWidth_of_lt {v w : ℕ} {value : BitVec w} (hlt : value.toNat < 2 ^ v) :
    (value.setWidth v).setWidth w = value := by
  apply BitVec.eq_of_toNat_eq
  rw [BitVec.toNat_setWidth, BitVec.toNat_setWidth, Nat.mod_eq_of_lt hlt,
    Nat.mod_eq_of_lt value.isLt]

theorem toNat_setWidth_of_lt {v w : ℕ} {value : BitVec w} (hlt : value.toNat < 2 ^ v) :
    (value.setWidth v).toNat = value.toNat := by
  rw [BitVec.toNat_setWidth, Nat.mod_eq_of_lt hlt]

theorem orBytes_bytesAt_two (value : BitVec 16) :
    orBytes 0 [8, 0] (bytesAt [8, 0] value) = value :=
  orBytes_bytesAt value fun i hbit ↦
    have hcover : ∀ i < 16, ∃ shift ∈ [8, 0], shift ≤ i ∧ i < shift + 8 := by decide
    hcover i (BitVec.lt_of_getLsbD hbit)

theorem orBytes_bytesAt_four (value : BitVec 32) :
    orBytes 0 [24, 16, 8, 0] (bytesAt [24, 16, 8, 0] value) = value :=
  orBytes_bytesAt value fun i hbit ↦
    have hcover : ∀ i < 32, ∃ shift ∈ [24, 16, 8, 0], shift ≤ i ∧ i < shift + 8 := by decide
    hcover i (BitVec.lt_of_getLsbD hbit)

namespace MemoryOutputStream

variable {stream : MemoryOutputStream}

/-- The same byte, again and again. -/
def writeByteRepeatedly (stream : MemoryOutputStream) (value : BitVec 8) (count : ℕ) :
    MemoryOutputStream :=
  (replicate count value).foldl writeByte stream

/-- The stream after writing the bytes one by one. -/
def append (stream : MemoryOutputStream) (bytes : List (BitVec 8)) : MemoryOutputStream :=
  bytes.foldl writeByte stream

@[simp]
theorem append_append (stream : MemoryOutputStream) (first second : List (BitVec 8)) :
    (stream.append first).append second = stream.append (first ++ second) :=
  foldl_append.symm

@[simp]
theorem writeByte_eq_append (stream : MemoryOutputStream) (value : BitVec 8) :
    stream.writeByte value = stream.append [value] := rfl

@[simp]
theorem writeUint16Be_eq_append (stream : MemoryOutputStream) (value : BitVec 16) :
    stream.writeUint16Be value = stream.append (bytesAt [8, 0] value) := rfl

@[simp]
theorem writeUint32Be_eq_append (stream : MemoryOutputStream) (value : BitVec 32) :
    stream.writeUint32Be value = stream.append (bytesAt [24, 16, 8, 0] value) := rfl

@[simp]
theorem writeIpv4Address_eq_append (stream : MemoryOutputStream) (value : Ipv4.Ipv4Address) :
    stream.writeIpv4Address value = stream.append (bytesAt [24, 16, 8, 0] value) := rfl

theorem writeByteRepeatedly_eq_append (stream : MemoryOutputStream) (value : BitVec 8)
    (count : ℕ) : stream.writeByteRepeatedly value count = stream.append (replicate count value) :=
  rfl

theorem foldl_append_eq {α : Type} (bytes : α → List (BitVec 8)) (items : List α)
    (stream : MemoryOutputStream) :
    items.foldl (fun stream item ↦ stream.append (bytes item)) stream =
      stream.append (items.flatMap bytes) := by
  induction items generalizing stream with
  | nil => rfl
  | cons item items ih => rw [foldl_cons, ih, append_append, flatMap_cons]

@[simp]
theorem length_append (stream : MemoryOutputStream) (bytes : List (BitVec 8)) :
    (stream.append bytes).length = stream.length + 8 * bytes.length :=
  length_foldl_writeByte bytes stream

theorem data_append (bytes : List (BitVec 8)) (haligned : stream.length % 8 = 0) :
    (stream.append bytes).data = stream.data ++ bytes :=
  data_foldl_writeByte bytes haligned

theorem writeBytes_eq_append (bytes : List (BitVec 8)) (haligned : stream.length % 8 = 0) :
    stream.writeBytes bytes = .ok (stream.append bytes) :=
  writeBytes_of_aligned bytes haligned

end MemoryOutputStream

namespace MemoryInputStream

variable {stream : MemoryInputStream} {first bytes : List (BitVec 8)} {byte : BitVec 8}

def getRemainingLength (stream : MemoryInputStream) : ℕ := stream.length - stream.position

def seek (stream : MemoryInputStream) (position : ℕ) : Except Fault MemoryInputStream := do
  assert (position ≤ stream.length)
  pure { stream with position := position }

/-- A loop of `readByte`. -/
def readBytewise (stream : MemoryInputStream) :
    ℕ → Except Fault (List (BitVec 8) × MemoryInputStream)
  | 0 => .ok ([], stream)
  | count + 1 => do
    let (byte, stream) ← stream.readByte
    let (bytes, stream) ← stream.readBytewise count
    pure (byte :: bytes, stream)

/-- The stream is at a byte boundary and `bytes` are all that is still to come. -/
structure Upcoming (stream : MemoryInputStream) (bytes : List (BitVec 8)) : Prop where
  aligned : stream.position % 8 = 0
  remaining : stream.data.drop (stream.position / 8) = bytes
  length_eq : stream.length = 8 * stream.data.length
  position_le : stream.position ≤ stream.length

theorem upcoming_ofOutput {output : MemoryOutputStream} (haligned : output.length % 8 = 0) :
    (ofOutput output).Upcoming output.data where
  aligned := rfl
  remaining := by
    rw [ofOutput, Nat.zero_div, drop_zero]
  length_eq := by
    have hsize := output.size_eq
    simp only [ofOutput]
    omega
  position_le := Nat.zero_le _

namespace Upcoming

theorem getRemainingLength_eq (h : stream.Upcoming bytes) :
    stream.getRemainingLength = 8 * bytes.length := by
  have haligned := h.aligned
  have hlength := h.length_eq
  rw [← h.remaining, length_drop, getRemainingLength]
  omega

theorem has (h : stream.Upcoming (first ++ bytes)) : stream.Has (8 * first.length) := by
  have hremaining := h.getRemainingLength_eq
  have hle := h.position_le
  rw [getRemainingLength, length_append] at hremaining
  exact ⟨by omega, Nat.le_of_eq h.length_eq⟩

theorem advance (h : stream.Upcoming (first ++ bytes)) :
    (stream.advance (8 * first.length)).Upcoming bytes := by
  have haligned := h.aligned
  have hend := h.has.end_le
  constructor
  · simp only [MemoryInputStream.advance]
    omega
  · have hindex : (stream.position + 8 * first.length) / 8 =
        stream.position / 8 + first.length := by
      omega
    have hdrop := congrArg (drop first.length) h.remaining
    rw [drop_drop, drop_left] at hdrop
    simp only [MemoryInputStream.advance, hindex]
    exact hdrop
  · exact h.length_eq
  · exact hend

theorem next_eq (h : stream.Upcoming bytes) (i : ℕ) : stream.next i = bitAt bytes i := by
  have haligned := h.aligned
  have hdiv : (stream.position + i) / 8 = stream.position / 8 + i / 8 := by omega
  have hmod : (stream.position + i) % 8 = i % 8 := by omega
  rw [next, bitAt, bitAt, hdiv, hmod, ← h.remaining, getD, getD, getElem?_drop]

theorem bytesFrom_next (h : stream.Upcoming (first ++ bytes)) :
    bytesFrom stream.next first.length = first := by
  rw [bytesFrom_eq_iff rfl]
  intro i hi
  have hlt : i / 8 < first.length := by omega
  rw [h.next_eq, bitAt, bitAt, getD, getD, getElem?_append_left hlt]

theorem readByte (h : stream.Upcoming (byte :: bytes)) :
    stream.readByte = .ok (byte, stream.advance 8) := by
  have h' : stream.Upcoming ([byte] ++ bytes) := h
  have hbyte := h'.bytesFrom_next
  have hone : bytesFrom stream.next 1 = [byteOf stream.next] := by
    rfl
  rw [length_singleton, hone] at hbyte
  rw [readByte_eq h'.has, head_eq_of_cons_eq hbyte]

theorem advance_one (h : stream.Upcoming (byte :: bytes)) : (stream.advance 8).Upcoming bytes := by
  have h' : stream.Upcoming ([byte] ++ bytes) := h
  exact h'.advance

theorem readByte_second {byte' : BitVec 8} (h : stream.Upcoming (byte :: byte' :: bytes)) :
    (stream.advance 8).readByte = .ok (byte', stream.advance 16) := by
  rw [h.advance_one.readByte, MemoryInputStream.advance_advance]

theorem advance_two {byte' : BitVec 8} (h : stream.Upcoming (byte :: byte' :: bytes)) :
    (stream.advance 16).Upcoming bytes := by
  exact h.advance_one.advance_one

/-- A multi-byte value whose bytes are next. -/
theorem readShifted {w : ℕ} {shifts : List ℕ} {value : BitVec w}
    (h : stream.Upcoming (bytesAt shifts value ++ bytes))
    (hcover : ∀ i < w, ∃ shift ∈ shifts, shift ≤ i ∧ i < shift + 8) :
    MemoryInputStream.readShifted w shifts stream =
      .ok (value, stream.advance (8 * shifts.length)) := by
  have hlength : (bytesAt shifts value).length = shifts.length := length_map _
  have hhas := h.has
  have hbytes := h.bytesFrom_next
  rw [hlength] at hhas hbytes
  rw [readShifted_eq w shifts hhas, hbytes,
    orBytes_bytesAt value fun i hbit ↦ hcover i (BitVec.lt_of_getLsbD hbit)]

theorem readUint16Be {value : BitVec 16} (h : stream.Upcoming (bytesAt [8, 0] value ++ bytes)) :
    stream.readUint16Be = .ok (value, stream.advance 16) :=
  h.readShifted (by decide)

theorem readUint32Be {value : BitVec 32}
    (h : stream.Upcoming (bytesAt [24, 16, 8, 0] value ++ bytes)) :
    stream.readUint32Be = .ok (value, stream.advance 32) :=
  h.readShifted (by decide)

theorem readIpv4Address {value : Ipv4.Ipv4Address}
    (h : stream.Upcoming (bytesAt [24, 16, 8, 0] value ++ bytes)) :
    stream.readIpv4Address = .ok (value, stream.advance 32) :=
  h.readUint32Be

theorem readBytes (h : stream.Upcoming (first ++ bytes)) :
    stream.readBytes first.length = .ok (first, stream.advance (8 * first.length)) := by
  have hhas := h.has
  have hend := hhas.end_le
  have hlength := hhas.length_le
  have haligned := h.aligned
  have hbeyond : decide (stream.length < stream.position + 8 * first.length) = false :=
    decide_eq_false (by omega)
  have haligned' : assert (stream.position % 8 = 0) = .ok () := if_pos haligned
  have hassert : assert (stream.position / 8 + first.length ≤ stream.data.length) = .ok () :=
    if_pos (by omega)
  rw [MemoryInputStream.readBytes, bind_of_ok haligned']
  simp only [hbeyond, Bool.false_eq_true, if_false, hassert, h.remaining, take_left,
    Bool.or_false]
  rfl

theorem readBytewise (h : stream.Upcoming (first ++ bytes)) :
    stream.readBytewise first.length = .ok (first, stream.advance (8 * first.length)) := by
  induction first generalizing stream with
  | nil => rfl
  | cons byte first ih =>
    have hbyte : stream.Upcoming (byte :: (first ++ bytes)) := h
    have hrest := ih hbyte.advance_one
    have hlength : 8 + 8 * first.length = 8 * (first.length + 1) := by omega
    rw [length_cons, MemoryInputStream.readBytewise, bind_of_ok hbyte.readByte, ← hlength,
      ← MemoryInputStream.advance_advance]
    exact bind_of_ok hrest

end Upcoming

end MemoryInputStream

end Inet4.Serialization
