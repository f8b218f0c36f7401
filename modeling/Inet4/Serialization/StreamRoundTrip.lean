import Inet4.Serialization.StreamContent

/-!
# Reading back what was written

What is read back is what the data of the output stream carry, so that the values of a list of typed
writes come back exactly when the data carry their content and no value of `n` bits is written with
a mask that the type `int` cannot hold.
-/

namespace Inet4.Serialization

open BitPacking List MemoryInputStream
open Ieee80211 (MacAddress)
open Ipv4 (Ipv4Address)
open BitVec (twoPow lt_def getLsbD_twoPow getLsbD_zero)
open MemoryInputStream (readByte_eq readBit_eq readBits_eq readUint4_eq readUint2_eq readShifted_eq)

/-! ## Typed values -/

/-- The kinds of typed values. -/
inductive Format
  | bit
  | bits (count : ℕ)
  | byte
  | bytes (count : ℕ)
  | uint2
  | uint4
  | uint8
  | uint16Be
  | uint16Le
  | uint24Be
  | uint24Le
  | uint32Be
  | uint32Le
  | uint64Be
  | uint64Le
  | macAddress
  | ipv4Address
  | ipv6Address
  | nBitsOfUint64Be (n : BitVec 8)

namespace Format

/-- The C++ type of the values. -/
abbrev Value : Format → Type
  | bit => Bool
  | bits _ => List Bool
  | byte | uint2 | uint4 | uint8 => BitVec 8
  | bytes _ => List (BitVec 8)
  | uint16Be | uint16Le => BitVec 16
  | uint24Be | uint24Le | uint32Be | uint32Le => BitVec 32
  | uint64Be | uint64Le => BitVec 64
  | macAddress => MacAddress
  | ipv4Address => Ipv4Address
  | ipv6Address => Ipv6Address
  | nBitsOfUint64Be _ => BitVec 64

/-- The number of bits. -/
def width : Format → ℕ
  | bit => 1
  | bits count => count
  | byte | uint8 => 8
  | bytes count => 8 * count
  | uint2 => 2
  | uint4 => 4
  | uint16Be | uint16Le => 16
  | uint24Be | uint24Le => 24
  | uint32Be | uint32Le | ipv4Address => 32
  | uint64Be | uint64Le => 64
  | macAddress => 48
  | ipv6Address => 128
  | nBitsOfUint64Be n => n.toNat

/-- The values that have this number of bits. -/
def Fits : (format : Format) → format.Value → Prop
  | bits count, value => value.length = count
  | bytes count, value => value.length = count
  | uint2, value => value.toNat < 4
  | uint4, value => value.toNat < 16
  | uint24Be, value => value.toNat < 2 ^ 24
  | uint24Le, value => value.toNat < 2 ^ 24
  | nBitsOfUint64Be n, value => 1 ≤ n.toNat ∧ n.toNat ≤ 64 ∧ value.toNat < 2 ^ n.toNat
  | _, _ => True

/-- The formats whose functions do not fault at `offset`: `writeBytes` asserts that the stream ends
at a byte boundary, and the mask of the `n`-bit functions must be an `int`. -/
def Permitted (offset : ℕ) : Format → Prop
  | bytes _ => offset % 8 = 0
  | nBitsOfUint64Be n => 1 ≤ n.toNat ∧ n.toNat ≤ 32
  | _ => True

/-- The write of a value. -/
def write : (format : Format) → format.Value → MemoryOutputStream → Except Fault MemoryOutputStream
  | bit, value, stream => .ok (stream.writeBit value)
  | bits _, value, stream => .ok (stream.writeBits value)
  | byte, value, stream => .ok (stream.writeByte value)
  | bytes _, value, stream => stream.writeBytes value
  | uint2, value, stream => .ok (stream.writeUint2 value)
  | uint4, value, stream => .ok (stream.writeUint4 value)
  | uint8, value, stream => .ok (stream.writeUint8 value)
  | uint16Be, value, stream => .ok (stream.writeUint16Be value)
  | uint16Le, value, stream => .ok (stream.writeUint16Le value)
  | uint24Be, value, stream => .ok (stream.writeUint24Be value)
  | uint24Le, value, stream => .ok (stream.writeUint24Le value)
  | uint32Be, value, stream => .ok (stream.writeUint32Be value)
  | uint32Le, value, stream => .ok (stream.writeUint32Le value)
  | uint64Be, value, stream => .ok (stream.writeUint64Be value)
  | uint64Le, value, stream => .ok (stream.writeUint64Le value)
  | macAddress, value, stream => .ok (stream.writeMacAddress value)
  | ipv4Address, value, stream => .ok (stream.writeIpv4Address value)
  | ipv6Address, value, stream => .ok (stream.writeIpv6Address value)
  | nBitsOfUint64Be n, value, stream => stream.writeNBitsOfUint64Be value n

/-- The read of a value. -/
def read : (format : Format) → MemoryInputStream → Except Fault (format.Value × MemoryInputStream)
  | bit, stream => stream.readBit
  | bits count, stream => stream.readBits count
  | byte, stream => stream.readByte
  | bytes count, stream => stream.readBytes count
  | uint2, stream => stream.readUint2
  | uint4, stream => stream.readUint4
  | uint8, stream => stream.readUint8
  | uint16Be, stream => stream.readUint16Be
  | uint16Le, stream => stream.readUint16Le
  | uint24Be, stream => stream.readUint24Be
  | uint24Le, stream => stream.readUint24Le
  | uint32Be, stream => stream.readUint32Be
  | uint32Le, stream => stream.readUint32Le
  | uint64Be, stream => stream.readUint64Be
  | uint64Le, stream => stream.readUint64Le
  | macAddress, stream => stream.readMacAddress
  | ipv4Address, stream => stream.readIpv4Address
  | ipv6Address, stream => stream.readIpv6Address
  | nBitsOfUint64Be n, stream => stream.readNBitsToUint64Be n

end Format

/-- A call of one of the write functions. -/
structure TypedWrite where
  format : Format
  value : format.Value

/-- The bits or the bytes that a typed write consists of. -/
inductive Piece
  | bits (content : List Bool)
  | bytes (content : List (BitVec 8))

namespace Piece

def content : Piece → List Bool
  | bits content => content
  | bytes content => content.flatMap byteBits

def write (stream : MemoryOutputStream) : Piece → MemoryOutputStream
  | bits content => content.foldl MemoryOutputStream.writeBit stream
  | bytes content => content.foldl MemoryOutputStream.writeByte stream

/-- Bytes are put in their place at byte and half-byte boundaries, or when all of them are zero. -/
def InPlace (offset : ℕ) : Piece → Prop
  | bits _ => True
  | bytes content => offset % 4 = 0 ∨ ∀ byte ∈ content, byte = 0#8

end Piece

/-- The mask with which the `n`-bit functions begin, for `n` up to 32. -/
def firstMask (n : BitVec 8) : BitVec 64 := (1#32 <<< (n.toNat - 1)).signExtend 64

namespace TypedWrite

def width (write : TypedWrite) : ℕ := write.format.width

def Fits (write : TypedWrite) : Prop := write.format.Fits write.value

/-- The bits or bytes of the value. -/
def piece : TypedWrite → Piece
  | ⟨.bit, value⟩ => .bits [value]
  | ⟨.bits _, value⟩ => .bits value
  | ⟨.byte, value⟩ => .bytes [value]
  | ⟨.bytes _, value⟩ => .bytes value
  | ⟨.uint2, value⟩ => .bits [value &&& 0x2 ≠ 0, value &&& 0x1 ≠ 0]
  | ⟨.uint4, value⟩ =>
    .bits [value &&& 0x8 ≠ 0, value &&& 0x4 ≠ 0, value &&& 0x2 ≠ 0, value &&& 0x1 ≠ 0]
  | ⟨.uint8, value⟩ => .bytes [value]
  | ⟨.uint16Be, value⟩ => .bytes (bytesAt [8, 0] value)
  | ⟨.uint16Le, value⟩ => .bytes (bytesAt [0, 8] value)
  | ⟨.uint24Be, value⟩ => .bytes (bytesAt [16, 8, 0] value)
  | ⟨.uint24Le, value⟩ => .bytes (bytesAt [0, 8, 16] value)
  | ⟨.uint32Be, value⟩ => .bytes (bytesAt [24, 16, 8, 0] value)
  | ⟨.uint32Le, value⟩ => .bytes (bytesAt [0, 8, 16, 24] value)
  | ⟨.uint64Be, value⟩ => .bytes (bytesAt [56, 48, 40, 32, 24, 16, 8, 0] value)
  | ⟨.uint64Le, value⟩ => .bytes (bytesAt [0, 8, 16, 24, 32, 40, 48, 56] value)
  | ⟨.macAddress, value⟩ => .bytes (bytesAt [40, 32, 24, 16, 8, 0] value)
  | ⟨.ipv4Address, value⟩ => .bytes (bytesAt [24, 16, 8, 0] value)
  | ⟨.ipv6Address, value⟩ => .bytes (value.words.flatMap (bytesAt [24, 16, 8, 0]))
  | ⟨.nBitsOfUint64Be n, value⟩ =>
    .bits ((range n.toNat).map fun j ↦ value &&& (firstMask n >>> j) ≠ 0)

/-- The mask has a single bit, or the value none. -/
def MaskSound : TypedWrite → Prop
  | ⟨.nBitsOfUint64Be n, value⟩ => n.toNat ≤ 31 ∨ n.toNat = 32 ∧ value = 0
  | _ => True

/-- The writes, one after another. -/
def writeAll : List TypedWrite → MemoryOutputStream → Except Fault MemoryOutputStream
  | [], stream => .ok stream
  | write :: writes, stream => do
    let stream ← write.format.write write.value stream
    writeAll writes stream

/-- The reads for a list of formats, one after another. -/
def readAll : List Format → MemoryInputStream → Except Fault (List TypedWrite × MemoryInputStream)
  | [], stream => .ok ([], stream)
  | format :: formats, stream => do
    let (value, stream) ← format.read stream
    let (values, stream) ← readAll formats stream
    pure (⟨format, value⟩ :: values, stream)

/-- The writes succeed, the stream has the length of all their widths, and the reads deliver the
values without a read beyond the end. -/
def RoundTrip (writes : List TypedWrite) : Prop :=
  ∃ stream rest, writeAll writes .empty = .ok stream ∧
    stream.length = (writes.map width).sum ∧
    readAll (writes.map TypedWrite.format) (.ofOutput stream) = .ok (writes, rest) ∧
    rest.isReadBeyondEnd = false

/-- A write at `offset` whose value is carried by the stream and read back: `writeBytes` is called
at a byte boundary, any other bytes are zero or begin at a byte or half-byte boundary, and `n`-bit
values have at most 31 bits, or are zero and have 32. -/
def Sound (offset : ℕ) (write : TypedWrite) : Prop :=
  write.format.Permitted offset ∧ write.piece.InPlace offset ∧ write.MaskSound

/-- Each write is sound at the offset at which it is made. -/
def AllSound : ℕ → List TypedWrite → Prop
  | _, [] => True
  | offset, write :: writes => write.Sound offset ∧ AllSound (offset + write.width) writes

end TypedWrite

/-! ## Pieces on the stream -/

namespace MemoryOutputStream

variable {stream stream' : MemoryOutputStream} {content : List Bool} {piece : Piece}

theorem eq_of_data_eq (hdata : stream.data = stream'.data)
    (hlength : stream.length = stream'.length) :
    stream = stream' := by
  cases stream
  cases stream'
  subst hdata hlength
  rfl

variable (bytes : List (BitVec 8))

theorem length_foldl_writeByte (stream : MemoryOutputStream) :
    (bytes.foldl writeByte stream).length = stream.length + 8 * bytes.length := by
  induction bytes generalizing stream with
  | nil => rfl
  | cons byte bytes ih =>
    rw [foldl_cons, ih, length_writeByte, length_cons]
    omega

theorem data_foldl_writeByte (haligned : stream.length % 8 = 0) :
    (bytes.foldl writeByte stream).data = stream.data ++ bytes := by
  induction bytes generalizing stream with
  | nil => rw [foldl_nil, append_nil]
  | cons byte bytes ih =>
    have hnext : (stream.writeByte byte).length % 8 = 0 := by
      rw [length_writeByte]
      omega
    have hdata : (stream.writeByte byte).data = stream.data ++ [byte] := by
      rw [writeByte, dif_pos haligned]
    rw [foldl_cons, ih hnext, hdata, append_assoc, singleton_append]

theorem writeBytes_of_aligned (haligned : stream.length % 8 = 0) :
    stream.writeBytes bytes = .ok (bytes.foldl writeByte stream) := by
  rw [writeBytes, dif_pos haligned]
  congr 1
  apply eq_of_data_eq
  · exact (data_foldl_writeByte bytes haligned).symm
  · exact (length_foldl_writeByte bytes stream).symm

theorem writeMasked_eq (value : BitVec 64) (count : ℕ) (mul : BitVec 64)
    (stream : MemoryOutputStream) :
    writeMasked value count mul stream =
      ((range count).map fun j ↦ decide (value &&& (mul >>> j) ≠ 0)).foldl writeBit stream := by
  induction count generalizing mul stream with
  | zero => rfl
  | succ count ih =>
    have hshift : ∀ j, mul >>> 1 >>> j = mul >>> (j + 1) := by
      intro j
      rw [← BitVec.shiftRight_add, Nat.add_comm]
    rw [writeMasked, ih, range_succ_eq_map, map_cons, foldl_cons, map_map]
    simp only [Function.comp_def, hshift, BitVec.ushiftRight_zero]

theorem Carries.writePiece (h : stream.Carries content) (hplace : piece.InPlace stream.length) :
    (piece.write stream).Carries (content ++ piece.content) := by
  cases piece with
  | bits added =>
    simp only [Piece.write, Piece.content]
    induction added generalizing stream content with
    | nil => rwa [foldl_nil, append_nil]
    | cons bit added ih =>
      have hrest := ih (h.writeBit bit) trivial
      rwa [append_assoc, singleton_append] at hrest
  | bytes added =>
    simp only [Piece.write, Piece.content]
    induction added generalizing stream content with
    | nil => rwa [foldl_nil, flatMap_nil, append_nil]
    | cons byte added ih =>
      have hbyte : stream.length % 4 = 0 ∨ byte = 0#8 :=
        hplace.imp_right fun hzero ↦ hzero byte mem_cons_self
      have hnext : (Piece.bytes added).InPlace (stream.writeByte byte).length := by
        rw [length_writeByte]
        apply hplace.imp
        · intro hhalf
          omega
        · exact fun hzero byte' hmem ↦ hzero byte' (mem_cons_of_mem _ hmem)
      have hrest := ih (h.writeByte byte hbyte) hnext
      rwa [append_assoc, ← flatMap_cons] at hrest

theorem Spoiled.writePiece (h : stream.Spoiled content) (piece : Piece) :
    (piece.write stream).Spoiled (content ++ piece.content) := by
  cases piece with
  | bits added =>
    simp only [Piece.write, Piece.content]
    induction added generalizing stream content with
    | nil => rwa [foldl_nil, append_nil]
    | cons bit added ih =>
      obtain ⟨position, hlost⟩ := h
      have hrest := ih ⟨position, hlost.writeBit bit⟩
      rwa [append_assoc, singleton_append] at hrest
  | bytes added =>
    simp only [Piece.write, Piece.content]
    induction added generalizing stream content with
    | nil => rwa [foldl_nil, flatMap_nil, append_nil]
    | cons byte added ih =>
      obtain ⟨position, hlost⟩ := h
      have hrest := ih (hlost.spoiled_writeByte byte)
      rwa [append_assoc, ← flatMap_cons] at hrest

theorem Carries.spoiled_writePiece (h : stream.Carries content)
    (hplace : ¬piece.InPlace stream.length) :
    (piece.write stream).Spoiled (content ++ piece.content) := by
  cases piece with
  | bits added => exact absurd trivial hplace
  | bytes added =>
    simp only [Piece.write, Piece.content]
    induction added generalizing stream content with
    | nil => exact absurd (.inr fun byte hmem ↦ absurd hmem not_mem_nil) hplace
    | cons byte added ih =>
      have hoffset : stream.length % 4 ≠ 0 := fun hhalf ↦ hplace (.inl hhalf)
      rw [flatMap_cons, ← append_assoc, foldl_cons]
      by_cases hzero : byte = 0#8
      · apply ih (h.writeByte byte (.inr hzero))
        rw [length_writeByte]
        rintro (hhalf | hrest)
        · omega
        · apply hplace
          right
          intro byte' hmem
          rcases mem_cons.mp hmem with rfl | hmem
          · exact hzero
          · exact hrest byte' hmem
      · have hclear : ∀ i, stream.length ≤ i → bitAt stream.data i = false := by
          intro i hle
          rw [h.bit_eq, getD_eq_default _ _ (h.length_eq ▸ hle)]
        have hspoiled := MemoryOutputStream.spoiled_writeByte h.length_eq hclear hoffset hzero
        exact hspoiled.writePiece (.bytes added)

end MemoryOutputStream

/-! ## One write -/

theorem shiftedOne_of_le {n : BitVec 8} (hpos : 1 ≤ n.toNat) (hle : n.toNat ≤ 32) :
    shiftedOne (n.toNat - 1) = .ok (firstMask n) :=
  if_pos (by omega)

namespace TypedWrite

variable {write : TypedWrite} {stream stream' : MemoryOutputStream}

theorem write_nBits_eq {n : BitVec 8} (hpos : 1 ≤ n.toNat) (hle : n.toNat ≤ 32) (value : BitVec 64)
    (stream : MemoryOutputStream) :
    stream.writeNBitsOfUint64Be value n =
      .ok ((piece ⟨.nBitsOfUint64Be n, value⟩).write stream) := by
  have hguard : ¬(n = 0 ∨ n > 64) := by
    rintro (rfl | hgt)
    · exact absurd hpos (by decide)
    · have hnat : 64 < n.toNat := lt_def.mp hgt
      omega
  rw [MemoryOutputStream.writeNBitsOfUint64Be, if_neg hguard,
    bind_of_ok (shiftedOne_of_le hpos hle),
    MemoryOutputStream.writeMasked_eq]
  rfl

theorem write_eq (hpermitted : write.format.Permitted stream.length) :
    write.format.write write.value stream = .ok (write.piece.write stream) := by
  obtain ⟨format, value⟩ := write
  cases format with
  | bytes count => exact MemoryOutputStream.writeBytes_of_aligned value hpermitted
  | ipv6Address =>
    have hwords : ∀ (words : List (BitVec 32)) (stream : MemoryOutputStream),
        words.foldl MemoryOutputStream.writeUint32Be stream =
          (words.flatMap (bytesAt [24, 16, 8, 0])).foldl MemoryOutputStream.writeByte stream := by
      intro words
      induction words with
      | nil => exact fun _ ↦ rfl
      | cons word words ih =>
        intro stream
        rw [foldl_cons, ih, flatMap_cons, foldl_append]
        rfl
    exact congrArg Except.ok (hwords value.words stream)
  | nBitsOfUint64Be n => exact write_nBits_eq hpermitted.1 hpermitted.2 value stream
  | _ => rfl

/-- A write that does not fault is permitted. -/
theorem permitted_of_write (h : write.format.write write.value stream = .ok stream')
    (hfits : write.Fits) : write.format.Permitted stream.length := by
  obtain ⟨format, value⟩ := write
  cases format with
  | bytes count =>
    by_contra haligned
    have hfault : stream.writeBytes value = .error .runtimeError := dif_neg haligned
    cases hfault.symm.trans h
  | nBitsOfUint64Be n =>
    refine ⟨hfits.1, ?_⟩
    by_contra hgt
    have hshift : shiftedOne (n.toNat - 1) = .error .undefinedBehaviour := if_neg (by omega)
    have hfault : ∃ fault, stream.writeNBitsOfUint64Be value n = .error fault := by
      unfold MemoryOutputStream.writeNBitsOfUint64Be
      split
      · exact ⟨_, rfl⟩
      · rw [hshift]
        exact ⟨_, rfl⟩
    obtain ⟨fault, hfault⟩ := hfault
    cases hfault.symm.trans h
  | _ => trivial

theorem length_bytesAt {w : ℕ} (shifts : List ℕ) (value : BitVec w) :
    (bytesAt shifts value).length = shifts.length := length_map _

theorem length_content (hfits : write.Fits) : write.piece.content.length = write.width := by
  obtain ⟨format, value⟩ := write
  cases format with
  | bits count => exact hfits
  | bytes count =>
    have hlength : length value = count := hfits
    simp only [piece, Piece.content, length_flatMap_byteBits, width, Format.width, hlength]
  | nBitsOfUint64Be n => simp [piece, Piece.content, width, Format.width]
  | ipv6Address =>
    simp [piece, Piece.content, width, Format.width, Ipv6Address.words, length_bytesAt]
  | _ => simp [piece, Piece.content, length_bytesAt, width, Format.width]

theorem length_writePiece (hfits : write.Fits) (stream : MemoryOutputStream) :
    (write.piece.write stream).length = stream.length + write.width := by
  have hcontent := length_content hfits
  cases hpiece : write.piece with
  | bits content =>
    rw [hpiece] at hcontent
    rw [← hcontent]
    simp only [Piece.write, Piece.content]
    clear hcontent hpiece
    induction content generalizing stream with
    | nil => rfl
    | cons bit content ih =>
      rw [foldl_cons, ih, MemoryOutputStream.length_writeBit, length_cons]
      omega
  | bytes content =>
    rw [hpiece, Piece.content, length_flatMap_byteBits] at hcontent
    rw [Piece.write, MemoryOutputStream.length_foldl_writeByte, hcontent]

/-! ## One read -/

/-- The value that a read puts together from the bits at its position. -/
def decode : (format : Format) → (ℕ → Bool) → format.Value
  | .bit, bits => bits 0
  | .bits count, bits => (range count).map bits
  | .byte, bits => byteOf bits
  | .bytes count, bits => bytesFrom bits count
  | .uint2, bits => uint2Of bits
  | .uint4, bits => uint4Of bits
  | .uint8, bits => byteOf bits
  | .uint16Be, bits => orBytes 0#16 [8, 0] (bytesFrom bits 2)
  | .uint16Le, bits => orBytes 0#16 [0, 8] (bytesFrom bits 2)
  | .uint24Be, bits => orBytes 0#32 [16, 8, 0] (bytesFrom bits 3)
  | .uint24Le, bits => orBytes 0#32 [0, 8, 16] (bytesFrom bits 3)
  | .uint32Be, bits => orBytes 0#32 [24, 16, 8, 0] (bytesFrom bits 4)
  | .uint32Le, bits => orBytes 0#32 [0, 8, 16, 24] (bytesFrom bits 4)
  | .uint64Be, bits => orBytes 0#64 [56, 48, 40, 32, 24, 16, 8, 0] (bytesFrom bits 8)
  | .uint64Le, bits => orBytes 0#64 [0, 8, 16, 24, 32, 40, 48, 56] (bytesFrom bits 8)
  | .macAddress, bits => orBytes 0#48 [40, 32, 24, 16, 8, 0] (bytesFrom bits 6)
  | .ipv4Address, bits => orBytes 0#32 [24, 16, 8, 0] (bytesFrom bits 4)
  | .ipv6Address, bits =>
    ⟨fun k ↦ orBytes 0#32 [24, 16, 8, 0] (bytesFrom (fun i ↦ bits (32 * k + i)) 4)⟩
  | .nBitsOfUint64Be n, bits => maskedOf (firstMask n) bits n.toNat 0

variable {reader : MemoryInputStream} {format : Format}

theorem readBytes_eq {count : ℕ} (h : reader.Has (8 * count)) (haligned : reader.position % 8 = 0)
    (hend : reader.isReadBeyondEnd = false) :
    reader.readBytes count = .ok (bytesFrom reader.next count, reader.advance (8 * count)) := by
  have hle := h.end_le
  have hlength := h.length_le
  have hbeyond : decide (reader.length < reader.position + 8 * count) = false :=
    decide_eq_false (by omega)
  have hbytes : (reader.data.drop (reader.position / 8)).take count =
      bytesFrom reader.next count := by
    have hcount : ((reader.data.drop (reader.position / 8)).take count).length = count := by
      rw [length_take, length_drop]
      omega
    apply Eq.symm
    rw [bytesFrom_eq_iff hcount]
    intro i hi
    have hdiv : (reader.position + i) / 8 = reader.position / 8 + i / 8 := by omega
    have hmod : (reader.position + i) % 8 = i % 8 := by omega
    have hlt : i / 8 < count := by omega
    simp [MemoryInputStream.next, bitAt, hdiv, hmod, getD, getElem?_take_of_lt hlt]
  have hassert : assert (reader.position / 8 + count ≤ reader.data.length) = .ok () :=
    if_pos (by omega)
  have haligned' : assert (reader.position % 8 = 0) = .ok () := if_pos haligned
  rw [readBytes, bind_of_ok haligned']
  simp only [hbeyond, Bool.false_eq_true, if_false, hassert, hbytes, hend, Bool.or_false]
  rw [advance, hend]
  rfl

theorem read_eq (h : reader.Has format.width) (hpermitted : format.Permitted reader.position)
    (hend : reader.isReadBeyondEnd = false) :
    format.read reader = .ok (decode format reader.next, reader.advance format.width) := by
  cases format with
  | bit => exact readBit_eq h
  | bits count => exact readBits_eq hend h
  | byte | uint8 => exact readByte_eq h
  | bytes count => exact readBytes_eq h hpermitted hend
  | uint2 => exact readUint2_eq h
  | uint4 => exact readUint4_eq h
  | macAddress => exact MemoryInputStream.readMacAddress_eq h
  | ipv6Address => exact MemoryInputStream.readIpv6Address_eq h
  | nBitsOfUint64Be n =>
    have hguard : ¬(n = 0 ∨ n > 64) := by
      rintro (rfl | hgt)
      · exact absurd hpermitted.1 (by decide)
      · have hnat : 64 < n.toNat := lt_def.mp hgt
        have hle := hpermitted.2
        omega
    have hshift := shiftedOne_of_le hpermitted.1 hpermitted.2
    rw [Format.read, MemoryInputStream.readNBitsToUint64Be, if_neg hguard, bind_of_ok hshift]
    exact readMasked_eq n.toNat (firstMask n) 0 h
  | _ => exact readShifted_eq _ _ h

/-! ## When a read delivers the written value -/

variable {bits : ℕ → Bool}

theorem lt_of_getLsbD_of_toNat_lt {w k i : ℕ} {value : BitVec w} (hlt : value.toNat < 2 ^ k)
    (hbit : value.getLsbD i = true) : i < k := by
  by_contra hge
  have hpow : 2 ^ k ≤ 2 ^ i := Nat.pow_le_pow_right (by decide) (Nat.le_of_not_lt hge)
  have hclear := Nat.testBit_lt_two_pow (Nat.lt_of_lt_of_le hlt hpow)
  rw [BitVec.getLsbD, hclear] at hbit
  exact Bool.false_ne_true hbit

theorem orBytes_eq_iff {w n k : ℕ} {shifts : List ℕ} {value : BitVec w}
    (hlength : shifts.length = n) (hnodup : shifts.Nodup) (halign : ∀ shift ∈ shifts, 8 ∣ shift)
    (hfit : ∀ shift ∈ shifts, shift + 8 ≤ w) (hvalue : ∀ i, value.getLsbD i = true → i < k)
    (hcover : ∀ i < k, ∃ shift ∈ shifts, shift ≤ i ∧ i < shift + 8) :
    orBytes 0#w shifts (bytesFrom bits n) = value ↔
      ∀ i < 8 * n, bits i = ((bytesAt shifts value).flatMap byteBits).getD i false := by
  have hbytes : (bytesAt shifts value).length = n := by
    rw [length_bytesAt, hlength]
  have hjoin : orBytes 0#w shifts (bytesFrom bits n) = value ↔
      bytesFrom bits n = bytesAt shifts value := by
    constructor
    · intro h
      rw [← h, bytesAt_orBytes (by rw [length_bytesFrom, hlength]) hnodup halign hfit]
    · intro h
      rw [h]
      exact orBytes_bytesAt value fun i hbit ↦ hcover i (hvalue i hbit)
  rw [hjoin, bytesFrom_eq_iff hbytes]
  simp only [getD_flatMap_byteBits]

theorem getLsbD_maskedOf (mul num : BitVec 64) (bits : ℕ → Bool) (count i : ℕ) :
    (maskedOf mul bits count num).getLsbD i =
      (num.getLsbD i || (range count).any fun j ↦ bits j && (mul >>> j).getLsbD i) := by
  induction count generalizing mul num bits with
  | zero => simp [maskedOf]
  | succ count ih =>
    have hnum : (if bits 0 then num ||| mul else num).getLsbD i =
        (num.getLsbD i || (bits 0 && mul.getLsbD i)) := by
      cases bits 0 <;> simp
    have hshift : ∀ j, mul >>> 1 >>> j = mul >>> (j + 1) := by
      intro j
      rw [← BitVec.shiftRight_add, Nat.add_comm]
    rw [maskedOf, ih, hnum, range_succ_eq_map, any_cons, any_map,
      Bool.or_assoc]
    simp only [Function.comp_def, hshift, BitVec.ushiftRight_zero, Nat.succ_eq_add_one,
      Nat.add_comm 1]

/-- A mask that `int` holds has a single bit, which moves down one place in each round. -/
theorem firstMask_shiftRight {n : BitVec 8} (hpos : 1 ≤ n.toNat) (hle : n.toNat ≤ 31) {j : ℕ}
    (hj : j < n.toNat) : firstMask n >>> j = twoPow 64 (n.toNat - 1 - j) := by
  have hall : ∀ k < 31, ∀ j ≤ k, ((1#32 <<< k).signExtend 64) >>> j = twoPow 64 (k - j) := by
    decide
  exact hall (n.toNat - 1) (by omega) j (by omega)

theorem and_twoPow_ne_zero (value : BitVec 64) {k : ℕ} (hk : k < 64) :
    decide (value &&& twoPow 64 k ≠ 0) = value.getLsbD k := by
  have hne : twoPow 64 k ≠ 0 := by
    intro hzero
    have hbit : (twoPow 64 k).getLsbD k = (0#64).getLsbD k := congrArg (·.getLsbD k) hzero
    simp [hk] at hbit
  rw [BitVec.and_twoPow]
  cases value.getLsbD k with
  | false => simp
  | true => simpa using hne

theorem maskedOf_eq_iff {n : BitVec 8} {value : BitVec 64} (hpos : 1 ≤ n.toNat)
    (hle : n.toNat ≤ 31) (hvalue : value.toNat < 2 ^ n.toNat) :
    maskedOf (firstMask n) bits n.toNat 0 = value ↔
      ∀ i < n.toNat, bits i =
        ((range n.toNat).map fun j ↦ decide (value &&& (firstMask n >>> j) ≠ 0)).getD i
          false := by
  have hread : ∀ i, (maskedOf (firstMask n) bits n.toNat 0).getLsbD i =
      (decide (i < n.toNat) && bits (n.toNat - 1 - i)) := by
    intro i
    rw [getLsbD_maskedOf, BitVec.ofNat_eq_ofNat, getLsbD_zero, Bool.false_or,
      Bool.eq_iff_iff]
    simp only [any_eq_true, mem_range, Bool.and_eq_true, decide_eq_true_eq]
    constructor
    · intro ⟨j, hj, hbit, hmask⟩
      rw [firstMask_shiftRight hpos hle hj, getLsbD_twoPow, Bool.and_eq_true,
        decide_eq_true_eq, decide_eq_true_eq] at hmask
      have hindex : n.toNat - 1 - i = j := by omega
      rw [hindex]
      exact ⟨by omega, hbit⟩
    · intro ⟨hi, hbit⟩
      have hj : n.toNat - 1 - i < n.toNat := by omega
      refine ⟨n.toNat - 1 - i, hj, hbit, ?_⟩
      rw [firstMask_shiftRight hpos hle hj, getLsbD_twoPow, Bool.and_eq_true,
        decide_eq_true_eq, decide_eq_true_eq]
      omega
  have hwrite : ∀ i < n.toNat,
      ((range n.toNat).map fun j ↦ decide (value &&& (firstMask n >>> j) ≠ 0)).getD i false =
        value.getLsbD (n.toNat - 1 - i) := by
    intro i hi
    rw [getD, getElem?_map, getElem?_range hi, Option.map_some, Option.getD_some,
      firstMask_shiftRight hpos hle hi, and_twoPow_ne_zero value (by omega)]
  constructor
  · intro h i hi
    have hindex : n.toNat - 1 - (n.toNat - 1 - i) = i := by omega
    have hlt : n.toNat - 1 - i < n.toNat := by omega
    rw [hwrite i hi, ← h, hread, decide_eq_true hlt, Bool.true_and, hindex]
  · intro h
    apply BitVec.eq_of_getLsbD_eq
    intro i _
    rw [hread]
    by_cases hi : i < n.toNat
    · have hindex : n.toNat - 1 - (n.toNat - 1 - i) = i := by omega
      have hbit := h (n.toNat - 1 - i) (by omega)
      rw [hwrite _ (by omega), hindex] at hbit
      rw [decide_eq_true hi, Bool.true_and, hbit]
    · rw [decide_eq_false hi, Bool.false_and]
      by_contra hbit
      exact hi (lt_of_getLsbD_of_toNat_lt hvalue (by simpa using hbit))

/-- With 32 bits the mask is `1 << 31`, which is negative: it goes on having its upper bits, so
that a value with a bit among those that are read is never a value of 32 bits. -/
theorem maskedOf_negativeMask_eq_iff {value : BitVec 64} (hvalue : value.toNat < 2 ^ 32) :
    maskedOf (firstMask 32) bits 32 0 = value ↔
      value = 0 ∧ ∀ i < 32, bits i = false := by
  have hmasked (hclear : ∀ i < 32, bits i = false) :
      maskedOf (firstMask 32) bits 32 0 = 0 := by
    apply BitVec.eq_of_getLsbD_eq
    intro i _
    rw [getLsbD_maskedOf, BitVec.ofNat_eq_ofNat, getLsbD_zero, Bool.false_or]
    apply any_eq_false.mpr
    intro j hj
    rw [hclear j (mem_range.mp hj)]
    exact Bool.false_ne_true
  constructor
  · intro h
    have hclear : ∀ i < 32, bits i = false := by
      intro i hi
      by_contra hbit
      have hmask : ∀ j < 32, (firstMask 32 >>> j).getLsbD (63 - j) = true := by decide
      have hset : value.getLsbD (63 - i) = true := by
        rw [← h, getLsbD_maskedOf, Bool.or_eq_true, any_eq_true]
        right
        refine ⟨i, mem_range.mpr hi, ?_⟩
        rw [hmask i hi, Bool.and_true]
        simpa using hbit
      have hlt := lt_of_getLsbD_of_toNat_lt hvalue hset
      omega
    exact ⟨h.symm.trans (hmasked hclear), hclear⟩
  · intro ⟨hzero, hclear⟩
    rw [hzero]
    exact hmasked hclear

theorem byteOf_eq_iff {value : BitVec 8} :
    byteOf bits = value ↔ ∀ i < 8, bits i = ([value].flatMap byteBits).getD i false := by
  have hone : bytesFrom bits 1 = [byteOf bits] := by
    rfl
  have hiff := @bytesFrom_eq_iff bits [value] 1 rfl
  rw [hone, cons.injEq, and_iff_left rfl] at hiff
  simp only [getD_flatMap_byteBits]
  exact hiff

theorem iff_maskSound_and {p q : Prop} (hsound : write.MaskSound) (h : p ↔ q) :
    p ↔ write.MaskSound ∧ q :=
  h.trans (and_iff_right hsound).symm

theorem getD_flatMap_words (words : List (BitVec 32)) {k i : ℕ} (hk : k < words.length)
    (hi : i < 32) :
    ((words.flatMap (bytesAt [24, 16, 8, 0])).flatMap byteBits).getD (32 * k + i) false =
      ((bytesAt [24, 16, 8, 0] words[k]).flatMap byteBits).getD i false := by
  induction words generalizing k with
  | nil => exact absurd hk (Nat.not_lt_zero k)
  | cons word words ih =>
    have hlength : ((bytesAt [24, 16, 8, 0] word).flatMap byteBits).length = 32 := by
      rfl
    rw [flatMap_cons, flatMap_append]
    cases k with
    | zero =>
      rw [getD_append _ _ _ _ (by omega), Nat.mul_zero, Nat.zero_add]
      rfl
    | succ k =>
      have hindex : 32 * (k + 1) + i - 32 = 32 * k + i := by omega
      rw [getD_append_right _ _ _ _ (by omega), hlength, hindex,
        ih (Nat.lt_of_succ_lt_succ hk)]
      rfl

theorem map_range_eq_iff {l : List Bool} {n : ℕ} (hlength : l.length = n) :
    (range n).map bits = l ↔ ∀ i < n, bits i = l.getD i false := by
  constructor
  · rintro rfl i hi
    rw [getD, getElem?_map, getElem?_range hi]
    rfl
  · intro h
    apply ext_getElem
    · rw [length_map, length_range, hlength]
    · intro i hi hi'
      rw [getElem_map, getElem_range, h i (hlength ▸ hi'), getD,
        getElem?_eq_getElem hi']
      rfl

/-- A read delivers the value when it finds the bits of the value and the mask is sound. -/
theorem decode_eq_iff {offset : ℕ} (hfits : write.Fits)
    (hpermitted : write.format.Permitted offset) :
    decode write.format bits = write.value ↔
      write.MaskSound ∧ ∀ i < write.width, bits i = write.piece.content.getD i false := by
  obtain ⟨format, value⟩ := write
  have hfull : ∀ {w : ℕ} (v : BitVec w) (i : ℕ), v.getLsbD i = true → i < w :=
    fun _ _ ↦ BitVec.lt_of_getLsbD
  cases format with
  | nBitsOfUint64Be n =>
    obtain ⟨hpos, hle⟩ := hpermitted
    have hvalue : BitVec.toNat value < 2 ^ n.toNat := hfits.2.2
    by_cases hsmall : n.toNat ≤ 31
    · exact iff_maskSound_and (Or.inl hsmall) (maskedOf_eq_iff hpos hsmall hvalue)
    · have hn : n = 32 := BitVec.eq_of_toNat_eq (by simp; omega)
      subst hn
      apply (maskedOf_negativeMask_eq_iff hvalue).trans
      have hsound : MaskSound ⟨.nBitsOfUint64Be 32, value⟩ ↔ value = 0 :=
        ⟨fun h ↦ h.elim (fun hlt ↦ absurd hlt (by decide)) And.right, fun h ↦ .inr ⟨rfl, h⟩⟩
      rw [hsound]
      apply and_congr_right
      intro hzero
      have hcontent : ∀ i, (piece ⟨.nBitsOfUint64Be 32, value⟩).content.getD i false = false := by
        intro i
        simp only [piece, Piece.content, hzero]
        rw [List.getD, List.getElem?_map]
        cases (List.range (32 : BitVec 8).toNat)[i]? <;> simp
      simp only [hcontent]
      rfl
  | bit =>
    refine iff_maskSound_and trivial ?_
    constructor
    · intro h i hi
      obtain rfl : i = 0 := Nat.lt_one_iff.mp hi
      exact h
    · intro h
      exact h 0 Nat.one_pos
  | bits count =>
    refine iff_maskSound_and trivial ?_
    exact map_range_eq_iff hfits
  | bytes count =>
    refine iff_maskSound_and trivial ?_
    simp only [piece, Piece.content, getD_flatMap_byteBits]
    exact bytesFrom_eq_iff hfits
  | byte | uint8 =>
    refine iff_maskSound_and trivial ?_
    exact byteOf_eq_iff
  | uint2 =>
    refine iff_maskSound_and trivial ?_
    have hall : ∀ v : BitVec 8, v.toNat < 4 → ∀ b0 b1 : Bool,
        (if b0 then 0x2#8 else 0) ||| (if b1 then 0x1 else 0) = v ↔
          b0 = decide (v &&& 0x2 ≠ 0) ∧ b1 = decide (v &&& 0x1 ≠ 0) := by
      decide +kernel
    apply (hall value hfits (bits 0) (bits 1)).trans
    refine Iff.trans ?_ (map_range_eq_iff rfl)
    change _ ↔ [bits 0, bits 1] = [_, _]
    simp only [List.cons.injEq, and_true]
  | uint4 =>
    refine iff_maskSound_and trivial ?_
    have hall : ∀ v : BitVec 8, v.toNat < 16 → ∀ b0 b1 b2 b3 : Bool,
        (if b0 then 0x8#8 else 0) ||| (if b1 then 0x4 else 0) ||| (if b2 then 0x2 else 0) |||
            (if b3 then 0x1 else 0) = v ↔
          b0 = decide (v &&& 0x8 ≠ 0) ∧ b1 = decide (v &&& 0x4 ≠ 0) ∧
            b2 = decide (v &&& 0x2 ≠ 0) ∧ b3 = decide (v &&& 0x1 ≠ 0) := by
      decide +kernel
    apply (hall value hfits (bits 0) (bits 1) (bits 2) (bits 3)).trans
    refine Iff.trans ?_ (map_range_eq_iff rfl)
    change _ ↔ [bits 0, bits 1, bits 2, bits 3] = [_, _, _, _]
    simp only [List.cons.injEq, and_true]
  | uint16Be | uint16Le | uint32Be | uint32Le | uint64Be | uint64Le | macAddress | ipv4Address =>
    refine iff_maskSound_and trivial ?_
    exact orBytes_eq_iff rfl (by decide) (by decide) (by decide) (hfull value) (by decide)
  | uint24Be | uint24Le =>
    refine iff_maskSound_and trivial ?_
    exact orBytes_eq_iff rfl (by decide) (by decide) (by decide)
      (fun i ↦ lt_of_getLsbD_of_toNat_lt hfits) (by decide)
  | ipv6Address =>
    refine iff_maskSound_and trivial ?_
    have hword : ∀ k : Fin 4,
        orBytes 0#32 [24, 16, 8, 0] (bytesFrom (fun i ↦ bits (32 * k + i)) 4) = value.d k ↔
          ∀ i < 32, bits (32 * k + i) =
            ((bytesAt [24, 16, 8, 0] (value.d k)).flatMap byteBits).getD i false := by
      intro k
      exact orBytes_eq_iff rfl (by decide) (by decide) (by decide) (hfull (value.d k)) (by decide)
    have hcontent : ∀ k : Fin 4, ∀ i < 32,
        (piece ⟨.ipv6Address, value⟩).content.getD (32 * k + i) false =
          ((bytesAt [24, 16, 8, 0] (value.d k)).flatMap byteBits).getD i false := by
      intro k i hi
      have hk : k.val < value.words.length := by simp [Ipv6Address.words]
      have hget := getD_flatMap_words value.words hk hi
      have hwordk : value.words[k.val] = value.d k := List.getElem_ofFn hk
      rw [hwordk] at hget
      exact hget
    constructor
    · intro h j hj
      have hj' : j < 128 := hj
      have hget := (hword ⟨j / 32, by omega⟩).mp (congrFun (congrArg Ipv6Address.d h) _) (j % 32)
        (Nat.mod_lt _ (by decide))
      rw [← hcontent _ _ (Nat.mod_lt _ (by decide))] at hget
      rwa [Nat.div_add_mod] at hget
    · intro h
      apply congrArg Ipv6Address.mk
      funext k
      apply (hword k).mpr
      intro i hi
      rw [← hcontent k i hi]
      exact h _ (show 32 * k.val + i < 128 by omega)

/-! ## Whole lists of writes -/

variable {writes : List TypedWrite} {content : List Bool}

/-- The bits of all values. -/
def contents (writes : List TypedWrite) : List Bool := writes.flatMap fun write ↦
    write.piece.content

theorem contents_cons (write : TypedWrite) (writes : List TypedWrite) :
    contents (write :: writes) = write.piece.content ++ contents writes := rfl

theorem length_contents (hfits : ∀ write ∈ writes, write.Fits) :
    (contents writes).length = (writes.map width).sum := by
  induction writes with
  | nil => rfl
  | cons write writes ih =>
    have hhead := length_content (hfits write mem_cons_self)
    have hrest := ih fun write' hmem ↦ hfits write' (mem_cons_of_mem _ hmem)
    rw [contents_cons, length_append, hhead, hrest, map_cons, sum_cons]

/-- Each write is permitted at the offset at which it is made. -/
def AllPermitted : ℕ → List TypedWrite → Prop
  | _, [] => True
  | offset, write :: writes =>
    write.format.Permitted offset ∧ AllPermitted (offset + write.width) writes

/-- Each write is put in its place. -/
def AllInPlace : ℕ → List TypedWrite → Prop
  | _, [] => True
  | offset, write :: writes =>
    write.piece.InPlace offset ∧ AllInPlace (offset + write.width) writes

theorem allSound_iff (offset : ℕ) (writes : List TypedWrite) :
    AllSound offset writes ↔
      AllPermitted offset writes ∧ AllInPlace offset writes ∧ ∀ write ∈ writes,
        write.MaskSound := by
  induction writes generalizing offset with
  | nil => simp [AllSound, AllPermitted, AllInPlace]
  | cons write writes ih =>
    rw [AllSound, AllPermitted, AllInPlace, Sound, ih, forall_mem_cons]
    constructor
    · intro ⟨⟨hpermitted, hplace, hmask⟩, hpermitted', hplace', hmask'⟩
      exact ⟨⟨hpermitted, hpermitted'⟩, ⟨hplace, hplace'⟩, hmask, hmask'⟩
    · intro ⟨⟨hpermitted, hpermitted'⟩, ⟨hplace, hplace'⟩, hmask, hmask'⟩
      exact ⟨⟨hpermitted, hplace, hmask⟩, hpermitted', hplace', hmask'⟩

/-- The pieces, one after another. -/
def writePieces (stream : MemoryOutputStream) (writes : List TypedWrite) : MemoryOutputStream :=
  writes.foldl (fun stream write ↦ write.piece.write stream) stream

theorem length_writePieces (hfits : ∀ write ∈ writes, write.Fits) (stream : MemoryOutputStream) :
    (writePieces stream writes).length = stream.length + (writes.map width).sum := by
  induction writes generalizing stream with
  | nil => rfl
  | cons write writes ih =>
    rw [writePieces, foldl_cons, ← writePieces,
      ih fun write' hmem ↦ hfits write' (mem_cons_of_mem _ hmem),
      length_writePiece (hfits write mem_cons_self), map_cons, sum_cons,
      Nat.add_assoc]

theorem writeAll_eq_ok_iff (hfits : ∀ write ∈ writes, write.Fits) :
    writeAll writes stream = .ok stream' ↔
      AllPermitted stream.length writes ∧ stream' = writePieces stream writes := by
  induction writes generalizing stream with
  | nil =>
    rw [writeAll, AllPermitted, Except.ok.injEq, and_iff_right trivial, eq_comm]
    rfl
  | cons write writes ih =>
    have hhead := hfits write mem_cons_self
    have hrest := fun write' hmem ↦ hfits write' (mem_cons_of_mem write hmem)
    rw [writeAll, AllPermitted]
    constructor
    · intro h
      obtain ⟨next, hnext, htail⟩ := bind_eq_ok h
      have hpermitted := permitted_of_write hnext hhead
      rw [write_eq hpermitted] at hnext
      obtain rfl := Except.ok.inj hnext
      rw [ih hrest, length_writePiece hhead] at htail
      exact ⟨⟨hpermitted, htail.1⟩, htail.2⟩
    · intro ⟨⟨hpermitted, hpermitted'⟩, heq⟩
      rw [bind_of_ok (write_eq hpermitted), ih hrest, length_writePiece hhead]
      exact ⟨hpermitted', heq⟩

theorem carries_writePieces (hfits : ∀ write ∈ writes, write.Fits) (h : stream.Carries content)
    (hplace : AllInPlace stream.length writes) :
    (writePieces stream writes).Carries (content ++ contents writes) := by
  induction writes generalizing stream content with
  | nil =>
    rw [contents, flatMap_nil, append_nil]
    exact h
  | cons write writes ih =>
    have hrest := fun write' hmem ↦ hfits write' (mem_cons_of_mem write hmem)
    have hplace' : AllInPlace (write.piece.write stream).length writes := by
      rw [length_writePiece (hfits write mem_cons_self)]
      exact hplace.2
    have hcarries := ih hrest (h.writePiece hplace.1) hplace'
    rw [contents_cons, ← append_assoc]
    exact hcarries

theorem spoiled_writePieces (h : stream.Spoiled content) (writes : List TypedWrite) :
    (writePieces stream writes).Spoiled (content ++ contents writes) := by
  induction writes generalizing stream content with
  | nil =>
    rw [contents, flatMap_nil, append_nil]
    exact h
  | cons write writes ih =>
    have hspoiled := ih (h.writePiece write.piece)
    rw [contents_cons, ← append_assoc]
    exact hspoiled

theorem spoiled_of_not_allInPlace (hfits : ∀ write ∈ writes, write.Fits)
    (h : stream.Carries content) (hplace : ¬AllInPlace stream.length writes) :
    (writePieces stream writes).Spoiled (content ++ contents writes) := by
  induction writes generalizing stream content with
  | nil => exact absurd trivial hplace
  | cons write writes ih =>
    have hrest := fun write' hmem ↦ hfits write' (mem_cons_of_mem write hmem)
    rw [contents_cons, ← append_assoc]
    by_cases hhead : write.piece.InPlace stream.length
    · apply ih hrest (h.writePiece hhead)
      rw [length_writePiece (hfits write mem_cons_self)]
      exact fun htail ↦ hplace ⟨hhead, htail⟩
    · exact spoiled_writePieces (h.spoiled_writePiece hhead) writes

/-- The values that reads for the formats put together. -/
def decodeAll : List Format → (ℕ → Bool) → List TypedWrite
  | [], _ => []
  | format :: formats, bits =>
    ⟨format, decode format bits⟩ :: decodeAll formats fun i ↦ bits (format.width + i)

theorem readAll_eq (hpermitted : AllPermitted reader.position writes)
    (h : reader.Has (writes.map width).sum) (hend : reader.isReadBeyondEnd = false) :
    readAll (writes.map TypedWrite.format) reader =
      .ok (decodeAll (writes.map TypedWrite.format) reader.next,
        reader.advance (writes.map width).sum) := by
  induction writes generalizing reader with
  | nil => rfl
  | cons write writes ih =>
    have hhead : write.format.read reader =
        .ok (decode write.format reader.next, reader.advance write.width) :=
      read_eq (h.mono (Nat.le_add_right _ _)) hpermitted.1 hend
    have hnext : (reader.advance write.width).next = fun i ↦
      reader.next (write.format.width + i) := by
      funext i
      exact reader.next_advance write.width i
    have hrest : readAll (writes.map TypedWrite.format) (reader.advance write.width) = _ :=
      ih hpermitted.2 h.advance hend
    rw [map_cons, readAll, bind_of_ok hhead]
    simp only [hrest, hnext, decodeAll, map_cons, sum_cons,
      advance_advance]
    rfl

theorem decodeAll_eq_iff {offset : ℕ} (hfits : ∀ write ∈ writes, write.Fits)
    (hpermitted : AllPermitted offset writes) :
    decodeAll (writes.map TypedWrite.format) bits = writes ↔
      (∀ write ∈ writes, write.MaskSound) ∧
        ∀ i < (writes.map width).sum, bits i = (contents writes).getD i false := by
  induction writes generalizing bits offset with
  | nil => simp [decodeAll]
  | cons write writes ih =>
    have hhead := hfits write mem_cons_self
    have hrest := fun write' hmem ↦ hfits write' (mem_cons_of_mem write hmem)
    have hlength := length_content hhead
    have hvalue : (⟨write.format, decode write.format bits⟩ : TypedWrite) = write ↔
        decode write.format bits = write.value := by
      obtain ⟨format, value⟩ := write
      simp
    rw [map_cons, decodeAll, cons.injEq, hvalue, decode_eq_iff hhead hpermitted.1,
      ih hrest hpermitted.2, forall_mem_cons, map_cons, sum_cons, contents_cons]
    constructor
    · intro ⟨⟨hmask, hbits⟩, hmask', hbits'⟩
      refine ⟨⟨hmask, hmask'⟩, ?_⟩
      intro i hi
      by_cases hlt : i < write.width
      · rw [getD_append _ _ _ _ (by omega)]
        exact hbits i hlt
      · have hbit := hbits' (i - write.width) (by omega)
        have hsum : write.width + (i - write.width) = i := by omega
        rw [getD_append_right _ _ _ _ (by omega), hlength, ← hbit]
        exact congrArg bits hsum.symm
    · intro ⟨⟨hmask, hmask'⟩, hbits⟩
      refine ⟨⟨hmask, ?_⟩, hmask', ?_⟩
      · intro i hi
        rw [hbits i (by omega), getD_append _ _ _ _ (by omega)]
      · intro i hi
        have hbit := hbits (write.width + i) (by omega)
        have hsub : write.width + i - write.width = i := by omega
        rw [getD_append_right _ _ _ _ (by omega), hlength, hsub] at hbit
        exact hbit

theorem has_ofOutput (hlength : stream.length = (writes.map width).sum) :
    (ofOutput stream).Has (writes.map width).sum := by
  have hsize := stream.size_eq
  constructor
  · simp only [ofOutput, hlength, Nat.zero_add, Nat.le_refl]
  · simp only [ofOutput]
    omega

theorem next_ofOutput (stream : MemoryOutputStream) (i : ℕ) :
    (ofOutput stream).next i = bitAt stream.data i :=
  congrArg _ (Nat.zero_add i)

theorem length_written (hfits : ∀ write ∈ writes, write.Fits) :
    (writePieces .empty writes).length = (writes.map width).sum :=
  (length_writePieces hfits .empty).trans (Nat.zero_add _)

theorem roundTrip_of_allSound (hfits : ∀ write ∈ writes, write.Fits) (hsound : AllSound 0 writes) :
    RoundTrip writes := by
  obtain ⟨hpermitted, hplace, hmask⟩ := (allSound_iff 0 writes).mp hsound
  have hlength := length_written hfits
  have hcarries := carries_writePieces hfits MemoryOutputStream.carries_empty hplace
  have hread := readAll_eq hpermitted (has_ofOutput hlength) rfl
  have hvalues : decodeAll (writes.map TypedWrite.format)
      (ofOutput (writePieces .empty writes)).next = writes := by
    apply (decodeAll_eq_iff hfits hpermitted).mpr
    refine ⟨hmask, ?_⟩
    intro i _
    rw [next_ofOutput, hcarries.bit_eq, nil_append]
  rw [hvalues] at hread
  exact ⟨_, _, (writeAll_eq_ok_iff hfits).mpr ⟨hpermitted, rfl⟩, hlength, hread, rfl⟩

theorem allSound_of_roundTrip (hfits : ∀ write ∈ writes, write.Fits) (h : RoundTrip writes) :
    AllSound 0 writes := by
  obtain ⟨stream, rest, hwrite, -, hvalues, -⟩ := h
  obtain ⟨hpermitted, rfl⟩ := (writeAll_eq_ok_iff hfits).mp hwrite
  have hread := readAll_eq hpermitted (has_ofOutput (length_written hfits)) rfl
  have hboth := Except.ok.inj (hread.symm.trans hvalues)
  obtain ⟨hmask, hbits⟩ := (decodeAll_eq_iff hfits hpermitted).mp (Prod.mk.inj hboth).1
  refine (allSound_iff 0 writes).mpr ⟨hpermitted, ?_, hmask⟩
  -- A bit that the data have lost would come back as zero.
  by_contra hplace
  obtain ⟨position, hlost⟩ :=
    spoiled_of_not_allInPlace hfits MemoryOutputStream.carries_empty hplace
  have hlt := hlost.lt
  have hwritten := hlost.written
  rw [nil_append] at hlt hwritten
  rw [length_contents hfits] at hlt
  have hbit := hbits position hlt
  rw [next_ofOutput, hlost.lost, hwritten] at hbit
  exact Bool.false_ne_true hbit

/-- The written values come back exactly when each write is sound at its offset. -/
theorem streams_roundTrip_iff (hfits : ∀ write ∈ writes, write.Fits) :
    RoundTrip writes ↔ AllSound 0 writes :=
  ⟨allSound_of_roundTrip hfits, roundTrip_of_allSound hfits⟩

/-- A half byte, a value that begins in the middle of a byte, and twenty bits. -/
def mixedWrites : List TypedWrite :=
  [⟨.uint4, 0x5#8⟩, ⟨.uint16Be, 0xabcd#16⟩, ⟨.nBitsOfUint64Be 20, 0x12345#64⟩]

theorem streams_roundTrip_iff_mixedWrites : RoundTrip mixedWrites ∧ AllSound 0 mixedWrites := by
  have hfits : ∀ write ∈ mixedWrites, write.Fits := by
    simp [mixedWrites, Fits, Format.Fits]
  have hsound : AllSound 0 mixedWrites := by
    refine ⟨⟨trivial, trivial, trivial⟩, ⟨trivial, .inl rfl, trivial⟩, ⟨?_, trivial, .inl ?_⟩,
      trivial⟩
    · exact ⟨by decide, by decide⟩
    · decide
  exact ⟨(streams_roundTrip_iff hfits).mpr hsound, hsound⟩

/-- A byte after a single bit, a value of 32 bits and one of 33. -/
theorem not_roundTrip_of_unsound :
    ((∀ write ∈ [⟨.bit, true⟩, ⟨.byte, 0x80#8⟩], Fits write) ∧
      ¬RoundTrip [⟨.bit, true⟩, ⟨.byte, 0x80#8⟩]) ∧
    ((∀ write ∈ [⟨.nBitsOfUint64Be 32, 1#64⟩], Fits write) ∧
      ¬RoundTrip [⟨.nBitsOfUint64Be 32, 1#64⟩]) ∧
    ((∀ write ∈ [⟨.nBitsOfUint64Be 33, 0#64⟩], Fits write) ∧
      ¬RoundTrip [⟨.nBitsOfUint64Be 33, 0#64⟩]) := by
  have hbyte : ∀ write ∈ [⟨.bit, true⟩, ⟨.byte, 0x80#8⟩], Fits write := by
    simp [Fits, Format.Fits]
  have hmask : ∀ write ∈ [⟨.nBitsOfUint64Be 32, 1#64⟩], Fits write := by
    simp [Fits, Format.Fits]
  have hshift : ∀ write ∈ [⟨.nBitsOfUint64Be 33, 0#64⟩], Fits write := by
    simp [Fits, Format.Fits]
  refine ⟨⟨hbyte, ?_⟩, ⟨hmask, ?_⟩, hshift, ?_⟩
  · intro h
    have hplace : Piece.InPlace 1 (.bytes [0x80#8]) := (allSound_of_roundTrip hbyte h).2.1.2.1
    rcases hplace with hoffset | hzero
    · exact absurd hoffset (by decide)
    · exact absurd (hzero 0x80#8 mem_cons_self) (by decide)
  · intro h
    rcases (allSound_of_roundTrip hmask h).1.2.2 with hlt | hzero
    · exact absurd hlt (by decide)
    · exact absurd hzero.2 (by decide)
  · intro h
    exact absurd (allSound_of_roundTrip hshift h).1.1.2 (by decide)

end TypedWrite

end Inet4.Serialization
