import Inet4.Serialization.MemoryInputStream

/-!
# What the data of an output stream carry

The writes have a content, the bits that their values stand for.  The data of the output stream
carry this content as long as no byte other than zero is written at an offset that is neither a
byte nor a half-byte boundary: such a byte is put elsewhere and loses a bit, and no later write
makes up for all that is lost.
-/

namespace Inet4.Serialization

open BitPacking List

namespace MemoryOutputStream

variable {stream : MemoryOutputStream} {content bits : List Bool} {value : BitVec 8}

/-! ## What the data carry -/

/-- The data carry the content. -/
structure Carries (stream : MemoryOutputStream) (content : List Bool) : Prop where
  length_eq : stream.length = content.length
  bit_eq : ∀ i, bitAt stream.data i = content.getD i false

/-- A bit of the content at `position` is lost, and no bit that lies past the end of the stream is
so far out that it could take the place of a later one. -/
structure LostAt (stream : MemoryOutputStream) (content : List Bool) (position : ℕ) : Prop where
  length_eq : stream.length = content.length
  lt : position < content.length
  written : content.getD position false = true
  lost : bitAt stream.data position = false
  overhang : ∀ i, stream.length ≤ i → bitAt stream.data i = true →
    i + position ≤ 16 * (stream.length / 8) + 6

/-- The data have lost a bit of the content. -/
def Spoiled (stream : MemoryOutputStream) (content : List Bool) : Prop :=
  ∃ position, stream.LostAt content position

theorem carries_empty : empty.Carries [] := by
  refine ⟨rfl, ?_⟩
  intro i
  simp [empty]

theorem getD_append_singleton (content : List Bool) (value : Bool) (i : ℕ) :
    (content ++ [value]).getD i false =
      (content.getD i false || (decide (i = content.length) && value)) := by
  rcases Nat.lt_trichotomy i content.length with hlt | heq | hgt
  · have hne : i ≠ content.length := Nat.ne_of_lt hlt
    rw [getD_append _ _ _ _ hlt]
    simp [hne]
  · subst heq
    simp
  · have hne : i ≠ content.length := Nat.ne_of_gt hgt
    rw [getD_eq_default _ _ (by rw [length_append, length_singleton]; omega),
      getD_eq_default _ _ (Nat.le_of_lt hgt)]
    simp [hne]

theorem getD_append_byteBits (content : List Bool) (value : BitVec 8) (i : ℕ) :
    (content ++ byteBits value).getD i false =
      (content.getD i false || (decide (content.length ≤ i) && value.getMsbD
        (i - content.length))) := by
  by_cases hlt : i < content.length
  · have hle : ¬content.length ≤ i := Nat.not_le_of_lt hlt
    rw [getD_append _ _ _ _ hlt]
    simp [hle]
  · have hle : content.length ≤ i := Nat.le_of_not_lt hlt
    rw [getD_append_right _ _ _ _ hle, getD_byteBits, getD_eq_default _ _ hle]
    simp [hle]

theorem Carries.writeBit (h : stream.Carries content) (bit : Bool) :
    (stream.writeBit bit).Carries (content ++ [bit]) := by
  constructor
  · rw [length_writeBit, h.length_eq, length_append, length_singleton]
  · intro i
    rw [bitAt_writeBit, h.bit_eq, h.length_eq, getD_append_singleton]

theorem bytePosition_of_halfByte {length : ℕ} (h : length % 4 = 0) :
    bytePosition length = length := by
  unfold bytePosition
  omega

/-- A byte at a byte or half-byte boundary is put at the end of the stream, and the zero byte
changes nothing wherever it is put. -/
theorem Carries.writeByte (h : stream.Carries content) (value : BitVec 8)
    (hoffset : stream.length % 4 = 0 ∨ value = 0#8) :
    (stream.writeByte value).Carries (content ++ byteBits value) := by
  constructor
  · rw [length_writeByte, h.length_eq, length_append, length_byteBits]
  · intro i
    rw [bitAt_writeByte, h.bit_eq, getD_append_byteBits]
    rcases hoffset with hhalf | rfl
    · rw [bytePosition_of_halfByte hhalf, h.length_eq]
    · simp

theorem LostAt.writeBit {position : ℕ} (h : stream.LostAt content position) (bit : Bool) :
    (stream.writeBit bit).LostAt (content ++ [bit]) position := by
  have hlength := h.length_eq
  have hlt := h.lt
  constructor
  · rw [length_writeBit, h.length_eq, length_append, length_singleton]
  · rw [length_append]
    exact Nat.lt_add_right _ h.lt
  · rw [getD_append _ _ _ _ h.lt, h.written]
  · have hne : position ≠ stream.length := by omega
    rw [bitAt_writeBit, h.lost]
    simp [hne]
  · intro i hle hbit
    rw [length_writeBit] at hle ⊢
    have hne : i ≠ stream.length := by omega
    rw [bitAt_writeBit] at hbit
    have hold : bitAt stream.data i = true := by simpa [hne] using hbit
    have hoverhang := h.overhang i (by omega) hold
    omega

/-- Some bit of a byte other than zero, chosen on the side that its displacement leaves. -/
theorem exists_lost_bit {length : ℕ} (hoffset : length % 4 ≠ 0) (hvalue : value ≠ 0#8) :
    ∃ j < 8, value.getMsbD j = true ∧
      ∀ k < 8, value.getMsbD k = true → bytePosition length + k ≠ length + j := by
  have hbits : ∃ j < 8, value.getMsbD j = true := by
    by_contra hnone
    apply hvalue
    apply BitVec.eq_of_getMsbD_eq
    intro j hj
    by_contra hbit
    exact hnone ⟨j, hj, by simpa using hbit⟩
  unfold bytePosition
  by_cases hearly : length % 8 < 4
  · obtain ⟨hlt, hbit⟩ := Nat.find_spec hbits
    refine ⟨Nat.find hbits, hlt, hbit, ?_⟩
    intro k hk hbit'
    have hle := Nat.find_min' hbits ⟨hk, hbit'⟩
    omega
  · have hflip : ∃ j < 8, value.getMsbD (7 - j) = true := by
      obtain ⟨j, hj, hbit⟩ := hbits
      refine ⟨7 - j, by omega, ?_⟩
      rwa [Nat.sub_sub_self (Nat.le_of_lt_succ hj)]
    obtain ⟨hlt, hbit⟩ := Nat.find_spec hflip
    refine ⟨7 - Nat.find hflip, by omega, hbit, ?_⟩
    intro k hk hbit'
    have hback : value.getMsbD (7 - (7 - k)) = true := by
      rwa [Nat.sub_sub_self (Nat.le_of_lt_succ hk)]
    have hle := Nat.find_min' hflip ⟨by omega, hback⟩
    omega

/-- A byte other than zero at another offset loses a bit when nothing lies past the end of the
stream. -/
theorem spoiled_writeByte (hlength : stream.length = content.length)
    (hclear : ∀ i, stream.length ≤ i → bitAt stream.data i = false)
    (hoffset : stream.length % 4 ≠ 0) (hvalue : value ≠ 0#8) :
    (stream.writeByte value).Spoiled (content ++ byteBits value) := by
  obtain ⟨j, hj, hbit, hout⟩ := exists_lost_bit hoffset hvalue
  have hposition : bytePosition stream.length =
      8 * (stream.length / 8) + (8 - stream.length % 8) := by
    unfold bytePosition
    omega
  refine ⟨stream.length + j, ?_, ?_, ?_, ?_, ?_⟩
  · rw [length_writeByte, hlength, length_append, length_byteBits]
  · rw [length_append, length_byteBits]
    omega
  · rw [getD_append_byteBits, ← hlength, Nat.add_sub_cancel_left, hbit]
    simp
  · rw [bitAt_writeByte, hclear _ (Nat.le_add_right _ _), Bool.false_or, Bool.and_eq_false_iff]
    by_cases hle : bytePosition stream.length ≤ stream.length + j
    · right
      by_contra hset
      have hset' : value.getMsbD (stream.length + j - bytePosition stream.length) = true := by
        simpa using hset
      exact hout _ (BitVec.lt_of_getMsbD hset') hset' (Nat.add_sub_cancel' hle)
    · left
      exact decide_eq_false hle
  · intro i hle hset
    rw [length_writeByte] at hle ⊢
    rw [bitAt_writeByte, hclear i (by omega), Bool.false_or, Bool.and_eq_true] at hset
    have hlt := BitVec.lt_of_getMsbD hset.2
    omega

theorem LostAt.spoiled_writeByte {position : ℕ} (h : stream.LostAt content position)
    (value : BitVec 8) : (stream.writeByte value).Spoiled (content ++ byteBits value) := by
  have hlength := h.length_eq
  have hlt := h.lt
  by_cases hhit : bitAt (stream.writeByte value).data position = true
  · -- Only a byte that is put far back can mark the lost bit; it then loses a bit of its own.
    have hset := hhit
    rw [bitAt_writeByte, h.lost, Bool.false_or, Bool.and_eq_true] at hset
    have hge : bytePosition stream.length ≤ position := of_decide_eq_true hset.1
    have hposition : bytePosition stream.length =
        stream.length / 8 * 8 + (8 - stream.length % 8) % 8 := rfl
    apply MemoryOutputStream.spoiled_writeByte hlength
    · intro i hle
      by_contra hbit
      have hoverhang := h.overhang i hle (by simpa using hbit)
      omega
    · omega
    · intro hzero
      rw [hzero, BitVec.getMsbD_zero] at hset
      exact Bool.false_ne_true hset.2
  · refine ⟨position, ?_, ?_, ?_, ?_, ?_⟩
    · rw [length_writeByte, hlength, length_append, length_byteBits]
    · rw [length_append]
      exact Nat.lt_add_right _ h.lt
    · rw [getD_append _ _ _ _ h.lt, h.written]
    · simpa using hhit
    · intro i hle hbit
      rw [length_writeByte] at hle ⊢
      rw [bitAt_writeByte, Bool.or_eq_true] at hbit
      rcases hbit with hold | hnew
      · have hoverhang := h.overhang i (by omega) hold
        omega
      · rw [Bool.and_eq_true] at hnew
        have hlt' := BitVec.lt_of_getMsbD hnew.2
        have hge := of_decide_eq_true hnew.1
        unfold bytePosition at hlt' hge
        omega

end MemoryOutputStream

end Inet4.Serialization
