import Inet4.Packet.Chunk

/-!
# What chunks represent

A chunk represents a list of bits, its content.  Inserting a chunk at the back appends its content,
whatever the representation that is chosen, and peeking a part of a chunk that is not a sequence
returns that part of the content.  The two exceptions are parts that split a byte of a count of
bytes, which fault, and parts without a length that begin inside a slice, which are cut wrongly.
-/

namespace Inet4.Packet

open List Length Nat

variable {position n length : ℕ} {flags : PeekFlags} {ptr : PointerEq}

/-- A chunk object is not empty, and bytes are whole. -/
structure Whole.Valid (chunk : Whole) : Prop where
  pos : 0 < chunk.bits.length
  aligned : chunk.isBytes → 8 ∣ chunk.bits.length

/-- A chunk that is not empty, and whose slice lies within the chunk it refers to. -/
def Element.Valid : Element → Prop
  | .bitCount length => 0 < length
  | .bits data => 0 < data.length
  | .byteCount length => 0 < length
  | .whole chunk => chunk.Valid
  | .slice chunk offset length => chunk.Valid ∧ 0 < length ∧ offset + length ≤ chunk.bits.length

instance : DecidablePred Whole.Valid := fun chunk ↦
  decidable_of_iff (0 < chunk.bits.length ∧ (chunk.isBytes → 8 ∣ chunk.bits.length))
    ⟨fun h ↦ ⟨h.1, h.2⟩, fun h ↦ ⟨h.pos, h.aligned⟩⟩

instance : DecidablePred Element.Valid := fun element ↦
  match element with
  | .bitCount _ | .bits _ | .byteCount _ => inferInstanceAs (Decidable (_ < _))
  | .whole chunk => inferInstanceAs (Decidable chunk.Valid)
  | .slice .. => inferInstanceAs (Decidable (_ ∧ _))

namespace Element

variable {e d : Element}

theorem getChunkLength_pos (h : e.Valid) : 0 < e.getChunkLength := by
  cases e with
  | bitCount length | bits data => exact h
  | byteCount length => exact mul_pos (by decide) h
  | whole chunk => exact h.pos
  | slice chunk offset length => exact h.2.1

theorem length_content (h : e.Valid) : e.content.length = e.getChunkLength := by
  cases e with
  | slice chunk offset length =>
    obtain ⟨-, -, hle⟩ := h
    simp only [content, getChunkLength, length_take, length_drop, length_map]
    omega
  | _ => simp [content, getChunkLength]

@[simp]
theorem getChunkLength_simplify : e.simplify.getChunkLength = e.getChunkLength := by
  cases e with
  | slice chunk offset length =>
    simp only [simplify]
    split
    · rename_i hwhole
      exact hwhole.2.symm
    · rfl
  | _ => rfl

theorem simplify_valid (h : e.Valid) : e.simplify.Valid := by
  cases e with
  | slice chunk offset length =>
    simp only [simplify]
    split
    · exact h.1
    · exact h
  | _ => exact h

@[simp]
theorem content_simplify : e.simplify.content = e.content := by
  cases e with
  | slice chunk offset length =>
    simp only [simplify]
    split
    · rename_i hwhole
      obtain ⟨rfl, rfl⟩ := hwhole
      simp [content, ← map_take]
    · rfl
  | _ => rfl

/-- What a part of a chunk is. -/
structure IsPart (e : Element) (position n : ℕ) (part : Element) : Prop where
  valid : part.Valid
  content : part.content = (e.content.drop position).take n

theorem isPart_simplify (h : e.Valid) (hn : e.getChunkLength ≤ n) : e.IsPart 0 n e.simplify := by
  refine ⟨simplify_valid h, ?_⟩
  rw [content_simplify, drop_zero, take_of_length_le]
  rw [length_content h]
  exact hn

end Element

/-- A length that a caller of the queue can give. -/
def Length.Plain : Length → Prop
  | .atMost _ => False
  | _ => True

theorem not_peeksEmpty {chunkLength : ℕ} {length : Length}
    (hpos : 0 < length.cap (chunkLength - position)) :
    ¬PeeksEmpty position chunkLength length := by
  rintro (rfl | ⟨rfl, hnegative⟩)
  · exact lt_irrefl 0 hpos
  · cases length with
    | exactly n => exact hnegative
    | atMost n | unspecified => simp [cap] at hpos

/-- A length that covers a chunk selects all of it. -/
theorem le_cap_of_covers {chunkLength : ℕ} {length : Length} (h : length.Covers chunkLength) :
    chunkLength ≤ length.cap (chunkLength - 0) := by
  cases length with
  | exactly n => exact le_of_eq (Eq.symm h)
  | atMost n => exact Nat.le_min.mpr ⟨h, Nat.le_refl _⟩
  | unspecified => exact le_refl _

namespace Whole

variable {chunk : Whole} {length : Length}

theorem sliceOf_natCast (offset n : ℕ) : sliceOf chunk offset n = .slice chunk offset n := by
  have hnonneg : ¬(n : ℤ) < 0 := by omega
  rw [sliceOf, if_neg hnonneg, Int.toNat_natCast]

theorem convertToSlice_eq (hplain : length.Plain) (hle : position ≤ chunk.bits.length) :
    convertToSlice chunk position length =
      .slice chunk position (length.cap (chunk.bits.length - position)) := by
  cases length with
  | exactly n => exact sliceOf_natCast position n
  | atMost n => exact absurd hplain id
  | unspecified =>
    rw [cap, ← sliceOf_natCast, Int.ofNat_sub hle]
    rfl

/-- The end of a part in whole bytes that begins with a byte. -/
theorem end_aligned (h : chunk.Valid) (hisBytes : chunk.isBytes) (hplain : length.Plain)
    (hposition : position % 8 = 0) (hbytes : length.IsWholeBytes)
    (hle : position ≤ chunk.bits.length) :
    (position + length.cap (chunk.bits.length - position)) % 8 = 0 := by
  have haligned := h.aligned hisBytes
  cases length with
  | exactly n =>
    simp only [IsWholeBytes] at hbytes
    simp only [cap]
    omega
  | atMost n => exact absurd hplain id
  | unspecified =>
    simp only [cap]
    omega

theorem peek_part (flags : PeekFlags) (position : ℕ) (h : chunk.Valid) (hplain : length.Plain)
    (hn : length.cap (chunk.bits.length - position) = n) (hpos : 0 < n)
    (hle : position + n ≤ chunk.bits.length) :
    ∃ part, chunk.peekUnchecked position length flags = .ok (some (.single part)) ∧
      (Element.whole chunk).IsPart position n part := by
  subst hn
  unfold peekUnchecked
  simp only [not_peeksEmpty hpos, if_false]
  split
  · rename_i hwhole
    obtain ⟨rfl, hcovers⟩ := hwhole
    exact ⟨_, rfl, Element.isPart_simplify (e := .whole chunk) h (le_cap_of_covers hcovers)⟩
  · split
    · rename_i hbytes
      obtain ⟨hisBytes, hposition, hwhole⟩ := hbytes
      have hend := end_aligned h hisBytes hplain hposition hwhole (by omega)
      simp only [hend, ne_eq, not_true_eq_false, if_false]
      refine ⟨_, rfl, ⟨?_, fun _ ↦ ?_⟩, ?_⟩
      · simp only [length_drop, length_take]
        omega
      · simp only [length_drop, length_take]
        omega
      · simp [Element.content, drop_take, map_take]
    · rw [convertToSlice_eq hplain (by omega)]
      exact ⟨_, rfl, ⟨h, hpos, hle⟩, rfl⟩

end Whole

namespace Element

variable {e d : Element} {length : Length}

/-- A part of a chunk that counts bytes consists of whole bytes. -/
def AllowsPart (e : Element) (n : ℕ) : Prop :=
  match e with
  | .byteCount _ => 8 ∣ n
  | _ => True

instance (e : Element) (n : ℕ) : Decidable (e.AllowsPart n) :=
  match e with
  | .byteCount _ => inferInstanceAs (Decidable (8 ∣ n))
  | .bitCount _ | .bits _ | .whole _ | .slice .. => isTrue trivial

/-- A part without a length begins inside a slice, where it is cut wrongly. -/
def InsideSlice (position : ℕ) : Element → Length → Prop
  | .slice .., .unspecified => 0 < position
  | _, _ => False

instance (position : ℕ) (e : Element) : Decidable (e.InsideSlice position .unspecified) :=
  match e with
  | .slice .. => inferInstanceAs (Decidable (_ < _))
  | .bitCount _ | .bits _ | .byteCount _ | .whole _ => isFalse id

/-- `peekUnchecked` returns the part, unless it would split a byte of a count of bytes, or has no
length and begins inside a slice. -/
theorem peek_part (flags : PeekFlags) (position : ℕ) (h : e.Valid) (hplain : length.Plain)
    (hn : length.cap (e.getChunkLength - position) = n) (hpos : 0 < n)
    (hle : position + n ≤ e.getChunkLength) (hpart : e.AllowsPart n)
    (hslice : ¬e.InsideSlice position length) :
    ∃ part, e.peekUnchecked position length flags = .ok (some (.single part)) ∧
      e.IsPart position n part := by
  unfold peekUnchecked
  simp only [not_peeksEmpty (hn ▸ hpos), if_false]
  split
  · rename_i hwhole
    obtain ⟨rfl, hcovers⟩ := hwhole
    exact ⟨_, rfl, isPart_simplify h (hn ▸ le_cap_of_covers hcovers)⟩
  · rename_i hinner
    simp only [hn]
    cases e with
    | bitCount total =>
      simp only [getChunkLength] at hle
      refine ⟨_, rfl, hpos, ?_⟩
      simp only [content, drop_replicate, take_replicate]
      rw [min_eq_left (by omega)]
    | bits data =>
      simp only [getChunkLength] at hle
      refine ⟨_, rfl, ?_, ?_⟩
      · simp only [Valid, length_drop, length_take]
        omega
      · simp [content, drop_take, map_take]
    | byteCount total =>
      obtain ⟨k, rfl⟩ := hpart
      simp only [getChunkLength] at hle
      simp only [mul_mod_right, ne_eq, not_true_eq_false, if_false]
      rw [Nat.mul_div_cancel_left k (by decide)]
      refine ⟨_, rfl, Nat.pos_of_mul_pos_left hpos, ?_⟩
      simp only [content, drop_replicate, take_replicate]
      rw [min_eq_left (by omega)]
    | whole chunk => exact Whole.peek_part flags position h hplain hn hpos hle
    | slice chunk offset total =>
      obtain ⟨hchunk, -, hend⟩ := h
      simp only [getChunkLength] at hle
      cases length with
      | exactly k =>
        obtain rfl : k = n := hn
        obtain ⟨part, hpeek, hvalid, hcontent⟩ := Whole.peek_part flags
          (position + offset) hchunk hplain rfl hpos (by simp only [cap]; omega)
        refine ⟨part, hpeek, hvalid, ?_⟩
        rw [hcontent]
        simp only [content, drop_take, drop_drop, take_take, cap]
        rw [min_eq_left (by omega), add_comm offset]
      | atMost k => exact absurd hplain id
      | unspecified =>
        have hzero : position = 0 := Nat.eq_zero_of_not_pos hslice
        exact absurd ⟨hzero, trivial⟩ hinner

/-- A part that splits a byte of a count of bytes is refused. -/
theorem peek_of_not_allowsPart (flags : PeekFlags) (hpos : 0 < n) (hpart : ¬e.AllowsPart n) :
    e.peekUnchecked position (.exactly n) flags = .error .runtimeError := by
  cases e with
  | byteCount total =>
    have haligned : n % 8 ≠ 0 := fun hzero ↦ hpart (dvd_of_mod_eq_zero hzero)
    unfold peekUnchecked
    rw [if_neg, if_neg]
    · simp only [cap]
      exact if_pos haligned
    · rintro ⟨-, hcovers⟩
      simp only [Covers, getChunkLength] at hcovers
      omega
    · rintro (hzero | ⟨-, hnegative⟩)
      · exact absurd (exactly.inj hzero) hpos.ne'
      · exact hnegative
  | bitCount total | bits data | whole chunk | slice chunk offset total =>
    exact absurd trivial hpart

end Element

/-- The bits of a list of elements. -/
def contentOf (chunks : List Element) : List Bit := chunks.flatMap Element.content

/-- The elements of a sequence are valid. -/
def AllValid (chunks : List Element) : Prop := ∀ e ∈ chunks, e.Valid

instance : DecidablePred AllValid := fun chunks ↦
  inferInstanceAs (Decidable (∀ e ∈ chunks, e.Valid))

section Sequence

variable {chunks others : List Element} {e d : Element}

@[simp]
theorem contentOf_nil : contentOf [] = [] := rfl

@[simp]
theorem contentOf_cons : contentOf (e :: chunks) = e.content ++ contentOf chunks := rfl

@[simp]
theorem contentOf_append : contentOf (chunks ++ others) = contentOf chunks ++ contentOf others :=
  flatMap_append

@[simp]
theorem totalLength_nil : totalLength [] = 0 := rfl

@[simp]
theorem totalLength_cons :
    totalLength (e :: chunks) = e.getChunkLength + totalLength chunks := rfl

theorem AllValid.head (h : AllValid (e :: chunks)) : e.Valid := h e mem_cons_self

theorem AllValid.tail (h : AllValid (e :: chunks)) : AllValid chunks :=
  fun d hd ↦ h d (mem_cons_of_mem e hd)

theorem AllValid.append (h : AllValid chunks) (h' : AllValid others) :
    AllValid (chunks ++ others) :=
  forall_mem_append.mpr ⟨h, h'⟩

theorem allValid_singleton (h : e.Valid) : AllValid [e] := forall_mem_singleton.mpr h

theorem length_contentOf (h : AllValid chunks) :
    (contentOf chunks).length = totalLength chunks := by
  induction chunks with
  | nil => rfl
  | cons e chunks ih =>
    rw [contentOf_cons, totalLength_cons, length_append, ih h.tail,
      Element.length_content h.head]

theorem Element.insertAtBack_valid (he : e.Valid) (hd : d.Valid) (h : e.canInsertAtBack ptr d) :
    (e.insertAtBack d).Valid := by
  cases e <;> cases d <;> simp only [canInsertAtBack, Bool.false_eq_true] at h
  case bitCount.bitCount n m =>
    exact Nat.add_pos_left he m
  case bits.bits l l' =>
    simp only [insertAtBack, Valid, length_append] at he ⊢
    omega
  case byteCount.byteCount n m =>
    exact Nat.add_pos_left he m
  case whole.whole c c' =>
    obtain ⟨hc, hc'⟩ : c.isBytes ∧ c'.isBytes := by simpa using h
    refine ⟨?_, fun _ ↦ ?_⟩
    · simp only [length_append]
      exact Nat.add_pos_left he.pos _
    · simp only [length_append]
      exact Nat.dvd_add (he.aligned hc) (hd.aligned hc')
  case slice.slice c offset n c' offset' m =>
    obtain ⟨hsame, hoffset⟩ : ptr.same c c' ∧ offset + n = offset' := by simpa using h
    obtain rfl := ptr.eq_of_same c c' hsame
    obtain ⟨hchunk, hn, hend⟩ := he
    obtain ⟨-, hm, hend'⟩ := hd
    exact ⟨hchunk, by omega, by omega⟩

theorem Element.content_insertAtBack (h : e.canInsertAtBack ptr d) :
    (e.insertAtBack d).content = e.content ++ d.content := by
  cases e <;> cases d <;> simp only [canInsertAtBack, Bool.false_eq_true] at h
  case bitCount.bitCount n m =>
    exact replicate_add n m none
  case bits.bits l l' =>
    exact map_append
  case byteCount.byteCount n m =>
    simp only [insertAtBack, content, mul_add, replicate_add]
  case whole.whole c c' =>
    exact map_append
  case slice.slice c offset n c' offset' m =>
    obtain ⟨hsame, rfl⟩ : ptr.same c c' ∧ offset + n = offset' := by simpa using h
    obtain rfl := ptr.eq_of_same c c' hsame
    simp only [insertAtBack, content, take_add, drop_drop]

theorem doInsertChunkAtBack_valid (h : AllValid chunks) (he : e.Valid) :
    AllValid (doInsertChunkAtBack ptr chunks e) := by
  unfold doInsertChunkAtBack
  split
  · exact allValid_singleton he
  · rename_i last hlast
    split
    · rename_i hinsert
      have hmem : last ∈ chunks := mem_of_getLast? hlast
      have hmerged := Element.insertAtBack_valid (h last hmem) he hinsert
      apply AllValid.append
      · exact fun d hd ↦ h d (dropLast_subset chunks hd)
      · exact allValid_singleton (Element.simplify_valid hmerged)
    · exact h.append (allValid_singleton he)

theorem contentOf_doInsertChunkAtBack :
    contentOf (doInsertChunkAtBack ptr chunks e) = contentOf chunks ++ e.content := by
  unfold doInsertChunkAtBack
  split
  · rename_i hnone
    rw [getLast?_eq_none_iff.mp hnone]
    simp
  · rename_i last hlast
    obtain ⟨front, rfl⟩ := getLast?_eq_some_iff.mp hlast
    split
    · rename_i hinsert
      simp [Element.content_insertAtBack hinsert]
    · simp

theorem doInsertSequenceChunkAtBack_valid (h : AllValid chunks) (h' : AllValid others) :
    AllValid (doInsertSequenceChunkAtBack ptr chunks others) := by
  induction others generalizing chunks with
  | nil => exact h
  | cons e others ih => exact ih (doInsertChunkAtBack_valid h h'.head) h'.tail

theorem contentOf_doInsertSequenceChunkAtBack :
    contentOf (doInsertSequenceChunkAtBack ptr chunks others) =
      contentOf chunks ++ contentOf others := by
  unfold doInsertSequenceChunkAtBack
  induction others generalizing chunks with
  | nil => simp
  | cons e others ih =>
    rw [foldl_cons, ih, contentOf_doInsertChunkAtBack, contentOf_cons, append_assoc]

end Sequence

theorem getChunkLength_eq (chunk : Chunk) : chunk.getChunkLength = totalLength chunk.elements := by
  cases chunk with
  | single e => simp [Chunk.getChunkLength, Chunk.elements]
  | _ => rfl

theorem length_content {chunk : Chunk} (h : AllValid chunk.elements) :
    chunk.content.length = chunk.getChunkLength := by
  rw [getChunkLength_eq]
  exact length_contentOf h

end Inet4.Packet
