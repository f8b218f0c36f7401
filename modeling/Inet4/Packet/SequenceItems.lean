import Inet4.Packet.SequenceEdit

/-!
# The elements of sequences

An element of a sequence is a chunk that is not a sequence: one of the chunks of this library, or a
slice of one, or a slice of a slice.  These are lawful elements, so every edit of a sequence of them
concatenates, or drops bits at an end (`Item.edit_yields_iff`), unless the part that is left of a
count of bytes is no whole number of bytes, which cannot be represented and stops the edit.
-/

namespace Inet4.Packet

open List

namespace Element

variable {e d : Element} {ptr : PointerEq}

/-- `canInsertAtFront` of a chunk that is not a sequence. -/
def canInsertAtFront (ptr : PointerEq) : Element → Element → Bool
  | bitCount _, bitCount _ => true
  | bits _, bits _ => true
  | byteCount _, byteCount _ => true
  | whole c, whole d => c.isBytes && d.isBytes
  | slice c offset _, slice d offset' length' => ptr.same c d && offset = offset' + length'
  | _, _ => false

/-- `doInsertAtFront` of a chunk that is not a sequence. -/
def insertAtFront : Element → Element → Element
  | bitCount length, bitCount length' => bitCount (length + length')
  | bits data, bits data' => bits (data' ++ data)
  | byteCount length, byteCount length' => byteCount (length + length')
  | whole c, whole d => whole ⟨c.isBytes, d.bits ++ c.bits⟩
  | slice c offset length, slice _ _ length' => slice c (offset - length') (length + length')
  | element, _ => element

/-- Inserting at the front is inserting at the back, the other way round. -/
theorem insertAtFront_eq (h : e.canInsertAtFront ptr d) :
    d.canInsertAtBack ptr e ∧ e.insertAtFront d = d.insertAtBack e := by
  cases e <;> cases d <;> simp only [canInsertAtFront, Bool.false_eq_true] at h
  case bitCount.bitCount n m => exact ⟨rfl, congrArg bitCount (Nat.add_comm n m)⟩
  case bits.bits l l' => exact ⟨rfl, rfl⟩
  case byteCount.byteCount n m => exact ⟨rfl, congrArg byteCount (Nat.add_comm n m)⟩
  case whole.whole c c' =>
    obtain ⟨hc, hc'⟩ : c.isBytes ∧ c'.isBytes := by simpa using h
    exact ⟨by simp [canInsertAtBack, hc, hc'], by simp [insertAtFront, insertAtBack, hc, hc']⟩
  case slice.slice c offset n c' offset' m =>
    obtain ⟨hsame, rfl⟩ : ptr.same c c' ∧ offset = offset' + m := by simpa using h
    obtain rfl := ptr.eq_of_same c c' hsame
    refine ⟨by simpa [canInsertAtBack] using hsame, ?_⟩
    rw [insertAtFront, insertAtBack, Nat.add_sub_cancel, Nat.add_comm n m]

end Element

/-- A chunk that is not a sequence.  A slice of a header, a packet or bytes is an element; the other
slices are of elements and of slices. -/
inductive Item
  | element (element : Element)
  | slice (chunk : Item) (offset length : ℕ)
deriving DecidableEq

/-- Equality of the pointers to two chunks. -/
structure ItemPointerEq where
  elements : PointerEq
  same : Item → Item → Bool
  eq_of_same : ∀ c d, same c d → c = d

namespace Item

/-- `getChunkLength`, in bits. -/
def getChunkLength : Item → ℕ
  | element e => e.getChunkLength
  | slice _ _ length => length

/-- The bits that the chunk represents. -/
def content : Item → List Bit
  | element e => e.content
  | slice chunk offset length => (chunk.content.drop offset).take length

def canInsertAtFront (ptr : ItemPointerEq) : Item → Item → Bool
  | element e, element d => e.canInsertAtFront ptr.elements d
  | slice c offset _, slice d offset' length' => ptr.same c d && offset = offset' + length'
  | _, _ => false

def canInsertAtBack (ptr : ItemPointerEq) : Item → Item → Bool
  | element e, element d => e.canInsertAtBack ptr.elements d
  | slice c offset length, slice d offset' _ => ptr.same c d && offset + length = offset'
  | _, _ => false

/-- `doInsertAtFront`. -/
def insertAtFront : Item → Item → Item
  | element e, element d => element (e.insertAtFront d)
  | slice c offset length, slice _ _ length' => slice c (offset - length') (length + length')
  | item, _ => item

/-- `doInsertAtBack`. -/
def insertAtBack : Item → Item → Item
  | element e, element d => element (e.insertAtBack d)
  | slice c offset length, slice _ _ length' => slice c offset (length + length')
  | item, _ => item

def simplify : Item → Item
  | element e => element e.simplify
  | slice chunk offset length =>
    if offset = 0 ∧ length = chunk.getChunkLength then chunk else slice chunk offset length

/-- `peek` of a part that is not empty. -/
def peek : Item → (position length : ℕ) → Except Fault Item
  | element e, position, n => element <$> peekElement e position n
  | slice chunk offset length, position, n =>
    if position = 0 ∧ n = length then .ok (simplify (slice chunk offset length))
    else chunk.peek (position + offset) n

/-- What a sequence uses of these chunks. -/
def ops (ptr : ItemPointerEq) : ElementChunk Item where
  content := content
  getChunkLength := getChunkLength
  canInsertAtFront := canInsertAtFront ptr
  canInsertAtBack := canInsertAtBack ptr
  insertAtFront e d := (e.insertAtFront d).simplify
  insertAtBack e d := (e.insertAtBack d).simplify
  peek := peek

/-- A chunk that slices are elements of. -/
def IsWhole : Item → Prop
  | element (.whole _) => True
  | _ => False

instance : DecidablePred IsWhole := fun item ↦
  match item with
  | element (.whole _) => isTrue trivial
  | element (.bitCount _) | element (.bits _) | element (.byteCount _) | element (.slice ..)
  | slice .. => isFalse id

/-- A chunk that is not empty, and whose slices lie within the chunks they refer to. -/
def Valid : Item → Prop
  | element e => e.Valid
  | slice chunk offset length =>
    chunk.Valid ∧ ¬chunk.IsWhole ∧ 0 < length ∧ offset + length ≤ chunk.getChunkLength

instance decidableValid : DecidablePred Valid
  | element e => inferInstanceAs (Decidable e.Valid)
  | slice chunk _ _ => @instDecidableAnd _ _ (decidableValid chunk) inferInstance

/-- A part of a chunk that counts bytes consists of whole bytes; a whole slice is kept as it is. -/
def AllowsPart : Item → (position n : ℕ) → Prop
  | element e, _, n => e.AllowsPart n
  | slice chunk offset length, position, n =>
    (position = 0 ∧ n = length) ∨ chunk.AllowsPart (position + offset) n

variable {e d : Item} {ptr : ItemPointerEq} {position n : ℕ}

theorem getChunkLength_pos (h : e.Valid) : 0 < e.getChunkLength := by
  cases e with
  | element e => exact Element.getChunkLength_pos h
  | slice chunk offset length => exact h.2.2.1

theorem length_content (h : e.Valid) : e.content.length = e.getChunkLength := by
  induction e with
  | element e => exact Element.length_content h
  | slice chunk offset length ih =>
    obtain ⟨hchunk, -, -, hend⟩ := h
    rw [content, getChunkLength, length_take, length_drop, ih hchunk]
    omega

theorem simplify_valid (h : e.Valid) : e.simplify.Valid := by
  cases e with
  | element e => exact Element.simplify_valid h
  | slice chunk offset length =>
    rw [simplify]
    split
    · exact h.1
    · exact h

theorem content_simplify (h : e.Valid) : e.simplify.content = e.content := by
  cases e with
  | element e => exact Element.content_simplify
  | slice chunk offset length =>
    rw [simplify]
    split
    · rename_i hwhole
      obtain ⟨rfl, rfl⟩ := hwhole
      rw [content, drop_zero, take_of_length_le (length_content h.1).le]
    · rfl

/-- Inserting at the front is inserting at the back, the other way round. -/
theorem insertAtFront_eq (h : e.canInsertAtFront ptr d) :
    d.canInsertAtBack ptr e ∧ e.insertAtFront d = d.insertAtBack e := by
  cases e <;> cases d <;> simp only [canInsertAtFront, Bool.false_eq_true] at h
  case element.element e d =>
    obtain ⟨hback, heq⟩ := Element.insertAtFront_eq h
    exact ⟨hback, congrArg element heq⟩
  case slice.slice c offset n c' offset' m =>
    obtain ⟨hsame, rfl⟩ : ptr.same c c' ∧ offset = offset' + m := by simpa using h
    obtain rfl := ptr.eq_of_same c c' hsame
    refine ⟨by simpa [canInsertAtBack] using hsame, ?_⟩
    rw [insertAtFront, insertAtBack, Nat.add_sub_cancel, Nat.add_comm n m]

theorem insertAtBack_valid (he : e.Valid) (hd : d.Valid) (h : e.canInsertAtBack ptr d) :
    (e.insertAtBack d).Valid ∧ (e.insertAtBack d).content = e.content ++ d.content := by
  cases e <;> cases d <;> simp only [canInsertAtBack, Bool.false_eq_true] at h
  case element.element e d =>
    exact ⟨Element.insertAtBack_valid he hd h, Element.content_insertAtBack h⟩
  case slice.slice c offset n c' offset' m =>
    obtain ⟨hsame, rfl⟩ : ptr.same c c' ∧ offset + n = offset' := by simpa using h
    obtain rfl := ptr.eq_of_same c c' hsame
    obtain ⟨hchunk, hwhole, hn, -⟩ := he
    obtain ⟨-, -, -, hend⟩ := hd
    refine ⟨⟨hchunk, hwhole, by omega, by omega⟩, ?_⟩
    simp only [insertAtBack, content, take_add, drop_drop]

theorem peek_part (h : e.Valid) (hn : 0 < n) (hle : position + n ≤ e.getChunkLength)
    (hpart : e.AllowsPart position n) :
    ∃ part, e.peek position n = .ok part ∧ part.Valid ∧
      part.content = (e.content.drop position).take n := by
  induction e generalizing position with
  | element e =>
    obtain ⟨part, hpeek, hispart⟩ := peekElement_eq position h hn hle hpart
    exact ⟨element part, by rw [peek, hpeek]; rfl, hispart.valid, hispart.content⟩
  | slice chunk offset length ih =>
    have hslice := h
    obtain ⟨hchunk, -, -, hend⟩ := h
    rw [getChunkLength] at hle
    rw [peek]
    split
    · rename_i hwhole
      obtain ⟨rfl, rfl⟩ := hwhole
      refine ⟨_, rfl, simplify_valid hslice, ?_⟩
      rw [content_simplify hslice, drop_zero, take_of_length_le]
      exact (length_content hslice).le
    · rename_i hinner
      obtain ⟨part, hpeek, hvalid, hcontent⟩ :=
        ih hchunk (by omega) (hpart.resolve_left hinner)
      refine ⟨part, hpeek, hvalid, ?_⟩
      rw [hcontent, content, drop_take, drop_drop, take_take,
        Nat.min_eq_left (by omega), Nat.add_comm offset]

theorem peek_of_not_allowsPart (hn : 0 < n) (hpart : ¬e.AllowsPart position n) :
    e.peek position n = .error .runtimeError := by
  induction e generalizing position with
  | element e =>
    rw [peek, peekElement, Element.peek_of_not_allowsPart ⟨false, false⟩ hn hpart]
    rfl
  | slice chunk offset length ih =>
    obtain ⟨hinner, hchunk⟩ := not_or.mp hpart
    rw [peek, if_neg hinner]
    exact ih hchunk

theorem allowsPart_whole (e : Item) : e.AllowsPart 0 e.getChunkLength := by
  cases e with
  | element e =>
    cases e with
    | byteCount length => exact Nat.dvd_mul_right 8 length
    | _ => trivial
  | slice chunk offset length => exact .inl ⟨rfl, rfl⟩

theorem lawful (ptr : ItemPointerEq) : (ops ptr).Lawful Valid AllowsPart where
  length_pos _ := getChunkLength_pos
  length_content _ := length_content
  insertAtFront e d he hd hinsert := by
    obtain ⟨hback, heq⟩ := insertAtFront_eq hinsert
    obtain ⟨hvalid, hcontent⟩ := insertAtBack_valid hd he hback
    rw [← heq] at hvalid hcontent
    exact ⟨simplify_valid hvalid, (content_simplify hvalid).trans hcontent⟩
  insertAtBack e d he hd hinsert := by
    obtain ⟨hvalid, hcontent⟩ := insertAtBack_valid he hd hinsert
    exact ⟨simplify_valid hvalid, (content_simplify hvalid).trans hcontent⟩
  allowsPart_whole := allowsPart_whole
  peek _ _ _ := peek_part
  refuse _ _ _ _ hn _ hpart := ⟨_, peek_of_not_allowsPart hn hpart⟩

/-- An edit of a sequence concatenates or drops bits at an end, and leaves no element empty, if and
only if of each count of bytes that is cut a whole number of bytes is left. -/
theorem edit_yields_iff (ptr : ItemPointerEq) {chunks : List Item} {edit : Edit Item}
    (hchunks : ∀ e ∈ chunks, e.Valid) (hedit : (ops ptr).Admits Valid chunks edit) :
    (ops ptr).Yields Valid ((ops ptr).edited ((ops ptr).contentOf chunks) edit)
        ((ops ptr).run chunks edit) ↔
      (ops ptr).AllowsEdit AllowsPart chunks edit :=
  (lawful ptr).yields_iff hchunks hedit

/-- Equal chunks are one object. -/
def structuralEq : ItemPointerEq :=
  ⟨Packet.structuralEq, fun c d ↦ decide (c = d), fun _ _ h ↦ of_decide_eq_true h⟩

/-- A slice from the middle of one element to the middle of the next one is inserted at the
front. -/
theorem edit_yields_iff_slice :
    (ops structuralEq).Yields Valid [some true, none, none, some false]
        ((ops structuralEq).run [element (.bits [false])]
          (.insertAtFront (.slice [element (.bits [false, true]), element (.bitCount 5)] 1 3))) ↔
      (ops structuralEq).AllowsEdit AllowsPart [element (.bits [false])]
        (.insertAtFront (.slice [element (.bits [false, true]), element (.bitCount 5)] 1 3)) :=
  edit_yields_iff structuralEq (by decide) ⟨by decide, by decide, by decide⟩

/-- Half a byte cannot be removed of a count of bytes. -/
theorem not_yields_half_byte :
    ¬∀ (ptr : ItemPointerEq) (chunks : List Item) (edit : Edit Item),
      (∀ e ∈ chunks, e.Valid) → (ops ptr).Admits Valid chunks edit →
        (ops ptr).Yields Valid ((ops ptr).edited ((ops ptr).contentOf chunks) edit)
          ((ops ptr).run chunks edit) := by
  intro hall
  obtain ⟨chunks, hrun, -⟩ := hall structuralEq [element (.byteCount 1)] (.removeAtFront 4)
    (by decide) (show 4 ≤ 8 by decide)
  exact absurd hrun nofun

end Item

end Inet4.Packet
