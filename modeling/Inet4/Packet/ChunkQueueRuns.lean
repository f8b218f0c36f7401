import Inet4.Packet.ChunkQueue

/-!
# Chunk queues are streams

Whatever the representation of the content, `push` appends the bits of a chunk, a part is peeked
where it lies, and moving the iterator removes bits from the head, whether the content is cut then
or not.  So in every run the bits that were popped and those that are stored are the bits that
were pushed (`fifo_of_served`).
-/

namespace Inet4.Packet

open List Chunk Element Nat
open Length (ofArgument ofInt)

variable {ptr : PointerEq} {debug : Bool} {position n : ℕ} {flags : PeekFlags} {length : Length}
variable {chunks : List Element} {content chunk : Chunk} {iterator : Iterator}

/-! ## Chunks -/

theorem restLength_pos (hlt : position < totalLength chunks) : 0 < restLength chunks position := by
  induction chunks generalizing position with
  | nil => exact absurd hlt (not_lt_zero _)
  | cons e chunks ih =>
    rw [totalLength_cons] at hlt
    rw [restLength]
    split
    · omega
    · exact ih (by omega)

theorem restLength_le (hle : position ≤ totalLength chunks) :
    position + restLength chunks position ≤ totalLength chunks := by
  induction chunks generalizing position with
  | nil => exact hle
  | cons e chunks ih =>
    rw [totalLength_cons] at hle ⊢
    rw [restLength]
    split
    · omega
    · have hrest : position - e.getChunkLength + _ ≤ _ := ih (by omega)
      omega

/-- `peek` of an empty part. -/
theorem peek_of_peeksEmpty (h : PeeksEmpty iterator.position chunk.getChunkLength length) :
    chunk.peek ptr iterator length flags = getEmptyChunk flags := by
  cases chunk with
  | empty => rfl
  | single e | sequence chunks => exact if_pos h

/-- A chunk that is returned consists of valid elements. -/
def ValidReply (reply : Option Chunk) : Prop := ∀ chunk ∈ reply, AllValid chunk.elements

theorem getEmptyChunk_eq (h : flags.allowNullptr ∨ flags.allowEmpty) :
    ∃ reply, getEmptyChunk flags = .ok reply ∧ ValidReply reply ∧ replyContent reply = [] := by
  unfold getEmptyChunk
  split
  · exact ⟨none, rfl, nofun, rfl⟩
  · rename_i hnull
    rw [if_pos (h.resolve_left hnull)]
    exact ⟨some .empty, rfl, by simp [ValidReply, AllValid, elements], rfl⟩

/-- `peek` of a part that is not empty. -/
theorem peek_answers (ptr : PointerEq) (flags : PeekFlags) (h : AllValid chunk.elements)
    (hconsistent : iterator.Consistent chunk.elements)
    (hpeekable : Peekable chunk.elements iterator.position length) :
    Answers (chunk.content.drop iterator.position) (length.count chunk.elements iterator.position)
      (chunk.peek ptr iterator length flags) := by
  cases chunk with
  | empty =>
    obtain ⟨-, hpos, hle, -⟩ := hpeekable
    have hzero := le_zero.mp hle
    omega
  | single e =>
    obtain ⟨-, hpos, hle, -⟩ := id hpeekable
    simp only [elements, totalLength_cons, totalLength_nil, add_zero] at hle hpos
    have hanswers := answers_of_lt flags (AllValid.head h) hpeekable (by omega) hle []
    simpa [Chunk.content, Chunk.elements, Chunk.peek] using hanswers
  | sequence chunks => exact peekSequence_answers ptr flags h hconsistent hpeekable

/-- `peek` of a part, which may be empty if the flags allow it. -/
theorem peek_spec (ptr : PointerEq) (flags : PeekFlags) (h : AllValid chunk.elements)
    (hconsistent : iterator.Consistent chunk.elements) (hplain : length.Plain)
    (hle : iterator.position + length.count chunk.elements iterator.position ≤
      chunk.getChunkLength)
    (hcut : AllowsCut chunk.elements iterator.position
      (iterator.position + length.count chunk.elements iterator.position))
    (houtside : length = .unspecified → OutsideSlices chunk.elements iterator.position)
    (hflags : PeeksEmpty iterator.position chunk.getChunkLength length →
      flags.allowNullptr ∨ flags.allowEmpty) :
    ∃ reply, chunk.peek ptr iterator length flags = .ok reply ∧ ValidReply reply ∧
      replyContent reply = (chunk.content.drop iterator.position).take
        (length.count chunk.elements iterator.position) := by
  rw [getChunkLength_eq] at hle hflags
  rcases Nat.eq_zero_or_pos (length.count chunk.elements iterator.position) with hzero | hpos
  · have hempty : PeeksEmpty iterator.position (totalLength chunk.elements) length := by
      cases length with
      | exactly n =>
        obtain rfl : n = 0 := hzero
        exact .inl rfl
      | atMost n => exact absurd hplain id
      | unspecified =>
        refine .inr ⟨?_, trivial⟩
        by_contra hne
        have hrest : 0 < restLength chunk.elements iterator.position := restLength_pos (by omega)
        simp only [Length.count] at hzero
        omega
    obtain ⟨reply, hreply, hvalid, hcontent⟩ := getEmptyChunk_eq (hflags hempty)
    rw [← getChunkLength_eq] at hempty
    refine ⟨reply, (peek_of_peeksEmpty hempty).trans hreply, hvalid, ?_⟩
    rw [hcontent, hzero, take_zero]
  · obtain ⟨part, hpart, hvalid, hcontent⟩ :=
      peek_answers ptr flags h hconsistent ⟨hplain, hpos, hle, hcut, houtside⟩
    exact ⟨some part, hpart, by simpa [ValidReply] using hvalid, hcontent⟩

/-! ## Cutting the content -/

theorem Element.removeAtFront_spec {e : Element} (h : e.Valid) (hlt : n < e.getChunkLength)
    (hremove : e.canRemoveAtFront n) :
    (e.removeAtFront n).Valid ∧ (e.removeAtFront n).content = e.content.drop n := by
  cases e with
  | bitCount length =>
    simp only [getChunkLength] at hlt
    refine ⟨?_, ?_⟩
    · simp only [removeAtFront, Valid]
      omega
    · simp [removeAtFront, content]
  | bits data =>
    simp only [getChunkLength] at hlt
    refine ⟨?_, ?_⟩
    · simp only [removeAtFront, Valid, length_drop]
      omega
    · simp [removeAtFront, content]
  | byteCount length =>
    simp only [getChunkLength] at hlt
    simp only [canRemoveAtFront, decide_eq_true_eq] at hremove
    refine ⟨?_, ?_⟩
    · simp only [removeAtFront, Valid]
      omega
    · simp only [removeAtFront, content, drop_replicate]
      congr 1
      omega
  | whole chunk =>
    simp only [getChunkLength] at hlt
    obtain ⟨hbytes, haligned⟩ : chunk.isBytes ∧ n % 8 = 0 := by
      simpa [canRemoveAtFront] using hremove
    refine ⟨⟨?_, fun hisBytes ↦ ?_⟩, ?_⟩
    · simp only [length_drop]
      omega
    · have hdvd := h.aligned hisBytes
      simp only [length_drop]
      omega
    · simp [removeAtFront, content]
  | slice chunk offset length => cases hremove

/-- What `remove` leaves of the content. -/
theorem removeFromContent_spec (ptr : PointerEq) (h : AllValid content.elements)
    (hle : n ≤ content.getChunkLength) (hsplit : AllowsSplit content.elements n) :
    ∃ rest, ChunkQueue.removeFromContent ptr content n = .ok rest ∧ AllValid rest.elements ∧
      rest.content = content.content.drop n ∧ (rest.content ≠ [] ∨ rest = .empty) := by
  have hlength := length_content h
  unfold ChunkQueue.removeFromContent
  split
  · rename_i hall
    refine ⟨.empty, rfl, forall_mem_nil _, ?_, .inr rfl⟩
    rw [drop_eq_nil_of_le (by omega)]
    rfl
  · rename_i hne
    have hlt : n < content.getChunkLength := by omega
    have hrest : content.content.drop n ≠ [] := by
      apply ne_nil_of_length_pos
      rw [length_drop]
      omega
    split
    · rename_i hremove
      cases content with
      | empty => cases hremove
      | single e =>
        obtain ⟨hvalid, hcontent⟩ := removeAtFront_spec (AllValid.head h) hlt hremove
        have heq : (single (e.removeAtFront n)).content = (single e).content.drop n := by
          simpa [Chunk.content, Chunk.elements] using hcontent
        exact ⟨.single (e.removeAtFront n), rfl, allValid_singleton hvalid, heq, .inl (heq ▸ hrest)⟩
      | sequence chunks =>
        obtain ⟨rest, hremoved, hvalid, hcontent⟩ : ∃ rest, doRemoveAtFront n chunks = .ok rest ∧
            AllValid rest ∧ contentOf rest = (contentOf chunks).drop n :=
          doRemoveAtFront_eq h hlt hsplit
        have heq : (sequence rest).content = (sequence chunks).content.drop n := hcontent
        refine ⟨.sequence rest, ?_, hvalid, heq, .inl (heq ▸ hrest)⟩
        rw [Chunk.removeAtFront, hremoved]
        rfl
    · rename_i hremove
      have hcount : n + (content.getChunkLength - n) = content.getChunkLength := by omega
      have hpeekable : Peekable content.elements (Iterator.ofPosition n).position
          (.exactly (content.getChunkLength - n)) := by
        refine ⟨trivial, by simp only [Length.count]; omega, ?_, ?_, Length.noConfusion⟩
        · simp only [Length.count, Iterator.ofPosition, ← getChunkLength_eq]
          omega
        · simp only [Length.count, Iterator.ofPosition, hcount]
          cases content with
          | empty => trivial
          | single e =>
            simp only [Chunk.elements, Chunk.getChunkLength, AllowsSplit, AllowsCut] at hsplit hlt ⊢
            rw [if_pos hlt] at hsplit
            rw [min_self]
            exact ⟨hsplit, trivial⟩
          | sequence chunks => exact absurd rfl hremove
      have hconsistent : (Iterator.ofPosition n).Consistent content.elements := by
        unfold Iterator.ofPosition
        split
        · rename_i hzero
          exact consistent_zero hzero _
        · exact consistent_none _ _
      obtain ⟨rest, hpeek, hvalid, hcontent⟩ :=
        peek_answers ptr ⟨false, false⟩ h hconsistent hpeekable
      have heq : rest.content = content.content.drop n := by
        rw [hcontent, Length.count, take_of_length_le]
        · rfl
        · rw [length_drop, hlength]
          exact le_refl _
      rw [bind_of_ok hpeek]
      exact ⟨rest, rfl, hvalid, heq, .inl (heq ▸ hrest)⟩

/-! ## The queue -/

/-- The iterator of an empty queue is at the beginning, and that of another one is valid. -/
structure ChunkQueue.Valid (q : ChunkQueue) : Prop where
  content : AllValid q.content.elements
  iterator : q.content = .empty ∧ q.iterator.position = 0 ∧
    (∀ i, q.iterator.index = some i → i = 0) ∨
    q.content ≠ .empty ∧ q.iterator.Valid q.content.elements

namespace ChunkQueue

variable {q r : ChunkQueue}

theorem Valid.position_le (h : q.Valid) : q.iterator.position ≤ q.content.getChunkLength := by
  rcases h.iterator with ⟨-, hzero, -⟩ | ⟨-, hvalid⟩
  · omega
  · rw [getChunkLength_eq]
    exact le_of_lt hvalid.lt

theorem Valid.consistent (h : q.Valid) : q.iterator.Consistent q.content.elements := by
  rcases h.iterator with ⟨-, hzero, hindex⟩ | ⟨-, hvalid⟩
  · intro i hi
    obtain rfl := hindex i hi
    exact ⟨zero_le _, hzero⟩
  · exact hvalid.consistent

theorem Valid.split (h : q.Valid) : AllowsSplit q.content.elements q.iterator.position := by
  rcases h.iterator with ⟨-, hzero, -⟩ | ⟨-, hvalid⟩
  · rw [hzero]
    exact allowsSplit_zero h.content
  · exact hvalid.split

theorem length_stored (h : q.Valid) : (q.stored.length : ℤ) = q.getLength := by
  have hle := h.position_le
  rw [stored, length_drop, length_content h.content, getLength]
  omega

/-- Inserting a chunk into a sequence inserts its elements. -/
theorem insertIntoSequence_eq (ptr : PointerEq) (chunks : List Element) (chunk : Chunk) :
    insertIntoSequence ptr chunks chunk =
      doInsertSequenceChunkAtBack ptr chunks chunk.elements := by
  cases chunk <;> rfl

/-- However the chunks are represented, `push` inserts the elements of the chunk behind those of the
content. -/
theorem elements_pushChunk (ptr : PointerEq) (hne : q.content ≠ .empty) (chunk : Chunk)
    (hchunk : chunk.elements ≠ []) :
    (q.pushChunk ptr chunk).content.elements =
      doInsertSequenceChunkAtBack ptr q.content.elements chunk.elements := by
  unfold pushChunk
  simp only [if_neg hne]
  split
  · rename_i hinsert
    cases hcontent : q.content with
    | empty => exact absurd hcontent hne
    | single e =>
      rw [hcontent] at hinsert
      cases chunk with
      | single d =>
        simp only [Chunk.canInsertAtBack] at hinsert
        simp [Chunk.insertAtBack, Chunk.elements, doInsertSequenceChunkAtBack, doInsertChunkAtBack,
          hinsert]
      | _ => cases hinsert
    | sequence chunks =>
      simp only [Chunk.insertAtBack, Chunk.elements, insertIntoSequence_eq]
  · rename_i hinsert
    simp only [elements, insertIntoSequence_eq]
    cases hcontent : q.content with
    | empty => exact absurd hcontent hne
    | single e => rfl
    | sequence chunks =>
      rw [hcontent] at hinsert
      exact absurd rfl hinsert

/-- An iterator at the beginning of a chunk. -/
theorem valid_of_zero {elements : List Element} (h : AllValid elements) (hne : elements ≠ [])
    (hconsistent : iterator.Consistent elements) (hzero : iterator.position = 0) :
    iterator.Valid elements := by
  refine ⟨hconsistent, by rw [hzero]; exact allowsSplit_zero h, ?_⟩
  rw [hzero]
  cases elements with
  | nil => exact absurd rfl hne
  | cons e elements =>
    exact Nat.add_pos_left (Element.getChunkLength_pos h.head) _

theorem Valid.iterator_valid (h : q.Valid) (hne : q.content ≠ .empty) :
    q.iterator.Valid q.content.elements :=
  (h.iterator.resolve_left fun hempty ↦ hne hempty.1).2

theorem pushChunk_spec (ptr : PointerEq) (h : q.Valid) (hchunk : AllValid chunk.elements)
    (hne : chunk.elements ≠ []) :
    (q.pushChunk ptr chunk).Valid ∧
      (q.pushChunk ptr chunk).stored = q.stored ++ chunk.content ∧
      (q.pushChunk ptr chunk).pushedLength = q.pushedLength + chunk.getChunkLength ∧
      (q.pushChunk ptr chunk).poppedLength = q.poppedLength := by
  have hchunk' : chunk ≠ .empty := by
    rintro rfl
    exact hne rfl
  by_cases hempty : q.content = .empty
  · have hpush : q.pushChunk ptr chunk =
        { q with pushedLength := q.pushedLength + chunk.getChunkLength, content := chunk } := by
      rw [pushChunk, if_pos hempty]
    obtain ⟨-, hzero, hindex⟩ := h.iterator.resolve_right fun hfull ↦ hfull.1 hempty
    have hconsistent : q.iterator.Consistent chunk.elements := by
      intro i hi
      obtain rfl := hindex i hi
      exact ⟨zero_le _, hzero⟩
    rw [hpush]
    refine ⟨⟨hchunk, .inr ⟨hchunk', valid_of_zero hchunk hne hconsistent hzero⟩⟩, ?_, rfl, rfl⟩
    simp only [stored, hempty, hzero, drop_zero]
    rfl
  · have hiterator := h.iterator_valid hempty
    have helements := elements_pushChunk ptr hempty chunk hne
    have hvalid : AllValid (q.pushChunk ptr chunk).content.elements := by
      rw [helements]
      exact doInsertSequenceChunkAtBack_valid h.content hchunk
    have hcontent : (q.pushChunk ptr chunk).content.content =
        q.content.content ++ chunk.content := by
      rw [Chunk.content, ← contentOf, helements]
      exact contentOf_doInsertSequenceChunkAtBack
    have hkept : q.iterator.Valid (q.pushChunk ptr chunk).content.elements := by
      rw [helements]
      exact hiterator.doInsertSequenceChunkAtBack chunk.elements
    have hfields : (q.pushChunk ptr chunk).iterator.position = q.iterator.position ∧
        (q.pushChunk ptr chunk).iterator.Consistent (q.pushChunk ptr chunk).content.elements ∧
        (q.pushChunk ptr chunk).content ≠ .empty ∧
        (q.pushChunk ptr chunk).pushedLength = q.pushedLength + chunk.getChunkLength ∧
        (q.pushChunk ptr chunk).poppedLength = q.poppedLength := by
      have hnonempty : (q.pushChunk ptr chunk).content ≠ .empty := by
        intro hnone
        have hlt := hkept.lt
        rw [hnone] at hlt
        exact not_lt_zero _ hlt
      have hconsistent := hkept.consistent
      revert hnonempty hconsistent
      unfold pushChunk
      simp only [if_neg hempty]
      split
      · exact fun hnonempty hconsistent ↦ ⟨rfl, hconsistent, hnonempty, rfl, rfl⟩
      · refine fun hnonempty _ ↦ ⟨position_seekIterator _ _, ?_, hnonempty, rfl, rfl⟩
        exact seekIterator_consistent _ _
    obtain ⟨hposition, hconsistent, hnonempty, hpushed, hpopped⟩ := hfields
    refine ⟨⟨hvalid, .inr ⟨hnonempty, hconsistent, ?_, ?_⟩⟩, ?_, hpushed, hpopped⟩
    · rw [hposition]
      exact hkept.split
    · rw [hposition]
      exact hkept.lt
    · rw [stored, stored, hcontent, hposition, drop_append_of_le_length]
      rw [length_content h.content]
      exact h.position_le

theorem remove_spec (ptr : PointerEq) (h : AllValid q.content.elements)
    (hle : q.iterator.position ≤ q.content.getChunkLength)
    (hsplit : AllowsSplit q.content.elements q.iterator.position) :
    ∃ r, q.remove ptr q.iterator.position = .ok r ∧ r.Valid ∧ r.stored = q.stored ∧
      r.pushedLength = q.pushedLength ∧ r.poppedLength = q.poppedLength := by
  obtain ⟨rest, hrest, hvalid, hcontent, hnonempty⟩ := removeFromContent_spec ptr h hle hsplit
  have hposition := position_seekIterator rest 0
  rw [remove, bind_of_ok hrest, Nat.sub_self]
  refine ⟨_, rfl, ⟨hvalid, ?_⟩, ?_, rfl, rfl⟩
  · rcases hnonempty with hne | rfl
    · right
      have helements : rest.elements ≠ [] := by
        intro hnil
        rw [Chunk.content, hnil] at hne
        exact hne rfl
      refine ⟨?_, valid_of_zero hvalid helements (seekIterator_consistent rest 0) hposition⟩
      rintro rfl
      exact helements rfl
    · left
      refine ⟨rfl, rfl, fun i hi ↦ ?_⟩
      exact (Option.some.inj hi).symm
  · simp only [stored, hposition, drop_zero, hcontent]

/-- Moving the iterator removes a part from the head. -/
theorem moveIteratorOrRemove_spec (ptr : PointerEq) (h : q.Valid)
    (hle : q.iterator.position + n ≤ q.content.getChunkLength)
    (hsplit : AllowsSplit q.content.elements (q.iterator.position + n)) :
    ∃ r, q.moveIteratorOrRemove ptr n = .ok r ∧ r.Valid ∧ r.stored = q.stored.drop n ∧
      r.pushedLength = q.pushedLength ∧ r.poppedLength = q.poppedLength + n := by
  set moved : ChunkQueue := { q with
    poppedLength := q.poppedLength + n
    iterator := q.content.moveIterator q.iterator n } with hmoved
  have hposition : moved.iterator.position = q.iterator.position + n := position_moveIterator _
  have hstored : moved.stored = q.stored.drop n := by
    rw [stored, stored, hposition, drop_drop]
  have hconsistent : moved.iterator.Consistent moved.content.elements :=
    moveIterator_consistent q.content h.consistent n
  unfold moveIteratorOrRemove
  simp only [← hmoved]
  split
  · obtain ⟨r, hr, hvalid, hkept, hpushed, hpopped⟩ : ∃ r,
        moved.remove ptr moved.iterator.position = .ok r ∧ r.Valid ∧ r.stored = moved.stored ∧
        r.pushedLength = moved.pushedLength ∧ r.poppedLength = moved.poppedLength :=
      remove_spec ptr h.content (by rw [hposition]; exact hle) (by rw [hposition]; exact hsplit)
    exact ⟨r, hr, hvalid, hkept.trans hstored, hpushed, hpopped⟩
  · rename_i hhalf
    rw [hposition] at hhalf
    refine ⟨moved, rfl, ⟨h.content, ?_⟩, hstored, rfl, rfl⟩
    by_cases hempty : q.content = .empty
    · left
      have hlength : q.content.getChunkLength = 0 := by
        rw [hempty]
        rfl
      have hzero : q.iterator.position + n = 0 := by omega
      refine ⟨hempty, hposition.trans hzero, fun i hi ↦ ?_⟩
      rw [hmoved] at hi
      simp only [hempty, moveIterator, hzero, if_true] at hi
      exact (Option.some.inj hi).symm
    · right
      have hlt := (h.iterator_valid hempty).lt
      rw [← getChunkLength_eq] at hlt
      refine ⟨hempty, hconsistent, ?_, ?_⟩
      · rw [hposition]
        exact hsplit
      · rw [hposition, ← getChunkLength_eq]
        change _ < q.content.getChunkLength
        omega

/-! ## Parts -/

/-- The argument that a length of the interface becomes. -/
theorem plain_argument {length : ℤ} (h : -1 ≤ length) :
    (ofArgument (if length = -1 then unspecifiedLength else length)).Plain := by
  by_cases hunspecified : length = -1
  · rw [if_pos hunspecified, ofArgument, if_pos rfl]
    trivial
  · have hne : length ≠ unspecifiedLength := by
      rintro rfl
      exact absurd h (by decide)
    rw [if_neg hunspecified, ofArgument, if_neg hne, ofInt, if_pos (by omega)]
    trivial

theorem argument_of_nonneg {length : ℤ} (h : 0 ≤ length) :
    ofArgument (if length = -1 then unspecifiedLength else length) =
      .exactly length.toNat := by
  have hne : length ≠ unspecifiedLength := by
    rintro rfl
    exact absurd h (by decide)
  rw [if_neg (by omega), ofArgument, if_neg hne, ofInt, if_pos h]

theorem argument_unspecified :
    ofArgument (if (-1 : ℤ) = -1 then unspecifiedLength else -1) = .unspecified := rfl

/-- The number of bits of the part at an offset. -/
def partLength (q : ChunkQueue) (offset : ℕ) (length : ℤ) : ℕ :=
  Length.count (.ofArgument (if length = -1 then unspecifiedLength else length))
    q.content.elements (q.iterator.position + offset)

theorem partLength_le {offset : ℕ} {length : ℤ}
    (hadmits : AdmitsPart q offset length flags) :
    q.iterator.position + offset + q.partLength offset length ≤ q.content.getChunkLength := by
  obtain ⟨hoffset, hle, hend, -⟩ := hadmits
  rw [getLength] at hoffset hend
  unfold partLength
  rcases Int.le_iff_lt_or_eq.mp hle with hlt | rfl
  · rw [argument_of_nonneg (by omega), Length.count]
    omega
  · rw [argument_unspecified, Length.count, getChunkLength_eq]
    apply restLength_le
    rw [← getChunkLength_eq]
    omega

/-- What `ServesPart` and `AdmitsPart` say of the part that is peeked. -/
theorem peekPart_spec (ptr : PointerEq) (h : q.Valid) {offset : ℕ} {length : ℤ}
    (hadmits : AdmitsPart q offset length flags) (hserves : ServesPart q offset length)
    (hposition : iterator.position = q.iterator.position + offset)
    (hconsistent : iterator.Consistent q.content.elements) :
    ∃ reply, q.content.peek ptr iterator
        (.ofArgument (if length = -1 then unspecifiedLength else length)) flags = .ok reply ∧
      ValidReply reply ∧
      replyContent reply = (q.stored.drop offset).take (q.partLength offset length) ∧
      Selects (q.stored.drop offset) length reply := by
  have hcount := partLength_le hadmits
  obtain ⟨hoffset, hle, hend, hflags⟩ := hadmits
  obtain ⟨hcut, houtside⟩ := hserves
  have hlength := length_stored h
  rw [getLength] at hoffset hend hflags
  obtain ⟨reply, hpeek, hvalid, hcontent⟩ := peek_spec ptr flags h.content hconsistent
    (plain_argument hle) (by rw [hposition]; exact hcount) (by rw [hposition]; exact hcut) (by
      intro hunspecified
      rw [hposition]
      apply houtside
      by_contra hne
      rw [argument_of_nonneg (by omega)] at hunspecified
      cases hunspecified) (by
      rintro (hzero | ⟨hall, hnegative⟩)
      · apply hflags
        left
        rcases Int.le_iff_lt_or_eq.mp hle with hlt | rfl
        · rw [argument_of_nonneg (by omega)] at hzero
          have htoNat := Length.exactly.inj hzero
          omega
        · cases hzero
      · apply hflags
        right
        omega)
  rw [hposition] at hcontent
  change _ = (q.content.content.drop (q.iterator.position + offset)).take
    (q.partLength offset length) at hcontent
  have hdrop : q.content.content.drop (q.iterator.position + offset) = q.stored.drop offset := by
    rw [stored, drop_drop]
  rw [hdrop] at hcontent
  refine ⟨reply, hpeek, hvalid, hcontent, ?_, ?_⟩
  · rw [hcontent]
    exact take_prefix _ _
  · split
    · rename_i hunspecified
      subst hunspecified
      intro hne
      rw [hcontent, partLength, argument_unspecified, Length.count]
      have hpos := length_pos_of_ne_nil hne
      apply ne_nil_of_length_pos
      rw [length_drop] at hpos
      have hrest : 0 < restLength q.content.elements (q.iterator.position + offset) := by
        apply restLength_pos
        rw [← getChunkLength_eq]
        rw [getLength] at hlength
        omega
      rw [length_take, length_drop]
      omega
    · rename_i hspecified
      rw [hcontent, partLength, argument_of_nonneg (by omega), Length.count, length_take,
        length_drop]
      rw [getLength] at hlength
      omega

theorem checkUsage_of {condition : Prop} [Decidable condition] (h : condition) :
    checkUsage debug condition = .ok () :=
  if_neg fun hfails ↦ hfails.2 h

theorem peek_eq (ptr : PointerEq) (debug : Bool) (h : q.Valid) {length : ℤ}
    (hadmits : AdmitsPart q 0 length flags)
    (hserves : ServesPart q 0 length) :
    ∃ reply, q.peek ptr debug length flags = .ok reply ∧ ValidReply reply ∧
      replyContent reply = q.stored.take (q.partLength 0 length) ∧
      Selects q.stored length reply := by
  obtain ⟨reply, hpeek, hvalid, hcontent, hselects⟩ :=
    peekPart_spec ptr h hadmits hserves rfl h.consistent
  obtain ⟨-, hle, hend, -⟩ := hadmits
  rw [Int.natCast_zero, Int.zero_add] at hend
  refine ⟨reply, ?_, hvalid, hcontent, hselects⟩
  rw [peek, bind_of_ok (checkUsage_of ⟨hle, hend⟩)]
  exact hpeek

theorem peekAt_eq (ptr : PointerEq) (debug : Bool) (h : q.Valid) {offset : ℕ} {length : ℤ}
    (hadmits : AdmitsPart q offset length flags) (hserves : ServesPart q offset length) :
    ∃ reply, q.peekAt ptr debug offset length flags = .ok reply ∧
      Selects (q.stored.drop offset) length reply := by
  obtain ⟨reply, hpeek, -, -, hselects⟩ :=
    peekPart_spec ptr h hadmits hserves rfl (consistent_none _ _)
  obtain ⟨hoffset, hle, hend, -⟩ := hadmits
  refine ⟨reply, ?_, hselects⟩
  rw [peekAt, bind_of_ok (checkUsage_of hoffset), bind_of_ok (checkUsage_of ⟨hle, hend⟩)]
  exact hpeek

/-- In `pop` the length is checked once more by `peek`, with `Chunk::unspecifiedLength` for -1. -/
theorem peek_unspecifiedLength (hrelease : debug = false) :
    q.peek ptr debug unspecifiedLength flags = q.peek ptr debug (-1) flags := by
  subst hrelease
  rfl

theorem pop_eq (ptr : PointerEq) (h : q.Valid) {length : ℤ} (hadmits : AdmitsPart q 0 length flags)
    (hserves : ServesPart q 0 length) (hdebug : length = -1 → debug = false) :
    ∃ r reply, q.pop ptr debug length flags = .ok (r, reply) ∧ r.Valid ∧
      Selects q.stored length reply ∧ q.peek ptr debug length flags = .ok reply ∧
      q.stored = replyContent reply ++ r.stored ∧ r.pushedLength = q.pushedLength ∧
      r.poppedLength = q.poppedLength + (replyContent reply).length := by
  obtain ⟨reply, hpeek, hvalid, hcontent, hselects⟩ :=
    peek_eq ptr debug h hadmits hserves
  have hpeek' : q.peek ptr debug (if length = -1 then unspecifiedLength else length) flags =
      .ok reply := by
    split
    · rename_i hunspecified
      subst hunspecified
      rwa [peek_unspecifiedLength (hdebug rfl)]
    · exact hpeek
  have hcount : q.iterator.position + q.partLength 0 length ≤ q.content.getChunkLength :=
    partLength_le hadmits
  obtain ⟨-, hle, hend, -⟩ := hadmits
  rw [Int.natCast_zero, Int.zero_add] at hend
  rw [pop, bind_of_ok (checkUsage_of ⟨hle, hend⟩), bind_of_ok hpeek']
  cases reply with
  | none => exact ⟨q, none, rfl, h, hselects, hpeek, rfl, rfl, rfl⟩
  | some chunk =>
    have hsplit : AllowsSplit q.content.elements (q.iterator.position + q.partLength 0 length) :=
      h.split.add h.content hserves.1
    have hstored : q.stored.length = q.content.getChunkLength - q.iterator.position := by
      rw [stored, length_drop, length_content h.content]
    have hlength : (replyContent (some chunk)).length = q.partLength 0 length := by
      rw [hcontent, length_take]
      omega
    have hchunk : chunk.getChunkLength = q.partLength 0 length := by
      rw [← hlength, ← length_content (hvalid chunk rfl)]
      rfl
    obtain ⟨r, hmove, hr, hrest, hpushed, hpopped⟩ :=
      moveIteratorOrRemove_spec ptr h hcount hsplit
    rw [← hchunk] at hmove
    refine ⟨r, some chunk, ?_, hr, hselects, hpeek, ?_, hpushed, ?_⟩
    · simp only [bind_of_ok hmove]
      rfl
    · rw [hcontent, hrest, take_append_drop]
    · rw [hlength]
      exact hpopped

end ChunkQueue

/-! ## Runs -/

/-- What holds of the queue and its users in every state. -/
structure Sound (s : State) : Prop where
  valid : s.queue.Valid
  fifo : Fifo s

theorem sound_of {t : State} {queue : ChunkQueue} (hqueue : t.queue = queue)
    (hvalid : queue.Valid) (hstream : t.popped ++ queue.stored = t.pushed)
    (hpushed : queue.pushedLength = t.pushed.length)
    (hpopped : queue.poppedLength = t.popped.length) : Sound t := by
  subst hqueue
  have hlength := ChunkQueue.length_stored hvalid
  have htotal := congrArg length hstream
  rw [length_append] at htotal
  exact ⟨hvalid, hstream, by omega, hpushed, hpopped⟩

theorem sound_initial : Sound .initial := by
  refine ⟨⟨forall_mem_nil _, .inl ⟨rfl, rfl, ?_⟩⟩, rfl, rfl, rfl, rfl⟩
  intro i hi
  exact (Option.some.inj hi).symm

/-- A call that is admitted and served succeeds, returns what it should and keeps the stream. -/
theorem exists_step (ptr : PointerEq) {s : State} (h : Sound s) {call : Call}
    (hadmitted : Admitted s call)
    (hserved : Served debug s call) :
    ∃ t, (machine ptr debug).Step s call t ∧ Sound t ∧ Replies ptr debug s call t := by
  obtain ⟨hvalid, hfifo⟩ := h
  obtain ⟨hstream, hlength, hpushed, hpopped⟩ := hfifo
  cases call with
  | push chunk =>
    obtain ⟨hchunk, hne⟩ := id hadmitted
    obtain ⟨hnext, hstored, hpushed', hpopped'⟩ := ChunkQueue.pushChunk_spec ptr hvalid hchunk hne
    have hpos : 0 < chunk.getChunkLength := by
      obtain ⟨e, elements, helements⟩ := exists_cons_of_ne_nil hne
      rw [getChunkLength_eq, helements, totalLength_cons]
      exact Nat.add_pos_left
        (getChunkLength_pos (hchunk e (helements ▸ mem_cons_self))) _
    refine ⟨{ s with queue := s.queue.pushChunk ptr chunk, pushed := s.pushed ++ chunk.content },
      ⟨hadmitted, ?_⟩, ?_, hstored⟩
    · simp only [machine, ChunkQueue.push]
      rw [bind_of_ok (ChunkQueue.checkUsage_of hpos)]
      rfl
    · refine sound_of rfl hnext ?_ ?_ ?_
      · rw [hstored, ← append_assoc, hstream]
      · rw [hpushed', hpushed, length_append, length_content hchunk]
      · rw [hpopped', hpopped]
  | peek length flags =>
    obtain ⟨reply, hpeek, -, -, hselects⟩ :=
      ChunkQueue.peek_eq ptr debug hvalid hadmitted hserved
    refine ⟨{ s with reply := reply }, ⟨hadmitted, ?_⟩,
      ⟨hvalid, hstream, hlength, hpushed, hpopped⟩, hselects, rfl⟩
    simp only [machine, bind_of_ok hpeek]
    rfl
  | peekAt offset length flags =>
    obtain ⟨reply, hpeek, hselects⟩ :=
      ChunkQueue.peekAt_eq ptr debug hvalid hadmitted hserved
    refine ⟨{ s with reply := reply }, ⟨hadmitted, ?_⟩,
      ⟨hvalid, hstream, hlength, hpushed, hpopped⟩, hselects, rfl⟩
    simp only [machine, bind_of_ok hpeek]
    rfl
  | pop length flags =>
    obtain ⟨r, reply, hpop, hr, hselects, hpeek, hrest, hpushed', hpopped'⟩ :=
      ChunkQueue.pop_eq ptr hvalid hadmitted hserved.1 hserved.2
    refine ⟨{ s with queue := r, popped := s.popped ++ replyContent reply, reply := reply },
      ⟨hadmitted, ?_⟩, ?_, hselects, hpeek, hrest⟩
    · simp only [machine, bind_of_ok hpop]
      rfl
    · refine sound_of rfl hr ?_ ?_ ?_
      · rw [append_assoc, ← hrest, hstream]
      · rw [hpushed', hpushed]
      · rw [hpopped', hpopped, length_append]
  | clear =>
    have hstored : s.queue.clear.stored = [] := drop_nil
    refine ⟨{ s with queue := s.queue.clear, popped := s.popped ++ s.queue.stored },
      ⟨hadmitted, rfl⟩, ?_, hstored⟩
    refine sound_of rfl ⟨forall_mem_nil _, .inl ⟨rfl, position_seekIterator _ _, ?_⟩⟩
      ?_ hpushed ?_
    · intro i hi
      simp only [ChunkQueue.clear, seekIterator] at hi
      split at hi
      · exact (Option.some.inj hi).symm
      · exact (Option.some.inj hi).symm
    · rw [hstored, append_nil, hstream]
    · have hstoredLength := ChunkQueue.length_stored hvalid
      simp only [ChunkQueue.clear, length_append]
      omega

theorem sound_of_run {calls : List Call} {s : State}
    (hrun : ((machine ptr debug).restrict (Served debug)).Run .initial calls s) : Sound s := by
  apply hrun.invariant ?_ sound_initial
  intro s call t hs hstep
  obtain ⟨hstep, hserved⟩ := Machine.step_restrict_iff.mp hstep
  obtain ⟨t', hstep', ht', -⟩ := exists_step ptr hs hstep.1 hserved
  rwa [hstep.unique hstep']

/-- A queue of chunks is a first in, first out stream of bits in every run in which no part splits
a byte of a count of bytes, no part without a length begins inside a slice, and with usage checks
nothing is popped without a length. -/
theorem fifo_of_served (ptr : PointerEq) (debug : Bool) {calls : List Call} {s : State}
    (hrun : ((machine ptr debug).restrict (Served debug)).Run .initial calls s) :
    Fifo s ∧ ∀ call, Admitted s call → Served debug s call →
      ∃ t, (machine ptr debug).Step s call t ∧ Replies ptr debug s call t := by
  have hsound := sound_of_run hrun
  refine ⟨hsound.fifo, fun call hadmitted hserved ↦ ?_⟩
  obtain ⟨t, hstep, -, hreplies⟩ := exists_step ptr hsound hadmitted hserved
  exact ⟨t, hstep, hreplies⟩

/-- Three bits and two bytes whose data is irrelevant, of which two bits and then the rest is popped
in parts, with a look ahead without a length in between. -/
theorem fifo_of_served_mixed :
    ∃ s, ((machine structuralEq true).restrict (Served true)).Run .initial
        [.push (.single (.bits [true, false, true])), .push (.single (.byteCount 2)),
          .pop 2 ⟨false, false⟩, .peek (-1) ⟨false, false⟩, .pop 9 ⟨false, false⟩,
          .push (.single (.byteCount 1)), .pop 16 ⟨false, false⟩] s ∧
      s.popped = some true :: some false :: some true :: replicate 24 none ∧ Fifo s := by
  refine Machine.exists_run_and (by decide +kernel) fun s hrun hpopped ↦ ?_
  exact (fifo_of_served structuralEq true hrun).1

/-- With usage checks a byte that was pushed cannot be popped without giving its length. -/
theorem not_fifo_pop_unspecified :
    ¬∀ (calls : List Call) (s : State), (machine structuralEq true).Run .initial calls s →
      Fifo s ∧ ∀ call, Admitted s call →
        ∃ t, (machine structuralEq true).Step s call t ∧ Replies structuralEq true s call t := by
  intro h
  obtain ⟨s, hrun, hqueue⟩ : ∃ s, (machine structuralEq true).Run .initial
      [.push (.single (.byteCount 1))] s ∧
      s.queue = ⟨8, 0, .single (.byteCount 1), ⟨0, some 0⟩⟩ :=
    Machine.exists_run_of_exec (by decide +kernel)
  have hadmitted : Admitted s (.pop (-1) ⟨false, false⟩) := by
    simp only [Admitted, hqueue]
    decide +kernel
  obtain ⟨t, hstep, -⟩ := (h _ s hrun).2 _ hadmitted
  obtain ⟨-, hhandle⟩ := hstep
  have hpop : s.queue.pop structuralEq true (-1) ⟨false, false⟩ = .error .runtimeError := by
    rw [hqueue]
    decide +kernel
  simp only [machine, hpop] at hhandle
  cases hhandle

end Inet4.Packet
