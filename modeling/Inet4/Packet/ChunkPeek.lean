import Inet4.Packet.ChunkContent

/-!
# Parts of a sequence of chunks

A part of a sequence is found through the index of the iterator, within one element, or by
collecting the elements that it overlaps; in each case the bits of the part are returned
(`peekSequence_answers`).  Removing from the front leaves the rest of the content.  An iterator
stays valid while chunks are inserted at the back, although the last element may grow.
-/

namespace Inet4.Packet

open List Element Nat Option

variable {position n : ℕ} {flags : PeekFlags} {ptr : PointerEq}
variable {chunks others : List Element} {e d : Element}

/-- No byte of a count of bytes is split by the part from `first` to `last`. -/
def AllowsCut : List Element → (first last : ℕ) → Prop
  | [], _, _ => True
  | e :: rest, first, last =>
    e.AllowsPart (min e.getChunkLength last - first) ∧
      AllowsCut rest (first - e.getChunkLength) (last - e.getChunkLength)

instance decidableAllowsCut : (chunks : List Element) → (first last : ℕ) →
    Decidable (AllowsCut chunks first last)
  | [], _, _ => isTrue trivial
  | _ :: rest, _, _ => @instDecidableAnd _ _ _ (decidableAllowsCut rest _ _)

/-- No byte of a count of bytes is split at a position. -/
def AllowsSplit : List Element → ℕ → Prop
  | [], _ => True
  | e :: rest, position =>
    if position < e.getChunkLength then e.AllowsPart (e.getChunkLength - position)
    else AllowsSplit rest (position - e.getChunkLength)

/-- The position is not inside a slice. -/
def OutsideSlices : List Element → ℕ → Prop
  | [], _ => True
  | e :: rest, position =>
    if position < e.getChunkLength then ¬e.InsideSlice position .unspecified
    else OutsideSlices rest (position - e.getChunkLength)

instance decidableOutsideSlices : (chunks : List Element) → (position : ℕ) →
    Decidable (OutsideSlices chunks position)
  | [], _ => isTrue trivial
  | e :: rest, position =>
    if h : position < e.getChunkLength then
      decidable_of_iff (¬e.InsideSlice position .unspecified) (by rw [OutsideSlices, if_pos h])
    else
      @decidable_of_iff _ (OutsideSlices rest (position - e.getChunkLength))
        (by rw [OutsideSlices, if_neg h]) (decidableOutsideSlices rest _)

theorem take_drop_contentOf_cons (he : e.Valid) (first last : ℕ) :
    ((contentOf (e :: chunks)).take last).drop first =
      (e.content.take last).drop first ++
        ((contentOf chunks).take (last - e.getChunkLength)).drop (first - e.getChunkLength) := by
  rw [contentOf_cons, take_append, drop_append, length_take,
    Element.length_content he]
  rcases le_total e.getChunkLength last with hle | hle
  · rw [min_eq_right hle]
  · rw [Nat.sub_eq_zero_of_le hle, take_zero, drop_nil, drop_nil]

/-- The bits that an optional part adds. -/
def optionContent (part : Option Element) : List Bit := part.elim [] content

theorem peekElement_eq (position : ℕ) (h : e.Valid) (hpos : 0 < n)
    (hle : position + n ≤ e.getChunkLength)
    (hpart : e.AllowsPart n) :
    ∃ part, peekElement e position n = .ok part ∧ e.IsPart position n part := by
  have hslice : ¬e.InsideSlice position (.exactly n) := by
    cases e <;> exact id
  obtain ⟨part, hpeek, hispart⟩ := peek_part ⟨false, false⟩ position h
    (show (Length.exactly n).Plain from trivial) rfl hpos hle hpart hslice
  refine ⟨part, ?_, hispart⟩
  rw [peekElement, bind_of_ok hpeek]

/-- What `doInsertSliceChunkAtBack` inserts of an element. -/
theorem slicedPart_eq {first last offset : ℕ} (h : e.Valid) (hlt : first < last)
    (hpart : e.AllowsPart (min e.getChunkLength (last - offset) - (first - offset))) :
    ∃ part, slicedPart first last offset e = .ok part ∧ (∀ p ∈ part, p.Valid) ∧
      optionContent part = (e.content.take (last - offset)).drop (first - offset) := by
  have hlength := Element.length_content h
  have hpeek : ∀ position k, position = first - offset →
      k = min e.getChunkLength (last - offset) - (first - offset) → 0 < k →
      ∃ part, (do return some (← peekElement e position k) : Except Fault (Option Element)) =
          .ok (some part) ∧ part.Valid ∧
        part.content = (e.content.take (last - offset)).drop (first - offset) := by
    rintro position k rfl rfl hk
    obtain ⟨part, hpart, hvalid, hcontent⟩ := peekElement_eq (first - offset) h hk (by omega) hpart
    refine ⟨part, ?_, hvalid, ?_⟩
    · rw [bind_of_ok hpart]
      rfl
    · rw [hcontent, drop_take]
      rcases le_total e.getChunkLength (last - offset) with hle | hle
      · rw [min_eq_left hle, take_of_length_le, take_of_length_le]
        · simp only [length_drop]
          omega
        · simp only [length_drop]
          omega
      · rw [min_eq_right hle]
  have hsome : ∀ {result : Except Fault (Option Element)}, (∃ part, result = .ok (some part) ∧
      part.Valid ∧ part.content = (e.content.take (last - offset)).drop (first - offset)) →
      ∃ part, result = .ok part ∧ (∀ p ∈ part, p.Valid) ∧
        optionContent part = (e.content.take (last - offset)).drop (first - offset) := by
    rintro result ⟨part, hresult, hvalid, hcontent⟩
    exact ⟨some part, hresult, by simpa using hvalid, hcontent⟩
  unfold slicedPart
  simp only
  split
  · rename_i hinside
    refine ⟨some e, rfl, by simpa using h, ?_⟩
    rw [Nat.sub_eq_zero_of_le hinside.1, drop_zero, take_of_length_le (by omega)]
    rfl
  · split
    · exact hsome (hpeek _ _ rfl (by omega) (by omega))
    · split
      · exact hsome (hpeek _ _ rfl (by omega) (by omega))
      · split
        · exact hsome (hpeek _ _ (by omega) (by omega) (by omega))
        · refine ⟨none, rfl, by simp, ?_⟩
          apply Eq.symm
          apply drop_eq_nil_of_le
          simp only [length_take]
          omega

theorem doInsertSliceChunkAtBack_eq (ptr : PointerEq) {first last : ℕ} (offset : ℕ)
    {inserted : List Element} (h : AllValid chunks) (hinserted : AllValid inserted)
    (hlt : first < last)
    (hcut : AllowsCut chunks (first - offset) (last - offset)) :
    ∃ result, doInsertSliceChunkAtBack ptr first last offset inserted chunks = .ok result ∧
      AllValid result ∧ contentOf result =
        contentOf inserted ++ ((contentOf chunks).take (last - offset)).drop (first - offset) := by
  induction chunks generalizing offset inserted with
  | nil => exact ⟨inserted, rfl, hinserted, by simp⟩
  | cons e chunks ih =>
    obtain ⟨hpart, hrest⟩ := hcut
    obtain ⟨part, hsliced, hvalid, hcontent⟩ := slicedPart_eq h.head hlt hpart
    rw [Nat.sub_sub, Nat.sub_sub] at hrest
    have hnext : AllValid (part.elim inserted (doInsertChunkAtBack ptr inserted)) := by
      cases part with
      | none => exact hinserted
      | some p => exact doInsertChunkAtBack_valid hinserted (hvalid p rfl)
    obtain ⟨result, hresult, hallValid, hall⟩ := ih _ h.tail hnext hrest
    refine ⟨result, ?_, hallValid, ?_⟩
    · rw [doInsertSliceChunkAtBack, bind_of_ok hsliced]
      exact hresult
    · rw [hall, take_drop_contentOf_cons h.head, Nat.sub_sub, Nat.sub_sub, ← hcontent]
      cases part with
      | none => rfl
      | some p => simp [contentOf_doInsertChunkAtBack, optionContent]

/-- What is left of the element at a position. -/
def restLength : List Element → ℕ → ℕ
  | [], _ => 0
  | e :: rest, position =>
    if position < e.getChunkLength then e.getChunkLength - position
    else restLength rest (position - e.getChunkLength)

/-- The number of bits that `peek` returns. -/
def Length.count (length : Length) (chunks : List Element) (position : ℕ) : ℕ :=
  match length with
  | .exactly n => n
  | .atMost _ => restLength chunks position
  | .unspecified => restLength chunks position

/-- A chunk is returned with the first of the available bits. -/
def Answers (available : List Bit) (n : ℕ) (answer : Except Fault (Option Chunk)) : Prop :=
  ∃ part, answer = .ok (some part) ∧ AllValid part.elements ∧ part.content = available.take n

/-- A part can be peeked: it lies within the chunk and splits no byte of a count of bytes, and if it
has no length, it does not begin inside a slice. -/
structure Peekable (chunks : List Element) (position : ℕ) (length : Length) : Prop where
  plain : length.Plain
  pos : 0 < length.count chunks position
  le : position + length.count chunks position ≤ totalLength chunks
  cut : AllowsCut chunks position (position + length.count chunks position)
  outside : length = .unspecified → OutsideSlices chunks position

variable {iterator : Iterator} {length : Length} {offset : ℕ}

theorem answers_single {available : List Bit} {part : Element} (hvalid : part.Valid)
    (hcontent : part.content = available.take n) :
    Answers available n (.ok (some (.single part))) := by
  refine ⟨.single part, rfl, allValid_singleton hvalid, ?_⟩
  simpa [Chunk.content, Chunk.elements] using hcontent

/-- A length that covers the first element selects it. -/
theorem count_of_covers (h : e.Valid) (hplain : length.Plain)
    (hcovers : length.Covers e.getChunkLength) :
    length.count (e :: chunks) 0 = e.getChunkLength := by
  cases length with
  | exactly n => exact hcovers
  | atMost n => exact absurd hplain id
  | unspecified =>
    rw [Length.count, restLength, if_pos (Element.getChunkLength_pos h), Nat.sub_zero]

theorem answers_of_covers (h : e.Valid) (hplain : length.Plain)
    (hcovers : length.Covers e.getChunkLength) (rest : List Bit) :
    Answers (e.content ++ rest) (length.count (e :: chunks) 0) (.ok (some (.single e))) := by
  rw [count_of_covers h hplain hcovers, ← Element.length_content h]
  exact answers_single h take_left.symm

theorem count_of_lt (hplain : length.Plain) (hlt : position < e.getChunkLength) :
    length.count (e :: chunks) position = length.cap (e.getChunkLength - position) := by
  cases length with
  | exactly n => rfl
  | atMost n => exact absurd hplain id
  | unspecified => rw [Length.count, restLength, if_pos hlt, Length.cap]

theorem count_of_ge (hge : e.getChunkLength ≤ position) :
    length.count (e :: chunks) position =
      length.count chunks (position - e.getChunkLength) := by
  cases length with
  | exactly n => rfl
  | _ => rw [Length.count, restLength, if_neg (Nat.not_lt.mpr hge), Length.count]

/-- What is left of a part that can be peeked, without the elements before it. -/
theorem Peekable.tail (h : Peekable (e :: chunks) position length)
    (hge : e.getChunkLength ≤ position) :
    Peekable chunks (position - e.getChunkLength) length := by
  obtain ⟨hplain, hpos, hle, ⟨-, hcut⟩, houtside⟩ := h
  rw [count_of_ge hge] at hpos hle hcut
  rw [totalLength_cons] at hle
  refine ⟨hplain, hpos, by omega, ?_, fun hunspecified ↦ ?_⟩
  · convert hcut using 1
    omega
  · have hrest := houtside hunspecified
    rwa [OutsideSlices, if_neg (not_lt.mpr hge)] at hrest

/-- Peeking a part that lies within the first element. -/
theorem answers_of_lt (flags : PeekFlags) (h : e.Valid)
    (hpeekable : Peekable (e :: chunks) position length)
    (hlt : position < e.getChunkLength)
    (hend : position + length.count (e :: chunks) position ≤ e.getChunkLength) (rest : List Bit) :
    Answers (e.content.drop position ++ rest) (length.count (e :: chunks) position)
      (e.peekUnchecked position length flags) := by
  obtain ⟨hplain, hpos, -, ⟨hcut, -⟩, houtside⟩ := hpeekable
  rw [Nat.min_eq_right hend, Nat.add_sub_cancel_left] at hcut
  have hslice : ¬e.InsideSlice position length := by
    cases length with
    | exactly n => cases e <;> exact id
    | atMost n => exact absurd hplain id
    | unspecified =>
      have hfirst := houtside rfl
      rwa [OutsideSlices, if_pos hlt] at hfirst
  obtain ⟨part, hpeek, hispart⟩ :=
    peek_part flags position h hplain (count_of_lt hplain hlt).symm hpos hend hcut hslice
  rw [hpeek]
  apply answers_single hispart.valid
  rw [hispart.content, take_append_of_le_length]
  rw [length_drop, Element.length_content h]
  omega

/-- Behind the position nothing is found any more. -/
theorem peekInElement_of_lt (hlt : iterator.position < offset) :
    peekInElement iterator length flags offset chunks = none := by
  induction chunks generalizing offset with
  | nil => rfl
  | cons e chunks ih =>
    rw [peekInElement, if_neg (by omega), if_neg (by omega)]
    exact ih (by omega)

/-- If an element is found that contains the part, the answer is right. -/
theorem answers_of_peekInElement (h : AllValid chunks) (hle : offset ≤ iterator.position)
    (hpeekable : Peekable chunks (iterator.position - offset) length)
    {answer : Except Fault (Option Chunk)}
    (hanswer : peekInElement iterator length flags offset chunks = some answer) :
    Answers ((contentOf chunks).drop (iterator.position - offset))
      (length.count chunks (iterator.position - offset)) answer := by
  induction chunks generalizing offset with
  | nil => cases hanswer
  | cons e chunks ih =>
    have hlength := Element.length_content h.head
    rw [peekInElement] at hanswer
    split at hanswer
    · rename_i hwhole
      obtain ⟨hposition, hcovers⟩ := hwhole
      obtain rfl := some.inj hanswer
      rw [hposition, Nat.sub_self, drop_zero, contentOf_cons]
      exact answers_of_covers h.head hpeekable.plain hcovers _
    · split at hanswer
      · rename_i hinside
        obtain ⟨-, hlt, hend⟩ := hinside
        obtain rfl := some.inj hanswer
        rw [contentOf_cons, drop_append_of_le_length (by omega)]
        apply answers_of_lt flags h.head hpeekable (by omega)
        cases length with
        | exactly n =>
          simp only [Length.count, Length.EndsBy] at hend ⊢
          omega
        | atMost n => exact absurd hpeekable.plain id
        | unspecified =>
          rw [Length.count, restLength, if_pos (by omega)]
          omega
      · rcases lt_or_ge iterator.position (offset + e.getChunkLength) with hlt | hge
        · rw [peekInElement_of_lt hlt] at hanswer
          cases hanswer
        · have hsub : iterator.position - offset - e.getChunkLength =
              iterator.position - (offset + e.getChunkLength) := by omega
          have hge' : e.getChunkLength ≤ iterator.position - offset := by omega
          have htail := hpeekable.tail hge'
          rw [contentOf_cons, drop_append, drop_eq_nil_of_le (by omega), nil_append,
            hlength, count_of_ge hge', hsub]
          rw [hsub] at htail
          exact ih h.tail hge htail hanswer

/-- A part without a length is always found. -/
theorem peekInElement_ne_none (hle : offset ≤ iterator.position)
    (hlt : iterator.position < offset + totalLength chunks) :
    peekInElement iterator .unspecified flags offset chunks ≠ none := by
  induction chunks generalizing offset with
  | nil => exact absurd hlt (not_lt.mpr hle)
  | cons e chunks ih =>
    rw [peekInElement]
    split
    · exact some_ne_none _
    · split
      · exact some_ne_none _
      · rename_i hinside
        rw [totalLength_cons] at hlt
        simp only [Length.EndsBy, and_true, not_and] at hinside
        exact ih (by omega) (by omega)

/-- The index of an iterator is that of the element at its position. -/
def Iterator.Consistent (iterator : Iterator) (chunks : List Element) : Prop :=
  ∀ i, iterator.index = some i →
    i ≤ chunks.length ∧ iterator.position = totalLength (chunks.take i)

theorem totalLength_append :
    totalLength (chunks ++ others) = totalLength chunks + totalLength others := by
  simp [totalLength]

/-- The element at the index of a consistent iterator begins at its position. -/
theorem drop_position_of_consistent (h : AllValid chunks) (hconsistent : iterator.Consistent chunks)
    (he : iterator.index.bind (chunks[·]?) = some e) :
    e.Valid ∧ ∃ front rest, chunks = front ++ e :: rest ∧
      iterator.position = totalLength front := by
  obtain ⟨i, hindex, hget⟩ := bind_eq_some_iff.mp he
  obtain ⟨-, hposition⟩ := hconsistent i hindex
  obtain ⟨hlt, rfl⟩ := List.getElem?_eq_some_iff.mp hget
  refine ⟨h _ (List.getElem_mem hlt), chunks.take i, chunks.drop (i + 1), ?_, hposition⟩
  rw [← List.drop_eq_getElem_cons hlt, List.take_append_drop]

theorem count_append (length : Length) (front chunks : List Element) :
    length.count (front ++ chunks) (totalLength front) = length.count chunks 0 := by
  induction front with
  | nil => rfl
  | cons e front ih =>
    rw [cons_append, totalLength_cons, count_of_ge (le_add_right _ _),
      Nat.add_sub_cancel_left, ih]

theorem peekRest_answers (ptr : PointerEq) (flags : PeekFlags) (h : AllValid chunks)
    (hpeekable : Peekable chunks iterator.position length) :
    Answers ((contentOf chunks).drop iterator.position) (length.count chunks iterator.position)
      (peekSequence.peekRest ptr chunks iterator length flags (totalLength chunks)) := by
  unfold peekSequence.peekRest
  split
  · rename_i answer hanswer
    exact answers_of_peekInElement h (zero_le _) hpeekable hanswer
  · rename_i hnone
    obtain ⟨hplain, hpos, hle, hcut, -⟩ := hpeekable
    cases length with
    | exactly n =>
      simp only [Length.cap, Length.count] at hpos hle hcut ⊢
      obtain ⟨parts, hparts, hvalid, hcontent⟩ := doInsertSliceChunkAtBack_eq ptr 0 h
        (forall_mem_nil _) (Nat.lt_add_of_pos_right hpos) hcut
      rw [bind_of_ok hparts]
      refine ⟨.sequence parts, rfl, hvalid, ?_⟩
      change contentOf parts = _
      rw [hcontent, contentOf_nil, nil_append, Nat.sub_zero, Nat.sub_zero, drop_take,
        Nat.add_sub_cancel_left]
    | atMost n => exact absurd hplain id
    | unspecified =>
      exact absurd hnone (peekInElement_ne_none (zero_le _) (by omega))

/-- `SequenceChunk::peekUnchecked` returns the part. -/
theorem peekSequence_answers (ptr : PointerEq) (flags : PeekFlags) (h : AllValid chunks)
    (hconsistent : iterator.Consistent chunks)
    (hpeekable : Peekable chunks iterator.position length) :
    Answers ((contentOf chunks).drop iterator.position) (length.count chunks iterator.position)
      (peekSequence ptr chunks iterator length flags) := by
  have hempty : ¬PeeksEmpty iterator.position (totalLength chunks) length := by
    obtain ⟨-, hpos, hle, -⟩ := hpeekable
    rintro (rfl | ⟨hend, -⟩)
    · exact lt_irrefl 0 hpos
    · omega
  unfold peekSequence
  simp only [hempty, if_false]
  split
  · rename_i hwhole
    obtain ⟨hposition, rfl⟩ := hwhole
    refine ⟨.sequence chunks, rfl, h, ?_⟩
    rw [hposition, drop_zero, Length.count, ← length_contentOf h, take_length]
    rfl
  · split
    · rename_i element helement
      split
      · rename_i hcovers
        obtain ⟨hvalid, front, rest, rfl, hposition⟩ :=
          drop_position_of_consistent h hconsistent helement
        have hfront : AllValid front := fun d hd ↦ h d (mem_append_left _ hd)
        rw [hposition, count_append, contentOf_append, ← length_contentOf hfront, drop_left]
        exact answers_of_covers hvalid hpeekable.plain hcovers _
      · exact peekRest_answers ptr flags h hpeekable
    · exact peekRest_answers ptr flags h hpeekable

theorem doRemoveAtFront_eq (h : AllValid chunks) (hlt : n < totalLength chunks)
    (hsplit : AllowsSplit chunks n) :
    ∃ rest, doRemoveAtFront n chunks = .ok rest ∧ AllValid rest ∧
      contentOf rest = (contentOf chunks).drop n := by
  induction chunks generalizing n with
  | nil => exact absurd hlt (not_lt_zero n)
  | cons e chunks ih =>
    have hlength := Element.length_content h.head
    rw [totalLength_cons] at hlt
    rw [doRemoveAtFront, contentOf_cons]
    split
    · rename_i hle
      rw [AllowsSplit, if_neg (by omega)] at hsplit
      rw [drop_append, drop_eq_nil_of_le (by omega), nil_append, hlength]
      split
      · rename_i hzero
        exact ⟨chunks, rfl, h.tail, by rw [hzero, drop_zero]⟩
      · exact ih h.tail (by omega) hsplit
    · rename_i hnle
      rw [AllowsSplit, if_pos (by omega)] at hsplit
      obtain ⟨part, hpeek, hpart⟩ := peekElement_eq n h.head (by omega) (by omega) hsplit
      rw [bind_of_ok hpeek]
      refine ⟨part :: chunks, rfl, ?_, ?_⟩
      · exact forall_mem_cons.mpr ⟨hpart.valid, h.tail⟩
      · rw [contentOf_cons, hpart.content, drop_append_of_le_length (by omega),
          take_of_length_le]
        simp only [length_drop, hlength]
        omega

theorem seekIndex_eq {p i j : ℕ} (h : seekIndex offset p i chunks = some j) :
    ∃ k, j = i + k ∧ k ≤ chunks.length ∧ offset = p + totalLength (chunks.take k) := by
  induction chunks generalizing p i with
  | nil => cases h
  | cons e chunks ih =>
    rw [seekIndex] at h
    split at h
    · rename_i hend
      obtain rfl := some.inj h
      exact ⟨1, rfl, by simp, by simpa using hend.symm⟩
    · split at h
      · cases h
      · obtain ⟨k, rfl, hk, hoffset⟩ := ih h
        refine ⟨k + 1, by omega, by simpa using hk, ?_⟩
        rw [take_succ_cons, totalLength_cons]
        omega

theorem consistent_zero {position : ℕ} (h : position = 0) (chunks : List Element) :
    Iterator.Consistent ⟨position, some 0⟩ chunks := by
  intro i hi
  obtain rfl := some.inj hi
  exact ⟨zero_le _, h⟩

theorem consistent_none (position : ℕ) (chunks : List Element) :
    Iterator.Consistent ⟨position, none⟩ chunks := nofun

variable (chunk : Chunk)

theorem seekIterator_consistent (offset : ℕ) :
    (chunk.seekIterator offset).Consistent chunk.elements := by
  unfold Chunk.seekIterator
  split
  · split
    · rename_i hzero
      exact consistent_zero hzero _
    · intro i hi
      obtain ⟨k, rfl, hk, hoffset⟩ := seekIndex_eq hi
      rw [zero_add] at hoffset ⊢
      exact ⟨hk, hoffset⟩
  · split
    · rename_i hzero
      exact consistent_zero hzero _
    · exact consistent_none _ _

@[simp]
theorem position_seekIterator (offset : ℕ) :
    (chunk.seekIterator offset).position = offset := by
  unfold Chunk.seekIterator
  split <;> rfl

theorem moveIterator_consistent (hconsistent : iterator.Consistent chunk.elements)
    (n : ℕ) : (chunk.moveIterator iterator n).Consistent chunk.elements := by
  unfold Chunk.moveIterator
  simp only
  split
  · split
    · exact consistent_none _ _
    · rename_i i hindex
      split
      · exact consistent_none _ _
      · rename_i element helement
        split
        · rename_i hlength
          obtain ⟨-, hposition⟩ := hconsistent i hindex
          obtain ⟨hlt, helem⟩ := List.getElem?_eq_some_iff.mp helement
          intro j hj
          obtain rfl := some.inj hj
          refine ⟨hlt, ?_⟩
          simp only [Chunk.elements] at hposition ⊢
          rw [List.take_succ_eq_append_getElem hlt, totalLength_append, hposition, helem]
          simp [hlength]
        · exact consistent_none _ _
  · split
    · rename_i hzero
      exact consistent_zero hzero _
    · exact consistent_none _ _

@[simp]
theorem position_moveIterator :
    (chunk.moveIterator iterator n).position = iterator.position + n := by
  unfold Chunk.moveIterator
  simp only
  split
  · split
    · rfl
    · split <;> rfl
  · rfl

theorem allowsPart_getChunkLength (e : Element) : e.AllowsPart e.getChunkLength := by
  cases e with
  | byteCount n => exact dvd_mul_right 8 n
  | _ => trivial

theorem Element.AllowsPart.sub {m : ℕ} (h : e.AllowsPart n) (h' : e.AllowsPart m) :
    e.AllowsPart (n - m) := by
  cases e with
  | byteCount k => exact dvd_sub h h'
  | _ => trivial

theorem allowsSplit_zero (h : AllValid chunks) : AllowsSplit chunks 0 := by
  cases chunks with
  | nil => trivial
  | cons e chunks =>
    rw [AllowsSplit, if_pos (getChunkLength_pos h.head)]
    exact allowsPart_getChunkLength e

/-- Behind a part that splits no byte, and begins where no byte is split, no byte is split. -/
theorem AllowsSplit.add (h : AllValid chunks) (hsplit : AllowsSplit chunks position)
    (hcut : AllowsCut chunks position (position + n)) : AllowsSplit chunks (position + n) := by
  induction chunks generalizing position n with
  | nil => trivial
  | cons e chunks ih =>
    obtain ⟨hpart, hrest⟩ := hcut
    rw [AllowsSplit] at hsplit ⊢
    split
    · rename_i hlt
      rw [if_pos (by omega)] at hsplit
      have hsub := hsplit.sub hpart
      convert hsub using 1
      omega
    · rename_i hge
      rcases lt_or_ge position e.getChunkLength with hlt | hge'
      · rw [Nat.sub_eq_zero_of_le (Nat.le_of_lt hlt)] at hrest
        have hnext := ih h.tail (allowsSplit_zero h.tail) (by rw [zero_add]; exact hrest)
        rwa [zero_add] at hnext
      · rw [if_neg (not_lt.mpr hge')] at hsplit
        have hadd : position + n - e.getChunkLength = position - e.getChunkLength + n := by omega
        rw [hadd] at hrest ⊢
        exact ih h.tail hsplit hrest

theorem allowsSplit_append (front chunks : List Element) (position : ℕ) :
    AllowsSplit (front ++ chunks) position ↔
      if position < totalLength front then AllowsSplit front position
      else AllowsSplit chunks (position - totalLength front) := by
  induction front generalizing position with
  | nil => simp
  | cons e front ih =>
    rw [cons_append, AllowsSplit, AllowsSplit, ih, totalLength_cons]
    by_cases hhead : position < e.getChunkLength
    · rw [if_pos hhead, if_pos hhead, if_pos (by omega)]
    · rw [if_neg hhead, if_neg hhead, Nat.sub_sub]
      by_cases hfront : position < e.getChunkLength + totalLength front
      · rw [if_pos hfront, if_pos (by omega)]
      · rw [if_neg hfront, if_neg (by omega)]

theorem Element.AllowsPart.insertAtBack (h : e.AllowsPart n) (hinsert : e.canInsertAtBack ptr d) :
    (e.insertAtBack d).AllowsPart (n + d.getChunkLength) := by
  cases e <;> cases d <;> simp only [canInsertAtBack, Bool.false_eq_true] at hinsert
  case byteCount.byteCount k m =>
    exact Nat.dvd_add h (Nat.dvd_mul_right 8 m)
  all_goals trivial

theorem Element.AllowsPart.simplify (h : e.AllowsPart n) : e.simplify.AllowsPart n := by
  cases e with
  | slice chunk offset length =>
    rw [simplify]
    split <;> trivial
  | _ => exact h

theorem Element.getChunkLength_insertAtBack (h : e.canInsertAtBack ptr d) :
    (e.insertAtBack d).getChunkLength = e.getChunkLength + d.getChunkLength := by
  cases e <;> cases d <;> simp only [canInsertAtBack, Bool.false_eq_true] at h
  case byteCount.byteCount k m =>
    exact mul_add 8 k m
  all_goals simp [insertAtBack, getChunkLength]

/-- The iterator of a queue: it lies before the end, its index is that of the element at its
position, and no byte is split there. -/
structure Iterator.Valid (iterator : Iterator) (chunks : List Element) : Prop where
  consistent : iterator.Consistent chunks
  split : AllowsSplit chunks iterator.position
  lt : iterator.position < totalLength chunks

/-- The iterator of a sequence stays valid when something is inserted at the back. -/
theorem Iterator.Valid.doInsertChunkAtBack (h : iterator.Valid chunks) (e : Element) :
    iterator.Valid (doInsertChunkAtBack ptr chunks e) := by
  obtain ⟨hconsistent, hsplit, hlt⟩ := h
  obtain ⟨front, last, rfl⟩ : ∃ front last, chunks = front ++ [last] := by
    rcases eq_nil_or_concat chunks with rfl | ⟨front, last, hconcat⟩
    · exact absurd hlt (not_lt_zero _)
    · exact ⟨front, last, by rw [hconcat, concat_eq_append]⟩
  -- the last element grows, or another one follows it
  obtain ⟨grown, rest, hresult, hlength, hpart⟩ : ∃ grown rest,
      Packet.doInsertChunkAtBack ptr (front ++ [last]) e = front ++ grown :: rest ∧
      last.getChunkLength ≤ grown.getChunkLength ∧
      ∀ n ≤ last.getChunkLength, last.AllowsPart n →
        grown.AllowsPart (n + (grown.getChunkLength - last.getChunkLength)) := by
    rw [Packet.doInsertChunkAtBack, getLast?_concat]
    simp only
    split
    · rename_i hinsert
      refine ⟨(last.insertAtBack e).simplify, [], by simp, ?_⟩
      rw [getChunkLength_simplify, getChunkLength_insertAtBack hinsert,
        Nat.add_sub_cancel_left]
      exact ⟨le_add_right _ _, fun n _ hn ↦ (hn.insertAtBack hinsert).simplify⟩
    · refine ⟨last, [e], by simp, le_refl _, fun n _ hn ↦ ?_⟩
      rwa [Nat.sub_self]
  rw [hresult]
  simp only [totalLength_append, totalLength_cons, totalLength_nil] at hlt
  refine ⟨fun i hi ↦ ?_, ?_, ?_⟩
  · obtain ⟨hle, hposition⟩ := hconsistent i hi
    rw [length_append, length_singleton] at hle
    have hi : i ≤ front.length := by
      by_contra hnle
      have hall : i = (front ++ [last]).length := by
        rw [length_append, length_singleton]
        omega
      rw [hall, take_length, totalLength_append, totalLength_cons, totalLength_nil] at hposition
      omega
    rw [take_append_of_le_length hi] at hposition ⊢
    exact ⟨by rw [length_append]; omega, hposition⟩
  · rw [allowsSplit_append] at hsplit ⊢
    split
    · rename_i hfront
      rwa [if_pos hfront] at hsplit
    · rename_i hfront
      rw [if_neg hfront, AllowsSplit, if_pos (by omega)] at hsplit
      rw [AllowsSplit, if_pos (by omega)]
      have hgrown := hpart _ (by omega) hsplit
      convert hgrown using 1
      omega
  · simp only [totalLength_append, totalLength_cons]
    omega

theorem Iterator.Valid.doInsertSequenceChunkAtBack (h : iterator.Valid chunks)
    (others : List Element) : iterator.Valid (doInsertSequenceChunkAtBack ptr chunks others) := by
  induction others generalizing chunks with
  | nil => exact h
  | cons e others ih => exact ih (h.doInsertChunkAtBack e)

end Inet4.Packet
