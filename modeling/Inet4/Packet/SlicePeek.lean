import Inet4.Packet.ChunkPeek

/-!
# Peeking into a slice

`SliceChunk::peekUnchecked` forwards a request to the sliced chunk.  It adds the offset of the slice
to the position, and limits a negative length by the length of the slice less the offset of the
slice, where the bits that are left are the length less the position.  What is returned for a
negative length depends on the representation of the sliced chunk (`offered`).
-/

namespace Inet4.Packet

open List Nat Option Length

/-- A slice of a chunk. -/
structure SliceChunk where
  chunk : Chunk
  offset : ℕ
  length : ℕ

/-- What peeking a slice returns: the slice itself, or what the sliced chunk returns. -/
inductive PeekedChunk
  | this (slice : SliceChunk)
  | other (chunk : Chunk)

namespace SliceChunk

/-- The bits that the slice represents. -/
def content (s : SliceChunk) : List Bit := (s.chunk.content.drop s.offset).take s.length

/-- A part of a valid chunk. -/
structure Valid (s : SliceChunk) : Prop where
  chunk : AllValid s.chunk.elements
  le : s.offset + s.length ≤ s.chunk.getChunkLength

/-- The length with which a request is forwarded. -/
def forwarded (s : SliceChunk) : Length → Length
  | .exactly n => .exactly n
  | length => ofInt (-length.negMin (s.length - s.offset))

/-- `SliceChunk::peekUnchecked` without a conversion. -/
def peekUnchecked (ptr : PointerEq) (s : SliceChunk) (position : ℕ) (length : Length)
    (flags : PeekFlags) : Except Fault (Option PeekedChunk) :=
  if PeeksEmpty position s.length length then Option.map .other <$> getEmptyChunk flags
  else if position = 0 ∧ length.Covers s.length then
    if s.offset = 0 ∧ s.length = s.chunk.getChunkLength then .ok (some (.other s.chunk))
    else .ok (some (.this s))
  else
    Option.map .other <$>
      s.chunk.peek ptr ⟨position + s.offset, none⟩ (s.forwarded length) flags

end SliceChunk

/-- The bits that are returned. -/
def PeekedChunk.content : PeekedChunk → List Bit
  | this slice => slice.content
  | other chunk => chunk.content

/-! ## The parts that a representation offers -/

/-- The length of the part of a header, a packet or of bytes that is returned for at most `limit`
bits at a position, if one is returned. -/
def Whole.offered (chunk : Whole) (position limit : ℕ) : Option ℕ :=
  let chunkLength := chunk.bits.length
  if chunk.isBytes ∧ position % 8 = 0 then
    if min limit (chunkLength - position) % 8 = 0 then some (min limit (chunkLength - position))
    else none
  else if position ≤ min limit chunkLength then some (min limit chunkLength - position)
  else some (min (position - min limit chunkLength) (chunkLength - position))

/-- The same for a chunk that is not a sequence. -/
def Element.offered : Element → (position limit : ℕ) → Option ℕ
  | bitCount length, position, limit => some (min limit (length - position))
  | bits data, position, limit => some (min limit (data.length - position))
  | byteCount length, position, limit =>
    if min limit (8 * length - position) % 8 = 0 then some (min limit (8 * length - position))
    else none
  | whole chunk, position, limit => chunk.offered position limit
  | slice chunk offset length, position, limit =>
    if position = 0 ∧ length ≤ limit then some length
    else
      match ofInt (-min (limit : ℤ) (length - offset)) with
      | .exactly n => if n ≤ length - position then some n else none
      | .atMost limit =>
        -- more than the slice holds may be returned
        (chunk.offered (position + offset) limit).filter (· ≤ length - position)
      | .unspecified => none

/-- The same for a sequence: the part of the element at the position. -/
def offeredIn : List Element → (position limit : ℕ) → Option ℕ
  | [], _, _ => none
  | e :: rest, position, limit =>
    if position < e.getChunkLength then e.offered position limit
    else offeredIn rest (position - e.getChunkLength) limit

/-- The first of the available bits are returned, or nothing at all if they are none. -/
def Offers (available : List Bit) (n : ℕ) (flags : PeekFlags)
    (answer : Except Fault (Option Chunk)) : Prop :=
  (n = 0 ∧ answer = getEmptyChunk flags) ∨
    ∃ part, answer = .ok (some part) ∧ part.content = available.take n

variable {chunk : Whole} {e : Element} {chunks : List Element} {position limit n : ℕ}
variable {flags : PeekFlags} {available : List Bit}

theorem offers_single {part : Element} (hcontent : part.content = available.take n) :
    Offers available n flags (.ok (some (.single part))) := by
  refine .inr ⟨.single part, rfl, ?_⟩
  simpa [Chunk.content, Chunk.elements] using hcontent

theorem covers_atMost_iff {chunkLength : ℕ} :
    (atMost limit).Covers chunkLength ↔ chunkLength ≤ limit := Iff.rfl

theorem not_peeksEmpty_atMost {chunkLength : ℕ} (hlt : position < chunkLength) :
    ¬PeeksEmpty position chunkLength (.atMost limit) := by
  rintro (hzero | ⟨hend, -⟩)
  · cases hzero
  · omega

/-- The slice that a request for at most `limit` bits makes of a header or a packet. -/
theorem convertToSlice_atMost : convertToSlice chunk position (.atMost limit) =
    .slice chunk position
      (if position ≤ min limit chunk.bits.length then min limit chunk.bits.length - position
      else min (position - min limit chunk.bits.length) (chunk.bits.length - position)) := by
  have hmin : (min (limit : ℤ) chunk.bits.length - position) =
      ((min limit chunk.bits.length : ℕ) : ℤ) - position := by
    omega
  simp only [convertToSlice, negMin, hmin]
  unfold sliceOf
  split_ifs with hneg hle hle
  · omega
  · congr 1
    omega
  · congr 1
    omega
  · omega

/-- Peeking a header, a packet or bytes for at most `limit` bits. -/
theorem Whole.peek_atMost (flags : PeekFlags)
    (hlt : position < chunk.bits.length) (hoffered : chunk.offered position limit = some n) :
    Offers ((chunk.bits.map some).drop position) n flags
      (chunk.peekUnchecked position (.atMost limit) flags) := by
  unfold peekUnchecked
  simp only [not_peeksEmpty_atMost hlt, if_false, covers_atMost_iff]
  unfold offered at hoffered
  dsimp only at hoffered
  split
  · -- the whole chunk
    rename_i hwhole
    obtain ⟨rfl, hle⟩ := hwhole
    have hn : n = chunk.bits.length := by
      split at hoffered
      · split at hoffered
        · have hn := some.inj hoffered
          omega
        · cases hoffered
      · rw [if_pos (zero_le _)] at hoffered
        have hn := some.inj hoffered
        omega
    subst hn
    exact offers_single (by simp [Element.content, ← map_take])
  split at hoffered
  · -- whole bytes
    rename_i hbytes
    obtain ⟨hisBytes, hposition⟩ := hbytes
    split at hoffered
    · rename_i haligned
      have hn := some.inj hoffered
      have hend : (position + (atMost limit).cap (chunk.bits.length - position)) % 8 = 0 := by
        simp only [cap]
        omega
      rw [if_pos ⟨hisBytes, hposition, trivial⟩, if_neg (by simp [hend])]
      refine offers_single ?_
      subst hn
      simp [Element.content, drop_take, map_take, cap]
    · cases hoffered
  · -- a slice
    rename_i hbytes
    rw [if_neg (fun hbytes' ↦ hbytes ⟨hbytes'.1, hbytes'.2.1⟩), convertToSlice_atMost]
    have hn : (if position ≤ min limit chunk.bits.length then
        min limit chunk.bits.length - position
        else min (position - min limit chunk.bits.length) (chunk.bits.length - position)) = n := by
      split at hoffered <;> rename_i hle
      · rw [if_pos hle]
        exact some.inj hoffered
      · rw [if_neg hle]
        exact some.inj hoffered
    rw [hn]
    exact offers_single rfl

theorem Whole.peek_atMost_none (flags : PeekFlags) (h : chunk.Valid)
    (hlt : position < chunk.bits.length) (hoffered : chunk.offered position limit = none) :
    chunk.peekUnchecked position (.atMost limit) flags = .error .runtimeError := by
  unfold offered at hoffered
  dsimp only at hoffered
  split at hoffered
  · rename_i hbytes
    obtain ⟨hisBytes, hposition⟩ := hbytes
    split at hoffered
    · cases hoffered
    · rename_i haligned
      have hwhole := h.aligned hisBytes
      unfold peekUnchecked
      simp only [not_peeksEmpty_atMost hlt, if_false, covers_atMost_iff]
      rw [if_neg (by omega), if_pos ⟨hisBytes, hposition, trivial⟩, if_pos]
      simp only [cap]
      omega
  · split at hoffered <;> cases hoffered

theorem Whole.peek_exactly (flags : PeekFlags) (h : chunk.Valid)
    (hle : position + n ≤ chunk.bits.length) :
    Offers ((chunk.bits.map some).drop position) n flags
      (chunk.peekUnchecked position (.exactly n) flags) := by
  cases n with
  | zero =>
    refine .inl ⟨rfl, ?_⟩
    unfold peekUnchecked
    exact if_pos (.inl rfl)
  | succ n =>
    obtain ⟨part, hpeek, -, hcontent⟩ := peek_part flags position h
      (show (exactly (n + 1)).Plain from trivial) rfl (succ_pos n) hle
    rw [hpeek]
    exact offers_single hcontent

/-! ## Elements and sequences -/

theorem ofInt_ne_unspecified {limit : ℤ} : ofInt limit ≠ .unspecified := by
  unfold ofInt
  split <;> exact nofun

/-- All of an element is offered for a limit that covers it. -/
theorem Element.offered_of_covers (h : e.Valid) (hle : e.getChunkLength ≤ limit) :
    e.offered 0 limit = some e.getChunkLength := by
  cases e with
  | bitCount total | bits data | byteCount total =>
    simp only [getChunkLength] at hle
    simp [offered, getChunkLength, hle]
  | whole chunk =>
    simp only [getChunkLength] at hle
    simp only [offered, Whole.offered, getChunkLength, Nat.sub_zero, Nat.min_eq_right hle,
      Nat.zero_mod, and_true, Nat.zero_le, if_true]
    split
    · rename_i hbytes
      rw [if_pos (Nat.mod_eq_zero_of_dvd (Whole.Valid.aligned h hbytes))]
    · rfl
  | slice chunk offset total => exact if_pos ⟨rfl, hle⟩

theorem Element.offers_simplify (h : e.Valid) :
    Offers (e.content.drop 0) e.getChunkLength flags (.ok (some (.single e.simplify))) := by
  refine offers_single ?_
  rw [content_simplify, drop_zero, ← length_content h, take_length]

theorem content_slice_drop (offset total : ℕ) :
    ((Element.slice chunk offset total).content).drop position =
      ((chunk.bits.map some).drop (position + offset)).take (total - position) := by
  rw [Element.content, drop_take, drop_drop, add_comm offset]

/-- What is offered of the sliced bytes is offered of the slice, as long as it lies within. -/
theorem Offers.take {answer : Except Fault (Option Chunk)} {room : ℕ}
    (h : Offers available n flags answer) (hle : n ≤ room) :
    Offers (available.take room) n flags answer := by
  rcases h with hempty | ⟨part, hanswer, hcontent⟩
  · exact .inl hempty
  · refine .inr ⟨part, hanswer, ?_⟩
    rw [hcontent, take_take, min_eq_left hle]

theorem Offers.append {answer : Except Fault (Option Chunk)}
    (h : Offers available n flags answer) (hle : n ≤ available.length) (rest : List Bit) :
    Offers (available ++ rest) n flags answer := by
  rcases h with hempty | ⟨part, hanswer, hcontent⟩
  · exact .inl hempty
  · refine .inr ⟨part, hanswer, ?_⟩
    rw [hcontent, take_append_of_le_length hle]

/-- What is offered does not go beyond the end of an element. -/
theorem Element.offered_le (h : e.Valid) (hoffered : e.offered position limit = some n) :
    n ≤ e.getChunkLength - position := by
  cases e with
  | bitCount total | bits data =>
    obtain rfl := some.inj hoffered
    exact min_le_right _ _
  | byteCount total =>
    simp only [offered] at hoffered
    split at hoffered
    · obtain rfl := some.inj hoffered
      exact min_le_right _ _
    · cases hoffered
  | whole chunk =>
    simp only [offered, Whole.offered] at hoffered
    simp only [getChunkLength]
    split at hoffered
    · split at hoffered
      · have hn := some.inj hoffered
        omega
      · cases hoffered
    · split at hoffered
      · have hn := some.inj hoffered
        omega
      · have hn := some.inj hoffered
        omega
  | slice chunk offset total =>
    simp only [offered] at hoffered
    simp only [getChunkLength]
    split at hoffered
    · have hn := some.inj hoffered
      omega
    · split at hoffered
      · split at hoffered
        · have hn := some.inj hoffered
          omega
        · cases hoffered
      · exact of_decide_eq_true (filter_eq_some_iff.mp hoffered).2
      · cases hoffered

/-- Peeking an element for at most `limit` bits. -/
theorem Element.peek_atMost (flags : PeekFlags) (h : e.Valid) (hlt : position < e.getChunkLength)
    (hoffered : e.offered position limit = some n) :
    Offers (e.content.drop position) n flags (e.peekUnchecked position (.atMost limit) flags) := by
  unfold peekUnchecked
  simp only [not_peeksEmpty_atMost hlt, if_false, covers_atMost_iff]
  split
  · rename_i hwhole
    obtain ⟨rfl, hle⟩ := hwhole
    rw [offered_of_covers h hle] at hoffered
    obtain rfl := some.inj hoffered
    exact offers_simplify h
  rename_i hinner
  cases e with
  | bitCount total =>
    obtain rfl := some.inj hoffered
    exact offers_single (by simp [content, cap, getChunkLength])
  | bits data =>
    obtain rfl := some.inj hoffered
    exact offers_single
      (by simp [content, cap, getChunkLength, drop_take, map_take])
  | byteCount total =>
    simp only [offered] at hoffered
    split at hoffered
    · rename_i haligned
      obtain rfl := some.inj hoffered
      have hexact : 8 * (min limit (8 * total - position) / 8) =
          min limit (8 * total - position) := by omega
      simp only [cap, getChunkLength, haligned, ne_eq, not_true_eq_false, if_false]
      exact offers_single (by simp [content, hexact])
    · cases hoffered
  | whole chunk => exact Whole.peek_atMost flags hlt hoffered
  | slice chunk offset total =>
    obtain ⟨hchunk, -, hend⟩ := h
    rw [content_slice_drop]
    simp only [getChunkLength] at hlt hinner
    simp only [offered, if_neg hinner] at hoffered
    simp only [negMin, getChunkLength]
    cases hforwarded : ofInt (-min (limit : ℤ) (total - offset)) with
    | exactly m =>
      simp only [hforwarded] at hoffered
      split at hoffered
      · rename_i hle
        obtain rfl := some.inj hoffered
        exact (Whole.peek_exactly flags hchunk (by omega)).take hle
      · cases hoffered
    | atMost limit' =>
      simp only [hforwarded] at hoffered
      obtain ⟨hoffered, hle⟩ := filter_eq_some_iff.mp hoffered
      exact (Whole.peek_atMost flags (by omega) hoffered).take (of_decide_eq_true hle)
    | unspecified => exact absurd hforwarded ofInt_ne_unspecified

/-- Peeking a sequence for at most `limit` bits returns a part of the element at the position. -/
theorem offers_peekInElement (flags : PeekFlags) {iterator : Iterator} {offset : ℕ}
    (h : AllValid chunks) (hle : offset ≤ iterator.position)
    (hoffered : offeredIn chunks (iterator.position - offset) limit = some n) :
    ∃ answer, peekInElement iterator (.atMost limit) flags offset chunks = some answer ∧
      Offers ((contentOf chunks).drop (iterator.position - offset)) n flags answer := by
  induction chunks generalizing offset with
  | nil => cases hoffered
  | cons e chunks ih =>
    have he := h.head
    have hlength := Element.length_content he
    have hpos := Element.getChunkLength_pos he
    rw [offeredIn] at hoffered
    rw [peekInElement, contentOf_cons, drop_append, hlength]
    by_cases hlt : iterator.position - offset < e.getChunkLength
    · rw [if_pos hlt] at hoffered
      have hn := Element.offered_le he hoffered
      by_cases hcovers : iterator.position = offset ∧ (atMost limit).Covers e.getChunkLength
      · rw [if_pos hcovers]
        rw [hcovers.1, Nat.sub_self, Element.offered_of_covers he hcovers.2] at hoffered
        obtain rfl := some.inj hoffered
        refine ⟨_, rfl, offers_single ?_⟩
        rw [hcovers.1, Nat.sub_self, drop_zero, ← hlength, take_left]
      · rw [if_neg hcovers, if_pos ⟨hle, by omega, trivial⟩]
        exact ⟨_, rfl, (Element.peek_atMost flags he hlt hoffered).append
          (by rw [length_drop, hlength]; exact hn) _⟩
    · rw [if_neg hlt, Nat.sub_sub] at hoffered
      rw [if_neg (by omega), if_neg (by omega)]
      obtain ⟨answer, hanswer, hoffers⟩ := ih h.tail (by omega) hoffered
      refine ⟨answer, hanswer, ?_⟩
      rw [drop_of_length_le (by omega), nil_append, Nat.sub_sub]
      exact hoffers

/-- Peeking a chunk for at most `limit` bits. -/
theorem Chunk.peek_atMost (ptr : PointerEq) (flags : PeekFlags) {chunk : Chunk}
    (h : AllValid chunk.elements) (hlt : position < chunk.getChunkLength)
    (hoffered : offeredIn chunk.elements position limit = some n) :
    Offers (chunk.content.drop position) n flags
      (chunk.peek ptr ⟨position, none⟩ (.atMost limit) flags) := by
  cases chunk with
  | empty => exact absurd hlt (not_lt_zero position)
  | single e =>
    simp only [getChunkLength] at hlt
    simp only [elements, offeredIn, if_pos hlt] at hoffered
    have hoffers := Element.peek_atMost flags (h e (mem_singleton_self e)) hlt hoffered
    simpa only [content, elements, flatMap_singleton, peek] using hoffers
  | sequence chunks =>
    simp only [getChunkLength] at hlt
    have hstart : 0 ≤ (Iterator.mk position none).position := zero_le position
    obtain ⟨answer, hanswer, hoffers⟩ := offers_peekInElement flags h hstart hoffered
    simp only [elements] at hanswer
    have hpeek : (sequence chunks).peek ptr ⟨position, none⟩ (.atMost limit) flags = answer := by
      simp only [peek, peekSequence, not_peeksEmpty_atMost hlt, if_false, reduceCtorEq, and_false,
        bind_none, peekSequence.peekRest, hanswer]
    rw [hpeek]
    exact hoffers

/-- Peeking a chunk for a number of bits. -/
theorem Chunk.peek_exactly (ptr : PointerEq) (flags : PeekFlags) {chunk : Chunk}
    (h : AllValid chunk.elements) (hpos : 0 < n) (hle : position + n ≤ chunk.getChunkLength)
    (hcut : AllowsCut chunk.elements position (position + n)) :
    Offers (chunk.content.drop position) n flags
      (chunk.peek ptr ⟨position, none⟩ (.exactly n) flags) := by
  cases chunk with
  | empty => simp only [getChunkLength] at hle; omega
  | single e =>
    simp only [getChunkLength] at hle
    obtain ⟨hpart, -⟩ := hcut
    rw [Nat.min_eq_right hle, Nat.add_sub_cancel_left] at hpart
    obtain ⟨part, hpeek, hispart⟩ := Element.peek_part flags position
      (h e (mem_singleton_self e)) (show (exactly n).Plain from trivial) rfl hpos hle
      hpart (by cases e <;> exact id)
    simp only [content, elements, flatMap_singleton, peek, hpeek]
    exact offers_single hispart.content
  | sequence chunks =>
    have hpeekable : Peekable chunks position (.exactly n) :=
      ⟨trivial, hpos, hle, hcut, by rintro ⟨⟩⟩
    obtain ⟨part, hpeek, -, hcontent⟩ := peekSequence_answers ptr flags h
      (consistent_none position chunks) hpeekable
    exact .inr ⟨part, hpeek, hcontent⟩

theorem Chunk.peek_exactly_zero (ptr : PointerEq) (chunk : Chunk) (iterator : Iterator) :
    chunk.peek ptr iterator (.exactly 0) flags = getEmptyChunk flags := by
  have hempty : ∀ chunkLength, PeeksEmpty iterator.position chunkLength (.exactly 0) :=
    fun _ ↦ .inl rfl
  cases chunk with
  | empty => rfl
  | single e => simp only [peek, Element.peekUnchecked, if_pos (hempty _)]
  | sequence chunks => simp only [peek, peekSequence, if_pos (hempty _)]

/-! ## Peeking into a slice -/

namespace SliceChunk

variable {s : SliceChunk} {ptr : PointerEq} {length : Length}

/-- A request that is forwarded stays within the slice. -/
def ForwardFits (s : SliceChunk) (position : ℕ) : Length → Prop
  | .exactly n => n = 0 ∨ position + n ≤ s.length ∧
    AllowsCut s.chunk.elements (position + s.offset) (position + s.offset + n)
  | .atMost limit => ∃ n ≤ s.length - position,
    offeredIn s.chunk.elements (position + s.offset) limit = some n
  | .unspecified => False

/-- A request is answered by the slice, or stays within it when it is forwarded. -/
def Fits (s : SliceChunk) (position : ℕ) (length : Length) : Prop :=
  PeeksEmpty position s.length length ∨ (position = 0 ∧ length.Covers s.length) ∨
    s.ForwardFits position (s.forwarded length)

/-- What a request for a part of a slice returns: the part, or nothing at all if it is empty. -/
def Returns (part : List Bit) (flags : PeekFlags) (answer : Except Fault (Option PeekedChunk)) :
    Prop :=
  (part = [] ∧ answer = Option.map .other <$> getEmptyChunk flags) ∨
    ∃ peeked, answer = .ok (some peeked) ∧ peeked.content = part

/-- The content that is returned is a prefix of the content of the slice from the position on, and
has the requested length. -/
def PeeksPrefix (ptr : PointerEq) (s : SliceChunk) (position : ℕ) (length : Length)
    (flags : PeekFlags) : Prop :=
  ∃ part, Returns part flags (s.peekUnchecked ptr position length flags) ∧
    part <+: s.content.drop position ∧ ∀ n, length = .exactly n → part.length = n

theorem length_content (h : s.Valid) : s.content.length = s.length := by
  rw [content, length_take, length_drop, Packet.length_content h.chunk]
  have hle := h.le
  omega

theorem content_drop : s.content.drop position =
    (s.chunk.content.drop (position + s.offset)).take (s.length - position) := by
  rw [content, drop_take, drop_drop, add_comm s.offset]

/-- What the sliced chunk returns is returned. -/
theorem returns_of_offers {answer : Except Fault (Option Chunk)}
    (h : Offers available n flags answer) :
    Returns (available.take n) flags (Option.map .other <$> answer) := by
  rcases h with ⟨rfl, rfl⟩ | ⟨part, rfl, hcontent⟩
  · exact .inl ⟨take_zero, rfl⟩
  · exact .inr ⟨.other part, rfl, hcontent⟩

/-- A forwarded request that fits is answered with a part that lies within the slice. -/
theorem offers_of_forwardFits (ptr : PointerEq) (flags : PeekFlags) (h : s.Valid)
    (hlt : ∀ limit, length = .atMost limit → position < s.length)
    (hfits : s.ForwardFits position length) :
    ∃ n ≤ s.length - position, Offers (s.chunk.content.drop (position + s.offset)) n flags
      (s.chunk.peek ptr ⟨position + s.offset, none⟩ length flags) ∧
        ∀ m, length = .exactly m → n = m := by
  have hend := h.le
  cases length with
  | exactly n =>
    rcases hfits with rfl | ⟨hle, hcut⟩
    · refine ⟨0, zero_le _, .inl ⟨rfl, Chunk.peek_exactly_zero ptr s.chunk _⟩, fun m hm ↦ ?_⟩
      exact exactly.inj hm
    · refine ⟨n, by omega, ?_, fun m hm ↦ exactly.inj hm⟩
      rcases Nat.eq_zero_or_pos n with rfl | hpos
      · exact .inl ⟨rfl, Chunk.peek_exactly_zero ptr s.chunk _⟩
      · exact Chunk.peek_exactly ptr flags h.chunk hpos (by omega) hcut
  | atMost limit =>
    obtain ⟨n, hle, hoffered⟩ := hfits
    have hposition := hlt limit rfl
    exact ⟨n, hle, Chunk.peek_atMost ptr flags h.chunk (by omega) hoffered, nofun⟩
  | unspecified => exact absurd hfits id

/-- A request that fits is answered with the right part. -/
theorem peeksPrefix_of_fits (ptr : PointerEq) (flags : PeekFlags) (h : s.Valid)
    (hle : position ≤ s.length) (hfits : s.Fits position length) :
    s.PeeksPrefix ptr position length flags := by
  unfold PeeksPrefix peekUnchecked
  by_cases hempty : PeeksEmpty position s.length length
  · rw [if_pos hempty]
    refine ⟨[], .inl ⟨rfl, rfl⟩, nil_prefix, fun n hn ↦ ?_⟩
    rcases hempty with hzero | ⟨-, hnegative⟩
    · exact exactly.inj (hzero.symm.trans hn) ▸ rfl
    · rw [hn] at hnegative
      exact absurd hnegative id
  rw [if_neg hempty]
  by_cases hwhole : position = 0 ∧ length.Covers s.length
  · rw [if_pos hwhole]
    obtain ⟨rfl, hcovers⟩ := hwhole
    refine ⟨s.content, .inr ?_, prefix_rfl, fun n hn ↦ ?_⟩
    · split
      · rename_i hall
        refine ⟨_, rfl, ?_⟩
        rw [content, hall.1, hall.2, drop_zero, ← Packet.length_content h.chunk,
          take_length]
        rfl
      · exact ⟨_, rfl, rfl⟩
    · rw [hn] at hcovers
      rw [length_content h]
      exact Eq.symm hcovers
  rw [if_neg hwhole]
  have hlt : ∀ limit, s.forwarded length = .atMost limit → position < s.length := by
    intro limit hforwarded
    refine lt_of_le_of_ne hle fun heq ↦ hempty (.inr ⟨heq, ?_⟩)
    cases length with
    | exactly n => cases hforwarded
    | _ => trivial
  obtain ⟨n, hroom, hoffers, hexactly⟩ := offers_of_forwardFits ptr flags h hlt
    ((hfits.resolve_left hempty).resolve_left hwhole)
  have hpart : (s.chunk.content.drop (position + s.offset)).take n =
      (s.content.drop position).take n := by
    rw [content_drop, take_take, min_eq_left hroom]
  refine ⟨_, returns_of_offers hoffers, ?_, ?_⟩
  · rw [hpart]
    exact take_prefix n _
  · rintro m rfl
    rw [hpart, length_take, length_drop, length_content h, min_eq_left hroom]
    exact hexactly m rfl

/-! ## Slices of chunks that are neither slices nor sequences -/

/-- An empty part that is returned has no bits. -/
theorem content_of_getEmptyChunk {part : Chunk} (h : getEmptyChunk flags = .ok (some part)) :
    part.content = [] := by
  unfold getEmptyChunk at h
  split at h
  · cases h
  · split at h
    · obtain rfl := some.inj (Except.ok.inj h)
      rfl
    · cases h

theorem not_returns_error {part : List Bit} {fault : Fault}
    (hflags : flags.allowNullptr ∨ flags.allowEmpty) : ¬Returns part flags (.error fault) := by
  rintro (⟨-, hempty⟩ | ⟨peeked, hpeeked, -⟩)
  · unfold getEmptyChunk at hempty
    rcases hflags with hnull | hallow
    · rw [if_pos hnull] at hempty
      cases hempty
    · split at hempty
      · cases hempty
      · cases hempty
  · cases hpeeked

/-- What is returned has the length of what the sliced chunk offers. -/
theorem length_of_returns {part : List Bit} {answer : Except Fault (Option Chunk)}
    (hoffers : Offers available n flags answer) (hle : n ≤ available.length)
    (hreturns : Returns part flags (Option.map .other <$> answer)) : part.length = n := by
  have hlength : (available.take n).length = n := by
    rw [length_take, min_eq_left hle]
  rcases hoffers with ⟨rfl, rfl⟩ | ⟨peeked, rfl, hcontent⟩
  · rcases hreturns with ⟨rfl, -⟩ | ⟨peeked, hpeeked, rfl⟩
    · rfl
    · cases hempty : getEmptyChunk flags with
      | error fault =>
        rw [hempty] at hpeeked
        cases hpeeked
      | ok result =>
        rw [hempty] at hpeeked
        cases result with
        | none => cases hpeeked
        | some part =>
          obtain rfl := some.inj (Except.ok.inj hpeeked)
          exact congrArg _ (content_of_getEmptyChunk hempty)
  · rcases hreturns with ⟨rfl, hanswer⟩ | ⟨peeked', hpeeked, rfl⟩
    · cases hempty : getEmptyChunk flags with
      | error fault =>
        rw [hempty] at hanswer
        cases hanswer
      | ok result =>
        rw [hempty] at hanswer
        cases result with
        | none => cases hanswer
        | some part =>
          obtain rfl := PeekedChunk.other.inj (some.inj (Except.ok.inj hanswer))
          rw [← hlength, ← hcontent, content_of_getEmptyChunk hempty]
    · obtain rfl := some.inj (Except.ok.inj hpeeked)
      rw [PeekedChunk.content, hcontent, hlength]

end SliceChunk

/-- A chunk that is neither a slice nor a sequence. -/
def Element.IsPlain : Element → Prop
  | .slice .. => False
  | _ => True

theorem peek_of_offered_eq_none (flags : PeekFlags) (h : e.Valid) (hplain : e.IsPlain)
    (hlt : position < e.getChunkLength) (hoffered : e.offered position limit = none) :
    e.peekUnchecked position (.atMost limit) flags = .error .runtimeError := by
  have hwhole : ¬(position = 0 ∧ e.getChunkLength ≤ limit) := by
    rintro ⟨rfl, hle⟩
    rw [Element.offered_of_covers h hle] at hoffered
    cases hoffered
  unfold Element.peekUnchecked
  simp only [not_peeksEmpty_atMost hlt, if_false, covers_atMost_iff, if_neg hwhole]
  cases e with
  | bitCount total | bits data => cases hoffered
  | byteCount total =>
    simp only [Element.offered] at hoffered
    split at hoffered
    · cases hoffered
    · rename_i haligned
      exact if_pos haligned
  | whole chunk => exact Whole.peek_atMost_none flags h hlt hoffered
  | slice chunk offset total => exact absurd hplain id

namespace SliceChunk

variable {s : SliceChunk} {ptr : PointerEq} {length : Length}

/-- A request that is answered with the right part fits, if the sliced chunk is neither a slice nor
a sequence. -/
theorem fits_of_peeksPrefix (hflags : flags.allowNullptr ∨ flags.allowEmpty) (h : s.Valid)
    (hle : position ≤ s.length) (hchunk : s.chunk = .single e) (hplain : e.IsPlain)
    (hrange : length.IsNegative → ∀ n, s.forwarded length = .exactly n →
      position + s.offset + n ≤ s.chunk.getChunkLength)
    (hpeeks : s.PeeksPrefix ptr position length flags) : s.Fits position length := by
  obtain ⟨part, hreturns, hprefix, hexact⟩ := hpeeks
  have hroom : part.length ≤ s.length - position := by
    have hle := hprefix.length_le
    rwa [length_drop, length_content h] at hle
  have hend := h.le
  have hvalid : e.Valid := h.chunk e (by simp [hchunk, Chunk.elements])
  have hlength : (s.chunk.content.drop (position + s.offset)).length =
      s.chunk.getChunkLength - (position + s.offset) := by
    rw [length_drop, Packet.length_content h.chunk]
  by_cases hempty : PeeksEmpty position s.length length
  · exact .inl hempty
  by_cases hwhole : position = 0 ∧ length.Covers s.length
  · exact .inr (.inl hwhole)
  refine .inr (.inr ?_)
  unfold peekUnchecked at hreturns
  rw [if_neg hempty, if_neg hwhole] at hreturns
  cases hforwarded : s.forwarded length with
  | exactly n =>
    rw [hforwarded] at hreturns
    refine or_iff_not_imp_left.mpr fun hzero ↦ ?_
    have hin : position + s.offset + n ≤ s.chunk.getChunkLength := by
      cases length with
      | exactly m =>
        obtain rfl := exactly.inj hforwarded
        have hm := hexact m rfl
        omega
      | atMost limit => exact hrange trivial n hforwarded
      | unspecified => exact hrange trivial n hforwarded
    have hpart : e.AllowsPart n := by
      by_contra hpart
      simp only [hchunk, Chunk.peek,
        Element.peek_of_not_allowsPart flags (pos_of_ne_zero hzero) hpart] at hreturns
      exact not_returns_error hflags hreturns
    have hcut : AllowsCut s.chunk.elements (position + s.offset) (position + s.offset + n) := by
      have hin' := hin
      simp only [hchunk, Chunk.getChunkLength] at hin'
      simp only [hchunk, Chunk.elements, AllowsCut, and_true]
      rw [Nat.min_eq_right hin', Nat.add_sub_cancel_left]
      exact hpart
    have hoffers := Chunk.peek_exactly ptr flags h.chunk (pos_of_ne_zero hzero) hin hcut
    have hn := length_of_returns hoffers (by omega) hreturns
    exact ⟨by omega, hcut⟩
  | atMost limit =>
    rw [hforwarded] at hreturns
    have hlt : position < s.length := by
      refine lt_of_le_of_ne hle fun heq ↦ hempty (.inr ⟨heq, ?_⟩)
      cases length with
      | exactly n => cases hforwarded
      | _ => trivial
    have hlt' : position + s.offset < s.chunk.getChunkLength := by omega
    have helement : position + s.offset < e.getChunkLength := by
      simpa only [hchunk, Chunk.getChunkLength] using hlt'
    have helements : offeredIn s.chunk.elements (position + s.offset) limit =
        e.offered (position + s.offset) limit := by
      simp only [hchunk, Chunk.elements, offeredIn, if_pos helement]
    cases hoffered : e.offered (position + s.offset) limit with
    | none =>
      simp only [hchunk, Chunk.peek,
        peek_of_offered_eq_none flags hvalid hplain helement hoffered] at hreturns
      exact absurd hreturns (not_returns_error hflags)
    | some n =>
      have hn := Element.offered_le hvalid hoffered
      rw [← helements] at hoffered
      have hoffers := Chunk.peek_atMost ptr flags h.chunk hlt' hoffered
      have hlen : s.chunk.getChunkLength = e.getChunkLength := by
        rw [hchunk, Chunk.getChunkLength]
      have hn' := length_of_returns hoffers (by omega) hreturns
      exact ⟨n, by omega, hoffered⟩
  | unspecified =>
    cases length with
    | exactly n => cases hforwarded
    | atMost limit => exact absurd hforwarded ofInt_ne_unspecified
    | unspecified => exact absurd hforwarded ofInt_ne_unspecified

/-- A request that fits is answered with a prefix of the content of the slice from the position on;
where the sliced chunk is neither a slice nor a sequence, and a request that is forwarded with a
number of bits lies within it, only such a request is. -/
theorem peeksPrefix_iff_fits (ptr : PointerEq) (flags : PeekFlags) :
    (∀ (s : SliceChunk) (position : ℕ) (length : Length), s.Valid → position ≤ s.length →
      s.Fits position length → s.PeeksPrefix ptr position length flags) ∧
    ∀ (s : SliceChunk) (e : Element) (position : ℕ) (length : Length), s.Valid →
      s.chunk = .single e → e.IsPlain → position ≤ s.length →
      (flags.allowNullptr ∨ flags.allowEmpty) →
      (length.IsNegative → ∀ n, s.forwarded length = .exactly n →
        position + s.offset + n ≤ s.chunk.getChunkLength) →
      (s.PeeksPrefix ptr position length flags ↔ s.Fits position length) := by
  constructor
  · intro s position length h hle hfits
    exact peeksPrefix_of_fits ptr flags h hle hfits
  · intro s e position length h hchunk hplain hle hflags hrange
    constructor
    · exact fits_of_peeksPrefix hflags h hle hchunk hplain hrange
    · exact peeksPrefix_of_fits ptr flags h hle

/-! ## Short requests -/

/-- The slice of the first eight of sixteen bits. -/
def firstEight : SliceChunk where
  chunk := .single (.bits (replicate 8 true ++ replicate 8 false))
  offset := 0
  length := 8

theorem valid_firstEight : firstEight.Valid := ⟨by decide, by decide⟩

theorem peeksPrefix_iff_fits_firstEight :
    firstEight.PeeksPrefix structuralEq 4 (.atMost 4) ⟨true, false⟩ ∧
      (firstEight.PeeksPrefix structuralEq 4 (.atMost 4) ⟨true, false⟩ ↔
        firstEight.Fits 4 (.atMost 4)) := by
  have hfits : firstEight.Fits 4 (.atMost 4) := .inr (.inr ⟨4, by decide, rfl⟩)
  have hrange : (atMost 4).IsNegative → ∀ n, firstEight.forwarded (.atMost 4) = .exactly n →
      4 + firstEight.offset + n ≤ firstEight.chunk.getChunkLength := by
    intro _ n hforwarded
    cases hforwarded
  exact ⟨(peeksPrefix_iff_fits structuralEq ⟨true, false⟩).1 firstEight 4 (.atMost 4)
      valid_firstEight (by decide) hfits,
    (peeksPrefix_iff_fits structuralEq ⟨true, false⟩).2 firstEight _ 4 (.atMost 4)
      valid_firstEight rfl trivial (by decide) (.inl rfl) hrange⟩

/-- From the fifth of the first eight bits on, eight bits are returned, four of them beyond the end
of the slice. -/
theorem not_peeksPrefix_unspecified :
    ¬firstEight.PeeksPrefix structuralEq 4 .unspecified ⟨true, false⟩ := by
  rintro ⟨part, hreturns, hprefix, -⟩
  have hpeek : firstEight.peekUnchecked structuralEq 4 .unspecified ⟨true, false⟩ =
      .ok (some (.other (.single (.bits
        (replicate 4 true ++ replicate 4 false))))) := rfl
  rcases hreturns with ⟨-, hempty⟩ | ⟨peeked, hpeeked, rfl⟩
  · cases hempty
  · obtain rfl := some.inj (Except.ok.inj hpeeked)
    exact absurd hprefix (by decide)

end SliceChunk

end Inet4.Packet
