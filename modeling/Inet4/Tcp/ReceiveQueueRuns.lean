import Inet4.Tcp.ReceiveQueue
import Mathlib.Algebra.Order.BigOperators.Group.List

/-!
# The TCP receive queue reassembles the byte stream

A segment of a stream is the range of positions that it covers.  What the queue acknowledges is the
first position that no segment covers, and what it passes up is the stream up to there.  Positions
are natural numbers; they are the sequence numbers behind the initial one as long as each segment
lies within half of the ring of what the queue expects.
-/

namespace Inet4.Tcp.ReceiveQueue

open Machine List ChunkBuffer Nat

/-! ## Segments of a stream -/

/-- The positions from `start` on. -/
structure Segment where
  start : ℕ
  length : ℕ
deriving DecidableEq

def Segment.stop (s : Segment) : ℕ := s.start + s.length

def Covers (segments : List Segment) (k : ℕ) : Prop := ∃ s ∈ segments, s.start ≤ k ∧ k < s.stop

instance (segments : List Segment) : DecidablePred (Covers segments) := fun k ↦
  inferInstanceAs (Decidable (∃ s ∈ segments, s.start ≤ k ∧ k < s.stop))

variable {segments : List Segment} {s : Segment} {k n : ℕ}

theorem exists_not_covers (segments : List Segment) : ∃ k, ¬Covers segments k := by
  refine ⟨(segments.map Segment.stop).sum, ?_⟩
  rintro ⟨s, hs, -, hlt⟩
  have hle : s.stop ≤ (segments.map Segment.stop).sum :=
    le_sum_of_mem (mem_map_of_mem hs)
  omega

/-- The length of the longest prefix of the stream that the segments cover. -/
def prefixLength (segments : List Segment) : ℕ := Nat.find (exists_not_covers segments)

theorem covers_of_lt (h : k < prefixLength segments) : Covers segments k :=
  not_not.mp (Nat.find_min (exists_not_covers segments) h)

theorem not_covers_prefixLength (segments : List Segment) :
    ¬Covers segments (prefixLength segments) :=
  Nat.find_spec (exists_not_covers segments)

theorem prefixLength_eq (hcovers : ∀ k < n, Covers segments k) (hnot : ¬Covers segments n) :
    prefixLength segments = n := by
  apply le_antisymm
  · exact Nat.find_min' _ hnot
  · by_contra hlt
    exact not_covers_prefixLength segments (hcovers _ (not_le.mp hlt))

theorem covers_cons : Covers (s :: segments) k ↔
    (s.start ≤ k ∧ k < s.stop) ∨ Covers segments k := by
  simp only [Covers, mem_cons, exists_eq_or_imp]

theorem prefixLength_le_cons (s : Segment) (segments : List Segment) :
    prefixLength segments ≤ prefixLength (s :: segments) := by
  by_contra hlt
  apply not_covers_prefixLength (s :: segments)
  exact covers_cons.mpr (.inr (covers_of_lt (not_le.mp hlt)))

/-- The bytes of a segment of a stream. -/
def Segment.payload {α : Type} (stream : ℕ → α) (s : Segment) : List α :=
  (range' s.start s.length).map stream

/-- What has arrived, and how much of it has been passed up. -/
structure Received where
  segments : List Segment
  extracted : ℕ

namespace Received

def initial : Received := ⟨[], 0⟩

/-- What the queue holds at a position. -/
def stored {α : Type} (m : Received) (stream : ℕ → α) (i x : ℕ) : Option α :=
  if i + m.extracted ≤ x ∧ Covers m.segments (x - i) then some (stream (x - i)) else none

end Received

/-- A call of the queue. -/
inductive Call
  | insertBytesFromSegment (s : Segment)
  | extractBytesUpTo
deriving DecidableEq

def Call.apply (m : Received) : Call → Received
  | .insertBytesFromSegment s => { m with segments := s :: m.segments }
  | .extractBytesUpTo => { m with extracted := prefixLength m.segments }

/-- A segment has a byte that is not acknowledged yet, and ends within half of the ring above the
first sequence number of the queue. -/
def Call.InWindow (m : Received) : Call → Prop
  | .insertBytesFromSegment s =>
    0 < s.length ∧ prefixLength m.segments < s.stop ∧ s.stop < m.extracted + 2 ^ 31
  | .extractBytesUpTo => True

/-- It also starts within half of the ring below that number and, in debug builds, reaches with what
is buffered over at most half of the ring. -/
def Call.Admitted (debug : Bool) (m : Received) : Call → Prop
  | .insertBytesFromSegment s =>
    (Call.insertBytesFromSegment s).InWindow m ∧ m.extracted < s.start + 2 ^ 31 ∧
      (debug → ∀ old ∈ m.segments, m.extracted < old.stop →
        old.stop ≤ s.start + 2 ^ 31 ∧ s.stop ≤ s.start + 2 ^ 31)
  | .extractBytesUpTo => True

/-- Each call of a sequence is allowed when its turn comes. -/
def AllAllowed (allowed : Received → Call → Prop) : Received → List Call → Prop
  | _, [] => True
  | m, call :: calls => allowed m call ∧ AllAllowed allowed (call.apply m) calls

instance (m : Received) (call : Call) : Decidable (call.InWindow m) :=
  match call with
  | .insertBytesFromSegment _ => inferInstanceAs (Decidable (_ ∧ _))
  | .extractBytesUpTo => isTrue trivial

instance (debug : Bool) (m : Received) (call : Call) : Decidable (call.Admitted debug m) :=
  match call with
  | .insertBytesFromSegment _ => inferInstanceAs (Decidable (_ ∧ _))
  | .extractBytesUpTo => isTrue trivial

instance decidableAllAllowed (allowed : Received → Call → Prop)
    [∀ m call, Decidable (allowed m call)] : (m : Received) → (calls : List Call) →
    Decidable (AllAllowed allowed m calls)
  | _, [] => isTrue trivial
  | m, call :: calls =>
    have := decidableAllAllowed allowed (call.apply m) calls
    inferInstanceAs (Decidable (_ ∧ _))

/-- What has arrived when the calls are made. -/
def received (calls : List Call) : Received := calls.foldl Call.apply .initial

variable {α : Type} [Inhabited α]

/-- The queue, and the bytes that have been passed up to the application. -/
def machine (debug : Bool) (stream : ℕ → α) (startSeq : SeqNum) :
    Machine (ReceiveQueue α × List α) Call Fault where
  Enabled _ _ := True
  handle state call :=
    match call with
    | .insertBytesFromSegment s => do
      let result ← state.1.insertBytesFromSegment debug (advance startSeq s.start)
        (s.payload stream)
      return (result.2, state.2)
    | .extractBytesUpTo => do
      let result ← state.1.extractBytesUpTo state.1.rcv_nxt
      return (result.2, state.2 ++ result.1.getD [])

/-- The queue holds what was received and not extracted, and acknowledges the prefix. -/
structure Represents (stream : ℕ → α) (i : ℕ) (m : Received) (q : ReceiveQueue α) : Prop where
  expected : q.reorderBuffer.expectedOffset = i + m.extracted
  stores : Stores q.reorderBuffer.regions (m.stored stream i)
  rcv_nxt : q.rcv_nxt = offsetToSeq (i + prefixLength m.segments)
  extracted_le : m.extracted ≤ prefixLength m.segments
  bound : ∀ s ∈ m.segments, s.stop < m.extracted + 2 ^ 31

/-! ## Sequence numbers and offsets -/

theorem advance_eq_offsetToSeq (startSeq : SeqNum) (n : ℕ) :
    advance startSeq n = offsetToSeq (startSeq.toNat + n) := by
  have hstart : advance 0 startSeq.toNat = startSeq := by
    rw [advance, BitVec.ofNat_toNat, BitVec.setWidth_eq]
    exact BitVec.zero_add startSeq
  rw [offsetToSeq, ← advance_advance, hstart]

omit [Inhabited α] in
theorem seqToOffset_eq {buffer : ReorderBuffer α} {x : ℕ} (hle : buffer.expectedOffset ≤ x)
    (hlt : x < buffer.expectedOffset + 2 ^ 31) : seqToOffset buffer (offsetToSeq x) = x := by
  have hge : seqGE (offsetToSeq x) (offsetToSeq buffer.expectedOffset) :=
    (seqGE_advance_iff (by omega) (by omega)).mpr hle
  have hdistance : distance (offsetToSeq buffer.expectedOffset) (offsetToSeq x) =
      x - buffer.expectedOffset := distance_advance_advance hle (by omega)
  rw [seqToOffset, if_pos hge, hdistance]
  omega

omit [Inhabited α] in
theorem staleBytes_eq {buffer : ReorderBuffer α} {x : ℕ} (hle : buffer.expectedOffset < x + 2 ^ 31)
    (hlt : x < buffer.expectedOffset + 2 ^ 31) :
    staleBytes buffer (offsetToSeq x) = buffer.expectedOffset - x := by
  have hless : seqLess (offsetToSeq x) (offsetToSeq buffer.expectedOffset) ↔
      x < buffer.expectedOffset := seqLess_advance_iff (by omega) (by omega)
  rw [staleBytes]
  by_cases hstale : x < buffer.expectedOffset
  · rw [if_pos (hless.mpr hstale)]
    exact distance_advance_advance (le_of_lt hstale) (by omega)
  · rw [if_neg (mt hless.mp hstale)]
    omega

omit [Inhabited α] in
/-- The check passes what lies within half of the ring. -/
theorem checkRange_eq {regions : List (Region α)} (low : ℕ) {nb ne : ℕ}
    (hfirst : ∀ first, regions.head? = some first → low ≤ first.offset)
    (hlast : ∀ last, regions.getLast? = some last → last.getEndOffset ≤ low + 2 ^ 31)
    (hless : ∀ first last, regions.head? = some first → regions.getLast? = some last →
      first.offset < last.getEndOffset)
    (hnb : low ≤ nb) (hne : ne ≤ low + 2 ^ 31) (hlt : nb < ne) :
    checkRange true regions (offsetToSeq nb) (offsetToSeq ne) = .ok () := by
  rw [checkRange, if_pos rfl]
  split
  · rename_i first last hhead hgetLast
    have hob := hfirst first hhead
    have hoe := hlast last hgetLast
    have hlt' := hless first last hhead hgetLast
    apply assert_of
    unfold offsetToSeq
    rw [seqMin_advance (by omega) (by omega), seqMax_advance (by omega) (by omega),
      seqGE_advance_iff (by omega) (by omega), seqGE_advance_iff (by omega) (by omega),
      seqGE_advance_iff (by omega) (by omega), seqGE_advance_iff (by omega) (by omega)]
    omega
  · rfl

/-! ## The first region -/

section FirstRegion

variable {stream : ℕ → α} {i x : ℕ} {m : Received} {regions rest : List (Region α)}
variable {first : Region α}

omit [Inhabited α] in
theorem stored_ne_none_iff :
    m.stored stream i x ≠ none ↔ i + m.extracted ≤ x ∧ Covers m.segments (x - i) := by
  rw [Received.stored]
  split
  · rename_i hboth
    simpa using hboth
  · rename_i hnot
    simpa using hnot

omit [Inhabited α] in
/-- Either the first region is expected and ends where the prefix ends, or it lies behind what is
expected and nothing has arrived there. -/
theorem first_region_cases (h : Stores (first :: rest) (m.stored stream i))
    (hle : m.extracted ≤ prefixLength m.segments) :
    (first.offset = i + m.extracted ∧ first.getEndOffset = i + prefixLength m.segments) ∨
      (i + m.extracted < first.offset ∧ prefixLength m.segments = m.extracted) := by
  obtain ⟨hseparated, hread⟩ := h
  have hhead : i + m.extracted ≤ first.offset := by
    have hne := read_head rest (hseparated.nonempty first mem_cons_self)
    rw [hread, stored_ne_none_iff] at hne
    exact hne.1
  have hextracted : ∀ k < m.extracted, Covers m.segments k := fun k hk ↦
    covers_of_lt (lt_of_lt_of_le hk hle)
  rcases eq_or_lt_of_le hhead with heq | hlt
  · refine .inl ⟨heq.symm, ?_⟩
    have hend : first.offset ≤ first.getEndOffset := le_add_right _ _
    have hcovered : prefixLength m.segments = first.getEndOffset - i := by
      apply prefixLength_eq
      · intro k hk
        by_cases hbefore : k < m.extracted
        · exact hextracted k hbefore
        · have hne : readRegions (first :: rest) (i + k) ≠ none :=
            readRegions_ne_none_iff.mpr ⟨first, mem_cons_self, by
              rw [Region.getStartOffset]; omega, by omega⟩
          rw [hread, stored_ne_none_iff, Nat.add_sub_cancel_left] at hne
          exact hne.2
      · intro hcovers
        have hnone := read_endOffset hseparated
        rw [hread] at hnone
        exact stored_ne_none_iff.mpr ⟨by omega, hcovers⟩ hnone
    omega
  · refine .inr ⟨hlt, prefixLength_eq hextracted ?_⟩
    intro hcovers
    have hne : readRegions (first :: rest) (i + m.extracted) ≠ none := by
      rw [hread, stored_ne_none_iff, Nat.add_sub_cancel_left]
      exact ⟨le_refl _, hcovers⟩
    have hge := offset_le_of_read hseparated hne
    omega

omit [Inhabited α] in
/-- After a segment is stored the number to be acknowledged is that of the prefix. -/
theorem nextRcvNxt_eq {old : ℕ} (h : Stores (first :: rest) (m.stored stream i))
    (hextracted : m.extracted ≤ old) (hle : old ≤ prefixLength m.segments)
    (hold : old < m.extracted + 2 ^ 31) (hbound : ∀ s ∈ m.segments, s.stop < m.extracted + 2 ^ 31) :
    nextRcvNxt (offsetToSeq (i + old)) (first :: rest) =
      .ok (offsetToSeq (i + prefixLength m.segments)) := by
  have hhead := read_head rest (h.1.nonempty first mem_cons_self)
  rw [h.2, stored_ne_none_iff] at hhead
  obtain ⟨hfirst, s, hs, -, hlt⟩ := hhead
  have hs := hbound s hs
  have hge : seqGE (offsetToSeq (i + old)) (offsetToSeq first.offset) ↔ first.offset ≤ i + old :=
    seqGE_advance_iff (by omega) (by omega)
  rw [nextRcvNxt]
  rcases first_region_cases h (le_trans hextracted hle) with ⟨hoffset, hend⟩ | ⟨hoffset, hend⟩
  · rw [if_pos (hge.mpr (by omega)), hend]
  · have hsame : old = prefixLength m.segments := by omega
    rw [if_neg (mt hge.mp (by omega)), hsame]

end FirstRegion

/-! ## Calls -/

section Calls

variable {debug : Bool} {stream : ℕ → α} {i : ℕ} {m : Received} {q : ReceiveQueue α} {s : Segment}

omit [Inhabited α] in
/-- A position of a region was received and lies in the window. -/
theorem Represents.exists_segment (h : Represents stream i m q) {r : Region α}
    (hr : r ∈ q.reorderBuffer.regions) {x : ℕ} (hx : r.offset ≤ x) (hx' : x < r.getEndOffset) :
    i + m.extracted ≤ x ∧ ∃ old ∈ m.segments, x < i + old.stop ∧ m.extracted < old.stop := by
  have hne := readRegions_ne_none_iff.mpr ⟨r, hr, hx, hx'⟩
  rw [h.stores.2, stored_ne_none_iff] at hne
  obtain ⟨hle, old, hold, -, hlt⟩ := hne
  exact ⟨hle, old, hold, by omega, by omega⟩

omit [Inhabited α] in
theorem Represents.offset_lt_endOffset (h : Represents stream i m q) {r : Region α}
    (hr : r ∈ q.reorderBuffer.regions) : r.offset < r.getEndOffset := by
  have hpos := length_pos_of_ne_nil (h.stores.1.nonempty r hr)
  rw [Region.getEndOffset]
  omega

omit [Inhabited α] in
theorem Represents.checkRange_eq (h : Represents stream i m q)
    (hadmitted : (Call.insertBytesFromSegment s).Admitted debug m) :
    checkRange debug q.reorderBuffer.regions (offsetToSeq (i + s.start))
      (offsetToSeq (i + s.stop)) = .ok () := by
  obtain ⟨⟨hlength, hnew, hwindow⟩, hbelow, hspan⟩ := hadmitted
  have hstop : s.stop = s.start + s.length := rfl
  cases debug with
  | false => rfl
  | true =>
    have hspan := hspan rfl
    have hextracted := h.extracted_le
    rcases eq_nil_or_concat q.reorderBuffer.regions with hnil | ⟨init, last, hconcat⟩
    · rw [hnil]
      rfl
    have hmem : last ∈ q.reorderBuffer.regions := by
      rw [hconcat, concat_eq_append]
      exact mem_append_right init (mem_singleton_self last)
    have hlast := h.offset_lt_endOffset hmem
    obtain ⟨-, old, hold, hlt, hbuffered⟩ :=
      h.exists_segment hmem (x := last.getEndOffset - 1) (by omega) (by omega)
    have hspan' := hspan old hold hbuffered
    have hbound := h.bound old hold
    apply ReceiveQueue.checkRange_eq (i + min m.extracted s.start)
    · intro first hhead
      have hfirst := mem_of_mem_head? hhead
      have hle := h.exists_segment hfirst (le_refl _) (h.offset_lt_endOffset hfirst)
      omega
    · intro last' hgetLast
      rw [hconcat, concat_eq_append, getLast?_concat, Option.some_inj] at hgetLast
      rw [← hgetLast]
      omega
    · intro first last' hhead hgetLast
      rw [hconcat, concat_eq_append, getLast?_concat, Option.some_inj] at hgetLast
      rw [← hgetLast]
      have hfirst := h.stores.1.head_le_startOffset hhead hmem
      rw [Region.getStartOffset, Region.getStartOffset] at hfirst
      omega
    · omega
    · omega
    · omega

omit [Inhabited α] in
/-- What is left of the payload behind the stale bytes. -/
theorem drop_payload (s : Segment) (n : ℕ) :
    (s.payload stream).drop n = Segment.payload stream ⟨s.start + n, s.length - n⟩ := by
  rw [Segment.payload, ← map_drop, drop_range', mul_one]
  rfl

omit [Inhabited α] in
theorem getElem?_payload (s : Segment) {n : ℕ} (h : n < s.length) :
    (s.payload stream)[n]? = some (stream (s.start + n)) := by
  rw [Segment.payload, getElem?_map, getElem?_range' h, one_mul]
  rfl

omit [Inhabited α] in
@[simp]
theorem length_payload (s : Segment) : (s.payload stream).length = s.length := by
  rw [Segment.payload, length_map, length_range']

omit [Inhabited α] in
/-- Storing the bytes of a segment from the expected one on. -/
theorem stores_insert {regions : List (Region α)} {first : ℕ}
    (h : Stores regions (m.stored stream i)) (hfirst : first = max m.extracted s.start)
    (hnew : m.extracted < s.stop) (hlength : 0 < s.length) :
    ∃ regions', replace regions (i + first)
        (Segment.payload stream ⟨first, s.stop - first⟩) = .ok regions' ∧
      Stores regions'
        (Received.stored ⟨s :: m.segments, m.extracted⟩ stream i) ∧ regions' ≠ [] := by
  have hstop : s.stop = s.start + s.length := rfl
  have hdata : Segment.payload stream ⟨first, s.stop - first⟩ ≠ [] := by
    apply ne_nil_of_length_pos
    rw [length_payload]
    change 0 < s.stop - first
    omega
  obtain ⟨regions', hreplace, hseparated, hread⟩ :=
    replace_spec (i + first) h.1 hdata
  refine ⟨regions', hreplace, ⟨hseparated, ?_⟩, ?_⟩
  · intro x
    rw [hread, h.2, length_payload, Received.stored, Received.stored]
    by_cases hx : i + first ≤ x ∧ x < i + first + (s.stop - first)
    · have hposition : first + (x - (i + first)) = x - i := by omega
      have hlt : x - (i + first) < s.stop - first := by omega
      have hle : i + m.extracted ≤ x := by omega
      rw [if_pos hx, getElem?_payload _ hlt, hposition,
        if_pos ⟨hle, covers_cons.mpr (.inl (by omega))⟩]
    · have hsame : (i + m.extracted ≤ x ∧ Covers m.segments (x - i)) ↔
          (i + m.extracted ≤ x ∧ Covers (s :: m.segments) (x - i)) := by
        refine and_congr_right fun hle ↦ ?_
        rw [covers_cons]
        exact ⟨.inr, fun hcovers ↦ hcovers.resolve_left (by omega)⟩
      rw [if_neg hx]
      exact if_congr hsame rfl rfl
  · rintro rfl
    have hsome := hread (i + first)
    have hpos : 0 < s.stop - first := by omega
    have hlt : i + first < i + first + (s.stop - first) := by omega
    rw [length_payload, if_pos ⟨Nat.le_refl _, hlt⟩, Nat.sub_self,
      getElem?_payload _ hpos] at hsome
    cases hsome

omit [Inhabited α] in
theorem insertBytesFromSegment_spec {startSeq : SeqNum}
    (h : Represents stream startSeq.toNat m q)
    (hadmitted : (Call.insertBytesFromSegment s).Admitted debug m) :
    ∃ q', q.insertBytesFromSegment debug (advance startSeq s.start) (s.payload stream) =
        .ok (advance startSeq (prefixLength (s :: m.segments)), q') ∧
      Represents stream startSeq.toNat ((Call.insertBytesFromSegment s).apply m) q' := by
  obtain ⟨⟨hlength, hnew, hwindow⟩, hbelow, -⟩ := id hadmitted
  have hstop : s.stop = s.start + s.length := rfl
  have hextracted := h.extracted_le
  have hexpected := h.expected
  have hgrow := prefixLength_le_cons s m.segments
  set i := startSeq.toNat
  have hbound : ∀ old ∈ s :: m.segments, old.stop < m.extracted + 2 ^ 31 := by
    intro old hold
    rcases mem_cons.mp hold with rfl | hold
    · exact hwindow
    · exact h.bound old hold
  have hcheck : checkRange debug q.reorderBuffer.regions (offsetToSeq (i + s.start))
      (advance (offsetToSeq (i + s.start)) (s.payload stream).length) = .ok () := by
    rw [length_payload, offsetToSeq, advance_advance, add_assoc]
    exact h.checkRange_eq hadmitted
  have hstale : staleBytes q.reorderBuffer (offsetToSeq (i + s.start)) = m.extracted - s.start := by
    rw [staleBytes_eq (by omega) (by omega), hexpected]
    omega
  have hpeek : peekPayload (s.payload stream) (m.extracted - s.start) =
      .ok (Segment.payload stream
        ⟨max m.extracted s.start, s.stop - max m.extracted s.start⟩) := by
    have hfirst : s.start + (m.extracted - s.start) = max m.extracted s.start := by omega
    have hrest : s.length - (m.extracted - s.start) = s.stop - max m.extracted s.start := by omega
    rw [peekPayload, length_payload, if_pos (by omega), drop_payload, hfirst, hrest]
  have hoffset : (seqToOffset q.reorderBuffer
      (advance (offsetToSeq (i + s.start)) (m.extracted - s.start))).toNat =
        i + max m.extracted s.start := by
    have hsum : i + s.start + (m.extracted - s.start) = i + max m.extracted s.start := by omega
    rw [offsetToSeq, advance_advance, hsum]
    change (seqToOffset _ (offsetToSeq _)).toNat = _
    rw [seqToOffset_eq (by omega) (by omega), Int.toNat_natCast]
  obtain ⟨regions, hreplace, hstores, hne⟩ :=
    stores_insert h.stores (s := s) rfl (by omega) (by omega)
  obtain ⟨first, rest, rfl⟩ := exists_cons_of_ne_nil hne
  have hnext : nextRcvNxt q.rcv_nxt (first :: rest) =
      .ok (offsetToSeq (i + prefixLength (s :: m.segments))) := by
    have hold : prefixLength m.segments < m.extracted + 2 ^ 31 := by omega
    have hnext := nextRcvNxt_eq hstores hextracted hgrow hold hbound
    rw [h.rcv_nxt]
    exact hnext
  refine ⟨⟨offsetToSeq (i + prefixLength (s :: m.segments)),
    ⟨first :: rest, q.reorderBuffer.expectedOffset⟩⟩, ?_,
    ⟨hexpected, hstores, rfl, le_trans hextracted hgrow, hbound⟩⟩
  rw [insertBytesFromSegment, advance_eq_offsetToSeq startSeq, advance_eq_offsetToSeq startSeq,
    bind_of_ok hcheck, hstale, bind_of_ok hpeek, hoffset, bind_of_ok hreplace, bind_of_ok hnext]
  rfl

omit [Inhabited α] in
theorem Represents.prefixLength_lt (h : Represents stream i m q) :
    prefixLength m.segments < m.extracted + 2 ^ 31 := by
  rcases Nat.eq_zero_or_pos (prefixLength m.segments) with hzero | hpos
  · omega
  · obtain ⟨s, hs, -, hlt⟩ := covers_of_lt (sub_lt hpos one_pos)
    have hbound := h.bound s hs
    omega

omit [Inhabited α] in
/-- Without regions everything has been extracted. -/
theorem Represents.prefixLength_eq_of_nil (h : Represents stream i m q)
    (hnil : q.reorderBuffer.regions = []) : prefixLength m.segments = m.extracted := by
  apply prefixLength_eq fun k hk ↦ covers_of_lt (lt_of_lt_of_le hk h.extracted_le)
  intro hcovers
  have hread := h.stores.2 (i + m.extracted)
  rw [hnil, readRegions_nil] at hread
  apply stored_ne_none_iff.mpr _ hread.symm
  rw [Nat.add_sub_cancel_left]
  exact ⟨le_refl _, hcovers⟩

omit [Inhabited α] in
/-- The data of the first region, when it is expected. -/
theorem Represents.data_eq (h : Represents stream i m q) {first : Region α}
    {rest : List (Region α)} (hregions : q.reorderBuffer.regions = first :: rest)
    (hoffset : first.offset = i + m.extracted)
    (hend : first.getEndOffset = i + prefixLength m.segments) :
    first.data =
      Segment.payload stream ⟨m.extracted, prefixLength m.segments - m.extracted⟩ := by
  have hlength : first.data.length = prefixLength m.segments - m.extracted := by
    rw [Region.getEndOffset] at hend
    omega
  apply ext_getElem?
  intro n
  by_cases hn : n < prefixLength m.segments - m.extracted
  · have hread := h.stores.2 (first.offset + n)
    have hposition : i + m.extracted + n - i = m.extracted + n := by omega
    rw [hregions, read_of_lt (Nat.le_add_right _ _) (by omega), Nat.add_sub_cancel_left,
      Received.stored, hoffset, hposition,
      if_pos ⟨le_add_right _ _, covers_of_lt (by omega)⟩] at hread
    rw [hread, getElem?_payload _ hn]
  · rw [getElem?_eq_none (by omega), getElem?_eq_none (by rw [length_payload]; simp only; omega)]

theorem extractBytesUpTo_spec (h : Represents stream i m q) :
    ∃ packet q', q.extractBytesUpTo q.rcv_nxt = .ok (packet, q') ∧
      packet.getD [] =
        Segment.payload stream ⟨m.extracted, prefixLength m.segments - m.extracted⟩ ∧
      Represents stream i (Call.extractBytesUpTo.apply m) q' := by
  have hlt := h.prefixLength_lt
  have hle := h.extracted_le
  have hexpected := h.expected
  have hassert : seqLE q.rcv_nxt q.rcv_nxt := by
    rw [seqLE, distance_self]
    exact Nat.two_pow_pos 31
  rw [extractBytesUpTo, bind_of_ok (assert_of hassert)]
  -- nothing to extract
  have hnone (hsame : prefixLength m.segments = m.extracted) : ([] : List α) =
      Segment.payload stream ⟨m.extracted, prefixLength m.segments - m.extracted⟩ ∧
      Represents stream i (Call.extractBytesUpTo.apply m) q := by
    have happly : Call.extractBytesUpTo.apply m = m := by
      rw [Call.apply, hsame]
    rw [happly, hsame, Nat.sub_self]
    exact ⟨rfl, h⟩
  cases hregions : q.reorderBuffer.regions with
  | nil => exact ⟨none, q, rfl, hnone (h.prefixLength_eq_of_nil hregions)⟩
  | cons first rest =>
    have hoffset : seqToOffset q.reorderBuffer q.rcv_nxt = (i + prefixLength m.segments : ℕ) := by
      rw [h.rcv_nxt]
      exact seqToOffset_eq (by omega) (by omega)
    rw [if_neg (by simp), hoffset, hexpected]
    have hstores := h.stores
    rw [hregions] at hstores
    rcases first_region_cases hstores hle with ⟨hfirst, hend⟩ | ⟨-, hsame⟩
    · have hdata := h.data_eq hregions hfirst hend
      have hlength : first.data.length = prefixLength m.segments - m.extracted := by
        rw [hdata, length_payload]
      have hpos := length_pos_of_ne_nil (hstores.1.nonempty first mem_cons_self)
      obtain ⟨regions, hpop, hseparated, hread⟩ := ReorderBuffer.popAvailableData_spec h.stores.1
        hregions (hfirst.trans hexpected.symm) hpos (le_refl _)
      have hmax : ((i + prefixLength m.segments : ℕ) - (i + m.extracted : ℕ) : ℤ).toNat =
          first.data.length := by omega
      have hnext : q.reorderBuffer.expectedOffset + first.data.length =
          i + prefixLength m.segments := by omega
      rw [hnext] at hpop hread
      have hseq : ((i + prefixLength m.segments : ℕ) : ℤ) ≤
          seqToOffset ⟨regions, i + prefixLength m.segments⟩ q.rcv_nxt := by
        rw [h.rcv_nxt, seqToOffset_eq (le_refl _) (by simp only; omega)]
      rw [if_neg (by omega), hmax, bind_of_ok hpop]
      refine ⟨some (first.data.take first.data.length),
        ⟨q.rcv_nxt, ⟨regions, i + prefixLength m.segments⟩⟩, ?_, ?_, ⟨rfl, ⟨hseparated, ?_⟩,
          h.rcv_nxt, le_refl _, ?_⟩⟩
      · simp only
        rw [bind_of_ok (assert_of hseq)]
        rfl
      · rw [take_length, Option.getD_some, hdata]
      · intro x
        rw [hread, h.stores.2, Received.stored, Received.stored, Call.apply, hexpected]
        simp only
        by_cases hx : i + m.extracted ≤ x ∧ x < i + prefixLength m.segments
        · rw [if_pos hx, if_neg (fun hboth ↦ by omega)]
        · have hsame : (i + m.extracted ≤ x ∧ Covers m.segments (x - i)) ↔
              (i + prefixLength m.segments ≤ x ∧ Covers m.segments (x - i)) :=
            and_congr_left fun _ ↦ ⟨fun _ ↦ by omega, fun _ ↦ by omega⟩
          rw [if_neg hx]
          exact if_congr hsame rfl rfl
      · intro s hs
        have hbound := h.bound s hs
        simp only [Call.apply]
        omega
    · rw [if_pos (by omega)]
      exact ⟨none, q, rfl, hnone hsame⟩

omit [Inhabited α] in
/-- The first sequence number of the queue is the expected one. -/
theorem Represents.getFirstSeqNo_eq (h : Represents stream i m q) :
    q.getFirstSeqNo = offsetToSeq (i + m.extracted) := by
  have hle := h.extracted_le
  have hlt := h.prefixLength_lt
  rw [getFirstSeqNo]
  cases hregions : q.reorderBuffer.regions with
  | nil => rw [h.rcv_nxt, h.prefixLength_eq_of_nil hregions]
  | cons first rest =>
    have hstores := h.stores
    rw [hregions] at hstores
    have hmem : first ∈ q.reorderBuffer.regions := by
      rw [hregions]
      exact mem_cons_self
    obtain ⟨hlow, old, hold, hhigh, -⟩ :=
      h.exists_segment hmem (le_refl _) (h.offset_lt_endOffset hmem)
    have hbound := h.bound old hold
    simp only
    rw [h.rcv_nxt, offsetToSeq, offsetToSeq, seqMin_advance (by omega) (by omega), offsetToSeq]
    congr 1
    rcases first_region_cases hstores hle with ⟨hfirst, -⟩ | ⟨hfirst, hsame⟩
    · omega
    · omega

end Calls

/-! ## Runs -/

section Runs

variable {debug : Bool} {stream : ℕ → α} {startSeq : SeqNum} {m : Received} {q : ReceiveQueue α}
variable {delivered : List α} {calls : List Call}

instance (state : ReceiveQueue α × List α) (call : Call) :
    Decidable ((machine debug stream startSeq).Enabled state call) :=
  isTrue trivial

omit [Inhabited α] in
theorem represents_initial :
    Represents stream startSeq.toNat .initial (init startSeq) := by
  have hnone (k : ℕ) : ¬Covers [] k := by
    rintro ⟨s, hs, -⟩
    cases hs
  have hcovered : prefixLength [] = 0 :=
    prefixLength_eq (fun k hk ↦ absurd hk (not_lt_zero k)) (hnone 0)
  refine ⟨rfl, ⟨Separated.nil, fun x ↦ ?_⟩, ?_, zero_le _, fun s hs ↦ by cases hs⟩
  · rw [Received.stored, if_neg fun hboth ↦ hnone _ hboth.2]
    rfl
  · change startSeq = offsetToSeq (startSeq.toNat + prefixLength [])
    rw [hcovered, ← advance_eq_offsetToSeq, advance_zero]

omit [Inhabited α] in
theorem range_append_payload {a b : ℕ} (h : a ≤ b) :
    (range a).map stream ++ Segment.payload stream ⟨a, b - a⟩ = (range b).map stream := by
  rw [Segment.payload, ← map_append, range_eq_range', range_eq_range']
  have hrange : range' 0 a ++ range' (0 + 1 * a) (b - a) = range' 0 (a + (b - a)) :=
    range'_append
  rw [Nat.one_mul, Nat.zero_add, Nat.add_sub_cancel' h] at hrange
  exact congrArg (map stream) hrange

/-- Each allowed call succeeds and keeps what the queue represents. -/
theorem step_spec {call : Call} (h : Represents stream startSeq.toNat m q)
    (hdelivered : delivered = (range m.extracted).map stream)
    (hadmitted : call.Admitted debug m) :
    ∃ q' delivered', (machine debug stream startSeq).Step (q, delivered) call (q', delivered') ∧
      Represents stream startSeq.toNat (call.apply m) q' ∧
      delivered' = (range (call.apply m).extracted).map stream := by
  cases call with
  | insertBytesFromSegment s =>
    obtain ⟨q', hinsert, hq'⟩ := insertBytesFromSegment_spec h hadmitted
    refine ⟨q', delivered, ⟨trivial, ?_⟩, hq', hdelivered⟩
    change (_ >>= fun result ↦ _) = _
    rw [bind_of_ok hinsert]
    rfl
  | extractBytesUpTo =>
    obtain ⟨packet, q', hextract, hpacket, hq'⟩ := extractBytesUpTo_spec h
    refine ⟨q', delivered ++ packet.getD [], ⟨trivial, ?_⟩, hq', ?_⟩
    · change (_ >>= fun result ↦ _) = _
      rw [bind_of_ok hextract]
      rfl
    · rw [hdelivered, hpacket, range_append_payload h.extracted_le]
      rfl

theorem run_spec (h : Represents stream startSeq.toNat m q)
    (hdelivered : delivered = (range m.extracted).map stream)
    (hadmitted : AllAllowed (fun m call ↦ call.Admitted debug m) m calls) :
    ∃ q' delivered', (machine debug stream startSeq).Run (q, delivered) calls (q', delivered') ∧
      Represents stream startSeq.toNat (calls.foldl Call.apply m) q' ∧
      delivered' = (range (calls.foldl Call.apply m).extracted).map stream := by
  induction calls generalizing m q delivered with
  | nil => exact ⟨q, delivered, .nil _, h, hdelivered⟩
  | cons call calls ih =>
    obtain ⟨next, deliveredNext, hstep, hnext, hdeliveredNext⟩ :=
      step_spec h hdelivered hadmitted.1
    obtain ⟨q', delivered', hrun, hspec⟩ := ih hnext hdeliveredNext hadmitted.2
    exact ⟨q', delivered', .cons hstep hrun, hspec⟩

/-- After every sequence of allowed calls the queue acknowledges the longest prefix of the stream
that has arrived, a further segment that is allowed is acknowledged likewise, and what has been
passed up together with what is extracted at the end is that prefix. -/
theorem reassembles (debug : Bool) (stream : ℕ → α) (startSeq : SeqNum) (calls : List Call)
    (hadmitted : AllAllowed (fun m call ↦ call.Admitted debug m) .initial calls) :
    ∃ q delivered, (machine debug stream startSeq).Run (init startSeq, []) calls (q, delivered) ∧
      q.getFirstSeqNo = advance startSeq (received calls).extracted ∧
      q.rcv_nxt = advance startSeq (prefixLength (received calls).segments) ∧
      (∀ s, (Call.insertBytesFromSegment s).Admitted debug (received calls) →
        ∃ q', q.insertBytesFromSegment debug (advance startSeq s.start) (s.payload stream) =
          .ok (advance startSeq (prefixLength (s :: (received calls).segments)), q')) ∧
      ∃ packet q', q.extractBytesUpTo q.rcv_nxt = .ok (packet, q') ∧
        delivered ++ packet.getD [] =
          (range (prefixLength (received calls).segments)).map stream := by
  have hinitial : Represents stream startSeq.toNat .initial (init startSeq) := represents_initial
  obtain ⟨q, delivered, hrun, hq, hdelivered⟩ := run_spec hinitial rfl hadmitted
  refine ⟨q, delivered, hrun, ?_, ?_, ?_, ?_⟩
  · rw [hq.getFirstSeqNo_eq, advance_eq_offsetToSeq]
    rfl
  · rw [hq.rcv_nxt, advance_eq_offsetToSeq]
    rfl
  · intro s hs
    obtain ⟨q', hinsert, -⟩ := insertBytesFromSegment_spec hq hs
    exact ⟨q', hinsert⟩
  · obtain ⟨packet, q', hextract, hpacket, -⟩ := extractBytesUpTo_spec hq
    refine ⟨packet, q', hextract, ?_⟩
    rw [hdelivered, hpacket, range_append_payload hq.extracted_le]
    rfl

/-- Segments across the end of the number space, out of order and overlapping, with a gap at the
end. -/
theorem reassembles_wrap :
    ∃ q delivered, (machine true (fun k ↦ k) 0xfffffffe).Run (init 0xfffffffe, [])
        [.insertBytesFromSegment ⟨3, 2⟩, .insertBytesFromSegment ⟨0, 4⟩, .extractBytesUpTo,
          .insertBytesFromSegment ⟨9, 1⟩, .insertBytesFromSegment ⟨2, 5⟩] (q, delivered) ∧
      q.rcv_nxt = 5 ∧ ∃ packet q', q.extractBytesUpTo q.rcv_nxt = .ok (packet, q') ∧
        delivered ++ packet.getD [] = [0, 1, 2, 3, 4, 5, 6] := by
  obtain ⟨q, delivered, hrun, -, hacknowledged, -, packet, q', hextract, hdata⟩ :=
    reassembles true (fun k ↦ k) 0xfffffffe [.insertBytesFromSegment ⟨3, 2⟩,
      .insertBytesFromSegment ⟨0, 4⟩, .extractBytesUpTo, .insertBytesFromSegment ⟨9, 1⟩,
      .insertBytesFromSegment ⟨2, 5⟩] (by decide +kernel)
  have hcovered : prefixLength (received [.insertBytesFromSegment ⟨3, 2⟩,
      .insertBytesFromSegment ⟨0, 4⟩, .extractBytesUpTo, .insertBytesFromSegment ⟨9, 1⟩,
      .insertBytesFromSegment ⟨2, 5⟩]).segments = 7 := by decide +kernel
  rw [hcovered] at hacknowledged hdata
  exact ⟨q, delivered, hrun, hacknowledged, packet, q', hextract, hdata⟩

/-! ## Segments in the window that are not allowed -/

omit [Inhabited α] in
/-- Nothing is buffered when every segment ends where the extracted bytes end. -/
theorem Represents.regions_eq_nil (h : Represents stream startSeq.toNat m q)
    (hstop : ∀ s ∈ m.segments, s.stop ≤ m.extracted) : q.reorderBuffer.regions = [] := by
  apply eq_nil_iff_forall_not_mem.mpr
  intro r hr
  obtain ⟨-, s, hs, -, hlt⟩ := h.exists_segment hr (le_refl _) (h.offset_lt_endOffset hr)
  have hle := hstop s hs
  omega

omit [Inhabited α] in
/-- A segment that starts half of the ring below the expected byte does not move `rcv_nxt`. -/
theorem insertBytesFromSegment_of_half {data : List α} (hdata : data ≠ []) :
    (⟨offsetToSeq (2 ^ 31), ⟨[], 2 ^ 31⟩⟩ : ReceiveQueue α).insertBytesFromSegment false 0 data =
      .ok (offsetToSeq (2 ^ 31), ⟨offsetToSeq (2 ^ 31), ⟨[⟨0, data⟩], 2 ^ 31⟩⟩) := by
  have hhalf : (2 ^ 31 : ℕ) = 2147483648 := by norm_num
  rw [hhalf]
  have hstale : staleBytes (⟨[], 2147483648⟩ : ReorderBuffer α) 0 = 0 := by
    have hless : ¬seqLess 0 (offsetToSeq 2147483648) := by decide +kernel
    rw [staleBytes, if_neg hless]
  have hoffset : seqToOffset (⟨[], 2147483648⟩ : ReorderBuffer α) (advance 0 0) = 0 := by
    have hge : ¬seqGE (advance 0 0) (offsetToSeq 2147483648) := by decide +kernel
    have hdistance : distance (advance 0 0) (offsetToSeq 2147483648) = 2147483648 := by
      decide +kernel
    rw [seqToOffset, if_neg hge, hdistance]
    exact Int.sub_self _
  have hreplace : replace [] 0 data = .ok [⟨0, data⟩] := by
    rw [ChunkBuffer.replace, if_neg hdata]
    rfl
  have hnext : nextRcvNxt (offsetToSeq 2147483648) [⟨0, data⟩] = .ok (offsetToSeq 2147483648) := by
    have hge : ¬seqGE (offsetToSeq 2147483648) (offsetToSeq 0) := by decide +kernel
    rw [nextRcvNxt, if_neg hge]
  have hpeek : peekPayload data 0 = .ok data := if_pos (zero_le _)
  have hcheck : checkRange false ([] : List (Region α)) 0 (advance 0 data.length) = .ok () := rfl
  rw [insertBytesFromSegment, bind_of_ok hcheck, hstale, bind_of_ok hpeek, hoffset,
    Int.toNat_zero, bind_of_ok hreplace, bind_of_ok hnext]
  rfl

/-- In debug builds a segment that is sent again may be refused, and in other builds a segment that
starts half of the ring below the expected byte is not acknowledged. -/
theorem not_reassembles_in_window :
    (¬∀ calls, AllAllowed (fun m call ↦ call.InWindow m) .initial calls →
      ∃ state, (machine true (fun k ↦ k) 0).Run (init 0, []) calls state) ∧
    ¬∀ calls, AllAllowed (fun m call ↦ call.InWindow m) .initial calls →
      ∃ q delivered, (machine false (fun k ↦ k) 0).Run (init 0, []) calls (q, delivered) ∧
        q.rcv_nxt = advance 0 (prefixLength (received calls).segments) := by
  constructor
  · intro h
    obtain ⟨state, hrun⟩ := h [.insertBytesFromSegment ⟨0, 2⟩, .extractBytesUpTo,
      .insertBytesFromSegment ⟨2147483648, 1⟩, .insertBytesFromSegment ⟨0, 3⟩] (by decide +kernel)
    have hexec := exec_of_run hrun
    have hnone : (machine true (fun k ↦ k) 0).exec (init 0, [])
        [.insertBytesFromSegment ⟨0, 2⟩, .extractBytesUpTo, .insertBytesFromSegment ⟨2147483648, 1⟩,
          .insertBytesFromSegment ⟨0, 3⟩] = none := by decide +kernel
    rw [hnone] at hexec
    cases hexec
  · intro h
    set first : List Call := [.insertBytesFromSegment ⟨0, 1⟩, .extractBytesUpTo,
      .insertBytesFromSegment ⟨1, 2 ^ 31 - 1⟩, .extractBytesUpTo] with hfirst
    have hcovers (segments : List Segment) (k : ℕ) : Covers segments k ↔
        ∃ s ∈ segments, s.start ≤ k ∧ k < s.start + s.length := Iff.rfl
    have hnothing : prefixLength [] = 0 :=
      prefixLength_eq (fun k hk ↦ absurd hk (not_lt_zero k)) (by simp [hcovers])
    have hone : prefixLength [⟨0, 1⟩] = 1 :=
      prefixLength_eq (fun k hk ↦ by simp [hcovers]; omega) (by simp [hcovers])
    have hhalf : prefixLength [⟨1, 2 ^ 31 - 1⟩, ⟨0, 1⟩] = 2 ^ 31 :=
      prefixLength_eq (fun k hk ↦ by simp [hcovers]; omega) (by simp [hcovers])
    have hall : prefixLength [⟨0, 2 ^ 31 + 1⟩, ⟨1, 2 ^ 31 - 1⟩, ⟨0, 1⟩] = 2 ^ 31 + 1 :=
      prefixLength_eq (fun k hk ↦ by simp [hcovers]; omega) (by simp [hcovers])
    have hadmitted : AllAllowed (fun m call ↦ call.Admitted false m) .initial first := by
      simp [first, AllAllowed, Call.Admitted, Call.InWindow, Call.apply, Received.initial,
        Segment.stop, hnothing, hone]
    have hwindow : AllAllowed (fun m call ↦ call.InWindow m) .initial
        (first ++ [.insertBytesFromSegment ⟨0, 2 ^ 31 + 1⟩]) := by
      have hhalf' : prefixLength [⟨1, 2147483647⟩, ⟨0, 1⟩] = 2147483648 := hhalf
      simp [first, AllAllowed, Call.InWindow, Call.apply, Received.initial, Segment.stop, hnothing,
        hone, hhalf']
    -- the bytes below half of the ring are received and extracted
    have hinitial : Represents (fun k ↦ k) (0 : SeqNum).toNat .initial (init 0) :=
      represents_initial
    obtain ⟨⟨rcv_nxt, regions, expectedOffset⟩, delivered, hrun, hrepresents, -⟩ :=
      run_spec hinitial rfl hadmitted
    have hreceived : first.foldl Call.apply .initial =
        ⟨[⟨1, 2 ^ 31 - 1⟩, ⟨0, 1⟩], 2 ^ 31⟩ :=
      congrArg (Received.mk [⟨1, 2 ^ 31 - 1⟩, ⟨0, 1⟩]) hhalf
    rw [hreceived] at hrepresents
    obtain rfl : regions = [] := hrepresents.regions_eq_nil (by simp [Segment.stop])
    obtain rfl : expectedOffset = 2 ^ 31 := hrepresents.expected
    obtain rfl : rcv_nxt = offsetToSeq (2 ^ 31) := by
      have hrcv := hrepresents.rcv_nxt
      rwa [hhalf] at hrcv
    obtain ⟨q, delivered', hrun', hacknowledged⟩ := h _ hwindow
    obtain ⟨middle, hmiddle, hlast⟩ := run_append_iff.mp hrun'
    obtain rfl := hrun.unique hmiddle
    obtain ⟨-, hhandle⟩ := run_singleton_iff.mp hlast
    have hdata : Segment.payload (fun k ↦ k) ⟨0, 2 ^ 31 + 1⟩ ≠ [] := by
      apply ne_nil_of_length_pos
      rw [length_payload]
      exact succ_pos _
    change (_ >>= fun result ↦ _) = _ at hhandle
    rw [advance_zero, bind_of_ok (insertBytesFromSegment_of_half hdata)] at hhandle
    obtain ⟨rfl, -⟩ := Prod.mk.inj (Except.ok.inj hhandle)
    have hall' : prefixLength (received
      (first ++ [.insertBytesFromSegment ⟨0, 2 ^ 31 + 1⟩])).segments =
        2 ^ 31 + 1 := by
      rw [received, foldl_append, hreceived]
      exact hall
    rw [hall'] at hacknowledged
    have hsame := (advance_inj (by omega) (by omega)).mp hacknowledged
    omega

end Runs

end Inet4.Tcp.ReceiveQueue
