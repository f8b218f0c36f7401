import Inet4.Tcp.SackRexmitQueueRuns
import Inet4.Tcp.Sender

/-!
# The send loops

A segment passes over the bytes at its front that were sacked or sent again, and takes the next
ones. The loops of `sendData` and `retransmitData` count the bytes that they send, but not those
that are passed over.  They return, and send no empty segment, if and only if there is a byte left
to send whenever another segment is due (`Sender.sends_iff`).
-/

namespace Inet4.Tcp

open SackRexmitQueue List Nat

/-! ## Bytes that are passed over -/

/-- What is left of the bytes behind those at the front that are passed over. -/
def remaining (marks : List Bool) : List Bool := marks.dropWhile id

/-- The number of bytes of a segment for which `bytes` bytes are asked and which holds at most
`limit` bytes. -/
def segmentLength (bytes limit : ℕ) (marks : List Bool) : ℕ :=
  min bytes (min (remaining marks).length limit)

/-- The bytes behind the segment. -/
def afterSegment (bytes limit : ℕ) (marks : List Bool) : List Bool :=
  (remaining marks).drop (segmentLength bytes limit marks)

/-- The whole segments that `sendData` sends while at least `least` bytes are to be sent. -/
inductive WholeSegments (mss least limit : ℕ) : (bytesToSend : ℕ) → (marks : List Bool) →
    (bytesToSend' : ℕ) → (marks' : List Bool) → Prop
  | done {bytesToSend : ℕ} {marks : List Bool} (hless : bytesToSend < least) :
    WholeSegments mss least limit bytesToSend marks bytesToSend marks
  | next {bytesToSend bytesToSend' : ℕ} {marks marks' : List Bool} (hdue : least ≤ bytesToSend)
    (hleft : remaining marks ≠ []) (hle : segmentLength mss limit marks ≤ bytesToSend)
    (hrest : WholeSegments mss least limit (bytesToSend - segmentLength mss limit marks)
      (afterSegment mss limit marks) bytesToSend' marks') :
    WholeSegments mss least limit bytesToSend marks bytesToSend' marks'

/-- All bytes can be sent again, or all up to the FIN.  The first segment holds at most `limit`
bytes, the other ones at most `later`. -/
inductive Retransmits (send_fin : Bool) (mss later : ℕ) : (limit bytesToSend : ℕ) →
    (marks : List Bool) → Prop
  | done {limit : ℕ} {marks : List Bool} : Retransmits send_fin mss later limit 0 marks
  | fin {limit bytesToSend : ℕ} {marks : List Bool} (hdue : 0 < bytesToSend)
    (hleft : remaining marks ≠ []) (hfin : send_fin)
    (hend : afterSegment (min (min bytesToSend mss) marks.length) limit marks = []) :
    Retransmits send_fin mss later limit bytesToSend marks
  | next {limit bytesToSend : ℕ} {marks : List Bool} (hdue : 0 < bytesToSend)
    (hleft : remaining marks ≠ [])
    (hrest : Retransmits send_fin mss later later
      (bytesToSend - segmentLength (min (min bytesToSend mss) marks.length) limit marks)
      (afterSegment (min (min bytesToSend mss) marks.length) limit marks)) :
    Retransmits send_fin mss later limit bytesToSend marks

/-- What `sendData` sends before its last segment: all bytes in one segment, or whole segments
only. -/
def SendsSegments (mss least limit bytesToSend : ℕ) (marks : List Bool) (bytesToSend' : ℕ)
    (marks' : List Bool) : Prop :=
  if bytesToSend ≤ mss then
    remaining marks ≠ [] ∧ bytesToSend' = bytesToSend - segmentLength bytesToSend limit marks ∧
      marks' = afterSegment bytesToSend limit marks
  else WholeSegments mss least limit bytesToSend marks bytesToSend' marks'

/-- The last segment can be sent, if one is due. -/
def AllowsLast (bytesToSend : ℕ) (marks : List Bool) : Prop :=
  bytesToSend = marks.length → marks ≠ [] → remaining marks ≠ []

theorem segmentLength_pos {bytes limit : ℕ} {marks : List Bool} (hbytes : 0 < bytes)
    (hlimit : 0 < limit) (hleft : remaining marks ≠ []) : 0 < segmentLength bytes limit marks := by
  have hpos := length_pos_iff.mpr hleft
  unfold segmentLength
  omega

theorem segmentLength_le {bytes limit : ℕ} {marks : List Bool} :
    segmentLength bytes limit marks ≤ bytes := min_le_left _ _

/-- The bytes of a list that have a property, and the first one that does not. -/
theorem any_getElem?_takeWhile {β : Type} (p : β → Bool) (l : List β) :
    (∀ i < (l.takeWhile p).length, (l[i]?).any p) ∧ ¬(l[(l.takeWhile p).length]?).any p := by
  induction l with
  | nil => simp
  | cons a l ih =>
    rw [takeWhile_cons]
    split
    · rename_i ha
      refine ⟨fun i hi ↦ ?_, by simpa using ih.2⟩
      cases i with
      | zero => simpa using ha
      | succ i => simpa using ih.1 i (by simpa using hi)
    · rename_i ha
      simpa using ha

/-- The positions from `x` on without the first `n` ones, if these have a property and the next one
does not. -/
theorem dropWhile_map_range' (p : ℕ → Bool) (x k n : ℕ) (hpassed : ∀ i < n, p (x + i))
    (hnext : ¬p (x + n)) :
    ((range' x k).map p).dropWhile id = (range' (x + n) (k - n)).map p := by
  induction n generalizing x k with
  | zero =>
    cases k with
    | zero => rfl
    | succ k =>
      rw [Nat.add_zero] at hnext ⊢
      rw [Nat.sub_zero, range'_succ, map_cons, dropWhile_cons_of_neg (p := id) hnext]
      rfl
  | succ n ih =>
    cases k with
    | zero => simp
    | succ k =>
      have hx : p x := hpassed 0 (succ_pos n)
      have hrest := ih (x + 1) k (fun i hi ↦ ?_) ?_
      · rw [range'_succ, map_cons, dropWhile_cons_of_pos (p := id) hx, hrest,
          Nat.add_right_comm, Nat.add_assoc, Nat.add_sub_add_right]
      · have hi' := hpassed (i + 1) (succ_lt_succ hi)
        rwa [add_assoc, add_comm 1]
      · rwa [add_assoc, add_comm 1]

/-! ## The retransmission queue behind a segment -/

section Send

variable {m : ByteMap} {y z : ℕ}

theorem bytes_send (hyz : y ≤ z) (hz : z < 2 ^ 31) :
    (m.send (advance m.begin y) (advance m.begin z)).bytes =
      changeRange y (z - y) Flags.rexmit m.bytes ++
        replicate (z - m.bytes.length) Flags.fresh := by
  have hy : distance m.begin (advance m.begin y) = y := distance_advance_of_lt (by omega)
  have hn : distance (advance m.begin y) (advance m.begin z) = z - y :=
    distance_advance_advance hyz (by omega)
  unfold ByteMap.send
  rw [hy, hn]
  dsimp only
  rw [Nat.add_sub_cancel' hyz]

theorem length_send (hyz : y ≤ z) (hz : z < 2 ^ 31) :
    (m.send (advance m.begin y) (advance m.begin z)).bytes.length = max m.bytes.length z := by
  rw [bytes_send hyz hz, length_append, length_changeRange, length_replicate]
  omega

/-- The bytes behind a segment are as they were. -/
theorem getElem?_send (hyz : y ≤ z) (hz : z < 2 ^ 31) {p : ℕ} (hp : z ≤ p) :
    (m.send (advance m.begin y) (advance m.begin z)).bytes[p]? = m.bytes[p]? := by
  rw [bytes_send hyz hz, getElem?_append, length_changeRange]
  split
  · rw [getElem?_changeRange, if_neg (by omega)]
  · rw [getElem?_eq_none, getElem?_eq_none]
    · omega
    · rw [length_replicate]
      omega

end Send

/-! ## Options -/

theorem HeaderOptions.written_written (options : HeaderOptions) :
    options.written.written = options.written := by
  unfold written
  split
  · rw [if_neg]
    simp [sackPending]
  · rfl

theorem HeaderOptions.sack_enabled_written (options : HeaderOptions) :
    options.written.sack_enabled = options.sack_enabled := by
  unfold written
  split <;> rfl

/-! ## States in which a segment is sent -/

/-- The sequence numbers fit the bytes stored, and they and the FIN are less than half of the
ring. -/
structure SendQueue.Valid {α : Type} (q : SendQueue α) : Prop where
  end_eq : q.end = advance q.begin q.dataBuffer.length
  bound : q.dataBuffer.length + 1 < 2 ^ 31

/-- `getBytesAvailable` counts the bytes to the end of the queue. -/
theorem SendQueue.Valid.getBytesAvailable_advance {α : Type} {q : SendQueue α} (h : q.Valid) {y : ℕ}
    (hy : y ≤ q.dataBuffer.length + 1) :
    q.getBytesAvailable (advance q.begin y) = q.dataBuffer.length - y := by
  have hbound := h.bound
  have hless := seqLess_advance_iff (s := q.begin) (m := y) (n := q.dataBuffer.length) (by omega)
    (by omega)
  rw [getBytesAvailable, h.end_eq]
  split_ifs with hlt
  · have hle := (hless.mp hlt).le
    exact distance_advance_advance hle (by omega)
  · rw [hless] at hlt
    omega

namespace Sender

variable {α : Type}

section Definitions

variable (s : Sender α)

/-- The byte `p` bytes behind the first one stored is passed over. -/
def isPassedOver (p : ℕ) : Bool :=
  s.options.sack_enabled && s.afterRto && (s.rexmitQueue.byteMap.bytes[p]?).any Flags.marked

/-- The bytes of the send queue from a position on, with those marked that are passed over. -/
def marksFrom (x : ℕ) : List Bool :=
  (range' x (s.sendQueue.dataBuffer.length - x)).map s.isPassedOver

/-- The retransmission queue covers the bytes from the first one stored to `snd_nxt` at least, and
after a timeout none beyond `snd_max`. -/
structure RexmitCovers (x : ℕ) : Prop where
  valid : s.rexmitQueue.Valid
  begin : s.rexmitQueue.begin = s.sendQueue.begin
  covers : x ≤ s.rexmitQueue.byteMap.bytes.length
  le : s.rexmitQueue.byteMap.bytes.length ≤ s.sendQueue.dataBuffer.length + 1
  le_max : s.afterRto →
    s.rexmitQueue.byteMap.bytes.length ≤ distance s.sendQueue.begin s.snd_max

/-- A state in which a segment is sent from position `x` on. -/
structure Sending (x : ℕ) : Prop where
  nxt : s.snd_nxt = advance s.sendQueue.begin x
  nxt_le : x ≤ s.sendQueue.dataBuffer.length + 1
  max_le : distance s.sendQueue.begin s.snd_max ≤ s.sendQueue.dataBuffer.length + 1
  queue : s.sendQueue.Valid
  fin : s.send_fin → s.snd_fin_seq = s.sendQueue.end
  rexmit : s.options.sack_enabled → s.RexmitCovers x
  mss : s.options.length < s.snd_mss
  mss_later : s.options.written.length < s.snd_mss

/-- Where `snd_nxt` is behind a segment whose last byte is before `w`: the FIN is sent with the last
byte of the queue. -/
def endPosition (w : ℕ) : ℕ :=
  if s.send_fin ∧ w = s.sendQueue.dataBuffer.length then w + 1 else w

/-- The state after a segment of `n` bytes from position `y` on. -/
def sentSegment (y n : ℕ) (r : SackRexmitQueue) : Sender α :=
  { s with
    snd_nxt := advance s.sendQueue.begin (s.endPosition (y + n))
    afterRto := s.afterRto &&
      !decide (seqGE (advance s.sendQueue.begin (y + n)) s.snd_max)
    rexmitQueue := r
    sentBytes := n
    options := s.options.written
    sent := s.sent ++ [⟨advance s.sendQueue.begin y, (s.sendQueue.dataBuffer.drop y).take n,
      decide (s.send_fin ∧ y + n = s.sendQueue.dataBuffer.length)⟩] }

/-- The retransmission queue with a segment that ends at `z`. -/
structure Takes (z : ℕ) (r : SackRexmitQueue) : Prop where
  valid : r.Valid
  begin : r.begin = s.sendQueue.begin
  length : r.byteMap.bytes.length = max s.rexmitQueue.byteMap.bytes.length z
  behind : ∀ p, z ≤ p → r.byteMap.bytes[p]? = s.rexmitQueue.byteMap.bytes[p]?

/-- What is sent on the way to another state is not empty. -/
def SendsNoEmpty (s' : Sender α) : Prop :=
  ∃ segments, s'.sent = s.sent ++ segments ∧
    ∀ segment ∈ segments, segment.payload ≠ [] ∨ segment.finBit

/-- The state after a segment that was sent from position `x` on. -/
structure Sent (x bytes : ℕ) (s' : Sender α) : Prop where
  mss : s'.snd_mss = s.snd_mss
  max : s'.snd_max = s.snd_max
  send_fin : s'.send_fin = s.send_fin
  fin_seq : s'.snd_fin_seq = s.snd_fin_seq
  queue : s'.sendQueue = s.sendQueue
  options : s'.options = s.options.written
  sentBytes : s'.sentBytes =
    segmentLength bytes (s.snd_mss - s.options.length) (s.marksFrom x)
  next : ∃ x', s'.snd_nxt = advance s.sendQueue.begin x' ∧
    x' ≤ s.sendQueue.dataBuffer.length + 1 ∧
    s'.marksFrom x' = afterSegment bytes (s.snd_mss - s.options.length) (s.marksFrom x) ∧
    (s.options.sack_enabled → s'.RexmitCovers x')
  fin : s.send_fin → (s'.snd_nxt = advance s.snd_fin_seq 1 ↔
    afterSegment bytes (s.snd_mss - s.options.length) (s.marksFrom x) = [])
  noEmpty : s.SendsNoEmpty s'

end Definitions

variable {s s' : Sender α} {x bytes : ℕ}

@[simp]
theorem length_marksFrom : (s.marksFrom x).length = s.sendQueue.dataBuffer.length - x := by
  simp [marksFrom]

namespace Sending

/-- `sendSegment` forwards `snd_nxt` to the first byte that is not passed over. -/
theorem forward_eq (h : s.Sending x) :
    ∃ y, s.forward = .ok { s with snd_nxt := advance s.sendQueue.begin y } ∧ x ≤ y ∧
      y ≤ s.sendQueue.dataBuffer.length + 1 ∧ remaining (s.marksFrom x) = s.marksFrom y ∧
      (s.options.sack_enabled → y ≤ s.rexmitQueue.byteMap.bytes.length) := by
  by_cases hforward : s.options.sack_enabled ∧ s.afterRto
  · obtain ⟨hsack, hrto⟩ := hforward
    obtain ⟨hvalid, hbegin, hcovers, hle, -⟩ := h.rexmit hsack
    have hbound := hvalid.bound
    obtain ⟨n, hn⟩ : ∃ n, ((s.rexmitQueue.byteMap.bytes.drop x).takeWhile Flags.marked).length =
      n :=
      ⟨_, rfl⟩
    have hnle : n ≤ s.rexmitQueue.byteMap.bytes.length - x := by
      rw [← hn, ← length_drop]
      exact ( takeWhile_prefix _).length_le
    have hfrom : s.snd_nxt = advance s.rexmitQueue.begin x := by rw [hbegin, h.nxt]
    have hfirst : seqLE s.rexmitQueue.begin s.snd_nxt := by
      rw [hfrom, seqLE, distance_advance_of_lt (by omega)]
      omega
    have hlast : seqLE s.snd_nxt s.rexmitQueue.end := by
      rw [hfrom, hvalid.end_eq, ByteMap.end]
      exact (seqLE_advance_iff (by omega) (by omega)).mpr (by omega)
    have hbytes : s.rexmitQueue.byteMap.bytesFrom s.snd_nxt =
        s.rexmitQueue.byteMap.bytes.drop x := by
      rw [hfrom]
      exact bytesFrom_advance (by omega)
    have hcheck := hvalid.checkRexmitQueue_eq hfirst hlast
    rw [hbytes, hn] at hcheck
    refine ⟨x + n, ?_, le_add_right x n, by omega, ?_, fun _ ↦ by omega⟩
    · rw [forward, if_pos ⟨hsack, hrto⟩, bind_of_ok hcheck, h.nxt, ← advance_advance]
      rfl
    · have hany := any_getElem?_takeWhile Flags.marked (s.rexmitQueue.byteMap.bytes.drop x)
      simp only [hn, getElem?_drop] at hany
      rw [remaining, marksFrom, marksFrom, dropWhile_map_range' s.isPassedOver x _ n, Nat.sub_sub]
      · intro i hi
        simp only [isPassedOver, hsack, hrto, Bool.true_and]
        exact hany.1 i hi
      · simp only [isPassedOver, hsack, hrto, Bool.true_and]
        exact hany.2
  · refine ⟨x, ?_, le_rfl, h.nxt_le, ?_, fun hsack ↦ (h.rexmit hsack).covers⟩
    · rw [forward, if_neg hforward, ← h.nxt]
    · have hpassed : ∀ p, s.isPassedOver p = false := by
        intro p
        rw [isPassedOver]
        rcases not_and_or.mp hforward with hsack | hrto
        · simp [hsack]
        · simp [hrto]
      have hkept := dropWhile_map_range' s.isPassedOver x (s.sendQueue.dataBuffer.length - x) 0
        (by simp) (by simp [hpassed])
      exact hkept

/-- No segment is created of no bytes. -/
theorem createSegmentWithBytes_zero (q : SendQueue α) (fromSeq : SeqNum) :
    ∃ fault, q.createSegmentWithBytes fromSeq 0 = .error fault := by
  unfold SendQueue.createSegmentWithBytes SendQueue.peekAt assert
  split
  · refine ⟨.runtimeError, ?_⟩
    split <;> rfl
  · exact ⟨_, rfl⟩

theorem createSegmentWithBytes_eq (h : s.Sending x) {y n : ℕ} (hn : 0 < n)
    (hle : y + n ≤ s.sendQueue.dataBuffer.length) :
    s.sendQueue.createSegmentWithBytes (advance s.sendQueue.begin y) n =
      .ok ((s.sendQueue.dataBuffer.drop y).take n) := by
  have hbound := h.queue.bound
  have hy : distance s.sendQueue.begin (advance s.sendQueue.begin y) = y :=
    distance_advance_of_lt (by omega)
  have hfirst : seqLE s.sendQueue.begin (advance s.sendQueue.begin y) := by
    rw [seqLE, hy]
    omega
  have hlast : seqLE (advance (advance s.sendQueue.begin y) n) s.sendQueue.end := by
    rw [h.queue.end_eq, advance_advance]
    exact (seqLE_advance_iff (by omega) (by omega)).mpr hle
  rw [SendQueue.createSegmentWithBytes, bind_of_ok (assert_of ⟨hfirst, hlast⟩), hy,
    SendQueue.peekAt, if_neg (by omega), if_neg (by omega)]

/-- The number of bytes of a segment, as `sendSegment` computes it. -/
theorem bytes_eq {bytes buffered options_len mss : ℕ} (hmss : options_len < mss) :
    (if mss < (if buffered < bytes then buffered else bytes) + options_len then mss - options_len
      else if buffered < bytes then buffered else bytes) =
      min bytes (min buffered (mss - options_len)) := by
  split_ifs <;> omega

/-- If no byte is left, the segment is not sent. -/
theorem sendFromNext_error (h : s.Sending x) {y : ℕ}
    (hy : y ≤ s.sendQueue.dataBuffer.length + 1)
    (hnone : bytes = 0 ∨ s.sendQueue.dataBuffer.length ≤ y) :
    ∃ fault, sendFromNext { s with snd_nxt := advance s.sendQueue.begin y } bytes =
      .error fault := by
  have hzero : min bytes (min (s.sendQueue.dataBuffer.length - y)
      (s.snd_mss - s.options.length)) = 0 := by omega
  obtain ⟨fault, hcreate⟩ := createSegmentWithBytes_zero s.sendQueue (advance s.sendQueue.begin y)
  refine ⟨fault, ?_⟩
  unfold sendFromNext
  simp only [h.queue.getBytesAvailable_advance hy, bytes_eq h.mss, hzero]
  rw [bind_of_ok (assert_of h.mss), hcreate]
  rfl

/-- The retransmission queue takes up a segment from `y` to `z`. -/
theorem enqueueSentData_eq (h : s.Sending x) {y z : ℕ}
    (hcovers : s.options.sack_enabled → y ≤ s.rexmitQueue.byteMap.bytes.length) (hyz : y < z)
    (hz : z ≤ s.sendQueue.dataBuffer.length + 1) :
    ∃ r, s.enqueueSentData (advance s.sendQueue.begin y) (advance s.sendQueue.begin z) = .ok r ∧
      (s.options.sack_enabled → s.Takes z r) := by
  unfold enqueueSentData
  by_cases hsack : s.options.sack_enabled
  swap
  · exact ⟨s.rexmitQueue, if_neg hsack, fun hsack' ↦ absurd hsack' hsack⟩
  have hy := hcovers hsack
  obtain ⟨hvalid, hbegin, -, hle, -⟩ := h.rexmit hsack
  rw [if_pos hsack]
  have hbound := h.queue.bound
  rw [← hbegin]
  have hfirst : distance s.rexmitQueue.begin (advance s.rexmitQueue.begin y) = y :=
    distance_advance_of_lt (by omega)
  have hn : distance (advance s.rexmitQueue.begin y) (advance s.rexmitQueue.begin z) = z - y :=
    distance_advance_advance hyz.le (by omega)
  have hbefore : seqLE s.rexmitQueue.begin (advance s.rexmitQueue.begin y) := by
    rw [seqLE, hfirst]
    omega
  have hend : seqLE (advance s.rexmitQueue.begin y) s.rexmitQueue.end := by
    rw [hvalid.end_eq, ByteMap.end]
    exact (seqLE_advance_iff (by omega) (by omega)).mpr hy
  have hless : seqLess (advance s.rexmitQueue.begin y) (advance s.rexmitQueue.begin z) :=
    (seqLess_advance_iff (by omega) (by omega)).mpr hyz
  obtain ⟨r, hcall, hr, hmap⟩ := enqueueSentData_spec hvalid hbefore hend hless (by omega)
  refine ⟨r, hcall, fun _ ↦ ⟨hr, (congrArg ByteMap.begin hmap).trans hbegin, ?_, fun p hp ↦ ?_⟩⟩
  · rw [hmap]
    exact length_send hyz.le (by omega)
  · rw [hmap]
    exact getElem?_send hyz.le (by omega) hp

/-- The bit `afterRto` is reset when `snd_nxt` reaches `snd_max`. -/
theorem seqGE_max_iff (h : s.Sending x) {y : ℕ} (hy : y ≤ s.sendQueue.dataBuffer.length) :
    seqGE (advance s.sendQueue.begin y) s.snd_max ↔ distance s.sendQueue.begin s.snd_max ≤ y := by
  have hbound := h.queue.bound
  have hmax := h.max_le
  have hiff := seqGE_advance_iff (s := s.sendQueue.begin) (m := y)
    (n := distance s.sendQueue.begin s.snd_max) (by omega) (by omega)
  rwa [advance_distance] at hiff

/-- Behind a segment to `z`, whose last byte is before `w`, the same bytes are passed over as
before. -/
theorem isPassedOver_after (h : s.Sending x) {w z p : ℕ} (hwz : w ≤ z) (hzp : z ≤ p)
    (hsack : s'.options.sack_enabled = s.options.sack_enabled)
    (hrto : s'.afterRto =
      (s.afterRto && !decide (distance s.sendQueue.begin s.snd_max ≤ w)))
    (hrexmit : s.options.sack_enabled →
      s'.rexmitQueue.byteMap.bytes[p]? = s.rexmitQueue.byteMap.bytes[p]?) :
    s'.isPassedOver p = s.isPassedOver p := by
  unfold isPassedOver
  rw [hsack, hrto]
  cases henabled : s.options.sack_enabled with
  | false => rfl
  | true =>
    rw [hrexmit henabled]
    cases hafter : s.afterRto with
    | false => rfl
    | true =>
      by_cases hle : distance s.sendQueue.begin s.snd_max ≤ w
      · -- there are no bytes behind `snd_max` in the queue
        have hcovers := (h.rexmit henabled).le_max hafter
        rw [getElem?_eq_none (by omega)]
        simp
      · simp [hle]

theorem le_endPosition (w : ℕ) : w ≤ s.endPosition w := by
  unfold endPosition
  split_ifs <;> omega

theorem endPosition_le {w : ℕ} (hw : w ≤ s.sendQueue.dataBuffer.length) :
    s.endPosition w ≤ s.sendQueue.dataBuffer.length + 1 := by
  unfold endPosition
  split_ifs <;> omega

/-- A segment of `n` bytes is sent from `y` on. -/
theorem sendFromNext_eq (h : s.Sending x) {y n : ℕ} (hpos : 0 < n)
    (hend : y + n ≤ s.sendQueue.dataBuffer.length)
    (hn : min bytes (min (s.sendQueue.dataBuffer.length - y) (s.snd_mss - s.options.length)) = n)
    (hcovers : s.options.sack_enabled → y ≤ s.rexmitQueue.byteMap.bytes.length) :
    ∃ r, sendFromNext { s with snd_nxt := advance s.sendQueue.begin y } bytes =
        .ok (s.sentSegment y n r) ∧
      (s.options.sack_enabled → s.Takes (s.endPosition (y + n)) r) := by
  have hbound := h.queue.bound
  -- the FIN is sent with the last byte
  have hfinBit : (s.send_fin && decide (advance s.sendQueue.begin (y + n) = s.snd_fin_seq)) =
      decide (s.send_fin ∧ y + n = s.sendQueue.dataBuffer.length) := by
    cases hsend : s.send_fin with
    | false => simp
    | true =>
      rw [h.fin hsend, h.queue.end_eq]
      simp [advance_inj (s := s.sendQueue.begin) (m := y + n)
        (n := s.sendQueue.dataBuffer.length) (by omega) (by omega)]
  have hnext : (if decide (s.send_fin ∧ y + n = s.sendQueue.dataBuffer.length) then
      advance s.snd_fin_seq 1 else advance s.sendQueue.begin (y + n)) =
      advance s.sendQueue.begin (s.endPosition (y + n)) := by
    unfold endPosition
    simp only [decide_eq_true_eq]
    split_ifs with hfin
    · rw [h.fin hfin.1, h.queue.end_eq, advance_advance, hfin.2]
    · rfl
  have hle : y + n ≤ s.endPosition (y + n) := le_endPosition _
  obtain ⟨r, hqueue, hr⟩ := h.enqueueSentData_eq hcovers (by omega) (endPosition_le hend)
  have hcreate := h.createSegmentWithBytes_eq hpos hend
  have hpayload : n = ((s.sendQueue.dataBuffer.drop y).take n).length := by
    rw [length_take, length_drop]
    omega
  have hy : y ≤ s.sendQueue.dataBuffer.length + 1 := by omega
  refine ⟨r, ?_, hr⟩
  unfold sendFromNext
  simp only [h.queue.getBytesAvailable_advance hy, bytes_eq h.mss, hn, advance_advance]
  rw [bind_of_ok (assert_of h.mss), bind_of_ok hcreate, bind_of_ok (assert_of hpayload), hfinBit,
    hnext]
  exact bind_of_ok hqueue

/-- The bytes behind a segment are marked as before. -/
theorem marksFrom_sentSegment (h : s.Sending x) {w z : ℕ} (hwz : z = s.endPosition w)
    (hqueue : s'.sendQueue = s.sendQueue)
    (hsack : s'.options.sack_enabled = s.options.sack_enabled)
    (hrto : s'.afterRto = (s.afterRto && !decide (distance s.sendQueue.begin s.snd_max ≤ w)))
    (hrexmit : s.options.sack_enabled → s.Takes z s'.rexmitQueue) :
    s'.marksFrom z = s.marksFrom w := by
  have hle : w ≤ z := hwz ▸ le_endPosition w
  have hsame : s'.marksFrom z = s.marksFrom z := by
    unfold marksFrom
    rw [hqueue]
    apply map_congr_left
    intro p hp
    have hzp : z ≤ p := (mem_range'_1.mp hp).1
    exact h.isPassedOver_after hle hzp hsack hrto fun henabled ↦ (hrexmit henabled).behind p hzp
  rw [hsame, hwz, endPosition]
  split_ifs with hfin
  · rw [marksFrom, marksFrom, hfin.2, Nat.sub_self, Nat.sub_eq_zero_of_le (Nat.le_succ _)]
    rfl
  · rfl

theorem sendSegment_error (h : s.Sending x)
    (hnone : bytes = 0 ∨ remaining (s.marksFrom x) = []) :
    ∃ fault, s.sendSegment bytes = .error fault := by
  obtain ⟨y, hforward, -, hy, hremaining, -⟩ := h.forward_eq
  have hnone' : bytes = 0 ∨ s.sendQueue.dataBuffer.length ≤ y := by
    refine hnone.imp_right fun hnil ↦ ?_
    have hlength : (s.marksFrom y).length = 0 := by rw [← hremaining, hnil, length_nil]
    rw [length_marksFrom] at hlength
    omega
  obtain ⟨fault, hsend⟩ := h.sendFromNext_error hy hnone'
  exact ⟨fault, by rw [sendSegment, bind_of_ok hforward, hsend]⟩

theorem sendSegment_ok (h : s.Sending x) (hbytes : 0 < bytes)
    (hleft : remaining (s.marksFrom x) ≠ []) :
    ∃ s', s.sendSegment bytes = .ok s' ∧ s.Sent x bytes s' := by
  obtain ⟨y, hforward, -, -, hremaining, hcovers⟩ := h.forward_eq
  have hbound := h.queue.bound
  have hmss := h.mss
  have hmax := h.max_le
  have hy : y < s.sendQueue.dataBuffer.length := by
    have hpos := length_pos_iff.mpr hleft
    rw [hremaining, length_marksFrom] at hpos
    omega
  obtain ⟨n, hn⟩ : ∃ n, min bytes (min (s.sendQueue.dataBuffer.length - y)
      (s.snd_mss - s.options.length)) = n := ⟨_, rfl⟩
  have hlength : segmentLength bytes (s.snd_mss - s.options.length) (s.marksFrom x) = n := by
    rw [segmentLength, hremaining, length_marksFrom, hn]
  have hpos : 0 < n := by omega
  have hend : y + n ≤ s.sendQueue.dataBuffer.length := by omega
  have hafter : afterSegment bytes (s.snd_mss - s.options.length) (s.marksFrom x) =
      s.marksFrom (y + n) := by
    rw [afterSegment, hlength, hremaining, marksFrom, marksFrom, ← map_drop,
      drop_range', Nat.mul_one, Nat.sub_sub]
  obtain ⟨r, hsend, hr⟩ := h.sendFromNext_eq hpos hend hn hcovers
  have hrto : (s.sentSegment y n r).afterRto =
      (s.afterRto && !decide (distance s.sendQueue.begin s.snd_max ≤ y + n)) := by
    simp only [sentSegment, h.seqGE_max_iff hend]
  have hsack : (s.sentSegment y n r).options.sack_enabled = s.options.sack_enabled :=
    s.options.sack_enabled_written
  have hqueue : (s.sentSegment y n r).sendQueue = s.sendQueue := rfl
  have hmarks := h.marksFrom_sentSegment rfl hqueue hsack hrto hr
  have hle : y + n ≤ s.endPosition (y + n) := le_endPosition _
  have hle' : s.endPosition (y + n) ≤ s.sendQueue.dataBuffer.length + 1 := endPosition_le hend
  refine ⟨s.sentSegment y n r, by rw [sendSegment, bind_of_ok hforward, hsend], rfl, rfl, rfl, rfl,
    rfl, rfl, hlength.symm, ⟨s.endPosition (y + n), rfl, hle', hmarks.trans hafter.symm, ?_⟩, ?_,
    ?_⟩
  · intro henabled
    obtain ⟨hvalid, hbegin, hmaxLength, -⟩ := hr henabled
    have hcover := h.rexmit henabled
    have hlast := hcover.le
    refine ⟨hvalid, hbegin, ?_, ?_, fun hafterRto ↦ ?_⟩
    · change _ ≤ r.byteMap.bytes.length
      omega
    · change r.byteMap.bytes.length ≤ s.sendQueue.dataBuffer.length + 1
      omega
    · -- after the timeout, the segment ends before `snd_max`
      rw [hrto, Bool.and_eq_true, Bool.not_eq_true', decide_eq_false_iff_not] at hafterRto
      have hbefore := hcover.le_max hafterRto.1
      change r.byteMap.bytes.length ≤ distance s.sendQueue.begin s.snd_max
      have hz : s.endPosition (y + n) ≤ distance s.sendQueue.begin s.snd_max := by
        unfold endPosition
        split_ifs <;> omega
      omega
  · intro hfin
    rw [hafter, ← length_eq_zero_iff, length_marksFrom, h.fin hfin, h.queue.end_eq, advance_advance]
    change advance s.sendQueue.begin (s.endPosition (y + n)) = _ ↔ _
    rw [advance_inj (by omega) (by omega), endPosition]
    split_ifs with hlast
    · omega
    · have hnot : y + n ≠ s.sendQueue.dataBuffer.length := fun heq ↦ hlast ⟨hfin, heq⟩
      omega
  · refine ⟨_, rfl, ?_⟩
    rw [forall_mem_singleton]
    left
    rw [← length_pos_iff, length_take, length_drop]
    omega

end Sending

/-- The next segment can be sent after one. -/
theorem Sent.sending (h : s.Sending x) (hs : s.Sent x bytes s') :
    ∃ x', s'.Sending x' ∧
      s'.marksFrom x' = afterSegment bytes (s.snd_mss - s.options.length) (s.marksFrom x) := by
  obtain ⟨x', hnxt, hle, hmarks, hrexmit⟩ := hs.next
  refine ⟨x', ?_, hmarks⟩
  have hlater := h.mss_later
  constructor
  · rw [hnxt, hs.queue]
  · rwa [hs.queue]
  · rw [hs.queue, hs.max]
    exact h.max_le
  · rw [hs.queue]
    exact h.queue
  · rw [hs.send_fin, hs.fin_seq, hs.queue]
    exact h.fin
  · rw [hs.options, HeaderOptions.sack_enabled_written]
    exact hrexmit
  · rwa [hs.options, hs.mss]
  · rwa [hs.options, HeaderOptions.written_written, hs.mss]

theorem SendsNoEmpty.refl : s.SendsNoEmpty s := ⟨[], by simp, by simp⟩

theorem SendsNoEmpty.trans {s'' : Sender α} (h : s.SendsNoEmpty s') (h' : s'.SendsNoEmpty s'') :
    s.SendsNoEmpty s'' := by
  obtain ⟨segments, hsent, hall⟩ := h
  obtain ⟨segments', hsent', hall'⟩ := h'
  refine ⟨segments ++ segments', ?_, forall_mem_append.mpr ⟨hall, hall'⟩⟩
  rw [hsent', hsent, append_assoc]

/-- A segment that is due is sent if and only if there is a byte left for it. -/
theorem Sending.sendSegment_of_ok (h : s.Sending x) (hok : s.sendSegment bytes = .ok s') :
    0 < bytes ∧ remaining (s.marksFrom x) ≠ [] ∧ s.Sent x bytes s' := by
  by_cases hnone : bytes = 0 ∨ remaining (s.marksFrom x) = []
  · obtain ⟨fault, herror⟩ := h.sendSegment_error hnone
    rw [hok] at herror
    cases herror
  · obtain ⟨hbytes, hleft⟩ := not_or.mp hnone
    obtain ⟨s'', hok', hsent⟩ := h.sendSegment_ok (pos_of_ne_zero hbytes) hleft
    obtain rfl := Except.ok.inj (hok.symm.trans hok')
    exact ⟨pos_of_ne_zero hbytes, hleft, hsent⟩

/-! ## The loop of `sendData` -/

/-- The state behind some segments of `sendData`, with the bytes that are left. -/
structure Reaches (s : Sender α) (marks : List Bool) (s' : Sender α) : Prop where
  sending : ∃ x, s'.Sending x ∧ s'.marksFrom x = marks
  options : s'.options = s.options
  mss : s'.snd_mss = s.snd_mss
  noEmpty : s.SendsNoEmpty s'

theorem Sent.reaches (h : s.Sending x) (hs : s.Sent x bytes s')
    (hwritten : s.options.written = s.options) :
    s.Reaches (afterSegment bytes (s.snd_mss - s.options.length) (s.marksFrom x)) s' :=
  ⟨hs.sending h, hs.options.trans hwritten, hs.mss, hs.noEmpty⟩

variable {mss least limit bytesToSend bytesToSend' fuel : ℕ} {marks marks' : List Bool}

theorem sendWholeSegments_of_plan
    (hplan : WholeSegments mss least limit bytesToSend marks bytesToSend' marks')
    (h : s.Sending x) (hmarks : s.marksFrom x = marks) (hwritten : s.options.written = s.options)
    (hmss : s.snd_mss = mss) (hlimit : s.snd_mss - s.options.length = limit)
    (hfuel : bytesToSend < fuel) :
    ∃ s', sendWholeSegments least fuel bytesToSend s = .ok (bytesToSend', s') ∧
      s.Reaches marks' s' := by
  induction hplan generalizing s x fuel with
  | @done bytesToSend marks hless =>
    obtain ⟨fuel, rfl⟩ := Nat.exists_eq_add_of_lt hfuel
    refine ⟨s, ?_, ⟨x, h, hmarks⟩, rfl, rfl, SendsNoEmpty.refl⟩
    rw [sendWholeSegments, if_neg (not_le.mpr hless)]
  | @next bytesToSend bytesToSend' marks marks' hdue hleft hle _ ih =>
    obtain ⟨fuel, rfl⟩ := exists_eq_succ_of_ne_zero (ne_zero_of_lt hfuel)
    subst hmarks hmss hlimit
    have hpos : 0 < s.snd_mss - s.options.length := Nat.sub_pos_of_lt h.mss
    have hmssPos : 0 < s.snd_mss := by omega
    obtain ⟨s₁, hsend, hsent⟩ := h.sendSegment_ok hmssPos hleft
    obtain ⟨⟨x₁, h₁, hmarks₁⟩, hoptions, hmss₁, hnoEmpty⟩ := hsent.reaches h hwritten
    have htaken := segmentLength_pos hmssPos hpos hleft
    have hwritten₁ : s₁.options.written = s₁.options := by rw [hoptions, hwritten]
    have hlimit₁ : s₁.snd_mss - s₁.options.length = s.snd_mss - s.options.length := by
      rw [hmss₁, hoptions]
    have hfuel₁ : bytesToSend -
        segmentLength s.snd_mss (s.snd_mss - s.options.length) (s.marksFrom x) < fuel := by omega
    obtain ⟨s', hrest, hreaches⟩ := ih h₁ hmarks₁ hwritten₁ hmss₁ hlimit₁ hfuel₁
    have hassert : s₁.sentBytes ≤ bytesToSend := by rw [hsent.sentBytes]; exact hle
    refine ⟨s', ?_, hreaches.sending, hreaches.options.trans hoptions, hreaches.mss.trans hmss₁,
      hnoEmpty.trans hreaches.noEmpty⟩
    rw [sendWholeSegments, if_pos hdue, bind_of_ok hsend, bind_of_ok (assert_of hassert),
      hsent.sentBytes]
    exact hrest

theorem plan_of_sendWholeSegments (h : s.Sending x) (hwritten : s.options.written = s.options)
    (hok : sendWholeSegments least fuel bytesToSend s = .ok (bytesToSend', s')) :
    ∃ marks', WholeSegments s.snd_mss least (s.snd_mss - s.options.length) bytesToSend
      (s.marksFrom x) bytesToSend' marks' := by
  induction fuel generalizing s x bytesToSend with
  | zero => cases hok
  | succ fuel ih =>
    rw [sendWholeSegments] at hok
    split at hok
    · rename_i hdue
      obtain ⟨s₁, hsend, hok⟩ := bind_eq_ok hok
      obtain ⟨_, hassert, hok⟩ := bind_eq_ok hok
      obtain ⟨-, hleft, hsent⟩ := h.sendSegment_of_ok hsend
      obtain ⟨⟨x₁, h₁, hmarks₁⟩, hoptions, hmss₁, -⟩ := hsent.reaches h hwritten
      obtain ⟨marks', hrest⟩ := ih h₁ (by rw [hoptions, hwritten]) hok
      have hle := of_assert hassert
      rw [hsent.sentBytes] at hle hrest
      rw [hmss₁, hoptions, hmarks₁] at hrest
      exact ⟨marks', .next hdue hleft hle hrest⟩
    · rename_i hless
      obtain ⟨rfl, rfl⟩ := Prod.mk.inj (Except.ok.inj hok)
      exact ⟨s.marksFrom x, .done (not_le.mp hless)⟩

/-! ## The loop of `retransmitData` -/

/-- The FIN was sent with a segment if that was the last one of the queue. -/
theorem Sent.finSent_iff (hs : s.Sent x bytes s') :
    (s'.send_fin ∧ s'.snd_nxt = advance s'.snd_fin_seq 1) ↔ s.send_fin ∧
      afterSegment bytes (s.snd_mss - s.options.length) (s.marksFrom x) = [] := by
  rw [hs.send_fin, hs.fin_seq]
  exact and_congr_right hs.fin

theorem Sending.getBytesAvailable_eq (h : s.Sending x) :
    s.sendQueue.getBytesAvailable s.snd_nxt = (s.marksFrom x).length := by
  rw [h.nxt, h.queue.getBytesAvailable_advance h.nxt_le, length_marksFrom]

theorem Sending.asked_pos (h : s.Sending x) (hdue : 0 < bytesToSend)
    (hleft : remaining (s.marksFrom x) ≠ []) :
    0 < min (min bytesToSend s.snd_mss) (s.marksFrom x).length := by
  have hmss := h.mss
  have hmarks : s.marksFrom x ≠ [] := by
    intro hnil
    rw [hnil] at hleft
    exact hleft rfl
  have hpos := length_pos_iff.mpr hmarks
  omega

theorem retransmitSegments_of_plan {send_fin : Bool} {later : ℕ}
    (hplan : Retransmits send_fin mss later limit bytesToSend marks)
    (h : s.Sending x) (hfin : s.send_fin = send_fin) (hmarks : s.marksFrom x = marks)
    (hmss : s.snd_mss = mss) (hlimit : s.snd_mss - s.options.length = limit)
    (hlater : s.snd_mss - s.options.written.length = later) (hfuel : bytesToSend < fuel) :
    ∃ s', retransmitSegments fuel bytesToSend s = .ok s' ∧ s.SendsNoEmpty s' := by
  induction hplan generalizing s x fuel with
  | done =>
    obtain ⟨fuel, rfl⟩ := exists_eq_succ_of_ne_zero (ne_zero_of_lt hfuel)
    exact ⟨s, rfl, SendsNoEmpty.refl⟩
  | @fin limit bytesToSend marks hdue hleft hsendFin hend =>
    obtain ⟨fuel, rfl⟩ := exists_eq_succ_of_ne_zero (ne_zero_of_lt hfuel)
    subst hmarks hmss hlimit
    obtain ⟨s₁, hsend, hsent⟩ := h.sendSegment_ok (h.asked_pos hdue hleft) hleft
    have hlast := hsent.finSent_iff.mpr ⟨hfin.trans hsendFin, hend⟩
    refine ⟨s₁, ?_, hsent.noEmpty⟩
    rw [retransmitSegments, if_pos hdue, h.getBytesAvailable_eq]
    rw [bind_of_ok hsend, if_pos hlast]
    rfl
  | @next limit bytesToSend marks hdue hleft _ ih =>
    obtain ⟨fuel, rfl⟩ := exists_eq_succ_of_ne_zero (ne_zero_of_lt hfuel)
    subst hmarks hmss hlimit hlater
    have hasked := h.asked_pos hdue hleft
    obtain ⟨s₁, hsend, hsent⟩ := h.sendSegment_ok hasked hleft
    obtain ⟨x₁, h₁, hmarks₁⟩ := hsent.sending h
    have htaken := segmentLength_pos hasked (Nat.sub_pos_of_lt h.mss) hleft
    rw [retransmitSegments, if_pos hdue, h.getBytesAvailable_eq]
    rw [bind_of_ok hsend]
    split
    · exact ⟨s₁, rfl, hsent.noEmpty⟩
    · have hassert : s₁.sentBytes ≤ bytesToSend := by
        rw [hsent.sentBytes]
        exact segmentLength_le.trans ((min_le_left _ _).trans (min_le_left _ _))
      have hfin₁ : s₁.send_fin = send_fin := hsent.send_fin.trans hfin
      have hlimit₁ : s₁.snd_mss - s₁.options.length = s.snd_mss - s.options.written.length := by
        rw [hsent.mss, hsent.options]
      have hlater₁ : s₁.snd_mss - s₁.options.written.length =
          s.snd_mss - s.options.written.length := by
        rw [hsent.mss, hsent.options, HeaderOptions.written_written]
      rw [← hsent.sentBytes] at htaken ih
      obtain ⟨s', hrest, hnoEmpty⟩ := ih h₁ hfin₁ hmarks₁ hsent.mss hlimit₁ hlater₁
        (show bytesToSend - s₁.sentBytes < fuel by omega)
      refine ⟨s', ?_, hsent.noEmpty.trans hnoEmpty⟩
      rw [bind_of_ok (assert_of hassert)]
      exact hrest

theorem plan_of_retransmitSegments (h : s.Sending x)
    (hok : retransmitSegments fuel bytesToSend s = .ok s') :
    Retransmits s.send_fin s.snd_mss (s.snd_mss - s.options.written.length)
      (s.snd_mss - s.options.length) bytesToSend (s.marksFrom x) := by
  induction fuel generalizing s x bytesToSend with
  | zero => cases hok
  | succ fuel ih =>
    rw [retransmitSegments, h.getBytesAvailable_eq] at hok
    split at hok
    · rename_i hdue
      obtain ⟨s₁, hsend, hok⟩ := bind_eq_ok hok
      obtain ⟨-, hleft, hsent⟩ := h.sendSegment_of_ok hsend
      split at hok
      · rename_i hfin
        obtain ⟨hsendFin, hend⟩ := hsent.finSent_iff.mp hfin
        exact .fin hdue hleft hsendFin hend
      · obtain ⟨_, -, hok⟩ := bind_eq_ok hok
        obtain ⟨x₁, h₁, hmarks₁⟩ := hsent.sending h
        have hrest := ih h₁ hok
        rw [hsent.send_fin, hsent.mss, hsent.options, HeaderOptions.written_written, hmarks₁,
          hsent.sentBytes] at hrest
        exact .next hdue hleft hrest
    · rename_i hzero
      obtain rfl := Nat.eq_zero_of_not_pos hzero
      exact .done

/-! ## `sendData` -/

theorem sendSegments_of_plan
    (hplan : SendsSegments s.snd_mss least (s.snd_mss - s.options.length) bytesToSend
      (s.marksFrom x) bytesToSend' marks')
    (h : s.Sending x) (hwritten : s.options.written = s.options) (hpos : 0 < bytesToSend) :
    ∃ s', s.sendSegments least bytesToSend = .ok (bytesToSend', s') ∧ s.Reaches marks' s' := by
  unfold SendsSegments at hplan
  unfold sendSegments
  split_ifs at hplan ⊢
  · obtain ⟨hleft, rfl, rfl⟩ := hplan
    obtain ⟨s', hsend, hsent⟩ := h.sendSegment_ok hpos hleft
    have hassert : s'.sentBytes ≤ bytesToSend := by
      rw [hsent.sentBytes]
      exact segmentLength_le
    refine ⟨s', ?_, hsent.reaches h hwritten⟩
    rw [sendOnlySegment, bind_of_ok hsend, bind_of_ok (assert_of hassert), hsent.sentBytes]
    rfl
  · exact sendWholeSegments_of_plan hplan h rfl hwritten rfl rfl (lt_succ_self bytesToSend)

theorem plan_of_sendSegments (h : s.Sending x) (hwritten : s.options.written = s.options)
    (hok : s.sendSegments least bytesToSend = .ok (bytesToSend', s')) :
    ∃ marks', SendsSegments s.snd_mss least (s.snd_mss - s.options.length) bytesToSend
      (s.marksFrom x) bytesToSend' marks' := by
  unfold SendsSegments
  unfold sendSegments at hok
  split_ifs at hok ⊢
  · obtain ⟨s₁, hsend, hok⟩ := bind_eq_ok hok
    obtain ⟨_, -, hok⟩ := bind_eq_ok hok
    obtain ⟨-, hleft, hsent⟩ := h.sendSegment_of_ok hsend
    obtain ⟨rfl, rfl⟩ := Prod.mk.inj (Except.ok.inj hok)
    exact ⟨_, hleft, by rw [hsent.sentBytes], rfl⟩
  · exact plan_of_sendWholeSegments h hwritten hok

theorem allowsLast_of_ok (h : s.Sending x) (hok : s.sendLastSegment bytesToSend = .ok s') :
    AllowsLast bytesToSend (s.marksFrom x) := by
  intro hlength hmarks
  have hne : (s.marksFrom x).length ≠ 0 := fun hzero ↦ hmarks (length_eq_zero_iff.mp hzero)
  unfold sendLastSegment at hok
  rw [h.getBytesAvailable_eq] at hok
  rw [if_pos ⟨hlength, hne⟩] at hok
  exact (h.sendSegment_of_ok hok).2.1

theorem sendLastSegment_ok (h : s.Sending x) (hallows : AllowsLast bytesToSend (s.marksFrom x)) :
    ∃ s', s.sendLastSegment bytesToSend = .ok s' ∧ s.SendsNoEmpty s' := by
  unfold sendLastSegment
  dsimp only
  rw [h.getBytesAvailable_eq]
  split_ifs with hdue
  · obtain ⟨rfl, hne⟩ := hdue
    have hmarks : s.marksFrom x ≠ [] := fun hnil ↦ hne (by rw [hnil, length_nil])
    obtain ⟨s', hsend, hsent⟩ := h.sendSegment_ok (pos_of_ne_zero hne) (hallows rfl hmarks)
    exact ⟨s', hsend, hsent.noEmpty⟩
  · exact ⟨s, rfl, SendsNoEmpty.refl⟩

/-- `sendBytes` first writes the options of a temporary header. -/
def withWritten (s : Sender α) : Sender α := { s with options := s.options.written }

theorem Sending.withWritten (h : s.Sending x) : s.withWritten.Sending x where
  nxt := h.nxt
  nxt_le := h.nxt_le
  max_le := h.max_le
  queue := h.queue
  fin := h.fin
  rexmit hsack := by
    obtain ⟨hvalid, hbegin, hcovers, hle, hle_max⟩ :=
      h.rexmit (s.options.sack_enabled_written.symm.trans hsack)
    exact ⟨hvalid, hbegin, hcovers, hle, hle_max⟩
  mss := h.mss_later
  mss_later := by
    change s.options.written.written.length < _
    rw [s.options.written_written]
    exact h.mss_later

theorem marksFrom_withWritten : s.withWritten.marksFrom x = s.marksFrom x := by
  have hsame : s.withWritten.isPassedOver = s.isPassedOver := by
    funext p
    change (s.options.written.sack_enabled && _ && _) = _
    rw [s.options.sack_enabled_written]
    rfl
  unfold marksFrom
  rw [hsame]
  rfl

theorem sent_withMax : s.withMax.sent = s.sent := by
  unfold withMax
  split_ifs <;> rfl

theorem sendBytes_iff {fullSegmentsOnly : Bool} (h : s.Sending x) (hpos : 0 < bytesToSend) :
    (∃ result, s.sendBytes fullSegmentsOnly bytesToSend = .ok result ∧
        s.SendsNoEmpty result.2) ↔
      (fullSegmentsOnly ∧ bytesToSend < s.snd_mss - s.options.length) ∨
        ∃ bytesToSend' marks', SendsSegments s.snd_mss (s.snd_mss - s.options.length)
          (s.snd_mss - s.options.written.length) bytesToSend (s.marksFrom x) bytesToSend' marks' ∧
          AllowsLast bytesToSend' marks' := by
  have h₁ := h.withWritten
  have hwritten : s.withWritten.options.written = s.withWritten.options :=
    s.options.written_written
  have hmarks : s.withWritten.marksFrom x = s.marksFrom x := marksFrom_withWritten
  unfold sendBytes
  dsimp only
  rw [bind_of_ok (assert_of h.mss)]
  split_ifs with hfull
  · exact iff_of_true ⟨_, rfl, [], by simp, by simp⟩ (.inl hfull)
  rw [bind_of_ok (assert_of hpos), or_iff_right hfull, ← hmarks]
  change (∃ result : Bool × Sender α,
    (s.withWritten.sendSegments (s.snd_mss - s.options.length) bytesToSend >>= _) =
    .ok result ∧ s.withWritten.SendsNoEmpty result.2) ↔ _
  constructor
  · rintro ⟨result, hok, -⟩
    obtain ⟨⟨bytesToSend', s₂⟩, hsegments, hok⟩ := bind_eq_ok hok
    obtain ⟨s₃, hlast, -⟩ := bind_eq_ok hok
    obtain ⟨marks', hplan⟩ := plan_of_sendSegments h₁ hwritten hsegments
    obtain ⟨s₂', hsegments', ⟨x₂, h₂, hmarks₂⟩, -, -, -⟩ :=
      sendSegments_of_plan hplan h₁ hwritten hpos
    obtain ⟨-, rfl⟩ := Prod.mk.inj (Except.ok.inj (hsegments.symm.trans hsegments'))
    exact ⟨bytesToSend', marks', hplan, hmarks₂ ▸ allowsLast_of_ok h₂ hlast⟩
  · rintro ⟨bytesToSend', marks', hplan, hallows⟩
    obtain ⟨s₂, hsegments, ⟨x₂, h₂, rfl⟩, -, -, hnoEmpty⟩ :=
      sendSegments_of_plan hplan h₁ hwritten hpos
    obtain ⟨s₃, hlast, hnoEmpty'⟩ := sendLastSegment_ok h₂ hallows
    refine ⟨(true, s₃.withMax), ?_, ?_⟩
    · rw [bind_of_ok hsegments]
      exact bind_of_ok hlast
    · obtain ⟨segments, hsent, hall⟩ := hnoEmpty.trans hnoEmpty'
      exact ⟨segments, sent_withMax.trans hsent, hall⟩

/-! ## The calls -/

section Calls

variable (s)

/-- The sequence numbers of a sender, with less than half of the ring in the send queue.  The
retransmission queue covers the data that was sent, with or without the FIN. -/
structure SequenceInvariant : Prop where
  queue : s.sendQueue.Valid
  una_le : distance s.sendQueue.begin s.snd_una ≤ distance s.sendQueue.begin s.snd_nxt
  nxt_le : distance s.sendQueue.begin s.snd_nxt ≤ distance s.sendQueue.begin s.snd_max
  max_le : distance s.sendQueue.begin s.snd_max ≤ s.sendQueue.dataBuffer.length ∨
    s.send_fin ∧ distance s.sendQueue.begin s.snd_max = s.sendQueue.dataBuffer.length + 1
  una : s.snd_una = s.sendQueue.begin ∨
    s.sendQueue.dataBuffer = [] ∧ distance s.sendQueue.begin s.snd_una = 1
  fin : s.send_fin → s.snd_fin_seq = s.sendQueue.end
  rexmit : s.options.sack_enabled → s.rexmitQueue.Valid ∧
    s.rexmitQueue.begin = s.sendQueue.begin ∧ (s.rexmitQueue.end = s.snd_max ∨
      distance s.sendQueue.begin s.snd_max = s.sendQueue.dataBuffer.length + 1 ∧
        s.rexmitQueue.end = s.sendQueue.end)

/-- When `sendData` has a byte for each segment that is due, and no segment is longer than what is
left to send. -/
def MaySend (fullSegmentsOnly : Bool) (congestionWindow : ℕ) : Prop :=
  let marks := s.fromMax.marksFrom (distance s.sendQueue.begin s.fromMax.snd_nxt)
  let effectiveWin := s.fromMax.effectiveWin congestionWindow
  let bytesToSend := min effectiveWin.toNat marks.length
  (marks = [] ∨ effectiveWin ≤ 0) ∨
    (fullSegmentsOnly ∧ bytesToSend < s.snd_mss - s.options.length) ∨
    ∃ bytesToSend' marks', SendsSegments s.snd_mss (s.snd_mss - s.options.length)
      (s.snd_mss - s.options.written.length) bytesToSend marks bytesToSend' marks' ∧
      AllowsLast bytesToSend' marks'

/-- When something is outstanding, and `retransmitData` has a byte for each segment that is due. -/
def MayRetransmit : Prop :=
  if s.snd_una = s.snd_max then s.send_fin = true
  else Retransmits s.send_fin s.snd_mss (s.snd_mss - s.options.written.length)
    (s.snd_mss - s.options.length) (distance s.snd_una s.snd_max) (s.marksFrom 0)

end Calls

/-- The same state, sending from another position. -/
def fromPosition (s : Sender α) (x : ℕ) : Sender α :=
  { s with snd_nxt := advance s.sendQueue.begin x }

/-- A state from which a segment is sent at `x`. -/
theorem SequenceInvariant.sending (h : s.SequenceInvariant) (hmss : s.options.length < s.snd_mss)
    (hlater : s.options.written.length < s.snd_mss) (hx : x ≤ s.sendQueue.dataBuffer.length)
    (hmax : x ≤ distance s.sendQueue.begin s.snd_max) :
    (s.fromPosition x).Sending x where
  nxt := rfl
  nxt_le := le_succ_of_le hx
  max_le := by
    rcases h.max_le with hle | ⟨-, heq⟩
    · exact le_succ_of_le hle
    · exact heq.le
  queue := h.queue
  fin := h.fin
  rexmit hsack := by
    obtain ⟨hvalid, hbegin, hend⟩ := h.rexmit hsack
    have hbound := hvalid.bound
    have hlength : distance s.sendQueue.begin s.rexmitQueue.end =
        s.rexmitQueue.byteMap.bytes.length := by
      rw [hvalid.end_eq, ← hbegin]
      exact distance_advance_of_lt (by omega)
    have hqueue : distance s.sendQueue.begin s.sendQueue.end = s.sendQueue.dataBuffer.length := by
      have hbound' := h.queue.bound
      rw [h.queue.end_eq]
      exact distance_advance_of_lt (by omega)
    have hmax_le := h.max_le
    rcases hend with hend | ⟨hfin, hend⟩
    · rw [hend] at hlength
      refine ⟨hvalid, hbegin, ?_, ?_, fun _ ↦ hlength.symm.le⟩
      · change x ≤ s.rexmitQueue.byteMap.bytes.length
        omega
      · change s.rexmitQueue.byteMap.bytes.length ≤ s.sendQueue.dataBuffer.length + 1
        omega
    · rw [hend, hqueue] at hlength
      refine ⟨hvalid, hbegin, ?_, ?_, fun _ ↦ ?_⟩
      · change x ≤ s.rexmitQueue.byteMap.bytes.length
        omega
      · change s.rexmitQueue.byteMap.bytes.length ≤ s.sendQueue.dataBuffer.length + 1
        omega
      · change s.rexmitQueue.byteMap.bytes.length ≤ distance s.sendQueue.begin s.snd_max
        omega
  mss := hmss
  mss_later := hlater

/-- `sendData` starts at a position up to `snd_max`. -/
theorem SequenceInvariant.fromMax_le (h : s.SequenceInvariant) :
    distance s.sendQueue.begin s.fromMax.snd_nxt ≤ distance s.sendQueue.begin s.snd_max := by
  unfold Sender.fromMax
  split_ifs
  · exact h.nxt_le
  · exact le_rfl

theorem fromMax_eq :
    s.fromMax = s.fromPosition (distance s.sendQueue.begin s.fromMax.snd_nxt) := by
  rw [fromPosition, advance_distance]
  unfold fromMax
  split_ifs <;> rfl

theorem sendData_iff (h : s.SequenceInvariant) (hmss : s.options.length < s.snd_mss)
    (hlater : s.options.written.length < s.snd_mss) (fullSegmentsOnly : Bool)
    (congestionWindow : ℕ) :
    (∃ result, s.sendData fullSegmentsOnly congestionWindow = .ok result ∧
        s.SendsNoEmpty result.2) ↔ s.MaySend fullSegmentsOnly congestionWindow := by
  obtain ⟨x, hx⟩ : ∃ x, distance s.sendQueue.begin s.fromMax.snd_nxt = x := ⟨_, rfl⟩
  have hmax := h.fromMax_le
  have hmax_le := h.max_le
  have hstate : s.fromMax = s.fromPosition x := hx ▸ fromMax_eq
  rw [hx] at hmax
  unfold MaySend sendData
  rw [hx, hstate]
  dsimp only
  have hbuffered : (s.fromPosition x).sendQueue.getBytesAvailable (s.fromPosition x).snd_nxt =
      ((s.fromPosition x).marksFrom x).length := by
    rw [length_marksFrom]
    exact h.queue.getBytesAvailable_advance (by omega)
  rw [hbuffered]
  split_ifs with hnone <;> rw [length_eq_zero_iff] at hnone
  · exact iff_of_true ⟨_, rfl, [], by simp [fromPosition], by simp⟩ (.inl hnone)
  · rw [or_iff_right hnone]
    obtain ⟨hmarks, hwindow⟩ := not_or.mp hnone
    have hpos := length_pos_iff.mpr hmarks
    have hle : x < s.sendQueue.dataBuffer.length := by
      rw [length_marksFrom] at hpos
      change 0 < s.sendQueue.dataBuffer.length - x at hpos
      omega
    exact sendBytes_iff (h.sending hmss hlater hle.le hmax) (by omega)

theorem distance_eq_zero_iff {a b : SeqNum} : distance a b = 0 ↔ a = b := by
  constructor
  · intro hzero
    have hadvance := advance_distance a b
    rwa [hzero, advance_zero] at hadvance
  · rintro rfl
    exact distance_self a

/-- If something is outstanding, the FIN is not acknowledged. -/
theorem SequenceInvariant.una_eq (h : s.SequenceInvariant) (hne : s.snd_una ≠ s.snd_max) :
    s.snd_una = s.sendQueue.begin := by
  refine h.una.resolve_right ?_
  rintro ⟨hnil, hone⟩
  have hmax_le := h.max_le
  have hle := h.una_le.trans h.nxt_le
  rw [hnil, length_nil] at hmax_le
  apply hne
  rw [← advance_distance s.sendQueue.begin s.snd_una,
    ← advance_distance s.sendQueue.begin s.snd_max]
  congr 1
  omega

theorem retransmitData_iff (h : s.SequenceInvariant) (hmss : s.options.length < s.snd_mss)
    (hlater : s.options.written.length < s.snd_mss) :
    (∃ s', s.retransmitData = .ok s' ∧ s.SendsNoEmpty s') ↔ s.MayRetransmit := by
  unfold MayRetransmit retransmitData
  dsimp only
  split_ifs with hfin hsame hsame
  · obtain ⟨-, hsendFin, -⟩ := hfin
    exact iff_of_true ⟨_, rfl, _, rfl, by simp⟩ hsendFin
  · exact absurd (distance_eq_zero_iff.mp hfin.1) hsame
  · -- nothing is outstanding
    have hzero : distance s.snd_una s.snd_max = 0 := distance_eq_zero_iff.mpr hsame
    rw [hzero]
    refine iff_of_false ?_ fun hsendFin ↦ hfin ⟨hzero, hsendFin, h.fin hsendFin⟩
    rintro ⟨s', hok, -⟩
    cases hok
  · have hpos : distance s.snd_una s.snd_max ≠ 0 := fun hzero ↦
      hsame (distance_eq_zero_iff.mp hzero)
    have hsending := h.sending hmss hlater (zero_le _) (zero_le _)
    rw [bind_of_ok (assert_of hpos)]
    have hstate : ({ s with snd_nxt := s.snd_una } : Sender α) = s.fromPosition 0 := by
      rw [fromPosition, advance_zero, h.una_eq hsame]
    rw [hstate]
    constructor
    · rintro ⟨s', hok, -⟩
      have hplan := plan_of_retransmitSegments hsending hok
      exact hplan
    · intro hplan
      exact retransmitSegments_of_plan hplan hsending rfl rfl rfl rfl rfl (lt_succ_self _)

/-- `sendData` and `retransmitData` return, and every segment that they send carries a byte or the
FIN, if and only if there is a byte left for each segment that is due. -/
theorem sends_iff (h : s.SequenceInvariant) (hmss : s.options.length < s.snd_mss)
    (hlater : s.options.written.length < s.snd_mss) :
    (∀ fullSegmentsOnly congestionWindow,
      (∃ result, s.sendData fullSegmentsOnly congestionWindow = .ok result ∧
        s.SendsNoEmpty result.2) ↔ s.MaySend fullSegmentsOnly congestionWindow) ∧
      ((∃ s', s.retransmitData = .ok s' ∧ s.SendsNoEmpty s') ↔ s.MayRetransmit) :=
  ⟨sendData_iff h hmss hlater, retransmitData_iff h hmss hlater⟩

/-- A sender with the data from sequence number 4 to 10 outstanding after a timeout: the first two
bytes were sent again, and the other ones are sacked. -/
def allForwarded : Sender ℕ where
  snd_mss := 2
  snd_una := 4
  snd_nxt := 6
  snd_max := 10
  snd_wnd := 100
  send_fin := false
  snd_fin_seq := 0
  sentBytes := 2
  afterRto := true
  options := ⟨.established, false, true, false, false, 0⟩
  sendQueue := ⟨4, 10, [4, 5, 6, 7, 8, 9]⟩
  rexmitQueue := ⟨[⟨4, 6, false, true⟩, ⟨6, 10, true, false⟩], 4, 10⟩
  sent := []

theorem sequenceInvariant_allForwarded : allForwarded.SequenceInvariant where
  queue := ⟨by decide, by decide⟩
  una_le := by decide
  nxt_le := by decide
  max_le := by decide
  una := by decide
  fin := by decide
  rexmit _ := ⟨⟨by decide, by decide⟩, by decide, by decide⟩

/-- A sender whose FIN only is outstanding. -/
def finOutstanding : Sender ℕ where
  snd_mss := 2
  snd_una := 10
  snd_nxt := 11
  snd_max := 11
  snd_wnd := 100
  send_fin := true
  snd_fin_seq := 10
  sentBytes := 2
  afterRto := false
  options := ⟨.finWait1, false, false, false, false, 0⟩
  sendQueue := ⟨10, 10, []⟩
  rexmitQueue := .initial
  sent := []

theorem sequenceInvariant_finOutstanding : finOutstanding.SequenceInvariant where
  queue := ⟨by decide, by decide⟩
  una_le := by decide
  nxt_le := by decide
  max_le := by decide
  una := by decide
  fin := by decide
  rexmit hsack := by cases hsack

theorem sends_iff_allForwarded :
    (∀ fullSegmentsOnly congestionWindow,
      (∃ result, allForwarded.sendData fullSegmentsOnly congestionWindow = .ok result ∧
        allForwarded.SendsNoEmpty result.2) ↔
          allForwarded.MaySend fullSegmentsOnly congestionWindow) ∧
      ((∃ s', allForwarded.retransmitData = .ok s' ∧ allForwarded.SendsNoEmpty s') ↔
        allForwarded.MayRetransmit) :=
  sends_iff sequenceInvariant_allForwarded (by decide) (by decide)

/-- Two segments are due, but all the bytes are sacked; and of a FIN alone no segment can be
made. -/
theorem not_sends_allForwarded :
    (allForwarded.SequenceInvariant ∧ allForwarded.options.length < allForwarded.snd_mss ∧
      ¬∃ result, allForwarded.sendData false 6 = .ok result ∧
        allForwarded.SendsNoEmpty result.2) ∧
    (finOutstanding.SequenceInvariant ∧ finOutstanding.options.length < finOutstanding.snd_mss ∧
      ¬∃ s', finOutstanding.retransmitData = .ok s' ∧ finOutstanding.SendsNoEmpty s') := by
  have hsend : allForwarded.sendData false 6 = .error .runtimeError := by decide
  have hretransmit : finOutstanding.retransmitData = .error .runtimeError := by decide
  refine ⟨⟨sequenceInvariant_allForwarded, by decide, ?_⟩, sequenceInvariant_finOutstanding,
    by decide, ?_⟩
  · rintro ⟨result, hok, -⟩
    rw [hsend] at hok
    cases hok
  · rintro ⟨s', hok, -⟩
    rw [hretransmit] at hok
    cases hok

end Sender

end Inet4.Tcp
