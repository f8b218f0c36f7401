import Inet4.Packet.WholeBytes
import Inet4.Tcp.SeqNum

/-!
# The send queue of a TCP connection

`TcpSendQueue` keeps the data of the application in a queue of chunks and names its bytes by
sequence numbers.  A segment is cut out at the offset that the difference of two sequence numbers
gives.  The number of bytes in the queue is less than half of the ring, the number that were ever
queued is not bounded.
-/

namespace Inet4.Tcp

open List Nat
open Packet (structuralEq ServesPart AdmitsPart replyContent exists_step)

open Packet (AllValid Bit Chunk ChunkQueue PointerEq Sound WholeBytes)

structure TcpSendQueue where
  /-- The sequence number of the first byte stored. -/
  begin : SeqNum
  /-- The sequence number of the last byte stored, plus one. -/
  «end» : SeqNum
  dataBuffer : ChunkQueue
deriving DecidableEq

namespace TcpSendQueue

/-- `init` of a new queue. -/
def init (startSeq : SeqNum) : TcpSendQueue := ⟨startSeq, startSeq, .initial⟩

section Operations

variable (ptr : PointerEq) (debug : Bool) (q : TcpSendQueue)

/-- `getByteLength` of a packet with the given data. -/
def byteLength (data : Chunk) : ℕ := (data.getChunkLength + 7) / 8

/-- The data of the packet is what `peekDataAt` returns. -/
def enqueueAppData (data : Chunk) : Except Fault TcpSendQueue := do
  let dataBuffer ← q.dataBuffer.push ptr debug data
  let «end» := advance q.end (byteLength data)
  throwIf (seqLess «end» q.begin) .runtimeError
  return { q with dataBuffer, «end» }

def getBytesAvailable (fromSeq : SeqNum) : ℕ :=
  if seqLess fromSeq q.end then distance fromSeq q.end else 0

/-- The payload of the segment. -/
def createSegmentWithBytes (fromSeq : SeqNum) (numBytes : ℕ) : Except Fault Chunk := do
  assert (seqLE q.begin fromSeq ∧ seqLE (advance fromSeq numBytes) q.end)
  match ← q.dataBuffer.peekAt ptr debug (8 * distance q.begin fromSeq) (8 * numBytes : ℕ)
    ⟨false, false⟩ with
  | some payload => return payload
  | none => .error .undefinedBehaviour

def discardUpTo (seqNum : SeqNum) : Except Fault TcpSendQueue := do
  assert (seqLE q.begin seqNum ∧ seqLE seqNum q.end)
  if seqNum ≠ q.begin then
    let (dataBuffer, _) ← q.dataBuffer.pop ptr debug (8 * distance q.begin seqNum : ℕ)
      ⟨false, false⟩
    return { q with dataBuffer, begin := seqNum }
  else return q

end Operations

/-! ## The queue and its users -/

inductive Call
  | enqueueAppData (data : Chunk)
  | createSegmentWithBytes (fromSeq : SeqNum) (numBytes : ℕ)
  | discardUpTo (seqNum : SeqNum)

/-- A queue, the stream of the application so far, the number of its bytes that were discarded, and
the content of the last segment. -/
structure History where
  queue : TcpSendQueue
  appData : List Bit
  discarded : ℕ
  segment : List Bit
deriving DecidableEq

namespace History

def initial (startSeq : SeqNum) : History := ⟨init startSeq, [], 0, []⟩

variable (s : History)

/-- The number of bytes of the stream. -/
def bytes : ℕ := s.appData.length / 8

/-- The place in the stream of the byte with a sequence number. -/
def position (fromSeq : SeqNum) : ℕ := s.discarded + distance s.queue.begin fromSeq

/-- The bytes of a segment are in the queue. -/
def InRange (fromSeq : SeqNum) (numBytes : ℕ) : Prop :=
  seqLE s.queue.begin fromSeq ∧
    distance s.queue.begin fromSeq + numBytes ≤ distance s.queue.begin s.queue.end

/-- The calls that are admitted: whole bytes are queued, less than half of the ring at a time, and
the other calls stay within the queue. -/
def Admitted : Call → Prop
  | .enqueueAppData data =>
    AllValid data.elements ∧ data.elements ≠ [] ∧ data.getChunkLength % 8 = 0 ∧
      distance s.queue.begin s.queue.end + byteLength data < 2 ^ 31
  | .createSegmentWithBytes fromSeq numBytes => s.InRange fromSeq numBytes
  | .discardUpTo seqNum => seqLE s.queue.begin seqNum ∧ seqLE seqNum s.queue.end

instance (fromSeq : SeqNum) (numBytes : ℕ) : Decidable (s.InRange fromSeq numBytes) :=
  inferInstanceAs (Decidable (_ ∧ _))

/-- The call cuts no byte of a count of bytes. -/
def CutsNoByte (offset numBytes : ℕ) : Prop :=
  ServesPart s.queue.dataBuffer (8 * offset) (8 * numBytes : ℕ)

/-- A segment is not empty, and no call cuts a byte of a count of bytes. -/
def Served : Call → Prop
  | .enqueueAppData _ => True
  | .createSegmentWithBytes fromSeq numBytes =>
    0 < numBytes ∧ s.CutsNoByte (distance s.queue.begin fromSeq) numBytes
  | .discardUpTo seqNum => s.CutsNoByte 0 (distance s.queue.begin seqNum)

instance (call : Call) : Decidable (s.Admitted call) :=
  match call with
  | .enqueueAppData _ | .createSegmentWithBytes .. | .discardUpTo _ =>
    inferInstanceAs (Decidable (_ ∧ _))

instance (call : Call) : Decidable (s.Served call) :=
  match call with
  | .enqueueAppData _ => isTrue trivial
  | .createSegmentWithBytes .. => inferInstanceAs (Decidable (_ ∧ ServesPart ..))
  | .discardUpTo _ => inferInstanceAs (Decidable (ServesPart ..))

end History

def machine (ptr : PointerEq) (debug : Bool) : Machine History Call Fault where
  Enabled s call := s.Admitted call
  handle s call :=
    match call with
    | .enqueueAppData data => do
      let queue ← s.queue.enqueueAppData ptr debug data
      return { s with queue, appData := s.appData ++ data.content }
    | .createSegmentWithBytes fromSeq numBytes => do
      let payload ← s.queue.createSegmentWithBytes ptr debug fromSeq numBytes
      return { s with segment := payload.content }
    | .discardUpTo seqNum => do
      let queue ← s.queue.discardUpTo ptr debug seqNum
      return { s with queue, discarded := s.discarded + distance s.queue.begin seqNum }

instance (ptr : PointerEq) (debug : Bool) (s : History) (call : Call) :
    Decidable ((machine ptr debug).Enabled s call) := inferInstanceAs (Decidable (s.Admitted call))

/-- The queue names the bytes of the stream from those on that were discarded. -/
structure Names (startSeq : SeqNum) (s : History) : Prop where
  sound : Sound ⟨s.queue.dataBuffer, s.appData, s.appData.take (8 * s.discarded), none⟩
  whole : s.appData.length = 8 * s.bytes
  discarded_le : s.discarded ≤ s.bytes
  bound : s.bytes - s.discarded < 2 ^ 31
  begin_eq : s.queue.begin = advance startSeq s.discarded
  end_eq : s.queue.end = advance startSeq s.bytes

variable {ptr : PointerEq} {debug : Bool} {startSeq fromSeq seqNum : SeqNum} {s : History}
variable {numBytes : ℕ}

theorem Names.distance_eq (h : Names startSeq s) :
    distance s.queue.begin s.queue.end = s.bytes - s.discarded := by
  have hle := h.discarded_le
  have hbound := h.bound
  rw [h.begin_eq, h.end_eq, distance_advance_advance hle (by omega)]

/-- The data buffer stores the stream from the discarded bytes on. -/
theorem Names.stored_eq (h : Names startSeq s) :
    s.queue.dataBuffer.stored = s.appData.drop (8 * s.discarded) ∧
      s.queue.dataBuffer.getLength = (8 * (s.bytes - s.discarded) : ℕ) := by
  have hstream := h.sound.fifo.stream
  have hle := h.discarded_le
  have hwhole := h.whole
  have hstored : s.queue.dataBuffer.stored = s.appData.drop (8 * s.discarded) := by
    refine append_cancel_left (hstream.trans ?_)
    exact (take_append_drop (8 * s.discarded) s.appData).symm
  refine ⟨hstored, ?_⟩
  rw [← ChunkQueue.length_stored h.sound.valid, hstored, length_drop]
  congr 1
  omega

/-- A sequence number in the queue is that of a byte of the stream. -/
theorem Names.eq_advance (h : Names startSeq s) (fromSeq : SeqNum) :
    fromSeq = advance startSeq (s.position fromSeq) := by
  rw [History.position, ← advance_advance, ← h.begin_eq, advance_distance]

theorem Names.getBytesAvailable_eq (h : Names startSeq s) (hfrom : seqLE s.queue.begin fromSeq) :
    s.queue.getBytesAvailable fromSeq = s.bytes - s.position fromSeq := by
  have hle := h.discarded_le
  have hbound := h.bound
  have hat := h.eq_advance fromSeq
  have hnear : distance s.queue.begin fromSeq < 2 ^ 31 := hfrom
  rw [History.position] at hat ⊢
  rw [getBytesAvailable, h.end_eq]
  by_cases hless : s.discarded + distance s.queue.begin fromSeq < s.bytes
  · have hpos : seqLess fromSeq (advance startSeq s.bytes) := by
      rw [hat]
      exact (seqLess_advance_iff (by omega) (by omega)).mpr hless
    rw [if_pos hpos, hat, distance_advance_advance (le_of_lt hless) (by omega), ← hat]
  · have hnot : ¬seqLess fromSeq (advance startSeq s.bytes) := by
      rw [hat]
      exact mt (seqLess_advance_iff (by omega) (by omega)).mp hless
    rw [if_neg hnot, Nat.sub_eq_zero_of_le (Nat.le_of_not_lt hless)]

/-- A segment consists of the bytes of the stream from the place of its sequence number on. -/
theorem Names.exists_segment (h : Names startSeq s) (ptr : PointerEq) (debug : Bool)
    (hrange : s.InRange fromSeq numBytes)
    (hserved : s.Served (.createSegmentWithBytes fromSeq numBytes)) :
    ∃ payload, s.queue.createSegmentWithBytes ptr debug fromSeq numBytes = .ok payload ∧
      payload.content = (s.appData.drop (8 * s.position fromSeq)).take (8 * numBytes) := by
  have hle := h.discarded_le
  have hbound := h.bound
  have hrange' := hrange.2
  obtain ⟨hstored, hlength⟩ := h.stored_eq
  rw [h.distance_eq] at hrange'
  have hassert : seqLE s.queue.begin fromSeq ∧
      seqLE (advance fromSeq numBytes) s.queue.end := by
    refine ⟨hrange.1, ?_⟩
    rw [h.eq_advance fromSeq, advance_advance, h.end_eq, History.position,
      seqLE_advance_iff (by omega) (by omega)]
    omega
  have hadmits : AdmitsPart s.queue.dataBuffer (8 * distance s.queue.begin fromSeq)
      (8 * numBytes : ℕ) ⟨false, false⟩ := by
    have hpos := hserved.1
    rw [AdmitsPart, hlength]
    refine ⟨by omega, by omega, by omega, ?_⟩
    rintro (hzero | hall) <;> omega
  obtain ⟨reply, hpeek, hprefix, hcount⟩ :=
    ChunkQueue.peekAt_eq ptr debug h.sound.valid hadmits hserved.2
  rw [if_neg (by omega)] at hcount
  rw [hstored, drop_drop] at hprefix
  have hcontent : replyContent reply =
      (s.appData.drop (8 * s.position fromSeq)).take (8 * numBytes) := by
    rw [prefix_iff_eq_take.mp hprefix, Int.natCast_inj.mp hcount, History.position,
      mul_add]
  have hpos := hserved.1
  cases reply with
  | none =>
    have hzero : ((0 : ℕ) : ℤ) = (8 * numBytes : ℕ) := hcount
    omega
  | some payload =>
    refine ⟨payload, ?_, hcontent⟩
    rw [createSegmentWithBytes, bind_of_ok (assert_of hassert), bind_of_ok hpeek]
    rfl

theorem names_initial (startSeq : SeqNum) : Names startSeq (.initial startSeq) where
  sound := Packet.sound_initial
  whole := by simp [History.initial, History.bytes]
  discarded_le := zero_le _
  bound := by simp [History.initial, History.bytes]
  begin_eq := (advance_zero startSeq).symm
  end_eq := by simp [History.initial, History.bytes, init]

/-- Queued data is appended to the stream. -/
theorem Names.exists_enqueued (h : Names startSeq s) (ptr : PointerEq) (debug : Bool) {data : Chunk}
    (hadmitted : s.Admitted (.enqueueAppData data)) :
    ∃ queue, s.queue.enqueueAppData ptr debug data = .ok queue ∧
      Names startSeq { s with queue, appData := s.appData ++ data.content } := by
  have hle := h.discarded_le
  have hbound := h.bound
  have hwhole := h.whole
  obtain ⟨hvalid, hne, hbytes, hroom⟩ := hadmitted
  rw [h.distance_eq, byteLength] at hroom
  have hadmits : Packet.Admitted
      ⟨s.queue.dataBuffer, s.appData, s.appData.take (8 * s.discarded), none⟩ (.push data) :=
    ⟨hvalid, hne⟩
  have hserved : Packet.Served debug
      ⟨s.queue.dataBuffer, s.appData, s.appData.take (8 * s.discarded), none⟩ (.push data) :=
        trivial
  obtain ⟨t, hstep, hsound, -⟩ := exists_step ptr h.sound hadmits hserved
  obtain ⟨dataBuffer, hpush, rfl⟩ := bind_pure_eq_ok hstep.2
  have hlength : (s.appData ++ data.content).length = 8 * (s.bytes + byteLength data) := by
    rw [length_append, Packet.length_content hvalid, byteLength]
    omega
  have hcount : (s.appData ++ data.content).length / 8 = s.bytes + byteLength data := by
    rw [hlength, Nat.mul_div_cancel_left _ (by omega)]
  have hend : advance s.queue.end (byteLength data) =
      advance startSeq (s.bytes + byteLength data) := by rw [h.end_eq, advance_advance]
  have hnot : ¬seqLess (advance s.queue.end (byteLength data)) s.queue.begin := by
    rw [hend, h.begin_eq, byteLength, seqLess_advance_iff (by omega) (by omega)]
    omega
  have htake : (s.appData ++ data.content).take (8 * s.discarded) =
      s.appData.take (8 * s.discarded) := take_append_of_le_length (by omega)
  refine ⟨⟨s.queue.begin, advance s.queue.end (byteLength data), dataBuffer⟩, ?_, ?_, ?_, ?_, ?_,
    h.begin_eq, ?_⟩
  · rw [enqueueAppData, bind_of_ok hpush]
    simp only [bind_of_ok (throwIf_of_not hnot)]
    rfl
  · simp only [htake]
    exact hsound
  · exact hlength.trans (congrArg _ hcount.symm)
  · exact le_trans hle (le_trans (le_add_right _ _) (le_of_eq hcount.symm))
  · change (s.appData ++ data.content).length / 8 - s.discarded < 2 ^ 31
    rw [hcount, byteLength]
    omega
  · exact hend.trans (congrArg _ hcount.symm)

/-- What is discarded was queued. -/
theorem Names.discarded_add_le (h : Names startSeq s)
    (hadmitted : s.Admitted (.discardUpTo seqNum)) :
    s.discarded + distance s.queue.begin seqNum ≤ s.bytes := by
  have hle := h.discarded_le
  have hbound := h.bound
  have hnear : distance s.queue.begin seqNum < 2 ^ 31 := hadmitted.1
  have hto : seqLE seqNum s.queue.end := hadmitted.2
  rw [h.eq_advance seqNum, h.end_eq, History.position,
    seqLE_advance_iff (by omega) (by omega)] at hto
  exact hto

theorem Names.admitsPart_discarded (h : Names startSeq s)
    (hadmitted : s.Admitted (.discardUpTo seqNum)) (hmoves : seqNum ≠ s.queue.begin) :
    AdmitsPart s.queue.dataBuffer 0 (8 * distance s.queue.begin seqNum : ℕ) ⟨false, false⟩ := by
  have hwithin := h.discarded_add_le hadmitted
  have hpos : 0 < distance s.queue.begin seqNum := by
    apply pos_of_ne_zero
    intro hzero
    have hself := advance_distance s.queue.begin seqNum
    rw [hzero, advance_zero] at hself
    exact hmoves hself.symm
  rw [AdmitsPart, h.stored_eq.2]
  refine ⟨by omega, by omega, by omega, ?_⟩
  rintro (hzero | hall) <;> omega

/-- Discarding moves the begin of the queue along the stream. -/
theorem Names.exists_discarded (h : Names startSeq s) (ptr : PointerEq) (debug : Bool)
    (hadmitted : s.Admitted (.discardUpTo seqNum)) (hserved : s.Served (.discardUpTo seqNum)) :
    ∃ queue, s.queue.discardUpTo ptr debug seqNum = .ok queue ∧
      Names startSeq
        { s with queue, discarded := s.discarded + distance s.queue.begin seqNum } := by
  have hbound := h.bound
  have hat := h.eq_advance seqNum
  have hwithin := h.discarded_add_le hadmitted
  obtain ⟨hstored, -⟩ := h.stored_eq
  have hassert : seqLE s.queue.begin seqNum ∧ seqLE seqNum s.queue.end := hadmitted
  rw [discardUpTo, bind_of_ok (assert_of hassert)]
  by_cases hmoves : seqNum ≠ s.queue.begin
  · have hadmits : Packet.Admitted
        ⟨s.queue.dataBuffer, s.appData, s.appData.take (8 * s.discarded), none⟩
        (.pop (8 * distance s.queue.begin seqNum : ℕ) ⟨false, false⟩) :=
      h.admitsPart_discarded hadmitted hmoves
    have hserves : Packet.Served debug
        ⟨s.queue.dataBuffer, s.appData, s.appData.take (8 * s.discarded), none⟩
        (.pop (8 * distance s.queue.begin seqNum : ℕ) ⟨false, false⟩) :=
      ⟨hserved, fun hnegative ↦ absurd hnegative (by omega)⟩
    obtain ⟨t, hstep, hsound, ⟨hpopped, hcount⟩, -⟩ :=
      exists_step ptr h.sound hadmits hserves
    obtain ⟨⟨dataBuffer, reply⟩, hpop, hreturn⟩ := bind_eq_ok hstep.2
    obtain rfl := Except.ok.inj hreturn
    rw [if_neg (by omega)] at hcount
    have hreply : replyContent reply =
        (s.appData.drop (8 * s.discarded)).take (8 * distance s.queue.begin seqNum) := by
      have htake := prefix_iff_eq_take.mp hpopped
      rw [Int.natCast_inj.mp hcount] at htake
      rw [← hstored]
      exact htake
    have hpopped : s.appData.take (8 * s.discarded) ++ replyContent reply =
        s.appData.take (8 * (s.discarded + distance s.queue.begin seqNum)) := by
      rw [hreply, mul_add, take_add]
    refine ⟨⟨seqNum, s.queue.end, dataBuffer⟩, ?_, ?_, h.whole, hwithin, ?_, hat, h.end_eq⟩
    · rw [if_pos hmoves]
      simp only [bind_of_ok hpop]
      rfl
    · obtain ⟨hvalid, hstream, hqueued, hpushed, hpoppedLength⟩ := hsound
      simp only [hpopped] at hstream hqueued hpoppedLength
      exact ⟨hvalid, hstream, hqueued, hpushed, hpoppedLength⟩
    · change s.bytes - (s.discarded + _) < 2 ^ 31
      omega
  · obtain rfl := not_not.mp hmoves
    rw [if_neg hmoves, distance_self, add_zero]
    exact ⟨s.queue, rfl, h⟩

/-! ## Runs -/

/-- A call that is admitted and served returns, and the queue still names the stream. -/
theorem Names.exists_step (h : Names startSeq s) (ptr : PointerEq) (debug : Bool) {call : Call}
    (hadmitted : s.Admitted call) (hserved : s.Served call) :
    ∃ t, (machine ptr debug).handle s call = .ok t ∧ Names startSeq t := by
  cases call with
  | enqueueAppData data =>
    obtain ⟨queue, hok, hnames⟩ := h.exists_enqueued ptr debug hadmitted
    refine ⟨_, ?_, hnames⟩
    simp only [machine, bind_of_ok hok]
    rfl
  | createSegmentWithBytes fromSeq numBytes =>
    obtain ⟨payload, hok, -⟩ := h.exists_segment ptr debug hadmitted hserved
    refine ⟨{ s with segment := payload.content }, ?_, h.sound, h.whole, h.discarded_le, h.bound,
      h.begin_eq, h.end_eq⟩
    simp only [machine, bind_of_ok hok]
    rfl
  | discardUpTo seqNum =>
    obtain ⟨queue, hok, hnames⟩ := h.exists_discarded ptr debug hadmitted hserved
    refine ⟨_, ?_, hnames⟩
    simp only [machine, bind_of_ok hok]
    rfl

/-- What the users of the queue rely on. -/
structure Faithful (ptr : PointerEq) (debug : Bool) (startSeq : SeqNum) (s : History) : Prop where
  /-- The sequence numbers are those of the bytes of the stream. -/
  numbered : ∀ fromSeq, fromSeq = advance startSeq (s.position fromSeq)
  segment : ∀ fromSeq numBytes, s.InRange fromSeq numBytes →
    s.Served (.createSegmentWithBytes fromSeq numBytes) →
    ∃ payload, s.queue.createSegmentWithBytes ptr debug fromSeq numBytes = .ok payload ∧
      payload.content = (s.appData.drop (8 * s.position fromSeq)).take (8 * numBytes)
  available : ∀ fromSeq, seqLE s.queue.begin fromSeq →
    s.queue.getBytesAvailable fromSeq = s.bytes - s.position fromSeq
  returns : ∀ call, s.Admitted call → s.Served call →
    ∃ t, (machine ptr debug).handle s call = .ok t

/-- In every run, segments are cut out of the stream of the application where their sequence numbers
are. -/
theorem faithful_of_run {calls : List Call}
    (hrun : ((machine ptr debug).restrict History.Served).Run (.initial startSeq) calls s) :
    Faithful ptr debug startSeq s := by
  have hnames : Names startSeq s := by
    apply hrun.invariant _ (names_initial startSeq)
    intro s call t h hstep
    obtain ⟨hstep, hserved⟩ := Machine.step_restrict_iff.mp hstep
    obtain ⟨t', hok, ht'⟩ := h.exists_step ptr debug hstep.1 hserved
    obtain rfl := Except.ok.inj (hok.symm.trans hstep.2)
    exact ht'
  refine ⟨hnames.eq_advance, ?_, fun fromSeq ↦ hnames.getBytesAvailable_eq, ?_⟩
  · exact fun fromSeq numBytes hrange hserved ↦ hnames.exists_segment ptr debug hrange hserved
  · intro call hadmitted hserved
    obtain ⟨t, hok, -⟩ := hnames.exists_step ptr debug hadmitted hserved
    exact ⟨t, hok⟩

/-- Three bytes across the end of the number space, of which one is discarded and the others are
sent. -/
theorem faithful_of_run_wrap :
    ∃ s, ((machine structuralEq true).restrict History.Served).Run (.initial 0xfffffffe)
        [.enqueueAppData (.single (.byteCount 2)), .enqueueAppData (.single (.byteCount 1)),
          .discardUpTo 0xffffffff, .createSegmentWithBytes 0xffffffff 2] s ∧
      s.queue.end = 1 ∧ s.segment.length = 16 ∧
      Faithful structuralEq true 0xfffffffe s := by
  refine Machine.exists_run_imp (fun s ↦ s.queue.end = 1 ∧ s.segment.length = 16)
    (by decide +kernel) ?_
  rintro s hrun ⟨hend, hsegment⟩
  exact ⟨hend, hsegment, faithful_of_run hrun⟩

/-- An empty segment is within the asserted range, but no empty chunk is returned.  And before the
begin of the queue, bytes are counted that it does not have. -/
theorem not_faithful_empty :
    ∃ s, (machine structuralEq true).Run (.initial 0)
        [.enqueueAppData (.single (.byteCount 2)), .discardUpTo 1] s ∧
      (s.InRange 1 0 ∧ ∀ payload, s.queue.createSegmentWithBytes structuralEq true 1 0 ≠
        .ok payload) ∧
      s.queue.getBytesAvailable 0 ≠ s.bytes - s.discarded := by
  refine Machine.exists_run_imp (fun s ↦ s.InRange 1 0 ∧ s.queue.createSegmentWithBytes
    structuralEq true 1 0 = .error .runtimeError ∧ s.queue.getBytesAvailable 0 ≠ s.bytes -
    s.discarded) (by decide +kernel) ?_
  rintro s hrun ⟨hrange, herror, havailable⟩
  refine ⟨⟨hrange, fun payload hok ↦ ?_⟩, havailable⟩
  rw [herror] at hok
  cases hok

/-! ## Data of whole bytes -/

/-- Every element of the data that is queued consists of whole bytes, and no empty segment is asked
for. -/
def Call.InBytes : Call → Prop
  | .enqueueAppData data => WholeBytes data.elements
  | .createSegmentWithBytes _ numBytes => 0 < numBytes
  | .discardUpTo _ => True

theorem served_of_inBytes (h : s.queue.dataBuffer.InBytes) {call : Call} (hcall : call.InBytes) :
    s.Served call := by
  cases call with
  | enqueueAppData data => trivial
  | createSegmentWithBytes fromSeq numBytes => exact ⟨hcall, h.servesPart _ _⟩
  | discardUpTo seqNum => exact h.servesPart 0 _

/-- A call leaves whole bytes in the data buffer. -/
theorem Names.inBytes_step (h : Names startSeq s) (hbytes : s.queue.dataBuffer.InBytes)
    {call : Call}
    {t : History} (hcall : call.InBytes) (hstep : (machine ptr debug).Step s call t) :
    t.queue.dataBuffer.InBytes := by
  obtain ⟨hadmitted, hok⟩ := hstep
  cases call with
  | enqueueAppData data =>
    obtain ⟨queue, hqueue, hreturn⟩ := bind_eq_ok hok
    obtain ⟨dataBuffer, hpush, hrest⟩ := bind_eq_ok hqueue
    obtain ⟨⟨⟩, -, hqueue⟩ := bind_eq_ok hrest
    obtain ⟨⟨⟩, -, hpushed⟩ := bind_eq_ok hpush
    obtain rfl := Except.ok.inj hpushed
    obtain rfl := Except.ok.inj hqueue
    obtain rfl := Except.ok.inj hreturn
    exact hbytes.pushChunk ptr hcall hadmitted.2.1
  | createSegmentWithBytes fromSeq numBytes =>
    obtain ⟨payload, -, hreturn⟩ := bind_eq_ok hok
    obtain rfl := Except.ok.inj hreturn
    exact hbytes
  | discardUpTo seqNum =>
    obtain ⟨queue, hqueue, hreturn⟩ := bind_eq_ok hok
    obtain rfl := Except.ok.inj hreturn
    obtain ⟨⟨⟩, -, hdiscard⟩ := bind_eq_ok hqueue
    split at hdiscard
    · rename_i hmoves
      obtain ⟨⟨dataBuffer, reply⟩, hpop, hreturn⟩ := bind_eq_ok hdiscard
      obtain rfl := Except.ok.inj hreturn
      exact hbytes.pop h.sound.valid (h.admitsPart_discarded hadmitted hmoves) hpop
    · obtain rfl := Except.ok.inj hdiscard
      exact hbytes

/-- Where only whole bytes are queued, no call cuts a byte of a count of bytes: every run is one in
which the calls are served, and the calls after it are served too. -/
theorem run_served_of_inBytes {calls : List Call}
    (hrun : ((machine ptr debug).restrict fun _ call ↦ call.InBytes).Run
      (.initial startSeq) calls s) :
    ((machine ptr debug).restrict History.Served).Run (.initial startSeq) calls s ∧
      ∀ call, call.InBytes → s.Served call := by
  have hkept : ∀ s call t, Names startSeq s ∧ s.queue.dataBuffer.InBytes → call.InBytes →
      (machine ptr debug).Step s call t → Names startSeq t ∧ t.queue.dataBuffer.InBytes := by
    rintro s call t ⟨hnames, hbytes⟩ hcall hstep
    obtain ⟨t', hok, ht'⟩ :=
      hnames.exists_step ptr debug hstep.1 (served_of_inBytes hbytes hcall)
    obtain rfl := Except.ok.inj (hok.symm.trans hstep.2)
    exact ⟨ht', hnames.inBytes_step hbytes hcall hstep⟩
  obtain ⟨hserved, -, hbytes⟩ := hrun.restrict_of_invariant
    (fun s call h hcall ↦ served_of_inBytes h.2 hcall) hkept
    ⟨names_initial startSeq, ChunkQueue.inBytes_initial⟩
  exact ⟨hserved, fun call hcall ↦ served_of_inBytes hbytes hcall⟩

end TcpSendQueue

end Inet4.Tcp
