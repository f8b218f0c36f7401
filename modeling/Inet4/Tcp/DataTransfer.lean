import Inet4.Tcp.ReceiveQueueRuns
import Inet4.Tcp.TcpSendQueue

/-!
# The byte stream from one end of a TCP connection to the other

The send queue of one end and the receive queue of the other one.  A segment that was cut out of the
send queue may arrive at any later time, any number of times or never.  It is dropped where
`processSegment1stThru8th` does not find it acceptable for the window, and its text is stored
otherwise; the window is input.  The send queue discards what was acknowledged.
-/

namespace Inet4.Tcp

open List ReceiveQueue
open Packet (Bit PointerEq)
open TcpSendQueue (History Names)

def byte (data : List Bit) (k : ℕ) : List Bit := (data.drop (8 * k)).take 8

def bytesOf (data : List Bit) : List (List Bit) := (range (data.length / 8)).map (byte data)

structure DataSegment where
  sequenceNo : SeqNum
  payload : List (List Bit)
  /-- The positions of the payload in the stream. -/
  place : ReceiveQueue.Segment
deriving DecidableEq

/-- The payload is that part of the stream, which is not empty and was queued. -/
structure DataSegment.IsPart (startSeq : SeqNum) (stream : ℕ → List Bit) (bytes : ℕ)
    (segment : DataSegment) : Prop where
  sequenceNo : segment.sequenceNo = advance startSeq segment.place.start
  payload : segment.payload = segment.place.payload stream
  length_pos : 0 < segment.place.length
  stop_le : segment.place.stop ≤ bytes

/-- `isSegmentAcceptable` of a segment with text. -/
def isSegmentAcceptable (rcv_nxt : SeqNum) (rcv_wnd : BitVec 32) (seqNo : SeqNum) (len : ℕ) :
    Prop :=
  rcv_wnd ≠ 0 ∧
    (seqLE rcv_nxt seqNo ∧ seqLess seqNo (rcv_nxt + rcv_wnd) ∨
      seqLess rcv_nxt (advance seqNo len) ∧ seqLE (advance seqNo len) (rcv_nxt + rcv_wnd))

instance (rcv_nxt : SeqNum) (rcv_wnd : BitVec 32) (seqNo : SeqNum) (len : ℕ) :
    Decidable (isSegmentAcceptable rcv_nxt rcv_wnd seqNo len) :=
  inferInstanceAs (Decidable (_ ∧ _))

structure DataTransfer where
  sender : History
  sent : List DataSegment := []
  receiver : ReceiveQueue (List Bit)
  delivered : List (List Bit) := []
  received : Received := .initial

namespace DataTransfer

inductive Event
  | sender (call : TcpSendQueue.Call)
  | arrival (segment : DataSegment) (rcv_wnd : BitVec 32)
  | extractBytesUpTo

section Machine

variable (ptr : PointerEq) (debug : Bool) (s : DataTransfer)

def initial (startSeq : SeqNum) : DataTransfer where
  sender := .initial startSeq
  receiver := .init startSeq

/-- The number of bytes that the receiver acknowledges. -/
def acknowledged : ℕ := prefixLength s.received.segments

/-- The number of bytes that are discarded after a call. -/
def discardedAfter : TcpSendQueue.Call → ℕ
  | .discardUpTo seqNum => s.sender.position seqNum
  | _ => s.sender.discarded

/-- The segment that a call cuts out. -/
def cut (sender : History) : TcpSendQueue.Call → List DataSegment
  | .createSegmentWithBytes fromSeq numBytes =>
    [⟨fromSeq, bytesOf sender.segment, s.sender.position fromSeq, numBytes⟩]
  | _ => []

/-- The segment begins within half of the ring below what is acknowledged, and if it has a byte that
is not, then the queue may take it. -/
def InReach (place : ReceiveQueue.Segment) : Prop :=
  s.acknowledged < place.start + 2 ^ 31 ∧
    (s.acknowledged < place.stop →
      (Call.insertBytesFromSegment place).Admitted debug s.received)

instance (place : ReceiveQueue.Segment) : Decidable (s.InReach debug place) :=
  inferInstanceAs (Decidable (_ ∧ _))

/-- What is discarded was acknowledged, and what arrives was sent and is in reach. -/
def Enabled : Event → Prop
  | .sender call =>
    s.sender.Admitted call ∧ s.sender.Served call ∧ s.discardedAfter call ≤ s.acknowledged
  | .arrival segment _ => segment ∈ s.sent ∧ s.InReach debug segment.place
  | .extractBytesUpTo => True

def handle : Event → Except Fault DataTransfer
  | .sender call => do
    let sender ← (TcpSendQueue.machine ptr debug).handle s.sender call
    return { s with sender, sent := s.sent ++ s.cut sender call }
  | .arrival segment rcv_wnd =>
    if isSegmentAcceptable s.receiver.rcv_nxt rcv_wnd segment.sequenceNo segment.payload.length then
      do
      let (_, receiver) ←
        s.receiver.insertBytesFromSegment debug segment.sequenceNo segment.payload
      return { s with
        receiver, received := (Call.insertBytesFromSegment segment.place).apply s.received }
    else return s
  | .extractBytesUpTo => do
    let (packet, receiver) ← s.receiver.extractBytesUpTo s.receiver.rcv_nxt
    return { s with
      receiver, delivered := s.delivered ++ packet.getD []
      received := Call.extractBytesUpTo.apply s.received }

def machine : Machine DataTransfer Event Fault := ⟨Enabled debug, handle ptr debug⟩

end Machine

/-- A stream that goes on behind the data. -/
def Extends (stream : ℕ → List Bit) (data : List Bit) : Prop :=
  ∀ k < data.length / 8, stream k = byte data k

/-- The segments and the receiver hold bytes of the stream. -/
structure Sound (startSeq : SeqNum) (stream : ℕ → List Bit) (s : DataTransfer) : Prop where
  names : Names startSeq s.sender
  discarded_le : s.sender.discarded ≤ s.acknowledged
  sent : ∀ segment ∈ s.sent, segment.IsPart startSeq stream s.sender.bytes
  received : ∀ p ∈ s.received.segments, p.stop ≤ s.sender.bytes
  represents : Represents stream startSeq.toNat s.received s.receiver
  delivered : s.delivered = (range s.received.extracted).map stream

variable {ptr : PointerEq} {debug : Bool} {startSeq : SeqNum} {s : DataTransfer}
variable {stream : ℕ → List Bit} {data : List Bit}

theorem Extends.of_append {more : List Bit} (h : Extends stream (data ++ more)) :
    Extends stream data := by
  intro k hk
  rw [h k (by rw [length_append]; omega), byte, byte, drop_append_of_le_length (by omega),
    take_append_of_le_length (by rw [length_drop]; omega)]

/-- The bytes that are cut out at a position are those of the stream. -/
theorem bytesOf_take_drop {position numBytes : ℕ} (h : Extends stream data)
    (hle : position + numBytes ≤ data.length / 8) :
    bytesOf ((data.drop (8 * position)).take (8 * numBytes)) =
      ReceiveQueue.Segment.payload stream ⟨position, numBytes⟩ := by
  have hlength : ((data.drop (8 * position)).take (8 * numBytes)).length = 8 * numBytes := by
    rw [length_take, length_drop]
    omega
  rw [bytesOf, hlength, Nat.mul_div_cancel_left _ (by omega), ReceiveQueue.Segment.payload,
    range'_eq_map_range, map_map]
  refine map_congr_left fun k hk ↦ ?_
  have hlt := mem_range.mp hk
  rw [Function.comp_apply, h (position + k) (by omega), byte, byte, drop_take, drop_drop, take_take,
    min_eq_left (by omega), mul_add]

/-- A call of the sender is handled.  It may add to the stream, and it cuts out bytes of the
stream. -/
theorem exists_sender (h : Names startSeq s.sender) (ptr : PointerEq) (debug : Bool)
    {call : TcpSendQueue.Call} (hadmitted : s.sender.Admitted call)
    (hserved : s.sender.Served call) :
    ∃ sender, (TcpSendQueue.machine ptr debug).handle s.sender call = .ok sender ∧
      Names startSeq sender ∧ sender.discarded = s.discardedAfter call ∧
      (∃ more, sender.appData = s.sender.appData ++ more) ∧
      ∀ stream, Extends stream s.sender.appData → ∀ segment ∈ s.cut sender call,
        segment.IsPart startSeq stream s.sender.bytes := by
  obtain ⟨sender, hok, hnames⟩ := h.exists_step ptr debug hadmitted hserved
  refine ⟨sender, hok, hnames, ?_⟩
  cases call with
  | enqueueAppData data =>
    obtain ⟨queue, -, rfl⟩ := bind_pure_eq_ok hok
    exact ⟨rfl, ⟨_, rfl⟩, fun _ _ _ h ↦ absurd h not_mem_nil⟩
  | createSegmentWithBytes fromSeq numBytes =>
    obtain ⟨payload, hpayload, rfl⟩ := bind_pure_eq_ok hok
    obtain ⟨payload', hpayload', hcontent⟩ := h.exists_segment ptr debug hadmitted hserved
    obtain rfl := Except.ok.inj (hpayload.symm.trans hpayload')
    refine ⟨rfl, ⟨[], (append_nil _).symm⟩, fun stream hstream segment hsegment ↦ ?_⟩
    obtain rfl := mem_singleton.mp hsegment
    have hrange := hadmitted.2
    have hdiscarded := h.discarded_le
    rw [h.distance_eq] at hrange
    have hstop : s.sender.position fromSeq + numBytes ≤ s.sender.bytes := by
      rw [History.position]
      omega
    refine ⟨h.eq_advance fromSeq, ?_, hserved.1, hstop⟩
    rw [hcontent]
    exact bytesOf_take_drop hstream hstop
  | discardUpTo seqNum =>
    obtain ⟨queue, -, rfl⟩ := bind_pure_eq_ok hok
    exact ⟨rfl, ⟨[], (append_nil _).symm⟩, fun _ _ _ h ↦ absurd h not_mem_nil⟩

theorem sound_initial : (initial startSeq).Sound startSeq stream where
  names := TcpSendQueue.names_initial startSeq
  discarded_le := Nat.zero_le _
  sent := nofun
  received := nofun
  represents := represents_initial
  delivered := rfl

/-- A segment that is acceptable has a byte that is not acknowledged. -/
theorem Sound.lt_stop_of_acceptable (h : s.Sound startSeq stream) {segment : DataSegment}
    {rcv_wnd : BitVec 32} (hsegment : segment ∈ s.sent)
    (hbelow : s.acknowledged < segment.place.start + 2 ^ 31)
    (hacceptable : isSegmentAcceptable s.receiver.rcv_nxt rcv_wnd segment.sequenceNo
      segment.payload.length) : s.acknowledged < segment.place.stop := by
  obtain ⟨hseq, hpayload, hpos, -⟩ := h.sent segment hsegment
  have hnxt : s.receiver.rcv_nxt = advance startSeq s.acknowledged := by
    rw [h.represents.rcv_nxt, advance_eq_offsetToSeq]
    rfl
  have hlength : segment.payload.length = segment.place.length := by
    rw [hpayload, length_payload]
  have hstop : segment.place.stop = segment.place.start + segment.place.length := rfl
  by_contra hle
  rw [isSegmentAcceptable, hnxt, hseq, hlength, advance_advance] at hacceptable
  obtain ⟨-, ⟨hfrom, -⟩ | ⟨hto, -⟩⟩ := hacceptable
  · rw [seqLE_advance_iff (by omega) (by omega)] at hfrom
    omega
  · rw [seqLess_advance_iff (by omega) (by omega)] at hto
    omega

/-- Every event is handled, and whatever is queued later, bytes of the stream are held. -/
theorem exists_step (h : ∀ stream, Extends stream s.sender.appData → s.Sound startSeq stream)
    {event : Event} (henabled : s.Enabled debug event) :
    ∃ t, s.handle ptr debug event = .ok t ∧
      ∀ stream, Extends stream t.sender.appData → t.Sound startSeq stream := by
  have hsound := h (byte s.sender.appData) fun _ _ ↦ rfl
  cases event with
  | sender call =>
    obtain ⟨hadmitted, hserved, hdiscarded⟩ := henabled
    obtain ⟨sender, hok, hnames, heq, ⟨more, hmore⟩, hcut⟩ :=
      exists_sender hsound.names ptr debug hadmitted hserved
    refine ⟨_, by simp only [handle, bind_of_ok hok]; rfl, fun stream hstream ↦ ?_⟩
    have hold : Extends stream s.sender.appData := by
      rw [hmore] at hstream
      exact hstream.of_append
    have hbytes : s.sender.bytes ≤ sender.bytes := by
      rw [History.bytes, History.bytes, hmore, length_append]
      omega
    obtain ⟨-, -, hsent, hreceived, hrepresents, hdelivered⟩ := h stream hold
    refine ⟨hnames, heq.trans_le hdiscarded, fun segment hsegment ↦ ?_,
      fun p hp ↦ (hreceived p hp).trans hbytes, hrepresents, hdelivered⟩
    have hpart := (mem_append.mp hsegment).elim (hsent segment) (hcut stream hold segment)
    exact { hpart with stop_le := hpart.stop_le.trans hbytes }
  | arrival segment rcv_wnd =>
    obtain ⟨hsegment, hbelow, hinside⟩ := henabled
    by_cases hacceptable : isSegmentAcceptable s.receiver.rcv_nxt rcv_wnd segment.sequenceNo
        segment.payload.length
    · have hadmitted := hinside (hsound.lt_stop_of_acceptable hsegment hbelow hacceptable)
      have hinsert {stream} (h : s.Sound startSeq stream) := by
        have hspec := insertBytesFromSegment_spec h.represents hadmitted
        obtain ⟨hseq, hpayload, -⟩ := h.sent segment hsegment
        rw [← hseq, ← hpayload] at hspec
        exact hspec
      obtain ⟨q, hok, -⟩ := hinsert hsound
      refine ⟨_, by simp only [handle, if_pos hacceptable, bind_of_ok hok]; rfl,
        fun stream hstream ↦ ?_⟩
      obtain ⟨q', hok', hrepresents⟩ := hinsert (h stream hstream)
      obtain ⟨hnames, hdiscarded, hsent, hreceived, -, hdelivered⟩ := h stream hstream
      obtain rfl := (Prod.mk.inj (Except.ok.inj (hok.symm.trans hok'))).2
      exact ⟨hnames, hdiscarded.trans (prefixLength_le_cons _ _), hsent,
        forall_mem_cons.mpr ⟨(hsent segment hsegment).stop_le, hreceived⟩, hrepresents, hdelivered⟩
    · exact ⟨s, by simp only [handle, if_neg hacceptable]; rfl, h⟩
  | extractBytesUpTo =>
    obtain ⟨packet, q, hok, -⟩ := extractBytesUpTo_spec hsound.represents
    refine ⟨_, by simp only [handle, bind_of_ok hok]; rfl, fun stream hstream ↦ ?_⟩
    obtain ⟨hnames, hdiscarded, hsent, hreceived, hrepresents, hdelivered⟩ := h stream hstream
    obtain ⟨packet', q', hok', hpacket, hnext⟩ := extractBytesUpTo_spec hrepresents
    obtain ⟨rfl, rfl⟩ := Prod.mk.inj (Except.ok.inj (hok.symm.trans hok'))
    refine ⟨hnames, hdiscarded, hsent, hreceived, hnext, ?_⟩
    rw [hdelivered, hpacket, range_append_payload hrepresents.extracted_le]
    rfl

/-- In every run the receiver has passed up a first part of the stream of the application, up to the
last byte that was acknowledged when it did so.  The sender still has the bytes that are not
acknowledged, and no event ends in a fault. -/
theorem delivers_of_run {events : List Event}
    (hrun : (machine ptr debug).Run (initial startSeq) events s) :
    s.delivered = (bytesOf s.sender.appData).take s.received.extracted ∧
      s.receiver.rcv_nxt = advance startSeq s.acknowledged ∧
      s.sender.discarded ≤ s.acknowledged ∧ s.acknowledged ≤ s.sender.bytes ∧
      ∀ event, s.Enabled debug event → ∃ t, s.handle ptr debug event = .ok t := by
  have hall : ∀ stream, Extends stream s.sender.appData → s.Sound startSeq stream := by
    refine hrun.invariant (P := fun s ↦ ∀ stream, Extends stream s.sender.appData →
      s.Sound startSeq stream) ?_ fun _ _ ↦ sound_initial
    intro s event t h hstep
    obtain ⟨t', hok, ht'⟩ : ∃ t', s.handle ptr debug event = .ok t' ∧ _ := exists_step h hstep.1
    obtain rfl := Except.ok.inj (hok.symm.trans hstep.2)
    exact ht'
  obtain ⟨-, hdiscarded, -, hreceived, hrepresents, hdelivered⟩ :=
    hall (byte s.sender.appData) fun _ _ ↦ rfl
  have hle : s.acknowledged ≤ s.sender.bytes := by
    by_contra hlt
    obtain ⟨p, hp, -, hstop⟩ := covers_of_lt (not_le.mp hlt)
    exact absurd (hreceived p hp) (not_le.mpr hstop)
  refine ⟨?_, ?_, hdiscarded, hle, fun event henabled ↦ ?_⟩
  · have hextracted := hrepresents.extracted_le.trans hle
    rw [History.bytes] at hextracted
    rw [hdelivered, bytesOf, ← map_take, take_range, min_eq_left hextracted]
  · rw [hrepresents.rcv_nxt, advance_eq_offsetToSeq]
    rfl
  · obtain ⟨t, hok, -⟩ : ∃ t, s.handle ptr debug event = .ok t ∧ _ := exists_step hall henabled
    exact ⟨t, hok⟩

instance : DecidablePred ((machine ptr debug).Enabled s)
  | .sender _ | .arrival .. => inferInstanceAs (Decidable (_ ∧ _))
  | .extractBytesUpTo => isTrue trivial

/-- Three bytes across the end of the number space.  The last one arrives first, and the others
arrive twice. -/
theorem delivers_of_run_wrap :
    ∃ s, (machine Packet.structuralEq true).Run (initial 0xfffffffe)
        [.sender (.enqueueAppData (.single (.byteCount 3))),
          .sender (.createSegmentWithBytes 0xfffffffe 2), .sender (.createSegmentWithBytes 0 1),
          .arrival ⟨0, [replicate 8 none], ⟨2, 1⟩⟩ 100,
          .arrival ⟨0xfffffffe, replicate 2 (replicate 8 none), ⟨0, 2⟩⟩ 99, .extractBytesUpTo,
          .arrival ⟨0xfffffffe, replicate 2 (replicate 8 none), ⟨0, 2⟩⟩ 100,
          .sender (.discardUpTo 1)] s ∧
      s.received.extracted = 3 ∧ s.receiver.rcv_nxt = 1 ∧
      s.delivered = (bytesOf s.sender.appData).take s.received.extracted := by
  refine Machine.exists_run_imp (fun s ↦ s.received.extracted = 3 ∧ s.receiver.rcv_nxt = 1)
    (by decide +kernel) ?_
  rintro s hrun ⟨hextracted, hacknowledged⟩
  exact ⟨hextracted, hacknowledged, (delivers_of_run hrun).1⟩

end DataTransfer

end Inet4.Tcp
