import Inet4.Tcp.SackRexmitQueue

/-!
# The sending side of a TCP connection

`sendSegment` sends one segment from `snd_nxt` on, and `sendData` and `retransmitData` call it until
the window or the send queue is used up.  After a retransmission timeout, with SACK enabled,
`sendSegment` first forwards `snd_nxt` over data that was sacked or sent again.

Left out are the fields of the header that the receiving side fills in, the ECN bits, and the
notifications of the application and of the congestion control.  A failed `ASSERT` ends the
simulation.
-/

namespace Inet4.Tcp

inductive TcpState
  | init | listen | synSent | synRcvd | established | closeWait
  | lastAck | finWait1 | finWait2 | closing | timeWait | closed
deriving DecidableEq

structure SendQueue (α : Type) where
  /-- The sequence number of the first byte stored. -/
  begin : SeqNum
  /-- The sequence number of the last byte stored, plus one. -/
  «end» : SeqNum
  dataBuffer : List α
deriving DecidableEq

namespace SendQueue

variable {α : Type} (q : SendQueue α)

def getBytesAvailable (fromSeq : SeqNum) : ℕ :=
  if seqLess fromSeq q.end then distance fromSeq q.end else 0

/-- `ChunkQueue::peekAt`, which returns no empty chunk. -/
def peekAt (offset length : ℕ) : Except Fault (List α) :=
  if q.dataBuffer.length < offset + length then .error .runtimeError
  else if length = 0 then .error .runtimeError
  else .ok ((q.dataBuffer.drop offset).take length)

def createSegmentWithBytes (fromSeq : SeqNum) (numBytes : ℕ) : Except Fault (List α) := do
  assert (seqLE q.begin fromSeq ∧ seqLE (advance fromSeq numBytes) q.end)
  q.peekAt (distance q.begin fromSeq) numBytes

end SendQueue

/-- What the options of a header depend on. -/
structure HeaderOptions where
  fsm : TcpState
  ts_enabled : Bool
  sack_enabled : Bool
  snd_sack : Bool
  snd_dsack : Bool
  /-- The number of blocks that `addSacks` has to report. -/
  sacks : ℕ
deriving DecidableEq

namespace HeaderOptions

variable (options : HeaderOptions)

/-- `writeHeaderOptions` of a header without the SYN bit writes options in these states. -/
def WritesOptions : TcpState → Bool
  | .synSent | .synRcvd | .established | .finWait1 | .finWait2 | .closeWait => true
  | _ => false

/-- A SACK option is due. -/
def sackPending : Bool := options.sack_enabled && (options.snd_sack || options.snd_dsack)

/-- The length of the timestamp option, with its padding. -/
def timestampLength : ℕ :=
  if options.ts_enabled then if options.sackPending then 10 else 12 else 0

/-- The length of the options after `addSacks`, which aligns the SACK option. -/
def lengthWithSacks (used_options_len : ℕ) : ℕ :=
  if 40 - 10 < used_options_len then used_options_len
  else
    let n := min options.sacks ((40 - used_options_len - 2) / 8)
    if n = 0 then used_options_len
    else used_options_len + (6 - used_options_len % 4) % 4 + 8 * n + 2

/-- The length of the options that `writeHeaderOptions` writes. -/
def length : ℕ :=
  if WritesOptions options.fsm then
    let length :=
      if options.sackPending then options.lengthWithSacks options.timestampLength
      else options.timestampLength
    -- too many options are dropped
    if length ≤ 40 then length else 0
  else 0

/-- What `writeHeaderOptions` leaves: a SACK option is written only once. -/
def written : HeaderOptions :=
  if WritesOptions options.fsm && options.sackPending then
    { options with snd_sack := false, snd_dsack := false }
  else options

end HeaderOptions

/-- A segment that is sent. -/
structure Segment (α : Type) where
  sequenceNo : SeqNum
  payload : List α
  finBit : Bool
deriving DecidableEq

structure Sender (α : Type) where
  snd_mss : ℕ
  snd_una : SeqNum
  snd_nxt : SeqNum
  snd_max : SeqNum
  snd_wnd : ℕ
  send_fin : Bool
  snd_fin_seq : SeqNum
  sentBytes : ℕ
  afterRto : Bool
  options : HeaderOptions
  sendQueue : SendQueue α
  rexmitQueue : SackRexmitQueue
  /-- The segments that were handed to IP. -/
  sent : List (Segment α)
deriving DecidableEq

namespace Sender

variable {α : Type} (s : Sender α)

/-- Forwards `snd_nxt` over sacked and rexmitted data. -/
def forward : Except Fault (Sender α) :=
  if s.options.sack_enabled ∧ s.afterRto then do
    let forward ← s.rexmitQueue.checkRexmitQueueForSackedOrRexmittedSegments s.snd_nxt
    return { s with snd_nxt := s.snd_nxt + forward }
  else .ok s

/-- Copies the region of a segment to `rexmitQueue`, if SACK is enabled. -/
def enqueueSentData (fromSeqNum toSeqNum : SeqNum) : Except Fault SackRexmitQueue :=
  if s.options.sack_enabled then s.rexmitQueue.enqueueSentData fromSeqNum toSeqNum
  else .ok s.rexmitQueue

/-- The rest of `sendSegment`, which sends a segment from `snd_nxt` on. -/
def sendFromNext (bytes : ℕ) : Except Fault (Sender α) := do
  let buffered := s.sendQueue.getBytesAvailable s.snd_nxt
  let bytes := if buffered < bytes then buffered else bytes
  let options_len := s.options.length
  assert (options_len < s.snd_mss)
  let bytes := if s.snd_mss < bytes + options_len then s.snd_mss - options_len else bytes
  let payload ← s.sendQueue.createSegmentWithBytes s.snd_nxt bytes
  assert (bytes = payload.length)
  let snd_nxt := advance s.snd_nxt bytes
  let afterRto := s.afterRto && !decide (seqGE snd_nxt s.snd_max)
  let finBit := s.send_fin && decide (snd_nxt = s.snd_fin_seq)
  let snd_nxt := if finBit then advance s.snd_fin_seq 1 else snd_nxt
  let rexmitQueue ← s.enqueueSentData s.snd_nxt snd_nxt
  return { s with
    snd_nxt, afterRto, rexmitQueue
    sentBytes := bytes
    options := s.options.written
    sent := s.sent ++ [⟨s.snd_nxt, payload, finBit⟩] }

def sendSegment (bytes : ℕ) : Except Fault (Sender α) := do
  let s ← s.forward
  s.sendFromNext bytes

/-- The loop of `sendData` that sends whole segments only; it returns the bytes that are left to
send. -/
def sendWholeSegments (effectiveMaxBytesSend : ℕ) : (fuel bytesToSend : ℕ) → Sender α →
    Except Fault (ℕ × Sender α)
  | 0, _, _ => .error .notReturned
  | fuel + 1, bytesToSend, s =>
    if effectiveMaxBytesSend ≤ bytesToSend then do
      let s ← s.sendSegment s.snd_mss
      assert (s.sentBytes ≤ bytesToSend)
      sendWholeSegments effectiveMaxBytesSend fuel (bytesToSend - s.sentBytes) s
    else .ok (bytesToSend, s)

/-- The only segment that `sendData` sends if all bytes fit into one. -/
def sendOnlySegment (bytesToSend : ℕ) : Except Fault (ℕ × Sender α) := do
  let s ← s.sendSegment bytesToSend
  assert (s.sentBytes ≤ bytesToSend)
  return (bytesToSend - s.sentBytes, s)

/-- All bytes in one segment, or whole segments only. -/
def sendSegments (effectiveMaxBytesSend bytesToSend : ℕ) : Except Fault (ℕ × Sender α) :=
  if bytesToSend ≤ s.snd_mss then s.sendOnlySegment bytesToSend
  else sendWholeSegments effectiveMaxBytesSend (bytesToSend + 1) bytesToSend s

/-- The last segment may be smaller. -/
def sendLastSegment (bytesToSend : ℕ) : Except Fault (Sender α) :=
  let buffered := s.sendQueue.getBytesAvailable s.snd_nxt
  if bytesToSend = buffered ∧ buffered ≠ 0 then s.sendSegment bytesToSend else .ok s

/-- Remembers the highest sequence number sent. -/
def withMax : Sender α :=
  if seqGreater s.snd_nxt s.snd_max then { s with snd_max := s.snd_nxt } else s

/-- `sendData` sends from `snd_max` on, if not after a retransmission timeout. -/
def fromMax : Sender α := if s.afterRto then s else { s with snd_nxt := s.snd_max }

/-- The number of bytes that the windows allow to send now. -/
def effectiveWin (congestionWindow : ℕ) : ℤ :=
  (min s.snd_wnd congestionWindow : ℕ) - distance s.snd_una s.snd_nxt

/-- `sendData` behind its checks of the queue and of the windows. -/
def sendBytes (fullSegmentsOnly : Bool) (bytesToSend : ℕ) : Except Fault (Bool × Sender α) := do
  -- a temporary header is written, for the length of its options
  let options_len := s.options.length
  let s := { s with options := s.options.written }
  assert (options_len < s.snd_mss)
  let effectiveMaxBytesSend := s.snd_mss - options_len
  if fullSegmentsOnly ∧ bytesToSend < effectiveMaxBytesSend then return (false, s)
  else
    assert (0 < bytesToSend)
    let (bytesToSend, s) ← s.sendSegments effectiveMaxBytesSend bytesToSend
    let s ← s.sendLastSegment bytesToSend
    return (true, s.withMax)

def sendData (fullSegmentsOnly : Bool) (congestionWindow : ℕ) : Except Fault (Bool × Sender α) :=
  let s := s.fromMax
  let buffered := s.sendQueue.getBytesAvailable s.snd_nxt
  let effectiveWin := s.effectiveWin congestionWindow
  if buffered = 0 ∨ effectiveWin ≤ 0 then .ok (false, s)
  else s.sendBytes fullSegmentsOnly (min effectiveWin.toNat buffered)

def sendFin : Sender α := { s with sent := s.sent ++ [⟨s.snd_nxt, [], true⟩] }

/-- The loop of `retransmitData`. -/
def retransmitSegments : (fuel bytesToSend : ℕ) → Sender α → Except Fault (Sender α)
  | 0, _, _ => .error .notReturned
  | fuel + 1, bytesToSend, s =>
    if 0 < bytesToSend then do
      let bytes := min (min bytesToSend s.snd_mss) (s.sendQueue.getBytesAvailable s.snd_nxt)
      let s ← s.sendSegment bytes
      -- no packets are sent after the FIN
      if s.send_fin ∧ s.snd_nxt = advance s.snd_fin_seq 1 then return s
      else
        assert (s.sentBytes ≤ bytesToSend)
        retransmitSegments fuel (bytesToSend - s.sentBytes) s
    else .ok s

def retransmitData : Except Fault (Sender α) :=
  let s := { s with snd_nxt := s.snd_una }
  let bytesToSend := distance s.snd_nxt s.snd_max
  if bytesToSend = 0 ∧ s.send_fin ∧ s.snd_fin_seq = s.sendQueue.end then
    let s := sendFin { s with snd_max := s.sendQueue.end, snd_nxt := s.sendQueue.end }
    .ok { s with snd_nxt := advance s.snd_nxt 1, snd_max := advance s.snd_nxt 1 }
  else do
    assert (bytesToSend ≠ 0)
    retransmitSegments (bytesToSend + 1) bytesToSend s

end Sender

end Inet4.Tcp
