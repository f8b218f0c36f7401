import Inet4.Packet.ReorderBuffer
import Inet4.Tcp.SeqNum

/-!
# The TCP receive queue

`TcpReceiveQueue` stores the payload of the segments that arrive in a reorder buffer, whose offsets
are 64-bit numbers that start at the initial sequence number and do not wrap.  A sequence number
stands for the offset that is closest to the expected one.  In debug builds the queue refuses a
segment that does not lie within half of the ring together with what is buffered.
-/

namespace Inet4.Tcp

def offsetToSeq (offset : ℕ) : SeqNum := advance 0 offset

structure ReceiveQueue (α : Type) where
  rcv_nxt : SeqNum
  reorderBuffer : ReorderBuffer α

namespace ReceiveQueue

variable {α : Type}

def init (startSeq : SeqNum) : ReceiveQueue α := ⟨startSeq, ⟨[], startSeq.toNat⟩⟩

def seqToOffset (buffer : ReorderBuffer α) (seq : SeqNum) : ℤ :=
  let expSeq := offsetToSeq buffer.expectedOffset
  if seqGE seq expSeq then buffer.expectedOffset + distance expSeq seq
  else buffer.expectedOffset - distance seq expSeq

/-- The check of debug builds. -/
def checkRange (debug : Bool) (regions : List (Region α)) (nb ne : SeqNum) : Except Fault Unit :=
  if debug then
    match regions.head?, regions.getLast? with
    | some first, some last =>
      let ob := offsetToSeq first.offset
      let oe := offsetToSeq last.getEndOffset
      let minb := seqMin ob nb
      let maxe := seqMax oe ne
      assert (¬(seqGE minb oe ∨ seqGE minb ne ∨ seqGE ob maxe ∨ seqGE nb maxe))
    | _, _ => .ok ()
  else .ok ()

/-- The bytes of the payload before the expected one. -/
def staleBytes (buffer : ReorderBuffer α) (seq : SeqNum) : ℕ :=
  let buffSeq := offsetToSeq buffer.expectedOffset
  if seqLess seq buffSeq then distance seq buffSeq else 0

/-- `peekDataAt` behind the header and the stale bytes, up to the end of the payload. -/
def peekPayload (payload : List α) (offs : ℕ) : Except Fault (List α) :=
  if offs ≤ payload.length then .ok (payload.drop offs) else .error .runtimeError

/-- `rcv_nxt` after the payload is stored. -/
def nextRcvNxt (rcv_nxt : SeqNum) (regions : List (Region α)) : Except Fault SeqNum :=
  match regions with
  | [] => .error .undefinedBehaviour
  | first :: _ =>
    if seqGE rcv_nxt (offsetToSeq first.offset) then .ok (offsetToSeq first.getEndOffset)
    else .ok rcv_nxt

variable (debug : Bool) (q : ReceiveQueue α)

/-- A segment is stored.  Returned is the sequence number to be acknowledged. -/
def insertBytesFromSegment (seq : SeqNum) (payload : List α) :
    Except Fault (SeqNum × ReceiveQueue α) := do
  let buffer := q.reorderBuffer
  checkRange debug buffer.regions seq (advance seq payload.length)
  let offs := staleBytes buffer seq
  let data ← peekPayload payload offs
  let regions ← ChunkBuffer.replace buffer.regions
    (seqToOffset buffer (advance seq offs)).toNat data
  let rcv_nxt ← nextRcvNxt q.rcv_nxt regions
  return (rcv_nxt, ⟨rcv_nxt, ⟨regions, buffer.expectedOffset⟩⟩)

variable [Inhabited α]

/-- The data up to a sequence number, for the application. -/
def extractBytesUpTo (seq : SeqNum) : Except Fault (Option (List α) × ReceiveQueue α) := do
  assert (seqLE seq q.rcv_nxt)
  if q.reorderBuffer.regions.isEmpty then return (none, q)
  else
    let maxLength := seqToOffset q.reorderBuffer seq - q.reorderBuffer.expectedOffset
    if maxLength ≤ 0 then return (none, q)
    else
      let popped ← q.reorderBuffer.popAvailableData (some maxLength.toNat)
      assert (popped.2.expectedOffset ≤ seqToOffset popped.2 seq)
      return (popped.1, ⟨q.rcv_nxt, popped.2⟩)

omit [Inhabited α] in
/-- The first sequence number of the queue. -/
def getFirstSeqNo : SeqNum :=
  match q.reorderBuffer.regions with
  | [] => q.rcv_nxt
  | first :: _ => seqMin (offsetToSeq first.offset) q.rcv_nxt

end ReceiveQueue

end Inet4.Tcp
