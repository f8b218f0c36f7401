import Inet4.Kernel
import Inet4.Sctp.Tsn

/-!
# The receive queues of an SCTP stream

The chunks of a stream wait in `orderedQ` until a message is complete and its number is the expected
one.  Then the message moves to `deliveryQ`, from where the application takes it.
-/

namespace Inet4.Sctp

/-- `uint16` as a stream sequence number. -/
abbrev Ssn := BitVec 16

abbrev Byte := BitVec 8

/-- `SctpDataVariables`, with the data array of its `userData`. -/
structure SctpDataVariables where
  tsn : Tsn
  ssn : Ssn
  bbit : Bool
  ebit : Bool
  ordered : Bool
  /-- The length in bits. -/
  len : BitVec 32
  data : List Byte
deriving DecidableEq

/-- `payloadQueue`, a `std::map` from TSNs. -/
abbrev SctpQueue := AssocMap Tsn SctpDataVariables

namespace SctpQueue

variable (queue : SctpQueue)

def checkAndInsertChunk (key : Tsn) (chunk : SctpDataVariables) :
    Bool × SctpQueue :=
  match queue.find key with
  | some _ => (false, queue)
  | none => (true, queue.assign key chunk)

/-- The chunk with the lowest TSN. -/
def extractMessage : Option (SctpDataVariables × SctpQueue) :=
  (queue.findFirst BitVec.toNat fun _ ↦ true).map fun entry ↦ (entry.2, queue.remove entry.1)

/-- The end of the map is dereferenced when there is no such chunk. -/
def getAndExtractChunk (tsn : Tsn) :
    Except Fault (SctpDataVariables × SctpQueue) :=
  match queue.find tsn with
  | some chunk => .ok (chunk, queue.remove tsn)
  | none => .error .undefinedBehaviour

/-- The first whole message with a stream sequence number. -/
def dequeueChunkBySSN (ssn : Ssn) : Option (SctpDataVariables × SctpQueue) :=
  (queue.findFirst BitVec.toNat fun chunk ↦ chunk.ssn == ssn && chunk.bbit && chunk.ebit).map
    fun entry ↦ (entry.2, queue.remove entry.1)

end SctpQueue

/-- The rounds that a loop over TSNs can make before it comes back to the first one. -/
def maxRounds : ℕ := 2 ^ 32

/-- Down to the first fragment, or to a TSN that is missing. -/
def findBegin (queue : SctpQueue) : (rounds : ℕ) → (begintsn : Tsn) → Except Fault Tsn
  | 0, _ => .error .notReturned
  | rounds + 1, begintsn =>
    match queue.find begintsn with
    | some chunk => if chunk.bbit then .ok begintsn else findBegin queue rounds (begintsn - 1)
    | none => .ok begintsn

/-- Up to the last fragment, or to a TSN that is missing. -/
def findEnd (queue : SctpQueue) : (rounds : ℕ) → (endtsn : Tsn) → Except Fault Tsn
  | 0, _ => .error .notReturned
  | rounds + 1, endtsn =>
    match queue.find endtsn with
    | some chunk => if chunk.ebit then .ok endtsn else findEnd queue rounds (endtsn + 1)
    | none => .ok endtsn

/-- The data of a fragment are copied to an offset. -/
def copyData (processData : List Byte) (offset : ℕ) : (rounds i : ℕ) → List Byte →
    Except Fault (List Byte)
  | 0, _, data => .ok data
  | rounds + 1, i, data => do
    assert (i < processData.length ∧ i + offset < data.length)
    copyData processData offset rounds (i + 1) (data.set (i + offset) (processData.getD i 0))

/-- A fragment is added to the first one. -/
def addFragment (firstVar processVar : SctpDataVariables) : Except Fault SctpDataVariables := do
  let data ←
    if 0 < firstVar.data.length ∧ 0 < processVar.data.length then
      copyData processVar.data (firstVar.len / 8).toNat (processVar.len / 8).toNat 0
        (firstVar.data ++ List.replicate processVar.data.length 0)
    else .ok firstVar.data
  return { firstVar with data := data, len := firstVar.len + processVar.len }

/-- The fragments after `begintsn` are taken out of the queue and added to the first one. -/
def joinFragments : (rounds : ℕ) → SctpQueue → (begintsn endtsn : Tsn) → SctpDataVariables →
    Except Fault (SctpQueue × SctpDataVariables)
  | 0, _, _, _, _ => .error .notReturned
  | rounds + 1, queue, begintsn, endtsn, firstVar =>
    if begintsn + 1 ≤ endtsn then do
      let (processVar, queue) ← queue.getAndExtractChunk (begintsn + 1)
      let firstVar ← addFragment firstVar processVar
      joinFragments rounds queue (begintsn + 1) endtsn firstVar
    else .ok (queue, firstVar)

def reassemble (queue : SctpQueue) (tsn : Tsn) : Except Fault (Tsn × SctpQueue) := do
  let begintsn ← findBegin queue maxRounds tsn
  match queue.find begintsn with
  | none => return (tsn, queue)
  | some firstVar =>
    let endtsn ← findEnd queue maxRounds begintsn
    match queue.find endtsn with
    | none => return (tsn, queue)
    | some _ =>
      let (queue, firstVar) ← joinFragments maxRounds queue begintsn endtsn firstVar
      return (firstVar.tsn, queue.assign begintsn { firstVar with ebit := true })

structure SctpReceiveStream where
  expectedStreamSeqNum : ℕ
  deliveryQ : SctpQueue
  orderedQ : SctpQueue
  unorderedQ : SctpQueue

namespace SctpReceiveStream

def new : SctpReceiveStream where
  expectedStreamSeqNum := 0
  deliveryQ := ∅
  orderedQ := ∅
  unorderedQ := ∅

variable (stream : SctpReceiveStream)

/-- A whole message that was found moves to `deliveryQ`. -/
def deliver (chunk : SctpDataVariables) (orderedQ : SctpQueue) : Bool × SctpReceiveStream :=
  match stream.deliveryQ.checkAndInsertChunk chunk.tsn chunk with
  | (true, deliveryQ) => (true, { stream with
      orderedQ := orderedQ
      deliveryQ := deliveryQ
      expectedStreamSeqNum :=
        if stream.expectedStreamSeqNum + 1 > 65535 then 0 else stream.expectedStreamSeqNum + 1 })
  | (false, _) => (false, { stream with orderedQ := orderedQ })

variable (dchunk : SctpDataVariables)

/-- The branch of `enqueueNewDataChunk` for unordered delivery. -/
def enqueueUnordered : Except Fault (ℕ × SctpReceiveStream) :=
  if dchunk.bbit && dchunk.ebit then
    match stream.deliveryQ.checkAndInsertChunk dchunk.tsn dchunk with
    | (inserted, deliveryQ) =>
      .ok (if inserted then 2 else 0, { stream with deliveryQ := deliveryQ })
  else do
    let (inserted, unorderedQ) := stream.unorderedQ.checkAndInsertChunk dchunk.tsn dchunk
    let delivery := if inserted then 3 else 0
    let (reassembled, unorderedQ) ← reassemble unorderedQ dchunk.tsn
    let (chunk, extracted) ← unorderedQ.getAndExtractChunk reassembled
    if chunk.bbit then
      match stream.deliveryQ.checkAndInsertChunk reassembled chunk with
      | (inserted, deliveryQ) => return (if inserted then 2 else delivery,
          { stream with unorderedQ := extracted, deliveryQ := deliveryQ })
    else return (delivery, { stream with unorderedQ := unorderedQ })

/-- `delivery` and the stream after a new chunk. -/
def enqueueNewDataChunk : Except Fault (ℕ × SctpReceiveStream) :=
  if !dchunk.ordered then stream.enqueueUnordered dchunk
  else do
    let (inserted, orderedQ) := stream.orderedQ.checkAndInsertChunk dchunk.tsn dchunk
    let fragment := !dchunk.bbit || !dchunk.ebit
    let delivery := if fragment then 3 else if inserted then 1 else 0
    let (_, orderedQ) ←
      if fragment then reassemble orderedQ dchunk.tsn else .ok (dchunk.tsn, orderedQ)
    match orderedQ.dequeueChunkBySSN (BitVec.ofNat 16 stream.expectedStreamSeqNum) with
    | some (chunk, remaining) =>
      match stream.deliver chunk remaining with
      | (true, stream) => return (2, stream)
      | (false, stream) => return (delivery, stream)
    | none => return (delivery, { stream with orderedQ := orderedQ })

/-- `SctpAssociation::putInDeliveryQ`, the loop. -/
def putInDeliveryQ : (rounds : ℕ) → SctpReceiveStream → Except Fault SctpReceiveStream
  | 0, _ => .error .notReturned
  | rounds + 1, stream =>
    match stream.orderedQ.dequeueChunkBySSN (BitVec.ofNat 16 stream.expectedStreamSeqNum) with
    | some (chunk, orderedQ) => putInDeliveryQ rounds (stream.deliver chunk orderedQ).2
    | none => .ok stream

/-- What `processDataArrived` does with a new chunk: whatever it makes ready moves to `deliveryQ`.
A chunk is taken out of `orderedQ` in each round. -/
def processDataArrived : Except Fault SctpReceiveStream := do
  let (ret, stream) ← stream.enqueueNewDataChunk dchunk
  if 0 < ret ∧ ret < 3 then putInDeliveryQ (stream.orderedQ.size + 1) stream
  else return stream

end SctpReceiveStream

end Inet4.Sctp
