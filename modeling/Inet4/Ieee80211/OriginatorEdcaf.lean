import Inet4.Ieee80211.QosAckHandler

/-!
# The originator side of one EDCAF

The frames in progress, the policy that decides between a BlockAckReq and the next data frame, and
the frame exchanges that drive both.  The MAC data service hands over new frames when it is asked;
what it hands over, the state of the Block Ack agreements, the answers and the losses are inputs.
Only QoS data is in progress, so that the statuses of management frames play no part.
-/

namespace Inet4.Ieee80211

open SequenceNumber QosAckHandler

/-- The fields of `Ieee80211DataHeader` that the originator uses. -/
structure DataHeader where
  receiverAddress : MacAddress
  tid : Tid
  sequenceNumber : SequenceNumber
  fragmentNumber : Fin maxNumFragments
  aMsduPresent : Bool
  ackPolicy : AckPolicy
deriving DecidableEq

/-- A packet in progress.  Packets are told apart by their pointers. -/
structure DataPacket where
  pointer : ℕ
  header : DataHeader
  byteLength : ℤ
deriving DecidableEq

def DataPacket.id (packet : DataPacket) : QoSKey where
  receiverAddress := packet.header.receiverAddress
  tid := packet.header.tid
  sequenceNumber := packet.header.sequenceNumber
  fragmentNumber := packet.header.fragmentNumber

def DataPacket.setAckPolicy (packet : DataPacket) (ackPolicy : AckPolicy) : DataPacket :=
  { packet with header := { packet.header with ackPolicy := ackPolicy } }

structure InProgressFrames where
  inProgressFrames : List DataPacket := []
  /-- The map of the acknowledgement handler. -/
  ackStatuses : AckStatuses := []
deriving DecidableEq

namespace InProgressFrames

variable (frames : InProgressFrames)

def isEligible (packet : DataPacket) : Bool :=
  isEligibleToTransmit frames.ackStatuses packet.id

def hasEligibleFrameToTransmit : Bool :=
  frames.inProgressFrames.any frames.isEligible

/-- The loop over the frames that were extracted. -/
def insertFrames (frames : InProgressFrames) : List DataPacket → Except Fault InProgressFrames
  | [] => .ok frames
  | frame :: rest => do
    let ackStatuses ← frameGotInProgress frames.ackStatuses frame.id
    let inProgressFrames := frames.inProgressFrames ++ [frame]
    insertFrames { inProgressFrames, ackStatuses } rest

/-- The data service hands over what was extracted from the pending queue. -/
def ensureHasFrameToTransmit (extracted : Option (List DataPacket)) :
    Except Fault InProgressFrames :=
  if frames.hasEligibleFrameToTransmit then .ok frames
  else frames.insertFrames (extracted.getD [])

/-- The first eligible frame. -/
def findEligible : Option DataPacket :=
  frames.inProgressFrames.find? frames.isEligible

def getFrameToTransmit (extracted : Option (List DataPacket)) :
    Except Fault (Option DataPacket × InProgressFrames) := do
  let frames ← frames.ensureHasFrameToTransmit extracted
  return (frames.findEligible, frames)

/-- The frame to come after a frame that is sent, which is an RTS or any other one.  Up to two
extractions are made. -/
def getPendingFrameFor (isRts : Bool) (extracted extractedNext : Option (List DataPacket)) :
    Except Fault (Option DataPacket × InProgressFrames) := do
  let (frameToTransmit, frames) ← frames.getFrameToTransmit extracted
  if isRts then return (frameToTransmit, frames)
  else
    match frames.inProgressFrames.find? fun frame ↦
        frames.isEligible frame && frameToTransmit.map (·.pointer) ≠ some frame.pointer with
    | some frame => return (some frame, frames)
    | none =>
      match extractedNext with
      | none => return (none, frames)
      -- `(*frames)[0]`
      | some [] => throw .undefinedBehaviour
      | some (firstFrame :: rest) =>
        let frames ← frames.insertFrames (firstFrame :: rest)
        return (some firstFrame, frames)

/-- `dropFrame` of the frames in progress. -/
def dropFrame (packet : DataPacket) : InProgressFrames :=
  { frames with
    inProgressFrames := frames.inProgressFrames.filter fun frame ↦ frame.pointer ≠ packet.pointer }

/-- `dropFrame` of the frames in progress and of the acknowledgement handler. -/
def dropFrameAndStatus (packet : DataPacket) : InProgressFrames :=
  { frames.dropFrame packet with
    ackStatuses := QosAckHandler.dropFrame frames.ackStatuses packet.id }

/-- `dropFrames` of the frames in progress. -/
def dropFrames (seqAndFragNums : QoSKeySet) : InProgressFrames :=
  { frames with
    inProgressFrames := frames.inProgressFrames.filter fun frame ↦
      (OrderedMap.find QoSKey.less seqAndFragNums frame.id).isNone }

def getOutstandingFrames : List DataPacket :=
  frames.inProgressFrames.filter fun frame ↦ isOutstandingFrame frames.ackStatuses frame.id

/-- `setAckPolicy` on the header of a packet in progress. -/
def setAckPolicy (frames : InProgressFrames) (packet : DataPacket) (ackPolicy : AckPolicy) :
    InProgressFrames :=
  { frames with
    inProgressFrames := frames.inProgressFrames.map fun frame ↦
      if frame.pointer = packet.pointer then frame.setAckPolicy ackPolicy else frame }

end InProgressFrames

/-- The vector of outstanding frames of a receiver, which is made with its first frame. -/
structure OutstandingFrames where
  first : DataPacket
  rest : List DataPacket := []
deriving DecidableEq

namespace OutstandingFrames

def toList (frames : OutstandingFrames) : List DataPacket := frames.first :: frames.rest

def size (frames : OutstandingFrames) : ℕ := frames.toList.length

def pushBack (frames : OutstandingFrames) (frame : DataPacket) : OutstandingFrames :=
  { frames with rest := frames.rest ++ [frame] }

end OutstandingFrames

/-- The fields of `OriginatorBlockAckAgreement` that the policy reads. -/
structure OriginatorBlockAckAgreement where
  isAddbaResponseReceived : Bool
  bufferSize : ℤ
  numSentBaPolicyFrames : ℤ
  isAMsduSupported : Bool
  startingSequenceNumber : SequenceNumber
deriving DecidableEq

structure OriginatorQosAckPolicy where
  maxBlockAckPolicyFrameLength : ℤ := 1000
  blockAckReqThreshold : ℤ := 5
deriving DecidableEq

namespace OriginatorQosAckPolicy

/-- `operator<` of addresses. -/
def addressLess (a b : MacAddress) : Bool := a < b

/-- One round of the loop of `getOutstandingFramesPerReceiver`. -/
def addOutstanding (frames : OrderedMap MacAddress OutstandingFrames) (frame : DataPacket) :
    OrderedMap MacAddress OutstandingFrames :=
  let receiver := frame.header.receiverAddress
  match OrderedMap.find addressLess frames receiver with
  | none => OrderedMap.assign addressLess frames receiver ⟨frame, []⟩
  | some (_, outstanding) =>
    OrderedMap.assign addressLess frames receiver (outstanding.pushBack frame)

def getOutstandingFramesPerReceiver (inProgressFrames : InProgressFrames) :
    OrderedMap MacAddress OutstandingFrames :=
  inProgressFrames.getOutstandingFrames.foldl addOutstanding []

def computeStartingSequenceNumber (outstandingFrames : OutstandingFrames) : SequenceNumber :=
  outstandingFrames.rest.foldl
    (fun start frame ↦
      if less frame.header.sequenceNumber start then frame.header.sequenceNumber else start)
    outstandingFrames.first.header.sequenceNumber

variable (policy : OriginatorQosAckPolicy)

def isBlockAckReqNeeded (inProgressFrames : InProgressFrames) : Bool :=
  (getOutstandingFramesPerReceiver inProgressFrames).any fun outstandingFrames ↦
    policy.blockAckReqThreshold ≤ (outstandingFrames.2.size : ℤ)

/-- The loop of `computeBlockAckReqParameters` for the receiver with the most outstanding frames. -/
def largestOutstandingFrames (first : MacAddress × OutstandingFrames)
    (frames : OrderedMap MacAddress OutstandingFrames) : MacAddress × OutstandingFrames :=
  frames.foldl (fun largest it ↦ if largest.2.size < it.2.size then it else largest) first

def computeBlockAckReqParameters (inProgressFrames : InProgressFrames) :
    MacAddress × SequenceNumber × Tid :=
  match getOutstandingFramesPerReceiver inProgressFrames with
  -- `UNSPECIFIED_ADDRESS`
  | [] => (0, -1, -1)
  | first :: rest =>
    if policy.isBlockAckReqNeeded inProgressFrames then
      let largest := largestOutstandingFrames first (first :: rest)
      (largest.1, computeStartingSequenceNumber largest.2, largest.2.first.header.tid)
    else (0, -1, -1)

def isBlockAckPolicyEligibleFrame (packet : DataPacket) : Bool :=
  packet.byteLength < policy.maxBlockAckPolicyFrameLength

def checkAgreementPolicy (header : DataHeader) (agreement : OriginatorBlockAckAgreement) : Bool :=
  let bufferFull : Bool := agreement.bufferSize = agreement.numSentBaPolicyFrames
  let aMsduOk := agreement.isAMsduSupported || !header.aMsduPresent
  !bufferFull && aMsduOk && greaterEq header.sequenceNumber agreement.startingSequenceNumber

def computeAckPolicy (packet : DataPacket) :
    (agreement : Option OriginatorBlockAckAgreement) → AckPolicy
  | none => .NORMAL_ACK
  | some agreement =>
    if agreement.isAddbaResponseReceived && policy.isBlockAckPolicyEligibleFrame packet &&
        checkAgreementPolicy packet.header agreement then .BLOCK_ACK
    else .NORMAL_ACK

end OriginatorQosAckPolicy

/-- What the originator waits for. -/
inductive Awaited
  | nothing
  | ack (packet : DataPacket)
  | blockAck (blockAckReq : BasicBlockAckReq)
deriving DecidableEq

structure Edcaf where
  frames : InProgressFrames := {}
  awaited : Awaited := .nothing
deriving DecidableEq

namespace Edcaf

inductive Event
  /-- `hasInProgressFrames` or `getFrameToTransmit`. -/
  | ensureHasFrameToTransmit (extracted : Option (List DataPacket))
  /-- The duration of a frame that is sent is computed. -/
  | getPendingFrameFor (isRts : Bool) (extracted extractedNext : Option (List DataPacket))
  /-- Another EDCAF of the station wins the channel at the same time. -/
  | internalCollision (extracted : Option (List DataPacket)) (retryLimitReached : Bool)
  /-- The RTS before a frame is not answered. -/
  | rtsProtectionFailed (retryLimitReached : Bool)
  /-- The first frame of the next exchange goes on the air. -/
  | transmit (agreement : Option OriginatorBlockAckAgreement)
  | ackReceived
  | ackTimeout (retryLimitReached : Bool)
  | blockAckReceived (blockAck : AddressedBlockAck)
  | blockAckTimeout

/-- The frames that the data service hands over. -/
def Event.extracted : Event → List DataPacket
  | .ensureHasFrameToTransmit extracted => extracted.getD []
  | .getPendingFrameFor _ extracted extractedNext => extracted.getD [] ++ extractedNext.getD []
  | .internalCollision extracted _ => extracted.getD []
  | _ => []

/-- The answer to a request has its TID and starting sequence number. -/
def Answers (blockAck : AddressedBlockAck) (blockAckReq : BasicBlockAckReq) : Prop :=
  blockAck.transmitterAddress = blockAckReq.receiverAddress ∧
    blockAck.tidInfo = blockAckReq.tidInfo ∧
    blockAck.startingSequenceNumber = blockAckReq.startingSequenceNumber

/-- The frame sequence that runs. -/
def Enabled (edcaf : Edcaf) : Event → Prop
  | .ensureHasFrameToTransmit _ | .getPendingFrameFor _ _ _ => True
  | .internalCollision _ _ => edcaf.awaited = .nothing
  -- an exchange begins when there is a frame to transmit
  | .rtsProtectionFailed _ | .transmit _ =>
    edcaf.awaited = .nothing ∧ edcaf.frames.hasEligibleFrameToTransmit = true
  | .ackReceived | .ackTimeout _ => match edcaf.awaited with
    | .ack _ => True
    | _ => False
  | .blockAckReceived blockAck => match edcaf.awaited with
    | .blockAck blockAckReq => Answers blockAck blockAckReq
    | _ => False
  | .blockAckTimeout => match edcaf.awaited with
    | .blockAck _ => True
    | _ => False

variable (frames : InProgressFrames)

/-- The frame to transmit is dropped when its retry limit is reached. -/
def dropOnRetryLimit (retryLimitReached : Bool) : Option DataPacket → Except Fault InProgressFrames
  | none => .error .undefinedBehaviour
  | some packet => .ok (if retryLimitReached then frames.dropFrameAndStatus packet else frames)

/-- `originatorProcessTransmittedDataFrame`, after the policy was written into the header. -/
def transmitData (edcaf : Edcaf) (packet : DataPacket) (ackPolicy : AckPolicy) :
    Except Fault Edcaf := do
  let frames := edcaf.frames.setAckPolicy packet ackPolicy
  let packet := packet.setAckPolicy ackPolicy
  let ackStatuses ←
    processTransmittedDataOrMgmtFrame frames.ackStatuses packet.id packet.header.ackPolicy
  let frames := { frames with ackStatuses := ackStatuses }
  return {
    frames := if ackPolicy = .NO_ACK then frames.dropFrame packet else frames
    awaited := if ackPolicy = .NORMAL_ACK then .ack packet else .nothing }

variable (policy : OriginatorQosAckPolicy)

/-- `BlockAckReqBlockAckFs` up to the request. -/
def transmitBlockAckReq (edcaf : Edcaf) : Edcaf :=
  let (receiverAddress, startingSequenceNumber, tid) :=
    policy.computeBlockAckReqParameters edcaf.frames
  let blockAckReq : BasicBlockAckReq := ⟨receiverAddress, tid, startingSequenceNumber⟩
  { frames := { edcaf.frames with
      ackStatuses := processTransmittedBlockAckReq edcaf.frames.ackStatuses blockAckReq }
    awaited := .blockAck blockAckReq }

/-- The sequence that `HcfFs` and `TxOpFs` select for the frame to transmit. -/
def transmit (edcaf : Edcaf) (agreement : Option OriginatorBlockAckAgreement)
    : Except Fault Edcaf :=
  match edcaf.frames.findEligible with
  | none => .error .undefinedBehaviour
  | some packet =>
    if packet.header.receiverAddress.isMulticast then
      .ok { edcaf with frames := edcaf.frames.dropFrame packet }
    else if policy.isBlockAckReqNeeded edcaf.frames then .ok (transmitBlockAckReq policy edcaf)
    else edcaf.transmitData packet (policy.computeAckPolicy packet agreement)

/-- The Ack branch of `originatorProcessReceivedControlFrame`. -/
def ackReceived (packet : DataPacket) : Except Fault InProgressFrames := do
  let ackStatuses ← processReceivedAck frames.ackStatuses packet.id
  return { frames with ackStatuses := ackStatuses }.dropFrameAndStatus packet

/-- The data branch of `originatorProcessFailedFrame`. -/
def ackTimeout (packet : DataPacket) (retryLimitReached : Bool) :
    Except Fault InProgressFrames := do
  assert (packet.header.ackPolicy = .NORMAL_ACK)
  let ackStatuses ← processFailedFrame frames.ackStatuses packet.id
  let frames := { frames with ackStatuses := ackStatuses }
  return if retryLimitReached then frames.dropFrameAndStatus packet else frames

/-- The BlockAck branch of `originatorProcessReceivedControlFrame`. -/
def blockAckReceived (blockAck : AddressedBlockAck) : InProgressFrames :=
  let result := QosAckHandler.processReceivedBlockAck frames.ackStatuses blockAck
  let ackedSeqAndFragNums := result.1
  { frames.dropFrames ackedSeqAndFragNums with
    ackStatuses := QosAckHandler.dropFrames result.2 ackedSeqAndFragNums }

def handle (edcaf : Edcaf) : Event → Except Fault Edcaf
  | .ensureHasFrameToTransmit extracted => do
    let frames ← edcaf.frames.ensureHasFrameToTransmit extracted
    return { edcaf with frames := frames }
  | .getPendingFrameFor isRts extracted extractedNext => do
    let (_, frames) ← edcaf.frames.getPendingFrameFor isRts extracted extractedNext
    return { edcaf with frames := frames }
  | .internalCollision extracted retryLimitReached => do
    let (packet, frames) ← edcaf.frames.getFrameToTransmit extracted
    let frames ← dropOnRetryLimit frames retryLimitReached packet
    return { edcaf with frames := frames }
  | .rtsProtectionFailed retryLimitReached => do
    let frames ← dropOnRetryLimit edcaf.frames retryLimitReached edcaf.frames.findEligible
    return { edcaf with frames := frames }
  | .transmit agreement => edcaf.transmit policy agreement
  | .ackReceived => match edcaf.awaited with
    | .ack packet => do
      let frames ← ackReceived edcaf.frames packet
      return ⟨frames, .nothing⟩
    | _ => .error .runtimeError
  | .ackTimeout retryLimitReached => match edcaf.awaited with
    | .ack packet => do
      let frames ← ackTimeout edcaf.frames packet retryLimitReached
      return ⟨frames, .nothing⟩
    | _ => .error .runtimeError
  | .blockAckReceived blockAck => .ok ⟨blockAckReceived edcaf.frames blockAck, .nothing⟩
  | .blockAckTimeout => match edcaf.awaited with
    | .blockAck blockAckReq =>
      let ackStatuses := processFailedBlockAckReq edcaf.frames.ackStatuses blockAckReq
      .ok ⟨{ edcaf.frames with ackStatuses := ackStatuses }, .nothing⟩
    | _ => .error .runtimeError

/-- One EDCAF as a component. -/
def machine : Machine Edcaf Event Fault where
  Enabled := Enabled
  handle := handle policy

def initial : Edcaf := {}

end Edcaf

end Inet4.Ieee80211
