import Inet4.Ieee80211.SequenceNumber
import Inet4.Kernel
import Inet4.Machine
import Inet4.OrderedMap

/-!
# Block Ack: the recipient of one agreement

The recipient buffers the MPDUs of an originator until their MSDUs are complete and passes the MSDUs
up in the order of their sequence numbers.  A Block Ack record keeps which MPDUs were received, and
a BlockAckReq is answered from it after the reorder buffer has seen the request.  The maps of both
are ordered by the comparison of sequence numbers.
-/

namespace Inet4.Ieee80211

open SequenceNumber OrderedMap

abbrev FragmentNumber := ℕ

inductive AckPolicy
  | NORMAL_ACK
  | NO_ACK
  | NO_EXPLICIT_ACK
  | BLOCK_ACK
deriving DecidableEq

/-- The fields of `Ieee80211DataHeader` that the recipient uses. -/
structure Mpdu where
  sequenceNumber : SequenceNumber
  fragmentNumber : FragmentNumber
  moreFragments : Bool
  ackPolicy : AckPolicy
deriving DecidableEq

/-- The fragments of an entry of the buffer, which is made with the first one of them. -/
structure Fragments where
  first : Mpdu
  rest : List Mpdu := []
deriving DecidableEq

namespace Fragments

variable (fragments : Fragments)

def toList : List Mpdu := fragments.first :: fragments.rest

def pushBack (mpdu : Mpdu) : Fragments :=
  { fragments with rest := fragments.rest ++ [mpdu] }

def size : ℕ := fragments.toList.length

/-- A fragment without more fragments to follow gives the number that there have to be. -/
def isComplete : Bool :=
  let largestFragmentNumber := fragments.toList.foldl
    (fun largest fragment ↦ if fragment.moreFragments then largest else fragment.fragmentNumber)
    (-1 : ℤ)
  let fragNums := (fragments.toList.map (·.fragmentNumber)).dedup
  largestFragmentNumber ≠ -1 ∧ largestFragmentNumber + 1 = fragNums.length

end Fragments

/-- `std::map<SequenceNumber, Fragments>`. -/
abbrev ReorderBuffer := OrderedMap SequenceNumber Fragments

structure ReceiveBuffer where
  buffer : ReorderBuffer := []
  bufferSize : ℕ
  length : ℤ := 0
  nextExpectedSequenceNumber : SequenceNumber
deriving DecidableEq

namespace ReceiveBuffer

variable (receiveBuffer : ReceiveBuffer)

def insertFrame (mpdu : Mpdu) : Bool × ReceiveBuffer :=
  let nextExpected := receiveBuffer.nextExpectedSequenceNumber
  if receiveBuffer.length < receiveBuffer.bufferSize ∧
      lessEq nextExpected mpdu.sequenceNumber = true ∧
      less mpdu.sequenceNumber (nextExpected + BitVec.ofNat 12 receiveBuffer.bufferSize) = true then
    match find less receiveBuffer.buffer mpdu.sequenceNumber with
    | some (_, fragments) =>
      if fragments.toList.any fun fragment ↦
          fragment.sequenceNumber = mpdu.sequenceNumber ∧
            fragment.fragmentNumber = mpdu.fragmentNumber then
        (false, receiveBuffer)
      else
        (true,
          { receiveBuffer with
            buffer := assign less receiveBuffer.buffer mpdu.sequenceNumber
              (fragments.pushBack mpdu)
            length := receiveBuffer.length + 1 })
    | none =>
      (true,
        { receiveBuffer with
          buffer := assign less receiveBuffer.buffer mpdu.sequenceNumber ⟨mpdu, []⟩
          length := receiveBuffer.length + 1 })
  else (false, receiveBuffer)

/-- The number of MPDUs in a part of the buffer. -/
def numMpdus (entries : ReorderBuffer) : ℕ := (entries.map fun it ↦ it.2.size).sum

variable (sequenceNumber : SequenceNumber)

def dropFramesUntil : ReceiveBuffer :=
  { receiveBuffer with
    buffer := receiveBuffer.buffer.filter fun it ↦ !less it.1 sequenceNumber
    length := receiveBuffer.length -
      numMpdus (receiveBuffer.buffer.filter fun it ↦ less it.1 sequenceNumber) }

def removeFrame : Except Fault ReceiveBuffer :=
  match find less receiveBuffer.buffer sequenceNumber with
  | some (_, fragments) =>
    .ok
      { receiveBuffer with
        length := receiveBuffer.length - fragments.size
        buffer := erase less receiveBuffer.buffer sequenceNumber }
  | none => .error .runtimeError

def setNextExpectedSequenceNumber : ReceiveBuffer :=
  { receiveBuffer with nextExpectedSequenceNumber := sequenceNumber }

def isFull : Except Fault Bool := do
  assert (receiveBuffer.length ≤ receiveBuffer.bufferSize)
  return receiveBuffer.length = receiveBuffer.bufferSize

end ReceiveBuffer

/-- The key of an acknowledgment state. -/
abbrev SequenceControl := SequenceNumber × FragmentNumber

/-- The comparison of `std::pair`. -/
def SequenceControl.less (a b : SequenceControl) : Bool :=
  SequenceNumber.less a.1 b.1 || (!SequenceNumber.less b.1 a.1 && a.2 < b.2)

/-- `BlockAckRecord`, its map `acknowledgmentState`. -/
abbrev BlockAckRecord := OrderedMap SequenceControl Bool

namespace BlockAckRecord

variable (record : BlockAckRecord)

def blockAckPolicyFrameReceived (header : Mpdu) : BlockAckRecord :=
  assign SequenceControl.less record (header.sequenceNumber, header.fragmentNumber) true

/-- The status of an MPDU before the first one with a status is reported as received. -/
def getAckState (sequenceNumber : SequenceNumber)
    (fragmentNumber : FragmentNumber) : Bool :=
  match find SequenceControl.less record (sequenceNumber, fragmentNumber) with
  | some _ => true
  | none =>
    match record with
    | [] => true
    | earliest :: _ => SequenceNumber.less sequenceNumber earliest.1.1

def removeAckStates (sequenceNumber : SequenceNumber) :
    BlockAckRecord :=
  record.filter fun it ↦ !SequenceNumber.less it.1.1 sequenceNumber

end BlockAckRecord

/-- `RecipientBlockAckAgreement`.  The ADDBA Request has 10 bits for the buffer size. -/
structure RecipientBlockAckAgreement where
  blockAckRecord : BlockAckRecord := []
  startingSequenceNumber : SequenceNumber
  bufferSize : BitVec 10
deriving DecidableEq

namespace RecipientBlockAckAgreement

def blockAckPolicyFrameReceived (agreement : RecipientBlockAckAgreement) (header : Mpdu) :
    RecipientBlockAckAgreement :=
  { agreement with
    blockAckRecord := agreement.blockAckRecord.blockAckPolicyFrameReceived header }

end RecipientBlockAckAgreement

/-- An agreement and its receive buffer, which is made for the first MPDU. -/
structure Recipient where
  agreement : RecipientBlockAckAgreement
  receiveBuffer : Option ReceiveBuffer := none
deriving DecidableEq

namespace BlockAckReordering

variable (recipient : Recipient)

def createReceiveBufferIfNecessary : ReceiveBuffer :=
  match recipient.receiveBuffer with
  | some receiveBuffer => receiveBuffer
  | none =>
    { bufferSize := recipient.agreement.bufferSize.toNat
      nextExpectedSequenceNumber := recipient.agreement.startingSequenceNumber }

variable (agreement : RecipientBlockAckAgreement)

def passedUp (receiveBuffer : ReceiveBuffer) (sequenceNumber : SequenceNumber) :
    Except Fault (RecipientBlockAckAgreement × ReceiveBuffer) := do
  let receiveBuffer := receiveBuffer.setNextExpectedSequenceNumber (sequenceNumber + 1)
  let receiveBuffer ← (receiveBuffer.dropFramesUntil sequenceNumber).removeFrame sequenceNumber
  let blockAckRecord := agreement.blockAckRecord.removeAckStates sequenceNumber
  return ({ agreement with blockAckRecord }, receiveBuffer)

variable (receiveBuffer : ReceiveBuffer)

/-- The complete MSDU with the earliest sequence number: the first one in the order of the map,
unless one of the others is before it. -/
def getEarliestCompleteMsduOrAMsduIfExists : Option Fragments :=
  (receiveBuffer.buffer.find? fun it ↦ it.2.isComplete).map fun it ↦
    receiveBuffer.buffer.foldl
      (fun earliestFragments it ↦
        if less it.2.first.sequenceNumber earliestFragments.first.sequenceNumber &&
            it.2.isComplete then
          it.2
        else earliestFragments)
      it.2

/-- The part of `processReceivedQoSFrame` after the frame was inserted. -/
def passUpEarliest (receiveBuffer : ReceiveBuffer) : Except Fault (ReorderBuffer × Recipient) :=
  match getEarliestCompleteMsduOrAMsduIfExists receiveBuffer with
  | none => .ok ([], ⟨agreement, some receiveBuffer⟩)
  | some fragments => do
    let earliestSequenceNumber := fragments.first.sequenceNumber
    let full ← receiveBuffer.isFull
    if full ∨ earliestSequenceNumber = receiveBuffer.nextExpectedSequenceNumber then do
      let (agreement, receiveBuffer) ← passedUp agreement receiveBuffer earliestSequenceNumber
      return ([(earliestSequenceNumber, fragments)], ⟨agreement, some receiveBuffer⟩)
    else return ([], ⟨agreement, some receiveBuffer⟩)

def processReceivedQoSFrame (mpdu : Mpdu) :
    Except Fault (ReorderBuffer × Recipient) :=
  match (createReceiveBufferIfNecessary recipient).insertFrame mpdu with
  | (false, receiveBuffer) => .ok ([], ⟨recipient.agreement, some receiveBuffer⟩)
  | (true, receiveBuffer) =>
    passUpEarliest
      (if mpdu.ackPolicy = .BLOCK_ACK then recipient.agreement.blockAckPolicyFrameReceived mpdu
        else recipient.agreement)
      receiveBuffer

variable (startingSequenceNumber : SequenceNumber)

def collectCompletePrecedingMpdus : ReorderBuffer :=
  receiveBuffer.buffer.foldl
    (fun completePrecedingMpdus it ↦
      if less it.1 startingSequenceNumber && it.2.isComplete then
        assign less completePrecedingMpdus it.1 it.2
      else completePrecedingMpdus)
    []

def addMsduIfComplete (reorderBuffer : ReorderBuffer) (seqNum : SequenceNumber)
    : Option ReorderBuffer :=
  match find less receiveBuffer.buffer seqNum with
  | some (_, fragments) =>
    if fragments.isComplete then some (assign less reorderBuffer seqNum fragments)
    else none
  | none => none

/-- The rounds of the loop from `i` on. -/
def collectFrom (receiveBuffer : ReceiveBuffer) (startingSequenceNumber : SequenceNumber) :
    (rounds i : ℕ) → ReorderBuffer → ReorderBuffer
  | 0, _, framesToPassUp => framesToPassUp
  | rounds + 1, i, framesToPassUp =>
    match addMsduIfComplete receiveBuffer framesToPassUp
        (startingSequenceNumber + BitVec.ofNat 12 i) with
    | some framesToPassUp =>
      collectFrom receiveBuffer startingSequenceNumber rounds (i + 1) framesToPassUp
    | none => framesToPassUp

def collectConsecutiveCompleteFollowingMpdus : ReorderBuffer :=
  collectFrom receiveBuffer startingSequenceNumber receiveBuffer.bufferSize 0 []

def releaseReceiveBuffer (receiveBuffer : ReceiveBuffer) (reorderBuffer : ReorderBuffer) :
    Except Fault (RecipientBlockAckAgreement × ReceiveBuffer) :=
  reorderBuffer.foldlM (fun state it ↦ passedUp state.1 state.2 it.1) (agreement, receiveBuffer)

/-- When no MSDU is passed up the window moves on to the starting sequence number. -/
def moveWindow (numOfMsdusToPassUp : ℕ) : ReceiveBuffer :=
  if numOfMsdusToPassUp = 0 ∧
      less receiveBuffer.nextExpectedSequenceNumber startingSequenceNumber = true then
    receiveBuffer.setNextExpectedSequenceNumber startingSequenceNumber
  else receiveBuffer

def processReceivedBlockAckReq
    (startingSequenceNumber : SequenceNumber) : Except Fault (ReorderBuffer × Recipient) :=
  match recipient.receiveBuffer with
  | none => .ok ([], recipient)
  | some receiveBuffer => do
    let completePreceding := collectCompletePrecedingMpdus receiveBuffer startingSequenceNumber
    let consecutiveFollowing :=
      collectConsecutiveCompleteFollowingMpdus receiveBuffer startingSequenceNumber
    let receiveBuffer := moveWindow receiveBuffer startingSequenceNumber
      (completePreceding.length + consecutiveFollowing.length)
    let (agreement, receiveBuffer) ←
      releaseReceiveBuffer recipient.agreement receiveBuffer completePreceding
    let (agreement, receiveBuffer) ←
      releaseReceiveBuffer agreement receiveBuffer consecutiveFollowing
    return (insertAll less completePreceding consecutiveFollowing,
      ⟨agreement, some receiveBuffer⟩)

end BlockAckReordering

/-- `Ieee80211BasicBlockAck`: a bit for each of 16 fragments of 64 MSDUs. -/
structure BasicBlockAck where
  startingSequenceNumber : SequenceNumber
  blockAckBitmap : List (List Bool)

def buildBlockAck (startingSequenceNumber : SequenceNumber)
    (agreement : RecipientBlockAckAgreement) : BasicBlockAck where
  startingSequenceNumber := startingSequenceNumber
  blockAckBitmap := (List.range 64).map fun i ↦ (List.range 16).map fun fragNum ↦
    agreement.blockAckRecord.getAckState (startingSequenceNumber + BitVec.ofNat 12 i) fragNum

/-- `QosAckHandler::processReceivedBlockAck`: the frames among those that wait for a Block Ack whose
bit is set. -/
def processReceivedBlockAck (waiting : List SequenceControl) (blockAck : BasicBlockAck) :
    List SequenceControl :=
  (List.range 64).flatMap fun seqNum ↦ (List.range 16).filterMap fun fragNum ↦
    let id := (blockAck.startingSequenceNumber + BitVec.ofNat 12 seqNum, fragNum)
    if id ∈ waiting ∧ (blockAck.blockAckBitmap.getD seqNum []).getD fragNum false = true then
      some id
    else none

namespace Recipient

def nextExpectedSequenceNumber (recipient : Recipient) : SequenceNumber :=
  (BlockAckReordering.createReceiveBufferIfNecessary recipient).nextExpectedSequenceNumber

/-- The entries of the receive buffer. -/
def buffer (recipient : Recipient) : ReorderBuffer :=
  (BlockAckReordering.createReceiveBufferIfNecessary recipient).buffer

end Recipient

inductive Event
  | qosFrame (mpdu : Mpdu)
  | blockAckReq (startingSequenceNumber : SequenceNumber)
deriving DecidableEq

/-- An MSDU that was passed up.  Its position is its place in the unwrapped sequence. -/
structure PassedUp where
  position : ℤ
  sequenceNumber : SequenceNumber
  fragments : Fragments
deriving DecidableEq

/-- A recipient with the history of its agreement.  Sequence numbers are unwrapped along the next
expected one: `position` adds up its moves, each of them less than half of the ring forward or back,
and the other numbers are placed relative to it. -/
structure History where
  recipient : Recipient
  received : List Mpdu := []
  accepted : List SequenceControl := []
  position : ℤ := 0
  passed : List PassedUp := []
deriving DecidableEq

namespace History

/-- The history after MSDUs were passed up. -/
def passUp (history : History) (frames : ReorderBuffer) (recipient : Recipient) : History :=
  let base := history.recipient.nextExpectedSequenceNumber
  { history with
    recipient := recipient
    position := history.position + (recipient.nextExpectedSequenceNumber - base).toInt
    passed := history.passed ++ frames.map fun it ↦
      ⟨history.position + (it.1 - base).toInt, it.1, it.2⟩ }

/-- The history after an MPDU arrived. -/
def receive (history : History) (mpdu : Mpdu) : History :=
  let inserted :=
    ((BlockAckReordering.createReceiveBufferIfNecessary history.recipient).insertFrame mpdu).1
  { history with
    received := history.received ++ [mpdu]
    accepted := history.accepted ++
      if inserted then [(mpdu.sequenceNumber, mpdu.fragmentNumber)] else [] }

def handle (history : History) : Event → Except Fault History
  | .qosFrame mpdu => do
    let (frames, recipient) ←
      BlockAckReordering.processReceivedQoSFrame history.recipient mpdu
    return (history.receive mpdu).passUp frames recipient
  | .blockAckReq startingSequenceNumber => do
    let (frames, recipient) ←
      BlockAckReordering.processReceivedBlockAckReq history.recipient startingSequenceNumber
    return history.passUp frames recipient

def machine : Machine History Event Fault where
  Enabled _ _ := True
  handle := handle

instance (history : History) (event : Event) : Decidable (machine.Enabled history event) :=
  isTrue trivial

/-- An agreement that was just made. -/
def initial (startingSequenceNumber : SequenceNumber) (bufferSize : BitVec 10) : History where
  recipient := { agreement := { startingSequenceNumber, bufferSize } }

end History

end Inet4.Ieee80211
