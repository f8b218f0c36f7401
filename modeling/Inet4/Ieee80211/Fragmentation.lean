import Inet4.Ieee80211.SequenceNumber
import Inet4.Kernel

/-!
# Fragmentation and reassembly of MSDUs

A frame that is longer than the fragmentation threshold is cut into fragments of the size that fits
the threshold together with the header and the trailer.  The receiver collects the fragments of a
transmitter, TID and sequence number in two masks and a vector, and puts the frame together when the
masks agree.
-/

namespace Inet4.Ieee80211

abbrev MacAddress := BitVec 48

abbrev Tid := BitVec 4

/-- The kinds of headers that are told apart: the type `ST_DATA_WITH_QOS`, the other data headers
and the management headers. -/
inductive HeaderType
  | ST_DATA
  | ST_DATA_WITH_QOS
  | management
deriving DecidableEq

/-- `Ieee80211DataOrMgmtHeader`.  The fields that are only copied are the `rest`. -/
structure DataOrMgmtHeader (R : Type) where
  type : HeaderType
  receiverAddress : MacAddress
  transmitterAddress : MacAddress
  tid : Tid
  sequenceNumber : SequenceNumber
  fragmentNumber : ℕ
  moreFragments : Bool
  retry : Bool
  /-- The length of the header in bytes. -/
  chunkLength : BitVec 8
  rest : R
deriving DecidableEq

/-- A packet with a header, its data and the trailer. -/
structure Frame (R α : Type) where
  header : DataOrMgmtHeader R
  data : List α
deriving DecidableEq

variable {R α : Type}

/-- The length of `Ieee80211MacTrailer`. -/
def trailerLength : ℕ := 4

def maxNumFragments : ℕ := 16

theorem maxNumFragments_pos : 0 < maxNumFragments := by decide

def Frame.getByteLength (frame : Frame R α) : ℕ :=
  frame.header.chunkLength.toNat + frame.data.length + trailerLength

/-- The loop of `computeFragmentSizes`, for at most a number of rounds: the sizes and the payload
that is left. -/
def sizesLoop (fragmentationThreshold headerLength : ℤ) : (rounds : ℕ) → (payloadLength : ℤ) →
    Except Fault (List ℤ × ℤ)
  | 0, _ => .error .notReturned
  | rounds + 1, payloadLength =>
    let size := fragmentationThreshold - headerLength - trailerLength
    if headerLength + trailerLength + payloadLength > fragmentationThreshold then do
      let (sizes, rest) ← sizesLoop fragmentationThreshold headerLength rounds
        (payloadLength - size)
      return (size :: sizes, rest)
    else .ok ([], payloadLength)

def computeFragmentSizes (rounds : ℕ) (fragmentationThreshold : ℕ) (frame : Frame R α) :
    Except Fault (List ℤ) :=
  if fragmentationThreshold < frame.getByteLength then
    -- management frames have no payload
    let headerLength : ℤ := match frame.header.type with
      | .management => frame.getByteLength
      | _ => frame.header.chunkLength.toNat
    let payloadLength : ℤ := match frame.header.type with
      | .management => 0
      | _ => frame.getByteLength - headerLength - trailerLength
    let maxFragmentPayload := fragmentationThreshold - headerLength - trailerLength
    if payloadLength > wrapInt (maxFragmentPayload * maxNumFragments) then .error .runtimeError
    else do
      let (sizes, rest) ← sizesLoop fragmentationThreshold headerLength rounds payloadLength
      return if rest ≠ 0 then sizes ++ [rest] else sizes
  else .ok []

/-- The fragment with a number, of the data from an offset on. -/
def Frame.fragment (frame : Frame R α) (i offset length : ℕ) (lastFragment : Bool) : Frame R α where
  header := { frame.header with fragmentNumber := i, moreFragments := !lastFragment }
  data := (frame.data.drop offset).take length

/-- The rounds of `fragmentFrame` from `i` on. -/
def fragmentFrom (frame : Frame R α) : (i offset : ℕ) → (fragmentSizes : List ℤ) →
    Except Fault (List (Frame R α))
  | _, _, [] => .ok []
  | i, offset, size :: fragmentSizes => do
    -- `peekDataAt` fails outside of the data
    assert (0 ≤ size ∧ offset + size.toNat ≤ frame.data.length)
    let fragments ← fragmentFrom frame (i + 1) (offset + size.toNat) fragmentSizes
    return frame.fragment i offset size.toNat fragmentSizes.isEmpty :: fragments

def fragmentFrame (frame : Frame R α) (fragmentSizes : List ℤ) :
    Except Fault (List (Frame R α)) :=
  fragmentFrom frame 0 0 fragmentSizes

/-- The key of `fragmentsMap`.  Frames without QoS have no TID. -/
structure Key where
  macAddress : MacAddress
  tid : Option Tid
  seqNum : SequenceNumber
deriving DecidableEq

def Frame.key (packet : Frame R α) : Key where
  macAddress := packet.header.transmitterAddress
  tid := match packet.header.type with
    | .ST_DATA_WITH_QOS => some packet.header.tid
    | _ => none
  seqNum := packet.header.sequenceNumber

structure Value (R α : Type) where
  fragments : List (Option (Frame R α)) := []
  /-- Each bit corresponds to a fragment number. -/
  receivedFragments : BitVec 16 := 0
  /-- The bits for all fragments, or zero as long as their number is not known. -/
  allFragments : BitVec 16 := 0
deriving DecidableEq

abbrev FragmentsMap (R α : Type) := AssocMap Key (Value R α)

/-- `defragmentFrames`, with the first fragment apart from the others. -/
def defragmentFrames (first : Frame R α) (others : List (Frame R α)) : Frame R α where
  header := { first.header with fragmentNumber := 0, moreFragments := false }
  data := first.data ++ others.flatMap Frame.data

/-- The entry of a frame after a fragment of it came. -/
def Value.update (value : Value R α) (packet : Frame R α) : Value R α :=
  let fragNum := packet.header.fragmentNumber
  let fragments := value.fragments ++ List.replicate (16 - value.fragments.length) none
  let fragmentBit := BitVec.ofNat 16 (1 <<< fragNum)
  { fragments :=
      match fragments.getD fragNum none with
      | some _ => fragments
      | none => fragments.set fragNum (some packet)
    receivedFragments := value.receivedFragments ||| fragmentBit
    allFragments :=
      if packet.header.moreFragments then value.allFragments
      else BitVec.ofNat 16 (fragmentBit.toNat * 2 - 1) }

/-- The fragments of a frame of which all fragments arrived. -/
def Value.complete (value : Value R α) : Option (List (Frame R α)) :=
  if value.allFragments ≠ 0 ∧ value.allFragments = value.receivedFragments then
    some (value.fragments.filterMap id)
  else none

/-- The fragments that are put together when a packet arrives, and the entries after it. -/
def collectFragments (fragmentsMap : FragmentsMap R α) (packet : Frame R α) :
    Except Fault (Option (List (Frame R α)) × FragmentsMap R α) :=
  if (packet.header.moreFragments = false ∧ packet.header.fragmentNumber = 0) ∨
      packet.header.type = .management then
    .ok (some [packet], fragmentsMap)
  else do
    assert (packet.header.fragmentNumber < maxNumFragments)
    let value := ((fragmentsMap.index packet.key {}).1).update packet
    match value.complete with
    | some fragments => .ok (some fragments, fragmentsMap.remove packet.key)
    | none => .ok (none, fragmentsMap.assign packet.key value)

def addFragment (fragmentsMap : FragmentsMap R α) (packet : Frame R α) :
    Except Fault (Option (Frame R α) × FragmentsMap R α) :=
  if (packet.header.moreFragments = false ∧ packet.header.fragmentNumber = 0) ∨
      packet.header.type = .management then
    .ok (some packet, fragmentsMap)
  else do
    let (completed, fragmentsMap) ← collectFragments fragmentsMap packet
    match completed with
    | none => .ok (none, fragmentsMap)
    | some [] => .error .undefinedBehaviour
    | some (first :: others) => .ok (some (defragmentFrames first others), fragmentsMap)

end Inet4.Ieee80211
