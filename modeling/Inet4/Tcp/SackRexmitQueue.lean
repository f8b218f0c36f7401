import Inet4.Kernel
import Inet4.Tcp.SeqNum

/-!
# The SACK retransmission queue

`TcpSackRexmitQueue` keeps the data that was sent and is not acknowledged yet as a list of regions
of sequence numbers, each with the information whether the receiver has reported it (sacked) and
whether it was sent again (rexmitted).  A region is split in place when an operation begins or ends
inside it.  A failed `ASSERT` ends the simulation.
-/

namespace Inet4.Tcp

namespace SackRexmitQueue

structure Region where
  beginSeqNum : SeqNum
  endSeqNum : SeqNum
  sacked : Bool
  rexmitted : Bool
deriving DecidableEq

end SackRexmitQueue

open SackRexmitQueue

structure SackRexmitQueue where
  rexmitQueue : List SackRexmitQueue.Region
  /-- The first sequence number stored. -/
  begin : SeqNum
  /-- The last sequence number stored, plus one. -/
  «end» : SeqNum
deriving DecidableEq

namespace SackRexmitQueue

def initial : SackRexmitQueue := ⟨[], 0, 0⟩

/-- The loop of `checkQueue`, from a region on. -/
def checkRegions : (b : SeqNum) → List Region → (e : SeqNum) → Prop
  | b, [], e => b = e
  | b, elem :: rest, e =>
    b = elem.beginSeqNum ∧ seqLess elem.beginSeqNum elem.endSeqNum ∧
      checkRegions elem.endSeqNum rest e

instance decidableCheckRegions : (b : SeqNum) → (regions : List Region) → (e : SeqNum) →
    Decidable (checkRegions b regions e)
  | b, [], e => inferInstanceAs (Decidable (b = e))
  | b, elem :: rest, e =>
    have := decidableCheckRegions elem.endSeqNum rest e
    inferInstanceAs (Decidable (b = elem.beginSeqNum ∧ _))

def checkQueue (q : SackRexmitQueue) : Prop := checkRegions q.begin q.rexmitQueue q.end

instance (q : SackRexmitQueue) : Decidable q.checkQueue :=
  inferInstanceAs (Decidable (checkRegions ..))

/-- The regions that lie before a sequence number, over which the search for it moves. -/
def regionsBefore (regions : List Region) (seqNum : SeqNum) : List Region :=
  regions.takeWhile fun i ↦ seqLE i.endSeqNum seqNum

/-- The regions from the one on at which the search for a sequence number stops. -/
def regionsFrom (regions : List Region) (seqNum : SeqNum) : List Region :=
  regions.dropWhile fun i ↦ seqLE i.endSeqNum seqNum

section Operations

variable (q : SackRexmitQueue)

def init (seqNum : SeqNum) : SackRexmitQueue := { q with begin := seqNum, «end» := seqNum }

variable (regions : List Region)

/-- The regions that `discardUpTo` leaves. -/
def discardRegions (seqNum : SeqNum) : Except Fault (List Region) :=
  match regionsFrom regions seqNum with
  | [] => .ok []
  | i :: rest => do
    assert (seqLE i.beginSeqNum seqNum ∧ seqLess seqNum i.endSeqNum)
    return { i with beginSeqNum := seqNum } :: rest

def discardUpTo (seqNum : SeqNum) : Except Fault SackRexmitQueue := do
  assert (seqLE q.begin seqNum ∧ seqLE seqNum q.end)
  let regions ← discardRegions q.rexmitQueue seqNum
  let next : SackRexmitQueue := { q with rexmitQueue := regions, begin := seqNum }
  assert next.checkQueue
  return next

/-- Splits the region at which a search stops, if the sequence number lies inside it. -/
def splitRegion (i : Region) (fromSeqNum : SeqNum) : List Region × Region :=
  if i.beginSeqNum ≠ fromSeqNum then
    ([{ i with endSeqNum := fromSeqNum }], { i with beginSeqNum := fromSeqNum })
  else ([], i)

/-- The rest of `enqueueSentData`, from the region on that begins at `fromSeqNum`: the loop over the
regions that are sent again, and the region behind them. -/
def rexmitRegions (toSeqNum : SeqNum) : (fromSeqNum : SeqNum) → List Region →
    Except Fault (List Region)
  | fromSeqNum, [] =>
    if fromSeqNum ≠ toSeqNum then .ok [⟨fromSeqNum, toSeqNum, false, false⟩] else .ok []
  | fromSeqNum, i :: rest =>
    if seqLE i.endSeqNum toSeqNum then do
      let rest ← rexmitRegions toSeqNum i.endSeqNum rest
      return { i with rexmitted := true } :: rest
    else if fromSeqNum ≠ toSeqNum then do
      assert (seqLess i.beginSeqNum toSeqNum)
      return ⟨fromSeqNum, toSeqNum, i.sacked, true⟩ :: { i with beginSeqNum := toSeqNum } :: rest
    else .ok (i :: rest)

/-- The end of `enqueueSentData`. -/
def withRegions : Except Fault SackRexmitQueue :=
  match regions.head?, regions.getLast? with
  | some front, some back => do
    let next : SackRexmitQueue := ⟨regions, front.beginSeqNum, back.endSeqNum⟩
    assert next.checkQueue
    return next
  | _, _ => .error .undefinedBehaviour

def enqueueSentData (fromSeqNum toSeqNum : SeqNum) : Except Fault SackRexmitQueue := do
  assert (seqLE q.begin fromSeqNum ∧ seqLE fromSeqNum q.end)
  assert (seqLess fromSeqNum toSeqNum)
  if q.rexmitQueue = [] ∨ q.end = fromSeqNum then
    withRegions (q.rexmitQueue ++ [⟨fromSeqNum, toSeqNum, false, false⟩])
  else
    match regionsFrom q.rexmitQueue fromSeqNum with
    | [] => .error .runtimeError
    | i :: rest => do
      assert (seqLE i.beginSeqNum fromSeqNum ∧ seqLess fromSeqNum i.endSeqNum)
      let parts := splitRegion i fromSeqNum
      let rexmitted ← rexmitRegions toSeqNum fromSeqNum (parts.2 :: rest)
      withRegions (regionsBefore q.rexmitQueue fromSeqNum ++ parts.1 ++ rexmitted)

/-- The second loop of `setSackedBit` and the region that it ends in. -/
def sackRegions (fromSeqNum toSeqNum : SeqNum) : List Region → List Region
  | [] => []
  | i :: rest =>
    if seqLE i.endSeqNum toSeqNum then
      (if seqGE i.beginSeqNum fromSeqNum then { i with sacked := true } else i) ::
        sackRegions fromSeqNum toSeqNum rest
    else if seqLess i.beginSeqNum toSeqNum ∧ seqLess toSeqNum i.endSeqNum then
      { i with endSeqNum := toSeqNum, sacked := true } :: { i with beginSeqNum := toSeqNum } :: rest
    else i :: rest

/-- The regions that `setSackedBit` leaves. -/
def sackedRegions (fromSeqNum toSeqNum : SeqNum) : Except Fault (List Region) :=
  if regions = [] then .ok []
  else
    match regionsFrom regions fromSeqNum with
    | [] => .error .runtimeError
    | i :: rest => do
      assert (seqLE i.beginSeqNum fromSeqNum ∧ seqLess fromSeqNum i.endSeqNum)
      let parts := splitRegion i fromSeqNum
      return regionsBefore regions fromSeqNum ++ parts.1 ++
        sackRegions fromSeqNum toSeqNum (parts.2 :: rest)

variable (fromSeqNum : SeqNum)

/-- The first byte that `setSackedBit` marks. -/
def firstSacked : SeqNum :=
  if seqLess fromSeqNum q.begin then q.begin else fromSeqNum

def setSackedBit (fromSeqNum toSeqNum : SeqNum) : Except Fault SackRexmitQueue := do
  let fromSeqNum := q.firstSacked fromSeqNum
  assert (seqLess fromSeqNum q.end)
  assert (seqLess q.begin toSeqNum ∧ seqLE toSeqNum q.end)
  assert (seqLess fromSeqNum toSeqNum)
  let regions ← sackedRegions q.rexmitQueue fromSeqNum toSeqNum
  let next : SackRexmitQueue := { q with rexmitQueue := regions }
  assert next.checkQueue
  return next

def resetSackedBit : SackRexmitQueue :=
  { q with rexmitQueue := q.rexmitQueue.map fun elem ↦ { elem with sacked := false } }

def resetRexmittedBit : SackRexmitQueue :=
  { q with rexmitQueue := q.rexmitQueue.map fun elem ↦ { elem with rexmitted := false } }

def getSackedBit (seqNum : SeqNum) : Except Fault Bool := do
  assert (seqLE q.begin seqNum ∧ seqLE seqNum q.end)
  if q.end = seqNum then return false
  else
    match regionsFrom q.rexmitQueue seqNum with
    | [] => .error .runtimeError
    | i :: _ => do
      assert (seqLE i.beginSeqNum seqNum ∧ seqLess seqNum i.endSeqNum)
      return i.sacked

/-- The end of the last region with a property. -/
def highestEnd (property : Region → Bool) : SeqNum :=
  match q.rexmitQueue.reverse.find? property with
  | some i => i.endSeqNum
  | none => q.begin

def getHighestSackedSeqNum : SeqNum := q.highestEnd Region.sacked

def getHighestRexmittedSeqNum : SeqNum := q.highestEnd Region.rexmitted

/-- The second loop of `checkRexmitQueueForSackedOrRexmittedSegments`. -/
def contiguousBytes : (fromSeqNum : SeqNum) → (bytes : BitVec 32) → List Region →
    Except Fault (BitVec 32)
  | _, bytes, [] => .ok bytes
  | fromSeqNum, bytes, i :: rest =>
    if i.sacked ∨ i.rexmitted then do
      assert (seqLE i.beginSeqNum fromSeqNum ∧ seqLess fromSeqNum i.endSeqNum)
      contiguousBytes i.endSeqNum (bytes + (i.endSeqNum - fromSeqNum)) rest
    else .ok bytes

def checkRexmitQueueForSackedOrRexmittedSegments : Except Fault (BitVec 32) := do
  assert (seqLE q.begin fromSeqNum ∧ seqLE fromSeqNum q.end)
  if q.rexmitQueue = [] ∨ q.end = fromSeqNum then return 0
  else contiguousBytes fromSeqNum 0 (regionsFrom q.rexmitQueue fromSeqNum)

/-- The sum over the sacked regions. -/
def sackedSum (bytes : BitVec 32) : BitVec 32 :=
  regions.foldl
    (fun bytes elem ↦ if elem.sacked then bytes + (elem.endSeqNum - elem.beginSeqNum) else bytes)
    bytes

def getTotalAmountOfSackedBytes : BitVec 32 := sackedSum q.rexmitQueue 0

/-- The loop of `getAmountOfSackedBytes`, over the regions from the back on, and the region at which
it ends. -/
def sackedAbove (fromSeqNum : SeqNum) : (bytes : BitVec 32) → List Region → BitVec 32
  | bytes, [] => bytes
  | bytes, i :: rest =>
    if seqLE fromSeqNum i.beginSeqNum then
      sackedAbove fromSeqNum
        (if i.sacked then bytes + (i.endSeqNum - i.beginSeqNum) else bytes) rest
    else if seqLess i.beginSeqNum fromSeqNum ∧ seqLess fromSeqNum i.endSeqNum ∧ i.sacked then
      bytes + (i.endSeqNum - fromSeqNum)
    else bytes

def getAmountOfSackedBytes : Except Fault (BitVec 32) := do
  assert (seqLE q.begin fromSeqNum ∧ seqLE fromSeqNum q.end)
  return sackedAbove fromSeqNum 0 q.rexmitQueue.reverse

/-- The second loop of `getNumOfDiscontiguousSacks`. -/
def discontiguousSacks : (prevSacked : Bool) → (counter : BitVec 32) → List Region → BitVec 32
  | _, counter, [] => counter
  | prevSacked, counter, i :: rest =>
    discontiguousSacks i.sacked (if i.sacked && !prevSacked then counter + 1 else counter) rest

def getNumOfDiscontiguousSacks : Except Fault (BitVec 32) := do
  assert (seqLE q.begin fromSeqNum ∧ seqLE fromSeqNum q.end)
  if q.rexmitQueue = [] ∨ fromSeqNum = q.end then return 0
  else return discontiguousSacks false 0 (regionsFrom q.rexmitQueue fromSeqNum)

/-- What `checkSackBlock` says of the block that starts at a sequence number. -/
structure SackBlock where
  length : BitVec 32
  sacked : Bool
  rexmitted : Bool
deriving DecidableEq

def checkSackBlock : Except Fault SackBlock := do
  assert (seqLE q.begin fromSeqNum ∧ seqLess fromSeqNum q.end)
  match regionsFrom q.rexmitQueue fromSeqNum with
  | [] => .error .runtimeError
  | i :: _ => do
    assert (seqLE i.beginSeqNum fromSeqNum ∧ seqLess fromSeqNum i.endSeqNum)
    return ⟨i.endSeqNum - fromSeqNum, i.sacked, i.rexmitted⟩

end Operations

end SackRexmitQueue

end Inet4.Tcp
