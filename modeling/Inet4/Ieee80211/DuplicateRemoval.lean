import Inet4.Ieee80211.Fragmentation

/-!
# Sequence numbers of frames and the removal of duplicates

The transmitter numbers unicast QoS data for each receiver and TID, and every other frame by a
counter that all receivers share.  The receiver remembers the numbers of the frame that came last:
for each TID of a transmitter, or for the transmitter when it is a management frame.
-/

namespace Inet4.Ieee80211

variable {R : Type}

/-- The lowest bit of the first of the six bytes. -/
def MacAddress.isMulticast (address : MacAddress) : Bool := address.getLsbD 40

inductive CacheType
  | SHARED
  | TIME_PRIORITY
  | DATA

variable (header : DataOrMgmtHeader R)

def getCacheType (incoming : Bool) : CacheType :=
  let isTimePriorityFrame := false
  let address := if incoming then header.transmitterAddress else header.receiverAddress
  if isTimePriorityFrame then .TIME_PRIORITY
  else if header.type ≠ .ST_DATA_WITH_QOS ∨ MacAddress.isMulticast address = true then .SHARED
  else .DATA

/-- The numbers that were sent last. -/
structure QoSSequenceNumberAssignment where
  lastSentSeqNums : AssocMap (MacAddress × Tid) SequenceNumber := ∅
  lastSentSharedSeqNums : AssocMap MacAddress SequenceNumber := ∅
  lastSentSharedCounterSeqNum : SequenceNumber := 0

/-- The number of the next frame. -/
def QoSSequenceNumberAssignment.next (assignment : QoSSequenceNumberAssignment)
    (header : DataOrMgmtHeader R) : Except Fault (SequenceNumber × QoSSequenceNumberAssignment) :=
  match getCacheType header false with
  | .SHARED =>
    match assignment.lastSentSharedSeqNums.find header.receiverAddress with
    | none =>
      let seqNum := assignment.lastSentSharedCounterSeqNum
      .ok (seqNum, { assignment with
        lastSentSharedSeqNums :=
          assignment.lastSentSharedSeqNums.assign header.receiverAddress seqNum })
    | some last =>
      let counter := if last = assignment.lastSentSharedCounterSeqNum
        then assignment.lastSentSharedCounterSeqNum + 1
        else assignment.lastSentSharedCounterSeqNum
      .ok (counter, { assignment with
        lastSentSharedCounterSeqNum := counter
        lastSentSharedSeqNums :=
          assignment.lastSentSharedSeqNums.assign header.receiverAddress counter })
  | .DATA =>
    let key := (header.receiverAddress, header.tid)
    let seqNum := match assignment.lastSentSeqNums.find key with
      | none => 0
      | some last => last + 1
    .ok (seqNum, { assignment with
      lastSentSeqNums := assignment.lastSentSeqNums.assign key seqNum })
  -- a time priority frame is neither `SHARED` nor `DATA`
  | .TIME_PRIORITY => .error .runtimeError

def assignSequenceNumber (assignment : QoSSequenceNumberAssignment)
    (header : DataOrMgmtHeader R) :
    Except Fault (DataOrMgmtHeader R × QoSSequenceNumberAssignment) := do
  let (seqNum, assignment) ← assignment.next header
  return ({ header with sequenceNumber := seqNum }, assignment)

/-- `SequenceControlField` of a header. -/
structure SequenceControlField where
  sequenceNumber : SequenceNumber
  fragmentNumber : ℕ
deriving DecidableEq

def DataOrMgmtHeader.seqVal : SequenceControlField where
  sequenceNumber := header.sequenceNumber
  fragmentNumber := header.fragmentNumber

section Cache

variable {K : Type} [DecidableEq K]

/-- Whether a frame is a duplicate by a cache, and the cache after the frame. -/
def checkCache (cache : AssocMap K SequenceControlField) (key : K) (header : DataOrMgmtHeader R) :
    Bool × AssocMap K SequenceControlField :=
  match cache.find key with
  | none => (false, cache.emplace key header.seqVal)
  | some last =>
    if last = header.seqVal ∧ header.retry then (true, cache)
    else (false, cache.assign key header.seqVal)

variable {cache : AssocMap K SequenceControlField} {key key' : K} {header : DataOrMgmtHeader R}

theorem checkCache_iff :
    (checkCache cache key header).1 = true ↔
      cache.find key = some header.seqVal ∧ header.retry = true := by
  unfold checkCache
  cases hfind : cache.find key with
  | none => simp
  | some last => by_cases h : last = header.seqVal ∧ header.retry <;> simp [h]

/-- Whatever the answer is, the cache has the numbers of the frame afterwards. -/
theorem find_checkCache :
    (checkCache cache key header).2.find key' =
      if key' = key then some header.seqVal else cache.find key' := by
  unfold checkCache
  cases hfind : cache.find key with
  | none =>
    have hnotMem := AssocMap.find_eq_none.mp hfind
    simp only [AssocMap.emplace_of_notMem hnotMem, AssocMap.find_assign]
  | some last =>
    by_cases h : last = header.seqVal ∧ header.retry
    · simp only [if_pos h]
      split
      · rename_i heq
        rw [heq, hfind, h.1]
      · rfl
    · simp only [if_neg h, AssocMap.find_assign]

end Cache

structure QoSDuplicateRemoval where
  lastSeenSeqNumCache : AssocMap (MacAddress × Tid) SequenceControlField := ∅
  lastSeenSharedSeqNumCache : AssocMap MacAddress SequenceControlField := ∅

/-- No management frame counts as a time priority management frame. -/
def isDuplicate (removal : QoSDuplicateRemoval) (header : DataOrMgmtHeader R) :
    Bool × QoSDuplicateRemoval :=
  if header.type = .management then
    let (duplicate, cache) :=
      checkCache removal.lastSeenSharedSeqNumCache header.transmitterAddress header
    (duplicate, { removal with lastSeenSharedSeqNumCache := cache })
  else
    let (duplicate, cache) :=
      checkCache removal.lastSeenSeqNumCache (header.transmitterAddress, header.tid) header
    (duplicate, { removal with lastSeenSeqNumCache := cache })

/-- The entry of the caches that a frame is compared with. -/
def DataOrMgmtHeader.cacheKey : MacAddress × Option Tid :=
  (header.transmitterAddress, if header.type = .management then none else some header.tid)

/-- The entries of both caches. -/
def QoSDuplicateRemoval.lastSeen (removal : QoSDuplicateRemoval) :
    MacAddress × Option Tid → Option SequenceControlField
  | (address, none) => removal.lastSeenSharedSeqNumCache.find address
  | (address, some tid) => removal.lastSeenSeqNumCache.find (address, tid)

variable {removal : QoSDuplicateRemoval} {header}

theorem isDuplicate_iff :
    (isDuplicate removal header).1 = true ↔
      removal.lastSeen header.cacheKey = some header.seqVal ∧ header.retry = true := by
  unfold isDuplicate DataOrMgmtHeader.cacheKey
  by_cases htype : header.type = .management
  · simp only [if_pos htype, checkCache_iff, QoSDuplicateRemoval.lastSeen]
  · simp only [if_neg htype, checkCache_iff, QoSDuplicateRemoval.lastSeen]

theorem lastSeen_isDuplicate (key : MacAddress × Option Tid) :
    (isDuplicate removal header).2.lastSeen key =
      if key = header.cacheKey then some header.seqVal else removal.lastSeen key := by
  obtain ⟨address, tid⟩ := key
  unfold isDuplicate DataOrMgmtHeader.cacheKey
  by_cases htype : header.type = .management
  · cases tid with
    | none => simp [htype, QoSDuplicateRemoval.lastSeen, find_checkCache]
    | some tid => simp [htype, QoSDuplicateRemoval.lastSeen]
  · cases tid with
    | none => simp [htype, QoSDuplicateRemoval.lastSeen]
    | some tid => simp [htype, QoSDuplicateRemoval.lastSeen, find_checkCache]

end Inet4.Ieee80211
