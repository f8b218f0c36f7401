import Inet4.Ieee80211.BlockAckReordering
import Inet4.Ieee80211.DuplicateRemoval

/-!
# The acknowledgement handler of an originator

For each QoS data frame in progress the originator keeps how far its acknowledgement has come.  The
map is ordered by receiver, TID, sequence number and fragment number, where sequence numbers are
compared cyclically.  A BlockAckReq makes the handler wait for the frames that it asks for; the
BlockAck, or its timeout, ends the wait.
-/

namespace Inet4.Ieee80211

open SequenceNumber List OrderedMap

/-- `QoSKey`.  The constructor of `SequenceControlField` asserts the bound of the fragment
number. -/
structure QoSKey where
  receiverAddress : MacAddress
  tid : Tid
  sequenceNumber : SequenceNumber
  fragmentNumber : Fin maxNumFragments
deriving DecidableEq

namespace QoSKey

/-- `operator<` of `SequenceControlField`. -/
def sequenceControlLess (a b : QoSKey) : Bool :=
  SequenceNumber.less a.sequenceNumber b.sequenceNumber ||
    (a.sequenceNumber = b.sequenceNumber && a.fragmentNumber < b.fragmentNumber)

/-- The comparison of nested pairs. -/
def less (a b : QoSKey) : Bool :=
  a.receiverAddress < b.receiverAddress ||
    (!(b.receiverAddress < a.receiverAddress) &&
      (a.tid < b.tid || (!(b.tid < a.tid) && sequenceControlLess a b)))

end QoSKey

inductive Status
  | FRAME_NOT_YET_TRANSMITTED
  | NO_ACK_REQUIRED
  | BLOCK_ACK_NOT_YET_REQUESTED
  | WAITING_FOR_NORMAL_ACK
  | WAITING_FOR_BLOCK_ACK
  | NORMAL_ACK_NOT_ARRIVED
  | NORMAL_ACK_ARRIVED
  | BLOCK_ACK_ARRIVED_UNACKED
  | BLOCK_ACK_ARRIVED_ACKED
  | BLOCK_ACK_NOT_ARRIVED
deriving DecidableEq

/-- The fields of `Ieee80211BasicBlockAckReq`. -/
structure BasicBlockAckReq where
  receiverAddress : MacAddress
  tidInfo : Tid
  startingSequenceNumber : SequenceNumber
deriving DecidableEq

/-- A `BasicBlockAck` with the fields that say whose frames it reports. -/
structure AddressedBlockAck extends BasicBlockAck where
  transmitterAddress : MacAddress
  tidInfo : Tid

/-- The bit of a sequence number, counted from the first one, and a fragment. -/
def AddressedBlockAck.getBit (blockAck : AddressedBlockAck) (seqNum : ℕ)
    (fragNum : Fin maxNumFragments) : Bool :=
  (blockAck.blockAckBitmap.getD seqNum []).getD fragNum false

/-- The rounds of the two loops over what a BlockAck reports. -/
def reportedPositions : List (ℕ × Fin maxNumFragments) :=
  (range 64).flatMap fun seqNum ↦
    (finRange maxNumFragments).map fun fragNum ↦ (seqNum, fragNum)

/-- The key of one round. -/
def reportedKey (receiverAddress : MacAddress) (tid : Tid) (startingSequenceNumber : SequenceNumber)
    (position : ℕ × Fin maxNumFragments) : QoSKey where
  receiverAddress := receiverAddress
  tid := tid
  sequenceNumber := startingSequenceNumber + BitVec.ofNat 12 position.1
  fragmentNumber := position.2

/-- The map `ackStatuses`. -/
abbrev AckStatuses := OrderedMap QoSKey Status

namespace QosAckHandler

variable (ackStatuses : AckStatuses) (id : QoSKey)

def getQoSDataAckStatus : Status :=
  match find QoSKey.less ackStatuses id with
  | none => .FRAME_NOT_YET_TRANSMITTED
  | some (_, status) => status

/-- `ackStatuses[id] = status`. -/
def setStatus (status : Status) : AckStatuses :=
  assign QoSKey.less ackStatuses id status

def processReceivedAck : Except Fault AckStatuses :=
  if getQoSDataAckStatus ackStatuses id = .FRAME_NOT_YET_TRANSMITTED then .error .runtimeError
  else .ok (setStatus ackStatuses id .NORMAL_ACK_ARRIVED)

def processFailedFrame : Except Fault AckStatuses :=
  match getQoSDataAckStatus ackStatuses id with
  | .WAITING_FOR_NORMAL_ACK => .ok (setStatus ackStatuses id .NORMAL_ACK_NOT_ARRIVED)
  | .WAITING_FOR_BLOCK_ACK => .ok (setStatus ackStatuses id .BLOCK_ACK_NOT_ARRIVED)
  | _ => .error .runtimeError

def dropFrame : AckStatuses :=
  erase QoSKey.less ackStatuses id

/-- `std::set<QoSKey>`. -/
abbrev QoSKeySet := OrderedMap QoSKey Unit

def dropFrames (seqAndFragNums : QoSKeySet) : AckStatuses :=
  seqAndFragNums.foldl (fun statuses it ↦ dropFrame statuses it.1) ackStatuses

/-- One round of `processReceivedBlockAck`, for a key and its bit. -/
def reportStatus (state : QoSKeySet × AckStatuses) (id : QoSKey) (acked : Bool) :
    QoSKeySet × AckStatuses :=
  if getQoSDataAckStatus state.2 id = .WAITING_FOR_BLOCK_ACK then
    (if acked then insert QoSKey.less state.1 id () else state.1,
      setStatus state.2 id (if acked then .BLOCK_ACK_ARRIVED_ACKED else .BLOCK_ACK_ARRIVED_UNACKED))
  else state

/-- The acknowledged keys and the statuses. -/
def processReceivedBlockAck (blockAck : AddressedBlockAck) : QoSKeySet × AckStatuses :=
  let key := reportedKey blockAck.transmitterAddress blockAck.tidInfo
    blockAck.startingSequenceNumber
  reportedPositions.foldl
    (fun state position ↦
      reportStatus state (key position) (blockAck.getBit position.1 position.2))
    ([], ackStatuses)

/-- One round of `processFailedBlockAckReq`. -/
def failStatus : AckStatuses :=
  if getQoSDataAckStatus ackStatuses id = .WAITING_FOR_BLOCK_ACK then
    setStatus ackStatuses id .BLOCK_ACK_NOT_ARRIVED
  else ackStatuses

variable (blockAckReq : BasicBlockAckReq)

def processFailedBlockAckReq : AckStatuses :=
  let key := reportedKey blockAckReq.receiverAddress blockAckReq.tidInfo
    blockAckReq.startingSequenceNumber
  reportedPositions.foldl (fun statuses position ↦ failStatus statuses (key position)) ackStatuses

def processTransmittedDataOrMgmtFrame : AckPolicy → Except Fault AckStatuses
  | .NORMAL_ACK => .ok (setStatus ackStatuses id .WAITING_FOR_NORMAL_ACK)
  | .BLOCK_ACK => .ok (setStatus ackStatuses id .BLOCK_ACK_NOT_YET_REQUESTED)
  | .NO_ACK => .ok (setStatus ackStatuses id .NO_ACK_REQUIRED)
  | .NO_EXPLICIT_ACK => .error .runtimeError

/-- Whether `processTransmittedBlockAckReq` changes an entry. -/
def isRequested (ackStatus : QoSKey × Status) : Bool :=
  blockAckReq.tidInfo = ackStatus.1.tid && ackStatus.2 = .BLOCK_ACK_NOT_YET_REQUESTED &&
    greaterEq ackStatus.1.sequenceNumber blockAckReq.startingSequenceNumber

def processTransmittedBlockAckReq : AckStatuses :=
  ackStatuses.map fun ackStatus ↦
    if isRequested blockAckReq ackStatus then (ackStatus.1, .WAITING_FOR_BLOCK_ACK) else ackStatus

def isEligibleToTransmit : Bool :=
  match getQoSDataAckStatus ackStatuses id with
  | .NO_ACK_REQUIRED | .NORMAL_ACK_NOT_ARRIVED | .BLOCK_ACK_NOT_ARRIVED
  | .BLOCK_ACK_ARRIVED_UNACKED | .FRAME_NOT_YET_TRANSMITTED => true
  | _ => false

def isOutstandingFrame : Bool :=
  getQoSDataAckStatus ackStatuses id = .BLOCK_ACK_NOT_YET_REQUESTED

def frameGotInProgress : Except Fault AckStatuses :=
  match getQoSDataAckStatus ackStatuses id with
  | .WAITING_FOR_NORMAL_ACK | .BLOCK_ACK_NOT_YET_REQUESTED | .WAITING_FOR_BLOCK_ACK =>
    .error .runtimeError
  | _ => .ok (setStatus ackStatuses id .FRAME_NOT_YET_TRANSMITTED)

end QosAckHandler

/-! ## The order of the keys -/

namespace QoSKey

/-- The place of the receiver and the TID in the order. -/
def flow (id : QoSKey) : ℕ := id.receiverAddress.toNat * 16 + id.tid.toNat

variable {a b c : QoSKey}

theorem flow_eq_iff : a.flow = b.flow ↔ a.receiverAddress = b.receiverAddress ∧ a.tid = b.tid := by
  rw [BitVec.toNat_eq, BitVec.toNat_eq]
  unfold flow
  omega

theorem less_iff : less a b = true ↔
    a.flow < b.flow ∨ a.flow = b.flow ∧ sequenceControlLess a b = true := by
  simp only [less, flow, Bool.or_eq_true, Bool.and_eq_true, Bool.not_eq_true', decide_eq_true_eq,
    decide_eq_false_iff_not, BitVec.lt_def]
  cases sequenceControlLess a b with
  | true =>
    simp only [and_true]
    omega
  | false =>
    simp only [Bool.false_eq_true, and_false, or_false]
    omega

@[simp]
theorem sequenceControlLess_self (a : QoSKey) : sequenceControlLess a a = false := by
  simp [sequenceControlLess]

theorem sequenceControlLess_iff {base : SequenceNumber} (ha : offset base a.sequenceNumber < 2048)
    (hb : offset base b.sequenceNumber < 2048) : sequenceControlLess a b = true ↔
      offset base a.sequenceNumber < offset base b.sequenceNumber ∨
        a.sequenceNumber = b.sequenceNumber ∧ a.fragmentNumber < b.fragmentNumber := by
  have hab : offset base a.sequenceNumber < offset base b.sequenceNumber + 2048 := by omega
  have hba : offset base b.sequenceNumber < offset base a.sequenceNumber + 2048 := by omega
  simp only [sequenceControlLess, Bool.or_eq_true, Bool.and_eq_true, decide_eq_true_eq]
  rw [SequenceNumber.less_iff hab hba]

/-- On numbers in one half of the ring the comparison is transitive. -/
theorem sequenceControlLess_trans {base : SequenceNumber}
    (ha : offset base a.sequenceNumber < 2048) (hb : offset base b.sequenceNumber < 2048)
    (hc : offset base c.sequenceNumber < 2048) (hab : sequenceControlLess a b = true)
    (hbc : sequenceControlLess b c = true) : sequenceControlLess a c = true := by
  rw [sequenceControlLess_iff ha hb] at hab
  rw [sequenceControlLess_iff hb hc] at hbc
  rw [sequenceControlLess_iff ha hc]
  rcases hab with hab | ⟨hab, hfrag⟩
  · rcases hbc with hbc | ⟨hbc, -⟩
    · exact .inl (hab.trans hbc)
    · rw [← hbc]
      exact .inl hab
  · rcases hbc with hbc | ⟨hbc, hfrag'⟩
    · rw [hab]
      exact .inl hbc
    · exact .inr ⟨hab.trans hbc, Nat.lt_trans hfrag hfrag'⟩

/-- The order of two keys in the map.  The numbers of multicast frames are never removed, so that
they come to lie anywhere in the ring. -/
def Precedes (a b : QoSKey) : Prop :=
  a.flow < b.flow ∨
    a.flow = b.flow ∧ (a.receiverAddress.isMulticast = true ∨ sequenceControlLess a b = true)

theorem precedes_of_less (h : less a b = true) : Precedes a b :=
  (less_iff.mp h).imp_right fun h ↦ ⟨h.1, .inr h.2⟩

theorem less_of_precedes (h : Precedes a b) (hunicast : b.receiverAddress.isMulticast = false) :
    less a b = true := by
  apply less_iff.mpr
  refine h.imp_right fun ⟨hflow, h⟩ ↦ ⟨hflow, h.resolve_left ?_⟩
  rw [(flow_eq_iff.mp hflow).1, hunicast]
  exact Bool.false_ne_true

/-- The numbers of each unicast receiver and TID lie in one half of the ring. -/
def WithinHalfRing (ids : List QoSKey) : Prop :=
  ∀ id ∈ ids, id.receiverAddress.isMulticast = false →
    ∃ first ∈ ids, ∀ id' ∈ ids, id'.flow = id.flow →
      offset first.sequenceNumber id'.sequenceNumber < 2048

instance (ids : List QoSKey) : Decidable (WithinHalfRing ids) :=
  inferInstanceAs (Decidable (∀ _ ∈ _, _))

theorem WithinHalfRing.subset {ids ids' : List QoSKey} (h : WithinHalfRing ids)
    (hsubset : ids' ⊆ ids) : WithinHalfRing ids' := by
  intro id hid hunicast
  obtain ⟨base, -, hbase⟩ := h id (hsubset hid) hunicast
  -- the number that is the least far from the old base
  let flowIds := ids'.filter fun id' ↦ id'.flow = id.flow
  have hmem : id ∈ flowIds := mem_filter.mpr ⟨hid, by simp⟩
  obtain ⟨first, hfirst⟩ : ∃ first,
      flowIds.argmin (fun id' ↦ offset base.sequenceNumber id'.sequenceNumber) = some first := by
    apply Option.ne_none_iff_exists'.mp
    intro hnone
    rw [argmin_eq_none.mp hnone] at hmem
    exact not_mem_nil hmem
  have hfirst' := mem_filter.mp (argmin_mem hfirst)
  refine ⟨first, hfirst'.1, ?_⟩
  intro id' hid' hflow
  have hmem' : id' ∈ flowIds := mem_filter.mpr ⟨hid', by simpa using hflow⟩
  have hle := le_of_mem_argmin hmem'
    (f := fun id' ↦ offset base.sequenceNumber id'.sequenceNumber) hfirst
  have hlt := hbase id' (hsubset hid') hflow
  rw [offset_of_le hle]
  omega

theorem less_precedes_trans {ids : List QoSKey} (hclose : WithinHalfRing ids) (ha : a ∈ ids)
    (hb : b ∈ ids) (hc : c ∈ ids) (hab : less a b = true) (hbc : Precedes b c) : Precedes a c := by
  rcases less_iff.mp hab with hab | ⟨hflow, hab⟩
  · left
    rcases hbc with hbc | ⟨hbc, -⟩
    · exact hab.trans hbc
    · rwa [← hbc]
  · rcases hbc with hbc | ⟨hflow', hbc⟩
    · left
      rwa [hflow]
    · right
      refine ⟨hflow.trans hflow', ?_⟩
      rcases Bool.eq_false_or_eq_true a.receiverAddress.isMulticast with hmulticast | hunicast
      · exact .inl hmulticast
      · have hunicast' : b.receiverAddress.isMulticast ≠ true := by
          rw [← (flow_eq_iff.mp hflow).1, hunicast]
          exact Bool.false_ne_true
        obtain ⟨first, -, hfirst⟩ := hclose a ha hunicast
        exact .inr (sequenceControlLess_trans (hfirst a ha rfl) (hfirst b hb hflow.symm)
          (hfirst c hc (hflow.trans hflow').symm) hab (hbc.resolve_left hunicast'))

/-- In one half of the ring two keys are ordered, or they are the same. -/
theorem eq_of_not_less {ids : List QoSKey} (hclose : WithinHalfRing ids) (ha : a ∈ ids)
    (hb : b ∈ ids)
    (hunicast : a.receiverAddress.isMulticast = false) (hab : less a b = false)
    (hba : less b a = false) : a = b := by
  rw [← Bool.not_eq_true, less_iff] at hab hba
  have hflow : a.flow = b.flow := by omega
  have hab' : ¬sequenceControlLess a b = true := fun h ↦ hab (.inr ⟨hflow, h⟩)
  have hba' : ¬sequenceControlLess b a = true := fun h ↦ hba (.inr ⟨hflow.symm, h⟩)
  obtain ⟨first, -, hfirst⟩ := hclose a ha hunicast
  have hoffset := hfirst a ha rfl
  have hoffset' := hfirst b hb hflow.symm
  rw [sequenceControlLess_iff hoffset hoffset', not_or, not_lt, not_and] at hab'
  rw [sequenceControlLess_iff hoffset' hoffset, not_or, not_lt, not_and] at hba'
  have hnumber := eq_of_offset_eq (le_antisymm hba'.1 hab'.1)
  have hfragment :=
    Fin.le_antisymm (Fin.not_lt.mp (hba'.2 hnumber.symm)) (Fin.not_lt.mp (hab'.2 hnumber))
  obtain ⟨hreceiver, htid⟩ := flow_eq_iff.mp hflow
  cases a
  cases b
  exact (QoSKey.mk.injEq ..).mpr ⟨hreceiver, htid, hnumber, hfragment⟩

end QoSKey

namespace AckStatuses

def ids (ackStatuses : AckStatuses) : List QoSKey := ackStatuses.map Prod.fst

/-- The keys stand in their order. -/
def Sorted (ackStatuses : AckStatuses) : Prop := ackStatuses.ids.Pairwise QoSKey.Precedes

end AckStatuses

namespace QosAckHandler

open QoSKey

variable {ackStatuses ackStatuses' : AckStatuses} {id : QoSKey} {status : Status}

theorem getQoSDataAckStatus_ne (h : status ≠ .FRAME_NOT_YET_TRANSMITTED)
    (hfree : ∀ e ∈ ackStatuses, e.2 ≠ status) : getQoSDataAckStatus ackStatuses id ≠ status := by
  unfold getQoSDataAckStatus
  cases hfind : find QoSKey.less ackStatuses id with
  | none => exact h.symm
  | some e => exact hfree e (find_eq_some hfind).1

theorem find_of_status_ne
    (h : getQoSDataAckStatus ackStatuses id ≠ .FRAME_NOT_YET_TRANSMITTED) :
    ∃ e, find QoSKey.less ackStatuses id = some e := by
  unfold getQoSDataAckStatus at h
  cases hfind : find QoSKey.less ackStatuses id with
  | none =>
    rw [hfind] at h
    exact absurd rfl h
  | some e => exact ⟨e, rfl⟩

/-! ## Setting and removing one status -/

theorem ids_setStatus_of_found
    (h : getQoSDataAckStatus ackStatuses id ≠ .FRAME_NOT_YET_TRANSMITTED) (status : Status) :
    (setStatus ackStatuses id status).ids = ackStatuses.ids := by
  obtain ⟨e, hfind⟩ := find_of_status_ne h
  obtain ⟨before, after, heq, hassign⟩ := assign_of_find hfind status
  rw [setStatus, hassign, heq]
  simp [AckStatuses.ids]

theorem mem_ids_setStatus {id' : QoSKey} (h : id' ∈ (setStatus ackStatuses id status).ids) :
    id' ∈ id :: ackStatuses.ids := by
  obtain ⟨e, he, rfl⟩ := mem_map.mp h
  rcases mem_assign he with heq | ⟨e', he', heq⟩
  · rw [heq]
    exact mem_cons_self
  · rw [← heq]
    exact mem_cons_of_mem id (mem_map_of_mem he')

theorem mem_setStatus {e : QoSKey × Status} (he : e ∈ setStatus ackStatuses id status) :
    e ∈ ackStatuses ∨ e.2 = status ∧ e.1.flow = id.flow := by
  refine (mem_or_of_mem_assign he).imp_right fun ⟨heq, hkey⟩ ↦ ⟨heq, ?_⟩
  rcases hkey with hkey | ⟨hless, hless'⟩
  · rw [hkey]
  · rw [← Bool.not_eq_true, QoSKey.less_iff] at hless hless'
    omega

/-- A new key whose number is close to the others of its receiver and TID goes to its place. -/
theorem sorted_setStatus (hsorted : ackStatuses.Sorted)
    (hclose : WithinHalfRing (id :: ackStatuses.ids)) (status : Status) :
    (setStatus ackStatuses id status).Sorted := by
  have hsplit := below_append_fromLowerBound QoSKey.less ackStatuses id
  have hbelow : ∀ e ∈ below QoSKey.less ackStatuses id, QoSKey.less e.1 id = true := by
    intro e he
    have hall := all_takeWhile (p := fun e : QoSKey × Status ↦ QoSKey.less e.1 id)
      (l := ackStatuses)
    exact all_eq_true.mp hall e he
  cases hafter : fromLowerBound QoSKey.less ackStatuses id with
  | nil =>
    rw [hafter, append_nil] at hsplit
    unfold AckStatuses.Sorted AckStatuses.ids setStatus
    simp only [assign, hafter]
    rw [hsplit, map_append]
    rw [hsplit] at hbelow
    apply pairwise_append.mpr
    refine ⟨hsorted, pairwise_singleton _ _, ?_⟩
    intro a ha b hb
    obtain ⟨e, he, rfl⟩ := mem_map.mp ha
    rw [mem_singleton.mp hb]
    exact precedes_of_less (hbelow e he)
  | cons next after =>
    have hids : ackStatuses.ids = (below QoSKey.less ackStatuses id).map Prod.fst ++
        next.1 :: after.map Prod.fst := by
      calc
        ackStatuses.ids = map Prod.fst
            (below QoSKey.less ackStatuses id ++
              fromLowerBound QoSKey.less ackStatuses id) := by
          rw [hsplit]
          rfl
        _ = _ := by rw [hafter, map_append, map_cons]
    unfold AckStatuses.Sorted at hsorted
    rw [hids, pairwise_append] at hsorted
    obtain ⟨hbefore, hnext, hcross⟩ := hsorted
    by_cases hless : QoSKey.less id next.1 = true
    · unfold AckStatuses.Sorted AckStatuses.ids setStatus
      simp only [assign, hafter, if_pos hless, map_append, map_cons]
      apply pairwise_append.mpr
      refine ⟨hbefore, pairwise_cons.mpr ⟨?_, hnext⟩, ?_⟩
      · have hmem : ∀ c ∈ next.1 :: after.map Prod.fst, c ∈ id :: ackStatuses.ids := by
          intro c hc
          apply mem_cons_of_mem
          rw [hids]
          exact mem_append_right _ hc
        intro c hc
        rcases mem_cons.mp hc with rfl | hc'
        · exact precedes_of_less hless
        · exact less_precedes_trans hclose mem_cons_self (hmem _ mem_cons_self)
            (hmem c hc) hless ((pairwise_cons.mp hnext).1 c hc')
      · intro a ha b hb
        obtain ⟨e, he, rfl⟩ := mem_map.mp ha
        rcases mem_cons.mp hb with rfl | hb
        · exact precedes_of_less (hbelow e he)
        · exact hcross e.1 ha b hb
    · have hsame : (setStatus ackStatuses id status).ids = ackStatuses.ids := by
        rw [hids]
        unfold AckStatuses.ids setStatus
        simp only [assign, hafter, if_neg hless, map_append, map_cons]
      rw [AckStatuses.Sorted, hsame, hids]
      exact pairwise_append.mpr ⟨hbefore, hnext, hcross⟩

/-! ## The end of the wait for a Block Ack -/

/-- A Block Ack for the frame is still to come. -/
def AwaitsBlockAck (status : Status) : Prop :=
  status = .BLOCK_ACK_NOT_YET_REQUESTED ∨ status = .WAITING_FOR_BLOCK_ACK

/-- The keys stand in their order, and only unicast frames await a Block Ack. -/
structure Orderly (ackStatuses : AckStatuses) : Prop where
  sorted : ackStatuses.Sorted
  unicast : ∀ e ∈ ackStatuses, AwaitsBlockAck e.2 → e.1.receiverAddress.isMulticast = false

/-- The wait for the frames with some keys is over, and no other frame begins to wait. -/
structure Settled (settled : List QoSKey) (ackStatuses ackStatuses' : AckStatuses) : Prop where
  ids : ackStatuses'.ids = ackStatuses.ids
  awaits : ∀ e ∈ ackStatuses', AwaitsBlockAck e.2 → e ∈ ackStatuses
  waiting : ∀ e ∈ ackStatuses', e.2 = .WAITING_FOR_BLOCK_ACK → e.1 ∉ settled

theorem Settled.orderly {settled : List QoSKey} (h : Settled settled ackStatuses ackStatuses')
    (horderly : Orderly ackStatuses) : Orderly ackStatuses' where
  sorted := by
    rw [AckStatuses.Sorted, h.ids]
    exact horderly.sorted
  unicast e he hawaits := horderly.unicast e (h.awaits e he hawaits) hawaits

theorem Settled.trans {settled settled' : List QoSKey} {ackStatuses'' : AckStatuses}
    (h : Settled settled ackStatuses ackStatuses')
    (h' : Settled settled' ackStatuses' ackStatuses'') :
    Settled (settled ++ settled') ackStatuses ackStatuses'' where
  ids := h'.ids.trans h.ids
  awaits e he hawaits := h.awaits e (h'.awaits e he hawaits) hawaits
  waiting e he hwaiting := by
    rw [mem_append, not_or]
    exact ⟨h.waiting e (h'.awaits e he (.inr hwaiting)) hwaiting, h'.waiting e he hwaiting⟩

/-- The place of a unicast key in the map. -/
theorem Orderly.split (horderly : Orderly ackStatuses) (hmem : (id, status) ∈ ackStatuses)
    (hunicast : id.receiverAddress.isMulticast = false) :
    ∃ before after, ackStatuses = before ++ (id, status) :: after ∧
      (∀ e ∈ before, QoSKey.less e.1 id = true) ∧
      ∀ e ∈ after, QoSKey.less id e.1 = true ∨ e.1.flow ≠ id.flow := by
  obtain ⟨before, after, rfl⟩ := append_of_mem hmem
  have hsorted := horderly.sorted
  unfold AckStatuses.Sorted AckStatuses.ids at hsorted
  rw [map_append, map_cons, pairwise_append] at hsorted
  obtain ⟨-, hafter, hbefore⟩ := hsorted
  refine ⟨before, after, rfl, ?_, ?_⟩
  · intro e he
    exact less_of_precedes (hbefore e.1 (mem_map_of_mem he) id mem_cons_self) hunicast
  · intro e he
    rcases eq_or_ne e.1.flow id.flow with hflow | hflow
    · have hprecedes := (pairwise_cons.mp hafter).1 e.1 (mem_map_of_mem he)
      have hsame : e.1.receiverAddress.isMulticast = false := by
        rw [(flow_eq_iff.mp hflow).1, hunicast]
      exact .inl (less_of_precedes hprecedes hsame)
    · exact .inr hflow

theorem less_self (id : QoSKey) : QoSKey.less id id = false := by
  rw [← Bool.not_eq_true, QoSKey.less_iff]
  simp

theorem Orderly.getQoSDataAckStatus_eq (horderly : Orderly ackStatuses)
    (hmem : (id, status) ∈ ackStatuses) (hawaits : AwaitsBlockAck status) :
    getQoSDataAckStatus ackStatuses id = status := by
  have hunicast : id.receiverAddress.isMulticast = false :=
    horderly.unicast (id, status) hmem hawaits
  obtain ⟨before, after, rfl, hbefore, -⟩ := horderly.split hmem hunicast
  have hself := less_self id
  rw [getQoSDataAckStatus, find_append_cons hbefore hself]

/-- One round of the loops that end the wait. -/
theorem settled_of_waiting (horderly : Orderly ackStatuses) (hstatus : ¬AwaitsBlockAck status) :
    Settled [id] ackStatuses
      (if getQoSDataAckStatus ackStatuses id = .WAITING_FOR_BLOCK_ACK then
        setStatus ackStatuses id status else ackStatuses) := by
  have hfound : ∀ e ∈ ackStatuses, e.2 = .WAITING_FOR_BLOCK_ACK → e.1 = id →
      find QoSKey.less ackStatuses id = some e ∧
        ∀ e' ∈ setStatus ackStatuses id status, e'.1 = id → e'.2 = status := by
    intro e he hwaiting hid
    have hunicast := horderly.unicast e he (.inr hwaiting)
    obtain ⟨id', status'⟩ := e
    obtain rfl : id' = id := hid
    obtain ⟨before, after, rfl, hbefore, hafter⟩ := horderly.split he hunicast
    have hself := less_self id'
    rw [setStatus, find_append_cons hbefore hself,
      assign_append_cons hbefore hself]
    refine ⟨rfl, ?_⟩
    intro e' he' hid
    rcases mem_append.mp he' with he' | he'
    · have hless := hbefore e' he'
      rw [hid, less_self] at hless
      cases hless
    · rcases mem_cons.mp he' with rfl | he'
      · rfl
      · rcases hafter e' he' with hless | hflow
        · rw [hid, less_self] at hless
          cases hless
        · rw [hid] at hflow
          exact absurd rfl hflow
  split
  · rename_i hwait
    refine ⟨ids_setStatus_of_found (by rw [hwait]; decide) status, ?_, ?_⟩
    · intro e he hawaits
      rcases mem_setStatus he with hmem | ⟨heq, -⟩
      · exact hmem
      · rw [heq] at hawaits
        exact absurd hawaits hstatus
    · intro e he hwaiting hid
      rw [mem_singleton] at hid
      rcases mem_setStatus he with hmem | ⟨heq, -⟩
      · have hnew := (hfound e hmem hwaiting hid).2 e he hid
        rw [hwaiting] at hnew
        exact hstatus (.inr hnew.symm)
      · rw [hwaiting] at heq
        exact hstatus (.inr heq.symm)
  · rename_i hwait
    refine ⟨rfl, fun e he _ ↦ he, ?_⟩
    intro e he hwaiting hid
    rw [mem_singleton] at hid
    apply hwait
    rw [getQoSDataAckStatus, (hfound e he hwaiting hid).1]
    exact hwaiting

theorem settled_reportStatus {state : QoSKeySet × AckStatuses} (horderly : Orderly state.2)
    (acked : Bool) : Settled [id] state.2 (reportStatus state id acked).2 := by
  have hstatus : ¬AwaitsBlockAck
      (if acked then .BLOCK_ACK_ARRIVED_ACKED else .BLOCK_ACK_ARRIVED_UNACKED) := by
    cases acked <;> simp [AwaitsBlockAck]
  have hsettled : Settled [id] state.2
      (if getQoSDataAckStatus state.2 id = .WAITING_FOR_BLOCK_ACK then
        setStatus state.2 id
          (if acked then .BLOCK_ACK_ARRIVED_ACKED else .BLOCK_ACK_ARRIVED_UNACKED)
      else state.2) := settled_of_waiting horderly hstatus
  unfold reportStatus
  split
  · rename_i hwait
    rwa [if_pos hwait] at hsettled
  · rename_i hwait
    rwa [if_neg hwait] at hsettled

/-- A loop whose rounds end the wait for one key each. -/
theorem settled_foldl {S P : Type} (statuses : S → AckStatuses) (round : S → P → S)
    (key : P → QoSKey)
    (hround : ∀ state position, Orderly (statuses state) →
      Settled [key position] (statuses state) (statuses (round state position)))
    (positions : List P) (state : S) (horderly : Orderly (statuses state)) :
    Settled (positions.map key) (statuses state) (statuses (positions.foldl round state)) := by
  induction positions generalizing state with
  | nil => exact ⟨rfl, fun _ he _ ↦ he, fun _ _ _ ↦ not_mem_nil⟩
  | cons position positions ih =>
    have hfirst := hround state position horderly
    have hall := hfirst.trans (ih (round state position) (hfirst.orderly horderly))
    rwa [singleton_append] at hall

/-- The keys that a BlockAck for a receiver, TID and starting sequence number reports. -/
def Reported (receiverAddress : MacAddress) (tid : Tid) (startingSequenceNumber : SequenceNumber)
    (id : QoSKey) : Prop :=
  id.receiverAddress = receiverAddress ∧ id.tid = tid ∧
    offset startingSequenceNumber id.sequenceNumber < 64

theorem mem_map_reportedKey {receiverAddress : MacAddress} {tid : Tid}
    {startingSequenceNumber : SequenceNumber}
    (h : Reported receiverAddress tid startingSequenceNumber id) :
    id ∈ reportedPositions.map (reportedKey receiverAddress tid startingSequenceNumber) := by
  obtain ⟨hreceiver, htid, hwindow⟩ := h
  apply mem_map.mpr
  refine ⟨(offset startingSequenceNumber id.sequenceNumber, id.fragmentNumber), ?_, ?_⟩
  · simp only [reportedPositions, mem_flatMap, mem_range, mem_map,
      mem_finRange, true_and]
    exact ⟨_, hwindow, _, rfl⟩
  · have hnumber : startingSequenceNumber +
        BitVec.ofNat 12 (offset startingSequenceNumber id.sequenceNumber) = id.sequenceNumber := by
      have hoffset : offset startingSequenceNumber (startingSequenceNumber +
          BitVec.ofNat 12 (offset startingSequenceNumber id.sequenceNumber)) =
            offset startingSequenceNumber id.sequenceNumber := by
        rw [offset_add, Nat.mod_eq_of_lt (offset_lt _ _)]
      exact eq_of_offset_eq hoffset
    rw [reportedKey, hnumber, ← hreceiver, ← htid]

/-- A BlockAck ends the wait for every frame that it reports. -/
theorem settled_processReceivedBlockAck (horderly : Orderly ackStatuses)
    (blockAck : AddressedBlockAck) :
    Settled (reportedPositions.map (reportedKey blockAck.transmitterAddress blockAck.tidInfo
      blockAck.startingSequenceNumber)) ackStatuses
        (processReceivedBlockAck ackStatuses blockAck).2 := by
  let key := reportedKey blockAck.transmitterAddress blockAck.tidInfo
    blockAck.startingSequenceNumber
  have hround (state : QoSKeySet × AckStatuses) (position : ℕ × Fin maxNumFragments)
      (hstatuses : Orderly state.2) : Settled [key position] state.2
        (reportStatus state (key position) (blockAck.getBit position.1 position.2)).2 :=
    settled_reportStatus hstatuses _
  exact settled_foldl Prod.snd _ key hround reportedPositions ([], ackStatuses) horderly

/-- The timeout of a request ends the wait for every frame that its BlockAck would report. -/
theorem settled_processFailedBlockAckReq (horderly : Orderly ackStatuses)
    (blockAckReq : BasicBlockAckReq) :
    Settled (reportedPositions.map (reportedKey blockAckReq.receiverAddress blockAckReq.tidInfo
      blockAckReq.startingSequenceNumber)) ackStatuses
        (processFailedBlockAckReq ackStatuses blockAckReq) := by
  let key := reportedKey blockAckReq.receiverAddress blockAckReq.tidInfo
    blockAckReq.startingSequenceNumber
  have hround (statuses : AckStatuses) (position : ℕ × Fin maxNumFragments)
      (hstatuses : Orderly statuses) :
      Settled [key position] statuses (failStatus statuses (key position)) :=
    settled_of_waiting hstatuses (by simp [AwaitsBlockAck])
  exact settled_foldl (fun statuses ↦ statuses) _ key hround reportedPositions ackStatuses horderly

end QosAckHandler

end Inet4.Ieee80211
