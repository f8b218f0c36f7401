import Inet4.Ieee80211.OriginatorEdcaf

/-!
# BlockAckReqs of an originator

A BlockAckReq is computed from the outstanding frames of one receiver, whatever their TID, and makes
the originator wait for the outstanding frames of one TID, whoever their receiver.  Both are the
frames that the BlockAck reports when the receivers and TIDs do not mix and the numbers lie within
the reach of a BlockAck.  Then every exchange ends the wait that it began, in every run.
-/

namespace Inet4.Ieee80211

open SequenceNumber QosAckHandler List OrderedMap
open Except (ok)
open QoSKey (WithinHalfRing)

/-! ## The outstanding frames of the receivers -/

namespace OriginatorQosAckPolicy

/-- The outstanding frames for one receiver. -/
def outstandingFor (receiver : MacAddress) (packets : List DataPacket) : List DataPacket :=
  packets.filter fun packet ↦ packet.header.receiverAddress = receiver

/-- What the map has after the loop over some packets. -/
structure Grouped (packets : List DataPacket) (m : OrderedMap MacAddress OutstandingFrames) :
    Prop where
  ascending : Ascending BitVec.toNat m
  vectors : ∀ e ∈ m, e.2.toList = outstandingFor e.1 packets
  complete : ∀ packet ∈ packets, ∃ e ∈ m, e.1 = packet.header.receiverAddress

variable {packets : List DataPacket} {m : OrderedMap MacAddress OutstandingFrames}
variable {packet : DataPacket}

theorem agrees_addressLess (m : OrderedMap MacAddress OutstandingFrames) (receiver : MacAddress) :
    Agrees addressLess BitVec.toNat m receiver where
  less e _ := by simp [addressLess, BitVec.lt_def]
  greater e _ := by simp [addressLess, BitVec.lt_def]
  eq e _ := BitVec.eq_of_toNat_eq

theorem outstandingFor_append (receiver : MacAddress) :
    outstandingFor receiver (packets ++ [packet]) = outstandingFor receiver packets ++
      if packet.header.receiverAddress = receiver then [packet] else [] := by
  rw [outstandingFor, outstandingFor, filter_append]
  split
  · rename_i heq
    simp [heq]
  · rename_i hne
    simp [hne]

/-- A packet goes to the end of its receiver's vector. -/
theorem Grouped.exists_addOutstanding (h : Grouped packets m) (packet : DataPacket) :
    ∃ outstanding, outstanding.toList =
        outstandingFor packet.header.receiverAddress packets ++ [packet] ∧
      addOutstanding m packet =
        assign addressLess m packet.header.receiverAddress outstanding := by
  have hfound (e : MacAddress × OutstandingFrames) :=
    h.ascending.find_eq_some_iff (agrees_addressLess m packet.header.receiverAddress) (e := e)
  rw [addOutstanding]
  cases hfind : find addressLess m packet.header.receiverAddress with
  | none =>
    refine ⟨⟨packet, []⟩, ?_, rfl⟩
    have hnone : outstandingFor packet.header.receiverAddress packets = [] := by
      apply filter_eq_nil_iff.mpr
      intro packet' hpacket' heq
      rw [decide_eq_true_eq] at heq
      obtain ⟨e, he, hreceiver⟩ := h.complete packet' hpacket'
      have hsome := (hfound e).mpr ⟨he, hreceiver.trans heq⟩
      rw [hfind] at hsome
      cases hsome
    rw [hnone]
    rfl
  | some e =>
    obtain ⟨hmem, hreceiver⟩ := (hfound e).mp hfind
    refine ⟨e.2.pushBack packet, ?_, rfl⟩
    rw [← hreceiver, ← h.vectors e hmem]
    rfl

theorem Grouped.add (h : Grouped packets m) (packet : DataPacket) :
    Grouped (packets ++ [packet]) (addOutstanding m packet) := by
  obtain ⟨outstanding, hvector, heq⟩ := h.exists_addOutstanding packet
  have hagrees := agrees_addressLess m packet.header.receiverAddress
  have hmem (e : MacAddress × OutstandingFrames) :
      e ∈ addOutstanding m packet ↔ e = (packet.header.receiverAddress, outstanding) ∨
        e ∈ m ∧ e.1 ≠ packet.header.receiverAddress := by
    rw [heq]
    exact h.ascending.mem_assign_iff hagrees
  refine ⟨heq ▸ h.ascending.assign hagrees outstanding, ?_, ?_⟩
  · intro e he
    rw [outstandingFor_append]
    rcases (hmem e).mp he with rfl | ⟨hold, hne⟩
    · rw [if_pos rfl, hvector]
    · rw [if_neg hne.symm, append_nil, h.vectors e hold]
  · intro packet' hpacket'
    by_cases hsame : packet'.header.receiverAddress = packet.header.receiverAddress
    · exact ⟨_, (hmem _).mpr (.inl rfl), hsame.symm⟩
    · rcases mem_append.mp hpacket' with hold | hlast
      · obtain ⟨e, he, hreceiver⟩ := h.complete packet' hold
        exact ⟨e, (hmem e).mpr (.inr ⟨he, hreceiver ▸ hsame⟩), hreceiver⟩
      · rw [mem_singleton.mp hlast] at hsame
        exact absurd rfl hsame

theorem Grouped.foldl (h : Grouped packets m) (rest : List DataPacket) :
    Grouped (packets ++ rest) (rest.foldl addOutstanding m) := by
  induction rest generalizing packets m with
  | nil => rwa [append_nil]
  | cons packet rest ih =>
    have hrest := ih (h.add packet)
    rwa [append_assoc, singleton_append] at hrest

theorem grouped_getOutstandingFramesPerReceiver (frames : InProgressFrames) :
    Grouped frames.getOutstandingFrames (getOutstandingFramesPerReceiver frames) := by
  have hempty : Grouped [] [] := ⟨List.Pairwise.nil, nofun, nofun⟩
  have h := hempty.foldl frames.getOutstandingFrames
  rwa [nil_append] at h

/-! ## The request that is computed -/

/-- No receiver has more outstanding frames, and none that comes before it as many. -/
def IsLargest (packets : List DataPacket) (receiver : MacAddress) : Prop :=
  ∀ packet ∈ packets,
    (outstandingFor packet.header.receiverAddress packets).length ≤
        (outstandingFor receiver packets).length ∧
      ((outstandingFor packet.header.receiverAddress packets).length =
          (outstandingFor receiver packets).length →
        receiver.toNat ≤ packet.header.receiverAddress.toNat)

theorem largestOutstandingFrames_spec (first : MacAddress × OutstandingFrames)
    (h : (first :: m).Pairwise fun a b ↦ a.1.toNat ≤ b.1.toNat) :
    largestOutstandingFrames first m ∈ first :: m ∧
      ∀ e ∈ first :: m, e.2.size ≤ (largestOutstandingFrames first m).2.size ∧
        (e.2.size = (largestOutstandingFrames first m).2.size →
          (largestOutstandingFrames first m).1.toNat ≤ e.1.toNat) := by
  induction m generalizing first with
  | nil =>
    refine ⟨mem_cons_self, fun e he ↦ ?_⟩
    rw [mem_singleton.mp he]
    exact ⟨le_rfl, fun _ ↦ le_rfl⟩
  | cons next m ih =>
    have hcons := pairwise_cons.mp h
    have hrest : m ⊆ next :: m := subset_cons_self next m
    by_cases hlt : first.2.size < next.2.size
    · have heq : largestOutstandingFrames first (next :: m) = largestOutstandingFrames next m := by
        simp [largestOutstandingFrames, hlt]
      obtain ⟨hmem, hall⟩ := ih next hcons.2
      rw [heq]
      refine ⟨mem_cons_of_mem first hmem, fun e he ↦ ?_⟩
      rcases mem_cons.mp he with rfl | he
      · have hnext := (hall next mem_cons_self).1
        exact ⟨by omega, fun hsize ↦ by omega⟩
      · exact hall e he
    · have heq : largestOutstandingFrames first (next :: m) = largestOutstandingFrames first m := by
        simp [largestOutstandingFrames, hlt]
      have hshort : (first :: m).Pairwise fun a b ↦ a.1.toNat ≤ b.1.toNat :=
        pairwise_cons.mpr ⟨fun e he ↦ hcons.1 e (hrest he),
          (pairwise_cons.mp hcons.2).2⟩
      obtain ⟨hmem, hall⟩ := ih first hshort
      rw [heq]
      refine ⟨cons_subset_cons first hrest hmem, fun e he ↦ ?_⟩
      rcases mem_cons.mp he with rfl | he
      · exact hall e mem_cons_self
      · rcases mem_cons.mp he with rfl | he
        · have hfirst := hall first mem_cons_self
          refine ⟨by omega, fun hsize ↦ ?_⟩
          exact (hfirst.2 (by omega)).trans (hcons.1 e mem_cons_self)
        · exact hall e (mem_cons_of_mem first he)

/-- A request asks the receiver with the most outstanding frames for frames of the TID of the first
of them, from the number on that the loop over all of them ends with. -/
theorem computeBlockAckReqParameters_spec {policy : OriginatorQosAckPolicy}
    {frames : InProgressFrames} (hneeded : policy.isBlockAckReqNeeded frames = true) :
    ∃ receiver first rest, IsLargest frames.getOutstandingFrames receiver ∧
      outstandingFor receiver frames.getOutstandingFrames = first :: rest ∧
        policy.computeBlockAckReqParameters frames =
          (receiver, computeStartingSequenceNumber ⟨first, rest⟩, first.header.tid) := by
  have hgrouped := grouped_getOutstandingFramesPerReceiver frames
  unfold computeBlockAckReqParameters
  cases hm : getOutstandingFramesPerReceiver frames with
  | nil => simp [isBlockAckReqNeeded, hm] at hneeded
  | cons head tail =>
    rw [hm] at hgrouped
    have hpairwise : (head :: head :: tail).Pairwise fun a b ↦ a.1.toNat ≤ b.1.toNat := by
      have hle : (head :: tail).Pairwise fun a b ↦ a.1.toNat ≤ b.1.toNat :=
        hgrouped.ascending.imp fun h ↦ h.le
      refine pairwise_cons.mpr ⟨fun e he ↦ ?_, hle⟩
      rcases mem_cons.mp he with rfl | he
      · exact le_rfl
      · exact (pairwise_cons.mp hle).1 e he
    obtain ⟨hmem, hall⟩ := largestOutstandingFrames_spec head hpairwise
    have hsubset : head :: head :: tail ⊆ head :: tail := by simp
    obtain ⟨largest, hlargest⟩ : ∃ largest, largest =
      largestOutstandingFrames head (head :: tail) :=
      ⟨_, rfl⟩
    rw [← hlargest] at hmem hall
    have hvector := hgrouped.vectors largest (hsubset hmem)
    refine ⟨largest.1, largest.2.first, largest.2.rest, ?_, hvector.symm, ?_⟩
    · intro packet hpacket
      obtain ⟨e, he, hreceiver⟩ := hgrouped.complete packet hpacket
      have hsize := hall e (mem_cons_of_mem head he)
      unfold OutstandingFrames.size at hsize
      rw [hgrouped.vectors e he, hvector] at hsize
      rwa [← hreceiver]
    · simp only [hneeded, if_true, ← hlargest]

/-- The loop of `computeStartingSequenceNumber`. -/
def earliest (start : SequenceNumber) (packets : List DataPacket) : SequenceNumber :=
  packets.foldl
    (fun start frame ↦
      if less frame.header.sequenceNumber start then frame.header.sequenceNumber else start) start

theorem earliest_cons (start : SequenceNumber) :
    earliest start (packet :: packets) =
      earliest (if less packet.header.sequenceNumber start then packet.header.sequenceNumber
        else start) packets := rfl

variable {start smallest : SequenceNumber}

/-- A number that comes before all others, or is the same, is what the loop ends with. -/
theorem earliest_of_smallest
    (hmem : start = smallest ∨ ∃ packet ∈ packets, packet.header.sequenceNumber = smallest)
    (hstart : lessEq smallest start = true)
    (hsmallest : ∀ packet ∈ packets, lessEq smallest packet.header.sequenceNumber = true) :
    earliest start packets = smallest := by
  induction packets generalizing start with
  | nil =>
    rcases hmem with rfl | ⟨packet, hpacket, -⟩
    · rfl
    · cases hpacket
  | cons packet packets ih =>
    have hpacket := hsmallest packet mem_cons_self
    rw [earliest_cons]
    apply ih
    · rcases hmem with rfl | ⟨packet', hpacket', heq⟩
      · rw [not_less_of_lessEq hpacket]
        exact .inl rfl
      · rcases mem_cons.mp hpacket' with rfl | hmem
        · left
          rw [heq]
          split
          · rfl
          · rename_i hless
            have hor : smallest = start ∨ less smallest start = true := by
              simpa [lessEq] using hstart
            exact (hor.resolve_right hless).symm
        · exact .inr ⟨packet', hmem, heq⟩
    · split
      · exact hpacket
      · exact hstart
    · exact fun packet' hpacket' ↦ hsmallest packet' (mem_cons_of_mem packet hpacket')

end OriginatorQosAckPolicy

/-! ## Requests -/

namespace InProgressFrames

/-- The keys that have a status or belong to a frame in progress. -/
def ids (frames : InProgressFrames) : List QoSKey :=
  frames.ackStatuses.ids ++ frames.inProgressFrames.map DataPacket.id

/-- The outstanding frames for one receiver. -/
def outstandingFor (frames : InProgressFrames) (receiver : MacAddress) : List DataPacket :=
  OriginatorQosAckPolicy.outstandingFor receiver frames.getOutstandingFrames

variable (frames : InProgressFrames)

/-- The receiver with the most outstanding frames has one whose number comes before those of all
others and whose TID is that of the first one, and from this number on the frames of the TID that
no BlockAck was requested for are frames for this receiver within the reach of a BlockAck. -/
def Requestable : Prop :=
  ∀ packet ∈ frames.getOutstandingFrames,
    OriginatorQosAckPolicy.IsLargest frames.getOutstandingFrames packet.header.receiverAddress →
      ∀ first ∈ (frames.outstandingFor packet.header.receiverAddress).head?,
        ∃ smallest ∈ frames.outstandingFor packet.header.receiverAddress,
          smallest.header.tid = first.header.tid ∧
          (∀ other ∈ frames.outstandingFor packet.header.receiverAddress,
            lessEq smallest.header.sequenceNumber other.header.sequenceNumber = true) ∧
          ∀ ackStatus ∈ frames.ackStatuses, ackStatus.2 = .BLOCK_ACK_NOT_YET_REQUESTED →
            ackStatus.1.tid = first.header.tid →
            greaterEq ackStatus.1.sequenceNumber smallest.header.sequenceNumber = true →
              Reported packet.header.receiverAddress first.header.tid
                smallest.header.sequenceNumber ackStatus.1

/-- The entries that a request changes are those that its BlockAck reports. -/
def ChangesOnlyReported (frames frames' : InProgressFrames) (blockAckReq : BasicBlockAckReq) :
    Prop :=
  ∀ ackStatus ∈ frames.ackStatuses, ackStatus ∉ frames'.ackStatuses →
    Reported blockAckReq.receiverAddress blockAckReq.tidInfo blockAckReq.startingSequenceNumber
      ackStatus.1

/-- The outstanding frames of the receiver and TID of a request. -/
def requestedFrames (blockAckReq : BasicBlockAckReq) : List DataPacket :=
  (frames.outstandingFor blockAckReq.receiverAddress).filter fun packet ↦
    packet.header.tid = blockAckReq.tidInfo

/-- A request starts with the smallest number of the outstanding frames of its receiver and TID. -/
def StartsWithSmallest (blockAckReq : BasicBlockAckReq) : Prop :=
  (∃ packet ∈ frames.requestedFrames blockAckReq,
      packet.header.sequenceNumber = blockAckReq.startingSequenceNumber) ∧
    ∀ packet ∈ frames.requestedFrames blockAckReq,
      lessEq blockAckReq.startingSequenceNumber packet.header.sequenceNumber = true

/-- No frame in progress waits for a Block Ack. -/
def NoneWaiting : Prop :=
  ∀ packet ∈ frames.inProgressFrames,
    getQoSDataAckStatus frames.ackStatuses packet.id ≠ .WAITING_FOR_BLOCK_ACK

end InProgressFrames

namespace Edcaf

open InProgressFrames OriginatorQosAckPolicy

variable {policy : OriginatorQosAckPolicy} {edcaf edcaf' : Edcaf}

/-- The request that `transmitBlockAckReq` sends. -/
def request (policy : OriginatorQosAckPolicy) (frames : InProgressFrames) : BasicBlockAckReq :=
  let (receiverAddress, startingSequenceNumber, tid) := policy.computeBlockAckReqParameters frames
  ⟨receiverAddress, tid, startingSequenceNumber⟩

theorem transmitBlockAckReq_eq (policy : OriginatorQosAckPolicy) (edcaf : Edcaf) :
    transmitBlockAckReq policy edcaf =
      { frames := { edcaf.frames with ackStatuses :=
          processTransmittedBlockAckReq edcaf.frames.ackStatuses (request policy edcaf.frames) }
        awaited := .blockAck (request policy edcaf.frames) } := rfl

variable {frames : InProgressFrames} {blockAckReq : BasicBlockAckReq} {e : QoSKey × Status}
variable {ackStatuses : AckStatuses}

theorem mem_processTransmittedBlockAckReq
    (he : e ∈ processTransmittedBlockAckReq ackStatuses blockAckReq) :
    (∃ e' ∈ ackStatuses, isRequested blockAckReq e' = true ∧ e = (e'.1, .WAITING_FOR_BLOCK_ACK)) ∨
      e ∈ ackStatuses ∧ isRequested blockAckReq e = false := by
  obtain ⟨e', he', heq⟩ := mem_map.mp he
  cases hrequested : isRequested blockAckReq e' with
  | true =>
    rw [hrequested, if_pos rfl] at heq
    exact .inl ⟨e', he', hrequested, heq.symm⟩
  | false =>
    rw [hrequested, if_neg Bool.false_ne_true] at heq
    rw [← heq]
    exact .inr ⟨he', hrequested⟩

theorem isRequested_iff : isRequested blockAckReq e = true ↔
    blockAckReq.tidInfo = e.1.tid ∧ e.2 = .BLOCK_ACK_NOT_YET_REQUESTED ∧
      greaterEq e.1.sequenceNumber blockAckReq.startingSequenceNumber = true := by
  simp [isRequested, and_assoc]

/-- The entries that a request changes are those that it asks for. -/
theorem not_mem_processTransmittedBlockAckReq_iff (he : e ∈ ackStatuses) :
    e ∉ processTransmittedBlockAckReq ackStatuses blockAckReq ↔
      isRequested blockAckReq e = true := by
  constructor
  · intro hnot
    by_contra hrequested
    apply hnot
    exact mem_map.mpr ⟨e, he, if_neg hrequested⟩
  · intro hrequested hmem
    rcases mem_processTransmittedBlockAckReq hmem with ⟨e', -, -, heq⟩ | ⟨-, hnot⟩
    · have hstatus := (isRequested_iff.mp hrequested).2.1
      rw [heq] at hstatus
      cases hstatus
    · rw [hrequested] at hnot
      cases hnot

/-- A request that the condition allows starts with the smallest number and changes only what its
BlockAck reports. -/
theorem sound_of_requestable (hneeded : policy.isBlockAckReqNeeded edcaf.frames = true)
    (h : edcaf.frames.Requestable) :
    edcaf.frames.ChangesOnlyReported (transmitBlockAckReq policy edcaf).frames
        (request policy edcaf.frames) ∧
      edcaf.frames.StartsWithSmallest (request policy edcaf.frames) := by
  obtain ⟨receiver, first, rest, hlargest, houtstanding, hparameters⟩ :=
    computeBlockAckReqParameters_spec hneeded
  have hfirst : first ∈ edcaf.frames.outstandingFor receiver := by
    rw [InProgressFrames.outstandingFor, houtstanding]
    exact mem_cons_self
  obtain ⟨hfirst', hreceiver⟩ := mem_filter.mp hfirst
  rw [decide_eq_true_eq] at hreceiver
  subst hreceiver
  have hhead : first ∈ (edcaf.frames.outstandingFor first.header.receiverAddress).head? := by
    rw [InProgressFrames.outstandingFor, houtstanding]
    rfl
  obtain ⟨smallest, hmem, htid, hsmallest, hreported⟩ := h first hfirst' hlargest first hhead
  have hstart : computeStartingSequenceNumber ⟨first, rest⟩ = smallest.header.sequenceNumber := by
    rw [InProgressFrames.outstandingFor, houtstanding] at hmem hsmallest
    have hearliest : earliest first.header.sequenceNumber rest =
        smallest.header.sequenceNumber := by
      apply earliest_of_smallest
      · rcases mem_cons.mp hmem with rfl | hmem
        · exact .inl rfl
        · exact .inr ⟨smallest, hmem, rfl⟩
      · exact hsmallest first mem_cons_self
      · exact fun packet hpacket ↦ hsmallest packet (mem_cons_of_mem first hpacket)
    exact hearliest
  have hrequest : request policy edcaf.frames =
      ⟨first.header.receiverAddress, first.header.tid, smallest.header.sequenceNumber⟩ := by
    rw [request, hparameters, hstart]
  rw [transmitBlockAckReq_eq, hrequest]
  refine ⟨?_, ⟨smallest, ?_, rfl⟩, ?_⟩
  · intro e he hchanged
    obtain ⟨htid, hstatus, hge⟩ :=
      isRequested_iff.mp ((not_mem_processTransmittedBlockAckReq_iff he).mp hchanged)
    exact hreported e he hstatus htid.symm hge
  · exact mem_filter.mpr ⟨hmem, by simpa using htid⟩
  · exact fun packet hpacket ↦ hsmallest packet (mem_filter.mp hpacket).1

/-! ## What the steps keep -/

/-- The frames that a BlockAck to come reports. -/
def Awaited.Reports (awaited : Awaited) (id : QoSKey) : Prop :=
  match awaited with
  | .blockAck blockAckReq => Reported blockAckReq.receiverAddress blockAckReq.tidInfo
      blockAckReq.startingSequenceNumber id
  | _ => False

structure Invariant (edcaf : Edcaf) : Prop where
  orderly : Orderly edcaf.frames.ackStatuses
  close : WithinHalfRing edcaf.frames.ids
  waiting : ∀ e ∈ edcaf.frames.ackStatuses, e.2 = .WAITING_FOR_BLOCK_ACK →
    Awaited.Reports edcaf.awaited e.1

/-- What an operation keeps that makes no frame await a Block Ack: it brings in no keys but some
new ones. -/
structure Calm (new : List QoSKey) (frames frames' : InProgressFrames) : Prop where
  ids : frames'.ids ⊆ frames.ids ++ new
  sorted : frames.ackStatuses.Sorted → WithinHalfRing (frames.ids ++ new) →
    frames'.ackStatuses.Sorted
  awaits : ∀ e ∈ frames'.ackStatuses, AwaitsBlockAck e.2 → e ∈ frames.ackStatuses

variable {new new' : List QoSKey} {frames' frames'' : InProgressFrames}

theorem Calm.refl (frames : InProgressFrames) : Calm [] frames frames :=
  ⟨by simp, fun h _ ↦ h, fun _ he _ ↦ he⟩

theorem Calm.trans (h : Calm new frames frames') (h' : Calm new' frames' frames'') :
    Calm (new ++ new') frames frames'' where
  ids := by
    intro id hid
    rcases mem_append.mp (h'.ids hid) with hid | hid
    · rw [← append_assoc]
      exact mem_append_left new' (h.ids hid)
    · exact mem_append_right _ (mem_append_right new hid)
  sorted hsorted hclose := by
    rw [← append_assoc] at hclose
    apply h'.sorted
    · exact h.sorted hsorted (hclose.subset (subset_append_left _ _))
    · apply hclose.subset
      exact append_subset.mpr ⟨fun _ hid ↦ mem_append_left new' (h.ids hid),
        subset_append_right _ _⟩
  awaits e he hawaits := h.awaits e (h'.awaits e he hawaits) hawaits

/-- Frames and statuses that are left out. -/
theorem Calm.of_sublist (hstatuses : frames'.ackStatuses.Sublist frames.ackStatuses)
    (hframes : frames'.inProgressFrames ⊆ frames.inProgressFrames) : Calm [] frames frames' where
  ids := by
    rw [append_nil]
    exact append_subset.mpr
      ⟨subset_append_of_subset_left _ (hstatuses.map Prod.fst).subset,
        subset_append_of_subset_right _ (map_subset _ hframes)⟩
  sorted hsorted _ := List.Pairwise.sublist (hstatuses.map Prod.fst) hsorted
  awaits e he _ := hstatuses.subset he

theorem calm_dropFrame (frames : InProgressFrames) (packet : DataPacket) :
    Calm [] frames (frames.dropFrame packet) :=
  .of_sublist (List.Sublist.refl _) filter_sublist.subset

theorem calm_dropFrameAndStatus (frames : InProgressFrames) (packet : DataPacket) :
    Calm [] frames (frames.dropFrameAndStatus packet) :=
  .of_sublist (erase_sublist _ _) filter_sublist.subset

/-- A status that awaits no Block Ack is set for a key. -/
theorem calm_setStatus {id : QoSKey} {status : Status} (hstatus : ¬AwaitsBlockAck status)
    (frames : InProgressFrames) :
    Calm [id] frames { frames with ackStatuses := setStatus frames.ackStatuses id status } where
  ids := by
    apply append_subset.mpr
    constructor
    · intro id' hid
      rcases mem_cons.mp (mem_ids_setStatus hid) with rfl | hid
      · exact mem_append_right _ mem_cons_self
      · exact mem_append_left _ (mem_append_left _ hid)
    · exact subset_append_of_subset_left _ (subset_append_right _ _)
  sorted hsorted hclose := by
    apply sorted_setStatus hsorted
    apply hclose.subset
    apply cons_subset.mpr
    exact ⟨mem_append_right _ mem_cons_self,
      subset_append_of_subset_left _ (subset_append_left _ _)⟩
  awaits e he hawaits := by
    rcases mem_setStatus he with hmem | ⟨heq, -⟩
    · exact hmem
    · rw [heq] at hawaits
      exact absurd hawaits hstatus

theorem Calm.orderly (h : Calm new frames frames') (horderly : Orderly frames.ackStatuses)
    (hclose : WithinHalfRing (frames.ids ++ new)) : Orderly frames'.ackStatuses where
  sorted := h.sorted horderly.sorted hclose
  unicast e he hawaits := horderly.unicast e (h.awaits e he hawaits) hawaits

/-- What an operation keeps by which frames come in behind the others and frames leave. -/
structure Keeps (packets : List DataPacket) (frames frames' : InProgressFrames) : Prop where
  calm : Calm (packets.map DataPacket.id) frames frames'
  sublist : frames'.inProgressFrames.Sublist (frames.inProgressFrames ++ packets)
  fresh : ∀ frame ∈ packets, (frame.id, .BLOCK_ACK_NOT_YET_REQUESTED) ∉ frames'.ackStatuses

variable {packets packets' : List DataPacket}

theorem Calm.keeps (h : Calm [] frames frames')
    (hsublist : frames'.inProgressFrames.Sublist frames.inProgressFrames) :
    Keeps [] frames frames' := ⟨h, by rwa [append_nil], nofun⟩

theorem Keeps.trans_calm (h : Keeps packets frames frames') (h' : Calm [] frames' frames'')
    (hsublist : frames''.inProgressFrames.Sublist frames'.inProgressFrames) :
    Keeps packets frames frames'' where
  calm := by
    have hcalm := h.calm.trans h'
    rwa [append_nil] at hcalm
  sublist := hsublist.trans h.sublist
  fresh frame hframe hmem := h.fresh frame hframe (h'.awaits _ hmem (.inl rfl))

variable {packet : DataPacket}

theorem calm_frameGotInProgress {ackStatuses : AckStatuses}
    (h : frameGotInProgress frames.ackStatuses packet.id = .ok ackStatuses) :
    Calm [packet.id] frames ⟨frames.inProgressFrames ++ [packet], ackStatuses⟩ := by
  have hset : ackStatuses =
      setStatus frames.ackStatuses packet.id .FRAME_NOT_YET_TRANSMITTED := by
    unfold frameGotInProgress at h
    split at h
    all_goals first
      | exact (ok.inj h).symm
      | cases h
  have hcalm : Calm [packet.id] frames
      ⟨frames.inProgressFrames,
        setStatus frames.ackStatuses packet.id .FRAME_NOT_YET_TRANSMITTED⟩ :=
    calm_setStatus (by simp [AwaitsBlockAck]) frames
  rw [hset]
  refine ⟨?_, hcalm.sorted, hcalm.awaits⟩
  apply append_subset.mpr
  refine ⟨fun id hid ↦ hcalm.ids (mem_append_left _ hid), ?_⟩
  rw [map_append]
  exact append_subset.mpr
    ⟨subset_append_of_subset_left _ (subset_append_right _ _),
      subset_append_right _ _⟩

/-- A frame that awaits a Block Ack does not get in progress again. -/
theorem keeps_insertFrames (horderly : Orderly frames.ackStatuses)
    (hclose : WithinHalfRing (frames.ids ++ packets.map DataPacket.id))
    (h : frames.insertFrames packets = .ok frames') : Keeps packets frames frames' := by
  induction packets generalizing frames with
  | nil =>
    obtain rfl := ok.inj h
    exact (Calm.refl _).keeps (List.Sublist.refl _)
  | cons packet packets ih =>
    obtain ⟨ackStatuses, hstatuses, hrest⟩ := bind_eq_ok h
    have hcalm := calm_frameGotInProgress hstatuses
    rw [map_cons, ← singleton_append, ← append_assoc] at hclose
    have horderly' := hcalm.orderly horderly (hclose.subset (subset_append_left _ _))
    have hclose' := hclose.subset (append_subset.mpr
      ⟨subset_append_of_subset_left _ hcalm.ids, subset_append_right _ _⟩)
    have hkeeps := ih horderly' hclose' hrest
    refine ⟨hcalm.trans hkeeps.calm, ?_, ?_⟩
    · have hsublist := hkeeps.sublist
      rwa [append_assoc] at hsublist
    · intro frame hframe hmem
      rcases mem_cons.mp hframe with rfl | hframe
      · have hold := hcalm.awaits _ (hkeeps.calm.awaits _ hmem (.inl rfl)) (.inl rfl)
        rw [frameGotInProgress, horderly.getQoSDataAckStatus_eq hold (.inl rfl)] at hstatuses
        cases hstatuses
      · exact hkeeps.fresh frame hframe hmem

theorem insertFrames_append : frames.insertFrames (packets ++ packets') =
    frames.insertFrames packets >>= fun frames ↦ frames.insertFrames packets' := by
  induction packets generalizing frames with
  | nil => rfl
  | cons packet packets ih => simp [InProgressFrames.insertFrames, ih]

/-- A part of the frames that the data service hands over is inserted. -/
theorem exists_insertFrames_of_ensureHasFrameToTransmit {extracted : Option (List DataPacket)}
    (h : frames.ensureHasFrameToTransmit extracted = .ok frames') :
    ∃ packets, packets.Sublist (extracted.getD []) ∧ frames.insertFrames packets = .ok frames' := by
  unfold InProgressFrames.ensureHasFrameToTransmit at h
  split at h
  · exact ⟨[], nil_sublist _, h⟩
  · exact ⟨_, List.Sublist.refl _, h⟩

theorem exists_insertFrames_of_getFrameToTransmit {extracted : Option (List DataPacket)}
    {packet : Option DataPacket}
    (h : frames.getFrameToTransmit extracted = .ok (packet, frames')) :
    ∃ packets, packets.Sublist (extracted.getD []) ∧ frames.insertFrames packets = .ok frames' := by
  obtain ⟨frames'', hensure, heq⟩ := bind_eq_ok h
  obtain ⟨rfl, rfl⟩ := Prod.mk.inj (ok.inj heq)
  exact exists_insertFrames_of_ensureHasFrameToTransmit hensure

theorem exists_insertFrames_of_getPendingFrameFor {isRts : Bool}
    {extracted extractedNext : Option (List DataPacket)} {packet : Option DataPacket}
    (h : frames.getPendingFrameFor isRts extracted extractedNext = .ok (packet, frames')) :
    ∃ packets, packets.Sublist (extracted.getD [] ++ extractedNext.getD []) ∧
      frames.insertFrames packets = .ok frames' := by
  obtain ⟨⟨packet', frames''⟩, hget, hrest⟩ := bind_eq_ok h
  obtain ⟨packets, hsublist, hinsert⟩ := exists_insertFrames_of_getFrameToTransmit hget
  have hdone (heq : frames'' = frames') :
      ∃ packets, packets.Sublist (extracted.getD [] ++ extractedNext.getD []) ∧
        frames.insertFrames packets = .ok frames' :=
    ⟨packets, hsublist.trans (sublist_append_left _ _), heq ▸ hinsert⟩
  simp only at hrest
  split at hrest
  · exact hdone (Prod.mk.inj (ok.inj hrest)).2
  · split at hrest
    · exact hdone (Prod.mk.inj (ok.inj hrest)).2
    · split at hrest
      · exact hdone (Prod.mk.inj (ok.inj hrest)).2
      · cases hrest
      · obtain ⟨frames₃, hinsert', heq⟩ := bind_eq_ok hrest
        obtain ⟨-, rfl⟩ := Prod.mk.inj (ok.inj heq)
        refine ⟨_, hsublist.append (List.Sublist.refl _), ?_⟩
        rw [insertFrames_append, bind_of_ok hinsert]
        exact hinsert'

theorem calm_dropOnRetryLimit {retryLimitReached : Bool} {packet : Option DataPacket}
    (h : dropOnRetryLimit frames retryLimitReached packet = .ok frames') :
    Calm [] frames frames' ∧ frames'.inProgressFrames.Sublist frames.inProgressFrames := by
  cases packet with
  | none => cases h
  | some packet =>
    obtain rfl := ok.inj h
    split
    · exact ⟨calm_dropFrameAndStatus frames packet, filter_sublist⟩
    · exact ⟨.refl frames, List.Sublist.refl _⟩

/-- A status that awaits no Block Ack is set for a frame that has a status. -/
theorem calm_setStatus_of_found {id : QoSKey} {status : Status} (hstatus : ¬AwaitsBlockAck status)
    (hfound : getQoSDataAckStatus frames.ackStatuses id ≠ .FRAME_NOT_YET_TRANSMITTED) :
    Calm [] frames { frames with ackStatuses := setStatus frames.ackStatuses id status } where
  ids := by
    rw [append_nil, InProgressFrames.ids, ids_setStatus_of_found hfound]
    exact List.Subset.refl _
  sorted hsorted _ := by
    rwa [AckStatuses.Sorted, ids_setStatus_of_found hfound]
  awaits := (calm_setStatus hstatus frames).awaits

theorem calm_ackReceived (h : ackReceived frames packet = .ok frames') :
    Calm [] frames frames' ∧ frames'.inProgressFrames.Sublist frames.inProgressFrames := by
  obtain ⟨ackStatuses, hstatuses, rfl⟩ := bind_pure_eq_ok h
  unfold processReceivedAck at hstatuses
  split at hstatuses
  · cases hstatuses
  · rename_i hfound
    obtain rfl := ok.inj hstatuses
    exact ⟨(calm_setStatus_of_found (by simp [AwaitsBlockAck]) hfound).trans
      (calm_dropFrameAndStatus _ packet), filter_sublist⟩

theorem calm_ackTimeout {retryLimitReached : Bool}
    (h : ackTimeout frames packet retryLimitReached = .ok frames') :
    Calm [] frames frames' ∧ frames'.inProgressFrames.Sublist frames.inProgressFrames := by
  obtain ⟨⟨⟩, -, h⟩ := bind_eq_ok h
  obtain ⟨ackStatuses, hstatuses, heq⟩ := bind_eq_ok h
  have hcalm : Calm [] frames { frames with ackStatuses := ackStatuses } := by
    unfold processFailedFrame at hstatuses
    split at hstatuses
    · rename_i hstatus
      obtain rfl := ok.inj hstatuses
      exact calm_setStatus_of_found (by simp [AwaitsBlockAck]) (by rw [hstatus]; decide)
    · rename_i hstatus
      obtain rfl := ok.inj hstatuses
      exact calm_setStatus_of_found (by simp [AwaitsBlockAck]) (by rw [hstatus]; decide)
    · cases hstatuses
  obtain rfl := ok.inj heq
  split
  · exact ⟨hcalm.trans (calm_dropFrameAndStatus _ packet), filter_sublist⟩
  · exact ⟨hcalm, List.Sublist.refl _⟩

/-- No frame waits but for the BlockAck of before, or none at all. -/
theorem Invariant.of_calm (hinv : Invariant edcaf)
    (hclose : WithinHalfRing (edcaf.frames.ids ++ new))
    (h : Calm new edcaf.frames edcaf'.frames)
    (hawaited : (∀ id, Awaited.Reports edcaf.awaited id → Awaited.Reports edcaf'.awaited id) ∨
      ∀ e ∈ edcaf'.frames.ackStatuses, e.2 ≠ .WAITING_FOR_BLOCK_ACK) : Invariant edcaf' where
  orderly := h.orderly hinv.orderly hclose
  close := hclose.subset h.ids
  waiting e he hwaiting := by
    rcases hawaited with hreports | hnone
    · exact hreports e.1 (hinv.waiting e (h.awaits e he (.inr hwaiting)) hwaiting)
    · exact absurd hwaiting (hnone e he)

/-! ## Runs -/

/-- The next exchange is a request: there is a receiver with enough outstanding frames and the frame
to transmit is no multicast frame. -/
def SendsRequest (policy : OriginatorQosAckPolicy) (edcaf : Edcaf) : Prop :=
  policy.isBlockAckReqNeeded edcaf.frames = true ∧
    ∀ packet ∈ edcaf.frames.findEligible, packet.header.receiverAddress.isMulticast = false

/-- The numbers in use for a receiver and TID are close together, and receivers and TIDs do not mix
in a request. -/
def Separate (policy : OriginatorQosAckPolicy) (edcaf : Edcaf) (event : Edcaf.Event) : Prop :=
  WithinHalfRing (edcaf.frames.ids ++ event.extracted.map DataPacket.id) ∧
    match event with
    | .transmit _ => SendsRequest policy edcaf → edcaf.frames.Requestable
    | _ => True

theorem map_id_setAckPolicy (frames : InProgressFrames) (packet : DataPacket)
    (ackPolicy : AckPolicy) :
    (frames.setAckPolicy packet ackPolicy).inProgressFrames.map DataPacket.id =
      frames.inProgressFrames.map DataPacket.id := by
  simp only [InProgressFrames.setAckPolicy, map_map]
  apply map_congr_left
  intro frame _
  simp only [Function.comp]
  split <;> rfl

theorem invariant_transmitData {ackPolicy : AckPolicy} (hinv : Invariant edcaf)
    (hidle : edcaf.awaited = .nothing)
    (hpacket : packet ∈ edcaf.frames.inProgressFrames)
    (hunicast : packet.header.receiverAddress.isMulticast = false)
    (h : edcaf.transmitData packet ackPolicy = .ok edcaf') : Invariant edcaf' := by
  obtain ⟨ackStatuses, hstatuses, rfl⟩ := bind_pure_eq_ok h
  obtain ⟨status, hset, hstatus⟩ : ∃ status,
      ackStatuses = setStatus edcaf.frames.ackStatuses packet.id status ∧
        status ≠ .WAITING_FOR_BLOCK_ACK := by
    cases ackPolicy with
    | NORMAL_ACK | NO_ACK | BLOCK_ACK => exact ⟨_, (ok.inj hstatuses).symm, by decide⟩
    | NO_EXPLICIT_ACK => cases hstatuses
  have hid : packet.id ∈ edcaf.frames.ids :=
    mem_append_right _ (mem_map_of_mem hpacket)
  have hids : ackStatuses.ids ++ edcaf.frames.inProgressFrames.map DataPacket.id ⊆
      edcaf.frames.ids := by
    refine append_subset.mpr ⟨?_, subset_append_right _ _⟩
    intro id hmem
    rw [hset] at hmem
    rcases mem_cons.mp (mem_ids_setStatus hmem) with rfl | hmem
    · exact hid
    · exact mem_append_left _ hmem
  refine ⟨⟨?_, ?_⟩, ?_, ?_⟩
  · have hsorted : ackStatuses.Sorted := by
      rw [hset]
      apply sorted_setStatus hinv.orderly.sorted
      exact hinv.close.subset (cons_subset.mpr ⟨hid, subset_append_left _ _⟩)
    simp only
    split <;> exact hsorted
  · intro e he hawaits
    have hmem : e ∈ setStatus edcaf.frames.ackStatuses packet.id status := by
      rw [← hset]
      simp only at he
      split at he <;> exact he
    rcases mem_setStatus hmem with hmem | ⟨-, hflow⟩
    · exact hinv.orderly.unicast e hmem hawaits
    · rw [(QoSKey.flow_eq_iff.mp hflow).1]
      exact hunicast
  · apply hinv.close.subset
    refine List.Subset.trans ?_ hids
    rw [← map_id_setAckPolicy edcaf.frames packet ackPolicy]
    simp only
    split
    · apply append_subset.mpr
      exact ⟨subset_append_left _ _, subset_append_of_subset_right _
        (map_subset _ filter_sublist.subset)⟩
    · exact List.Subset.refl _
  · intro e he hwaiting
    have hmem : e ∈ setStatus edcaf.frames.ackStatuses packet.id status := by
      rw [← hset]
      simp only at he
      split at he <;> exact he
    rcases mem_setStatus hmem with hmem | ⟨heq, -⟩
    · have hreports := hinv.waiting e hmem hwaiting
      rw [hidle] at hreports
      exact hreports.elim
    · exact absurd (heq.symm.trans hwaiting) hstatus

theorem invariant_transmitBlockAckReq (hinv : Invariant edcaf) (hidle : edcaf.awaited = .nothing)
    (hreported : edcaf.frames.ChangesOnlyReported (transmitBlockAckReq policy edcaf).frames
      (request policy edcaf.frames)) : Invariant (transmitBlockAckReq policy edcaf) := by
  rw [transmitBlockAckReq_eq] at hreported ⊢
  have hids : (processTransmittedBlockAckReq edcaf.frames.ackStatuses
      (request policy edcaf.frames)).ids = edcaf.frames.ackStatuses.ids := by
    unfold AckStatuses.ids processTransmittedBlockAckReq
    rw [map_map]
    apply map_congr_left
    intro e _
    simp only [Function.comp]
    split <;> rfl
  refine ⟨⟨?_, ?_⟩, ?_, ?_⟩
  · rw [AckStatuses.Sorted, hids]
    exact hinv.orderly.sorted
  · intro e he hawaits
    rcases mem_processTransmittedBlockAckReq he with ⟨e', he', hrequested, rfl⟩ | ⟨he, -⟩
    · exact hinv.orderly.unicast e' he' (.inl (isRequested_iff.mp hrequested).2.1)
    · exact hinv.orderly.unicast e he hawaits
  · simp only [InProgressFrames.ids, hids]
    exact hinv.close
  · intro e he hwaiting
    rcases mem_processTransmittedBlockAckReq he with ⟨e', he', hrequested, rfl⟩ | ⟨he, -⟩
    · exact hreported e' he' ((not_mem_processTransmittedBlockAckReq_iff he').mpr hrequested)
    · have hreports := hinv.waiting e he hwaiting
      rw [hidle] at hreports
      exact hreports.elim

/-- The answer to a request, or its timeout, ends every wait. -/
theorem not_waiting_of_settled (hinv : Invariant edcaf)
    (hawaited : edcaf.awaited = .blockAck blockAckReq)
    (hsettled : Settled (reportedPositions.map (reportedKey blockAckReq.receiverAddress
      blockAckReq.tidInfo blockAckReq.startingSequenceNumber)) edcaf.frames.ackStatuses
        ackStatuses) :
    ∀ e ∈ ackStatuses, e.2 ≠ .WAITING_FOR_BLOCK_ACK := by
  intro e he hwaiting
  have hreports := hinv.waiting e (hsettled.awaits e he (.inr hwaiting)) hwaiting
  rw [hawaited] at hreports
  exact hsettled.waiting e he hwaiting (mem_map_reportedKey hreports)

theorem dropFrames_sublist (ackStatuses : AckStatuses) (seqAndFragNums : QoSKeySet) :
    (QosAckHandler.dropFrames ackStatuses seqAndFragNums).Sublist ackStatuses := by
  induction seqAndFragNums generalizing ackStatuses with
  | nil => exact List.Sublist.refl _
  | cons it rest ih => exact (ih _).trans (erase_sublist _ _)

theorem blockAckReceived_eq (frames : InProgressFrames) (blockAck : AddressedBlockAck) :
    ∃ acked, blockAckReceived frames blockAck =
      { frames.dropFrames acked with
        ackStatuses := QosAckHandler.dropFrames
          (QosAckHandler.processReceivedBlockAck frames.ackStatuses blockAck).2 acked } :=
  ⟨(QosAckHandler.processReceivedBlockAck frames.ackStatuses blockAck).1, rfl⟩

theorem not_waiting_blockAckReceived {blockAck : AddressedBlockAck} (hinv : Invariant edcaf)
    (hawaited : edcaf.awaited = .blockAck blockAckReq) (hanswers : Answers blockAck blockAckReq) :
    ∀ e ∈ (blockAckReceived edcaf.frames blockAck).ackStatuses,
      e.2 ≠ .WAITING_FOR_BLOCK_ACK := by
  have hsettled := settled_processReceivedBlockAck hinv.orderly blockAck
  rw [hanswers.1, hanswers.2.1, hanswers.2.2] at hsettled
  obtain ⟨acked, heq⟩ := blockAckReceived_eq edcaf.frames blockAck
  intro e he
  rw [heq] at he
  exact not_waiting_of_settled hinv hawaited hsettled e ((dropFrames_sublist _ acked).subset he)

theorem calm_of_settled {settled : List QoSKey} {ackStatuses : AckStatuses}
    (h : Settled settled frames.ackStatuses ackStatuses) :
    Calm [] frames { frames with ackStatuses := ackStatuses } where
  ids := by
    rw [append_nil, InProgressFrames.ids, h.ids]
    exact List.Subset.refl _
  sorted hsorted _ := by rwa [AckStatuses.Sorted, h.ids]
  awaits := h.awaits

theorem calm_dropFrames
    (h : Calm [] frames { frames with ackStatuses := ackStatuses }) (acked : QoSKeySet) :
    Calm [] frames { frames.dropFrames acked with
      ackStatuses := QosAckHandler.dropFrames ackStatuses acked } :=
  h.trans (.of_sublist (dropFrames_sublist ackStatuses acked) filter_sublist.subset)

theorem calm_blockAckReceived (blockAck : AddressedBlockAck)
    (horderly : Orderly frames.ackStatuses) :
    Calm [] frames (blockAckReceived frames blockAck) := by
  obtain ⟨acked, heq⟩ := blockAckReceived_eq frames blockAck
  have hcalm := calm_of_settled (settled_processReceivedBlockAck horderly blockAck)
  rw [heq]
  exact calm_dropFrames hcalm acked

theorem not_reports_of_not_blockAck {awaited awaited' : Awaited}
    (h : ∀ blockAckReq, awaited ≠ .blockAck blockAckReq) (id : QoSKey)
    (hreports : Awaited.Reports awaited id) : Awaited.Reports awaited' id := by
  cases awaited with
  | nothing | ack packet => exact hreports.elim
  | blockAck blockAckReq => exact absurd rfl (h blockAckReq)

/-- The cases of an exchange that begins. -/
theorem transmit_cases {agreement : Option OriginatorBlockAckAgreement}
    (h : edcaf.transmit policy agreement = .ok edcaf') :
    ∃ packet, edcaf.frames.findEligible = some packet ∧
      ((packet.header.receiverAddress.isMulticast = true ∧
          edcaf' = { edcaf with frames := edcaf.frames.dropFrame packet }) ∨
        (SendsRequest policy edcaf ∧ edcaf' = transmitBlockAckReq policy edcaf) ∨
        packet.header.receiverAddress.isMulticast = false ∧
          policy.isBlockAckReqNeeded edcaf.frames = false ∧
          edcaf.transmitData packet (policy.computeAckPolicy packet agreement) = .ok edcaf') := by
  unfold transmit at h
  split at h
  · cases h
  · rename_i packet hfind
    refine ⟨packet, hfind, ?_⟩
    split at h
    · rename_i hmulticast
      exact .inl ⟨hmulticast, (ok.inj h).symm⟩
    · rename_i hunicast
      rw [Bool.not_eq_true] at hunicast
      split at h
      · rename_i hneeded
        refine .inr (.inl ⟨⟨hneeded, fun packet' hpacket' ↦ ?_⟩, (ok.inj h).symm⟩)
        rw [hfind] at hpacket'
        rw [← Option.some.inj hpacket']
        exact hunicast
      · rename_i hneeded
        exact .inr (.inr ⟨hunicast, Bool.eq_false_iff.mpr hneeded, h⟩)

theorem transmit_of_sendsRequest (agreement : Option OriginatorBlockAckAgreement)
    (hsends : SendsRequest policy edcaf)
    (heligible : edcaf.frames.hasEligibleFrameToTransmit = true) :
    edcaf.transmit policy agreement = .ok (transmitBlockAckReq policy edcaf) := by
  obtain ⟨packet, hmem, hpacket⟩ := any_eq_true.mp heligible
  cases hfind : edcaf.frames.findEligible with
  | none => exact absurd hpacket (find?_eq_none.mp hfind packet hmem)
  | some packet =>
    unfold transmit
    rw [hfind]
    simp only [hsends.2 packet hfind, Bool.false_eq_true, if_false, hsends.1, if_true]

/-- What a step can do: frames come and go, a request is sent, or a data frame is sent. -/
theorem step_cases {event : Edcaf.Event} (hinv : Invariant edcaf)
    (hstep : (machine policy).Step edcaf event edcaf')
    (hclose : WithinHalfRing (edcaf.frames.ids ++ event.extracted.map DataPacket.id)) :
    (∃ packets, packets.Sublist event.extracted ∧ Keeps packets edcaf.frames edcaf'.frames ∧
      ((∀ id, Awaited.Reports edcaf.awaited id → Awaited.Reports edcaf'.awaited id) ∨
        ∀ e ∈ edcaf'.frames.ackStatuses, e.2 ≠ .WAITING_FOR_BLOCK_ACK) ∧
      ∀ agreement, event = .transmit agreement → ∀ packet ∈ edcaf.frames.findEligible,
        packet.header.receiverAddress.isMulticast = true) ∨
    ∃ agreement, event = .transmit agreement ∧ edcaf.awaited = .nothing ∧
      (SendsRequest policy edcaf ∧ edcaf' = transmitBlockAckReq policy edcaf ∨
      ∃ packet, edcaf.frames.findEligible = some packet ∧
        packet.header.receiverAddress.isMulticast = false ∧
        policy.isBlockAckReqNeeded edcaf.frames = false ∧
        edcaf.transmitData packet (policy.computeAckPolicy packet agreement) = .ok edcaf') := by
  obtain ⟨henabled, hhandle⟩ := hstep
  have hkeeps {packets : List DataPacket} {frames : InProgressFrames}
      (hsublist : packets.Sublist event.extracted)
      (hinsert : edcaf.frames.insertFrames packets = .ok frames) :
        Keeps packets edcaf.frames frames :=
    keeps_insertFrames hinv.orderly (hclose.subset (append_subset.mpr
      ⟨subset_append_left _ _, subset_append_of_subset_right _
        (map_subset _ hsublist.subset)⟩)) hinsert
  cases event with
  | ensureHasFrameToTransmit extracted =>
    obtain ⟨frames, hframes, rfl⟩ := bind_pure_eq_ok hhandle
    obtain ⟨packets, hsublist, hinsert⟩ := exists_insertFrames_of_ensureHasFrameToTransmit hframes
    exact .inl ⟨packets, hsublist, hkeeps hsublist hinsert, .inl fun _ h ↦ h, nofun⟩
  | getPendingFrameFor isRts extracted extractedNext =>
    obtain ⟨⟨packet, frames⟩, hframes, heq⟩ := bind_eq_ok hhandle
    obtain rfl := ok.inj heq
    obtain ⟨packets, hsublist, hinsert⟩ := exists_insertFrames_of_getPendingFrameFor hframes
    exact .inl ⟨packets, hsublist, hkeeps hsublist hinsert, .inl fun _ h ↦ h, nofun⟩
  | internalCollision extracted retryLimitReached =>
    obtain ⟨⟨packet, frames⟩, hframes, hrest⟩ := bind_eq_ok hhandle
    obtain ⟨frames', hdrop, rfl⟩ := bind_pure_eq_ok hrest
    obtain ⟨packets, hsublist, hinsert⟩ := exists_insertFrames_of_getFrameToTransmit hframes
    obtain ⟨hcalm, hdropped⟩ := calm_dropOnRetryLimit hdrop
    exact .inl ⟨packets, hsublist, (hkeeps hsublist hinsert).trans_calm hcalm hdropped,
      .inl fun _ h ↦ h, nofun⟩
  | rtsProtectionFailed retryLimitReached =>
    obtain ⟨frames', hdrop, rfl⟩ := bind_pure_eq_ok hhandle
    obtain ⟨hcalm, hdropped⟩ := calm_dropOnRetryLimit hdrop
    exact .inl ⟨[], nil_sublist _, hcalm.keeps hdropped, .inl fun _ h ↦ h, nofun⟩
  | transmit agreement =>
    obtain ⟨packet, hfind, hcases⟩ := transmit_cases hhandle
    rcases hcases with ⟨hmulticast, rfl⟩ | hrequest | hdata
    · refine .inl ⟨[], nil_sublist _, (calm_dropFrame _ packet).keeps filter_sublist,
        .inl fun _ h ↦ h, fun _ _ packet' hpacket' ↦ ?_⟩
      rw [hfind] at hpacket'
      rwa [← Option.some.inj hpacket']
    · exact .inr ⟨agreement, rfl, henabled.1, .inl hrequest⟩
    · exact .inr ⟨agreement, rfl, henabled.1, .inr ⟨packet, hfind, hdata⟩⟩
  | ackReceived =>
    cases hawaited : edcaf.awaited with
    | nothing => simp [machine, Enabled, hawaited] at henabled
    | blockAck blockAckReq => simp [machine, Enabled, hawaited] at henabled
    | ack packet =>
      simp only [machine, handle, hawaited] at hhandle
      obtain ⟨frames, hframes, rfl⟩ := bind_pure_eq_ok hhandle
      obtain ⟨hcalm, hdropped⟩ := calm_ackReceived hframes
      exact .inl ⟨[], nil_sublist _, hcalm.keeps hdropped,
        .inl (not_reports_of_not_blockAck nofun), nofun⟩
  | ackTimeout retryLimitReached =>
    cases hawaited : edcaf.awaited with
    | nothing => simp [machine, Enabled, hawaited] at henabled
    | blockAck blockAckReq => simp [machine, Enabled, hawaited] at henabled
    | ack packet =>
      simp only [machine, handle, hawaited] at hhandle
      obtain ⟨frames, hframes, rfl⟩ := bind_pure_eq_ok hhandle
      obtain ⟨hcalm, hdropped⟩ := calm_ackTimeout hframes
      exact .inl ⟨[], nil_sublist _, hcalm.keeps hdropped,
        .inl (not_reports_of_not_blockAck nofun), nofun⟩
  | blockAckReceived blockAck =>
    cases hawaited : edcaf.awaited with
    | nothing => simp [machine, Enabled, hawaited] at henabled
    | ack packet => simp [machine, Enabled, hawaited] at henabled
    | blockAck blockAckReq =>
      have hanswers : Answers blockAck blockAckReq := by
        simpa [machine, Enabled, hawaited] using henabled
      have hresult : ok ⟨blockAckReceived edcaf.frames blockAck, .nothing⟩ =
          (ok edcaf' : Except Fault Edcaf) := hhandle
      have hcalm := calm_blockAckReceived blockAck hinv.orderly
      have hnone := not_waiting_blockAckReceived hinv hawaited hanswers
      obtain ⟨acked, heq⟩ := blockAckReceived_eq edcaf.frames blockAck
      have hdropped : (blockAckReceived edcaf.frames blockAck).inProgressFrames.Sublist
          edcaf.frames.inProgressFrames := by
        rw [heq]
        exact filter_sublist
      rw [← ok.inj hresult]
      exact .inl ⟨[], nil_sublist _, hcalm.keeps hdropped, .inr hnone, nofun⟩
  | blockAckTimeout =>
    cases hawaited : edcaf.awaited with
    | nothing => simp [machine, Enabled, hawaited] at henabled
    | ack packet => simp [machine, Enabled, hawaited] at henabled
    | blockAck blockAckReq =>
      simp only [machine, handle, hawaited] at hhandle
      have hsettled := settled_processFailedBlockAckReq hinv.orderly blockAckReq
      -- the loops are not to be evaluated
      generalize processFailedBlockAckReq edcaf.frames.ackStatuses blockAckReq = ackStatuses
        at hhandle hsettled
      have hcalm := calm_of_settled hsettled
      have hnone := not_waiting_of_settled hinv hawaited hsettled
      rw [← ok.inj hhandle]
      exact .inl ⟨[], nil_sublist _, hcalm.keeps (List.Sublist.refl _), .inr hnone, nofun⟩

theorem invariant_step {event : Edcaf.Event} (hinv : Invariant edcaf)
    (hstep : (machine policy).Step edcaf event edcaf') (hsep : Separate policy edcaf event) :
    Invariant edcaf' := by
  rcases step_cases hinv hstep hsep.1 with
    ⟨packets, hsublist, hkeeps, hawaited, -⟩ | ⟨agreement, rfl, hidle, hsends⟩
  · refine hinv.of_calm (hsep.1.subset ?_) hkeeps.calm hawaited
    exact append_subset.mpr ⟨subset_append_left _ _,
      subset_append_of_subset_right _ (map_subset _ hsublist.subset)⟩
  · rcases hsends with ⟨hsends, rfl⟩ | ⟨packet, hfind, hunicast, -, hdata⟩
    · have hsound := sound_of_requestable hsends.1 (hsep.2 hsends)
      exact invariant_transmitBlockAckReq hinv hidle hsound.1
    · have hmem := mem_of_find?_eq_some hfind
      exact invariant_transmitData hinv hidle hmem hunicast hdata

theorem invariant_initial : Invariant initial where
  orderly := ⟨List.Pairwise.nil, nofun⟩
  close := nofun
  waiting := nofun

theorem invariant_of_run {events : List Edcaf.Event}
    (hrun : ((machine policy).restrict (Separate policy)).Run initial events edcaf) :
    Invariant edcaf := by
  refine hrun.invariant ?_ invariant_initial
  intro s event t hinv hstep
  obtain ⟨hstep, hsep⟩ := Machine.step_restrict_iff.mp hstep
  exact invariant_step hinv hstep hsep

theorem noneWaiting_of_invariant (hinv : Invariant edcaf)
    (hawaited : ∀ blockAckReq, edcaf.awaited ≠ .blockAck blockAckReq) :
    edcaf.frames.NoneWaiting := by
  intro packet _
  apply getQoSDataAckStatus_ne (by decide)
  intro e he hwaiting
  have hfalse := hinv.waiting e he hwaiting
  cases h : edcaf.awaited with
  | nothing | ack packet =>
    rw [h] at hfalse
    exact hfalse
  | blockAck blockAckReq => exact hawaited blockAckReq h

theorem awaited_transmitData {ackPolicy : AckPolicy}
    (h : edcaf.transmitData packet ackPolicy = .ok edcaf') (blockAckReq : BasicBlockAckReq) :
    edcaf'.awaited ≠ .blockAck blockAckReq := by
  obtain ⟨ackStatuses, -, rfl⟩ := bind_pure_eq_ok h
  simp only
  split <;> exact nofun

/-- Only a request makes the originator wait for a BlockAck. -/
theorem request_of_step {event : Edcaf.Event} (hstep : (machine policy).Step edcaf event edcaf')
    (hidle : edcaf.awaited = .nothing) (hawaited : edcaf'.awaited = .blockAck blockAckReq) :
    ∃ agreement, event = .transmit agreement ∧ SendsRequest policy edcaf ∧
      edcaf' = transmitBlockAckReq policy edcaf ∧ blockAckReq = request policy edcaf.frames := by
  obtain ⟨henabled, hhandle⟩ := hstep
  have hsame (h : edcaf'.awaited = edcaf.awaited) : False := by
    rw [hawaited, hidle] at h
    cases h
  cases event with
  | ensureHasFrameToTransmit extracted | getPendingFrameFor isRts extracted extractedNext
  | rtsProtectionFailed retryLimitReached =>
    obtain ⟨frames, -, rfl⟩ := bind_pure_eq_ok hhandle
    exact (hsame rfl).elim
  | internalCollision extracted retryLimitReached =>
    obtain ⟨frames, -, hrest⟩ := bind_eq_ok hhandle
    obtain ⟨frames', -, rfl⟩ := bind_pure_eq_ok hrest
    exact (hsame rfl).elim
  | transmit agreement =>
    obtain ⟨packet, -, hcases⟩ := transmit_cases hhandle
    rcases hcases with ⟨-, rfl⟩ | ⟨hsends, rfl⟩ | ⟨-, -, hdata⟩
    · exact (hsame rfl).elim
    · rw [transmitBlockAckReq_eq] at hawaited
      exact ⟨agreement, rfl, hsends, rfl, (Awaited.blockAck.inj hawaited).symm⟩
    · exact absurd hawaited (awaited_transmitData hdata blockAckReq)
  | ackReceived | ackTimeout retryLimitReached | blockAckReceived blockAck | blockAckTimeout =>
    simp [machine, Enabled, hidle] at henabled

/-- As long as receivers and TIDs do not mix, every request starts with the smallest outstanding
number of its receiver and TID and makes the originator wait for no frames but those that the
BlockAck reports, and no frame waits any more when the BlockAck or the timeout was processed. -/
theorem bookkeeping_of_run {events : List Edcaf.Event} {event : Edcaf.Event}
    (hrun : ((machine policy).restrict (Separate policy)).Run initial events edcaf)
    (hstep : ((machine policy).restrict (Separate policy)).Step edcaf event edcaf') :
    (∀ blockAckReq, edcaf.awaited = .nothing → edcaf'.awaited = .blockAck blockAckReq →
      edcaf.frames.ChangesOnlyReported edcaf'.frames blockAckReq ∧
        edcaf.frames.StartsWithSmallest blockAckReq) ∧
    ((∀ blockAckReq, edcaf'.awaited ≠ .blockAck blockAckReq) → edcaf'.frames.NoneWaiting) := by
  have hinv := invariant_of_run hrun
  obtain ⟨hstep, hsep⟩ := Machine.step_restrict_iff.mp hstep
  constructor
  · intro blockAckReq hidle hawaited
    obtain ⟨agreement, rfl, hsends, rfl, rfl⟩ := request_of_step hstep hidle hawaited
    exact sound_of_requestable hsends.1 (hsep.2 hsends)
  · exact noneWaiting_of_invariant (invariant_step hinv hstep hsep)

/-! ## Two receivers of one TID -/

instance (blockAck : AddressedBlockAck) (blockAckReq : BasicBlockAckReq) :
    Decidable (Answers blockAck blockAckReq) := inferInstanceAs (Decidable (_ ∧ _))

instance decidableEnabled (edcaf : Edcaf) : (event : Edcaf.Event) →
    Decidable (Enabled edcaf event)
  | .ensureHasFrameToTransmit _ | .getPendingFrameFor .. => isTrue trivial
  | .internalCollision .. => inferInstanceAs (Decidable (_ = _))
  | .rtsProtectionFailed _ | .transmit _ => inferInstanceAs (Decidable (_ ∧ _))
  | .ackReceived | .ackTimeout _ =>
    match h : edcaf.awaited with
    | .ack _ => isTrue (by simp [Enabled, h])
    | .nothing => isFalse (by simp [Enabled, h])
    | .blockAck _ => isFalse (by simp [Enabled, h])
  | .blockAckReceived blockAck =>
    match h : edcaf.awaited with
    | .blockAck blockAckReq =>
      decidable_of_iff (Answers blockAck blockAckReq) (by simp [Enabled, h])
    | .nothing => isFalse (by simp [Enabled, h])
    | .ack _ => isFalse (by simp [Enabled, h])
  | .blockAckTimeout =>
    match h : edcaf.awaited with
    | .blockAck _ => isTrue (by simp [Enabled, h])
    | .nothing => isFalse (by simp [Enabled, h])
    | .ack _ => isFalse (by simp [Enabled, h])

instance (policy : OriginatorQosAckPolicy) (edcaf : Edcaf) (event : Edcaf.Event) :
    Decidable ((machine policy).Enabled edcaf event) := decidableEnabled edcaf event

instance (packets : List DataPacket) (receiver : MacAddress) :
    Decidable (IsLargest packets receiver) :=
  inferInstanceAs (Decidable (∀ _ ∈ _, _))

instance (receiverAddress : MacAddress) (tid : Tid) (start : SequenceNumber) (id : QoSKey) :
    Decidable (Reported receiverAddress tid start id) := inferInstanceAs (Decidable (_ ∧ _))

instance (frames : InProgressFrames) : Decidable frames.Requestable :=
  inferInstanceAs (Decidable (∀ _ ∈ _, _))

instance (policy : OriginatorQosAckPolicy) (edcaf : Edcaf) :
    Decidable (SendsRequest policy edcaf) :=
  inferInstanceAs (Decidable (_ ∧ _))

instance (policy : OriginatorQosAckPolicy) (edcaf : Edcaf) : (event : Edcaf.Event) →
    Decidable (Separate policy edcaf event)
  | .transmit _ | .ensureHasFrameToTransmit _ | .getPendingFrameFor .. | .internalCollision ..
  | .rtsProtectionFailed _ | .ackReceived | .ackTimeout _ | .blockAckReceived _
  | .blockAckTimeout =>
    inferInstanceAs (Decidable (_ ∧ _))

/-- A packet of 500 bytes with TID 0 that is no fragment. -/
def samplePacket (pointer : ℕ) (receiverAddress : MacAddress) (sequenceNumber : SequenceNumber) :
    DataPacket where
  pointer := pointer
  header := ⟨receiverAddress, 0, sequenceNumber, ⟨0, by decide⟩, false, .NORMAL_ACK⟩
  byteLength := 500

/-- An agreement for 64 frames from the number 0 on. -/
def sampleAgreement : OriginatorBlockAckAgreement := ⟨true, 64, 0, true, 0⟩

/-- A packet comes from the data service and its exchange begins. -/
def sendSample (packet : DataPacket) : List Edcaf.Event :=
  [.ensureHasFrameToTransmit (some [packet]), .transmit (some sampleAgreement)]

/-- One frame goes to the first receiver and five to the second one, all under their agreements, and
a sixth one is in progress. -/
def mixedReceivers : List Edcaf.Event :=
  sendSample (samplePacket 0 2 0) ++ sendSample (samplePacket 1 4 0) ++
    sendSample (samplePacket 2 4 1) ++ sendSample (samplePacket 3 4 2) ++
    sendSample (samplePacket 4 4 3) ++ sendSample (samplePacket 5 4 4) ++
    [.ensureHasFrameToTransmit (some [samplePacket 6 4 5])]

/-- The request to the second receiver also changes the frame to the first one, which no BlockAck of
the second receiver reports. -/
theorem not_bookkeeping_mixedReceivers :
    ¬∀ (policy : OriginatorQosAckPolicy) (events : List Edcaf.Event) (event : Edcaf.Event)
        (edcaf edcaf' : Edcaf),
      (machine policy).Run initial events edcaf → (machine policy).Step edcaf event edcaf' →
        (∀ blockAckReq, edcaf.awaited = .nothing → edcaf'.awaited = .blockAck blockAckReq →
          edcaf.frames.ChangesOnlyReported edcaf'.frames blockAckReq ∧
            edcaf.frames.StartsWithSmallest blockAckReq) ∧
        ((∀ blockAckReq, edcaf'.awaited ≠ .blockAck blockAckReq) →
          edcaf'.frames.NoneWaiting) := by
  intro hall
  obtain ⟨edcaf, hrun, hidle, heligible, hsends, e, he, hrequested, hreceiver⟩ :
      ∃ edcaf, (machine {}).Run initial mixedReceivers edcaf ∧
        edcaf.awaited = .nothing ∧ edcaf.frames.hasEligibleFrameToTransmit = true ∧
        SendsRequest {} edcaf ∧ ∃ e ∈ edcaf.frames.ackStatuses,
          isRequested (request {} edcaf.frames) e = true ∧
            e.1.receiverAddress ≠ (request {} edcaf.frames).receiverAddress :=
    Machine.exists_run_of_exec (by decide +kernel)
  have hstep : (machine {}).Step edcaf (.transmit none) (transmitBlockAckReq {} edcaf) :=
    ⟨⟨hidle, heligible⟩, transmit_of_sendsRequest none hsends heligible⟩
  rw [transmitBlockAckReq_eq] at hstep
  obtain ⟨hchanges, -⟩ := (hall {} _ _ edcaf _ hrun hstep).1 _ hidle rfl
  have hchanged := (not_mem_processTransmittedBlockAckReq_iff he).mpr hrequested
  exact hreceiver (hchanges e he hchanged).1

/-- A BlockAck that acknowledges everything. -/
def sampleBlockAck (transmitterAddress : MacAddress) : AddressedBlockAck where
  startingSequenceNumber := 0
  blockAckBitmap := replicate 64 (replicate 16 true)
  transmitterAddress := transmitterAddress
  tidInfo := 0

/-- Five frames to one receiver and their request. -/
def oneReceiver : List Edcaf.Event :=
  sendSample (samplePacket 1 4 0) ++ sendSample (samplePacket 2 4 1) ++
    sendSample (samplePacket 3 4 2) ++ sendSample (samplePacket 4 4 3) ++
    sendSample (samplePacket 5 4 4) ++ sendSample (samplePacket 6 4 5)

theorem bookkeeping_of_run_oneReceiver :
    ∃ edcaf edcaf', ((machine {}).restrict (Separate {})).Run initial oneReceiver edcaf ∧
      ((machine {}).restrict (Separate {})).Step edcaf
        (.blockAckReceived (sampleBlockAck 4)) edcaf' ∧
      ((∀ blockAckReq, edcaf'.awaited ≠ .blockAck blockAckReq) → edcaf'.frames.NoneWaiting) := by
  obtain ⟨edcaf, hrun, henabled⟩ :
      ∃ edcaf, ((machine {}).restrict (Separate {})).Run initial oneReceiver edcaf ∧
        ((machine {}).restrict (Separate {})).Enabled edcaf
          (.blockAckReceived (sampleBlockAck 4)) :=
    Machine.exists_run_of_exec (by decide +kernel)
  have hstep : ((machine {}).restrict (Separate {})).Step edcaf
      (.blockAckReceived (sampleBlockAck 4))
        ⟨blockAckReceived edcaf.frames (sampleBlockAck 4), .nothing⟩ := ⟨henabled, rfl⟩
  exact ⟨edcaf, _, hrun, hstep, (bookkeeping_of_run hrun hstep).2⟩

end Edcaf

end Inet4.Ieee80211
