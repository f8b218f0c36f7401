import Inet4.Ieee80211.OriginatorRuns

/-!
# The frames in flight under a Block Ack agreement

`baPolicyFrameSent` is not called, so that the buffer of an agreement is never full.  What bounds
the frames in flight is the request that is sent before new ones.
-/

namespace Inet4.Ieee80211

open SequenceNumber QosAckHandler List

/-- An EDCAF, and the pointers of the frames that were sent with the Block Ack policy. -/
structure BlockAckWindow where
  edcaf : Edcaf := {}
  sent : List ℕ := []

/-- An agreement whose response was accepted. -/
structure AcceptedAgreement where
  receiverAddr : MacAddress
  tid : Tid
  bufferSize : ℕ

def AcceptedAgreement.covers (agreement : AcceptedAgreement) (id : QoSKey) : Bool :=
  id.receiverAddress = agreement.receiverAddr && id.tid = agreement.tid

namespace BlockAckWindow

/-- The agreement that is looked up for the frame to transmit. -/
def foundAgreement : Edcaf.Event → Option OriginatorBlockAckAgreement
  | .transmit found => found
  | _ => none

/-- Packets that are handed over are new, and the agreement has its size when a frame of it is
sent. -/
def Enabled (agreement : AcceptedAgreement) (window : BlockAckWindow) (event : Edcaf.Event) :
    Prop :=
  Edcaf.Enabled window.edcaf event ∧
    ((window.edcaf.frames.inProgressFrames ++ event.extracted).map DataPacket.pointer).Nodup ∧
    ((window.edcaf.frames.inProgressFrames ++ event.extracted).map DataPacket.id).Nodup ∧
    (∀ packet ∈ event.extracted, packet.pointer ∉ window.sent) ∧
    ∀ packet ∈ window.edcaf.frames.findEligible, agreement.covers packet.id →
      ∀ found ∈ foundAgreement event, found.bufferSize = agreement.bufferSize

/-- The frame that is sent with the Block Ack policy. -/
def sends (policy : OriginatorQosAckPolicy) (edcaf : Edcaf) (event : Edcaf.Event) :
    Option DataPacket :=
  edcaf.frames.findEligible.filter fun packet ↦
    !packet.header.receiverAddress.isMulticast && !policy.isBlockAckReqNeeded edcaf.frames &&
      policy.computeAckPolicy packet (foundAgreement event) = .BLOCK_ACK

def handle (policy : OriginatorQosAckPolicy) (window : BlockAckWindow) (event : Edcaf.Event) :
    Except Fault BlockAckWindow := do
  let edcaf ← Edcaf.handle policy window.edcaf event
  let sent := (sends policy window.edcaf event).toList.map DataPacket.pointer ++ window.sent
  return { edcaf, sent }

def machine (policy : OriginatorQosAckPolicy) (agreement : AcceptedAgreement) :
    Machine BlockAckWindow Edcaf.Event Fault where
  Enabled := Enabled agreement
  handle := handle policy

def isInFlight (agreement : AcceptedAgreement) (sent : List ℕ) (packet : DataPacket) : Bool :=
  agreement.covers packet.id && packet.pointer ∈ sent

/-- The frames that were sent under the agreement and are neither acknowledged nor dropped. -/
def inFlight (agreement : AcceptedAgreement) (window : BlockAckWindow) : List DataPacket :=
  window.edcaf.frames.inProgressFrames.filter (isInFlight agreement window.sent)

def outstanding (agreement : AcceptedAgreement) (window : BlockAckWindow) : List DataPacket :=
  window.edcaf.frames.getOutstandingFrames.filter fun packet ↦ agreement.covers packet.id

/-- When a frame is sent under the agreement for the first time, fewer frames are outstanding than
the buffer holds, and the other frames in progress are outstanding or to be sent. -/
def Fits (policy : OriginatorQosAckPolicy) (agreement : AcceptedAgreement) (window : BlockAckWindow)
    (event : Edcaf.Event) : Prop :=
  Edcaf.Separate policy window.edcaf event ∧
    ∀ packet ∈ sends policy window.edcaf event, agreement.covers packet.id →
      packet.pointer ∉ window.sent →
        (∀ found ∈ foundAgreement event,
          ((window.outstanding agreement).length : ℤ) < found.bufferSize) ∧
        ∀ frame ∈ window.edcaf.frames.inProgressFrames, agreement.covers frame.id →
          window.edcaf.frames.isEligible frame = true ∨
            isOutstandingFrame window.edcaf.frames.ackStatuses frame.id = true

/-! ## The frames in their order -/

variable {agreement : AcceptedAgreement} {sent sent' : List ℕ}
variable {before after new frames frames' : List DataPacket} {frame : DataPacket}

/-- The frames in flight stand before the other ones of the agreement, and the buffer can hold
them. -/
structure Bounded (agreement : AcceptedAgreement) (sent : List ℕ) (frames : List DataPacket) :
    Prop where
  pointers : (frames.map DataPacket.pointer).Nodup
  ids : (frames.map DataPacket.id).Nodup
  ordered : frames.Pairwise fun a b ↦
    agreement.covers a.id → isInFlight agreement sent b → isInFlight agreement sent a
  count_le : frames.countP (isInFlight agreement sent) ≤ agreement.bufferSize

/-- Frames that were not sent come in behind the others, and frames leave. -/
theorem Bounded.of_sublist (h : Bounded agreement sent frames)
    (hsublist : frames'.Sublist (frames ++ new))
    (hpointers : ((frames ++ new).map DataPacket.pointer).Nodup)
    (hids : ((frames ++ new).map DataPacket.id).Nodup)
    (hnew : ∀ frame ∈ new, ¬isInFlight agreement sent frame)
    (hsent : ∀ frame ∈ frames', isInFlight agreement sent' frame =
      isInFlight agreement sent frame) :
    Bounded agreement sent' frames' where
  pointers := hpointers.sublist (hsublist.map _)
  ids := hids.sublist (hsublist.map _)
  ordered := by
    have hall : (frames ++ new).Pairwise fun a b ↦
        agreement.covers a.id → isInFlight agreement sent b → isInFlight agreement sent a := by
      refine pairwise_append.mpr ⟨h.ordered, ?_, ?_⟩
      · exact pairwise_of_forall_mem_list fun a _ b hb _ hflight ↦ absurd hflight (hnew b hb)
      · exact fun a _ b hb _ hflight ↦ absurd hflight (hnew b hb)
    refine (hall.sublist hsublist).imp_of_mem fun ha hb hab ↦ ?_
    rwa [hsent _ ha, hsent _ hb]
  count_le := by
    calc
      frames'.countP (isInFlight agreement sent') = frames'.countP (isInFlight agreement sent) :=
        countP_congr fun frame hframe ↦ by rw [hsent frame hframe]
      _ ≤ (frames ++ new).countP (isInFlight agreement sent) := hsublist.countP_le
      _ = frames.countP (isInFlight agreement sent) := by
        rw [countP_append, countP_eq_zero.mpr hnew, Nat.add_zero]
      _ ≤ agreement.bufferSize := h.count_le

/-- A frame is sent while all frames of the agreement before it are in flight, and they leave
room. -/
theorem Bounded.send (h : Bounded agreement sent (before ++ frame :: after))
    (hbefore : ∀ a ∈ before, agreement.covers a.id → isInFlight agreement sent a)
    (hroom : before.countP (isInFlight agreement sent) < agreement.bufferSize)
    (hafter : ∀ a ∈ after, ¬isInFlight agreement sent a)
    (hsent : ∀ a ∈ before ++ after, isInFlight agreement sent' a = isInFlight agreement sent a)
    (hframe : isInFlight agreement sent' frame) :
    Bounded agreement sent' (before ++ frame :: after) := by
  have hold : ∀ a ∈ before, isInFlight agreement sent' a = isInFlight agreement sent a :=
    fun a ha ↦ hsent a (mem_append_left _ ha)
  have hnone : ∀ a ∈ after, ¬isInFlight agreement sent' a := by
    intro a ha
    rw [hsent a (mem_append_right _ ha)]
    exact hafter a ha
  refine ⟨h.pointers, h.ids, ?_, ?_⟩
  · refine pairwise_append.mpr ⟨?_, pairwise_cons.mpr ⟨?_, ?_⟩, ?_⟩
    · refine pairwise_of_forall_mem_list fun a ha b _ hcovers _ ↦ ?_
      rw [hold a ha]
      exact hbefore a ha hcovers
    · exact fun b _ _ _ ↦ hframe
    · exact pairwise_of_forall_mem_list fun a _ b hb _ hflight ↦ absurd hflight (hnone b hb)
    · intro a ha b _ hcovers _
      rw [hold a ha]
      exact hbefore a ha hcovers
  · rw [countP_append, countP_cons, countP_eq_zero.mpr hnone,
      countP_congr fun a ha ↦ by rw [hold a ha]]
    split <;> omega

/-- What is written into the headers does not matter. -/
theorem Bounded.map {write : DataPacket → DataPacket} (h : Bounded agreement sent frames)
    (hpointer : ∀ frame, (write frame).pointer = frame.pointer)
    (hid : ∀ frame, (write frame).id = frame.id) : Bounded agreement sent (frames.map write) where
  pointers := by
    rw [map_map, show DataPacket.pointer ∘ write = DataPacket.pointer from funext hpointer]
    exact h.pointers
  ids := by
    rw [map_map, show DataPacket.id ∘ write = DataPacket.id from funext hid]
    exact h.ids
  ordered := by
    rw [pairwise_map]
    simpa only [isInFlight, hpointer, hid] using h.ordered
  count_le := by
    rw [countP_map, show isInFlight agreement sent ∘ write = isInFlight agreement sent from
      funext fun frame ↦ by simp only [Function.comp, isInFlight, hpointer, hid]]
    exact h.count_le

/-! ## Runs -/

variable {window window' : BlockAckWindow} {policy : OriginatorQosAckPolicy}

structure Invariant (agreement : AcceptedAgreement) (window : BlockAckWindow) : Prop where
  edcaf : Edcaf.Invariant window.edcaf
  bounded : Bounded agreement window.sent window.edcaf.frames.inProgressFrames
  requested : ∀ frame ∈ window.edcaf.frames.inProgressFrames,
    (frame.id, .BLOCK_ACK_NOT_YET_REQUESTED) ∈ window.edcaf.frames.ackStatuses →
      frame.pointer ∈ window.sent

/-- A frame whose status is requested has this entry. -/
theorem mem_of_isOutstandingFrame {edcaf : Edcaf} {packet : DataPacket}
    (hinv : Edcaf.Invariant edcaf) (hpacket : packet ∈ edcaf.frames.inProgressFrames)
    (h : isOutstandingFrame edcaf.frames.ackStatuses packet.id = true) :
    (packet.id, .BLOCK_ACK_NOT_YET_REQUESTED) ∈ edcaf.frames.ackStatuses := by
  rw [isOutstandingFrame, decide_eq_true_eq] at h
  have hfound : getQoSDataAckStatus edcaf.frames.ackStatuses packet.id ≠
      .FRAME_NOT_YET_TRANSMITTED := by
    rw [h]
    decide
  obtain ⟨e, hfind⟩ := find_of_status_ne hfound
  rw [getQoSDataAckStatus, hfind] at h
  obtain ⟨hmem, hless, hless'⟩ := OrderedMap.find_eq_some hfind
  have hid : e.1 = packet.id := QoSKey.eq_of_not_less hinv.close
    (mem_append_left _ (mem_map_of_mem hmem))
    (mem_append_right _ (mem_map_of_mem hpacket))
    (hinv.orderly.unicast e hmem (.inl h)) hless hless'
  rwa [← hid, ← h]

/-- Frames come in and leave, and none is sent under the agreement. -/
theorem Invariant.of_sublist {edcaf : Edcaf} (hinv : Invariant agreement window)
    (hnext : Edcaf.Invariant edcaf)
    (hsublist : edcaf.frames.inProgressFrames.Sublist (window.edcaf.frames.inProgressFrames ++ new))
    (hpointers : ((window.edcaf.frames.inProgressFrames ++ new).map DataPacket.pointer).Nodup)
    (hids : ((window.edcaf.frames.inProgressFrames ++ new).map DataPacket.id).Nodup)
    (hnew : ∀ packet ∈ new, packet.pointer ∉ window.sent)
    (hrequested : ∀ frame ∈ edcaf.frames.inProgressFrames,
      (frame.id, .BLOCK_ACK_NOT_YET_REQUESTED) ∈ edcaf.frames.ackStatuses → frame ∉ new ∧
        (frame.id, .BLOCK_ACK_NOT_YET_REQUESTED) ∈ window.edcaf.frames.ackStatuses) :
    Invariant agreement ⟨edcaf, window.sent⟩ := by
  refine ⟨hnext, hinv.bounded.of_sublist hsublist hpointers hids ?_ fun _ _ ↦ rfl, ?_⟩
  · intro packet hpacket
    simp [isInFlight, hnew packet hpacket]
  · intro frame hframe hmem
    obtain ⟨hold, hmem⟩ := hrequested frame hframe hmem
    have hframe' := (mem_append.mp (hsublist.subset hframe)).resolve_right hold
    exact hinv.requested frame hframe' hmem

/-- The entry of a frame that is requested is the one of before, or of the frame that is sent. -/
theorem requested_of_transmitted {edcaf : Edcaf} {packet frame : DataPacket} {ackPolicy : AckPolicy}
    {ackStatuses : AckStatuses} (hinv : Edcaf.Invariant edcaf)
    (hpacket : packet ∈ edcaf.frames.inProgressFrames)
    (hframe : frame ∈ edcaf.frames.inProgressFrames)
    (hunicast : packet.id.receiverAddress.isMulticast = false)
    (hstatuses : processTransmittedDataOrMgmtFrame edcaf.frames.ackStatuses packet.id ackPolicy =
      .ok ackStatuses)
    (hmem : (frame.id, .BLOCK_ACK_NOT_YET_REQUESTED) ∈ ackStatuses) :
    (frame.id, .BLOCK_ACK_NOT_YET_REQUESTED) ∈ edcaf.frames.ackStatuses ∨
      frame.id = packet.id ∧ ackPolicy = .BLOCK_ACK := by
  obtain ⟨status, hset, hstatus⟩ : ∃ status,
      ackStatuses = setStatus edcaf.frames.ackStatuses packet.id status ∧
        (.BLOCK_ACK_NOT_YET_REQUESTED = status → ackPolicy = .BLOCK_ACK) := by
    cases ackPolicy with
    | NORMAL_ACK | NO_ACK => exact ⟨_, (Except.ok.inj hstatuses).symm, nofun⟩
    | NO_EXPLICIT_ACK => cases hstatuses
    | BLOCK_ACK => exact ⟨_, (Except.ok.inj hstatuses).symm, fun _ ↦ rfl⟩
  rw [hset] at hmem
  refine (OrderedMap.mem_or_of_mem_assign hmem).imp_right fun ⟨hnew, hkey⟩ ↦ ⟨?_, hstatus hnew⟩
  rcases hkey with hkey | ⟨hless, hless'⟩
  · exact hkey
  · exact (QoSKey.eq_of_not_less hinv.close (mem_append_right _ (mem_map_of_mem hpacket))
      (mem_append_right _ (mem_map_of_mem hframe)) hunicast hless' hless).symm

/-- The first eligible frame is sent: those of the agreement before it are outstanding, and none
behind it is in flight. -/
theorem Invariant.bounded_send {packet : DataPacket} (hinv : Invariant agreement window)
    (hfind : window.edcaf.frames.findEligible = some packet) (hcovers : agreement.covers packet.id)
    (hnot : packet.pointer ∉ window.sent)
    (hroom : (window.outstanding agreement).length < agreement.bufferSize)
    (hall : ∀ frame ∈ window.edcaf.frames.inProgressFrames, agreement.covers frame.id →
      window.edcaf.frames.isEligible frame = true ∨
        isOutstandingFrame window.edcaf.frames.ackStatuses frame.id = true)
    (hsent : ∀ pointer, pointer ∈ sent' ↔ pointer ∈ window.sent ∨ pointer = packet.pointer) :
    Bounded agreement sent' window.edcaf.frames.inProgressFrames := by
  obtain ⟨-, before, after, hsplit, heligible⟩ := find?_eq_some_iff_append.mp hfind
  have hbounded := hinv.bounded
  rw [hsplit] at hbounded ⊢
  have hmem : ∀ a ∈ before, a ∈ window.edcaf.frames.inProgressFrames := by
    intro a ha
    rw [hsplit]
    exact mem_append_left _ ha
  have houtstanding : ∀ a ∈ before, agreement.covers a.id →
      isOutstandingFrame window.edcaf.frames.ackStatuses a.id = true := by
    intro a ha hcovers'
    have hnot' := heligible a ha
    exact (hall a (hmem a ha) hcovers').resolve_left (by simpa using hnot')
  have hne : ∀ a ∈ before ++ after, a.pointer ≠ packet.pointer := by
    have hnodup := hbounded.pointers
    rw [map_append, map_cons, nodup_middle, nodup_cons, ← map_append]
      at hnodup
    exact fun a ha heq ↦ hnodup.1 (mem_map.mpr ⟨a, ha, heq⟩)
  apply hbounded.send
  · intro a ha hcovers'
    have hrequested := mem_of_isOutstandingFrame hinv.edcaf (hmem a ha) (houtstanding a ha hcovers')
    simpa [isInFlight, hcovers'] using hinv.requested a (hmem a ha) hrequested
  · have hsub : before.Sublist window.edcaf.frames.inProgressFrames := by
      rw [hsplit]
      exact sublist_append_left _ _
    calc
      before.countP (isInFlight agreement window.sent) ≤ before.countP fun a ↦
          agreement.covers a.id && isOutstandingFrame window.edcaf.frames.ackStatuses a.id := by
        apply countP_mono_left
        intro a ha hflight
        have hcovers' := (Bool.and_eq_true_iff.mp hflight).1
        simp [hcovers', houtstanding a ha hcovers']
      _ ≤ window.edcaf.frames.inProgressFrames.countP fun a ↦
          agreement.covers a.id && isOutstandingFrame window.edcaf.frames.ackStatuses a.id :=
        hsub.countP_le
      _ = (window.outstanding agreement).length := by
        rw [outstanding, InProgressFrames.getOutstandingFrames, filter_filter,
          countP_eq_length_filter]
      _ < agreement.bufferSize := hroom
  · intro a ha hflight
    have hordered := (pairwise_cons.mp (pairwise_append.mp hbounded.ordered).2.1).1
    exact hnot (by simpa [isInFlight, hcovers] using hordered a ha hcovers hflight)
  · intro a ha
    simp [isInFlight, hsent, hne a ha]
  · simp [isInFlight, hsent, hcovers]

theorem Invariant.transmitData {edcaf : Edcaf} {packet : DataPacket} {ackPolicy : AckPolicy}
    (hinv : Invariant agreement window) (hnext : Edcaf.Invariant edcaf)
    (hfind : window.edcaf.frames.findEligible = some packet)
    (hunicast : packet.id.receiverAddress.isMulticast = false) (hpolicy : ackPolicy ≠ .NO_ACK)
    (hdata : window.edcaf.transmitData packet ackPolicy = .ok edcaf)
    (hsent : ∀ pointer, pointer ∈ sent' ↔
      pointer ∈ window.sent ∨ pointer = packet.pointer ∧ ackPolicy = .BLOCK_ACK)
    (hfits : ackPolicy = .BLOCK_ACK → agreement.covers packet.id → packet.pointer ∉ window.sent →
      (window.outstanding agreement).length < agreement.bufferSize ∧
        ∀ frame ∈ window.edcaf.frames.inProgressFrames, agreement.covers frame.id →
          window.edcaf.frames.isEligible frame = true ∨
            isOutstandingFrame window.edcaf.frames.ackStatuses frame.id = true) :
    Invariant agreement ⟨edcaf, sent'⟩ := by
  obtain ⟨ackStatuses, hstatuses, heq⟩ := bind_eq_ok hdata
  simp only [if_neg hpolicy] at heq
  obtain rfl := Except.ok.inj heq
  have hpacket := mem_of_find?_eq_some hfind
  have hpointer (frame : DataPacket) : (if frame.pointer = packet.pointer then
      frame.setAckPolicy ackPolicy else frame).pointer = frame.pointer := by
    split <;> rfl
  have hid (frame : DataPacket) : (if frame.pointer = packet.pointer then
      frame.setAckPolicy ackPolicy else frame).id = frame.id := by
    split <;> rfl
  refine ⟨hnext, Bounded.map ?_ hpointer hid, ?_⟩
  · by_cases hfirst : ackPolicy = .BLOCK_ACK ∧ agreement.covers packet.id ∧
        packet.pointer ∉ window.sent
    · obtain ⟨hblock, hcovers, hnot⟩ := hfirst
      obtain ⟨hroom, hall⟩ := hfits hblock hcovers hnot
      refine hinv.bounded_send hfind hcovers hnot hroom hall fun pointer ↦ ?_
      rw [hsent, and_iff_left hblock]
    · refine hinv.bounded.of_sublist (sublist_append_left _ []) ?_ ?_ nofun ?_
      · rw [append_nil]
        exact hinv.bounded.pointers
      · rw [append_nil]
        exact hinv.bounded.ids
      · intro frame hframe
        rw [Bool.eq_iff_iff]
        simp only [isInFlight, hsent, Bool.and_eq_true, decide_eq_true_eq]
        refine and_congr_right fun hcovers ↦ or_iff_left_of_imp fun ⟨heq, hblock⟩ ↦ ?_
        rw [inj_on_of_nodup_map hinv.bounded.pointers hframe hpacket heq] at hcovers ⊢
        exact not_not.mp fun hnot ↦ hfirst ⟨hblock, hcovers, hnot⟩
  · intro frame' hframe' hmem
    obtain ⟨frame, hframe, rfl⟩ := mem_map.mp hframe'
    rw [hid] at hmem
    rw [hpointer, hsent]
    refine (requested_of_transmitted hinv.edcaf hpacket hframe hunicast hstatuses hmem).imp
      (hinv.requested frame hframe) fun ⟨hkey, hblock⟩ ↦ ⟨?_, hblock⟩
    rw [inj_on_of_nodup_map hinv.bounded.ids hframe hpacket hkey]

theorem Invariant.step {event : Edcaf.Event} (hinv : Invariant agreement window)
    (hstep : (machine policy agreement).Step window event window')
    (hfits : Fits policy agreement window event) : Invariant agreement window' := by
  obtain ⟨⟨henabled, hpointers, hids, hnew, hsize⟩, hhandle⟩ := hstep
  obtain ⟨edcaf, hedcaf, rfl⟩ := bind_pure_eq_ok hhandle
  have hnext := Edcaf.invariant_step hinv.edcaf ⟨henabled, hedcaf⟩ hfits.1
  rcases Edcaf.step_cases hinv.edcaf ⟨henabled, hedcaf⟩ hfits.1.1 with
    ⟨packets, hsublist, hkeeps, -, hmulticast⟩ | ⟨found, rfl, -, hsends⟩
  · have hnone : sends policy window.edcaf event = none := by
      rw [sends, Option.filter_eq_none_iff]
      intro packet hpacket
      cases event with
      | transmit found => simp [hmulticast found rfl packet hpacket]
      | _ => simp [foundAgreement, OriginatorQosAckPolicy.computeAckPolicy]
    have happend := (List.Sublist.refl window.edcaf.frames.inProgressFrames).append hsublist
    rw [hnone]
    apply hinv.of_sublist hnext hkeeps.sublist (hpointers.sublist (happend.map _))
      (hids.sublist (happend.map _)) fun packet hpacket ↦ hnew packet (hsublist.subset hpacket)
    intro frame _ hmem
    exact ⟨fun hframe ↦ hkeeps.fresh frame hframe hmem, hkeeps.calm.awaits _ hmem (.inl rfl)⟩
  · rcases hsends with ⟨⟨hneeded, -⟩, rfl⟩ | ⟨packet, hfind, hunicast, hneeded, hdata⟩
    · have hnone : sends policy window.edcaf (.transmit found) = none := by simp [sends, hneeded]
      rw [hnone]
      apply hinv.of_sublist hnext (sublist_append_left _ _) hpointers hids hnew
      intro frame _ hmem
      refine ⟨not_mem_nil, ?_⟩
      rcases Edcaf.mem_processTransmittedBlockAckReq hmem with ⟨e, -, -, heq⟩ | ⟨hmem, -⟩
      · cases congrArg Prod.snd heq
      · exact hmem
    · have hpolicy : policy.computeAckPolicy packet found ≠ .NO_ACK := by
        unfold OriginatorQosAckPolicy.computeAckPolicy
        split
        · exact nofun
        · split <;> exact nofun
      have hsends : sends policy window.edcaf (.transmit found) =
          if policy.computeAckPolicy packet found = .BLOCK_ACK then some packet else none := by
        simp only [sends, hfind, foundAgreement, Option.filter, hunicast, hneeded, Bool.not_false,
          Bool.true_and]
        by_cases hcomputed : policy.computeAckPolicy packet found = .BLOCK_ACK <;> simp [hcomputed]
      refine hinv.transmitData hnext hfind hunicast hpolicy hdata ?_ fun hcomputed hcovers hnot ↦ ?_
      · intro pointer
        rw [hsends]
        split
        · rename_i hcomputed
          simp [hcomputed, or_comm]
        · rename_i hcomputed
          simp [hcomputed]
      · obtain ⟨hroom, hall⟩ := hfits.2 packet (hsends ▸ if_pos hcomputed) hcovers hnot
        refine ⟨?_, hall⟩
        cases found with
        | none => cases hcomputed
        | some found =>
          have hlt := hroom found rfl
          rw [hsize packet hfind hcovers found rfl] at hlt
          exact Int.ofNat_lt.mp hlt

/-- In every run whose transmissions meet the condition, the recipient can hold the frames in
flight. -/
theorem inFlight_le_of_run {events : List Edcaf.Event}
    (hrun : ((machine policy agreement).restrict (Fits policy agreement)).Run {} events window) :
    (window.inFlight agreement).length ≤ agreement.bufferSize := by
  have hinitial : Invariant agreement {} :=
    ⟨Edcaf.invariant_initial, ⟨nodup_nil, nodup_nil, List.Pairwise.nil, Nat.zero_le _⟩,
      nofun⟩
  have hinv : Invariant agreement window := by
    refine hrun.invariant ?_ hinitial
    intro s event t hinv hstep
    obtain ⟨hstep, hfits⟩ := Machine.step_restrict_iff.mp hstep
    exact hinv.step hstep hfits
  rw [inFlight, ← countP_eq_length_filter]
  exact hinv.bounded.count_le

/-! ## A small buffer -/

instance (policy : OriginatorQosAckPolicy) (agreement : AcceptedAgreement) (window : BlockAckWindow)
    (event : Edcaf.Event) : Decidable ((machine policy agreement).Enabled window event) :=
  inferInstanceAs (Decidable (_ ∧ _ ∧ _ ∧ (∀ packet ∈ event.extracted, _) ∧
    ∀ packet ∈ window.edcaf.frames.findEligible, _ → ∀ found ∈ foundAgreement event, _))

instance (policy : OriginatorQosAckPolicy) (agreement : AcceptedAgreement) (window : BlockAckWindow)
    (event : Edcaf.Event) : Decidable (Fits policy agreement window event) :=
  inferInstanceAs (Decidable (_ ∧ ∀ packet ∈ sends policy window.edcaf event, _ → _ →
    (∀ found ∈ foundAgreement event, _) ∧ ∀ frame ∈ window.edcaf.frames.inProgressFrames, _ → _))

/-- The agreement with the second receiver, with a buffer for two frames. -/
def smallAgreement : AcceptedAgreement := ⟨4, 0, 2⟩

/-- Packets come from the data service one after another, and their exchanges begin. -/
def sendUnderSmallAgreement (sequenceNumbers : List ℕ) : List Edcaf.Event :=
  sequenceNumbers.flatMap fun number ↦
    [.ensureHasFrameToTransmit (some [Edcaf.samplePacket number 4 (BitVec.ofNat 12 number)]),
      .transmit (some ⟨true, 2, 0, true, 0⟩)]

theorem inFlight_le_of_run_two :
    ∃ window, ((machine {} smallAgreement).restrict (Fits {} smallAgreement)).Run {}
        (sendUnderSmallAgreement [0, 1]) window ∧
      (window.inFlight smallAgreement).length ≤ smallAgreement.bufferSize := by
  refine Machine.exists_run_imp (fun _ ↦ True) (by decide +kernel) ?_
  intro window hrun _
  exact inFlight_le_of_run hrun

/-- A third frame is sent to the recipient that can hold two. -/
theorem not_inFlight_le_three :
    ∃ window, (machine {} smallAgreement).Run {} (sendUnderSmallAgreement [0, 1, 2]) window ∧
      ¬(window.inFlight smallAgreement).length ≤ smallAgreement.bufferSize :=
  Machine.exists_run_of_exec (by decide +kernel)

end BlockAckWindow

end Inet4.Ieee80211
