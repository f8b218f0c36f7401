import Inet4.Ieee80211.BlockAckReordering

/-!
# What a Block Ack acknowledges

The Block Ack record only holds MPDUs that were received, but the bitmap is also set for MPDUs it
says nothing about: for all of them while it is empty, and for those before its first entry.  An
MPDU that was lost is among them when it is the first one of the agreement or when an entry behind
it was passed up.
-/

namespace Inet4.Ieee80211

open SequenceControl (less)
open Except (ok)
open OrderedMap (find)

/-- Two keys are the same for the record when they are equal or half of the ring apart. -/
theorem SequenceControl.eq_of_not_less {a b : SequenceControl}
    (hab : less a b = false) (hba : less b a = false) :
    a = b ∨ a = (b.1 + 2048, b.2) := by
  have hoffset := SequenceNumber.offset_eq b.1 a.1 b.1
  have hlt := SequenceNumber.offset_lt b.1 a.1
  rw [SequenceNumber.offset_self] at hoffset
  obtain ⟨hseq, hfragment⟩ := Bool.or_eq_false_iff.mp hab
  obtain ⟨hseq', hfragment'⟩ := Bool.or_eq_false_iff.mp hba
  have hnumber : a.2 = b.2 := by
    rw [hseq', Bool.not_false, Bool.true_and, decide_eq_false_iff_not] at hfragment
    rw [hseq, Bool.not_false, Bool.true_and, decide_eq_false_iff_not] at hfragment'
    exact Nat.le_antisymm (Nat.le_of_not_lt hfragment') (Nat.le_of_not_lt hfragment)
  simp only [SequenceNumber.less, Bool.and_eq_false_iff, decide_eq_false_iff_not] at hseq hseq'
  rcases Nat.eq_zero_or_pos (SequenceNumber.offset b.1 a.1) with hzero | hpos
  · left
    exact Prod.ext (SequenceNumber.offset_eq_zero_iff.mp hzero) hnumber
  · right
    have hhalf : SequenceNumber.offset b.1 a.1 = 2048 := by omega
    have hsum : SequenceNumber.offset b.1 (b.1 + BitVec.ofNat 12 2048) = 2048 :=
      SequenceNumber.offset_add b.1 2048
    exact Prod.ext (SequenceNumber.eq_of_offset_eq (hhalf.trans hsum.symm)) hnumber

/-- The record tells that an MPDU was not received: it is not empty, the MPDU is not before its
first entry, and the map does not take the MPDU for one half of the ring away. -/
def BlockAckRecord.Tells (record : BlockAckRecord) (id : SequenceControl) : Prop :=
  match record with
  | [] => False
  | earliest :: _ => SequenceNumber.less id.1 earliest.1.1 = false ∧
      ∀ e ∈ find less record id, e.1 ≠ (id.1 + 2048, id.2)

instance (record : BlockAckRecord) (id : SequenceControl) : Decidable (record.Tells id) :=
  match record with
  | [] => isFalse not_false
  | _ :: _ => inferInstanceAs (Decidable (_ ∧ _))

/-- An MPDU without an entry is reported as received unless the record tells that it was not. -/
theorem BlockAckRecord.getAckState_eq_false_iff {record : BlockAckRecord} {id : SequenceControl}
    (hnone : ∀ e ∈ record, e.1 ≠ id) :
    record.getAckState id.1 id.2 = false ↔ record.Tells id := by
  unfold getAckState
  cases hfind : find less record (id.1, id.2) with
  | some e =>
    obtain ⟨hmem, hless, hgreater⟩ := OrderedMap.find_eq_some hfind
    have hopposite : e.1 = (id.1 + 2048, id.2) := by
      rcases SequenceControl.eq_of_not_less hless hgreater with heq | hopposite
      · exact absurd heq (hnone e hmem)
      · exact hopposite
    have hfind' : e ∈ find less record id := hfind
    cases record with
    | nil => cases hmem
    | cons earliest rest =>
      constructor
      · intro hfalse
        cases hfalse
      · intro htells
        exact absurd hopposite (htells.2 e hfind')
  | none =>
    have hfind' : find less record id = none := hfind
    cases record with
    | nil => simp [Tells]
    | cons earliest rest =>
      constructor
      · intro hfalse
        refine ⟨hfalse, ?_⟩
        rw [hfind']
        nofun
      · exact fun htells ↦ htells.1

/-- The frames that a Block Ack acknowledges. -/
theorem mem_processReceivedBlockAck {waiting : List SequenceControl} {start : SequenceNumber}
    {agreement : RecipientBlockAckAgreement} {id : SequenceControl} :
    id ∈ processReceivedBlockAck waiting (buildBlockAck start agreement) ↔
      id ∈ waiting ∧ SequenceNumber.offset start id.1 < 64 ∧ id.2 < 16 ∧
        agreement.blockAckRecord.getAckState id.1 id.2 = true := by
  simp only [processReceivedBlockAck, List.mem_flatMap, List.mem_filterMap, List.mem_range]
  constructor
  · rintro ⟨i, hi, fragNum, hfragNum, hbit⟩
    rw [Option.ite_none_right_eq_some, Option.some.injEq] at hbit
    obtain ⟨⟨hmem, hset⟩, rfl⟩ := hbit
    have hoffset := SequenceNumber.offset_add start i
    simp only [buildBlockAck] at hmem hset ⊢
    refine ⟨hmem, by omega, hfragNum, ?_⟩
    simpa [List.getD_eq_getElem?_getD, hi, hfragNum] using hset
  · rintro ⟨hmem, hi, hfragNum, hstate⟩
    have hid : (start + BitVec.ofNat 12 (SequenceNumber.offset start id.1), id.2) = id := by
      apply Prod.ext
      · apply SequenceNumber.eq_of_offset_eq
        rw [SequenceNumber.offset_add]
        exact Nat.mod_eq_of_lt (SequenceNumber.offset_lt start id.1)
      · rfl
    refine ⟨SequenceNumber.offset start id.1, hi, id.2, hfragNum, ?_⟩
    rw [Option.ite_none_right_eq_some, Option.some.injEq]
    refine ⟨⟨?_, ?_⟩, hid⟩
    · have hwaiting :
          (start + BitVec.ofNat 12 (SequenceNumber.offset start id.1), id.2) ∈ waiting := by
        rw [hid]
        exact hmem
      exact hwaiting
    · have hseq := congrArg Prod.fst hid
      simp only [buildBlockAck] at hseq ⊢
      simpa [List.getD_eq_getElem?_getD, hi, hfragNum, hseq] using hstate

namespace BlockAckReordering

theorem passedUp_subset {agreement agreement' : RecipientBlockAckAgreement}
    {receiveBuffer after : ReceiveBuffer} {s : SequenceNumber}
    (h : passedUp agreement receiveBuffer s = .ok (agreement', after)) :
    agreement'.blockAckRecord ⊆ agreement.blockAckRecord := by
  obtain ⟨removed, hremove, hrest⟩ := bind_eq_ok h
  obtain ⟨rfl, rfl⟩ := Prod.mk.inj (ok.inj hrest)
  exact List.filter_sublist.subset

theorem releaseReceiveBuffer_subset {released : ReorderBuffer} :
    ∀ {agreement agreement' : RecipientBlockAckAgreement} {receiveBuffer after : ReceiveBuffer},
      releaseReceiveBuffer agreement receiveBuffer released = .ok (agreement', after) →
        agreement'.blockAckRecord ⊆ agreement.blockAckRecord := by
  induction released with
  | nil =>
    intro agreement agreement' receiveBuffer after h
    obtain ⟨rfl, rfl⟩ := Prod.mk.inj (ok.inj h)
    exact List.Subset.refl _
  | cons it released ih =>
    intro agreement agreement' receiveBuffer after h
    obtain ⟨state, hfirst, hrest⟩ := bind_eq_ok h
    have hrest' : releaseReceiveBuffer state.1 state.2 released = .ok (agreement', after) := hrest
    exact List.Subset.trans (ih hrest') (passedUp_subset hfirst)

theorem passUpEarliest_subset {agreement : RecipientBlockAckAgreement}
    {receiveBuffer : ReceiveBuffer} {frames : ReorderBuffer} {recipient : Recipient}
    (h : passUpEarliest agreement receiveBuffer = .ok (frames, recipient)) :
    recipient.agreement.blockAckRecord ⊆ agreement.blockAckRecord := by
  unfold passUpEarliest at h
  split at h
  · obtain ⟨rfl, rfl⟩ := Prod.mk.inj (ok.inj h)
    exact List.Subset.refl _
  · obtain ⟨full, hfull, hrest⟩ := bind_eq_ok h
    split at hrest
    · obtain ⟨state, hpassed, hreturn⟩ := bind_eq_ok hrest
      obtain ⟨rfl, rfl⟩ := Prod.mk.inj (ok.inj hreturn)
      exact passedUp_subset hpassed
    · obtain ⟨rfl, rfl⟩ := Prod.mk.inj (ok.inj hrest)
      exact List.Subset.refl _

theorem processReceivedBlockAckReq_subset {recipient recipient' : Recipient}
    {start : SequenceNumber} {frames : ReorderBuffer}
    (h : processReceivedBlockAckReq recipient start = .ok (frames, recipient')) :
    recipient'.agreement.blockAckRecord ⊆ recipient.agreement.blockAckRecord := by
  unfold processReceivedBlockAckReq at h
  split at h
  · obtain ⟨rfl, rfl⟩ := Prod.mk.inj (ok.inj h)
    exact List.Subset.refl _
  · obtain ⟨first, hfirst, hrest⟩ := bind_eq_ok h
    obtain ⟨second, hsecond, hreturn⟩ := bind_eq_ok hrest
    obtain ⟨rfl, rfl⟩ := Prod.mk.inj (ok.inj hreturn)
    exact List.Subset.trans (releaseReceiveBuffer_subset hsecond)
      (releaseReceiveBuffer_subset hfirst)

/-- Only an MPDU that is accepted comes into the record. -/
theorem processReceivedQoSFrame_record {recipient recipient' : Recipient} {mpdu : Mpdu}
    {frames : ReorderBuffer}
    (h : processReceivedQoSFrame recipient mpdu = .ok (frames, recipient')) :
    ∀ e ∈ recipient'.agreement.blockAckRecord,
      (∃ e' ∈ recipient.agreement.blockAckRecord, e'.1 = e.1) ∨
        ((createReceiveBufferIfNecessary recipient).insertFrame mpdu).1 = true ∧
          e.1 = (mpdu.sequenceNumber, mpdu.fragmentNumber) := by
  intro e he
  unfold processReceivedQoSFrame at h
  split at h
  · obtain ⟨-, rfl⟩ := Prod.mk.inj (ok.inj h)
    exact .inl ⟨e, he, rfl⟩
  · rename_i receiveBuffer hinsert
    have hrecord := passUpEarliest_subset h he
    split at hrecord
    · rcases OrderedMap.mem_assign hrecord with hnew | hold
      · right
        exact ⟨congrArg Prod.fst hinsert, hnew⟩
      · exact .inl hold
    · exact .inl ⟨e, hrecord, rfl⟩

end BlockAckReordering

namespace History

open BlockAckReordering

variable {history : History}

/-- The record only has entries for MPDUs that were accepted. -/
def Recorded (history : History) : Prop :=
  ∀ e ∈ history.recipient.agreement.blockAckRecord, e.1 ∈ history.accepted

theorem Recorded.step {event : Event} {after : History} (h : history.Recorded)
    (hstep : machine.Step history event after) : after.Recorded := by
  cases event with
  | qosFrame mpdu =>
    obtain ⟨⟨frames, recipient⟩, hprocess, hreturn⟩ := bind_eq_ok hstep.2
    obtain rfl := ok.inj hreturn
    intro e he
    have haccepted : e.1 ∈ (history.receive mpdu).accepted := by
      apply List.mem_append.mpr
      rcases processReceivedQoSFrame_record hprocess e he with ⟨e', he', heq⟩ | ⟨hinserted, heq⟩
      · left
        rw [← heq]
        exact h e' he'
      · right
        rw [hinserted, heq]
        exact List.mem_singleton.mpr rfl
    exact haccepted
  | blockAckReq startingSequenceNumber =>
    obtain ⟨⟨frames, recipient⟩, hprocess, hreturn⟩ := bind_eq_ok hstep.2
    obtain rfl := ok.inj hreturn
    intro e he
    exact h e (processReceivedBlockAckReq_subset hprocess he)

theorem recorded_of_run {start : SequenceNumber} {bufferSize : BitVec 10} {events : List Event}
    (hrun : machine.Run (initial start bufferSize) events history) : history.Recorded :=
  hrun.invariant (fun _ _ _ hs hstep ↦ hs.step hstep) nofun

/-- A whole MSDU that is received under the Block Ack policy. -/
def msdu (sequenceNumber : SequenceNumber) : Mpdu := ⟨sequenceNumber, 0, false, .BLOCK_ACK⟩

end History

end Inet4.Ieee80211
