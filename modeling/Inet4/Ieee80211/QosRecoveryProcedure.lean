import Inet4.Ieee80211.OriginatorEdcaf

/-!
# Retry counters of QoS frames

The failed attempts of a frame are counted under its TID, sequence number and fragment number, those
of long frames apart from those of short frames and of RTS frames.  The receiver is no part of the
key, and the counts of one kind only are erased when the frame is acknowledged or has reached its
retry limit.

Left out are the signals and the rate control, which reads the counts for its own purposes.
-/

namespace Inet4.Ieee80211

open List Function Machine OrderedMap SequenceNumber
open Except (ok)

/-- A TID and a `SequenceControlField`. -/
abbrev RetryId := Tid × SequenceNumber × Fin maxNumFragments

namespace RetryId

/-- The comparison of `std::pair`, with `operator<` of `SequenceControlField`. -/
def less (a b : RetryId) : Bool :=
  a.1 < b.1 || (!(b.1 < a.1) &&
    (SequenceNumber.less a.2.1 b.2.1 || (a.2.1 = b.2.1 && a.2.2 < b.2.2)))

/-- The number is in the half of the ring ahead of the base of its TID. -/
def Near (base : Tid → SequenceNumber) (id : RetryId) : Prop :=
  offset (base id.1) id.2.1 < 2048

instance (base : Tid → SequenceNumber) (id : RetryId) : Decidable (Near base id) :=
  inferInstanceAs (Decidable (_ < _))

def rank (base : Tid → SequenceNumber) (id : RetryId) : ℕ :=
  id.1.toNat * 65536 + offset (base id.1) id.2.1 * 16 + id.2.2

end RetryId

def DataPacket.retryId (packet : DataPacket) : RetryId :=
  (packet.header.tid, packet.header.sequenceNumber, packet.header.fragmentNumber)

/-! ## The procedure -/

/-- A long frame is as long as the RTS threshold. -/
inductive RetryKind
  | short
  | long
deriving DecidableEq

structure RetryParameters where
  /-- `shortRetryLimit` and `longRetryLimit`. -/
  retryLimit : RetryKind → ℤ
  rtsThreshold : ℤ

def RetryParameters.kindOf (parameters : RetryParameters) (packet : DataPacket) : RetryKind :=
  if packet.byteLength ≥ parameters.rtsThreshold then .long else .short

/-- `isRetryLimitReached` and `isRtsFrameRetryLimitReached` for the count that is looked up. -/
def RetryParameters.isRetryLimitReached (parameters : RetryParameters) (kind : RetryKind)
    (count : ℕ) : Bool :=
  count ≥ parameters.retryLimit kind

/-- The contention window of an EDCAF. -/
structure CwCalculator where
  cwMin : ℤ
  cwMax : ℤ
  cw : ℤ

def CwCalculator.incrementCw (cwCalculator : CwCalculator) : CwCalculator :=
  let newCw := 2 * cwCalculator.cw + 1
  { cwCalculator with cw := if newCw > cwCalculator.cwMax then cwCalculator.cwMax else newCw }

def CwCalculator.resetCw (cwCalculator : CwCalculator) : CwCalculator :=
  { cwCalculator with cw := cwCalculator.cwMin }

abbrev RetryCounter := OrderedMap RetryId ℕ

structure QosRecoveryProcedure where
  cwCalculator : CwCalculator
  /-- `shortRetryCounter` and `longRetryCounter`. -/
  retryCounter : RetryKind → RetryCounter := fun _ ↦ []
  /-- `stationShortRetryCounter` and `stationLongRetryCounter`. -/
  stationRetryCounter : RetryKind → ℕ := fun _ ↦ 0

namespace QosRecoveryProcedure

variable (parameters : RetryParameters) (procedure : QosRecoveryProcedure) (kind : RetryKind)
variable (packet : DataPacket)

/-- `incrementStationSrc` and `incrementStationLrc`. -/
def incrementStationRc : QosRecoveryProcedure :=
  let count := procedure.stationRetryCounter kind + 1
  { procedure with
    stationRetryCounter := update procedure.stationRetryCounter kind count
    cwCalculator := if (count : ℤ) = parameters.retryLimit kind
      then procedure.cwCalculator.resetCw else procedure.cwCalculator.incrementCw }

/-- `resetStationSrc` and `resetStationLrc`. -/
def resetStationRc : QosRecoveryProcedure :=
  { procedure with stationRetryCounter := update procedure.stationRetryCounter kind 0 }

def incrementCounter (retryCounter : RetryCounter) : RetryCounter :=
  match find RetryId.less retryCounter packet.retryId with
  | some (_, count) => assign RetryId.less retryCounter packet.retryId (count + 1)
  | none => assign RetryId.less retryCounter packet.retryId 1

def multicastFrameTransmitted : QosRecoveryProcedure :=
  (procedure.resetStationRc .long).resetStationRc .short

def ctsFrameReceived : QosRecoveryProcedure := procedure.resetStationRc .short

def blockAckFrameReceived : QosRecoveryProcedure := procedure.resetStationRc .short

/-- The count of the packet is erased. -/
def eraseCounter : QosRecoveryProcedure :=
  { procedure with
    retryCounter := update procedure.retryCounter kind
      (erase RetryId.less (procedure.retryCounter kind) packet.retryId) }

def ackFrameReceived : QosRecoveryProcedure :=
  let kind := parameters.kindOf packet
  { (procedure.resetStationRc kind).eraseCounter kind packet with
    cwCalculator := procedure.cwCalculator.resetCw }

def retryLimitReached : QosRecoveryProcedure :=
  procedure.eraseCounter (parameters.kindOf packet) packet

/-- An attempt of a kind failed. -/
def attemptFailed : QosRecoveryProcedure :=
  { procedure.incrementStationRc parameters kind with
    retryCounter := update procedure.retryCounter kind
      (incrementCounter packet (procedure.retryCounter kind)) }

def dataFrameTransmissionFailed : QosRecoveryProcedure :=
  procedure.attemptFailed parameters (parameters.kindOf packet) packet

def rtsFrameTransmissionFailed : QosRecoveryProcedure :=
  procedure.attemptFailed parameters .short packet

def getRc : Except Fault ℕ :=
  match find RetryId.less (procedure.retryCounter kind) packet.retryId with
  | some (_, count) => .ok count
  | none => .error .runtimeError

end QosRecoveryProcedure

/-! ## Its use -/

/-- The frames in progress, and what is recorded of them beside the procedure. -/
structure RetryHistory where
  procedure : QosRecoveryProcedure
  inProgressFrames : List DataPacket := []
  /-- The failed attempts of each kind of the packet with a pointer, since it got in progress. -/
  failures : RetryKind → ℕ → ℕ := fun _ _ ↦ 0
  /-- The counts that were compared with a retry limit, and the failed attempts of the packet. -/
  checks : List (ℕ × ℕ) := []

namespace RetryHistory

inductive Event
  | gotInProgress (packet : DataPacket)
  /-- `handleInternalCollision`. -/
  | internalCollision (packet : DataPacket)
  /-- `originatorProcessRtsProtectionFailed`. -/
  | rtsProtectionFailed (packet : DataPacket)
  /-- `originatorProcessFailedFrame`. -/
  | failedFrame (packet : DataPacket)
  /-- `originatorProcessTransmittedFrame`. -/
  | transmittedFrame (packet : DataPacket)
  | ackReceived (packet : DataPacket)
  /-- A BlockAck acknowledges frames. -/
  | blockAckReceived (ackedSeqAndFragNums : List QoSKey)
  | ctsReceived

def Enabled (history : RetryHistory) : Event → Prop
  | .gotInProgress packet => ∀ frame ∈ history.inProgressFrames, frame.pointer ≠ packet.pointer
  | .internalCollision packet | .rtsProtectionFailed packet | .failedFrame packet
  | .transmittedFrame packet | .ackReceived packet => packet ∈ history.inProgressFrames
  | .blockAckReceived _ | .ctsReceived => True

/-- `dropFrame` and `dropFrames` of the frames in progress. -/
def drop (history : RetryHistory) (leaves : DataPacket → Bool)
    (procedure : QosRecoveryProcedure) : RetryHistory :=
  { history with
    procedure, inProgressFrames := history.inProgressFrames.filter fun frame ↦ !leaves frame }

/-- The packet with the same pointer. -/
def isPacket (packet frame : DataPacket) : Bool := frame.pointer = packet.pointer

variable (parameters : RetryParameters) (history : RetryHistory)

/-- What follows when the procedure was told that an attempt of a kind failed. -/
def failed (kind : RetryKind) (packet : DataPacket) (procedure : QosRecoveryProcedure) :
    Except Fault RetryHistory := do
  let count ← procedure.getRc kind packet
  let attempts := history.failures kind packet.pointer + 1
  let history := { history with
    procedure
    failures := update history.failures kind
      (update (history.failures kind) packet.pointer attempts)
    checks := history.checks ++ [(count, attempts)] }
  if parameters.isRetryLimitReached kind count then
    return history.drop (isPacket packet) (procedure.retryLimitReached parameters packet)
  else return history

def handle : Event → Except Fault RetryHistory
  | .gotInProgress packet => .ok { history with
      inProgressFrames := history.inProgressFrames ++ [packet]
      failures := fun kind ↦ update (history.failures kind) packet.pointer 0 }
  | .internalCollision packet => history.failed parameters (parameters.kindOf packet) packet
      (history.procedure.dataFrameTransmissionFailed parameters packet)
  | .rtsProtectionFailed packet => history.failed parameters .short packet
      (history.procedure.rtsFrameTransmissionFailed parameters packet)
  | .failedFrame packet => do
    assert (packet.header.ackPolicy = .NORMAL_ACK)
    history.failed parameters (parameters.kindOf packet) packet
      (history.procedure.dataFrameTransmissionFailed parameters packet)
  | .transmittedFrame packet =>
    if packet.header.receiverAddress.isMulticast then
      .ok (history.drop (isPacket packet) history.procedure.multicastFrameTransmitted)
    else if packet.header.ackPolicy = .NO_ACK then
      .ok (history.drop (isPacket packet) history.procedure)
    else .ok history
  | .ackReceived packet =>
    .ok (history.drop (isPacket packet) (history.procedure.ackFrameReceived parameters packet))
  | .blockAckReceived ackedSeqAndFragNums =>
    .ok (history.drop (fun frame ↦ frame.id ∈ ackedSeqAndFragNums)
      history.procedure.blockAckFrameReceived)
  | .ctsReceived => .ok { history with procedure := history.procedure.ctsFrameReceived }

/-- The procedure of one EDCAF. -/
def machine : Machine RetryHistory Event Fault where
  Enabled := Enabled
  handle := handle parameters

instance (history : RetryHistory) (event : Event) :
    Decidable ((machine parameters).Enabled history event) :=
  match event with
  | .gotInProgress _ => inferInstanceAs (Decidable (∀ _ ∈ _, _))
  | .internalCollision _ | .rtsProtectionFailed _ | .failedFrame _ | .transmittedFrame _
  | .ackReceived _ => inferInstanceAs (Decidable (_ ∈ _))
  | .blockAckReceived _ | .ctsReceived => isTrue trivial

def initial (cwCalculator : CwCalculator) : RetryHistory := { procedure := { cwCalculator } }

end RetryHistory

/-! ## The keys of the counters -/

namespace RetryId

variable {base : Tid → SequenceNumber} {a b : RetryId}

theorem eq_of_rank_eq (h : rank base a = rank base b) : a = b := by
  obtain ⟨tid, number, fragment⟩ := a
  obtain ⟨tid', number', fragment'⟩ := b
  have hlt := offset_lt (base tid) number
  have hlt' := offset_lt (base tid') number'
  have hfragment : (fragment : ℕ) < 16 := fragment.isLt
  have hfragment' : (fragment' : ℕ) < 16 := fragment'.isLt
  simp only [rank] at h
  obtain rfl : tid = tid' := BitVec.eq_of_toNat_eq (by omega)
  have hoffset : offset (base tid) number =
      offset (base tid) number' := by omega
  obtain rfl := eq_of_offset_eq hoffset
  obtain rfl : fragment = fragment' := Fin.ext (by omega)
  rfl

/-- On numbers in one half of the ring the comparison is that of the ranks. -/
theorem less_iff_rank (ha : Near base a) (hb : Near base b) :
    less a b = true ↔ rank base a < rank base b := by
  obtain ⟨tid, number, fragment⟩ := a
  obtain ⟨tid', number', fragment'⟩ := b
  have hfragment : (fragment : ℕ) < 16 := fragment.isLt
  have hfragment' : (fragment' : ℕ) < 16 := fragment'.isLt
  simp only [Near] at ha hb
  by_cases htid : tid = tid'
  · subst htid
    have hnumber : number = number' ↔
        offset (base tid) number = offset (base tid) number' :=
      ⟨congrArg _, eq_of_offset_eq⟩
    have hless : SequenceNumber.less number number' = true ↔
        offset (base tid) number < offset (base tid) number' :=
      SequenceNumber.less_iff (by omega) (by omega)
    simp only [less, rank, BitVec.lt_irrefl, decide_false, Bool.not_false, Bool.true_and,
      Bool.false_or, Bool.or_eq_true, Bool.and_eq_true, decide_eq_true_eq, hless, hnumber,
      Fin.lt_def]
    omega
  · have hne : tid.toNat ≠ tid'.toNat := fun heq ↦ htid (BitVec.eq_of_toNat_eq heq)
    simp only [less, rank, BitVec.lt_def, Bool.or_eq_true, Bool.and_eq_true, decide_eq_true_eq,
      Bool.not_eq_true', decide_eq_false_iff_not]
    omega

theorem agrees {m : RetryCounter} (hm : ∀ e ∈ m, Near base e.1) (hb : Near base b) :
    Agrees less (rank base) m b where
  less e he := less_iff_rank (hm e he) hb
  greater e he := less_iff_rank hb (hm e he)
  eq _ _ := eq_of_rank_eq

end RetryId

/-! ## Whose failures a count tells -/

namespace RetryHistory

open OrderedMap (Ascending)

/-- The counts that were compared with a limit are those of the failed attempts of the packet, and
every count that is kept is the one of a frame in progress. -/
structure Accounts (history : RetryHistory) : Prop where
  checked : ∀ check ∈ history.checks, check.1 = check.2
  kept : ∀ kind, ∀ e ∈ history.procedure.retryCounter kind, ∃ frame ∈ history.inProgressFrames,
    frame.retryId = e.1 ∧ history.failures kind frame.pointer = e.2

/-- Frames in progress are told apart by their keys, the keys are in an order, and the counters have
the failed attempts of each frame in progress. -/
structure Exact (history : RetryHistory) : Prop where
  apart : history.inProgressFrames.Pairwise fun a b ↦
    a.pointer ≠ b.pointer ∧ a.retryId ≠ b.retryId
  near : ∃ base, (∀ frame ∈ history.inProgressFrames, RetryId.Near base frame.retryId) ∧
    ∀ kind, Ascending (RetryId.rank base) (history.procedure.retryCounter kind)
  counted : ∀ kind e, e ∈ history.procedure.retryCounter kind ↔
    ∃ frame ∈ history.inProgressFrames, frame.retryId = e.1 ∧
      history.failures kind frame.pointer = e.2 ∧ 0 < e.2
  checked : ∀ check ∈ history.checks, check.1 = check.2

variable {parameters : RetryParameters} {history t : RetryHistory} {packet frame : DataPacket}
variable {kind : RetryKind} {procedure : QosRecoveryProcedure}

section

variable (h : Exact history)
include h

theorem Exact.accounts : Accounts history where
  checked := h.checked
  kept kind e he :=
    have ⟨frame, hframe, hid, hcount, _⟩ := (h.counted kind e).mp he
    ⟨frame, hframe, hid, hcount⟩

theorem Exact.eq_or_apart (hframe : frame ∈ history.inProgressFrames)
    (hpacket : packet ∈ history.inProgressFrames) :
    frame = packet ∨ frame.pointer ≠ packet.pointer ∧ frame.retryId ≠ packet.retryId := by
  by_cases heq : frame = packet
  · exact .inl heq
  · have hsymm : Std.Symm fun a b : DataPacket ↦ a.pointer ≠ b.pointer ∧ a.retryId ≠ b.retryId :=
      ⟨fun _ _ hne ↦ ⟨hne.1.symm, hne.2.symm⟩⟩
    exact .inr (h.apart.forall hframe hpacket heq)

theorem Exact.mem_iff (hpacket : packet ∈ history.inProgressFrames) (n : ℕ) : (packet.retryId, n)
    ∈ history.procedure.retryCounter kind ↔
      history.failures kind packet.pointer = n ∧ 0 < n := by
  rw [h.counted]
  constructor
  · rintro ⟨frame, hframe, hid, hcount⟩
    obtain rfl := (h.eq_or_apart hframe hpacket).resolve_right fun hne ↦ hne.2 hid
    exact hcount
  · exact fun hcount ↦ ⟨packet, hpacket, rfl, hcount⟩

/-- A frame without failed attempts has no count. -/
theorem Exact.ne_of_unfailed (hpacket : packet ∈ history.inProgressFrames)
    (hzero : history.failures kind packet.pointer = 0) :
    ∀ e ∈ history.procedure.retryCounter kind, packet.retryId ≠ e.1 := by
  rintro ⟨id, n⟩ he rfl
  obtain ⟨hcount, hpos⟩ := (h.mem_iff hpacket n).mp he
  omega

/-- Frames leave with the counts that are erased. -/
theorem Exact.drop {leaves : DataPacket → Bool} (hsublist : ∀ kind,
      (procedure.retryCounter kind).Sublist (history.procedure.retryCounter kind))
    (hcounter : ∀ kind, ∀ e ∈ history.procedure.retryCounter kind,
      e ∈ procedure.retryCounter kind ↔
        ∀ frame ∈ history.inProgressFrames, leaves frame = true → frame.retryId ≠ e.1) :
    Exact (history.drop leaves procedure) where
  apart := h.apart.sublist filter_sublist
  near :=
    have ⟨base, hnear, hascending⟩ := h.near
    ⟨base, fun frame hframe ↦ hnear frame (mem_of_mem_filter hframe),
      fun kind ↦ (hascending kind).sublist (hsublist kind)⟩
  counted kind e := by
    constructor
    · intro he
      have hold := (hsublist kind).subset he
      obtain ⟨frame, hframe, hid, hcount⟩ := (h.counted kind e).mp hold
      refine ⟨frame, mem_filter.mpr ⟨hframe, ?_⟩, hid, hcount⟩
      by_contra hleaves
      rw [Bool.not_eq_true, Bool.not_eq_false'] at hleaves
      exact (hcounter kind e hold).mp he frame hframe hleaves hid
    · rintro ⟨frame, hframe, hid, hcount⟩
      obtain ⟨hframe, hstays⟩ := mem_filter.mp hframe
      rw [Bool.not_eq_true'] at hstays
      refine (hcounter kind e ((h.counted kind e).mpr ⟨frame, hframe, hid, hcount⟩)).mpr ?_
      intro other hother hleaves heq
      rcases h.eq_or_apart hother hframe with rfl | hne
      · rw [hstays] at hleaves
        cases hleaves
      · exact hne.2 (heq.trans hid.symm)
  checked := h.checked

theorem Exact.dropUnfailed {leaves : DataPacket → Bool}
    (hcounter : procedure.retryCounter = history.procedure.retryCounter)
    (hzero : ∀ frame ∈ history.inProgressFrames, leaves frame = true →
      ∀ kind, history.failures kind frame.pointer = 0) :
    Exact (history.drop leaves procedure) := by
  refine h.drop (fun kind ↦ hcounter ▸ List.Sublist.refl _) fun kind e he ↦ ?_
  rw [hcounter]
  exact iff_of_true he fun frame hframe hleaves ↦
    h.ne_of_unfailed hframe (hzero frame hframe hleaves kind) e he

theorem Exact.isPacket_iff (hframe : frame ∈ history.inProgressFrames)
    (hpacket : packet ∈ history.inProgressFrames) :
    isPacket packet frame = true ↔ frame = packet := by
  rw [isPacket, decide_eq_true_iff]
  refine ⟨fun hpointer ↦ ?_, congrArg DataPacket.pointer⟩
  exact (h.eq_or_apart hframe hpacket).resolve_right fun hne ↦ hne.1 hpointer

/-- The base of the keys, and how they compare with the key of a frame in progress. -/
theorem Exact.exists_agrees :
    ∃ base, (∀ frame ∈ history.inProgressFrames, RetryId.Near base frame.retryId) ∧
      ∀ kind, Ascending (RetryId.rank base) (history.procedure.retryCounter kind) ∧
        (∀ e ∈ history.procedure.retryCounter kind, RetryId.Near base e.1) ∧
        ∀ packet ∈ history.inProgressFrames, Agrees RetryId.less (RetryId.rank base)
          (history.procedure.retryCounter kind) packet.retryId := by
  obtain ⟨base, hnear, hascending⟩ := h.near
  have hkeys : ∀ kind, ∀ e ∈ history.procedure.retryCounter kind, RetryId.Near base e.1 := by
    intro kind e he
    obtain ⟨frame, hframe, hid, -⟩ := (h.counted kind e).mp he
    exact hid ▸ hnear frame hframe
  exact ⟨base, hnear, fun kind ↦ ⟨hascending kind, hkeys kind,
    fun packet hpacket ↦ RetryId.agrees (hkeys kind) (hnear packet hpacket)⟩⟩

/-- A packet leaves whose failed attempts are of the kind that is erased. -/
theorem Exact.dropErased (hpacket : packet ∈ history.inProgressFrames)
    (hcounter : procedure.retryCounter = (history.procedure.eraseCounter kind packet).retryCounter)
    (hzero : ∀ other, other ≠ kind → history.failures other packet.pointer = 0) :
    Exact (history.drop (isPacket packet) procedure) := by
  obtain ⟨base, -, hcounters⟩ := h.exists_agrees
  obtain ⟨hascending, -, hagrees⟩ := hcounters kind
  have hleaves (e : RetryId × ℕ) : (∀ frame ∈ history.inProgressFrames,
      isPacket packet frame = true → frame.retryId ≠ e.1) ↔ packet.retryId ≠ e.1 := by
    refine ⟨fun hall ↦ hall packet hpacket ((h.isPacket_iff hpacket hpacket).mpr rfl), ?_⟩
    intro hne frame hframe his
    rwa [(h.isPacket_iff hframe hpacket).mp his]
  have hother : ∀ other, other ≠ kind →
      procedure.retryCounter other = history.procedure.retryCounter other := fun other hne ↦
    hcounter ▸ update_of_ne hne _ _
  have herased : procedure.retryCounter kind =
      erase RetryId.less (history.procedure.retryCounter kind) packet.retryId :=
    hcounter ▸ update_self ..
  refine h.drop (fun other ↦ ?_) fun other e he ↦ ?_
  all_goals by_cases heq : other = kind
  · rw [heq, herased]
    exact erase_sublist _ _
  · rw [hother other heq]
  · subst heq
    rw [herased, hascending.mem_erase_iff (hagrees packet hpacket), hleaves]
    exact ⟨fun h ↦ h.2.symm, fun hne ↦ ⟨he, hne.symm⟩⟩
  · rw [hother other heq, hleaves]
    exact iff_of_true he (h.ne_of_unfailed hpacket (hzero other heq) e he)

theorem Exact.incrementCounter_eq (hpacket : packet ∈ history.inProgressFrames) :
    QosRecoveryProcedure.incrementCounter packet (history.procedure.retryCounter kind) =
      assign RetryId.less (history.procedure.retryCounter kind) packet.retryId
        (history.failures kind packet.pointer + 1) := by
  obtain ⟨base, -, hcounters⟩ := h.exists_agrees
  obtain ⟨hascending, -, hagrees⟩ := hcounters kind
  have hfind : ∀ e, _ ↔ _ := fun e ↦ hascending.find_eq_some_iff (e := e) (hagrees packet hpacket)
  unfold QosRecoveryProcedure.incrementCounter
  split
  · rename_i id count hsome
    obtain ⟨hmem, rfl⟩ := (hfind _).mp hsome
    rw [((h.mem_iff hpacket count).mp hmem).1]
  · rename_i hnone
    have hzero : history.failures kind packet.pointer = 0 := by
      by_contra hne
      have hmem := (h.mem_iff hpacket _).mpr ⟨rfl, Nat.pos_of_ne_zero hne⟩
      rw [(hfind _).mpr ⟨hmem, rfl⟩] at hnone
      cases hnone
    rw [hzero]

end

/-- The history when an attempt has been counted and its count compared with the limit. -/
def attempted (parameters : RetryParameters) (history : RetryHistory) (kind : RetryKind)
    (packet : DataPacket) : RetryHistory :=
  let attempts := history.failures kind packet.pointer + 1
  { history with
    procedure := history.procedure.attemptFailed parameters kind packet
    failures := update history.failures kind
      (update (history.failures kind) packet.pointer attempts)
    checks := history.checks ++ [(attempts, attempts)] }

theorem Exact.exact_attempted (h : Exact history) (hpacket : packet ∈ history.inProgressFrames) :
    Exact (history.attempted parameters kind packet) := by
  obtain ⟨base, hnear, hcounters⟩ := h.exists_agrees
  obtain ⟨hascending, -, hagrees⟩ := hcounters kind
  have hcounter : (history.attempted parameters kind packet).procedure.retryCounter =
      update history.procedure.retryCounter kind
        (assign RetryId.less (history.procedure.retryCounter kind) packet.retryId
          (history.failures kind packet.pointer + 1)) := by
    rw [← h.incrementCounter_eq hpacket]
    rfl
  have hfailures : (history.attempted parameters kind packet).failures =
      update history.failures kind (update (history.failures kind) packet.pointer
        (history.failures kind packet.pointer + 1)) := rfl
  refine ⟨h.apart, ⟨base, hnear, fun other ↦ ?_⟩, fun other e ↦ ?_, fun check hcheck ↦ ?_⟩
  · rw [hcounter]
    by_cases heq : other = kind
    · subst heq
      rw [update_self]
      exact hascending.assign (hagrees packet hpacket) _
    · rw [update_of_ne heq]
      exact (hcounters other).1
  · rw [hcounter, hfailures]
    by_cases heq : other = kind
    · subst heq
      rw [update_self, update_self,
        hascending.mem_assign_iff (hagrees packet hpacket)]
      constructor
      · rintro (rfl | ⟨he, hne⟩)
        · exact ⟨packet, hpacket, rfl, update_self .., Nat.succ_pos _⟩
        · obtain ⟨frame, hframe, hid, hcount⟩ := (h.counted other e).mp he
          have hother := (h.eq_or_apart hframe hpacket).resolve_left
            (by rintro rfl; exact hne hid.symm)
          exact ⟨frame, hframe, hid, by rwa [update_of_ne hother.1]⟩
      · rintro ⟨frame, hframe, hid, hcount⟩
        rcases h.eq_or_apart hframe hpacket with rfl | hother
        · rw [update_self] at hcount
          exact .inl (Prod.ext hid.symm hcount.1.symm)
        · rw [update_of_ne hother.1] at hcount
          exact .inr ⟨(h.counted other e).mpr ⟨frame, hframe, hid, hcount⟩, hid ▸ hother.2⟩
    · rw [update_of_ne heq, update_of_ne heq]
      exact h.counted other e
  · rcases mem_append.mp hcheck with hcheck | hcheck
    · exact h.checked check hcheck
    · rw [mem_singleton.mp hcheck]

/-- The count that is looked up after a failed attempt is that of the packet, and what follows keeps
the counters exact. -/
theorem Exact.exists_failed (h : Exact history) (hpacket : packet ∈ history.inProgressFrames)
    (hcondition : (history.failures kind packet.pointer + 1 : ℕ) < parameters.retryLimit kind ∨
      parameters.kindOf packet = kind ∧
        ∀ other, other ≠ kind → history.failures other packet.pointer = 0) :
    ∃ t, history.failed parameters kind packet
        (history.procedure.attemptFailed parameters kind packet) = .ok t ∧ Exact t := by
  have hattempted : Exact (history.attempted parameters kind packet) := h.exact_attempted hpacket
  have hpacket' : packet ∈ (history.attempted parameters kind packet).inProgressFrames := hpacket
  obtain ⟨base, -, hcounters⟩ := hattempted.exists_agrees
  obtain ⟨hascending, -, hagrees⟩ := hcounters kind
  have hgetRc : (history.procedure.attemptFailed parameters kind packet).getRc kind packet =
      .ok (history.failures kind packet.pointer + 1) := by
    have hown : (history.attempted parameters kind packet).failures kind packet.pointer =
        history.failures kind packet.pointer + 1 := by
      simp only [attempted, update_self]
    have hfind := (hascending.find_eq_some_iff (hagrees packet hpacket')).mpr
      ⟨(hattempted.mem_iff hpacket' _).mpr ⟨hown, Nat.succ_pos _⟩, rfl⟩
    rw [QosRecoveryProcedure.getRc]
    simp only [show (history.procedure.attemptFailed parameters kind packet).retryCounter kind =
      (history.attempted parameters kind packet).procedure.retryCounter kind from rfl, hfind]
  have hfailed : history.failed parameters kind packet
        (history.procedure.attemptFailed parameters kind packet) =
      if parameters.isRetryLimitReached kind (history.failures kind packet.pointer + 1) = true then
        .ok ((history.attempted parameters kind packet).drop (isPacket packet)
          ((history.procedure.attemptFailed parameters kind packet).retryLimitReached parameters
            packet))
      else .ok (history.attempted parameters kind packet) := by
    rw [failed, bind_of_ok hgetRc]
    rfl
  rw [hfailed]
  split
  · rename_i hlimit
    rw [RetryParameters.isRetryLimitReached, decide_eq_true_iff] at hlimit
    obtain ⟨rfl, hzero⟩ := hcondition.resolve_left hlimit.not_gt
    refine ⟨_, rfl, hattempted.dropErased hpacket' rfl fun other hne ↦ ?_⟩
    exact (congrFun (update_of_ne hne _ _) packet.pointer).trans (hzero other hne)
  · exact ⟨_, rfl, hattempted⟩

/-! ## Runs -/

/-- All failed attempts of a packet are of the kinds whose count is erased when it leaves. -/
def Unfailed (history : RetryHistory) (packet : DataPacket) (kinds : RetryKind → Prop) : Prop :=
  ∀ kind, kinds kind → history.failures kind packet.pointer = 0

/-- An attempt that fails leaves the packet below the limit, or the count of its kind is erased with
the packet and there is no other one. -/
def FailsCleanly (parameters : RetryParameters) (history : RetryHistory) (kind : RetryKind)
    (packet : DataPacket) : Prop :=
  (history.failures kind packet.pointer + 1 : ℕ) < parameters.retryLimit kind ∨
    parameters.kindOf packet = kind ∧ history.Unfailed packet (· ≠ kind)

/-- A frame that gets in progress has a key of its own, and the keys of each TID are in one half of
the ring.  A frame that leaves has no failed attempts but those whose count is erased. -/
def ErasesCounts (parameters : RetryParameters) (history : RetryHistory) : Event → Prop
  | .gotInProgress packet =>
    (∀ frame ∈ history.inProgressFrames, frame.retryId ≠ packet.retryId) ∧
      ∃ base, ∀ frame ∈ history.inProgressFrames ++ [packet], RetryId.Near base frame.retryId
  | .internalCollision packet | .failedFrame packet =>
    history.FailsCleanly parameters (parameters.kindOf packet) packet
  | .rtsProtectionFailed packet => history.FailsCleanly parameters .short packet
  | .transmittedFrame packet =>
    packet.header.receiverAddress.isMulticast = true ∨ packet.header.ackPolicy = .NO_ACK →
      history.Unfailed packet fun _ ↦ True
  | .ackReceived packet => history.Unfailed packet (· ≠ parameters.kindOf packet)
  | .blockAckReceived ackedSeqAndFragNums => ∀ frame ∈ history.inProgressFrames,
      frame.id ∈ ackedSeqAndFragNums → history.Unfailed frame fun _ ↦ True
  | .ctsReceived => True

theorem Exact.gotInProgress (h : Exact history)
    (hpointer : ∀ frame ∈ history.inProgressFrames, frame.pointer ≠ packet.pointer)
    (hid : ∀ frame ∈ history.inProgressFrames, frame.retryId ≠ packet.retryId)
    (hnear : ∃ base, ∀ frame ∈ history.inProgressFrames ++ [packet],
      RetryId.Near base frame.retryId) :
    Exact { history with
      inProgressFrames := history.inProgressFrames ++ [packet]
      failures := fun kind ↦ update (history.failures kind) packet.pointer 0 } := by
  obtain ⟨oldBase, holdNear, hcounters⟩ := h.exists_agrees
  obtain ⟨base, hnear⟩ := hnear
  refine ⟨?_, ⟨base, hnear, fun kind ↦ ?_⟩, fun kind e ↦ ?_, h.checked⟩
  · refine pairwise_append.mpr ⟨h.apart, pairwise_singleton .., ?_⟩
    intro frame hframe other hother
    rw [mem_singleton.mp hother]
    exact ⟨hpointer frame hframe, hid frame hframe⟩
  · have hkeys : ∀ e ∈ history.procedure.retryCounter kind, RetryId.Near base e.1 := by
      intro e he
      obtain ⟨frame, hframe, heq, -⟩ := (h.counted kind e).mp he
      exact heq ▸ hnear frame (mem_append_left _ hframe)
    refine (hcounters kind).1.imp_of_mem fun {a b} ha hb hlt ↦ ?_
    rw [← RetryId.less_iff_rank (hkeys a ha) (hkeys b hb)]
    exact (RetryId.less_iff_rank ((hcounters kind).2.1 a ha) ((hcounters kind).2.1 b hb)).mpr hlt
  · rw [h.counted]
    simp only [mem_append, mem_singleton]
    constructor
    · rintro ⟨frame, hframe, hcount⟩
      exact ⟨frame, .inl hframe, by rwa [update_of_ne (hpointer frame hframe)]⟩
    · rintro ⟨frame, hframe | rfl, hcount⟩
      · rw [update_of_ne (hpointer frame hframe)] at hcount
        exact ⟨frame, hframe, hcount⟩
      · rw [update_self] at hcount
        omega

theorem Exact.step (h : Exact history) {event : Event}
    (hstep : (machine parameters).Step history event t)
    (hcondition : history.ErasesCounts parameters event) : Exact t := by
  obtain ⟨henabled, hhandle⟩ := hstep
  have hfailed {kind : RetryKind} {packet : DataPacket}
    (hpacket : packet ∈ history.inProgressFrames)
      (hcleanly : history.FailsCleanly parameters kind packet)
      (hok : history.failed parameters kind packet
        (history.procedure.attemptFailed parameters kind packet) = .ok t) : Exact t := by
    obtain ⟨t', hok', ht'⟩ := h.exists_failed hpacket hcleanly
    exact ok.inj (hok'.symm.trans hok) ▸ ht'
  cases event with
  | gotInProgress packet =>
    obtain rfl := ok.inj hhandle
    exact h.gotInProgress henabled hcondition.1 hcondition.2
  | internalCollision packet | rtsProtectionFailed packet =>
    exact hfailed henabled hcondition hhandle
  | failedFrame packet =>
    obtain ⟨-, -, hhandle⟩ := bind_eq_ok hhandle
    exact hfailed henabled hcondition hhandle
  | transmittedFrame packet =>
    have hdrop {procedure : QosRecoveryProcedure}
        (hcounter : procedure.retryCounter = history.procedure.retryCounter)
        (hunfailed : history.Unfailed packet fun _ ↦ True) :
        Exact (history.drop (isPacket packet) procedure) := by
      refine h.dropUnfailed hcounter fun frame hframe his kind ↦ ?_
      rw [(h.isPacket_iff hframe henabled).mp his]
      exact hunfailed kind trivial
    change (if _ then _ else _) = _ at hhandle
    split_ifs at hhandle with hmulticast hack
    · obtain rfl := ok.inj hhandle
      exact hdrop rfl (hcondition (.inl hmulticast))
    · obtain rfl := ok.inj hhandle
      exact hdrop rfl (hcondition (.inr hack))
    · obtain rfl := ok.inj hhandle
      exact h
  | ackReceived packet =>
    obtain rfl := ok.inj hhandle
    exact h.dropErased henabled rfl hcondition
  | blockAckReceived ackedSeqAndFragNums =>
    obtain rfl := ok.inj hhandle
    refine h.dropUnfailed rfl fun frame hframe hacked kind ↦ ?_
    exact hcondition frame hframe (of_decide_eq_true hacked) kind trivial
  | ctsReceived =>
    obtain rfl := ok.inj hhandle
    exact ⟨h.apart, h.near, h.counted, h.checked⟩

/-- Retry accounting is per frame in every run in which frames in progress have keys of their own,
and leave without failed attempts but those whose count is erased. -/
theorem accounts_of_run {cwCalculator : CwCalculator} {events : List Event}
    (hrun : ((machine parameters).restrict (ErasesCounts parameters)).Run
      (initial cwCalculator) events
      history) : Accounts history := by
  have hexact : Exact history := by
    refine hrun.invariant (fun history event t h hstep ↦ ?_)
      ⟨List.Pairwise.nil, ⟨fun _ ↦ 0, nofun, fun _ ↦ List.Pairwise.nil⟩, fun kind e ↦ ?_, nofun⟩
    · obtain ⟨hstep, hcondition⟩ := step_restrict_iff.mp hstep
      exact h.step hstep hcondition
    · exact iff_of_false nofun (by rintro ⟨frame, hframe, -⟩; cases hframe)
  exact hexact.accounts

/-- The default parameters. -/
def defaults : RetryParameters where
  retryLimit kind := if kind = .short then 7 else 4
  rtsThreshold := 2346

/-- The first frame of TID 0 to a receiver. -/
def firstFrame (pointer : ℕ) (receiverAddress : MacAddress) (byteLength : ℤ) : DataPacket where
  pointer := pointer
  header := ⟨receiverAddress, 0, 0, ⟨0, maxNumFragments_pos⟩, false, .NORMAL_ACK⟩
  byteLength := byteLength

def start : RetryHistory := initial ⟨15, 1023, 15⟩

theorem accounts_of_run_retried :
    ∃ history, ((machine defaults).restrict (ErasesCounts defaults)).Run start
        [.gotInProgress (firstFrame 0 2 100), .failedFrame (firstFrame 0 2 100)] history ∧
      history.checks = [(1, 1)] ∧ Accounts history := by
  obtain ⟨history, hrun, hchecks⟩ : ∃ history, (machine defaults).Run start
      [.gotInProgress (firstFrame 0 2 100), .failedFrame (firstFrame 0 2 100)] history ∧
        history.checks = [(1, 1)] :=
    Machine.exists_run_of_exec (by decide +kernel)
  obtain ⟨s, hfirst, hsecond⟩ := run_cons_iff.mp hrun
  obtain rfl := ok.inj hfirst.2
  have hrestricted : ((machine defaults).restrict (ErasesCounts defaults)).Run start
      [.gotInProgress (firstFrame 0 2 100), .failedFrame (firstFrame 0 2 100)] history :=
    .cons (step_restrict_iff.mpr ⟨hfirst, nofun, fun _ ↦ 0, by decide⟩)
      (run_singleton_iff.mpr (step_restrict_iff.mpr
        ⟨run_singleton_iff.mp hsecond, .inl (by decide)⟩))
  exact ⟨history, hrestricted, hchecks, accounts_of_run hrestricted⟩

/-- The first frames to two receivers share a count.  And the count of a failed RTS before a long
frame is kept when the frame is acknowledged. -/
theorem not_accounts_firstFrames :
    (∃ history, (machine defaults).Run start
        [.gotInProgress (firstFrame 0 2 100), .gotInProgress (firstFrame 1 4 100),
          .failedFrame (firstFrame 0 2 100), .failedFrame (firstFrame 1 4 100)] history ∧
      ¬Accounts history) ∧
    ∃ history, (machine defaults).Run start
        [.gotInProgress (firstFrame 0 2 3000), .rtsProtectionFailed (firstFrame 0 2 3000),
          .ackReceived (firstFrame 0 2 3000)] history ∧ ¬Accounts history := by
  obtain ⟨shared, hshared, hcharged⟩ : ∃ history, (machine defaults).Run start
        [.gotInProgress (firstFrame 0 2 100), .gotInProgress (firstFrame 1 4 100),
          .failedFrame (firstFrame 0 2 100), .failedFrame (firstFrame 1 4 100)] history ∧
      (2, 1) ∈ history.checks :=
    Machine.exists_run_of_exec (by decide +kernel)
  obtain ⟨left, hleft, hnone, hkept⟩ : ∃ history, (machine defaults).Run start
        [.gotInProgress (firstFrame 0 2 3000), .rtsProtectionFailed (firstFrame 0 2 3000),
          .ackReceived (firstFrame 0 2 3000)] history ∧
      history.inProgressFrames = [] ∧
        ((firstFrame 0 2 3000).retryId, 1) ∈ history.procedure.retryCounter .short :=
    Machine.exists_run_of_exec (by decide +kernel)
  refine ⟨⟨shared, hshared, fun h ↦ absurd (h.checked _ hcharged) (by decide)⟩, left, hleft, ?_⟩
  intro h
  obtain ⟨frame, hframe, -⟩ := h.kept _ _ hkept
  rw [hnone] at hframe
  cases hframe

end RetryHistory

end Inet4.Ieee80211
