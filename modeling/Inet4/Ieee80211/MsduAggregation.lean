import Inet4.Ieee80211.Fragmentation

/-!
# Aggregation of MSDUs

The policy takes frames for one receiver from the front of the queue, `aggregateFrames` puts their
payloads behind subframe headers into one frame, and `deaggregateFrame` takes them out
again.  Behind every subframe but the last one there is padding to four bytes.  Lengths are in
bytes; the names of the packets, the checksums and what the two classes do not touch are left out.
-/

namespace Inet4.Ieee80211

open List

/-- An unspecified address is zero. -/
structure Ieee80211DataHeader where
  type : HeaderType := .ST_DATA_WITH_QOS
  toDS : Bool
  fromDS : Bool
  receiverAddress : MacAddress
  transmitterAddress : MacAddress := 0
  address3 : MacAddress := 0
  address4 : MacAddress := 0
  tid : Tid
  sequenceNumber : SequenceNumber := 0
  aMsduPresent : Bool := false
deriving DecidableEq

structure MsduSubframeHeader where
  sa : MacAddress
  da : MacAddress
  length : ℤ
deriving DecidableEq

/-- A data frame between the header and the trailer. -/
structure DataFrame (α : Type) where
  header : Ieee80211DataHeader
  data : List α
deriving DecidableEq

/-- A byte of an A-MSDU: the first or a later one of a subframe header, of an MSDU, or of
padding. -/
inductive Octet (α : Type)
  | header (subframeHeader : MsduSubframeHeader)
  | inHeader
  | byte (value : α)
  | padding
deriving DecidableEq

def LENGTH_A_MSDU_SUBFRAME_HEADER : ℕ := 14

variable {α : Type}

/-- The padding behind a subframe; 4 stands for none. -/
def paddingLength (length : ℕ) : ℕ := 4 - (LENGTH_A_MSDU_SUBFRAME_HEADER + length) % 4

/-! ## The policy -/

structure BasicMsduAggregationPolicy where
  qOsCheck : Bool
  subframeNumThreshold : ℤ
  aggregationLengthThreshold : ℤ
  maxAMsduSize : ℤ
deriving DecidableEq

namespace BasicMsduAggregationPolicy

variable (policy : BasicMsduAggregationPolicy)

def isAggregationPossible (numOfFramesToAggragate aMsduLength : ℕ) : Bool :=
  (policy.subframeNumThreshold = -1 || policy.subframeNumThreshold ≤ numOfFramesToAggragate) &&
    (policy.aggregationLengthThreshold = -1 || policy.aggregationLengthThreshold ≤ aMsduLength)

/-- The length of the data is what the total length has beside the header and the trailer. -/
def isEligible (frame : DataFrame α) (testHeader : Ieee80211DataHeader) (aMsduLength : ℕ) : Bool :=
  if policy.qOsCheck && frame.header.type ≠ .ST_DATA_WITH_QOS then false
  else if (aMsduLength + frame.data.length + LENGTH_A_MSDU_SUBFRAME_HEADER : ℕ) >
      policy.maxAMsduSize then false
  else if testHeader.tid ≠ frame.header.tid then false
  else if testHeader.receiverAddress ≠ frame.header.receiverAddress ∨
      testHeader.transmitterAddress ≠ frame.header.transmitterAddress then false
  else true

/-- The loop over the queue; `none` is a packet without a data header. -/
def collect (firstHeader : Ieee80211DataHeader) (aMsduLength : ℕ) :
    (queue : List (Option (DataFrame α))) → List (DataFrame α) × ℕ
  | some frame :: queue =>
    if policy.isEligible frame firstHeader aMsduLength then
      let (frames, aMsduLength) := collect firstHeader
        (aMsduLength + frame.data.length + LENGTH_A_MSDU_SUBFRAME_HEADER) queue
      (frame :: frames, aMsduLength)
    else ([], aMsduLength)
  | _ => ([], aMsduLength)

def computeAggregateFrames (queue : List (Option (DataFrame α))) :
    Except Fault (Option (List (DataFrame α))) :=
  match queue with
  | [] => .error .runtimeError
  | none :: _ => .ok none
  | some first :: _ =>
    let (frames, aMsduLength) := policy.collect first.header 0 queue
    if frames.length ≤ 1 ∨ ¬policy.isAggregationPossible frames.length aMsduLength then .ok none
    else .ok (some frames)

end BasicMsduAggregationPolicy

/-! ## Aggregation and deaggregation -/

variable (frame : DataFrame α)

/-- `setSubframeAddress` before its assertions. -/
def subframeHeader : MsduSubframeHeader :=
  let header := frame.header
  match header.toDS, header.fromDS with
  | false, false => ⟨header.transmitterAddress, header.receiverAddress, frame.data.length⟩
  | false, true => ⟨header.address3, header.receiverAddress, frame.data.length⟩
  | true, false => ⟨header.transmitterAddress, header.address3, frame.data.length⟩
  | true, true => ⟨header.address4, header.address3, frame.data.length⟩

/-- A subframe without padding. -/
def subframe : List (Octet α) :=
  .header (subframeHeader frame) :: replicate (LENGTH_A_MSDU_SUBFRAME_HEADER - 1) .inHeader ++
    frame.data.map .byte

/-- The subframes, with padding behind all but the last one. -/
def frameBody : List (DataFrame α) → List (Octet α)
  | [] => []
  | frame :: frames =>
    let paddingLength := paddingLength frame.data.length
    subframe frame ++
      ((if frames ≠ [] ∧ paddingLength ≠ 4 then replicate paddingLength .padding else []) ++
        frameBody frames)

/-- A chunk that is inserted is not empty, and the addresses are specified. -/
def assertSubframe : Except Fault Unit := do
  assert ((subframeHeader frame).da ≠ 0 ∧ (subframeHeader frame).sa ≠ 0)
  assert (frame.data ≠ [])

variable (frames : List (DataFrame α))

/-- The address of the transmitter is filled in later. -/
def aggregateFrames : Except Fault (DataFrame (Octet α)) :=
  match frames with
  | [] => .error .undefinedBehaviour
  | first :: _ => do
    frames.forM assertSubframe
    return {
      header :=
        { toDS := first.header.toDS
          fromDS := first.header.fromDS
          aMsduPresent := true
          receiverAddress := first.header.receiverAddress
          tid := first.header.tid }
      data := frameBody frames }

/-- The MAC fills in its own address. -/
def setTransmitterAddress (address : MacAddress) : DataFrame α :=
  { frame with header := { frame.header with transmitterAddress := address } }

variable (header : Ieee80211DataHeader)

def setExplodedFrameAddress (subframeHeader : MsduSubframeHeader)
    (aMsduHeader : Ieee80211DataHeader) : Except Fault Ieee80211DataHeader := do
  let header := match aMsduHeader.fromDS, aMsduHeader.toDS with
    | false, false => { header with
        transmitterAddress := aMsduHeader.transmitterAddress
        receiverAddress := aMsduHeader.receiverAddress }
    | true, false => { header with
        transmitterAddress := aMsduHeader.transmitterAddress
        receiverAddress := subframeHeader.da
        address3 := subframeHeader.sa }
    | false, true => { header with
        transmitterAddress := subframeHeader.sa
        receiverAddress := aMsduHeader.receiverAddress
        address3 := subframeHeader.da }
    | true, true => { header with
        receiverAddress := aMsduHeader.receiverAddress
        transmitterAddress := aMsduHeader.transmitterAddress
        address3 := subframeHeader.da
        address4 := subframeHeader.sa }
  assert (header.receiverAddress ≠ 0)
  assert (header.transmitterAddress ≠ 0)
  return header

/-- `popAtFront<Ieee80211MsduSubframeHeader>`. -/
def popSubframeHeader : List (Octet α) → Except Fault (MsduSubframeHeader × List (Octet α))
  | .header subframeHeader :: data => do
    assert (LENGTH_A_MSDU_SUBFRAME_HEADER - 1 ≤ data.length)
    return (subframeHeader, data.drop (LENGTH_A_MSDU_SUBFRAME_HEADER - 1))
  | _ => .error .runtimeError

/-- The loop of `deaggregateFrame`, for at most a number of rounds. -/
def explode (amsduHeader : Ieee80211DataHeader) : (rounds paddingLength : ℕ) →
    (data : List (Octet α)) →
    Except Fault (List (DataFrame (Octet α)))
  | _, _, [] => .ok []
  | 0, _, _ => .error .notReturned
  | rounds + 1, padding, data => do
    let skipped := if padding = 4 then 0 else padding
    assert (skipped ≤ data.length)
    let (subframeHeader, data) ← popSubframeHeader (data.drop skipped)
    assert (0 ≤ subframeHeader.length ∧ subframeHeader.length ≤ data.length)
    let msdu := data.take subframeHeader.length.toNat
    let header ← setExplodedFrameAddress
      { toDS := amsduHeader.toDS
        fromDS := amsduHeader.fromDS
        receiverAddress := 0
        tid := amsduHeader.tid } subframeHeader amsduHeader
    let frames ← explode amsduHeader rounds (paddingLength msdu.length) (data.drop msdu.length)
    return ⟨header, msdu⟩ :: frames

def deaggregateFrame (rounds : ℕ) (aggregatedFrame : DataFrame (Octet α)) :
    Except Fault (List (DataFrame (Octet α))) :=
  explode aggregatedFrame.header rounds 0 aggregatedFrame.data

/-! ## The round trip -/

/-- The addresses of the final receiver and the first transmitter, by the table for the DS bits. -/
def Ieee80211DataHeader.destinationAddress : MacAddress :=
  if header.toDS then header.address3 else header.receiverAddress

def Ieee80211DataHeader.sourceAddress : MacAddress :=
  if header.fromDS then if header.toDS then header.address4 else header.address3
  else header.transmitterAddress

/-- A header of the link that the aggregated header is for, with the addresses that are asserted. -/
structure Carries (amsduHeader header : Ieee80211DataHeader) : Prop where
  receiver : header.receiverAddress = amsduHeader.receiverAddress
  transmitter : header.transmitterAddress = amsduHeader.transmitterAddress
  tid : header.tid = amsduHeader.tid
  toDS : header.toDS = amsduHeader.toDS
  fromDS : header.fromDS = amsduHeader.fromDS
  receiver_ne : header.receiverAddress ≠ 0
  transmitter_ne : header.transmitterAddress ≠ 0
  destination_ne : header.destinationAddress ≠ 0
  source_ne : header.sourceAddress ≠ 0

/-- The frame that comes out for a frame that went in. -/
structure Restores (frame : DataFrame α) (frame' : DataFrame (Octet α)) : Prop where
  data : frame'.data = frame.data.map .byte
  tid : frame'.header.tid = frame.header.tid
  toDS : frame'.header.toDS = frame.header.toDS
  fromDS : frame'.header.fromDS = frame.header.fromDS
  destination : frame'.header.destinationAddress = frame.header.destinationAddress
  source : frame'.header.sourceAddress = frame.header.sourceAddress

section RoundTrip

variable {amsduHeader : Ieee80211DataHeader} {frame : DataFrame α} {frames : List (DataFrame α)}

theorem subframeHeader_eq (frame : DataFrame α) : subframeHeader frame =
    ⟨frame.header.sourceAddress, frame.header.destinationAddress, frame.data.length⟩ := by
  obtain ⟨⟨type, toDS, fromDS⟩, data⟩ := frame
  cases toDS <;> cases fromDS <;> rfl

theorem exists_setExplodedFrameAddress (h : Carries amsduHeader frame.header) :
    ∃ header, setExplodedFrameAddress
        { toDS := amsduHeader.toDS
          fromDS := amsduHeader.fromDS
          receiverAddress := 0
          tid := amsduHeader.tid } (subframeHeader frame) amsduHeader = .ok header ∧
      Restores frame ⟨header, frame.data.map .byte⟩ := by
  obtain ⟨⟨type, toDS, fromDS, ra, ta⟩, data⟩ := frame
  obtain ⟨type', toDS', fromDS', ra', ta'⟩ := amsduHeader
  obtain ⟨hra, hta, htid, htoDS, hfromDS, hreceiver, htransmitter, -, -⟩ := h
  subst hra hta htid htoDS hfromDS
  -- in each of the four combinations the addresses of the link come back
  cases toDS <;> cases fromDS <;>
    exact ⟨_, (bind_of_ok (assert_of hreceiver)).trans
      ((bind_of_ok (assert_of htransmitter)).trans rfl), rfl, rfl, rfl, rfl, rfl, rfl⟩

theorem length_subframe (frame : DataFrame α) :
    (subframe frame).length = LENGTH_A_MSDU_SUBFRAME_HEADER + frame.data.length := by
  simp only [subframe, length_append, length_cons, length_replicate, length_map]
  rfl

theorem popSubframeHeader_subframe (frame : DataFrame α) (data : List (Octet α)) :
    popSubframeHeader (subframe frame ++ data) =
      .ok (subframeHeader frame, frame.data.map .byte ++ data) := by
  rw [subframe, append_assoc, cons_append, popSubframeHeader]
  refine (bind_of_ok (assert_of ?_)).trans ?_
  · rw [length_append, length_replicate]
    exact Nat.le_add_right _ _
  · rw [drop_left' length_replicate]
    rfl

theorem subframe_append_ne_nil (frame : DataFrame α) (data : List (Octet α)) :
    subframe frame ++ data ≠ [] := cons_ne_nil _ _

/-- A round of the loop on padding, a subframe and what follows. -/
theorem explode_subframe {header : Ieee80211DataHeader} {rounds padding : ℕ} {data : List (Octet α)}
    (hheader : setExplodedFrameAddress
        { toDS := amsduHeader.toDS
          fromDS := amsduHeader.fromDS
          receiverAddress := 0
          tid := amsduHeader.tid } (subframeHeader frame) amsduHeader = .ok header) :
    explode amsduHeader (rounds + 1) padding
        ((if padding ≠ 4 then replicate padding .padding else []) ++ (subframe frame ++ data)) =
      do
        let frames ← explode amsduHeader rounds (paddingLength frame.data.length) data
        return ⟨header, frame.data.map .byte⟩ :: frames := by
  have hpadding : (if padding ≠ 4 then replicate padding Octet.padding else []) =
      replicate (if padding = 4 then 0 else padding) (Octet.padding : Octet α) := by
    by_cases hnone : padding = 4 <;> simp [hnone]
  have hlength : (subframeHeader frame).length =
      ((frame.data.map .byte : List (Octet α)).length : ℤ) := by
    rw [subframeHeader_eq, length_map]
  rw [hpadding]
  obtain ⟨octet, octets, hoctets⟩ :=
    exists_cons_of_ne_nil (append_ne_nil_of_right_ne_nil
      (replicate (if padding = 4 then 0 else padding) (Octet.padding : Octet α))
      (subframe_append_ne_nil frame data))
  rw [hoctets, explode, ← hoctets]
  · dsimp only
    rw [drop_left' length_replicate, popSubframeHeader_subframe,
      bind_of_ok (assert_of (by simp)), bind_of_ok rfl]
    rw [hlength, Int.toNat_natCast, take_left' rfl, bind_of_ok (assert_of (by simp)),
      bind_of_ok hheader, drop_left' rfl, length_map]
  · exact cons_ne_nil _ _

/-- The padding behind a subframe is skipped before the next one. -/
theorem exists_explode (hcarries : ∀ frame ∈ frames, Carries amsduHeader frame.header) {rounds : ℕ}
    (hrounds : frames.length ≤ rounds) (padding : ℕ) :
    ∃ frames', explode amsduHeader rounds padding
        ((if frames ≠ [] ∧ padding ≠ 4 then replicate padding .padding else []) ++
          frameBody frames) = .ok frames' ∧ List.Forall₂ Restores frames frames' := by
  induction frames generalizing rounds padding with
  | nil =>
    refine ⟨[], ?_, .nil⟩
    cases rounds <;> rfl
  | cons frame frames ih =>
    obtain ⟨rounds, rfl⟩ := Nat.exists_eq_add_of_lt hrounds
    rw [forall_mem_cons] at hcarries
    obtain ⟨header, hheader, hdelivers⟩ := exists_setExplodedFrameAddress hcarries.1
    obtain ⟨frames', hexplode, hall⟩ := ih hcarries.2 (Nat.le_add_right _ _)
      (paddingLength frame.data.length)
    simp only [ne_eq, reduceCtorEq, not_false_eq_true, true_and]
    refine ⟨_, ?_, .cons hdelivers hall⟩
    rw [frameBody, explode_subframe hheader]
    exact (bind_of_ok hexplode).trans rfl

theorem forM_assertSubframe (hcarries : ∀ frame ∈ frames, Carries amsduHeader frame.header)
    (hdata : ∀ frame ∈ frames, frame.data ≠ []) : frames.forM assertSubframe = .ok () := by
  induction frames with
  | nil => rfl
  | cons frame frames ih =>
    rw [forall_mem_cons] at hcarries hdata
    have haddresses : (subframeHeader frame).da ≠ 0 ∧ (subframeHeader frame).sa ≠ 0 := by
      rw [subframeHeader_eq]
      exact ⟨hcarries.1.destination_ne, hcarries.1.source_ne⟩
    have hframe : assertSubframe frame = .ok () :=
      (bind_of_ok (assert_of haddresses)).trans (assert_of hdata.1)
    exact (bind_of_ok hframe).trans (ih hcarries.2 hdata.2)

/-- Frames of one link and TID with payloads and specified addresses come out of the aggregated
frame in their order, after as many rounds as there are frames. -/
theorem deaggregateFrame_aggregateFrames {first : DataFrame α}
    (hcarries : ∀ frame ∈ first :: frames, Carries first.header frame.header)
    (hdata : ∀ frame ∈ first :: frames, frame.data ≠ []) :
    ∃ aggregatedFrame, aggregateFrames (first :: frames) = .ok aggregatedFrame ∧
      ∀ rounds, (first :: frames).length ≤ rounds →
        ∃ frames', deaggregateFrame rounds
            (setTransmitterAddress aggregatedFrame first.header.transmitterAddress) = .ok frames' ∧
          List.Forall₂ Restores (first :: frames) frames' := by
  refine ⟨_, (bind_of_ok (forM_assertSubframe hcarries hdata)).trans rfl, fun rounds hrounds ↦ ?_⟩
  have hcarries' : ∀ frame ∈ first :: frames, Carries
      { toDS := first.header.toDS
        fromDS := first.header.fromDS
        aMsduPresent := true
        receiverAddress := first.header.receiverAddress
        transmitterAddress := first.header.transmitterAddress
        tid := first.header.tid } frame.header := fun frame hframe ↦
    { hcarries frame hframe with }
  have hexplode := exists_explode hcarries' hrounds 0
  exact hexplode

/-- Two frames of an access point, the first of which is padded. -/
theorem deaggregateFrame_aggregateFrames_two :
    let first : DataFrame ℕ :=
      ⟨{ toDS := false, fromDS := true, receiverAddress := 1, transmitterAddress := 2,
         address3 := 3, tid := 5 }, [7, 8, 9]⟩
    let second : DataFrame ℕ := ⟨{ first.header with address3 := 4 }, [6]⟩
    ∃ aggregatedFrame, aggregateFrames [first, second] = .ok aggregatedFrame ∧
      ∀ rounds, 2 ≤ rounds → ∃ frames',
        deaggregateFrame rounds (setTransmitterAddress aggregatedFrame 2) = .ok frames' ∧
          List.Forall₂ Restores [first, second] frames' := by
  intro first second
  refine deaggregateFrame_aggregateFrames ?_ (by decide)
  intro frame hframe
  rcases mem_pair.mp hframe with rfl | rfl <;> constructor <;> decide

end RoundTrip

/-! ## The size limit -/

/-- The length by which the policy goes. -/
def subframesLength : ℕ :=
  (frames.map fun frame ↦ frame.data.length + LENGTH_A_MSDU_SUBFRAME_HEADER).sum

/-- What the subframes, without the last one, lack to a multiple of four bytes. -/
def totalPadding : List (DataFrame α) → ℕ
  | [] => 0
  | frame :: frames =>
    (if frames ≠ [] then paddingLength frame.data.length % 4 else 0) + totalPadding frames

@[simp]
theorem subframesLength_cons : subframesLength (frame :: frames) =
      frame.data.length + LENGTH_A_MSDU_SUBFRAME_HEADER + subframesLength frames := by
  rfl

theorem length_frameBody :
    (frameBody frames).length = subframesLength frames + totalPadding frames := by
  induction frames with
  | nil => rfl
  | cons frame frames ih =>
    have hpadding : ((if frames ≠ [] ∧ paddingLength frame.data.length ≠ 4 then
        replicate (paddingLength frame.data.length) .padding else []) : List (Octet α)).length =
          if frames ≠ [] then paddingLength frame.data.length % 4 else 0 := by
      have hrange : 0 < paddingLength frame.data.length ∧ paddingLength frame.data.length ≤ 4 := by
        unfold paddingLength
        omega
      by_cases hlast : frames = []
      · simp [hlast]
      · by_cases hnone : paddingLength frame.data.length = 4
        · simp [hnone]
        · rw [if_pos ⟨hlast, hnone⟩, if_pos hlast, length_replicate]
          omega
    simp only [frameBody, length_append, hpadding, ih, length_subframe, subframesLength_cons,
      totalPadding]
    omega

theorem subframesLength_append (frames rest : List (DataFrame α)) :
    subframesLength (frames ++ rest) = subframesLength frames + subframesLength rest := by
  simp [subframesLength]

/-- The padding of a part is at most that of the whole. -/
theorem totalPadding_append_le (frames rest : List (DataFrame α)) :
    totalPadding frames ≤ totalPadding (frames ++ rest) := by
  induction frames with
  | nil => exact Nat.zero_le _
  | cons frame frames ih =>
    apply Nat.add_le_add _ ih
    by_cases hlast : frames = []
    · simp [hlast]
    · simp [hlast]

namespace BasicMsduAggregationPolicy

variable {policy : BasicMsduAggregationPolicy} {firstHeader : Ieee80211DataHeader}
  {queue : List (Option (DataFrame α))} {frames : List (DataFrame α)} {aMsduLength : ℕ}

/-- A frame that may follow the first one, whatever its length. -/
def Accepts (policy : BasicMsduAggregationPolicy) (firstHeader header : Ieee80211DataHeader) :
    Prop :=
  (policy.qOsCheck = true → header.type = .ST_DATA_WITH_QOS) ∧ firstHeader.tid = header.tid ∧
    firstHeader.receiverAddress = header.receiverAddress ∧
    firstHeader.transmitterAddress = header.transmitterAddress

theorem isEligible_iff {frame : DataFrame α} :
    policy.isEligible frame firstHeader aMsduLength = true ↔
      policy.Accepts firstHeader frame.header ∧
      (aMsduLength + frame.data.length + LENGTH_A_MSDU_SUBFRAME_HEADER : ℕ) ≤
        policy.maxAMsduSize := by
  unfold isEligible Accepts
  split_ifs <;> simp_all
  tauto

/-- Frames that the queue begins with, in one group and within the limit by their own lengths. -/
structure Fits (policy : BasicMsduAggregationPolicy) (firstHeader : Ieee80211DataHeader)
    (aMsduLength : ℕ) (queue : List (Option (DataFrame α))) (frames : List (DataFrame α)) :
    Prop where
  isPrefix : frames.map some <+: queue
  accepts : ∀ frame ∈ frames, policy.Accepts firstHeader frame.header
  length_le : frames ≠ [] → (aMsduLength + subframesLength frames : ℕ) ≤ policy.maxAMsduSize

theorem Fits.nil : policy.Fits firstHeader aMsduLength queue ([] : List (DataFrame α)) :=
  ⟨ nil_prefix, nofun, nofun⟩

theorem fits_cons_iff {frame frame' : DataFrame α} :
    policy.Fits firstHeader aMsduLength (some frame :: queue) (frame' :: frames) ↔
      frame' = frame ∧ policy.isEligible frame firstHeader aMsduLength = true ∧
        policy.Fits firstHeader (aMsduLength + frame.data.length + LENGTH_A_MSDU_SUBFRAME_HEADER)
          queue frames := by
  rw [isEligible_iff]
  constructor
  · intro h
    obtain ⟨heq, hprefix⟩ := cons_prefix_cons.mp h.isPrefix
    obtain rfl := Option.some.inj heq
    have hlength := h.length_le (cons_ne_nil _ _)
    rw [subframesLength_cons] at hlength
    obtain ⟨haccepts, hrest⟩ := forall_mem_cons.mp h.accepts
    exact ⟨rfl, ⟨haccepts, by omega⟩, hprefix, hrest, fun _ ↦ by omega⟩
  · rintro ⟨rfl, ⟨haccepts, hle⟩, h⟩
    refine ⟨cons_prefix_cons.mpr ⟨rfl, h.isPrefix⟩,
      forall_mem_cons.mpr ⟨haccepts, h.accepts⟩, fun _ ↦ ?_⟩
    rw [subframesLength_cons]
    by_cases hnil : frames = []
    · rw [hnil]
      exact hle
    · have hlength := h.length_le hnil
      omega

/-- The loop takes the most frames that fit. -/
theorem collect_spec (policy : BasicMsduAggregationPolicy) (firstHeader : Ieee80211DataHeader)
    (aMsduLength : ℕ) (queue : List (Option (DataFrame α))) :
    ∃ frames, policy.collect firstHeader aMsduLength queue =
        (frames, aMsduLength + subframesLength frames) ∧
      policy.Fits firstHeader aMsduLength queue frames ∧
      ∀ frames', policy.Fits firstHeader aMsduLength queue frames' → frames' <+: frames := by
  induction queue generalizing aMsduLength with
  | nil => exact ⟨[], rfl, .nil, fun frames' h ↦ by simpa using h.isPrefix⟩
  | cons head queue ih =>
    cases head with
    | none =>
      refine ⟨[], rfl, .nil, fun frames' h ↦ ?_⟩
      cases frames' with
      | nil => exact nil_prefix
      | cons frame' frames' => exact absurd (cons_prefix_cons.mp h.isPrefix).1 nofun
    | some frame =>
      by_cases heligible : policy.isEligible frame firstHeader aMsduLength = true
      · obtain ⟨frames, hcollect, hfits, hmost⟩ :=
          ih (aMsduLength + frame.data.length + LENGTH_A_MSDU_SUBFRAME_HEADER)
        refine ⟨frame :: frames, ?_, fits_cons_iff.mpr ⟨rfl, heligible, hfits⟩, fun frames' h ↦ ?_⟩
        · rw [collect, if_pos heligible, hcollect, subframesLength_cons]
          simp only [Nat.add_assoc]
        · cases frames' with
          | nil => exact nil_prefix
          | cons frame' frames' =>
            obtain ⟨rfl, -, hrest⟩ := fits_cons_iff.mp h
            exact cons_prefix_cons.mpr ⟨rfl, hmost frames' hrest⟩
      · refine ⟨[], by rw [collect, if_neg heligible]; rfl, .nil, fun frames' h ↦ ?_⟩
        cases frames' with
        | nil => exact nil_prefix
        | cons frame' frames' => exact absurd (fits_cons_iff.mp h).2.1 heligible

/-- A group that may be aggregated. -/
def Aggregatable (policy : BasicMsduAggregationPolicy) (queue : List (Option (DataFrame α)))
    (frames : List (DataFrame α)) : Prop :=
  2 ≤ frames.length ∧ policy.isAggregationPossible frames.length (subframesLength frames) = true ∧
    ∃ first ∈ frames.head?, policy.Fits first.header 0 queue frames

/-- What the frames that the policy returns are to be. -/
structure Sound (policy : BasicMsduAggregationPolicy) (queue : List (Option (DataFrame α)))
    (frames : List (DataFrame α)) : Prop where
  isPrefix : frames.map some <+: queue
  two_le : 2 ≤ frames.length
  group : ∀ frame ∈ frames, ∀ frame' ∈ frames, frame.header.tid = frame'.header.tid ∧
    frame.header.receiverAddress = frame'.header.receiverAddress ∧
    frame.header.transmitterAddress = frame'.header.transmitterAddress
  length_le : ((frameBody frames).length : ℤ) ≤ policy.maxAMsduSize

theorem isAggregationPossible_mono {n n' length length' : ℕ} (hn : n ≤ n')
    (hlength : length ≤ length')
    (h : policy.isAggregationPossible n length = true) :
    policy.isAggregationPossible n' length' = true := by
  simp only [isAggregationPossible, Bool.and_eq_true, Bool.or_eq_true, decide_eq_true_eq] at h ⊢
  omega

/-- The policy returns the most frames that may be aggregated, if there are any. -/
theorem computeAggregateFrames_spec (policy : BasicMsduAggregationPolicy)
    (queue : List (Option (DataFrame α))) :
    (∃ frames, policy.computeAggregateFrames queue = .ok (some frames) ∧
        policy.Aggregatable queue frames ∧
        ∀ frames', policy.Aggregatable queue frames' → frames' <+: frames) ∨
      (∀ frames, policy.computeAggregateFrames queue ≠ .ok (some frames)) ∧
        ∀ frames', ¬policy.Aggregatable queue frames' := by
  -- frames that may be aggregated begin with the head of the queue
  have hhead : ∀ frames', policy.Aggregatable queue frames' → ∃ first rest,
      queue = some first :: rest ∧ policy.Fits first.header 0 queue frames' := by
    rintro frames' ⟨-, -, first, hfirst, hfits⟩
    obtain ⟨frames', rfl⟩ := head?_eq_some_iff.mp hfirst
    obtain ⟨rest, hrest⟩ := hfits.isPrefix
    exact ⟨first, _, hrest.symm, hfits⟩
  match queue with
  | [] | none :: rest =>
    refine .inr ⟨nofun, fun frames' h ↦ ?_⟩
    obtain ⟨first, rest, hqueue, -⟩ := hhead frames' h
    cases hqueue
  | some first :: rest =>
    obtain ⟨frames, hcollect, hfits, hmost⟩ :=
      policy.collect_spec first.header 0 (some first :: rest)
    rw [Nat.zero_add] at hcollect
    have hprefix : ∀ frames', policy.Aggregatable (some first :: rest) frames' →
        frames' <+: frames := by
      intro frames' h
      obtain ⟨first', rest', hqueue, hfits'⟩ := hhead frames' h
      obtain ⟨⟨⟩, -⟩ := cons.inj hqueue
      exact hmost frames' hfits'
    simp only [computeAggregateFrames, hcollect]
    split_ifs with hnone
    · refine .inr ⟨nofun, fun frames' h ↦ ?_⟩
      obtain ⟨more, rfl⟩ := hprefix frames' h
      obtain ⟨hlength, hpossible, -⟩ := h
      have hle : frames'.length ≤ (frames' ++ more).length := by simp
      rcases hnone with hshort | hnot
      · omega
      · refine hnot (isAggregationPossible_mono hle ?_ hpossible)
        rw [subframesLength_append]
        exact Nat.le_add_right _ _
    · rw [not_or, not_not] at hnone
      obtain ⟨frame, frames, rfl⟩ := exists_cons_of_length_pos (show 0 < frames.length by omega)
      obtain rfl := Option.some.inj (cons_prefix_cons.mp hfits.isPrefix).1
      exact .inl ⟨_, rfl, ⟨by omega, hnone.2, frame, rfl, hfits⟩, hprefix⟩

/-- The frames that the policy returns are sound exactly when the padding of frames that the policy
may take leaves them within the limit. -/
theorem sound_computeAggregateFrames_iff (policy : BasicMsduAggregationPolicy)
    (queue : List (Option (DataFrame α))) :
    (∀ frames, policy.computeAggregateFrames queue = .ok (some frames) →
      policy.Sound queue frames) ↔
      ∀ frames, policy.Aggregatable queue frames →
        (subframesLength frames + totalPadding frames : ℕ) ≤ policy.maxAMsduSize := by
  rcases policy.computeAggregateFrames_spec queue with ⟨frames, hcompute, haggregatable, hmost⟩ |
    ⟨hnone, hnot⟩
  · rw [hcompute]
    constructor
    · intro h frames' hframes'
      have hlength := (h frames rfl).length_le
      obtain ⟨more, rfl⟩ := hmost frames' hframes'
      have hpadding := totalPadding_append_le frames' more
      rw [length_frameBody, subframesLength_append] at hlength
      omega
    · intro h frames' hframes'
      obtain rfl := Option.some.inj (Except.ok.inj hframes')
      have hlength := h frames haggregatable
      obtain ⟨htwo, -, first, -, hfits⟩ := haggregatable
      refine ⟨hfits.isPrefix, htwo, fun frame hframe frame' hframe' ↦ ?_, ?_⟩
      · obtain ⟨-, htid, hra, hta⟩ := hfits.accepts frame hframe
        obtain ⟨-, htid', hra', hta'⟩ := hfits.accepts frame' hframe'
        exact ⟨htid.symm.trans htid', hra.symm.trans hra', hta.symm.trans hta'⟩
      · rwa [length_frameBody]
  · exact ⟨fun _ frames' h ↦ absurd h (hnot frames'), fun _ frames h ↦ absurd h (hnone frames)⟩

/-- Two frames with a byte each are 30 bytes long by the policy, and 31 with the padding. -/
theorem not_sound_padded :
    let policy : BasicMsduAggregationPolicy := ⟨true, -1, -1, 30⟩
    let frame : DataFrame ℕ :=
      ⟨{ toDS := false, fromDS := true, receiverAddress := 1, transmitterAddress := 2,
         address3 := 3, tid := 5 }, [6]⟩
    policy.computeAggregateFrames [some frame, some frame] = .ok (some [frame, frame]) ∧
      ((aggregateFrames [frame, frame]).map fun aggregatedFrame ↦ aggregatedFrame.data.length) =
        .ok 31 ∧
      ¬policy.Sound [some frame, some frame] [frame, frame] :=
  ⟨by decide, by decide, fun h ↦ absurd h.length_le (by decide)⟩

end BasicMsduAggregationPolicy

end Inet4.Ieee80211
