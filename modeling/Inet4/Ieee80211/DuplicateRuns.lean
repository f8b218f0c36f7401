import Inet4.Ieee80211.DuplicateRemoval
import Inet4.Machine

/-!
# Duplicates along a run

A transmitter numbers its frames and sends their fragments, each of them again and again with the
retry bit, and a station receives any of the copies.  The station takes exactly the repeated copies
for duplicates when, among the frames that share an entry of its caches, a repeated copy comes right
after the first one, and a copy with the retry bit that comes first has other numbers than the one
before it.
-/

namespace Inet4.Ieee80211

open List Option

variable {R : Type}

/-- A fragment of one of the MSDUs that were numbered. -/
structure FragmentSent where
  msdu : ℕ
  fragment : ℕ
deriving DecidableEq

/-- An MSDU with its number, and the number of its fragments. -/
structure Msdu (R : Type) where
  header : DataOrMgmtHeader R
  fragments : ℕ

/-- The header of a fragment. -/
def Msdu.fragmentHeader (msdu : Msdu R) (fragment : ℕ) (retry : Bool) : DataOrMgmtHeader R :=
  { msdu.header with
    fragmentNumber := fragment
    moreFragments := fragment + 1 < msdu.fragments
    retry := retry }

/-- The receiver and the TID, if the frame has one. -/
def DataOrMgmtHeader.flow (header : DataOrMgmtHeader R) : MacAddress × Option Tid :=
  (header.receiverAddress, if header.type = .ST_DATA_WITH_QOS then some header.tid else none)

/-- A copy that was received, and what `isDuplicate` said. -/
structure Arrival (R : Type) where
  mpdu : FragmentSent
  header : DataOrMgmtHeader R
  duplicate : Bool

/-- The transmitter and the station, what was sent, and what arrived; the last one comes first. -/
structure DuplicateHistory (R : Type) where
  assignment : QoSSequenceNumberAssignment := {}
  msdus : List (Msdu R) := []
  sent : List (FragmentSent × (MacAddress × Option Tid)) := []
  removal : QoSDuplicateRemoval := {}
  arrivals : List (Arrival R) := []

inductive DuplicateEvent (R : Type)
  /-- A packet is taken from the pending queue. -/
  | extract (header : DataOrMgmtHeader R) (fragments : ℕ)
  /-- A copy is sent. -/
  | transmit (mpdu : FragmentSent) (received : Bool)

namespace DuplicateHistory

/-- The fragment of a receiver and TID that was sent last. -/
def lastSent (history : DuplicateHistory R) (flow : MacAddress × Option Tid) :
    Option FragmentSent :=
  (history.sent.find? fun copy ↦ copy.2 = flow).map Prod.fst

/-- The copy that arrived last with an entry of the caches. -/
def lastArrival (arrivals : List (Arrival R)) (key : MacAddress × Option Tid) :
    Option (Arrival R) :=
  arrivals.find? fun arrival ↦ arrival.header.cacheKey = key

/-- Fragments are sent one at a time for each receiver and TID: a fragment is not sent again after
another one.  The station receives what is sent to it or to a group. -/
def Enabled (transmitter station : MacAddress) (history : DuplicateHistory R) :
    DuplicateEvent R → Prop
  | .extract header fragments => header.transmitterAddress = transmitter ∧ 0 < fragments ∧
      fragments ≤ maxNumFragments
  | .transmit mpdu received => ∃ msdu ∈ history.msdus[mpdu.msdu]?, mpdu.fragment < msdu.fragments ∧
      ((∃ copy ∈ history.sent, copy.1 = mpdu) →
        history.lastSent msdu.header.flow = some mpdu) ∧
      (received = true → msdu.header.receiverAddress = station ∨
        MacAddress.isMulticast msdu.header.receiverAddress = true)

def handle (history : DuplicateHistory R) :
    DuplicateEvent R → Except Fault (DuplicateHistory R)
  | .extract header fragments => do
    let (header, assignment) ← assignSequenceNumber history.assignment header
    return { history with
      assignment := assignment
      msdus := history.msdus ++ [⟨header, fragments⟩] }
  | .transmit mpdu received =>
    match history.msdus[mpdu.msdu]? with
    | none => .ok history
    | some msdu =>
      let retry := history.sent.any fun copy ↦ copy.1 = mpdu
      let header := msdu.fragmentHeader mpdu.fragment retry
      let history := { history with sent := (mpdu, msdu.header.flow) :: history.sent }
      if received then
        let (duplicate, removal) := isDuplicate history.removal header
        .ok { history with
          removal := removal
          arrivals := ⟨mpdu, header, duplicate⟩ :: history.arrivals }
      else .ok history

end DuplicateHistory

open DuplicateHistory

/-- A transmitter and a station. -/
def duplicates (R : Type) (transmitter station : MacAddress) :
    Machine (DuplicateHistory R) (DuplicateEvent R) Fault where
  Enabled := Enabled transmitter station
  handle := handle

/-! ## The log of the arrivals -/

/-- A copy is taken for a duplicate exactly when an earlier copy of the fragment was accepted. -/
def Arrival.Exact (arrival : Arrival R) (earlier : List (Arrival R)) : Prop :=
  arrival.duplicate = true ↔
    ∃ other ∈ earlier, other.mpdu = arrival.mpdu ∧ other.duplicate = false

/-- The fragment has arrived before. -/
def Arrival.Repeated (arrival : Arrival R) (earlier : List (Arrival R)) : Prop :=
  ∃ other ∈ earlier, other.mpdu = arrival.mpdu

/-- The copy of the same cache entry that came right before it: for a repeated fragment it has the
same numbers, and for another one, if this copy has the retry bit, it has other numbers. -/
structure Arrival.Fits (arrival : Arrival R) (earlier : List (Arrival R)) : Prop where
  together : arrival.Repeated earlier →
    ∀ last ∈ lastArrival earlier arrival.header.cacheKey, last.header.seqVal = arrival.header.seqVal
  fresh : ¬arrival.Repeated earlier → arrival.header.retry = true →
    ∀ last ∈ lastArrival earlier arrival.header.cacheKey, last.header.seqVal ≠ arrival.header.seqVal

/-- What the transmitter and the caches make true of each copy that arrives. -/
structure Arrival.Recorded (arrival : Arrival R) (earlier : List (Arrival R)) : Prop where
  duplicate : arrival.duplicate = true ↔
    (lastArrival earlier arrival.header.cacheKey).map (fun last ↦ last.header.seqVal) =
      some arrival.header.seqVal ∧ arrival.header.retry = true
  repeated : arrival.Repeated earlier → arrival.header.retry = true ∧
    ∃ last, lastArrival earlier arrival.header.cacheKey = some last

/-- Each copy of a log is as the predicate says. -/
def EachArrival (P : Arrival R → List (Arrival R) → Prop) (arrivals : List (Arrival R)) : Prop :=
  ∀ arrival earlier, arrival :: earlier <:+ arrivals → P arrival earlier

variable {P : Arrival R → List (Arrival R) → Prop}
variable {arrival : Arrival R} {arrivals earlier : List (Arrival R)}

theorem eachArrival_nil : EachArrival P [] := by
  intro arrival earlier hsuffix
  cases suffix_nil.mp hsuffix

theorem eachArrival_cons :
    EachArrival P (arrival :: arrivals) ↔ P arrival arrivals ∧ EachArrival P arrivals := by
  constructor
  · intro h
    refine ⟨h arrival arrivals suffix_rfl, ?_⟩
    intro other earlier hsuffix
    exact h other earlier (hsuffix.trans (suffix_cons arrival arrivals))
  · rintro ⟨hfirst, hrest⟩ other earlier hsuffix
    rcases suffix_cons_iff.mp hsuffix with heq | hsuffix
    · obtain ⟨rfl, rfl⟩ := cons.inj heq
      exact hfirst
    · exact hrest other earlier hsuffix

/-- In a log that is exact, a fragment that arrived was accepted. -/
theorem exists_accepted (h : EachArrival Arrival.Exact earlier) :
    arrival.Repeated earlier ↔
      ∃ other ∈ earlier, other.mpdu = arrival.mpdu ∧ other.duplicate = false := by
  constructor
  · rintro ⟨other, hmem, hmpdu⟩
    cases hduplicate : other.duplicate with
    | false => exact ⟨other, hmem, hmpdu, hduplicate⟩
    | true =>
      obtain ⟨after, before, rfl⟩ := append_of_mem hmem
      have hexact := h other before (suffix_append after _)
      obtain ⟨first, hfirst, hsame, haccepted⟩ := hexact.mp hduplicate
      refine ⟨first, ?_, hsame.trans hmpdu, haccepted⟩
      exact mem_append_right after (mem_cons_of_mem other hfirst)
  · rintro ⟨other, hmem, hmpdu, -⟩
    exact ⟨other, hmem, hmpdu⟩

/-- After a log that is exact, a copy is taken for a duplicate rightly when it fits. -/
theorem Arrival.Recorded.exact_iff (h : arrival.Recorded earlier)
    (hearlier : EachArrival Arrival.Exact earlier) :
    arrival.Exact earlier ↔ arrival.Fits earlier := by
  have hrepeated : arrival.Exact earlier ↔ (arrival.duplicate = true ↔ arrival.Repeated earlier) :=
    iff_congr Iff.rfl (exists_accepted hearlier).symm
  rw [hrepeated, h.duplicate]
  constructor
  · intro hiff
    refine ⟨?_, ?_⟩
    · intro hagain last hlast
      have hsame := (hiff.mpr hagain).1
      rw [mem_def.mp hlast] at hsame
      exact some.inj hsame
    · intro hfirst hretry last hlast hsame
      refine hfirst (hiff.mp ⟨?_, hretry⟩)
      rw [mem_def.mp hlast, map_some, hsame]
  · intro hfits
    constructor
    · rintro ⟨hsame, hretry⟩
      by_contra hfirst
      obtain ⟨last, hlast, heq⟩ := map_eq_some_iff.mp hsame
      exact hfits.fresh hfirst hretry last hlast heq
    · intro hagain
      obtain ⟨hretry, last, hlast⟩ := h.repeated hagain
      refine ⟨?_, hretry⟩
      rw [hlast, map_some, hfits.together hagain last hlast]

theorem exact_iff_fits (h : EachArrival Arrival.Recorded arrivals) :
    EachArrival Arrival.Exact arrivals ↔ EachArrival Arrival.Fits arrivals := by
  induction arrivals with
  | nil => exact iff_of_true eachArrival_nil eachArrival_nil
  | cons arrival earlier ih =>
    rw [eachArrival_cons] at h
    rw [eachArrival_cons, eachArrival_cons, ← ih h.2]
    exact and_congr_left fun hearlier ↦ h.1.exact_iff hearlier

/-! ## Runs -/

variable {transmitter station : MacAddress} {history before after : DuplicateHistory R}
variable {event : DuplicateEvent R} {events : List (DuplicateEvent R)}

theorem assignSequenceNumber_ok (assignment : QoSSequenceNumberAssignment)
    (header : DataOrMgmtHeader R) :
    ∃ seqNum after, assignment.next header = .ok (seqNum, after) ∧
      assignSequenceNumber assignment header =
        .ok ({ header with sequenceNumber := seqNum }, after) := by
  have hnext : ∃ seqNum after, assignment.next header = .ok (seqNum, after) := by
    unfold QoSSequenceNumberAssignment.next getCacheType
    simp only [Bool.false_eq_true, if_false]
    split
    · split <;> exact ⟨_, _, rfl⟩
    · exact ⟨_, _, rfl⟩
    · rename_i htype
      split at htype <;> cases htype
  obtain ⟨seqNum, after, hnext⟩ := hnext
  exact ⟨seqNum, after, hnext, bind_of_ok hnext⟩

/-- The copy of a fragment that is sent next. -/
def DuplicateHistory.nextHeader (history : DuplicateHistory R) (mpdu : FragmentSent)
    (msdu : Msdu R) :
    DataOrMgmtHeader R :=
  msdu.fragmentHeader mpdu.fragment (history.sent.any fun copy ↦ copy.1 = mpdu)

/-- What an event does: an MSDU is numbered, or a fragment is sent and lost, or it is received. -/
theorem duplicates_step (h : (duplicates R transmitter station).Step before event after) :
    (∃ header fragments seqNum assignment, event = .extract header fragments ∧
      before.assignment.next header = .ok (seqNum, assignment) ∧
      after = { before with
        assignment := assignment
        msdus := before.msdus ++ [⟨{ header with sequenceNumber := seqNum }, fragments⟩] }) ∨
    ∃ mpdu msdu, before.msdus[mpdu.msdu]? = some msdu ∧
      (event = .transmit mpdu false ∧
        after = { before with sent := (mpdu, msdu.header.flow) :: before.sent } ∨
      event = .transmit mpdu true ∧
        after = { before with
          sent := (mpdu, msdu.header.flow) :: before.sent
          removal := (isDuplicate before.removal (before.nextHeader mpdu msdu)).2
          arrivals := ⟨mpdu, before.nextHeader mpdu msdu,
            (isDuplicate before.removal
            (before.nextHeader mpdu msdu)).1⟩ :: before.arrivals }) := by
  have hhandle : handle before event = .ok after := h.2
  cases event with
  | extract header fragments =>
    obtain ⟨seqNum, assignment, hnext, hassign⟩ := assignSequenceNumber_ok before.assignment header
    left
    refine ⟨header, fragments, seqNum, assignment, rfl, hnext, ?_⟩
    rw [handle, bind_of_ok hassign] at hhandle
    exact (Except.ok.inj hhandle).symm
  | transmit mpdu received =>
    right
    obtain ⟨msdu, hmsdu, -⟩ := h.1
    refine ⟨mpdu, msdu, hmsdu, ?_⟩
    rw [handle, mem_def.mp hmsdu] at hhandle
    cases received with
    | false => exact .inl ⟨rfl, (Except.ok.inj hhandle).symm⟩
    | true => exact .inr ⟨rfl, (Except.ok.inj hhandle).symm⟩

/-- What is known in every run: the caches have the numbers of the last arrivals, and the copies
that arrived are those of the MSDUs. -/
structure DuplicateHistory.Coherent (history : DuplicateHistory R) : Prop where
  lastSeen : ∀ key, history.removal.lastSeen key =
    (lastArrival history.arrivals key).map fun last ↦ last.header.seqVal
  sent : ∀ arrival ∈ history.arrivals, ∃ copy ∈ history.sent, copy.1 = arrival.mpdu
  header : ∀ arrival ∈ history.arrivals, ∃ msdu ∈ history.msdus[arrival.mpdu.msdu]?, ∃ retry,
    arrival.header = msdu.fragmentHeader arrival.mpdu.fragment retry
  recorded : EachArrival Arrival.Recorded history.arrivals

theorem coherent_initial : ({} : DuplicateHistory R).Coherent := by
  refine ⟨?_, nofun, nofun, eachArrival_nil⟩
  rintro ⟨address, tid⟩
  cases tid <;> rfl

theorem msdu_append {msdus : List (Msdu R)} {msdu : Msdu R} {n : ℕ} (added : Msdu R)
    (h : msdu ∈ msdus[n]?) : msdu ∈ (msdus ++ [added])[n]? := by
  have hlt := (List.getElem?_eq_some_iff.mp h).1
  rwa [List.getElem?_append_left hlt]

theorem DuplicateHistory.Coherent.extract (h : before.Coherent)
    (assignment : QoSSequenceNumberAssignment) (added : Msdu R) :
    { before with assignment := assignment, msdus := before.msdus ++ [added] }.Coherent := by
  refine ⟨h.lastSeen, h.sent, ?_, h.recorded⟩
  intro arrival hmem
  obtain ⟨msdu, hmsdu, hheader⟩ := h.header arrival hmem
  exact ⟨msdu, msdu_append added hmsdu, hheader⟩

theorem DuplicateHistory.Coherent.lost (h : before.Coherent)
    (copy : FragmentSent × (MacAddress × Option Tid)) :
    { before with sent := copy :: before.sent }.Coherent := by
  refine ⟨h.lastSeen, ?_, h.header, h.recorded⟩
  intro arrival hmem
  obtain ⟨sent, hsent, heq⟩ := h.sent arrival hmem
  exact ⟨sent, mem_cons_of_mem copy hsent, heq⟩

theorem lastArrival_cons (key : MacAddress × Option Tid) :
    lastArrival (arrival :: earlier) key =
      if key = arrival.header.cacheKey then some arrival else lastArrival earlier key := by
  unfold lastArrival
  by_cases hkey : arrival.header.cacheKey = key
  · rw [find?_cons_of_pos (by simpa using hkey), if_pos hkey.symm]
  · rw [find?_cons_of_neg (by simpa using hkey), if_neg (Ne.symm hkey)]

theorem exists_lastArrival {other : Arrival R} (h : other ∈ earlier) :
    ∃ last, lastArrival earlier other.header.cacheKey = some last := by
  apply isSome_iff_exists.mp
  unfold lastArrival
  rw [find?_isSome]
  exact ⟨other, h, by simp⟩

theorem DuplicateHistory.Coherent.received (h : before.Coherent) {mpdu : FragmentSent}
    {msdu : Msdu R}
    (hmsdu : before.msdus[mpdu.msdu]? = some msdu) :
    { before with
      sent := (mpdu, msdu.header.flow) :: before.sent
      removal := (isDuplicate before.removal (before.nextHeader mpdu msdu)).2
      arrivals := ⟨mpdu, before.nextHeader mpdu msdu,
        (isDuplicate before.removal (before.nextHeader mpdu msdu)).1⟩ ::
          before.arrivals }.Coherent := by
  refine ⟨?_, ?_, ?_, ?_⟩
  · intro key
    simp only [lastSeen_isDuplicate, lastArrival_cons]
    split
    · rfl
    · exact h.lastSeen key
  · intro arrival hmem
    rcases mem_cons.mp hmem with rfl | hmem
    · exact ⟨_, mem_cons_self, rfl⟩
    · obtain ⟨copy, hcopy, heq⟩ := h.sent arrival hmem
      exact ⟨copy, mem_cons_of_mem _ hcopy, heq⟩
  · intro arrival hmem
    rcases mem_cons.mp hmem with rfl | hmem
    · exact ⟨msdu, hmsdu, _, rfl⟩
    · exact h.header arrival hmem
  · refine eachArrival_cons.mpr ⟨⟨?_, ?_⟩, h.recorded⟩
    · simp only [isDuplicate_iff, h.lastSeen]
    · rintro ⟨other, hmem, rfl⟩
      obtain ⟨copy, hcopy, heq⟩ := h.sent other hmem
      obtain ⟨msdu', hmsdu', retry, hheader⟩ := h.header other hmem
      obtain rfl : msdu' = msdu := some.inj (hmsdu'.symm.trans hmsdu)
      refine ⟨any_eq_true.mpr ⟨copy, hcopy, decide_eq_true heq⟩, ?_⟩
      have hlast := exists_lastArrival hmem
      rw [hheader] at hlast
      exact hlast

theorem DuplicateHistory.Coherent.step (h : before.Coherent)
    (hstep : (duplicates R transmitter station).Step before event after) : after.Coherent := by
  rcases duplicates_step hstep with
    ⟨header, fragments, seqNum, assignment, -, -, rfl⟩ | ⟨mpdu, msdu, hmsdu, ⟨-, rfl⟩ | ⟨-, rfl⟩⟩
  · exact h.extract assignment _
  · exact h.lost _
  · exact h.received hmsdu

/-- In every run, the copies that are taken for duplicates are exactly those of which an earlier
copy was accepted if and only if every copy fits. -/
theorem exact_iff_of_run (hrun : (duplicates R transmitter station).Run {} events history) :
    EachArrival Arrival.Exact history.arrivals ↔ EachArrival Arrival.Fits history.arrivals := by
  have hcoherent : history.Coherent :=
    hrun.invariant (P := DuplicateHistory.Coherent) (fun _ _ _ h hstep ↦ h.step hstep)
      coherent_initial
  exact exact_iff_fits hcoherent.recorded

instance (history : DuplicateHistory R) :
    DecidablePred ((duplicates R transmitter station).Enabled history)
  | .extract .. => inferInstanceAs (Decidable (_ ∧ _))
  | .transmit .. => inferInstanceAs (Decidable (∃ _ ∈ _, _))

/-- A frame from address 4. -/
def frameTo (type : HeaderType) (receiverAddress : MacAddress) : DataOrMgmtHeader Unit where
  type := type
  receiverAddress := receiverAddress
  transmitterAddress := 4
  tid := 0
  sequenceNumber := 0
  fragmentNumber := 0
  moreFragments := false
  retry := false
  chunkLength := 24
  rest := ()

/-- Of three copies the first one is lost. -/
theorem exact_iff_of_run_three :
    ∃ history, (duplicates Unit 4 2).Run {}
        [.extract (frameTo .ST_DATA_WITH_QOS 2) 1, .transmit ⟨0, 0⟩ false, .transmit ⟨0, 0⟩ true,
          .transmit ⟨0, 0⟩ true] history ∧
      history.arrivals.map Arrival.duplicate = [true, false] ∧
      (EachArrival Arrival.Exact history.arrivals ↔ EachArrival Arrival.Fits history.arrivals) := by
  refine Machine.exists_run_and (by decide +kernel) fun history hrun hduplicate ↦ ?_
  exact exact_iff_of_run hrun

/-- A broadcast and the first management frame to the station get the same number.  The first copy
of the second one is lost, and the station drops the copy with the retry bit. -/
theorem dropped_after_broadcast :
    ∃ history, (duplicates Unit 4 2).Run {}
        [.extract (frameTo .management (BitVec.allOnes 48)) 1, .transmit ⟨0, 0⟩ true,
          .extract (frameTo .management 2) 1, .transmit ⟨1, 0⟩ false, .transmit ⟨1, 0⟩ true]
        history ∧
      ¬EachArrival Arrival.Exact history.arrivals := by
  refine Machine.exists_run_imp (fun history ↦ history.arrivals.map (fun arrival ↦ (arrival.mpdu,
    arrival.duplicate)) = [(⟨1, 0⟩, true), (⟨0, 0⟩, false)]) (by decide +kernel) ?_
  intro history hrun hlog hexact
  obtain ⟨last, earlier, hcons, hlast, hearlier⟩ := map_eq_cons_iff.mp hlog
  rw [hcons] at hexact
  obtain ⟨hmpdu, hduplicate⟩ := Prod.mk.inj hlast
  obtain ⟨other, hmem, hsame, -⟩ := (hexact last earlier suffix_rfl).mp hduplicate
  have hother := mem_map_of_mem (f := fun arrival ↦ (arrival.mpdu, arrival.duplicate)) hmem
  rw [hearlier, mem_singleton] at hother
  have hfirst := congrArg Prod.fst hother
  rw [hsame, hmpdu] at hfirst
  cases hfirst

end Inet4.Ieee80211
