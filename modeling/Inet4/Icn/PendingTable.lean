import Inet4.Icn.Packet
import Inet4.MultiMap

/-!
# The table of pending GETs

`colorPendingGetTable` stores, for each SID, the GETs that wait for its Data, and one timer message.
A timer message is identified by the number of its allocation.  The fields of an entry that no
modelled function reads (`TTL`, `type`, `served`, `isConsumer`) are left out.
-/

namespace Inet4.Icn

open MultiMap

structure PITentry where
  nid : NID
  mac : MacAddress
  nonce : ℤ
  deriving DecidableEq

/-- `cMessage *` of an entry timer. -/
abbrev PitTimer := ℕ

/-- What the memory of a `cMessage` reads as once the message has been deleted. -/
inductive DeletedMessage
  /-- Still as the message, which is in no future event set. -/
  | intact
  | overwritten
  deriving DecidableEq

/-- `colorPendingGetTable`; `scheduled` are its timers in the future event set. -/
structure ColorPendingGetTable where
  /-- The constructor `NID(T &)`, which hashes the bytes of its argument, with those of the `test`
  that belongs to its value. -/
  hash : NID → NID
  table : MultiMap SID PITentry := empty
  sids : AssocMap SID PitTimer := ∅
  timers : AssocMap PitTimer SID := ∅
  scheduled : SelfMessages PitTimer := ∅
  nextTimer : ℕ := 0

namespace ColorPendingGetTable

def capacity : ℕ := 100

def getLength (pit : ColorPendingGetTable) : ℕ := pit.sids.size

def haveSID (pit : ColorPendingGetTable) (sid : SID) : Bool := pit.table.contains sid

/-- `haveEntry` looks at the first entry of the SID only. -/
def haveEntry (pit : ColorPendingGetTable) (sid : SID) (nonce : ℤ) : Bool :=
  match pit.table.equalRange sid with
  | [] => false
  | first :: _ => first.nonce = nonce

def findPITentry (pit : ColorPendingGetTable) (sid : SID) : List PITentry :=
  pit.table.equalRange sid

/-- The constructor of an entry initialises `nid` from a parameter that is not `const`.  So `NID(T
&)` is preferred to the copy constructor, and the entry holds a hash of the identifier. -/
def createEntry (pit : ColorPendingGetTable) (now : SimTime) (sid : SID) (nid : NID)
    (mac : MacAddress) (t : SimTime) (nonce : ℤ) : Except Fault ColorPendingGetTable :=
  if (pit.table.equalRange sid).any fun iter ↦ iter.nonce = nonce then
    .ok pit
  else do
    let table := pit.table.insert sid ⟨pit.hash nid, mac, nonce⟩
    match pit.sids.find sid with
    | some timer =>
      let scheduled ← (pit.scheduled.cancelEvent timer).scheduleAt now timer (now + t)
      return { pit with table, scheduled }
    | none =>
      let newTimer := pit.nextTimer
      let scheduled ← pit.scheduled.scheduleAt now newTimer (now + t)
      return { pit with
        table, scheduled
        timers := pit.timers.assign newTimer sid
        sids := pit.sids.assign sid newTimer
        nextTimer := pit.nextTimer + 1 }

/-- `RemoveEntry` dereferences the iterator it finds without a check. -/
def removeEntry (pit : ColorPendingGetTable) (sid : SID) : Except Fault ColorPendingGetTable :=
  match pit.sids.find sid with
  | none => .error .undefinedBehaviour
  | some pointer =>
    .ok { pit with
      timers := pit.timers.remove pointer
      scheduled := pit.scheduled.cancelEvent pointer
      table := pit.table.erase sid
      sids := pit.sids.remove sid }

/-- `handleMessage`: a timer has expired, which the kernel has taken out of the future event set. -/
def handleMessage (pit : ColorPendingGetTable) (msg : PitTimer) (deleted : DeletedMessage) :
    Except Fault ColorPendingGetTable :=
  match pit.timers.find msg with
  | none => .error .undefinedBehaviour
  | some sid => do
    let pit ← { pit with scheduled := pit.scheduled.remove msg }.removeEntry sid
    -- `RemoveEntry` has deleted `msg`, and `cancelEvent` looks into it.
    match deleted with
    | .intact => return { pit with scheduled := pit.scheduled.cancelEvent msg }
    | .overwritten => .error .undefinedBehaviour

/-- Every SID with an entry has a timer. -/
def Coherent (pit : ColorPendingGetTable) : Prop :=
  ∀ sid, pit.haveSID sid → sid ∈ pit.sids

variable {pit pit' : ColorPendingGetTable} {now t : SimTime} {sid sid' : SID} {nid : NID}
variable {mac : MacAddress} {nonce : ℤ} {msg : PitTimer} {deleted : DeletedMessage}

theorem coherent_empty (hash : NID → NID) : Coherent { hash } := by
  intro sid h
  simp [haveSID] at h

theorem haveSID_of_haveEntry (h : pit.haveEntry sid nonce) : pit.haveSID sid := by
  unfold haveEntry at h
  rw [haveSID, contains_iff]
  intro hnil
  simp [hnil] at h

/-- After `createEntry` the SID has a record, and no other SID has gained or lost one. -/
theorem haveSID_createEntry (h : pit.createEntry now sid nid mac t nonce = .ok pit') :
    pit'.haveSID sid' ↔ sid' = sid ∨ pit.haveSID sid' := by
  unfold createEntry at h
  split at h
  · rename_i hknown
    obtain rfl := Except.ok.inj h
    have hrecord : pit.haveSID sid := by
      rw [haveSID, contains_iff]
      intro hnil
      simp [hnil] at hknown
    constructor
    · exact Or.inr
    · rintro (rfl | hhave)
      · exact hrecord
      · exact hhave
  · simp only [] at h
    split at h
    · obtain ⟨scheduled, -, rfl⟩ := bind_pure_eq_ok h
      exact contains_insert
    · obtain ⟨scheduled, -, rfl⟩ := bind_pure_eq_ok h
      exact contains_insert

theorem coherent_createEntry (hpit : pit.Coherent)
    (h : pit.createEntry now sid nid mac t nonce = .ok pit') : pit'.Coherent := by
  intro sid' hhave
  have hhave' := (haveSID_createEntry h).mp hhave
  unfold createEntry at h
  split at h
  · obtain rfl := Except.ok.inj h
    exact hpit sid' hhave
  · simp only [] at h
    split at h
    · rename_i timer hfind
      obtain ⟨scheduled, -, rfl⟩ := bind_pure_eq_ok h
      rcases hhave' with rfl | hhave'
      · exact AssocMap.mem_iff_find.mpr ⟨timer, hfind⟩
      · exact hpit sid' hhave'
    · obtain ⟨scheduled, -, rfl⟩ := bind_pure_eq_ok h
      refine AssocMap.mem_assign.mpr ?_
      rcases hhave' with rfl | hhave'
      · exact .inl rfl
      · exact .inr (hpit sid' hhave')

/-- `RemoveEntry` removes the record of one SID. -/
theorem haveSID_removeEntry (h : pit.removeEntry sid = .ok pit') :
    pit'.haveSID sid' ↔ sid' ≠ sid ∧ pit.haveSID sid' := by
  unfold removeEntry at h
  split at h
  · cases h
  · obtain rfl := Except.ok.inj h
    exact contains_erase

theorem coherent_removeEntry (hpit : pit.Coherent) (h : pit.removeEntry sid = .ok pit') :
    pit'.Coherent := by
  intro sid' hhave
  have hhave' := (haveSID_removeEntry h).mp hhave
  unfold removeEntry at h
  split at h
  · cases h
  · obtain rfl := Except.ok.inj h
    exact AssocMap.mem_remove.mpr ⟨hhave'.1, hpit sid' hhave'.2⟩

theorem removeEntry_ok (hpit : pit.Coherent) (h : pit.haveSID sid) :
    ∃ pit', pit.removeEntry sid = .ok pit' := by
  obtain ⟨timer, hfind⟩ := AssocMap.mem_iff_find.mp (hpit sid h)
  simp only [removeEntry, hfind]
  exact ⟨_, rfl⟩

/-- An expired timer removes the record of its SID, if the deleted message can still be read. -/
theorem handleMessage_eq_ok (h : pit.handleMessage msg deleted = .ok pit') :
    deleted = .intact ∧ ∃ sid scheduled, pit.timers.find msg = some sid ∧
      (∀ timer, timer ≠ msg → scheduled.find timer = pit.scheduled.find timer) ∧
      { pit with scheduled }.removeEntry sid = .ok pit' := by
  unfold handleMessage at h
  split at h
  · cases h
  · rename_i sid hsid
    obtain ⟨removed, hremove, h⟩ := bind_eq_ok h
    cases deleted with
    | overwritten => cases h
    | intact =>
      obtain rfl := Except.ok.inj h
      refine ⟨rfl, sid, (pit.scheduled.cancelEvent msg).cancelEvent msg, hsid, ?_, ?_⟩
      · intro timer htimer
        simp [htimer]
      · unfold removeEntry at hremove ⊢
        dsimp only at hremove ⊢
        split at hremove
        · cases hremove
        · obtain rfl := Except.ok.inj hremove
          have hcommutes (pointer : PitTimer) :
              ((pit.scheduled.cancelEvent msg).cancelEvent msg).cancelEvent pointer =
                ((pit.scheduled.cancelEvent msg).cancelEvent pointer).cancelEvent msg :=
            AList.erase_erase msg pointer _
          rw [hcommutes]
          rfl

end ColorPendingGetTable

end Inet4.Icn
