import Inet4.Kernel
import Inet4.Icn.Field
import Mathlib.Tactic.Linarith

/-!
# The send queue of a PCCP consumer

`PccpSendQueue` keeps a requested SID in one of three places: `unsentSidQueue` before its first
transmission, four maps while it is in flight, and `rexmitQueue` while a timed-out request waits
for the window to reopen.  The maps share their set of SIDs, and `sidToTimerMap` and
`timerToSidMap` are inverse to each other; `WellFormed` states this together with the fact that no
SID is in two places, and every operation preserves it.

A timer message is identified by the number of its allocation, so that a new one differs from
every timer that is still in use.
-/

namespace Inet4.Pccp

open Icn List AssocMap

/-- `cMessage *` of a retransmission timer. -/
abbrev Timer := ℕ

structure TimeoutRequest where
  sid : SID
  timer : Timer
  rexmitCount : ℤ
  firstTransTime : SimTime
  deriving DecidableEq

/-- `PccpSendQueue`; `nextTimer` is the next message the allocator hands out. -/
structure PccpSendQueue where
  sidToTimerMap : AssocMap SID Timer := ∅
  timerToSidMap : AssocMap Timer SID := ∅
  sidRexmitCount : AssocMap SID ℤ := ∅
  firstTransTime : AssocMap SID SimTime := ∅
  unsentSidQueue : List SID := []
  rexmitQueue : List TimeoutRequest := []
  nextTimer : ℕ := 0

namespace PccpSendQueue

def enqueueRequest (q : PccpSendQueue) (sid : SID) : PccpSendQueue :=
  { q with unsentSidQueue := q.unsentSidQueue ++ [sid] }

/-- `findRexmitTimer`; `none` is the null pointer. -/
def findRexmitTimer (q : PccpSendQueue) (sid : SID) : Option Timer := q.sidToTimerMap.find sid

/-- `findSID` dereferences the iterator it finds without a check. -/
def findSID (q : PccpSendQueue) (rexmitTimer : Timer) : Except Fault SID :=
  match q.timerToSidMap.find rexmitTimer with
  | some sid => .ok sid
  | none => .error .undefinedBehaviour

def hasUnsentSID (q : PccpSendQueue) : Bool := !q.unsentSidQueue.isEmpty

def hasUnsentRexmit (q : PccpSendQueue) : Bool := !q.rexmitQueue.isEmpty

def getSentRequestCount (q : PccpSendQueue) : ℕ := q.sidToTimerMap.size

/-- `getRexmitCount` reads through the index operator. -/
def getRexmitCount (q : PccpSendQueue) (sid : SID) : ℤ × PccpSendQueue :=
  let (count, counts) := q.sidRexmitCount.index sid 0
  (count, { q with sidRexmitCount := counts })

def increaseRexmitCount (q : PccpSendQueue) (sid : SID) : PccpSendQueue :=
  let (count, counts) := q.sidRexmitCount.index sid 0
  { q with sidRexmitCount := counts.assign sid (count + 1) }

/-- `getFirstTransTime` reads through the index operator. -/
def getFirstTransTime (q : PccpSendQueue) (sid : SID) : SimTime × PccpSendQueue :=
  let (time, times) := q.firstTransTime.index sid 0
  (time, { q with firstTransTime := times })

/-- The four `insert` calls with which a request enters the maps. -/
def insertMaps (q : PccpSendQueue) (r : TimeoutRequest) : PccpSendQueue :=
  { q with
    sidToTimerMap := q.sidToTimerMap.emplace r.sid r.timer
    timerToSidMap := q.timerToSidMap.emplace r.timer r.sid
    sidRexmitCount := q.sidRexmitCount.emplace r.sid r.rexmitCount
    firstTransTime := q.firstTransTime.emplace r.sid r.firstTransTime }

/-- The four `erase` calls with which a request leaves the maps. -/
def eraseMaps (q : PccpSendQueue) (sid : SID) (timer : Timer) : PccpSendQueue :=
  { q with
    sidToTimerMap := q.sidToTimerMap.remove sid
    timerToSidMap := q.timerToSidMap.remove timer
    sidRexmitCount := q.sidRexmitCount.remove sid
    firstTransTime := q.firstTransTime.remove sid }

/-- `popOneUnsentSID`; its precondition is `hasUnsentSID`. -/
def popOneUnsentSID (q : PccpSendQueue) (now : SimTime) : Except Fault (SID × PccpSendQueue) :=
  match q.unsentSidQueue with
  | [] => .error .undefinedBehaviour
  | sid :: rest =>
    let popped : PccpSendQueue :=
      { q with unsentSidQueue := rest, nextTimer := q.nextTimer + 1 }
    .ok (sid, popped.insertMaps ⟨sid, q.nextTimer, 0, now⟩)

/-- `popOneUnsentRexmit`; its precondition is `hasUnsentRexmit`. -/
def popOneUnsentRexmit (q : PccpSendQueue) : Except Fault (SID × PccpSendQueue) :=
  match q.rexmitQueue with
  | [] => .error .undefinedBehaviour
  | r :: rest =>
    let popped : PccpSendQueue := { q with rexmitQueue := rest }
    .ok (r.sid, popped.insertMaps r)

/-- `discard` dereferences the iterator it finds without a check. -/
def discard (q : PccpSendQueue) (sid : SID) : Except Fault PccpSendQueue :=
  match q.sidToTimerMap.find sid with
  | some timer => .ok (q.eraseMaps sid timer)
  | none => .error .undefinedBehaviour

/-- `enqueueRexmit`.  The precondition is that the request is in flight; without it the null
pointer would be queued as the timer of the request. -/
def enqueueRexmit (q : PccpSendQueue) (sid : SID) : Except Fault PccpSendQueue :=
  match q.findRexmitTimer sid with
  | none => .error .undefinedBehaviour
  | some timer =>
    let (count, q) := q.getRexmitCount sid
    let (time, q) := q.getFirstTransTime sid
    let parked : PccpSendQueue :=
      { q with rexmitQueue := q.rexmitQueue ++ [⟨sid, timer, count, time⟩] }
    .ok (parked.eraseMaps sid timer)

/-- The SIDs waiting in `rexmitQueue`. -/
def parkedSids (q : PccpSendQueue) : List SID := q.rexmitQueue.map TimeoutRequest.sid

/-- A SID waits for transmission in one of the two queues. -/
def Waiting (q : PccpSendQueue) (sid : SID) : Prop :=
  sid ∈ q.unsentSidQueue ∨ sid ∈ q.parkedSids

/-- The SIDs in flight. -/
def inFlight (q : PccpSendQueue) : List SID := q.sidToTimerMap.keys

/-- How often a SID occurs in `unsentSidQueue`, the in-flight maps and `rexmitQueue` together. -/
def occurrences (q : PccpSendQueue) (sid : SID) : ℕ :=
  q.unsentSidQueue.count sid + q.inFlight.count sid + q.parkedSids.count sid

/-- The consistency of the six containers. -/
structure WellFormed (q : PccpSendQueue) : Prop where
  countKeys : ∀ sid, sid ∈ q.sidRexmitCount ↔ sid ∈ q.sidToTimerMap
  timeKeys : ∀ sid, sid ∈ q.firstTransTime ↔ sid ∈ q.sidToTimerMap
  inverse : ∀ sid timer,
    q.sidToTimerMap.find sid = some timer ↔ q.timerToSidMap.find timer = some sid
  once : ∀ sid, q.occurrences sid ≤ 1
  parkedFree : ∀ r ∈ q.rexmitQueue, r.timer ∉ q.timerToSidMap
  parkedNodup : (q.rexmitQueue.map TimeoutRequest.timer).Nodup
  allocated : ∀ timer ∈ q.timerToSidMap, timer < q.nextTimer
  parkedAllocated : ∀ r ∈ q.rexmitQueue, r.timer < q.nextTimer

theorem wellFormed_empty : WellFormed {} where
  countKeys _ := Iff.rfl
  timeKeys _ := Iff.rfl
  inverse _ _ := by simp
  once _ := by simp [occurrences, parkedSids, inFlight]
  parkedFree r hr := by simp at hr
  parkedNodup := by simp
  allocated timer h := by simp at h
  parkedAllocated r hr := by simp at hr

variable {q q' : PccpSendQueue} {sid sid' : SID} {timer : Timer} {now : SimTime}

theorem waiting_iff_pos (q : PccpSendQueue) (sid : SID) :
    q.Waiting sid ↔ 0 < q.unsentSidQueue.count sid + q.parkedSids.count sid := by
  simp only [Waiting, ← count_pos_iff]
  omega

/-- A SID that does not wait occurs exactly when it is in flight. -/
theorem occurrences_of_not_waiting (h : ¬q.Waiting sid) :
    q.occurrences sid = q.inFlight.count sid := by
  rw [waiting_iff_pos] at h
  simp only [occurrences]
  omega

theorem WellFormed.not_waiting_of_mem (hq : q.WellFormed) (h : sid ∈ q.sidToTimerMap) :
    ¬q.Waiting sid := by
  have honce := hq.once sid
  have hkey : q.inFlight.count sid = 1 := count_keys_of_mem h
  rw [occurrences, hkey] at honce
  rw [waiting_iff_pos]
  omega

theorem notMem_of_occurrences (h : q.occurrences sid = 0) : sid ∉ q.sidToTimerMap := by
  intro hmem
  have hkey : q.inFlight.count sid = 1 := count_keys_of_mem hmem
  rw [occurrences, hkey] at h
  omega

theorem WellFormed.mem_timers (hq : q.WellFormed) (h : q.sidToTimerMap.find sid = some timer) :
    timer ∈ q.timerToSidMap :=
  mem_iff_find.mpr ⟨sid, (hq.inverse sid timer).mp h⟩

theorem occurrences_insertMaps (r : TimeoutRequest) (h : r.sid ∉ q.sidToTimerMap) :
    (q.insertMaps r).occurrences sid = q.occurrences sid + if sid = r.sid then 1 else 0 := by
  have hkeys : (q.insertMaps r).inFlight.count sid =
      q.inFlight.count sid + if sid = r.sid then 1 else 0 :=
    count_keys_emplace_of_notMem h
  rw [occurrences, occurrences, hkeys]
  simp only [insertMaps, parkedSids]
  omega

theorem occurrences_eraseMaps (hq : q.WellFormed) (h : sid ∈ q.sidToTimerMap) :
    (q.eraseMaps sid timer).occurrences sid' =
      if sid' = sid then 0 else q.occurrences sid' := by
  have hkeys : (q.eraseMaps sid timer).inFlight.count sid' =
      if sid' = sid then 0 else q.inFlight.count sid' := count_keys_remove
  rw [occurrences, hkeys]
  split
  · rename_i hs
    have hwait := hq.not_waiting_of_mem h
    rw [waiting_iff_pos] at hwait
    simp only [eraseMaps, parkedSids, hs] at hwait ⊢
    omega
  · rfl

theorem size_insertMaps (r : TimeoutRequest) (h : r.sid ∉ q.sidToTimerMap) :
    (q.insertMaps r).getSentRequestCount = q.getSentRequestCount + 1 :=
  size_emplace_of_notMem h

theorem size_eraseMaps (timer : Timer) (h : sid ∈ q.sidToTimerMap) :
    (q.eraseMaps sid timer).getSentRequestCount + 1 = q.getSentRequestCount :=
  size_remove_of_mem h

theorem occurrences_enqueueRequest :
    (q.enqueueRequest sid).occurrences sid' =
      q.occurrences sid' + if sid' = sid then 1 else 0 := by
  simp only [occurrences, enqueueRequest, inFlight, parkedSids, count_append,
    count_singleton, beq_iff_eq, eq_comm (a := sid)]
  omega

theorem wellFormed_enqueueRequest (hq : q.WellFormed) (h : q.occurrences sid = 0) :
    (q.enqueueRequest sid).WellFormed where
  countKeys := hq.countKeys
  timeKeys := hq.timeKeys
  inverse := hq.inverse
  once sid' := by
    have honce := hq.once sid'
    rw [occurrences_enqueueRequest]
    split
    · rename_i hs
      rw [hs, h]
    · omega
  parkedFree := hq.parkedFree
  parkedNodup := hq.parkedNodup
  allocated := hq.allocated
  parkedAllocated := hq.parkedAllocated

/-- The SID and the timer of a request are used nowhere in the queue. -/
structure Admits (q : PccpSendQueue) (r : TimeoutRequest) : Prop where
  sid : q.occurrences r.sid = 0
  timer : r.timer ∉ q.timerToSidMap
  parked : ∀ p ∈ q.rexmitQueue, p.timer ≠ r.timer
  allocated : r.timer < q.nextTimer

variable {r : TimeoutRequest}

/-- A request whose SID and timer are both free may enter the maps. -/
theorem wellFormed_insertMaps (hq : q.WellFormed) (h : q.Admits r) :
    (q.insertMaps r).WellFormed := by
  have hfree := notMem_of_occurrences h.sid
  have htimer := h.timer
  refine ⟨?_, ?_, ?_, ?_, ?_, hq.parkedNodup, ?_, hq.parkedAllocated⟩
  · intro sid
    simp [insertMaps, hq.countKeys]
  · intro sid
    simp [insertMaps, hq.timeKeys]
  · intro sid timer
    simp only [insertMaps, find_emplace_of_notMem hfree,
      find_emplace_of_notMem htimer]
    have hinv := hq.inverse sid timer
    by_cases hs : sid = r.sid <;> by_cases ht : timer = r.timer
    · simp [hs, ht]
    · subst hs
      have hnone : q.timerToSidMap.find timer ≠ some r.sid := by
        rw [Ne, ← hinv, find_eq_none.mpr hfree]
        simp
      simp [ht, hnone, Ne.symm ht]
    · subst ht
      have hnone : q.sidToTimerMap.find sid ≠ some r.timer := by
        rw [Ne, hinv, find_eq_none.mpr htimer]
        simp
      simp [hs, hnone, Ne.symm hs]
    · simpa [hs, ht] using hinv
  · intro sid
    have honce := hq.once sid
    rw [occurrences_insertMaps r hfree]
    split
    · rename_i hs
      rw [hs, h.sid]
    · omega
  · intro p hp
    simp only [insertMaps, mem_emplace, not_or]
    exact ⟨h.parked p hp, hq.parkedFree p hp⟩
  · intro timer htimer'
    rcases mem_emplace.mp htimer' with rfl | hmem
    · exact h.allocated
    · exact hq.allocated timer hmem

/-- A request in flight may leave the maps. -/
theorem wellFormed_eraseMaps (hq : q.WellFormed) (h : q.sidToTimerMap.find sid = some timer) :
    (q.eraseMaps sid timer).WellFormed := by
  have hmem : sid ∈ q.sidToTimerMap := mem_iff_find.mpr ⟨timer, h⟩
  refine ⟨?_, ?_, ?_, ?_, ?_, hq.parkedNodup, ?_, hq.parkedAllocated⟩
  · intro sid'
    simp [eraseMaps, hq.countKeys]
  · intro sid'
    simp [eraseMaps, hq.timeKeys]
  · intro sid' timer'
    simp only [eraseMaps, find_remove]
    have hinv := hq.inverse sid' timer'
    have htimer := (hq.inverse sid timer).mp h
    by_cases hs : sid' = sid <;> by_cases ht : timer' = timer
    · simp [hs, ht]
    · subst hs
      have hnone : q.timerToSidMap.find timer' ≠ some sid' := by
        rw [Ne, ← hinv, h]
        simpa using Ne.symm ht
      simp [ht, hnone]
    · subst ht
      have hnone : q.sidToTimerMap.find sid' ≠ some timer' := by
        rw [Ne, hinv, htimer]
        simpa using Ne.symm hs
      simp [hs, hnone]
    · simpa [hs, ht] using hinv
  · intro sid'
    have honce := hq.once sid'
    rw [occurrences_eraseMaps hq hmem]
    split <;> omega
  · intro p hp
    simp only [eraseMaps, mem_remove, not_and]
    exact fun _ ↦ hq.parkedFree p hp
  · intro timer' htimer'
    exact hq.allocated timer' (mem_remove.mp htimer').2

/-- Append a request to `rexmitQueue`. -/
def park (q : PccpSendQueue) (r : TimeoutRequest) : PccpSendQueue :=
  { q with rexmitQueue := q.rexmitQueue ++ [r] }

theorem occurrences_park :
    (q.park r).occurrences sid = q.occurrences sid + if sid = r.sid then 1 else 0 := by
  simp only [occurrences, park, inFlight, parkedSids, map_append, map_cons,
    map_nil, count_append, count_singleton, beq_iff_eq, eq_comm (a := r.sid)]
  omega

theorem wellFormed_park (hq : q.WellFormed) (h : q.Admits r) : (q.park r).WellFormed := by
  refine ⟨hq.countKeys, hq.timeKeys, hq.inverse, ?_, ?_, ?_, hq.allocated, ?_⟩
  · intro sid
    have honce := hq.once sid
    rw [occurrences_park]
    split
    · rename_i hs
      rw [hs, h.sid]
    · omega
  · intro p hp
    rcases mem_append.mp hp with hp | hp
    · exact hq.parkedFree p hp
    · obtain rfl := mem_singleton.mp hp
      exact h.timer
  · simp only [park, map_append, map_cons, map_nil]
    refine nodup_append.mpr ⟨hq.parkedNodup, by simp, ?_⟩
    intro timer ht timer' ht'
    obtain ⟨p, hp, rfl⟩ := mem_map.mp ht
    obtain rfl := mem_singleton.mp ht'
    exact h.parked p hp
  · intro p hp
    rcases mem_append.mp hp with hp | hp
    · exact hq.parkedAllocated p hp
    · obtain rfl := mem_singleton.mp hp
      exact h.allocated

/-- The queue admits a request that the other one has at the head of one of its queues. -/
structure Pops (q q' : PccpSendQueue) (r : TimeoutRequest) : Prop where
  wellFormed : q'.WellFormed
  admits : q'.Admits r
  occurrences : ∀ sid, q.occurrences sid = q'.occurrences sid + if sid = r.sid then 1 else 0
  timers : q'.timerToSidMap = q.timerToSidMap
  size : q'.getSentRequestCount = q.getSentRequestCount

/-- The request at the head of `rexmitQueue` is taken out of it. -/
theorem pops_rexmit {rest : List TimeoutRequest} (hq : q.WellFormed) (h : q.rexmitQueue = r :: rest)
    : Pops q { q with rexmitQueue := rest } r := by
  let q' : PccpSendQueue := { q with rexmitQueue := rest }
  have hocc : ∀ sid, q.occurrences sid = q'.occurrences sid + if sid = r.sid then 1 else 0 := by
    intro sid
    simp only [PccpSendQueue.occurrences, parkedSids, inFlight, q', h, map_cons,
      count_cons, beq_iff_eq, eq_comm (a := r.sid)]
    omega
  have hmem : r ∈ q.rexmitQueue := by
    rw [h]
    exact mem_cons_self
  have hsub : ∀ p ∈ q'.rexmitQueue, p ∈ q.rexmitQueue := by
    intro p hp
    rw [h]
    exact mem_cons_of_mem r hp
  have hnodup := hq.parkedNodup
  rw [h, map_cons, nodup_cons] at hnodup
  have hwf : q'.WellFormed :=
    { hq with
      once := fun sid ↦ by
        have honce := hq.once sid
        rw [hocc] at honce
        omega
      parkedFree := fun p hp ↦ hq.parkedFree p (hsub p hp)
      parkedNodup := hnodup.2
      parkedAllocated := fun p hp ↦ hq.parkedAllocated p (hsub p hp) }
  refine ⟨hwf, ⟨?_, hq.parkedFree r hmem, ?_, hq.parkedAllocated r hmem⟩, hocc, rfl, rfl⟩
  · have honce := hq.once r.sid
    rw [hocc, if_pos rfl] at honce
    show q'.occurrences r.sid = 0
    omega
  · intro p hp heq
    exact hnodup.1 (mem_map.mpr ⟨p, hp, heq⟩)

theorem popOneUnsentRexmit_spec {rest : List TimeoutRequest} (hq : q.WellFormed)
    (h : q.rexmitQueue = r :: rest) :
    ∃ q', q.popOneUnsentRexmit = .ok (r.sid, q'.insertMaps r) ∧ Pops q q' r := by
  refine ⟨{ q with rexmitQueue := rest }, ?_, pops_rexmit hq h⟩
  simp only [popOneUnsentRexmit, h]

/-- The SID at the head of `unsentSidQueue` is taken out of it; the timer of its first transmission
is allocated on the spot. -/
theorem pops_unsent {rest : List SID} (now : SimTime) (hq : q.WellFormed)
    (h : q.unsentSidQueue = sid :: rest) :
    Pops q { q with unsentSidQueue := rest, nextTimer := q.nextTimer + 1 }
      ⟨sid, q.nextTimer, 0, now⟩ := by
  let q' : PccpSendQueue := { q with unsentSidQueue := rest, nextTimer := q.nextTimer + 1 }
  have hocc : ∀ sid', q.occurrences sid' =
      q'.occurrences sid' + if sid' = sid then 1 else 0 := by
    intro sid'
    simp only [PccpSendQueue.occurrences, parkedSids, inFlight, q', h, count_cons,
      beq_iff_eq, eq_comm (a := sid)]
    omega
  have hwf : q'.WellFormed :=
    { hq with
      once := fun sid' ↦ by
        have honce := hq.once sid'
        rw [hocc] at honce
        omega
      allocated := fun timer htimer ↦ Nat.lt_succ_of_lt (hq.allocated timer htimer)
      parkedAllocated := fun p hp ↦ Nat.lt_succ_of_lt (hq.parkedAllocated p hp) }
  refine ⟨hwf, ⟨?_, ?_, ?_, Nat.lt_succ_self _⟩, hocc, rfl, rfl⟩
  · have honce := hq.once sid
    rw [hocc, if_pos rfl] at honce
    show q'.occurrences sid = 0
    omega
  · intro hmem
    exact absurd (hq.allocated _ hmem) (Nat.lt_irrefl _)
  · intro p hp
    exact Nat.ne_of_lt (hq.parkedAllocated p hp)

/-- The timer of a first transmission is allocated on the spot. -/
theorem popOneUnsentSID_spec {rest : List SID} (now : SimTime) (hq : q.WellFormed)
    (h : q.unsentSidQueue = sid :: rest) :
    ∃ q' timer, q.popOneUnsentSID now = .ok (sid, q'.insertMaps ⟨sid, timer, 0, now⟩) ∧
      Pops q q' ⟨sid, timer, 0, now⟩ ∧ q'.rexmitQueue = q.rexmitQueue := by
  refine ⟨{ q with unsentSidQueue := rest, nextTimer := q.nextTimer + 1 }, q.nextTimer, ?_,
    pops_unsent now hq h, rfl⟩
  simp only [popOneUnsentSID, h]

theorem discard_eq (h : q.sidToTimerMap.find sid = some timer) :
    q.discard sid = .ok (q.eraseMaps sid timer) := by
  simp only [discard, h]

theorem findSID_eq (h : q.timerToSidMap.find timer = some sid) :
    q.findSID timer = .ok sid := by
  simp only [findSID, h]

/-- The reads through the index operator find their entries, so that moving a request to
`rexmitQueue` only erases it from the maps and appends it. -/
theorem enqueueRexmit_eq (hq : q.WellFormed) (h : q.sidToTimerMap.find sid = some timer) :
    ∃ count time, q.sidRexmitCount.find sid = some count ∧ q.enqueueRexmit sid =
      .ok ((q.eraseMaps sid timer).park ⟨sid, timer, count, time⟩) := by
  have hmem : sid ∈ q.sidToTimerMap := mem_iff_find.mpr ⟨timer, h⟩
  obtain ⟨count, hcount⟩ := mem_iff_find.mp ((hq.countKeys sid).mpr hmem)
  obtain ⟨time, htime⟩ := mem_iff_find.mp ((hq.timeKeys sid).mpr hmem)
  refine ⟨count, time, hcount, ?_⟩
  simp only [enqueueRexmit, findRexmitTimer, h, getRexmitCount, getFirstTransTime,
    index_of_find hcount, index_of_find htime]
  rfl

theorem wellFormed_increaseRexmitCount (hq : q.WellFormed) (h : sid ∈ q.sidToTimerMap) :
    (q.increaseRexmitCount sid).WellFormed where
  countKeys sid' := by
    obtain ⟨count, hcount⟩ := mem_iff_find.mp ((hq.countKeys sid).mpr h)
    simp only [increaseRexmitCount, index_of_find hcount, mem_assign,
      hq.countKeys]
    constructor
    · rintro (rfl | hmem)
      · exact h
      · exact hmem
    · exact Or.inr
  timeKeys := hq.timeKeys
  inverse := hq.inverse
  once := hq.once
  parkedFree := hq.parkedFree
  parkedNodup := hq.parkedNodup
  allocated := hq.allocated
  parkedAllocated := hq.parkedAllocated

end PccpSendQueue

end Inet4.Pccp
