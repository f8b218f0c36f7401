import Inet4.Pccp.Runs

/-!
# How often a request is transmitted

The number of retransmissions of a request is an entry of `sidRexmitCount`, which the request takes
along when it moves to `rexmitQueue` and back.  A log of all transmissions, with their times, says
what this number counts, and what the round-trip measurement measures.
-/

namespace Inet4.Pccp

open Icn PccpSendQueue PccpAlg List AssocMap
open Except (ok)

/-- Transmissions with their times, oldest first. -/
abbrev TransmissionLog := List (SID × SimTime)

/-- The times at which a SID was transmitted. -/
def timesOf (log : TransmissionLog) (sid : SID) : List SimTime :=
  log.filterMap fun entry ↦ if entry.1 = sid then some entry.2 else none

/-- Transmissions that happen in the same event. -/
def stamp (now : SimTime) (new : List Transmission) : TransmissionLog :=
  new.map fun tr ↦ (tr.sid, now)

variable {log : TransmissionLog} {now : SimTime} {sid sid' : SID} {timer : Timer} {limit : ℕ}
variable {q : PccpSendQueue} {count : ℤ}

theorem timesOf_append (first second : TransmissionLog) :
    timesOf (first ++ second) sid = timesOf first sid ++ timesOf second sid :=
  filterMap_append

theorem timesOf_snoc_self : timesOf (log ++ [(sid, now)]) sid = timesOf log sid ++ [now] := by
  simp [timesOf]

theorem timesOf_snoc_of_ne (h : sid' ≠ sid) :
    timesOf (log ++ [(sid', now)]) sid = timesOf log sid := by
  simp [timesOf, h]

theorem length_timesOf_snoc : (timesOf (log ++ [(sid', now)]) sid).length =
    (timesOf log sid).length + if sid' = sid then 1 else 0 := by
  by_cases h : sid' = sid
  · subst h
    simp [timesOf_snoc_self]
  · simp [timesOf_snoc_of_ne h, h]

/-! ## The count of a request -/

namespace PccpSendQueue

/-- A request in flight was transmitted once more than its count says, and a parked one as often as
its count says; the count is at most the limit. -/
structure Counted (q : PccpSendQueue) (limit : ℕ) (log : TransmissionLog) : Prop where
  inFlight : ∀ sid count, q.sidRexmitCount.find sid = some count →
    ((timesOf log sid).length : ℤ) = 1 + count ∧ count ≤ limit
  parked : ∀ r ∈ q.rexmitQueue,
    ((timesOf log r.sid).length : ℤ) = r.rexmitCount ∧ r.rexmitCount ≤ limit
  unsent : ∀ sid ∈ q.unsentSidQueue, timesOf log sid = []
  bounded : ∀ sid, (timesOf log sid).length ≤ 1 + limit

theorem counted_empty (limit : ℕ) : Counted {} limit [] where
  inFlight sid count h := by simp at h
  parked r hr := by simp at hr
  unsent sid h := by simp at h
  bounded sid := by simp [timesOf]

theorem Counted.enqueueRequest (h : q.Counted limit log) (hfresh : timesOf log sid = []) :
    (q.enqueueRequest sid).Counted limit log where
  inFlight := h.inFlight
  parked := h.parked
  unsent sid' hmem := by
    rcases mem_append.mp hmem with hmem | hmem
    · exact h.unsent sid' hmem
    · rw [mem_singleton.mp hmem]
      exact hfresh
  bounded := h.bounded

/-- A request leaves the maps. -/
theorem Counted.eraseMaps (h : q.Counted limit log) (sid : SID) (timer : Timer) :
    (q.eraseMaps sid timer).Counted limit log where
  inFlight sid' count hfind := by
    simp only [PccpSendQueue.eraseMaps, find_remove] at hfind
    split at hfind
    · cases hfind
    · exact h.inFlight sid' count hfind
  parked := h.parked
  unsent := h.unsent
  bounded := h.bounded

theorem notMem_unsent_of_occurrences (h : q.occurrences sid = 0) : sid ∉ q.unsentSidQueue := by
  intro hmem
  have hpos := count_pos_iff.mpr hmem
  simp only [occurrences] at h
  omega

theorem ne_of_mem_parked {r : TimeoutRequest} (h : q.occurrences sid = 0)
    (hr : r ∈ q.rexmitQueue) : r.sid ≠ sid := by
  rintro rfl
  have hpos := count_pos_iff.mpr (mem_map_of_mem (f := TimeoutRequest.sid) hr)
  simp only [occurrences, parkedSids] at h
  omega

/-- A request that is transmitted enters the maps. -/
theorem Counted.insertMaps {r : TimeoutRequest} (h : q.Counted limit log) (hq : q.WellFormed)
    (hadmits : q.Admits r) (hcount : ((timesOf log r.sid).length : ℤ) = r.rexmitCount)
    (hlimit : r.rexmitCount ≤ limit) (now : SimTime) :
    (q.insertMaps r).Counted limit (log ++ [(r.sid, now)]) where
  inFlight sid count hfind := by
    have hfree : r.sid ∉ q.sidRexmitCount := by
      rw [hq.countKeys]
      exact notMem_of_occurrences hadmits.sid
    simp only [PccpSendQueue.insertMaps, find_emplace_of_notMem hfree] at hfind
    rw [length_timesOf_snoc]
    by_cases hs : sid = r.sid
    · subst hs
      rw [if_pos rfl] at hfind
      obtain rfl := Option.some.inj hfind
      rw [if_pos rfl]
      exact ⟨by omega, hlimit⟩
    · rw [if_neg hs] at hfind
      rw [if_neg (Ne.symm hs)]
      exact h.inFlight sid count hfind
  parked p hp := by
    rw [timesOf_snoc_of_ne (ne_of_mem_parked hadmits.sid hp).symm]
    exact h.parked p hp
  unsent sid hmem := by
    rw [timesOf_snoc_of_ne]
    · exact h.unsent sid hmem
    · rintro rfl
      exact notMem_unsent_of_occurrences hadmits.sid hmem
  bounded sid := by
    have hbounded := h.bounded sid
    rw [length_timesOf_snoc]
    split
    · rename_i hs
      subst hs
      omega
    · exact hbounded

theorem find_increaseRexmitCount (h : q.sidRexmitCount.find sid = some count) (sid' : SID) :
    (q.increaseRexmitCount sid).sidRexmitCount.find sid' =
      if sid' = sid then some (count + 1) else q.sidRexmitCount.find sid' := by
  simp only [increaseRexmitCount, index_of_find h, find_assign]

/-- A timed-out request is transmitted again. -/
theorem Counted.resend (h : q.Counted limit log) (hq : q.WellFormed)
    (hfind : q.sidRexmitCount.find sid = some count) (hlimit : count + 1 ≤ limit) (now : SimTime) :
    (q.increaseRexmitCount sid).Counted limit (log ++ [(sid, now)]) := by
  have hmem : sid ∈ q.sidToTimerMap :=
    (hq.countKeys sid).mp (mem_iff_find.mpr ⟨count, hfind⟩)
  have hwaiting := hq.not_waiting_of_mem hmem
  obtain ⟨hlength, -⟩ := h.inFlight sid count hfind
  refine ⟨fun sid' count' hfind' ↦ ?_, fun r hr ↦ ?_, fun sid' hmem' ↦ ?_, fun sid' ↦ ?_⟩
  · rw [find_increaseRexmitCount hfind] at hfind'
    rw [length_timesOf_snoc]
    split at hfind'
    · rename_i hs
      obtain rfl := Option.some.inj hfind'
      rw [hs, if_pos rfl]
      exact ⟨by omega, hlimit⟩
    · rename_i hs
      rw [if_neg (Ne.symm hs)]
      exact h.inFlight sid' count' hfind'
  · rw [timesOf_snoc_of_ne]
    · exact h.parked r hr
    · intro heq
      exact hwaiting (.inr (heq ▸ mem_map_of_mem (f := TimeoutRequest.sid) hr))
  · rw [timesOf_snoc_of_ne]
    · exact h.unsent sid' hmem'
    · intro heq
      exact hwaiting (.inl (heq ▸ hmem'))
  · have hbounded := h.bounded sid'
    rw [length_timesOf_snoc]
    split
    · rename_i hs
      subst hs
      omega
    · exact hbounded

/-- A timed-out request leaves the maps for `rexmitQueue` or for good. -/
theorem Counted.eraseMaps_increase (h : q.Counted limit log)
    (hfind : q.sidRexmitCount.find sid = some count) (timer : Timer) :
    ((q.increaseRexmitCount sid).eraseMaps sid timer).Counted limit log where
  inFlight sid' count' hfind' := by
    simp only [PccpSendQueue.eraseMaps, find_remove, find_increaseRexmitCount hfind]
      at hfind'
    split at hfind'
    · cases hfind'
    · exact h.inFlight sid' count' hfind'
  parked := h.parked
  unsent := h.unsent
  bounded := h.bounded

theorem Counted.park {r : TimeoutRequest} (h : q.Counted limit log)
    (hcount : ((timesOf log r.sid).length : ℤ) = r.rexmitCount) (hlimit : r.rexmitCount ≤ limit) :
    (q.park r).Counted limit log where
  inFlight := h.inFlight
  parked p hp := by
    rcases mem_append.mp hp with hp | hp
    · exact h.parked p hp
    · rw [mem_singleton.mp hp]
      exact ⟨hcount, hlimit⟩
  unsent := h.unsent
  bounded := h.bounded

end PccpSendQueue

/-! ## The measured request -/

namespace PccpAlg

variable {W : Type} [DoubleArith W] {alg alg' alg'' : PccpAlg W} {isRexmit : Bool} {n m : ℕ}
variable {r : TimeoutRequest}

/-- The counts agree with the log, and a request whose round trip is being measured is in flight,
and was transmitted once, at the time from which is measured. -/
structure Accounted (alg : PccpAlg W) (log : TransmissionLog) : Prop where
  counted : alg.sendQueue.Counted alg.pccpApp.maxRexmitLimit.toNat log
  measured : alg.state.rtsidSendtime ≠ 0 →
    alg.sendQueue.sidRexmitCount.find alg.state.rtsid = some 0 ∧
      timesOf log alg.state.rtsid = [alg.state.rtsidSendtime]

/-- The second state arises from the first by transmissions at the time `now`, and its counts agree
with the log. -/
def Logs (alg alg' : PccpAlg W) (now : SimTime) (log : TransmissionLog) : Prop :=
  ∃ new, alg'.sent = alg.sent ++ new ∧ Accounted alg' (log ++ stamp now new)

omit [DoubleArith W] in
theorem Accounted.logs (h : Accounted alg log) (now : SimTime) : Logs alg alg now log :=
  ⟨[], by simp, by simpa [stamp] using h⟩

omit [DoubleArith W] in
theorem Logs.trans (h : Logs alg alg' now log)
    (h' : ∀ log, Accounted alg' log → Logs alg' alg'' now log) : Logs alg alg'' now log := by
  obtain ⟨first, hfirst, haccounted⟩ := h
  obtain ⟨second, hsecond, haccounted⟩ := h' _ haccounted
  refine ⟨first ++ second, ?_, ?_⟩
  · rw [hsecond, hfirst, append_assoc]
  · simpa [stamp] using haccounted

omit [DoubleArith W] in
theorem scheduleTimeout_eq_ok {scheduled : Option Timer} {timeout : SimTime}
    (h : alg.scheduleTimeout now scheduled timeout = .ok alg') :
    ∃ timers, alg' = { alg with timers } := by
  unfold scheduleTimeout at h
  split at h
  · obtain ⟨timers, -, hok⟩ := bind_eq_ok h
    exact ⟨timers, (ok.inj hok).symm⟩
  · cases h

omit [DoubleArith W] in
/-- `requestSent` starts a measurement at most. -/
theorem requestSent_eq_ok (h : alg.requestSent now sid isRexmit = .ok alg') :
    ∃ timers state, alg' = { alg with timers, state } ∧
      (state = alg.state ∨
        isRexmit = false ∧ state = { alg.state with rtsid := sid, rtsidSendtime := now }) := by
  obtain ⟨mid, hschedule, h⟩ := bind_eq_ok h
  obtain ⟨timers, rfl⟩ := scheduleTimeout_eq_ok hschedule
  dsimp only at h
  split at h
  · rename_i hstart
    exact ⟨timers, _, (ok.inj h).symm, .inr ⟨hstart.2, rfl⟩⟩
  · exact ⟨timers, _, (ok.inj h).symm, .inl rfl⟩

/-- A loop of `sendRequestsToSocket` transmits the request it has popped, and starts to measure it
only when it is transmitted for the first time. -/
theorem Accounted.requestSent (h : Accounted alg log) (hpop : Pops alg.sendQueue q r)
    (hq : q.Counted alg.pccpApp.maxRexmitLimit.toNat log)
    (hcounts : q.sidRexmitCount = alg.sendQueue.sidRexmitCount)
    (hcount : ((timesOf log r.sid).length : ℤ) = r.rexmitCount)
    (hlimit : r.rexmitCount ≤ alg.pccpApp.maxRexmitLimit.toNat)
    (hfirst : isRexmit = false → r.rexmitCount = 0)
    (hok : ({ alg with sendQueue := q.insertMaps r }.sendGET r.sid).requestSent now r.sid
      isRexmit = .ok alg') : Logs alg alg' now log := by
  obtain ⟨timers, state, rfl, hstate⟩ := requestSent_eq_ok hok
  refine ⟨_, rfl, ?_, ?_⟩
  · exact hq.insertMaps hpop.wellFormed hpop.admits hcount hlimit now
  have hfree : r.sid ∉ q.sidRexmitCount := by
    rw [hpop.wellFormed.countKeys]
    exact notMem_of_occurrences hpop.admits.sid
  have hfind' : ∀ sid, (q.insertMaps r).sidRexmitCount.find sid =
      if sid = r.sid then some r.rexmitCount else q.sidRexmitCount.find sid := by
    intro sid
    exact find_emplace_of_notMem hfree
  intro hmeasured
  rcases hstate with rfl | ⟨hstart, rfl⟩
  · obtain ⟨hfind, htimes⟩ := h.measured hmeasured
    have hne : alg.state.rtsid ≠ r.sid := by
      intro heq
      apply hfree
      rw [hcounts, ← heq]
      exact mem_iff_find.mpr ⟨0, hfind⟩
    show (q.insertMaps r).sidRexmitCount.find alg.state.rtsid = some 0 ∧
      timesOf (log ++ [(r.sid, now)]) alg.state.rtsid = [alg.state.rtsidSendtime]
    rw [hfind', if_neg hne, timesOf_snoc_of_ne hne.symm, hcounts]
    exact ⟨hfind, htimes⟩
  · -- the request is transmitted for the first time
    show (q.insertMaps r).sidRexmitCount.find r.sid = some 0 ∧
      timesOf (log ++ [(r.sid, now)]) r.sid = [now]
    rw [hfirst hstart, Int.natCast_eq_zero, length_eq_zero_iff] at hcount
    rw [hfind', if_pos rfl, hfirst hstart, timesOf_snoc_self, hcount]
    exact ⟨rfl, rfl⟩

/-! ## The loops of `sendRequestsToSocket` -/

theorem Accounted.sendUnsentRexmits (h : Accounted alg log) (hcons : Consistent alg none)
    (hn : n = alg.effectiveWindow.toNat)
    (hok : PccpAlg.sendUnsentRexmits now n alg = .ok (m, alg')) : Logs alg alg' now log := by
  induction n generalizing alg log with
  | zero =>
    obtain ⟨-, rfl⟩ := Prod.mk.inj (ok.inj hok)
    exact h.logs now
  | succ n ih =>
    cases hqueue : alg.sendQueue.rexmitQueue with
    | nil =>
      rw [PccpAlg.sendUnsentRexmits, if_neg (by simp [hasUnsentRexmit, hqueue])] at hok
      obtain ⟨-, rfl⟩ := Prod.mk.inj (ok.inj hok)
      exact h.logs now
    | cons r rest =>
      rw [PccpAlg.sendUnsentRexmits, if_pos (by simp [hasUnsentRexmit, hqueue])] at hok
      simp only [popOneUnsentRexmit, hqueue] at hok
      obtain ⟨popped, hpopped, hok⟩ := bind_eq_ok hok
      obtain rfl := ok.inj hpopped
      obtain ⟨mid, hmid, hok⟩ := bind_eq_ok hok
      have hpop := pops_rexmit hcons.queue hqueue
      have hparked := h.counted.parked r (by simp [hqueue])
      have hcounted : PccpSendQueue.Counted { alg.sendQueue with rexmitQueue := rest }
          alg.pccpApp.maxRexmitLimit.toNat log :=
        { h.counted with
          parked := fun p hp ↦ h.counted.parked p (by simp [hqueue, hp]) }
      have hlogs := h.requestSent hpop hcounted rfl hparked.1 hparked.2 (by simp) hmid
      obtain ⟨mid', hmid', hcons', -, -, heff⟩ :=
        requestSent_spec now true hcons hpop (by omega)
      obtain rfl := ok.inj (hmid'.symm.trans hmid)
      exact hlogs.trans fun log haccounted ↦ ih haccounted hcons' (by omega) hok

theorem Accounted.sendUnsentSIDs (h : Accounted alg log) (hcons : Consistent alg none)
    (hn : n = alg.effectiveWindow.toNat)
    (hok : PccpAlg.sendUnsentSIDs now n alg = .ok (m, alg')) : Logs alg alg' now log := by
  induction n generalizing alg log with
  | zero =>
    obtain ⟨-, rfl⟩ := Prod.mk.inj (ok.inj hok)
    exact h.logs now
  | succ n ih =>
    cases hqueue : alg.sendQueue.unsentSidQueue with
    | nil =>
      rw [PccpAlg.sendUnsentSIDs, if_neg (by simp [hasUnsentSID, hqueue])] at hok
      obtain ⟨-, rfl⟩ := Prod.mk.inj (ok.inj hok)
      exact h.logs now
    | cons sid rest =>
      rw [PccpAlg.sendUnsentSIDs, if_pos (by simp [hasUnsentSID, hqueue])] at hok
      simp only [popOneUnsentSID, hqueue] at hok
      obtain ⟨popped, hpopped, hok⟩ := bind_eq_ok hok
      obtain rfl := ok.inj hpopped
      obtain ⟨mid, hmid, hok⟩ := bind_eq_ok hok
      have hpop := pops_unsent now hcons.queue hqueue
      have hunsent := h.counted.unsent sid (by simp [hqueue])
      have hcounted : PccpSendQueue.Counted
          { alg.sendQueue with unsentSidQueue := rest, nextTimer := alg.sendQueue.nextTimer + 1 }
          alg.pccpApp.maxRexmitLimit.toNat log :=
        { h.counted with
          unsent := fun sid' hmem ↦ h.counted.unsent sid' (by simp [hqueue, hmem]) }
      have hlogs := h.requestSent hpop hcounted rfl (by simp [hunsent]) (by simp) (fun _ ↦ rfl)
        hmid
      obtain ⟨mid', hmid', hcons', -, -, heff⟩ :=
        requestSent_spec now false hcons hpop (by omega)
      obtain rfl := ok.inj (hmid'.symm.trans hmid)
      exact hlogs.trans fun log haccounted ↦ ih haccounted hcons' (by omega) hok

theorem Accounted.sendRequestsToSocket (h : Accounted alg log) (hcons : Consistent alg none)
    (hok : alg.sendRequestsToSocket now = .ok alg') : Logs alg alg' now log := by
  obtain ⟨⟨n, mid⟩, hfirst, hok⟩ := bind_eq_ok hok
  obtain ⟨⟨m, last⟩, hsecond, hok⟩ := bind_eq_ok hok
  obtain rfl := ok.inj hok
  obtain ⟨n', mid', hfirst', hmid, -⟩ := sendUnsentRexmits_spec now _ hcons rfl
  obtain ⟨rfl, rfl⟩ := Prod.mk.inj (ok.inj (hfirst'.symm.trans hfirst))
  exact (h.sendUnsentRexmits hcons rfl hfirst).trans fun log haccounted ↦
    haccounted.sendUnsentSIDs hmid.consistent hmid.counter hsecond

/-! ## The handlers -/

omit [DoubleArith W] in
/-- A handler that leaves the log as it is and then calls `sendRequestsToSocket`. -/
theorem Logs.of_sent_eq {mid : PccpAlg W} (hsent : mid.sent = alg.sent)
    (h : Logs mid alg' now log) : Logs alg alg' now log := by
  obtain ⟨new, hnew, haccounted⟩ := h
  exact ⟨new, by rw [hnew, hsent], haccounted⟩

theorem Accounted.sendRequest (h : Accounted alg log) (hcons : Consistent alg none)
    (hfresh : alg.sendQueue.occurrences sid = 0) (hunsent : timesOf log sid = [])
    (hok : alg.sendRequest now sid = .ok alg') : Logs alg alg' now log := by
  let mid : PccpAlg W := { alg with sendQueue := alg.sendQueue.enqueueRequest sid }
  have hmid : Accounted mid log := ⟨h.counted.enqueueRequest hunsent, h.measured⟩
  have hmidCons : Consistent mid none :=
    ⟨wellFormed_enqueueRequest hcons.queue hfresh, hcons.armed, hcons.timeout⟩
  exact .of_sent_eq rfl (hmid.sendRequestsToSocket hmidCons hok)

/-- A request that leaves the maps is not the one that is being measured. -/
theorem find_eraseMaps_of_ne (hne : sid' ≠ sid) (timer : Timer) :
    (q.eraseMaps sid timer).sidRexmitCount.find sid' = q.sidRexmitCount.find sid' := by
  simp only [PccpSendQueue.eraseMaps, find_remove, if_neg hne]

theorem adjustWindow_measurement (app : PccpApp) (state : PccpStateVariables W) (now : SimTime)
    (level : PccpClCode) :
    (adjustWindow app state now level).rtsid = state.rtsid ∧
      (adjustWindow app state now level).rtsidSendtime = state.rtsidSendtime := by
  unfold adjustWindow
  cases level <;> (dsimp only; repeat' split) <;> exact ⟨rfl, rfl⟩

/-- A measurement that goes on after the arrival of Data is of another SID. -/
theorem measure_rtsidSendtime (h : (alg.measure now sid).rtsidSendtime ≠ 0) :
    (alg.measure now sid).rtsid = alg.state.rtsid ∧ alg.state.rtsid ≠ sid ∧
      (alg.measure now sid).rtsidSendtime = alg.state.rtsidSendtime := by
  rw [measure_eq] at h ⊢
  split at h <;> rename_i hmeasured
  · exact absurd rfl h
  · rw [if_neg hmeasured]
    exact ⟨rfl, fun heq ↦ hmeasured ⟨h, heq⟩, rfl⟩

theorem Accounted.dataReceived (h : Accounted alg log) (hcons : Consistent alg none)
    {level : PccpClCode} (hok : alg.dataReceived now sid level = .ok alg') :
    Logs alg alg' now log := by
  obtain ⟨mid, heq, hmid, hreceived⟩ := dataReceived_eq now sid hcons level
  rw [heq] at hok
  refine .of_sent_eq hreceived.sent (Accounted.sendRequestsToSocket ⟨?_, ?_⟩ hmid hok)
  · rw [hreceived.app]
    rcases hreceived.queue with ⟨-, hqueue⟩ | ⟨timer, -, hqueue⟩
    · rw [hqueue]
      exact h.counted
    · rw [hqueue]
      exact h.counted.eraseMaps sid timer
  · obtain ⟨hrtsid, hsendtime⟩ :=
      adjustWindow_measurement alg.pccpApp (alg.measure now sid) now level
    rw [hreceived.state, hrtsid, hsendtime]
    intro hmeasured
    obtain ⟨hsame, hne, htime⟩ := measure_rtsidSendtime hmeasured
    rw [htime] at hmeasured
    obtain ⟨hfind, htimes⟩ := h.measured hmeasured
    rw [hsame, htime]
    rcases hreceived.queue with ⟨-, hqueue⟩ | ⟨timer, -, hqueue⟩
    · rw [hqueue]
      exact ⟨hfind, htimes⟩
    · rw [hqueue, find_eraseMaps_of_ne hne]
      exact ⟨hfind, htimes⟩

omit [DoubleArith W] in
/-- A measurement that goes on after a timeout is of another SID. -/
theorem cancelMeasurement_rtsidSendtime {state : PccpStateVariables W}
    (h : (cancelMeasurement state sid).rtsidSendtime ≠ 0) :
    cancelMeasurement state sid = state ∧ state.rtsid ≠ sid := by
  unfold cancelMeasurement at h ⊢
  split at h <;> rename_i hmeasured
  · exact absurd rfl h
  · rw [if_neg hmeasured]
    exact ⟨rfl, fun heq ↦ hmeasured ⟨h, heq⟩⟩

omit [DoubleArith W] in
theorem doubleTimeout_measurement (state : PccpStateVariables W) (now : SimTime) :
    (doubleTimeout state now).rtsid = state.rtsid ∧
      (doubleTimeout state now).rtsidSendtime = state.rtsidSendtime := by
  unfold doubleTimeout
  split <;> exact ⟨rfl, rfl⟩

/-- A retransmission is counted before `retransmitRequest` transmits or parks the request. -/
theorem Accounted.retransmitRequest (h : Accounted alg log) (hq : alg.sendQueue.WellFormed)
    (htimer : alg.sendQueue.sidToTimerMap.find sid = some timer)
    (hfind : alg.sendQueue.sidRexmitCount.find sid = some count)
    (hlimit : count + 1 ≤ alg.pccpApp.maxRexmitLimit)
    (hne : alg.state.rtsidSendtime ≠ 0 → alg.state.rtsid ≠ sid)
    {state : PccpStateVariables W} (hrtsid : state.rtsid = alg.state.rtsid)
    (hsendtime : state.rtsidSendtime = alg.state.rtsidSendtime) (timers : SelfMessages Timer)
    (hok : { alg with
      state, timers
      sendQueue := alg.sendQueue.increaseRexmitCount sid }.retransmitRequest now sid = .ok alg') :
    Logs alg alg' now log := by
  have hmem : sid ∈ alg.sendQueue.sidToTimerMap := mem_iff_find.mpr ⟨timer, htimer⟩
  have hincreased := find_increaseRexmitCount hfind sid
  rw [if_pos rfl] at hincreased
  have hlength := (h.counted.inFlight sid count hfind).1
  have hlimit' : count + 1 ≤ (alg.pccpApp.maxRexmitLimit.toNat : ℤ) := by omega
  -- The measurement goes on only for another request, whose entry stays as it is.
  have hmeasured : state.rtsidSendtime ≠ 0 → state.rtsid ≠ sid ∧
      alg.sendQueue.sidRexmitCount.find state.rtsid = some 0 ∧
        timesOf log state.rtsid = [state.rtsidSendtime] := by
    rw [hrtsid, hsendtime]
    intro hmeasured
    exact ⟨hne hmeasured, h.measured hmeasured⟩
  unfold PccpAlg.retransmitRequest at hok
  split at hok
  · obtain ⟨count', time, hcount', hpark⟩ :=
      enqueueRexmit_eq (wellFormed_increaseRexmitCount hq hmem) htimer
    obtain rfl := Option.some.inj (hincreased.symm.trans hcount')
    obtain ⟨parked, hparked, hok⟩ := bind_eq_ok hok
    obtain rfl := ok.inj (hpark.symm.trans hparked)
    obtain rfl := ok.inj hok
    refine ⟨[], by simp, ?_, fun hrunning ↦ ?_⟩
    · simp only [stamp, map_nil, append_nil]
      exact (h.counted.eraseMaps_increase hfind timer).park (by dsimp only; omega) hlimit'
    · obtain ⟨hother, hfind', htimes⟩ := hmeasured hrunning
      simp only [stamp, map_nil, append_nil]
      refine ⟨?_, htimes⟩
      show ((alg.sendQueue.increaseRexmitCount sid).eraseMaps sid timer).sidRexmitCount.find
        state.rtsid = some 0
      rw [find_eraseMaps_of_ne hother, find_increaseRexmitCount hfind, if_neg hother]
      exact hfind'
  · obtain ⟨timers', rfl⟩ := scheduleTimeout_eq_ok hok
    refine ⟨_, rfl, h.counted.resend hq hfind hlimit' now, fun hrunning ↦ ?_⟩
    obtain ⟨hother, hfind', htimes⟩ := hmeasured hrunning
    show (alg.sendQueue.increaseRexmitCount sid).sidRexmitCount.find state.rtsid = some 0 ∧
      timesOf (log ++ [(sid, now)]) state.rtsid = [state.rtsidSendtime]
    rw [find_increaseRexmitCount hfind, if_neg hother, timesOf_snoc_of_ne hother.symm]
    exact ⟨hfind', htimes⟩

theorem Accounted.processRexmitTimer (h : Accounted alg log) (hcons : Consistent alg (some timer))
    (htimer : timer ∈ alg.sendQueue.timerToSidMap)
    (hok : alg.processRexmitTimer now timer = .ok alg') : Logs alg alg' now log := by
  obtain ⟨sid, count, hfind, hcount, heq⟩ := processRexmitTimer_eq now hcons htimer
  have hmem : sid ∈ alg.sendQueue.sidToTimerMap := mem_iff_find.mpr ⟨timer, hfind⟩
  rw [heq] at hok
  split at hok
  · -- the request is given up
    have hwf := wellFormed_increaseRexmitCount hcons.queue hmem
    have htimers : ∀ timer', timer' ∈ alg.timers ↔
        timer' ∈ (alg.sendQueue.increaseRexmitCount sid).timerToSidMap ∧ timer' ≠ timer := by
      intro timer'
      simp [hcons.armed, increaseRexmitCount, eq_comm]
    have htimeout : 0 ≤ (cancelMeasurement alg.state sid).rexmitTimeout := by
      rw [rexmitTimeout_cancelMeasurement]
      exact hcons.timeout
    have hmid := consistent_eraseMaps alg hwf hfind htimers htimeout (alg.aborted ++ [sid])
    have hgivenUp : Accounted { alg with
        state := cancelMeasurement alg.state sid
        sendQueue := (alg.sendQueue.increaseRexmitCount sid).eraseMaps sid timer
        aborted := alg.aborted ++ [sid] } log := by
      refine ⟨h.counted.eraseMaps_increase hcount timer, fun hrunning ↦ ?_⟩
      obtain ⟨hsame, hne⟩ := cancelMeasurement_rtsidSendtime hrunning
      rw [hsame] at hrunning ⊢
      rw [find_eraseMaps_of_ne hne, find_increaseRexmitCount hcount, if_neg hne]
      exact h.measured hrunning
    exact .of_sent_eq (by rfl) (hgivenUp.sendRequestsToSocket hmid hok)
  · rename_i hle
    have hcancelled : Accounted { alg with state := cancelMeasurement alg.state sid } log := by
      refine ⟨h.counted, fun hrunning ↦ ?_⟩
      obtain ⟨hsame, -⟩ := cancelMeasurement_rtsidSendtime hrunning
      dsimp only at hrunning ⊢
      rw [hsame] at hrunning ⊢
      exact h.measured hrunning
    obtain ⟨hrtsid, hsendtime⟩ :=
      doubleTimeout_measurement (cancelMeasurement alg.state sid) now
    refine .of_sent_eq rfl (hcancelled.retransmitRequest hcons.queue hfind hcount (not_lt.mp hle)
      (fun hrunning ↦ ?_) hrtsid hsendtime alg.timers hok)
    obtain ⟨hsame, hne⟩ := cancelMeasurement_rtsidSendtime hrunning
    rw [hsame]
    exact hne

/-- Each handler keeps the counts in agreement with the log. -/
theorem Accounted.handle {event : Event} (h : Accounted alg log)
    (hcons : Consistent alg none) (hevent : Admissible alg event)
    (hunsent : ∀ sid, event.action = .sendRequest sid → timesOf log sid = [])
    (hok : Inet4.Pccp.handle alg event = .ok alg') : Logs alg alg' event.now log := by
  obtain ⟨now, action⟩ := event
  cases action with
  | sendRequest sid => exact h.sendRequest hcons (hevent.2 sid rfl) (hunsent sid rfl) hok
  | dataReceived sid level => exact h.dataReceived hcons hok
  | rexmitTimer timer =>
    have hscheduled : timer ∈ alg.timers := hevent.1 timer rfl
    have htimer := ((hcons.armed timer).mp hscheduled).1
    have hmid : Consistent { alg with timers := alg.timers.remove timer } (some timer) := by
      refine ⟨hcons.queue, ?_, hcons.timeout⟩
      intro timer'
      simp [hcons.armed, and_comm, eq_comm]
    have hacc : Accounted { alg with timers := alg.timers.remove timer } log :=
      ⟨h.counted, h.measured⟩
    exact .of_sent_eq (by rfl) (hacc.processRexmitTimer hmid htimer hok)

end PccpAlg

/-! ## Runs -/

/-- A consumer with the log of its transmissions. -/
structure LoggedAlg (W : Type) where
  alg : PccpAlg W
  log : TransmissionLog := []

/-- A consumer, and an observer who writes down the time of each transmission. -/
def loggedConsumer (W : Type) [DoubleArith W] : Machine (LoggedAlg W) Event Fault where
  Enabled s event := (consumer W).Enabled s.alg event
  handle s event := do
    let alg ← handle s.alg event
    return ⟨alg, s.log ++ stamp event.now (alg.sent.drop s.alg.sent.length)⟩

instance {W : Type} [DoubleArith W] (s : LoggedAlg W) (event : Event) :
    Decidable ((loggedConsumer W).Enabled s event) :=
  inferInstanceAs (Decidable ((consumer W).Enabled s.alg event))

variable {W : Type} [DoubleArith W] {s s' : LoggedAlg W} {app : PccpApp} {event : Event}
variable {events : List Event}

/-- What the log of a consumer has to do with its state and with the events it has handled. -/
structure LogInvariant (events : List Event) (s : LoggedAlg W) : Prop where
  invariant : Invariant events s.alg
  accounted : Accounted s.alg s.log
  fresh : ∀ sid, sid ∉ requestedSids events → timesOf s.log sid = []

theorem logInvariant_initial (app : PccpApp) :
    LogInvariant [] (⟨initial app, []⟩ : LoggedAlg W) where
  invariant := invariant_initial app
  accounted := ⟨counted_empty _, fun h ↦ absurd rfl h⟩
  fresh _ _ := rfl

theorem timesOf_stamp_of_forall_ne {new : List Transmission} (h : ∀ tr ∈ new, tr.sid ≠ sid) :
    timesOf (stamp now new) sid = [] := by
  simp only [timesOf, stamp, filterMap_map, filterMap_eq_nil_iff]
  intro tr htr
  simp [h tr htr]

theorem LogInvariant.step (h : LogInvariant events s) (hstep : (loggedConsumer W).Step s event s')
    (hdistinct : (requestedSids (events ++ [event])).Nodup) :
    LogInvariant (events ++ [event]) s' ∧ s'.alg.pccpApp = s.alg.pccpApp := by
  obtain ⟨henabled, hok⟩ := hstep
  obtain ⟨alg', hhandle, rfl⟩ := bind_pure_eq_ok hok
  have hevent := h.invariant.admissible henabled hdistinct
  obtain ⟨hinvariant, givenUp, heffect⟩ := h.invariant.step ⟨henabled, hhandle⟩ hdistinct
  have hunsent : ∀ sid, event.action = .sendRequest sid → timesOf s.log sid = [] := by
    intro sid hsid
    have hlast : requestedSids [event] = [sid] := by simp [requestedSids, hsid]
    rw [requestedSids_append, hlast] at hdistinct
    apply h.fresh
    exact fun hmem ↦ disjoint_of_nodup_append hdistinct hmem (mem_singleton_self sid)
  obtain ⟨new, hsent, haccounted⟩ :=
    h.accounted.handle h.invariant.consistent hevent hunsent hhandle
  refine ⟨⟨hinvariant, ?_, fun sid hsid ↦ ?_⟩, heffect.app⟩
  · rw [hsent, drop_left]
    exact haccounted
  · have hold : sid ∉ requestedSids events := by
      rw [requestedSids_append, mem_append, not_or] at hsid
      exact hsid.1
    -- What is transmitted is in the queue, and what was not requested is not.
    have hne : ∀ tr ∈ new, tr.sid ≠ sid := by
      rintro tr htr rfl
      obtain ⟨new', hsent', hnew'⟩ := heffect.sent
      obtain rfl := append_cancel_left (hsent.symm.trans hsent')
      have hpos := (hnew' tr htr).1
      rw [← heffect.occurrences, hinvariant.fresh _ hsid] at hpos
      exact absurd hpos (Nat.lt_irrefl 0)
    rw [hsent, drop_left, timesOf_append, h.fresh sid hold, timesOf_stamp_of_forall_ne hne]
    rfl

theorem logInvariant_of_run {before : List Event} (h : LogInvariant before s)
    (hrun : (loggedConsumer W).Run s events s')
    (hdistinct : (requestedSids (before ++ events)).Nodup) :
    LogInvariant (before ++ events) s' ∧ s'.alg.pccpApp = s.alg.pccpApp := by
  induction hrun generalizing before with
  | nil s => exact ⟨by simpa using h, rfl⟩
  | @cons s mid s' event rest hstep _ ih =>
    rw [append_cons before event rest] at hdistinct ⊢
    have hprefix : (requestedSids (before ++ [event])).Nodup := by
      rw [requestedSids_append] at hdistinct
      exact (nodup_append.mp hdistinct).1
    obtain ⟨hmid, happ⟩ := h.step hstep hprefix
    obtain ⟨hlast, happ'⟩ := ih hmid hdistinct
    exact ⟨hlast, happ'.trans happ⟩

/-- In every run over distinct requests, a SID is transmitted at most once and then as often again
as the limit allows, a request is in the maps or in `rexmitQueue` with the number of its
retransmissions, and a sample is the time from the only transmission of a SID to the arrival of its
Data. -/
theorem transmissions_bounded (hrun : (loggedConsumer W).Run ⟨initial app, []⟩ events s)
    (hdistinct : (requestedSids events).Nodup) :
    (∀ sid, ((timesOf s.log sid).length : ℤ) ≤ 1 + max 0 app.maxRexmitLimit) ∧
    (∀ sid count, s.alg.sendQueue.sidRexmitCount.find sid = some count →
      ((timesOf s.log sid).length : ℤ) = 1 + count) ∧
    (∀ r ∈ s.alg.sendQueue.rexmitQueue, ((timesOf s.log r.sid).length : ℤ) = r.rexmitCount) ∧
    ∀ now sid sample, s.alg.rttSample now sid = some sample →
      sample.timeReceived = now ∧ timesOf s.log sid = [sample.timeSent] := by
  obtain ⟨hinv, happ⟩ := logInvariant_of_run (logInvariant_initial app) hrun hdistinct
  have hcounted := hinv.accounted.counted
  rw [happ] at hcounted
  refine ⟨fun sid ↦ ?_, fun sid count hfind ↦ (hcounted.inFlight sid count hfind).1,
    fun r hr ↦ (hcounted.parked r hr).1, fun now sid sample hsample ↦ ?_⟩
  · have hbounded := hcounted.bounded sid
    have happ : (initial app : PccpAlg W).pccpApp = app := rfl
    rw [happ] at hbounded
    omega
  · unfold rttSample at hsample
    split at hsample
    · rename_i hmeasured
      obtain rfl := Option.some.inj hsample
      obtain ⟨hrunning, rfl⟩ := hmeasured
      exact ⟨rfl, (hinv.accounted.measured hrunning).2⟩
    · cases hsample

/-- A request that is given up after one retransmission, and a second one that is answered. -/
def oneRetransmission : List Event :=
  [⟨1000000000000, .sendRequest ⟨default, 1⟩⟩, ⟨2000000000000, .rexmitTimer 0⟩,
    ⟨2500000000000, .sendRequest ⟨default, 2⟩⟩, ⟨4000000000000, .rexmitTimer 0⟩]

theorem transmissions_bounded_oneRetransmission :
    ∃ s : LoggedAlg ℚ, (loggedConsumer ℚ).Run ⟨initial ⟨true, 2, 1⟩, []⟩ oneRetransmission s ∧
      s.log = [(⟨default, 1⟩, 1000000000000), (⟨default, 1⟩, 2000000000000),
        (⟨default, 2⟩, 2500000000000)] ∧
      ∀ now sid sample, s.alg.rttSample now sid = some sample →
        sample.timeReceived = now ∧ timesOf s.log sid = [sample.timeSent] := by
  have hexec : ((loggedConsumer ℚ).exec ⟨initial ⟨true, 2, 1⟩, []⟩ oneRetransmission).any fun s ↦
      decide (s.log = [(⟨default, 1⟩, 1000000000000), (⟨default, 1⟩, 2000000000000),
        (⟨default, 2⟩, 2500000000000)]) := by
    decide +kernel
  obtain ⟨s, hrun, hlog⟩ := Machine.exists_run_of_exec hexec
  exact ⟨s, hrun, hlog, (transmissions_bounded hrun (by decide)).2.2.2⟩

/-- A negative limit does not keep a request from being transmitted for the first time. -/
theorem transmitted_with_negative_limit :
    ∃ s : LoggedAlg ℚ,
      (loggedConsumer ℚ).Run ⟨initial ⟨true, 2, -1⟩, []⟩ [⟨1, .sendRequest ⟨default, 1⟩⟩] s ∧
      ¬((timesOf s.log ⟨default, 1⟩).length : ℤ) ≤ 1 + -1 :=
  Machine.exists_run_of_exec (by decide +kernel)

end Inet4.Pccp
