import Inet4.Pccp.Alg

/-!
# What one event does to a PCCP consumer

Between two events the containers of the send queue are consistent and the scheduled timers are
exactly those of the requests in flight (`Consistent`).  Under this invariant no handler faults,
and each one does two things: it moves a request between the containers, and then transmits
waiting requests while the window has room (`Transmits`).  Whatever a handler leaves waiting, it
leaves behind a full window (`Conserving`).
-/

namespace Inet4.Pccp

open Icn PccpSendQueue AssocMap

namespace PccpAlg

variable {W : Type} [DoubleArith W]
variable {alg alg' alg'' : PccpAlg W} {now : SimTime} {sid : SID} {timer : Timer}

/-- The containers agree and exactly the timers of requests in flight are scheduled, apart from a
timer that has just expired. -/
structure Consistent (alg : PccpAlg W) (expired : Option Timer) : Prop where
  queue : alg.sendQueue.WellFormed
  armed : ∀ timer,
    timer ∈ alg.timers ↔ timer ∈ alg.sendQueue.timerToSidMap ∧ expired ≠ some timer
  timeout : 0 ≤ alg.state.rexmitTimeout

/-- Nothing waits, or the window is full. -/
def Conserving (alg : PccpAlg W) : Prop :=
  (alg.sendQueue.unsentSidQueue = [] ∧ alg.sendQueue.rexmitQueue = []) ∨
    alg.windowSize ≤ alg.sendQueue.getSentRequestCount

/-- A transmission does not exceed the window. -/
def Transmission.Compliant (tr : Transmission) : Prop := (tr.sentRequestCount : ℤ) ≤ tr.windowSize

/-- The second state arises from the first by transmissions of requests that were in one of the
containers, within the window. -/
structure Transmits (alg alg' : PccpAlg W) : Prop where
  occurrences : ∀ sid, alg'.sendQueue.occurrences sid = alg.sendQueue.occurrences sid
  window : alg'.state.window = alg.state.window
  app : alg'.pccpApp = alg.pccpApp
  aborted : alg'.aborted = alg.aborted
  sent : ∃ new, alg'.sent = alg.sent ++ new ∧
    ∀ tr ∈ new, 0 < alg.sendQueue.occurrences tr.sid ∧ Transmission.Compliant tr

omit [DoubleArith W] in
theorem Transmits.refl (alg : PccpAlg W) : Transmits alg alg :=
  ⟨fun _ ↦ rfl, rfl, rfl, rfl, [], by simp, by simp⟩

omit [DoubleArith W] in
theorem Transmits.trans (h₁ : Transmits alg alg') (h₂ : Transmits alg' alg'') :
    Transmits alg alg'' := by
  obtain ⟨new₁, hsent₁, hnew₁⟩ := h₁.sent
  obtain ⟨new₂, hsent₂, hnew₂⟩ := h₂.sent
  refine ⟨?_, h₂.window.trans h₁.window, h₂.app.trans h₁.app, h₂.aborted.trans h₁.aborted,
    new₁ ++ new₂, ?_, ?_⟩
  · intro sid
    exact (h₂.occurrences sid).trans (h₁.occurrences sid)
  · rw [hsent₂, hsent₁, List.append_assoc]
  · intro tr htr
    rcases List.mem_append.mp htr with htr | htr
    · exact hnew₁ tr htr
    · rw [← h₁.occurrences]
      exact hnew₂ tr htr

omit [DoubleArith W] in
theorem scheduleTimeout_eq (hfree : timer ∉ alg.timers) {timeout : SimTime}
    (htimeout : 0 ≤ timeout) :
    alg.scheduleTimeout now (some timer) timeout =
      .ok { alg with timers := alg.timers.assign timer (now + timeout) } := by
  have hle : now ≤ now + timeout := Int.le_add_of_nonneg_right htimeout
  simp only [scheduleTimeout, SelfMessages.scheduleAt_of_notMem hfree hle, bind, Except.bind,
    pure, Except.pure]

/-- A loop of `sendRequestsToSocket` transmits the request it has popped: the request enters the
maps, its timer is scheduled, and one place in the window is taken. -/
theorem requestSent_spec {q : PccpSendQueue} {r : TimeoutRequest} (now : SimTime)
    (isRexmit : Bool) (h : Consistent alg none) (hpop : Pops alg.sendQueue q r)
    (hroom : 0 < alg.effectiveWindow) :
    ∃ alg', ({ alg with sendQueue := q.insertMaps r }.sendGET r.sid).requestSent now r.sid
        isRexmit = .ok alg' ∧
      Consistent alg' none ∧ Transmits alg alg' ∧ alg'.sendQueue = q.insertMaps r ∧
      alg'.effectiveWindow = alg.effectiveWindow - 1 := by
  have hfree := notMem_of_occurrences hpop.admits.sid
  have hfind : (q.insertMaps r).findRexmitTimer r.sid = some r.timer := by
    simp [findRexmitTimer, insertMaps, find_emplace_of_notMem hfree]
  have harmed : ∀ timer, timer ∈ alg.timers ↔ timer ∈ q.timerToSidMap := by
    intro timer
    simp [h.armed, hpop.timers]
  have hsched : r.timer ∉ alg.timers := by
    rw [harmed]
    exact hpop.admits.timer
  have hwf := wellFormed_insertMaps hpop.wellFormed hpop.admits
  have harmed' : ∀ timer, timer ∈ alg.timers.assign r.timer (now + alg.state.rexmitTimeout) ↔
      timer ∈ (q.insertMaps r).timerToSidMap ∧ (none : Option Timer) ≠ some timer := by
    intro timer
    simp [insertMaps, harmed]
  have hocc : ∀ sid, (q.insertMaps r).occurrences sid = alg.sendQueue.occurrences sid := by
    intro sid
    rw [occurrences_insertMaps r hfree, hpop.occurrences]
  have hsize : (q.insertMaps r).getSentRequestCount = alg.sendQueue.getSentRequestCount + 1 := by
    rw [size_insertMaps r hfree, hpop.size]
  have hpos : 0 < alg.sendQueue.occurrences r.sid := by
    rw [hpop.occurrences, if_pos rfl]
    exact Nat.succ_pos _
  have hcompliant : Transmission.Compliant
      ⟨r.sid, (q.insertMaps r).getSentRequestCount, alg.windowSize⟩ := by
    simp only [Transmission.Compliant, hsize]
    simp only [effectiveWindow] at hroom
    omega
  have hsent : ∀ tr ∈ [(⟨r.sid, (q.insertMaps r).getSentRequestCount, alg.windowSize⟩ :
      Transmission)], 0 < alg.sendQueue.occurrences tr.sid ∧ Transmission.Compliant tr := by
    intro tr htr
    obtain rfl := List.mem_singleton.mp htr
    exact ⟨hpos, hcompliant⟩
  have heff : (alg.windowSize - (q.insertMaps r).getSentRequestCount : ℤ) =
      alg.effectiveWindow - 1 := by
    simp only [effectiveWindow, hsize]
    push_cast
    omega
  simp only [requestSent, sendGET, hfind]
  rw [scheduleTimeout_eq (by exact hsched) h.timeout]
  simp only [bind, Except.bind, pure, Except.pure]
  split
  · exact ⟨_, rfl, ⟨hwf, harmed', h.timeout⟩, ⟨hocc, rfl, rfl, rfl, _, rfl, hsent⟩, rfl, heff⟩
  · exact ⟨_, rfl, ⟨hwf, harmed', h.timeout⟩, ⟨hocc, rfl, rfl, rfl, _, rfl, hsent⟩, rfl, heff⟩

/-- What a loop leaves behind when its counter ends at `m`. -/
structure LoopResult (alg alg' : PccpAlg W) (m : ℕ) : Prop where
  consistent : Consistent alg' none
  transmits : Transmits alg alg'
  counter : m = alg'.effectiveWindow.toNat

theorem sendUnsentRexmits_spec (now : SimTime) (n : ℕ) (h : Consistent alg none)
    (hn : n = alg.effectiveWindow.toNat) :
    ∃ m alg', sendUnsentRexmits now n alg = .ok (m, alg') ∧ LoopResult alg alg' m ∧
      (m = 0 ∨ alg'.sendQueue.rexmitQueue = []) := by
  induction n generalizing alg with
  | zero => exact ⟨0, alg, rfl, ⟨h, .refl alg, hn⟩, .inl rfl⟩
  | succ n ih =>
    cases hqueue : alg.sendQueue.rexmitQueue with
    | nil =>
      refine ⟨n + 1, alg, ?_, ⟨h, .refl alg, hn⟩, .inr hqueue⟩
      simp [sendUnsentRexmits, hasUnsentRexmit, hqueue]
    | cons r rest =>
      obtain ⟨q, hpop, hpops⟩ := popOneUnsentRexmit_spec h.queue hqueue
      obtain ⟨mid, hmid, hcons, htrans, -, heff⟩ :=
        requestSent_spec now true h hpops (by omega)
      obtain ⟨m, alg', hloop, hres, hstop⟩ := ih hcons (by omega)
      refine ⟨m, alg', ?_, ⟨hres.consistent, htrans.trans hres.transmits, hres.counter⟩, hstop⟩
      simp only [sendUnsentRexmits, hasUnsentRexmit, hqueue, hpop, bind, Except.bind]
      simp [hmid, hloop]

/-- The second loop starts with an empty `rexmitQueue` unless its counter is zero, and leaves both
queues empty unless the window is full. -/
theorem sendUnsentSIDs_spec (now : SimTime) (n : ℕ) (h : Consistent alg none)
    (hn : n = alg.effectiveWindow.toNat) (hparked : n = 0 ∨ alg.sendQueue.rexmitQueue = []) :
    ∃ m alg', sendUnsentSIDs now n alg = .ok (m, alg') ∧ LoopResult alg alg' m ∧
      (m = 0 ∨ alg'.sendQueue.unsentSidQueue = [] ∧ alg'.sendQueue.rexmitQueue = []) := by
  induction n generalizing alg with
  | zero => exact ⟨0, alg, rfl, ⟨h, .refl alg, hn⟩, .inl rfl⟩
  | succ n ih =>
    have hempty : alg.sendQueue.rexmitQueue = [] := hparked.resolve_left (Nat.succ_ne_zero n)
    cases hqueue : alg.sendQueue.unsentSidQueue with
    | nil =>
      refine ⟨n + 1, alg, ?_, ⟨h, .refl alg, hn⟩, .inr ⟨hqueue, hempty⟩⟩
      simp [sendUnsentSIDs, hasUnsentSID, hqueue]
    | cons sid rest =>
      obtain ⟨q, timer, hpop, hpops, hrest⟩ :=
        popOneUnsentSID_spec now h.queue hqueue
      obtain ⟨mid, hmid, hcons, htrans, hsq, heff⟩ :=
        requestSent_spec now false h hpops (by omega)
      have hmidEmpty : mid.sendQueue.rexmitQueue = [] := by
        rw [hsq]
        exact hrest.trans hempty
      obtain ⟨m, alg', hloop, hres, hstop⟩ := ih hcons (by omega) (.inr hmidEmpty)
      refine ⟨m, alg', ?_, ⟨hres.consistent, htrans.trans hres.transmits, hres.counter⟩, hstop⟩
      simp only [sendUnsentSIDs, hasUnsentSID, hqueue, hpop, bind, Except.bind]
      simp [hmid, hloop]

/-- `sendRequestsToSocket` transmits within the window until nothing waits or it is full. -/
theorem sendRequestsToSocket_spec (now : SimTime) (h : Consistent alg none) :
    ∃ alg', alg.sendRequestsToSocket now = .ok alg' ∧
      Consistent alg' none ∧ Transmits alg alg' ∧ Conserving alg' := by
  obtain ⟨n, mid, hfirst, hmid, hparked⟩ := sendUnsentRexmits_spec now _ h rfl
  obtain ⟨m, alg', hsecond, hres, hstop⟩ :=
    sendUnsentSIDs_spec now n hmid.consistent hmid.counter hparked
  refine ⟨alg', ?_, hres.consistent, hmid.transmits.trans hres.transmits, ?_⟩
  · simp only [sendRequestsToSocket, bind, Except.bind, hfirst, hsecond, pure, Except.pure]
  · rcases hstop with hzero | hempty
    · right
      have hcounter := hres.counter
      simp only [effectiveWindow] at hcounter
      omega
    · left
      exact hempty

variable (state : PccpStateVariables W)

theorem rexmitTimeout_rttMeasurementComplete (t₁ t₂ : SimTime) :
    0 ≤ (rttMeasurementComplete state t₁ t₂).rexmitTimeout := by
  have hclamp : ∀ rto : SimTime,
      (0 : SimTime) ≤ if rto < MIN_REXMIT_TIMEOUT then MIN_REXMIT_TIMEOUT else rto := by
    intro rto
    have hmin : (0 : SimTime) ≤ MIN_REXMIT_TIMEOUT := by decide
    split
    · exact hmin
    · rename_i hge
      exact hmin.trans (Int.not_lt.mp hge)
  exact hclamp _

omit [DoubleArith W] in
@[simp]
theorem window_doubleTimeout : (doubleTimeout state now).window = state.window := by
  unfold doubleTimeout
  split <;> rfl

omit [DoubleArith W] in
theorem rexmitTimeout_doubleTimeout (h : 0 ≤ state.rexmitTimeout)
    : 0 ≤ (doubleTimeout state now).rexmitTimeout := by
  have hmax : (0 : SimTime) ≤ MAX_REXMIT_TIMEOUT := by decide
  unfold doubleTimeout
  split
  · dsimp only
    split
    · exact hmax
    · exact Int.add_nonneg h h
  · exact h

@[simp]
theorem rexmitTimeout_adjustWindow (app : PccpApp) (state : PccpStateVariables W)
    (level : PccpClCode) :
    (adjustWindow app state now level).rexmitTimeout = state.rexmitTimeout := by
  unfold adjustWindow
  cases level <;> (dsimp only; repeat' split) <;> rfl

/-- What holds after an event: each SID occurs as often as `present` says, the listed requests are
given up, and every new transmission is of a SID that is present and within the window. -/
structure Effect (alg alg' : PccpAlg W) (present : SID → ℕ) (givenUp : List SID) : Prop where
  consistent : Consistent alg' none
  conserving : Conserving alg'
  occurrences : ∀ sid, alg'.sendQueue.occurrences sid = present sid
  app : alg'.pccpApp = alg.pccpApp
  aborted : alg'.aborted = alg.aborted ++ givenUp
  sent : ∃ new, alg'.sent = alg.sent ++ new ∧
    ∀ tr ∈ new, 0 < present tr.sid ∧ Transmission.Compliant tr
  window : alg'.state.window = alg.state.window ∨
    ∃ state now level, alg'.state.window = (adjustWindow alg.pccpApp state now level).window

/-- An event whose handler has moved a request between the containers and then calls
`sendRequestsToSocket`. -/
theorem sendRequestsToSocket_effect {mid : PccpAlg W} {givenUp : List SID} (now : SimTime)
    (hmid : Consistent mid none) (happ : mid.pccpApp = alg.pccpApp)
    (haborted : mid.aborted = alg.aborted ++ givenUp) (hsent : mid.sent = alg.sent)
    (hwindow : mid.state.window = alg.state.window ∨
      ∃ state now level, mid.state.window = (adjustWindow alg.pccpApp state now level).window) :
    ∃ alg', mid.sendRequestsToSocket now = .ok alg' ∧
      Effect alg alg' mid.sendQueue.occurrences givenUp := by
  obtain ⟨alg', hok, hcons, htrans, hconserving⟩ := sendRequestsToSocket_spec now hmid
  obtain ⟨new, hnew, hcompliant⟩ := htrans.sent
  refine ⟨alg', hok, hcons, hconserving, htrans.occurrences, htrans.app.trans happ,
    htrans.aborted.trans haborted, ⟨new, ?_, hcompliant⟩, ?_⟩
  · rw [hnew, hsent]
  · rw [htrans.window]
    exact hwindow

theorem sendRequest_effect (h : Consistent alg none)
    (hfresh : alg.sendQueue.occurrences sid = 0) :
    ∃ alg', alg.sendRequest now sid = .ok alg' ∧
      Effect alg alg'
        (fun sid' ↦ alg.sendQueue.occurrences sid' + if sid' = sid then 1 else 0) [] := by
  let mid : PccpAlg W := { alg with sendQueue := alg.sendQueue.enqueueRequest sid }
  have hmid : Consistent mid none :=
    ⟨wellFormed_enqueueRequest h.queue hfresh, h.armed, h.timeout⟩
  have hocc : mid.sendQueue.occurrences =
      fun sid' ↦ alg.sendQueue.occurrences sid' + if sid' = sid then 1 else 0 := by
    funext sid'
    exact occurrences_enqueueRequest
  rw [← hocc]
  exact sendRequestsToSocket_effect now hmid rfl (by simp) rfl (.inl rfl)

omit [DoubleArith W] in
/-- A request leaves the maps while its timer is not in the future event set. -/
theorem consistent_eraseMaps (alg : PccpAlg W) {q : PccpSendQueue} (hq : q.WellFormed)
    (hfind : q.sidToTimerMap.find sid = some timer) {timers : SelfMessages Timer}
    (htimers : ∀ timer', timer' ∈ timers ↔ timer' ∈ q.timerToSidMap ∧ timer' ≠ timer)
    {state : PccpStateVariables W} (htimeout : 0 ≤ state.rexmitTimeout) (aborted : List SID) :
    Consistent { alg with
      state, timers, aborted, sendQueue := q.eraseMaps sid timer } none := by
  refine ⟨wellFormed_eraseMaps hq hfind, ?_, htimeout⟩
  intro timer'
  simp only [htimers, eraseMaps, mem_remove, ne_eq, reduceCtorEq, not_false_eq_true,
    and_true]
  exact and_comm

/-- The times that `dataReceived` passes to `rttMeasurementComplete`. -/
structure RttSample where
  timeSent : SimTime
  timeReceived : SimTime

/-- The sample that is taken when Data for a SID arrives: none, unless the SID is the one that is
being measured. -/
def rttSample (alg : PccpAlg W) (now : SimTime) (sid : SID) : Option RttSample :=
  if alg.state.rtsidSendtime ≠ 0 ∧ alg.state.rtsid = sid then
    some ⟨alg.state.rtsidSendtime, now⟩
  else none

/-- The state variables after the sample. -/
def measure (alg : PccpAlg W) (now : SimTime) (sid : SID) : PccpStateVariables W :=
  match alg.rttSample now sid with
  | some sample =>
    { rttMeasurementComplete alg.state sample.timeSent sample.timeReceived with rtsidSendtime := 0 }
  | none => alg.state

theorem measure_eq : alg.measure now sid =
    if alg.state.rtsidSendtime ≠ 0 ∧ alg.state.rtsid = sid then
      { rttMeasurementComplete alg.state alg.state.rtsidSendtime now with rtsidSendtime := 0 }
    else alg.state := by
  unfold measure rttSample
  by_cases hmeasured : alg.state.rtsidSendtime ≠ 0 ∧ alg.state.rtsid = sid
  · simp only [if_pos hmeasured]
  · simp only [if_neg hmeasured]

theorem rexmitTimeout_measure (h : 0 ≤ alg.state.rexmitTimeout) :
    0 ≤ (alg.measure now sid).rexmitTimeout := by
  rw [measure_eq]
  split
  · exact rexmitTimeout_rttMeasurementComplete ..
  · exact h

/-- What `dataReceived` has done when it calls `sendRequestsToSocket`. -/
structure Received (alg mid : PccpAlg W) (now : SimTime) (sid : SID) (level : PccpClCode) :
    Prop where
  state : mid.state = adjustWindow alg.pccpApp (alg.measure now sid) now level
  app : mid.pccpApp = alg.pccpApp
  sent : mid.sent = alg.sent
  aborted : mid.aborted = alg.aborted
  queue : (sid ∉ alg.sendQueue.sidToTimerMap ∧ mid.sendQueue = alg.sendQueue) ∨
    ∃ timer, alg.sendQueue.sidToTimerMap.find sid = some timer ∧
      mid.sendQueue = alg.sendQueue.eraseMaps sid timer

/-- `dataReceived` takes a sample and adjusts the window, and discards the request if it is in
flight. -/
theorem dataReceived_eq (now : SimTime) (sid : SID) (h : Consistent alg none)
    (level : PccpClCode) :
    ∃ mid, alg.dataReceived now sid level = mid.sendRequestsToSocket now ∧
      Consistent mid none ∧ Received alg mid now sid level := by
  simp only [dataReceived, ← measure_eq, bind, Except.bind]
  have hadjusted :
      0 ≤ (adjustWindow alg.pccpApp (alg.measure now sid) now level).rexmitTimeout := by
    rw [rexmitTimeout_adjustWindow]
    exact rexmitTimeout_measure h.timeout
  cases hfind : alg.sendQueue.sidToTimerMap.find sid with
  | none =>
    simp only [findRexmitTimer, hfind]
    refine ⟨_, rfl, ⟨h.queue, h.armed, hadjusted⟩, rfl, rfl, rfl, rfl, .inl ⟨?_, rfl⟩⟩
    exact find_eq_none.mp hfind
  | some timer =>
    have hmem : sid ∈ alg.sendQueue.sidToTimerMap := mem_iff_find.mpr ⟨timer, hfind⟩
    obtain ⟨time, htime⟩ := mem_iff_find.mp ((h.queue.timeKeys sid).mpr hmem)
    have htimers : ∀ timer', timer' ∈ alg.timers.cancelEvent timer ↔
        timer' ∈ alg.sendQueue.timerToSidMap ∧ timer' ≠ timer := by
      intro timer'
      simp [h.armed, and_comm]
    have hmid := consistent_eraseMaps alg h.queue hfind htimers hadjusted alg.aborted
    simp only [findRexmitTimer, hfind, getFirstTransTime, index_of_find htime,
      discard_eq hfind]
    exact ⟨_, rfl, hmid, rfl, rfl, rfl, rfl, .inr ⟨timer, hfind, rfl⟩⟩

theorem dataReceived_effect (h : Consistent alg none) (level : PccpClCode) :
    ∃ alg', alg.dataReceived now sid level = .ok alg' ∧
      Effect alg alg'
        (fun sid' ↦ if sid' = sid ∧ sid ∈ alg.sendQueue.sidToTimerMap then 0
          else alg.sendQueue.occurrences sid') [] := by
  obtain ⟨mid, hok, hmid, hreceived⟩ := dataReceived_eq now sid h level
  have hocc : mid.sendQueue.occurrences = fun sid' ↦
      if sid' = sid ∧ sid ∈ alg.sendQueue.sidToTimerMap then 0
      else alg.sendQueue.occurrences sid' := by
    funext sid'
    rcases hreceived.queue with ⟨hnotMem, hqueue⟩ | ⟨timer, hfind, hqueue⟩
    · simp [hqueue, hnotMem]
    · have hmem : sid ∈ alg.sendQueue.sidToTimerMap := mem_iff_find.mpr ⟨timer, hfind⟩
      simp only [hqueue, hmem, and_true]
      exact occurrences_eraseMaps h.queue hmem
  rw [hok, ← hocc]
  refine sendRequestsToSocket_effect now hmid hreceived.app ?_ hreceived.sent
    (.inr ⟨_, _, _, congrArg _ hreceived.state⟩)
  simp [hreceived.aborted]

/-- A timed-out request in flight is sent again when the window has room for it, and parked
otherwise. -/
theorem retransmitRequest_effect (now : SimTime) (h : Consistent alg (some timer))
    (hfind : alg.sendQueue.sidToTimerMap.find sid = some timer) (hconserving : Conserving alg) :
    ∃ alg', alg.retransmitRequest now sid = .ok alg' ∧
      Effect alg alg' alg.sendQueue.occurrences [] := by
  have hmem : sid ∈ alg.sendQueue.sidToTimerMap := mem_iff_find.mpr ⟨timer, hfind⟩
  have hexpired : timer ∉ alg.timers := by
    simp [h.armed]
  unfold retransmitRequest
  split
  · rename_i hfull
    obtain ⟨count, time, -, hpark⟩ := enqueueRexmit_eq h.queue hfind
    have hgone : (alg.sendQueue.eraseMaps sid timer).occurrences sid = 0 := by
      rw [occurrences_eraseMaps h.queue hmem, if_pos rfl]
    have hadmits : (alg.sendQueue.eraseMaps sid timer).Admits ⟨sid, timer, count, time⟩ := by
      refine ⟨hgone, by simp [eraseMaps], ?_, ?_⟩
      · intro p hp heq
        have hfree := h.queue.parkedFree p hp
        rw [heq] at hfree
        exact hfree (h.queue.mem_timers hfind)
      · exact h.queue.allocated timer (h.queue.mem_timers hfind)
    have hwf := wellFormed_park (wellFormed_eraseMaps h.queue hfind) hadmits
    simp only [hpark, bind, Except.bind, pure, Except.pure]
    refine ⟨_, rfl, ⟨hwf, ?_, h.timeout⟩, ?_, ?_, rfl, by simp, ⟨[], by simp, by simp⟩, .inl rfl⟩
    · intro timer'
      simp only [park, eraseMaps, h.armed, mem_remove, Option.some.injEq, ne_eq,
        reduceCtorEq, not_false_eq_true, and_true]
      tauto
    · right
      have hsize := size_eraseMaps timer hmem
      simp only [effectiveWindow] at hfull
      show alg.windowSize ≤ ((alg.sendQueue.eraseMaps sid timer).getSentRequestCount : ℤ)
      omega
    · intro sid'
      rw [occurrences_park, occurrences_eraseMaps h.queue hmem]
      by_cases hs : sid' = sid
      · have honce := h.queue.once sid
        have hkey : alg.sendQueue.inFlight.count sid = 1 := count_keys_of_mem hmem
        simp only [hs, if_true]
        rw [occurrences, hkey] at honce ⊢
        omega
      · simp [hs]
  · rename_i hroom
    have hcompliant : Transmission.Compliant
        ⟨sid, alg.sendQueue.getSentRequestCount, alg.windowSize⟩ := by
      simp only [effectiveWindow] at hroom
      simp only [Transmission.Compliant]
      omega
    have hpos : 0 < alg.sendQueue.occurrences sid := by
      have hkey : alg.sendQueue.inFlight.count sid = 1 := count_keys_of_mem hmem
      rw [occurrences, hkey]
      omega
    simp only [findRexmitTimer, hfind]
    rw [scheduleTimeout_eq (by exact hexpired) h.timeout]
    refine ⟨_, rfl, ⟨h.queue, ?_, h.timeout⟩, hconserving, fun _ ↦ rfl, rfl, by simp [sendGET],
      ⟨_, rfl, ?_⟩, .inl rfl⟩
    · intro timer'
      simp only [sendGET, mem_assign, h.armed, ne_eq, reduceCtorEq, not_false_eq_true,
        and_true, Option.some.injEq]
      constructor
      · rintro (rfl | hmem')
        · exact h.queue.mem_timers hfind
        · exact hmem'.1
      · intro hmem'
        by_cases heq : timer = timer'
        · exact .inl heq.symm
        · exact .inr ⟨hmem', heq⟩
    · intro tr htr
      obtain rfl := List.mem_singleton.mp htr
      exact ⟨hpos, hcompliant⟩

/-- A timeout ends the measurement of its request. -/
def cancelMeasurement (sid : SID) : PccpStateVariables W :=
  if state.rtsidSendtime ≠ 0 ∧ state.rtsid = sid then { state with rtsidSendtime := 0 } else state

omit [DoubleArith W] in
@[simp]
theorem rexmitTimeout_cancelMeasurement :
    (cancelMeasurement state sid).rexmitTimeout = state.rexmitTimeout := by
  unfold cancelMeasurement
  split <;> rfl

omit [DoubleArith W] in
@[simp]
theorem window_cancelMeasurement : (cancelMeasurement state sid).window = state.window := by
  unfold cancelMeasurement
  split <;> rfl

/-- The request of an expired timer, whose retransmission count goes up, is given up once it has
used its retransmissions, and retransmitted otherwise. -/
theorem processRexmitTimer_eq (now : SimTime) (h : Consistent alg (some timer))
    (htimer : timer ∈ alg.sendQueue.timerToSidMap) :
    ∃ sid count, alg.sendQueue.sidToTimerMap.find sid = some timer ∧
      alg.sendQueue.sidRexmitCount.find sid = some count ∧
      alg.processRexmitTimer now timer =
        let state := cancelMeasurement alg.state sid
        let q := alg.sendQueue.increaseRexmitCount sid
        if count + 1 > alg.pccpApp.maxRexmitLimit then
          { alg with
            state, sendQueue := q.eraseMaps sid timer
            aborted := alg.aborted ++ [sid] }.sendRequestsToSocket now
        else
          { alg with
            state := doubleTimeout state now
            sendQueue := q }.retransmitRequest now sid := by
  obtain ⟨sid, hsid⟩ := mem_iff_find.mp htimer
  have hfind := (h.queue.inverse sid timer).mpr hsid
  have hmem : sid ∈ alg.sendQueue.sidToTimerMap := mem_iff_find.mpr ⟨timer, hfind⟩
  obtain ⟨count, hcount⟩ := mem_iff_find.mp ((h.queue.countKeys sid).mpr hmem)
  refine ⟨sid, count, hfind, hcount, ?_⟩
  have hread : (alg.sendQueue.increaseRexmitCount sid).getRexmitCount sid =
      (count + 1, alg.sendQueue.increaseRexmitCount sid) := by
    have hincreased : (alg.sendQueue.increaseRexmitCount sid).sidRexmitCount.find sid =
        some (count + 1) := by
      simp only [increaseRexmitCount, index_of_find hcount, find_assign, if_true]
    simp only [getRexmitCount, index_of_find hincreased]
  have hqfind : (alg.sendQueue.increaseRexmitCount sid).sidToTimerMap.find sid = some timer := hfind
  simp only [processRexmitTimer, findSID_eq hsid, bind, Except.bind, hread, discard_eq hqfind]
  rfl

/-- An expired timer belongs to a request in flight, which is given up once it has used its
retransmissions. -/
theorem processRexmitTimer_effect (now : SimTime) (h : Consistent alg (some timer))
    (htimer : timer ∈ alg.sendQueue.timerToSidMap) (hconserving : Conserving alg) :
    ∃ sid alg', alg.processRexmitTimer now timer = .ok alg' ∧
      sid ∈ alg.sendQueue.sidToTimerMap ∧
      (Effect alg alg' alg.sendQueue.occurrences [] ∨
        Effect alg alg'
          (fun sid' ↦ if sid' = sid then 0 else alg.sendQueue.occurrences sid') [sid]) := by
  obtain ⟨sid, count, hfind, -, hok⟩ := processRexmitTimer_eq now h htimer
  have hmem : sid ∈ alg.sendQueue.sidToTimerMap := mem_iff_find.mpr ⟨timer, hfind⟩
  -- the queue after the retransmission count has gone up; no other container has changed
  let q := alg.sendQueue.increaseRexmitCount sid
  have hwf : q.WellFormed := wellFormed_increaseRexmitCount h.queue hmem
  have hqfind : q.sidToTimerMap.find sid = some timer := hfind
  have htimeout : 0 ≤ (cancelMeasurement alg.state sid).rexmitTimeout := by
    rw [rexmitTimeout_cancelMeasurement]
    exact h.timeout
  refine ⟨sid, ?_⟩
  rw [hok]
  split
  · have htimers' : ∀ timer', timer' ∈ alg.timers ↔
        timer' ∈ q.timerToSidMap ∧ timer' ≠ timer := by
      intro timer'
      simp [h.armed, q, increaseRexmitCount, eq_comm]
    have hmid := consistent_eraseMaps alg hwf hqfind htimers' htimeout (alg.aborted ++ [sid])
    have hgone : (q.eraseMaps sid timer).occurrences =
        fun sid' ↦ if sid' = sid then 0 else alg.sendQueue.occurrences sid' := by
      funext sid'
      exact occurrences_eraseMaps hwf hmem
    obtain ⟨alg', hok, heffect⟩ := sendRequestsToSocket_effect now hmid
      (show _ = alg.pccpApp from rfl) (show _ = alg.aborted ++ [sid] from rfl) rfl
      (.inl (window_cancelMeasurement alg.state))
    rw [hgone] at heffect
    exact ⟨alg', hok, hmem, .inr heffect⟩
  · have hdoubled : (doubleTimeout (cancelMeasurement alg.state sid) now).window =
        alg.state.window := by
      rw [window_doubleTimeout, window_cancelMeasurement]
    have hmid : Consistent
        { alg with state := doubleTimeout (cancelMeasurement alg.state sid) now, sendQueue := q }
        (some timer) :=
      ⟨hwf, h.armed, rexmitTimeout_doubleTimeout _ htimeout⟩
    have hmidConserving : Conserving
        { alg with
          state := doubleTimeout (cancelMeasurement alg.state sid) now
          sendQueue := q } := by
      simp only [Conserving, windowSize, hdoubled]
      exact hconserving
    obtain ⟨alg', hok, heffect⟩ := retransmitRequest_effect now hmid hqfind hmidConserving
    exact ⟨alg', hok, hmem, .inl
      { heffect with window := by simpa only [hdoubled] using heffect.window }⟩

/-- The events of a run over distinct requests: a request is new, a timer is scheduled. -/
def Admissible (alg : PccpAlg W) (event : Event) : Prop :=
  (consumer W).Enabled alg event ∧
    ∀ sid, event.action = .sendRequest sid → alg.sendQueue.occurrences sid = 0

/-- The numbers of occurrences after an event of which the retransmission limit gives up the listed
requests. -/
def occurrencesAfter (alg : PccpAlg W) (event : Event) (givenUp : List SID) (sid : SID) : ℕ :=
  match event.action with
  | .sendRequest requested => alg.sendQueue.occurrences sid + if sid = requested then 1 else 0
  | .dataReceived answered _ =>
    if sid = answered ∧ answered ∈ alg.sendQueue.sidToTimerMap then 0
    else alg.sendQueue.occurrences sid
  | .rexmitTimer _ => if sid ∈ givenUp then 0 else alg.sendQueue.occurrences sid

/-- No handler faults, and each has its effect. -/
theorem handle_effect {event : Event} (h : Consistent alg none) (hconserving : Conserving alg)
    (hevent : Admissible alg event) :
    ∃ givenUp alg', handle alg event = .ok alg' ∧
      Effect alg alg' (occurrencesAfter alg event givenUp) givenUp := by
  obtain ⟨now, action⟩ := event
  cases action with
  | sendRequest sid => exact ⟨[], sendRequest_effect h (hevent.2 sid rfl)⟩
  | dataReceived sid level => exact ⟨[], dataReceived_effect h level⟩
  | rexmitTimer timer =>
    have hscheduled : timer ∈ alg.timers := hevent.1 timer rfl
    have htimer := ((h.armed timer).mp hscheduled).1
    let mid : PccpAlg W := { alg with timers := alg.timers.remove timer }
    have hmid : Consistent mid (some timer) := by
      refine ⟨h.queue, ?_, h.timeout⟩
      intro timer'
      simp [mid, h.armed, and_comm, eq_comm]
    obtain ⟨sid, alg', hok, -, heffect⟩ :=
      processRexmitTimer_effect now hmid htimer hconserving
    rcases heffect with heffect | heffect
    · refine ⟨[], alg', hok, ?_⟩
      have hsame : occurrencesAfter alg ⟨now, .rexmitTimer timer⟩ [] =
          alg.sendQueue.occurrences := by
        funext sid'
        simp [occurrencesAfter]
      exact { heffect with }
    · refine ⟨[sid], alg', hok, ?_⟩
      have hgone : occurrencesAfter alg ⟨now, .rexmitTimer timer⟩ [sid] =
          fun sid' ↦ if sid' = sid then 0 else alg.sendQueue.occurrences sid' := by
        funext sid'
        simp [occurrencesAfter]
      rw [hgone]
      exact { heffect with }

end PccpAlg

end Inet4.Pccp
