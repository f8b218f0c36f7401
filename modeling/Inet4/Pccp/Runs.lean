import Inet4.Pccp.AlgInvariant

/-!
# PCCP consumers over whole runs

The runs of a consumer whose requested SIDs are pairwise distinct, under any order of requests, Data
and timer expirations.  `Invariant` relates the state to the events so far, and is the source of
three properties: no request is lost or duplicated, no transmission exceeds the window and no
waiting request is stranded, and a SID that is in none of the containers is never transmitted
again.

The last one is about requests that have been answered.  `dataReceived` finds the request only
while it is in flight; a request that had timed out into `rexmitQueue` before its Data came stays
there and is transmitted once more.
-/

namespace Inet4.Pccp

open Icn PccpSendQueue PccpAlg List Machine

variable {W : Type} [DoubleArith W]
variable {app : PccpApp} {alg alg' : PccpAlg W} {event : Event} {events : List Event} {sid : SID}

theorem requestedSids_append (first second : List Event) :
    requestedSids (first ++ second) = requestedSids first ++ requestedSids second :=
  filterMap_append

theorem answeredSids_append (first second : List Event) :
    answeredSids (first ++ second) = answeredSids first ++ answeredSids second :=
  filterMap_append

/-- What the state of a consumer has to do with the events it has handled. -/
structure Invariant (events : List Event) (alg : PccpAlg W) : Prop where
  consistent : Consistent alg none
  conserving : Conserving alg
  compliant : ∀ tr ∈ alg.sent, Transmission.Compliant tr
  /-- A SID that was not requested is nowhere. -/
  fresh : ∀ sid, sid ∉ requestedSids events → alg.sendQueue.occurrences sid = 0
  /-- An outstanding request is in one place. -/
  kept : ∀ sid ∈ requestedSids events, sid ∉ answeredSids events → sid ∉ alg.aborted →
    alg.sendQueue.occurrences sid = 1

theorem invariant_initial (app : PccpApp) : Invariant [] (initial app : PccpAlg W) where
  consistent :=
    { queue := wellFormed_empty
      armed := fun timer ↦ by simp [initial]
      timeout := by
        show (0 : SimTime) ≤ SimTime.ofMillis 1000
        decide }
  conserving := .inl ⟨rfl, rfl⟩
  compliant tr htr := by simp [initial] at htr
  fresh _ _ := by simp [initial, occurrences, inFlight, parkedSids]
  kept _ hsid := by simp [requestedSids] at hsid

/-- A request of a SID that was not requested before finds it nowhere in the queue. -/
theorem Invariant.admissible (h : Invariant events alg) (henabled : (consumer W).Enabled alg event)
    (hdistinct : (requestedSids (events ++ [event])).Nodup) : Admissible alg event := by
  refine ⟨henabled, ?_⟩
  intro sid hsid
  have hlast : requestedSids [event] = [sid] := by
    simp [requestedSids, hsid]
  rw [requestedSids_append, hlast] at hdistinct
  apply h.fresh
  exact fun hmem ↦ disjoint_of_nodup_append hdistinct hmem (mem_singleton_self sid)

/-- An outstanding request that an event neither answers nor gives up occurs once after it. -/
theorem occurrencesAfter_kept (h : Invariant events alg) (hevent : Admissible alg event)
    {givenUp : List SID} (hrequested : sid ∈ requestedSids (events ++ [event]))
    (hanswered : sid ∉ answeredSids (events ++ [event])) (haborted : sid ∉ alg.aborted ++ givenUp) :
    occurrencesAfter alg event givenUp sid = 1 := by
  obtain ⟨now, action⟩ := event
  rw [answeredSids_append, mem_append, not_or] at hanswered
  rw [mem_append, not_or] at haborted
  cases action with
  | sendRequest requested =>
    have hzero := hevent.2 requested rfl
    by_cases hs : sid = requested
    · simp [occurrencesAfter, hs, hzero]
    · have hold : sid ∈ requestedSids events := by
        simpa [requestedSids, hs] using hrequested
      simp [occurrencesAfter, hs, h.kept sid hold hanswered.1 haborted.1]
  | dataReceived answered level =>
    have hold : sid ∈ requestedSids events := by
      simpa [requestedSids] using hrequested
    have hs : sid ≠ answered := by
      simpa [answeredSids] using hanswered.2
    simp [occurrencesAfter, hs, h.kept sid hold hanswered.1 haborted.1]
  | rexmitTimer timer =>
    have hold : sid ∈ requestedSids events := by
      simpa [requestedSids] using hrequested
    simp [occurrencesAfter, haborted.2, h.kept sid hold hanswered.1 haborted.1]

/-- A SID that was not requested is nowhere after the event either. -/
theorem occurrencesAfter_fresh (h : Invariant events alg) {givenUp : List SID}
    (hfresh : sid ∉ requestedSids (events ++ [event])) :
    occurrencesAfter alg event givenUp sid = 0 := by
  obtain ⟨now, action⟩ := event
  rw [requestedSids_append, mem_append, not_or] at hfresh
  have hzero := h.fresh sid hfresh.1
  cases action with
  | sendRequest requested =>
    have hs : sid ≠ requested := by
      simpa [requestedSids] using hfresh.2
    simp [occurrencesAfter, hs, hzero]
  | dataReceived answered level | rexmitTimer timer => simp [occurrencesAfter, hzero]

/-- One step of a run over distinct requests. -/
theorem Invariant.step (h : Invariant events alg) (hstep : (consumer W).Step alg event alg')
    (hdistinct : (requestedSids (events ++ [event])).Nodup) :
    Invariant (events ++ [event]) alg' ∧
      ∃ givenUp, Effect alg alg' (occurrencesAfter alg event givenUp) givenUp := by
  have hevent := h.admissible hstep.1 hdistinct
  obtain ⟨givenUp, next, hok, heffect⟩ := handle_effect h.consistent h.conserving hevent
  have heq : next = alg' := Except.ok.inj (hok.symm.trans hstep.2)
  subst heq
  refine ⟨⟨heffect.consistent, heffect.conserving, ?_, ?_, ?_⟩, givenUp, heffect⟩
  · obtain ⟨new, hsent, hnew⟩ := heffect.sent
    rw [hsent]
    intro tr htr
    rcases mem_append.mp htr with htr | htr
    · exact h.compliant tr htr
    · exact (hnew tr htr).2
  · intro sid hsid
    rw [heffect.occurrences]
    exact occurrencesAfter_fresh h hsid
  · intro sid hrequested hanswered haborted
    rw [heffect.occurrences]
    rw [heffect.aborted] at haborted
    exact occurrencesAfter_kept h hevent hrequested hanswered haborted

theorem invariant_of_run {before : List Event} (h : Invariant before alg)
    (hrun : (consumer W).Run alg events alg')
    (hdistinct : (requestedSids (before ++ events)).Nodup) : Invariant (before ++ events) alg' := by
  induction hrun generalizing before with
  | nil alg => simpa using h
  | @cons alg mid alg' event rest hstep _ ih =>
    rw [append_cons before event rest] at hdistinct ⊢
    have hprefix : (requestedSids (before ++ [event])).Nodup := by
      rw [requestedSids_append] at hdistinct
      exact (nodup_append.mp hdistinct).1
    exact ih (h.step hstep hprefix).1 hdistinct

/-- After every run over distinct requests, a requested SID that was neither answered nor given up
is in exactly one place and there once; the four maps hold the same SIDs, and the two timer maps are
inverse to each other. -/
theorem request_kept_once (hrun : (consumer W).Run (initial app) events alg)
    (hdistinct : (requestedSids events).Nodup) :
    (∀ sid ∈ requestedSids events, sid ∉ answeredSids events → sid ∉ alg.aborted →
      alg.sendQueue.unsentSidQueue.count sid + alg.sendQueue.sidToTimerMap.keys.count sid +
        (alg.sendQueue.rexmitQueue.map TimeoutRequest.sid).count sid = 1) ∧
    (∀ sid, (sid ∈ alg.sendQueue.sidRexmitCount ↔ sid ∈ alg.sendQueue.sidToTimerMap) ∧
      (sid ∈ alg.sendQueue.firstTransTime ↔ sid ∈ alg.sendQueue.sidToTimerMap) ∧
      ((∃ timer, alg.sendQueue.timerToSidMap.find timer = some sid) ↔
        sid ∈ alg.sendQueue.sidToTimerMap)) ∧
    (∀ sid timer, alg.sendQueue.sidToTimerMap.find sid = some timer ↔
      alg.sendQueue.timerToSidMap.find timer = some sid) := by
  have hinv : Invariant events alg := invariant_of_run (invariant_initial app) hrun hdistinct
  have hqueue := hinv.consistent.queue
  refine ⟨hinv.kept, ?_, hqueue.inverse⟩
  intro sid
  refine ⟨hqueue.countKeys sid, hqueue.timeKeys sid, ?_⟩
  simp only [← hqueue.inverse]
  exact AssocMap.mem_iff_find.symm

/-- Three requests with room for two, and a first timer that expires after Data of another consumer
has shrunk the window. -/
def shrinkingWindow : List Event :=
  [⟨0, .sendRequest ⟨default, 1⟩⟩, ⟨0, .sendRequest ⟨default, 2⟩⟩,
    ⟨0, .sendRequest ⟨default, 3⟩⟩, ⟨0, .dataReceived ⟨default, 4⟩ .BUSY_2⟩,
    ⟨1000000000000, .rexmitTimer 0⟩]

theorem request_kept_once_shrinkingWindow :
    ∃ alg : PccpAlg ℚ, (consumer ℚ).Run (initial ⟨true, 2, 12⟩) shrinkingWindow alg ∧
      alg.sendQueue.unsentSidQueue.count ⟨default, 1⟩ +
        alg.sendQueue.sidToTimerMap.keys.count ⟨default, 1⟩ +
        (alg.sendQueue.rexmitQueue.map TimeoutRequest.sid).count ⟨default, 1⟩ = 1 := by
  have hexec : ((consumer ℚ).exec (initial ⟨true, 2, 12⟩) shrinkingWindow).any
      fun alg ↦ (⟨default, 1⟩ : SID) ∉ alg.aborted := by decide +kernel
  obtain ⟨alg, hrun, haborted⟩ := exists_run_of_exec hexec
  exact ⟨alg, hrun, (request_kept_once hrun (by decide)).1 _ (by decide) (by decide) haborted⟩

/-- Exact division rounds a number of at least one to at least one. -/
theorem one_le_truncRat {x : ℚ} (h : 1 ≤ x) : 1 ≤ truncRat x := by
  have hden : (0 : ℤ) < x.den := by exact_mod_cast x.den_pos
  have hnum : (x.den : ℤ) ≤ x.num := by
    have hle : (1 : ℚ) ≤ x.num / x.den := by
      rw [Rat.num_div_den]
      exact h
    rw [le_div_iff₀ (by exact_mod_cast x.den_pos), one_mul] at hle
    exact_mod_cast hle
  rw [truncRat, Int.tdiv_eq_ediv_of_nonneg (hden.le.trans hnum)]
  exact (Int.le_ediv_iff_mul_le hden).mpr (by simpa using hnum)

theorem one_le_adjustWindow (app : PccpApp) (state : PccpStateVariables ℚ) (now : SimTime)
    (level : PccpClCode) : 1 ≤ (adjustWindow app state now level).window := by
  have hlarge : (1 : ℚ) ≤ VERY_LARGE_WINDOW := by
    show (1 : ℚ) ≤ 2000000000
    norm_num
  have hclamp : ∀ state : PccpStateVariables ℚ, (1 : ℚ) ≤
      (if DoubleArith.lt state.window (DoubleArith.ofRat 1) then
        { state with window := DoubleArith.ofRat 1 } else state).window := by
    intro state
    split
    · exact le_refl (1 : ℚ)
    · rename_i hlt
      have hnot : ¬state.window < 1 := by
        intro h
        exact hlt (decide_eq_true h)
      exact not_lt.mp hnot
  unfold adjustWindow
  dsimp only
  split
  · exact hclamp _
  · exact hlarge

/-- What holds of the initial window and of every adjusted one holds of the window after every
run. -/
theorem window_of_run {P : W → Prop} {before : List Event}
    (hadjust : ∀ state now level, P (adjustWindow app state now level).window)
    (hinv : Invariant before alg) (happ : alg.pccpApp = app) (hwindow : P alg.state.window)
    (hrun : (consumer W).Run alg events alg')
    (hdistinct : (requestedSids (before ++ events)).Nodup) : P alg'.state.window := by
  induction hrun generalizing before with
  | nil alg => exact hwindow
  | @cons alg mid alg' event rest hstep _ ih =>
    rw [append_cons before event rest] at hdistinct
    have hprefix : (requestedSids (before ++ [event])).Nodup := by
      rw [requestedSids_append] at hdistinct
      exact (nodup_append.mp hdistinct).1
    obtain ⟨hmid, givenUp, heffect⟩ := hinv.step hstep hprefix
    refine ih hmid (heffect.app.trans happ) ?_ hdistinct
    rcases heffect.window with hsame | ⟨state, now, level, hadjusted⟩
    · rw [hsame]
      exact hwindow
    · rw [hadjusted, happ]
      exact hadjust state now level

theorem one_le_initial_window (hinit : 1 ≤ app.initialWindowSize) :
    1 ≤ (initial app : PccpAlg ℚ).state.window := by
  show (1 : ℚ) ≤ if app.congestionControlEnabled then (app.initialWindowSize : ℚ) else 2000000000
  split
  · exact_mod_cast hinit
  · norm_num

/-- Every transmission leaves at most `int(state.window)` requests in flight.  After every event
nothing waits or the window is full, and since the window never falls below one, a request that
waits is never stranded with nothing in flight. -/
theorem window_compliance (hinit : 1 ≤ app.initialWindowSize) {alg : PccpAlg ℚ}
    (hrun : (consumer ℚ).Run (initial app) events alg) (hdistinct : (requestedSids events).Nodup) :
    (∀ tr ∈ alg.sent, (tr.sentRequestCount : ℤ) ≤ tr.windowSize) ∧
    ((alg.sendQueue.unsentSidQueue = [] ∧ alg.sendQueue.rexmitQueue = []) ∨
      alg.windowSize ≤ alg.sendQueue.getSentRequestCount) ∧
    (∀ sid, alg.sendQueue.Waiting sid → 0 < alg.sendQueue.getSentRequestCount) := by
  have hinv : Invariant events alg := invariant_of_run (invariant_initial app) hrun hdistinct
  refine ⟨hinv.compliant, hinv.conserving, ?_⟩
  intro sid hwaiting
  have hwindow : 1 ≤ alg.state.window :=
    window_of_run (P := fun w ↦ 1 ≤ w) (one_le_adjustWindow app) (invariant_initial app) rfl
      (one_le_initial_window hinit) hrun hdistinct
  have hsize : 1 ≤ alg.windowSize := one_le_truncRat hwindow
  rcases hinv.conserving with ⟨hunsent, hrexmit⟩ | hfull
  · simp [Waiting, parkedSids, hunsent, hrexmit] at hwaiting
  · omega

theorem window_compliance_shrinkingWindow :
    ∃ alg : PccpAlg ℚ, (consumer ℚ).Run (initial ⟨true, 2, 12⟩) shrinkingWindow alg ∧
      alg.sendQueue.Waiting ⟨default, 1⟩ ∧ 0 < alg.sendQueue.getSentRequestCount := by
  have hexec : ((consumer ℚ).exec (initial ⟨true, 2, 12⟩) shrinkingWindow).any
      fun alg ↦ (⟨default, 1⟩ : SID) ∈ alg.sendQueue.parkedSids := by decide +kernel
  obtain ⟨alg, hrun, hparked⟩ := exists_run_of_exec hexec
  have hcompliance := window_compliance (by decide) hrun (by decide)
  exact ⟨alg, hrun, .inr hparked, hcompliance.2.2 _ (.inr hparked)⟩

/-- A SID that is nowhere in the queue and is not requested stays away, and is not transmitted. -/
theorem absent_of_run {before : List Event} (hinv : Invariant before alg)
    (habsent : alg.sendQueue.occurrences sid = 0)
    (hrun : (consumer W).Run alg events alg')
    (hdistinct : (requestedSids (before ++ events)).Nodup) (hunasked : sid ∉ requestedSids events) :
    ∃ new, alg'.sent = alg.sent ++ new ∧ ∀ tr ∈ new, tr.sid ≠ sid := by
  induction hrun generalizing before with
  | nil alg => exact ⟨[], by simp, by simp⟩
  | @cons alg mid alg' event rest hstep _ ih =>
    rw [append_cons before event rest] at hdistinct
    have hprefix : (requestedSids (before ++ [event])).Nodup := by
      rw [requestedSids_append] at hdistinct
      exact (nodup_append.mp hdistinct).1
    rw [← singleton_append, requestedSids_append, mem_append, not_or] at hunasked
    obtain ⟨hmid, givenUp, heffect⟩ := hinv.step hstep hprefix
    have hafter : occurrencesAfter alg event givenUp sid = 0 := by
      obtain ⟨now, action⟩ := event
      cases action with
      | sendRequest requested =>
        have hs : sid ≠ requested := by
          simpa [requestedSids] using hunasked.1
        simp [occurrencesAfter, hs, habsent]
      | dataReceived answered level => simp [occurrencesAfter, habsent]
      | rexmitTimer timer => simp [occurrencesAfter, habsent]
    have hmidAbsent : mid.sendQueue.occurrences sid = 0 := by
      rw [heffect.occurrences, hafter]
    obtain ⟨first, hfirst, hfirstNe⟩ := heffect.sent
    obtain ⟨second, hsecond, hsecondNe⟩ := ih hmid hmidAbsent hdistinct hunasked.2
    refine ⟨first ++ second, ?_, ?_⟩
    · rw [hsecond, hfirst, append_assoc]
    · intro tr htr
      rcases mem_append.mp htr with htr | htr
      · rintro rfl
        have hpos := (hfirstNe tr htr).1
        omega
      · exact hsecondNe tr htr

/-- Once Data has arrived for a SID that was not waiting in `unsentSidQueue` or `rexmitQueue`, and
whose first request does not lie ahead, no later event transmits the SID. -/
theorem answered_not_sent_again {before after : List Event} {now : SimTime} {level : PccpClCode}
    {answered : PccpAlg W} (hbefore : (consumer W).Run (initial app) before alg)
    (hdata : (consumer W).Step alg ⟨now, .dataReceived sid level⟩ answered)
    (hafter : (consumer W).Run answered after alg')
    (hdistinct : (requestedSids (before ++ after)).Nodup)
    (hunasked : sid ∉ requestedSids after) (hwaiting : ¬alg.sendQueue.Waiting sid) :
    ∃ new, alg'.sent = answered.sent ++ new ∧ ∀ tr ∈ new, tr.sid ≠ sid := by
  have hrequested : requestedSids (before ++ [⟨now, .dataReceived sid level⟩]) =
      requestedSids before := by
    simp [requestedSids]
  rw [requestedSids_append] at hdistinct
  have hprefix : (requestedSids before).Nodup := (nodup_append.mp hdistinct).1
  have hinv : Invariant before alg := invariant_of_run (invariant_initial app) hbefore hprefix
  obtain ⟨hmid, givenUp, heffect⟩ := hinv.step hdata (by rwa [hrequested])
  have habsent : answered.sendQueue.occurrences sid = 0 := by
    rw [heffect.occurrences]
    by_cases hmem : sid ∈ alg.sendQueue.sidToTimerMap
    · simp [occurrencesAfter, hmem]
    · have hkey : alg.sendQueue.inFlight.count sid = 0 := AssocMap.count_keys_of_notMem hmem
      simp [occurrencesAfter, hmem, occurrences_of_not_waiting hwaiting, hkey]
  refine absent_of_run hmid habsent hafter ?_ hunasked
  rw [requestedSids_append, hrequested]
  exact hdistinct

theorem answered_not_sent_again_inFlight :
    ∃ alg answered alg' : PccpAlg ℚ,
      (consumer ℚ).Run (initial ⟨true, 2, 12⟩)
        [⟨0, .sendRequest ⟨default, 1⟩⟩, ⟨0, .sendRequest ⟨default, 2⟩⟩] alg ∧
      (consumer ℚ).Step alg ⟨5, .dataReceived ⟨default, 1⟩ .FREE⟩ answered ∧
      (consumer ℚ).Run answered [⟨1000000000000, .rexmitTimer 1⟩] alg' ∧
      ∃ new, alg'.sent = answered.sent ++ new ∧ ∀ tr ∈ new, tr.sid ≠ ⟨default, 1⟩ := by
  have hwaiting : ((consumer ℚ).exec (initial ⟨true, 2, 12⟩)
      [⟨0, .sendRequest ⟨default, 1⟩⟩, ⟨0, .sendRequest ⟨default, 2⟩⟩]).any fun alg ↦
        (⟨default, 1⟩ : SID) ∉ alg.sendQueue.unsentSidQueue ++ alg.sendQueue.parkedSids := by
    decide +kernel
  have hlast : ((consumer ℚ).exec (initial ⟨true, 2, 12⟩)
      ([⟨0, .sendRequest ⟨default, 1⟩⟩, ⟨0, .sendRequest ⟨default, 2⟩⟩] ++
        ⟨5, .dataReceived ⟨default, 1⟩ .FREE⟩ :: [⟨1000000000000, .rexmitTimer 1⟩])).any
      fun _ ↦ True := by
    decide +kernel
  obtain ⟨alg, hbefore, hnot⟩ := exists_run_of_exec hwaiting
  obtain ⟨alg', hrun, -⟩ := exists_run_of_exec hlast
  obtain ⟨mid, hfirst, hrest⟩ := run_append_iff.mp hrun
  obtain rfl := hfirst.unique hbefore
  obtain ⟨answered, hdata, hafter⟩ := run_cons_iff.mp hrest
  refine ⟨mid, answered, alg', hbefore, hdata, hafter,
    answered_not_sent_again hbefore hdata hafter (by decide) (by decide) ?_⟩
  simpa [Waiting] using hnot

/-- Three requests with room for three.  Congestion shrinks the window to one, the first request
times out into `rexmitQueue`, and then its Data arrives. -/
def answeredWhileParked : List Event :=
  [⟨1000000000000, .sendRequest ⟨default, 1⟩⟩, ⟨1000000000000, .sendRequest ⟨default, 2⟩⟩,
    ⟨1090000000000, .sendRequest ⟨default, 3⟩⟩,
    ⟨1100000000000, .dataReceived ⟨default, 2⟩ .CONGESTED⟩,
    ⟨2000000000000, .rexmitTimer 0⟩,
    ⟨2050000000000, .dataReceived ⟨default, 1⟩ .BUSY_2⟩]

/-- The next Data reopens the window, and the answered request is transmitted again. -/
theorem answered_sent_again_parked :
    ∃ answered alg' : PccpAlg ℚ, ∃ tr,
      (consumer ℚ).Run (initial ⟨true, 3, 12⟩) answeredWhileParked answered ∧
      (⟨default, 1⟩ : SID) ∈ answeredSids answeredWhileParked ∧
      (consumer ℚ).Run answered [⟨2060000000000, .dataReceived ⟨default, 3⟩ .FREE⟩] alg' ∧
      (requestedSids (answeredWhileParked ++
        [⟨2060000000000, .dataReceived ⟨default, 3⟩ .FREE⟩])).Nodup ∧
      alg'.sent = answered.sent ++ [tr] ∧ tr.sid = ⟨default, 1⟩ := by
  have hexec : ((consumer ℚ).exec (initial ⟨true, 3, 12⟩) answeredWhileParked).any fun alg ↦
      alg.sent = [⟨⟨default, 1⟩, 1, 3⟩, ⟨⟨default, 2⟩, 2, 3⟩, ⟨⟨default, 3⟩, 3, 3⟩] := by
    decide +kernel
  have hexec' : ((consumer ℚ).exec (initial ⟨true, 3, 12⟩)
      (answeredWhileParked ++ [⟨2060000000000, .dataReceived ⟨default, 3⟩ .FREE⟩])).any fun alg ↦
        alg.sent = [⟨⟨default, 1⟩, 1, 3⟩, ⟨⟨default, 2⟩, 2, 3⟩, ⟨⟨default, 3⟩, 3, 3⟩,
          ⟨⟨default, 1⟩, 1, 2⟩] := by
    decide +kernel
  obtain ⟨answered, hrun, hsent⟩ := exists_run_of_exec hexec
  obtain ⟨alg', hrun', hsent'⟩ := exists_run_of_exec hexec'
  obtain ⟨mid, hfirst, hrest⟩ := run_append_iff.mp hrun'
  obtain rfl := hfirst.unique hrun
  refine ⟨mid, alg', ⟨⟨default, 1⟩, 1, 2⟩, hrun, by decide, hrest, by decide, ?_, rfl⟩
  rw [hsent', hsent]
  rfl

end Inet4.Pccp
