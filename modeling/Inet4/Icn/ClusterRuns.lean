import Inet4.Icn.Cluster

/-!
# Every node is, or has, a cluster head

Runs of a node under received packets and the expirations of its timers.  The state of a node says
which timers are pending, and for a member or gateway the `wait` timer dates from the last CALL.
-/

namespace Inet4.Icn

open AssocMap List
open Except (ok)

namespace SimpleCluster

variable {own : ClusterModule} {node node' : SimpleCluster} {now time at_ : SimTime}
variable {timer msg : ClusterTimer} {head : SimpleClusterPacket}

theorem scheduleAt_eq_ok (h : node.scheduleAt now at_ timer = .ok node') :
    node' = { node with timers := node.timers.assign timer at_ } := by
  obtain ⟨timers, hschedule, h⟩ := bind_eq_ok h
  obtain ⟨-, -, rfl⟩ := SelfMessages.scheduleAt_eq_ok hschedule
  exact (ok.inj h).symm

theorem disciplined_scheduleAt : Disciplined (node.scheduleAt now at_ timer) ↔
    timer ∉ node.timers := by
  rw [← SelfMessages.disciplined_scheduleAt node.timers now timer at_]
  constructor
  · intro h hfault
    apply h
    simp [scheduleAt, hfault, bind, Except.bind]
  · exact fun h ↦ h.bind fun _ _ ↦ disciplined_ok _

@[simp]
theorem timers_cancelEvent : (node.cancelEvent timer).timers = node.timers.cancelEvent timer := rfl

@[simp]
theorem state_cancelEvent : (node.cancelEvent timer).state = node.state := rfl

theorem disciplined_scheduleHello : Disciplined (node.scheduleHello own now time) :=
  disciplined_scheduleAt.mpr (by simp [sendCluster])

theorem scheduleHello_eq_ok (h : node.scheduleHello own now time = .ok node') :
    node'.state = node.state ∧
      node'.timers = (node.timers.cancelEvent .hello).assign .hello (now + time) := by
  obtain rfl := scheduleAt_eq_ok h
  exact ⟨rfl, rfl⟩

theorem disciplined_scheduleWait : Disciplined (node.scheduleWait own now) :=
  disciplined_scheduleAt.mpr (by simp)

theorem scheduleWait_eq_ok (h : node.scheduleWait own now = .ok node') :
    node' = { node with
      timers := (node.timers.cancelEvent .wait).assign .wait (now + own.waitingTime) } :=
  scheduleAt_eq_ok h

theorem disciplined_scheduleRetry (h : .retry ∉ node.timers) :
    Disciplined (node.scheduleRetry own now time) := by
  unfold scheduleRetry
  split
  · exact disciplined_scheduleAt.mpr h
  · exact disciplined_ok _

theorem scheduleRetry_eq_ok (h : node.scheduleRetry own now time = .ok node') :
    node'.state = node.state ∧
      (node'.timers = node.timers ∨ node'.timers = node.timers.assign .retry (now + time)) := by
  unfold scheduleRetry at h
  split at h
  · obtain rfl := scheduleAt_eq_ok h
    exact ⟨rfl, .inr rfl⟩
  · obtain rfl := ok.inj h
    exact ⟨rfl, .inl rfl⟩

theorem disciplined_becomeMember : Disciplined (node.becomeMember own now) := by
  refine (disciplined_scheduleAt.mpr (by simp)).bind fun first _ ↦ ?_
  exact disciplined_scheduleWait.bind fun _ _ ↦ disciplined_ok _

theorem becomeMember_eq_ok (h : node.becomeMember own now = .ok node') :
    node'.state = .MEMBER ∧ node'.timers.find .wait = some (now + own.waitingTime) ∧
      .prehead ∉ node'.timers ∧ .hello ∉ node'.timers ∧
      ∀ timer ∈ [ClusterTimer.startTimer, .collect, .retry],
        node'.timers.find timer = node.timers.find timer := by
  obtain ⟨first, hfirst, h⟩ := bind_eq_ok h
  obtain ⟨second, hsecond, h⟩ := bind_eq_ok h
  obtain rfl := scheduleAt_eq_ok hfirst
  obtain rfl := scheduleWait_eq_ok hsecond
  obtain rfl := ok.inj h
  simp

theorem disciplined_becomeGateway : Disciplined (node.becomeGateway own now) := by
  refine (disciplined_scheduleAt.mpr (by simp)).bind fun first _ ↦ ?_
  exact disciplined_scheduleWait.bind fun _ _ ↦ disciplined_ok _

theorem becomeGateway_eq_ok (h : node.becomeGateway own now = .ok node') :
    node'.state = .GATEWAY ∧ .hello ∉ node'.timers ∧
      ∀ timer ∈ [ClusterTimer.startTimer, .collect, .retry, .prehead],
        node'.timers.find timer = node.timers.find timer := by
  obtain ⟨first, hfirst, h⟩ := bind_eq_ok h
  obtain ⟨second, hsecond, h⟩ := bind_eq_ok h
  obtain rfl := scheduleAt_eq_ok hfirst
  obtain rfl := scheduleWait_eq_ok hsecond
  obtain rfl := ok.inj h
  simp

theorem disciplined_becomePrehead (h : .prehead ∉ node.timers) :
    Disciplined (node.becomePrehead own now time) :=
  (disciplined_scheduleAt.mpr (by simp [h])).bind fun _ _ ↦ disciplined_scheduleHello

theorem becomePrehead_eq_ok (h : node.becomePrehead own now time = .ok node') :
    node'.state = .PREHEAD ∧ .wait ∉ node'.timers ∧ .prehead ∈ node'.timers ∧
      .hello ∈ node'.timers ∧
      ∀ timer ∈ [ClusterTimer.startTimer, .collect, .retry],
        node'.timers.find timer = node.timers.find timer := by
  obtain ⟨first, hfirst, h⟩ := bind_eq_ok h
  obtain rfl := scheduleAt_eq_ok hfirst
  obtain ⟨hstate, htimers⟩ := scheduleHello_eq_ok h
  simp [hstate, htimers]

theorem disciplined_becomeHead : Disciplined (node.becomeHead own now time) :=
  disciplined_scheduleHello

theorem becomeHead_eq_ok (h : node.becomeHead own now time = .ok node') :
    node'.state = .HEAD ∧ .wait ∉ node'.timers ∧ .hello ∈ node'.timers ∧
      ∀ timer ∈ [ClusterTimer.startTimer, .collect, .retry, .prehead],
        node'.timers.find timer = node.timers.find timer := by
  obtain ⟨hstate, htimers⟩ := scheduleHello_eq_ok h
  simp [hstate, htimers]

/-- What happens to a node. -/
inductive ClusterAction
  | receive (head : SimpleClusterPacket)
  /-- A timer expires. -/
  | expire (msg : ClusterTimer)

/-- An action, the clock reading at which it happens, and the number that `uniform` draws if it is
called. -/
structure ClusterEvent where
  now : SimTime
  time : SimTime
  action : ClusterAction

/-- A CALL is received. -/
def ClusterEvent.IsCall (event : ClusterEvent) : Prop :=
  ∃ head, event.action = .receive head ∧ head.type = .CALL

/-- A node in its network: packets arrive once it has started, and a timer expires at the time for
which it is scheduled. -/
def machine (own : ClusterModule) : Machine SimpleCluster ClusterEvent Fault where
  Enabled node event :=
    match event.action with
    | .receive _ => .startTimer ∉ node.timers
    | .expire msg => node.timers.find msg = some event.now
  handle node event :=
    match event.action with
    | .receive head => node.processClusterPacket own event.now head
    | .expire msg => (node.cancelEvent msg).handleSelfMessage own event.now event.time msg

instance (node : SimpleCluster) (event : ClusterEvent) :
    Decidable ((machine own).Enabled node event) :=
  match event with
  | ⟨_, _, .receive _⟩ => inferInstanceAs (Decidable (_ ∉ _))
  | ⟨_, _, .expire _⟩ => inferInstanceAs (Decidable (_ = _))

/-- The pending timers fit the state of a node that has seen the events of `history`. -/
structure Fits (own : ClusterModule) (history : List ClusterEvent) (state : ClusterState)
    (timers : SelfMessages ClusterTimer) : Prop where
  prehead : .prehead ∈ timers ↔ state = .PREHEAD
  hello : .hello ∈ timers ↔ state = .PREHEAD ∨ state = .HEAD
  wait : .wait ∈ timers → state ≠ .PREHEAD ∧ state ≠ .HEAD
  collect : .collect ∈ timers → state = .INI ∧ .wait ∉ timers
  retry : .retry ∈ timers → .collect ∈ timers
  /-- Before the start nothing else is pending. -/
  unstarted : .startTimer ∈ timers → state = .INI ∧ ∀ timer ∈ timers, timer = .startTimer
  /-- A member or gateway waits since the last CALL. -/
  served : state = .MEMBER ∨ state = .GATEWAY → ∃ event ∈ history, event.IsCall ∧
    timers.find .wait = some (event.now + own.waitingTime)
  electing : state = .INI → timers.find .startTimer = some 0 ∨
    timers.find .collect = some own.collectingTime ∨
    timers.find .wait = some (own.collectingTime + own.waitingTime)

variable {history : List ClusterEvent} {state : ClusterState} {event : ClusterEvent}
variable {timers timers' : SelfMessages ClusterTimer}

theorem fits_initialized (retry : ℕ) :
    Fits own [] .INI (initialized own retry 0).timers := by
  constructor <;> simp [initialized]

theorem Fits.snoc (h : Fits own history state timers) (event : ClusterEvent) :
    Fits own (history ++ [event]) state timers := by
  refine ⟨h.prehead, h.hello, h.wait, h.collect, h.retry, h.unstarted, ?_, h.electing⟩
  intro hstate
  obtain ⟨call, hcall, hserved⟩ := h.served hstate
  exact ⟨call, mem_append_left _ hcall, hserved⟩

/-- A node that has started and has left `INI`, or has a pending timer, does not start again. -/
theorem Fits.started (h : Fits own history state timers) (hmsg : msg ∈ timers)
    (hne : msg ≠ .startTimer) : .startTimer ∉ timers :=
  fun hstart ↦ hne ((h.unstarted hstart).2 msg hmsg)

/-- The timers of the election are over outside of `INI`. -/
theorem Fits.elected (h : Fits own history state timers) (hstate : state ≠ .INI) :
    ∀ timer ∈ [ClusterTimer.startTimer, .collect, .retry], timer ∉ timers := by
  simp only [forall_mem_cons, not_mem_nil, false_implies, implies_true, and_true]
  refine ⟨fun hmem ↦ hstate (h.unstarted hmem).1, fun hmem ↦ hstate (h.collect hmem).1, ?_⟩
  exact fun hmem ↦ hstate (h.collect (h.retry hmem)).1

/-- The other timers do not matter. -/
theorem Fits.of_agree (h : Fits own history state timers) (hstart : .startTimer ∉ timers)
    (hfind : ∀ timer ∈ [ClusterTimer.startTimer, .collect, .wait],
      timers'.find timer = timers.find timer)
    (hmem : ∀ timer ∈ [ClusterTimer.prehead, .hello], timer ∈ timers' ↔ timer ∈ timers)
    (hretry : .retry ∈ timers' → .retry ∈ timers) : Fits own history state timers' := by
  simp only [forall_mem_cons, not_mem_nil, false_implies, implies_true, and_true]
    at hfind hmem
  obtain ⟨hstart', hcollect, hwait⟩ := hfind
  have hcollect' : .collect ∈ timers' ↔ .collect ∈ timers := by
    rw [mem_iff_find, mem_iff_find, hcollect]
  have hwait' : .wait ∈ timers' ↔ .wait ∈ timers := by
    rw [mem_iff_find, mem_iff_find, hwait]
  have hunstarted : .startTimer ∉ timers' := by
    rwa [← find_eq_none, hstart', find_eq_none]
  refine ⟨?_, ?_, ?_, ?_, ?_, ?_, ?_, ?_⟩
  · rw [hmem.1, h.prehead]
  · rw [hmem.2, h.hello]
  · rw [hwait']
    exact h.wait
  · rw [hcollect', hwait']
    exact h.collect
  · rw [hcollect']
    exact fun hmem ↦ h.retry (hretry hmem)
  · exact fun hmem ↦ absurd hmem hunstarted
  · rw [hwait]
    exact h.served
  · rw [hstart', hcollect, hwait]
    exact h.electing

/-- Outside of `INI` no timer of the election is pending. -/
theorem fits_of_ne_ini (hstate : state ≠ .INI)
    (helected : ∀ timer ∈ [ClusterTimer.startTimer, .collect, .retry], timer ∉ timers)
    (hprehead : .prehead ∈ timers ↔ state = .PREHEAD)
    (hhello : .hello ∈ timers ↔ state = .PREHEAD ∨ state = .HEAD)
    (hwait : .wait ∈ timers → state ≠ .PREHEAD ∧ state ≠ .HEAD)
    (hserved : state = .MEMBER ∨ state = .GATEWAY → ∃ event ∈ history, event.IsCall ∧
      timers.find .wait = some (event.now + own.waitingTime)) :
    Fits own history state timers := by
  simp only [forall_mem_cons, not_mem_nil, false_implies, implies_true, and_true]
    at helected
  obtain ⟨hstart, hcollect, hretry⟩ := helected
  refine ⟨hprehead, hhello, hwait, ?_, ?_, ?_, hserved, fun hini ↦ absurd hini hstate⟩
  · exact fun hmem ↦ absurd hmem hcollect
  · exact fun hmem ↦ absurd hmem hretry
  · exact fun hmem ↦ absurd hmem hstart

/-- After a CALL at time `now` a member or gateway waits from then on. -/
theorem fits_served (hstate : state = .MEMBER ∨ state = .GATEWAY)
    (helected : ∀ timer ∈ [ClusterTimer.startTimer, .collect, .retry], timer ∉ timers)
    (hprehead : .prehead ∉ timers) (hhello : .hello ∉ timers)
    (hwait : timers.find .wait = some (event.now + own.waitingTime)) (hcall : event.IsCall) :
    Fits own (history ++ [event]) state timers := by
  have hne : state ≠ .INI ∧ state ≠ .PREHEAD ∧ state ≠ .HEAD := by
    rcases hstate with rfl | rfl <;> simp
  refine fits_of_ne_ini hne.1 helected (iff_of_false hprehead hne.2.1)
    (iff_of_false hhello (by simp [hne])) (fun _ ↦ hne.2) fun _ ↦ ?_
  exact ⟨event, mem_append_right _ (mem_singleton_self event), hcall, hwait⟩

theorem fits_head (helected : ∀ timer ∈ [ClusterTimer.startTimer, .collect, .retry], timer ∉ timers)
    (hprehead : .prehead ∉ timers) (hhello : .hello ∈ timers) (hwait : .wait ∉ timers) :
    Fits own history .HEAD timers :=
  fits_of_ne_ini (by simp) helected (iff_of_false hprehead (by simp)) (iff_of_true hhello (by simp))
    (fun hmem ↦ absurd hmem hwait) (by simp)

theorem fits_prehead
    (helected : ∀ timer ∈ [ClusterTimer.startTimer, .collect, .retry], timer ∉ timers)
    (hprehead : .prehead ∈ timers) (hhello : .hello ∈ timers) (hwait : .wait ∉ timers) :
    Fits own history .PREHEAD timers :=
  fits_of_ne_ini (by simp) helected (iff_of_true hprehead rfl) (iff_of_true hhello (by simp))
    (fun hmem ↦ absurd hmem hwait) (by simp)

/-- Timers that are not pending stay so where nothing schedules them. -/
theorem forall_notMem_of_find {candidates : List ClusterTimer}
    (h : ∀ timer ∈ candidates, timer ∉ timers)
    (hfind : ∀ timer ∈ candidates, timers'.find timer = timers.find timer) :
    ∀ timer ∈ candidates, timer ∉ timers' := by
  intro timer htimer
  rw [← find_eq_none, hfind timer htimer, find_eq_none]
  exact h timer htimer

theorem Fits.of_becomeMember (hok : node.becomeMember own event.now = .ok node')
    (helected : ∀ timer ∈ [ClusterTimer.startTimer, .collect, .retry], timer ∉ node.timers)
    (hcall : event.IsCall) : Fits own (history ++ [event]) node'.state node'.timers := by
  obtain ⟨hstate, hwait, hprehead, hhello, hfind⟩ := becomeMember_eq_ok hok
  exact fits_served (.inl hstate) (forall_notMem_of_find helected hfind) hprehead hhello hwait hcall

/-- A member or gateway that a CALL reaches waits anew. -/
theorem fits_of_scheduleWait (hok : node.scheduleWait own event.now = .ok node')
    (hstate : node.state = .MEMBER ∨ node.state = .GATEWAY)
    (helected : ∀ timer ∈ [ClusterTimer.startTimer, .collect, .retry], timer ∉ node.timers)
    (hprehead : .prehead ∉ node.timers) (hhello : .hello ∉ node.timers) (hcall : event.IsCall) :
    Fits own (history ++ [event]) node'.state node'.timers := by
  obtain rfl := scheduleWait_eq_ok hok
  refine fits_served hstate ?_ (by simpa using hprehead) (by simpa using hhello) (by simp) hcall
  refine forall_notMem_of_find helected ?_
  simp

theorem Fits.called (h : Fits own history node.state node.timers)
    (hstart : .startTimer ∉ node.timers) (hcall : event.IsCall)
    (hok : node.called own event.now head = .ok node') :
    Fits own (history ++ [event]) node'.state node'.timers := by
  unfold SimpleCluster.called at hok
  split at hok
  · obtain ⟨member, hmember, rfl⟩ := bind_pure_eq_ok hok
    obtain ⟨hstate, hwait, hprehead, hhello, hfind⟩ := becomeMember_eq_ok hmember
    refine fits_served (.inl hstate) ?_ (by simp [hprehead]) (by simp [hhello]) (by simp [hwait])
      hcall
    have hstart' : .startTimer ∉ member.timers := by
      rwa [← find_eq_none, hfind _ (by simp), find_eq_none]
    simp [hstart']
  · rename_i hmember
    have helected := h.elected (by simp [hmember])
    have hprehead : .prehead ∉ node.timers := h.prehead.not.mpr (by simp [hmember])
    have hhello : .hello ∉ node.timers := h.hello.not.mpr (by simp [hmember])
    split at hok
    · obtain ⟨gateway, hgateway, hok⟩ := bind_eq_ok hok
      obtain ⟨hstate, hhello', hfind⟩ := becomeGateway_eq_ok hgateway
      refine fits_of_scheduleWait hok (.inr hstate) ?_ ?_ hhello' hcall
      · exact forall_notMem_of_find helected fun timer htimer ↦
          hfind timer (mem_append_left [ClusterTimer.prehead] htimer)
      · rwa [← find_eq_none, hfind _ (by simp), find_eq_none]
    · exact fits_of_scheduleWait hok (.inl hmember) helected hprehead hhello hcall
  · rename_i hgateway
    have helected := h.elected (by simp [hgateway])
    have hprehead : .prehead ∉ node.timers := h.prehead.not.mpr (by simp [hgateway])
    have hhello : .hello ∉ node.timers := h.hello.not.mpr (by simp [hgateway])
    split at hok
    · obtain ⟨member, hmember, hok⟩ := bind_eq_ok hok
      obtain ⟨hstate, -, hprehead', hhello', hfind⟩ := becomeMember_eq_ok hmember
      exact fits_of_scheduleWait hok (.inl hstate) (forall_notMem_of_find helected hfind) hprehead'
        hhello' hcall
    · exact fits_of_scheduleWait hok (.inr hgateway) helected hprehead hhello hcall
  · rename_i hprehead
    split at hok
    · exact .of_becomeMember hok (h.elected (by simp [hprehead])) hcall
    · obtain rfl := ok.inj hok
      exact h.snoc event
  · obtain rfl := ok.inj hok
    exact h.snoc event

theorem Fits.processClusterPacket (h : Fits own history node.state node.timers)
    (hstart : .startTimer ∉ node.timers) (haction : event.action = .receive head)
    (hok : node.processClusterPacket own event.now head = .ok node') :
    Fits own (history ++ [event]) node'.state node'.timers := by
  have hcancelled : Fits own history node.state (node.timers.cancelEvent .iniTimer) :=
    h.of_agree hstart (by simp) (by simp) (by simp)
  unfold SimpleCluster.processClusterPacket at hok
  split at hok
  · obtain rfl := ok.inj hok
    exact hcancelled.snoc event
  · rename_i hcall
    obtain ⟨served, hserved, rfl⟩ := bind_pure_eq_ok hok
    have hstart' : .startTimer ∉ node.timers.cancelEvent .iniTimer := by simpa using hstart
    have hfits : Fits own (history ++ [event]) served.state served.timers := by
      apply Fits.called _ _ ⟨head, haction, hcall⟩ hserved
      · exact hcancelled
      · exact hstart'
    exact hfits
  · obtain rfl := ok.inj hok
    exact hcancelled.snoc event

theorem disciplined_called : Disciplined (node.called own now head) := by
  unfold called
  split
  · exact disciplined_becomeMember.bind fun _ _ ↦ disciplined_ok _
  · split
    · exact disciplined_becomeGateway.bind fun _ _ ↦ disciplined_scheduleWait
    · exact disciplined_scheduleWait
  · split
    · exact disciplined_becomeMember.bind fun _ _ ↦ disciplined_scheduleWait
    · exact disciplined_scheduleWait
  · split
    · exact disciplined_becomeMember
    · exact disciplined_ok _
  · exact disciplined_ok _

theorem disciplined_processClusterPacket :
    Disciplined (node.processClusterPacket own now head) := by
  unfold processClusterPacket
  split
  · exact disciplined_ok _
  · exact disciplined_called.bind fun _ _ ↦ disciplined_ok _
  · exact disciplined_ok _

theorem fits_of_becomeHead (hok : node.becomeHead own now time = .ok node')
    (helected : ∀ timer ∈ [ClusterTimer.startTimer, .collect, .retry], timer ∉ node.timers)
    (hprehead : .prehead ∉ node.timers) : Fits own history node'.state node'.timers := by
  obtain ⟨hstate, hwait, hhello, hfind⟩ := becomeHead_eq_ok hok
  rw [hstate]
  refine fits_head ?_ ?_ hhello hwait
  · exact forall_notMem_of_find helected fun timer htimer ↦
      hfind timer (mem_append_left [ClusterTimer.prehead] htimer)
  · rwa [← find_eq_none, hfind _ (by simp), find_eq_none]

theorem fits_of_becomePrehead (hok : node.becomePrehead own now time = .ok node')
    (helected : ∀ timer ∈ [ClusterTimer.startTimer, .collect, .retry], timer ∉ node.timers) :
    Fits own history node'.state node'.timers := by
  obtain ⟨hstate, hwait, hprehead, hhello, hfind⟩ := becomePrehead_eq_ok hok
  rw [hstate]
  exact fits_prehead (forall_notMem_of_find helected hfind) hprehead hhello hwait

/-- A node in `INI` that has started. -/
theorem fits_ini (hprehead : .prehead ∉ timers) (hhello : .hello ∉ timers)
    (hstart : .startTimer ∉ timers) (hcollect : .collect ∈ timers → .wait ∉ timers)
    (hretry : .retry ∈ timers → .collect ∈ timers)
    (helecting : timers.find .collect = some own.collectingTime ∨
      timers.find .wait = some (own.collectingTime + own.waitingTime)) :
    Fits own history .INI timers :=
  ⟨iff_of_false hprehead (by simp), iff_of_false hhello (by simp), by simp,
    fun hmem ↦ ⟨rfl, hcollect hmem⟩, hretry, fun hmem ↦ absurd hmem hstart, by simp,
    fun _ ↦ .inr helecting⟩

section

variable (h : Fits own history node.state node.timers)
include h

/-- The start of a node begins its election. -/
theorem Fits.handleStart (hmsg : node.timers.find .startTimer = some now)
    (hok : (node.cancelEvent .startTimer).handleSelfMessage own now time .startTimer = .ok node') :
    Fits own history node'.state node'.timers := by
  have hmem : .startTimer ∈ node.timers := mem_iff_find.mpr ⟨now, hmsg⟩
  obtain ⟨hini, hothers⟩ := h.unstarted hmem
  have hnone (timer : ClusterTimer) (hne : timer ≠ .startTimer) : node.timers.find timer = none :=
    find_eq_none.mpr fun hpending ↦ hne (hothers timer hpending)
  obtain rfl : now = 0 := by
    rcases h.electing hini with hstart | hcollect | hwait
    · rw [hmsg] at hstart
      exact Option.some.inj hstart
    · simp [hnone] at hcollect
    · simp [hnone] at hwait
  unfold SimpleCluster.handleSelfMessage at hok
  obtain ⟨first, hfirst, hok⟩ := bind_eq_ok hok
  obtain ⟨second, hsecond, hok⟩ := bind_eq_ok hok
  obtain rfl := scheduleAt_eq_ok hfirst
  obtain rfl := scheduleAt_eq_ok hsecond
  obtain ⟨hstate, htimers⟩ := scheduleRetry_eq_ok hok
  have hstate' : node'.state = .INI := hstate.trans hini
  rw [hstate']
  rcases htimers with htimers | htimers
  · rw [htimers]
    apply fits_ini <;> simp [sendCluster, mem_iff_find, hnone]
  · rw [htimers]
    apply fits_ini <;> simp [sendCluster, mem_iff_find, hnone]

/-- The end of the collection makes a head, or a node that waits for one. -/
theorem Fits.handleCollect (hmsg : node.timers.find .collect = some now)
    (hok : (node.cancelEvent .collect).handleSelfMessage own now time .collect = .ok node') :
    Fits own history node'.state node'.timers := by
  have hmem : .collect ∈ node.timers := mem_iff_find.mpr ⟨now, hmsg⟩
  obtain ⟨hini, hwait⟩ := h.collect hmem
  have hstart := h.started hmem (by simp)
  have hprehead : .prehead ∉ node.timers := h.prehead.not.mpr (by simp [hini])
  have hhello : .hello ∉ node.timers := h.hello.not.mpr (by simp [hini])
  unfold SimpleCluster.handleSelfMessage at hok
  dsimp only at hok
  split at hok
  · exact fits_of_becomeHead hok (by simp [hstart]) (by simpa using hprehead)
  · obtain rfl := scheduleWait_eq_ok hok
    obtain rfl : now = own.collectingTime := by
      rcases h.electing hini with hfind | hfind | hfind
      · exact absurd (mem_iff_find.mpr ⟨0, hfind⟩) hstart
      · rw [hmsg] at hfind
        exact Option.some.inj hfind
      · exact absurd (mem_iff_find.mpr ⟨_, hfind⟩) hwait
    dsimp only [state_cancelEvent]
    rw [hini]
    apply fits_ini <;> simp [hstart, hprehead, hhello]

theorem Fits.handleWait (hmsg : node.timers.find .wait = some now)
    (hok : (node.cancelEvent .wait).handleSelfMessage own now time .wait = .ok node') :
    Fits own history node'.state node'.timers := by
  have hmem : .wait ∈ node.timers := mem_iff_find.mpr ⟨now, hmsg⟩
  have hstart := h.started hmem (by simp)
  have hcollect : .collect ∉ node.timers := fun hcollect ↦ (h.collect hcollect).2 hmem
  have hretry : .retry ∉ node.timers := fun hretry ↦ hcollect (h.retry hretry)
  have hprehead := h.prehead.not.mpr (h.wait hmem).1
  unfold SimpleCluster.handleSelfMessage at hok
  dsimp only at hok
  split at hok
  · exact fits_of_becomePrehead hok (by simp [hstart, hcollect, hretry])
  · exact fits_of_becomeHead hok (by simp [hstart, hcollect, hretry]) (by simpa using hprehead)

theorem Fits.handleRetry (hmsg : node.timers.find .retry = some now)
    (hok : (node.cancelEvent .retry).handleSelfMessage own now time .retry = .ok node') :
    Fits own history node'.state node'.timers := by
  have hmem : .retry ∈ node.timers := mem_iff_find.mpr ⟨now, hmsg⟩
  have hcancelled : Fits own history node.state (node.timers.cancelEvent .retry) :=
    h.of_agree (h.started hmem (by simp)) (by simp) (by simp) (by simp)
  unfold SimpleCluster.handleSelfMessage at hok
  dsimp only at hok
  split at hok
  · obtain ⟨hstate, htimers⟩ := scheduleRetry_eq_ok hok
    rw [hstate]
    rcases htimers with htimers | htimers
    · rw [htimers]
      exact hcancelled
    · rw [htimers]
      exact h.of_agree (h.started hmem (by simp)) (by simp) (by simp) (by simp [hmem])
  · obtain rfl := ok.inj hok
    exact hcancelled

theorem Fits.handleSelfMessage (hmsg : node.timers.find msg = some now)
    (hok : (node.cancelEvent msg).handleSelfMessage own now time msg = .ok node') :
    Fits own history node'.state node'.timers := by
  have hmem : msg ∈ node.timers := mem_iff_find.mpr ⟨now, hmsg⟩
  cases msg with
  | startTimer => exact h.handleStart hmsg hok
  | collect => exact h.handleCollect hmsg hok
  | retry => exact h.handleRetry hmsg hok
  | wait => exact h.handleWait hmsg hok
  | hello =>
    obtain ⟨hstate, htimers⟩ := scheduleHello_eq_ok hok
    rw [hstate, htimers]
    exact h.of_agree (h.started hmem (by simp)) (by simp) (by simp [hmem]) (by simp)
  | iniTimer =>
    obtain rfl := ok.inj hok
    exact h.of_agree (h.started hmem (by simp)) (by simp) (by simp) (by simp)
  | neighborsClear =>
    obtain rfl := scheduleAt_eq_ok hok
    exact h.of_agree (h.started hmem (by simp)) (by simp) (by simp) (by simp)
  | prehead =>
    have hstate := h.prehead.mp hmem
    refine fits_of_becomeHead hok ?_ (by simp)
    simpa using h.elected (by simp [hstate])

/-- Expiring timers start nothing that is still pending. -/
theorem Fits.disciplined_handleSelfMessage (hmsg : node.timers.find msg = some now) :
    Disciplined ((node.cancelEvent msg).handleSelfMessage own now time msg) := by
  have hmem : msg ∈ node.timers := mem_iff_find.mpr ⟨now, hmsg⟩
  cases msg with
  | startTimer =>
    have hothers := (h.unstarted hmem).2
    unfold SimpleCluster.handleSelfMessage
    dsimp only
    split
    · exact disciplined_ok _
    · refine (disciplined_scheduleAt.mpr ?_).bind fun first hfirst ↦ ?_
      · simpa [sendCluster] using fun hini ↦ by simpa using hothers _ hini
      · obtain rfl := scheduleAt_eq_ok hfirst
        refine (disciplined_scheduleAt.mpr ?_).bind fun second hsecond ↦ ?_
        · simpa [sendCluster] using fun hini ↦ by simpa using hothers _ hini
        · obtain rfl := scheduleAt_eq_ok hsecond
          apply disciplined_scheduleRetry
          simpa [sendCluster] using fun hini ↦ by simpa using hothers _ hini
  | collect =>
    unfold SimpleCluster.handleSelfMessage
    dsimp only
    split
    · exact disciplined_becomeHead
    · exact disciplined_scheduleWait
  | retry =>
    unfold SimpleCluster.handleSelfMessage
    dsimp only
    split
    · exact disciplined_scheduleRetry (by simp)
    · exact disciplined_ok _
  | wait =>
    unfold SimpleCluster.handleSelfMessage
    dsimp only
    split
    · apply disciplined_becomePrehead
      simpa using h.prehead.not.mpr (h.wait hmem).1
    · exact disciplined_becomeHead
  | hello => exact disciplined_scheduleHello
  | iniTimer => exact disciplined_ok _
  | neighborsClear => exact disciplined_scheduleAt.mpr (by simp)
  | prehead => exact disciplined_becomeHead

end

theorem Fits.step (h : Fits own history node.state node.timers)
    (hstep : (machine own).Step node event node') :
    Fits own (history ++ [event]) node'.state node'.timers := by
  obtain ⟨henabled, hok⟩ := hstep
  obtain ⟨now, time, action⟩ := event
  cases action with
  | receive head => exact h.processClusterPacket henabled rfl hok
  | expire msg => exact (h.handleSelfMessage henabled hok).snoc _

theorem Fits.disciplined_handle (h : Fits own history node.state node.timers)
    (henabled : (machine own).Enabled node event) :
    Disciplined ((machine own).handle node event) := by
  obtain ⟨now, time, action⟩ := event
  cases action with
  | receive head => exact disciplined_processClusterPacket
  | expire msg => exact h.disciplined_handleSelfMessage henabled

variable {retry : ℕ} {events : List ClusterEvent}

theorem fits_of_run (hrun : (machine own).Run (initialized own retry 0) events node) :
    Fits own events node.state node.timers :=
  hrun.invariant_history (P := fun history node ↦ Fits own history node.state node.timers)
    (fun _ _ _ _ h hstep ↦ h.step hstep) (fits_initialized retry)

/-- In every run of a node that starts at time 0 no timer is scheduled twice.  As long as the kernel
does not leave out a timer, a member or gateway has received a CALL at most `waitingTime` ago and
waits for the next one, the next step of a prehead is to become head, a head is about to announce
itself, and a node is in none of these states for `collectTime` and `waitingTime` at most. -/
theorem coverage_of_run (hrun : (machine own).Run (initialized own retry 0) events node) :
    (∀ event, (machine own).Enabled node event → Disciplined ((machine own).handle node event)) ∧
    ∀ now, (∀ timer due, node.timers.find timer = some due → now ≤ due) →
      (node.state = .MEMBER ∨ node.state = .GATEWAY → .wait ∈ node.timers ∧
        ∃ event ∈ events, event.IsCall ∧ now - own.waitingTime ≤ event.now) ∧
      (node.state = .PREHEAD → .prehead ∈ node.timers) ∧
      (node.state = .HEAD → .hello ∈ node.timers) ∧
      (node.state = .INI →
        now ≤ 0 ∨ now ≤ own.collectingTime ∨ now ≤ own.collectingTime + own.waitingTime) := by
  have h := fits_of_run hrun
  refine ⟨fun event ↦ h.disciplined_handle, fun now hdue ↦ ⟨?_, ?_, ?_, ?_⟩⟩
  · intro hstate
    obtain ⟨event, hevent, hcall, hwait⟩ := h.served hstate
    have hnow := hdue _ _ hwait
    exact ⟨mem_iff_find.mpr ⟨_, hwait⟩, event, hevent, hcall, sub_le_iff_le_add.mpr hnow⟩
  · exact h.prehead.mpr
  · exact fun hstate ↦ h.hello.mpr (.inr hstate)
  · intro hstate
    rcases h.electing hstate with hstart | hcollect | hwait
    · exact .inl (hdue _ _ hstart)
    · exact .inr (.inl (hdue _ _ hcollect))
    · exact .inr (.inr (hdue _ _ hwait))

/-- Node 5, with a stand-in for the hash. -/
def node5 : ClusterModule where
  hash nid := ⟨~~~nid.value⟩
  nid := ⟨5⟩
  nodeIndex := 1
  macAddress := 1
  waitingTime := 50
  collectingTime := 40

/-- A node that hears no larger `NID` in time, but then a head. -/
theorem coverage_of_run_called :
    ∃ node, (machine node5).Run (initialized node5 2 0)
      [⟨0, 7, .expire .startTimer⟩, ⟨3, 0, .receive ⟨.INIT, ⟨9⟩, 9, 9⟩⟩, ⟨7, 4, .expire .retry⟩,
        ⟨40, 0, .expire .collect⟩, ⟨90, 6, .expire .wait⟩,
        ⟨95, 0, .receive ⟨.CALL, ⟨9⟩, 9, 9⟩⟩] node ∧
      node.state = .MEMBER ∧ .wait ∈ node.timers ∧
      ∀ event, (machine node5).Enabled node event →
        Disciplined ((machine node5).handle node event) := by
  refine Machine.exists_run_imp (fun node ↦ node.state = .MEMBER ∧ ∀ entry ∈ node.timers.entries,
    (145 : SimTime) ≤ entry.2) (by decide +kernel) ?_
  rintro node hrun ⟨hstate, hdue⟩
  have h := coverage_of_run hrun
  have hwait := (h.2 145 fun timer due hfind ↦
    hdue ⟨timer, due⟩ (find_eq_some_iff.mp hfind)).1 (.inl hstate)
  exact ⟨hstate, hwait.1, h.1⟩

end SimpleCluster

end Inet4.Icn
