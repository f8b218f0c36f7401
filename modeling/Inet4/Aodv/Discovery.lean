import Inet4.Aodv.Node
import Inet4.Machine

/-!
# Route discovery

What a node keeps for its discoveries: the datagrams that wait for a route, a timer and a number of
retries for each target.  Most handlers leave it as it is.  The others start a discovery, let a
datagram join it, repeat it or end it; at the rate limit for RREQs they start or repeat it without
scheduling the timer.
-/

namespace Inet4.Aodv

open Except (ok)

variable {A : Type} [DecidableEq A]

/-- What a node keeps for its discoveries. -/
structure Discovery (A : Type) where
  params : Parameters A
  timers : AssocMap A (WaitForRrep A)
  retries : AssocMap A ℕ
  held : MultiMap A (Datagram A)
  reinjected : List (Datagram A)
  dropped : List (Datagram A)

namespace AodvCluster

def discovery (node : AodvCluster A) : Discovery A where
  params := node.params
  timers := node.waitForRREPTimers
  retries := node.addressToRreqRetries
  held := node.targetAddressToDelayedPackets
  reinjected := node.reinjected
  dropped := node.dropped

variable {node after : AodvCluster A} {now : SimTime} {role : Role}

/-! ## Handlers that leave the discoveries alone -/

@[simp]
theorem discovery_setRoute (destAddr : A) (route : Route A) :
    (node.setRoute destAddr route).discovery = node.discovery := rfl

@[simp]
theorem discovery_createOrUpdate (destAddr nextHop : A) (hopCount : ℕ) (hasValidDestNum : Bool)
    (destSeqNum : Word) (isActive : Bool) (lifeTime : SimTime) :
    (node.createOrUpdate destAddr nextHop hopCount hasValidDestNum destSeqNum isActive
      lifeTime).discovery = node.discovery := by
  unfold createOrUpdate
  split <;> rfl

@[simp]
theorem discovery_updateValidRouteLifeTime (destAddr : A) (lifetime : SimTime) :
    (node.updateValidRouteLifeTime destAddr lifetime).discovery = node.discovery := by
  unfold updateValidRouteLifeTime
  split
  · split <;> rfl
  · rfl

@[simp]
theorem discovery_refreshNextHop (route : Option (Route A)) (lifetime : SimTime) :
    (node.refreshNextHop route lifetime).discovery = node.discovery := by
  unfold refreshNextHop
  split
  · exact discovery_updateValidRouteLifeTime ..
  · rfl

@[simp]
theorem discovery_modifyRoute (destAddr : A) (change : Route A → Route A) :
    (node.modifyRoute destAddr change).discovery = node.discovery := by
  unfold modifyRoute
  split <;> rfl

@[simp]
theorem discovery_addPrecursors (destAddr precursorAddr : A) :
    (node.addPrecursors destAddr precursorAddr).discovery = node.discovery := by
  unfold addPrecursors
  simp only
  split <;> simp

@[simp]
theorem discovery_updateReverseRoute (rreq : Rreq A) (sourceAddr : A) :
    (node.updateReverseRoute now rreq sourceAddr).discovery = node.discovery := by
  unfold updateReverseRoute
  split
  · rfl
  · simp only
    split <;> rfl

@[simp]
theorem discovery_updateForwardRoute (rrep : Rrep A) (sourceAddr : A) :
    (node.updateForwardRoute now rrep sourceAddr).discovery = node.discovery := by
  unfold updateForwardRoute
  split
  · rfl
  · split <;> rfl

@[simp]
theorem discovery_handleHelloMessage (helloMessage : Rrep A) :
    (node.handleHelloMessage now helloMessage).discovery = node.discovery := by
  unfold handleHelloMessage
  simp only
  split <;> rfl

@[simp]
theorem discovery_handleRREPACK (neighborAddr : A) :
    (node.handleRREPACK neighborAddr).discovery = node.discovery := by
  unfold handleRREPACK
  split
  · split <;> rfl
  · rfl

omit [DecidableEq A] in
theorem discovery_sendAODVPacket {packet : AodvControlPacket A} {destAddr : Option A}
    {timeToLive : ℕ} (h : node.sendAODVPacket now packet destAddr timeToLive = .ok after) :
    after.discovery = node.discovery := by
  obtain ⟨-, -, hrest⟩ := bind_eq_ok h
  rw [← ok.inj hrest]
  rfl

variable {rreq : Rreq A}
variable {rrep : Rrep A}

theorem discovery_createRREP {lastHopAddr : A}
    (h : node.createRREP now rreq lastHopAddr = .ok (rrep, after)) :
    after.discovery = node.discovery := by
  unfold createRREP at h
  split at h
  · rw [← (Prod.mk.inj (ok.inj h)).2]
    rfl
  · split at h
    · cases h
    · rw [← (Prod.mk.inj (ok.inj h)).2]
      simp

theorem discovery_sendRREP {destAddr : A} {timeToLive : ℕ}
    (h : node.sendRREP now rrep destAddr timeToLive = .ok after) :
    after.discovery = node.discovery := by
  unfold sendRREP at h
  split at h
  · cases h
  · simp only at h
    split at h
    · obtain ⟨waiting, hwait, hsend⟩ := bind_eq_ok h
      obtain ⟨scheduled, -, hrest⟩ := bind_eq_ok hwait
      rw [discovery_sendAODVPacket hsend, ← ok.inj hrest]
      rfl
    · exact (discovery_sendAODVPacket h).trans rfl

theorem discovery_sendGratuitousRREP {timeToLive : ℕ}
    (h : node.sendGratuitousRREP now rreq timeToLive = .ok after) :
    after.discovery = node.discovery := by
  unfold sendGratuitousRREP at h
  split at h
  · exact discovery_sendAODVPacket h
  · cases h

theorem discovery_relayRREQ {timeToLive : ℕ}
    (h : node.relayRREQ now role rreq timeToLive = .ok after) :
    after.discovery = node.discovery := by
  unfold relayRREQ at h
  split at h
  · simp only at h
    split at h
    · exact discovery_sendAODVPacket h
    · rw [ok.inj h]
  · rw [ok.inj h]

theorem discovery_answerRREQ {sourceAddr : A} (h : node.answerRREQ now rreq sourceAddr = .ok after)
    : after.discovery = node.discovery := by
  obtain ⟨⟨rrep, answered⟩, hcreate, hrest⟩ := bind_eq_ok h
  obtain ⟨replied, hsend, hrest⟩ := bind_eq_ok hrest
  have hreplied := (discovery_sendRREP hsend).trans (discovery_createRREP hcreate)
  split at hrest
  · exact (discovery_sendGratuitousRREP hrest).trans hreplied
  · rw [← ok.inj hrest, hreplied]

theorem discovery_processRREQ {sourceAddr : A} {timeToLive : ℕ}
    (h : node.processRREQ now role rreq sourceAddr timeToLive = .ok after) :
    after.discovery = node.discovery := by
  unfold processRREQ at h
  split at h
  · obtain ⟨⟨rrep, answered⟩, hcreate, hsend⟩ := bind_eq_ok h
    exact (discovery_sendRREP hsend).trans (discovery_createRREP hcreate)
  · split at h
    · exact discovery_relayRREQ h
    · split at h
      · rw [ok.inj h]
      · split at h
        · exact discovery_relayRREQ h
        · exact discovery_answerRREQ h

theorem discovery_handleRREQ {sourceAddr : A} {timeToLive : ℕ}
    (h : node.handleRREQ now role rreq sourceAddr timeToLive = .ok after) :
    after.discovery = node.discovery := by
  unfold handleRREQ at h
  split at h
  · rw [ok.inj h]
  · simp only at h
    split at h
    · rw [← ok.inj h, discovery_createOrUpdate]
    · rw [discovery_processRREQ h, discovery_updateReverseRoute]
      exact discovery_createOrUpdate ..

theorem discovery_relayRREP {originatorAddr sourceAddr : A}
    (h : node.relayRREP now rrep originatorAddr sourceAddr = .ok after) :
    after.discovery = node.discovery := by
  unfold relayRREP at h
  split at h
  · rw [ok.inj h]
  · simp only at h
    split at h
    · obtain ⟨acknowledged, hack, hsend⟩ := bind_eq_ok h
      rw [discovery_sendAODVPacket hsend, discovery_addPrecursors]
      unfold acknowledgeRREP at hack
      split at hack
      · exact (discovery_sendAODVPacket hack).trans rfl
      · rw [← ok.inj hack]
        rfl
    · rw [← ok.inj h]
      rfl

omit [DecidableEq A] in
theorem discovery_sendRERR {unreachableNodes : List (UnreachableNode A)}
    (h : node.sendRERR now unreachableNodes = .ok after) : after.discovery = node.discovery :=
  (discovery_sendAODVPacket h).trans rfl

theorem discovery_handleLinkBreakSendRERR {unreachableAddr : A}
    (h : node.handleLinkBreakSendRERR now unreachableAddr = .ok after) :
    after.discovery = node.discovery := by
  unfold handleLinkBreakSendRERR at h
  split at h
  · rw [ok.inj h]
  · simp only at h
    split at h
    · rw [← ok.inj h]
      rfl
    · exact (discovery_sendRERR h).trans rfl

theorem discovery_handleRERR {unreachableNodes : List (UnreachableNode A)} {sourceAddr : A}
    (h : node.handleRERR now unreachableNodes sourceAddr = .ok after) :
    after.discovery = node.discovery := by
  unfold handleRERR at h
  simp only at h
  split at h
  · rw [← ok.inj h]
    rfl
  · exact (discovery_sendRERR h).trans rfl

theorem discovery_sendRERRWhenNoRouteToForward {unreachableAddr : A}
    (h : node.sendRERRWhenNoRouteToForward now unreachableAddr = .ok after) :
    after.discovery = node.discovery := by
  unfold sendRERRWhenNoRouteToForward at h
  split at h
  · rw [ok.inj h]
  · exact discovery_sendRERR h

variable {datagram : Datagram A}

theorem discovery_datagramForwardHook
    (h : node.datagramForwardHook now datagram = .ok after) :
    after.discovery = node.discovery := by
  unfold datagramForwardHook at h
  simp only at h
  split at h
  · split at h
    · rw [← ok.inj h, discovery_refreshNextHop]
    · rw [ok.inj h]
  · split at h
    · split at h
      · rw [← ok.inj h]
        simp
      · rw [discovery_sendRERRWhenNoRouteToForward h]
        simp
    · rw [discovery_sendRERRWhenNoRouteToForward h]
      simp

theorem discovery_linkBroken (h : node.linkBroken now datagram = .ok after) :
    after.discovery = node.discovery := by
  unfold linkBroken at h
  split at h
  · exact discovery_handleLinkBreakSendRERR h
  · rw [ok.inj h]

theorem discovery_handleRREPACKTimer (h : node.handleRREPACKTimer now = .ok after) :
    after.discovery = node.discovery := by
  unfold handleRREPACKTimer at h
  split at h
  · rw [ok.inj h]
  · simp only at h
    split at h
    · rw [← ok.inj h]
      rfl
    · obtain ⟨scheduled, -, hrest⟩ := bind_eq_ok h
      rw [← ok.inj hrest]
      rfl

omit [DecidableEq A] in
theorem discovery_handleBlackListTimer (h : node.handleBlackListTimer now = .ok after) :
    after.discovery = node.discovery := by
  unfold handleBlackListTimer at h
  simp only at h
  split at h
  · rw [← ok.inj h]
    rfl
  · obtain ⟨scheduled, -, hrest⟩ := bind_eq_ok h
    rw [← ok.inj hrest]
    rfl

omit [DecidableEq A] in
theorem discovery_sendHelloMessagesIfNeeded (h : node.sendHelloMessagesIfNeeded now = .ok after) :
    after.discovery = node.discovery := by
  unfold sendHelloMessagesIfNeeded at h
  simp only at h
  split at h
  · exact discovery_sendAODVPacket h
  · rw [ok.inj h]

/-! ## Handlers of the discoveries -/

/-- The timer of a target is armed for a RREQ with a TTL. -/
def arm (d : Discovery A) (now : SimTime) (target : A) (timer : WaitForRrep A) (timeToLive : ℕ) :
    Discovery A :=
  { d with
    timers := d.timers.assign target
      { timer with timer := some (now + ringTraversalTime d.params timeToLive) } }

theorem waitTimer_of_none {destAddr : A} {timeToLive : ℕ}
    (h : node.waitForRREPTimers.find destAddr = none) :
    node.waitTimer destAddr timeToLive = .ok (node.params.ttlStart,
      ⟨destAddr, node.params.ttlStart, false, none⟩) := by
  unfold waitTimer
  rw [h]

theorem waitTimer_of_some {destAddr : A} {timer timer' : WaitForRrep A} {ttl : ℕ}
    (h : node.waitForRREPTimers.find destAddr = some timer)
    (hwait : node.waitTimer destAddr 0 = .ok (ttl, timer')) :
    ttl = nextTTL node.params timer.lastTTL ∧
      timer' = { timer with destAddr := destAddr, lastTTL := ttl } := by
  unfold waitTimer at hwait
  rw [h] at hwait
  obtain ⟨⟨⟩, -, hwait⟩ := bind_eq_ok hwait
  obtain ⟨rfl, rfl⟩ := Prod.mk.inj (ok.inj hwait)
  exact ⟨rfl, rfl⟩

/-- At the rate limit nothing happens.  Below it the timer is armed. -/
theorem discovery_sendRREQ {destAddr : Option A} {timeToLive : ℕ}
    (h : node.sendRREQ now role rreq destAddr timeToLive = .ok after) :
    (node.params.rreqRatelimit ≤ node.rreqCount ∧ after.discovery = node.discovery) ∨
      (node.rreqCount < node.params.rreqRatelimit ∧ ∃ ttl timer,
        node.waitTimer rreq.destAddr timeToLive = .ok (ttl, timer) ∧
        now ≤ now + ringTraversalTime node.params ttl ∧
        after.discovery = arm node.discovery now rreq.destAddr timer ttl) := by
  unfold sendRREQ at h
  by_cases hlimit : node.params.rreqRatelimit ≤ node.rreqCount
  · rw [if_pos hlimit] at h
    exact .inl ⟨hlimit, by rw [ok.inj h]⟩
  · rw [if_neg hlimit] at h
    obtain ⟨⟨ttl, timer⟩, htimer, hrest⟩ := bind_eq_ok h
    obtain ⟨scheduled, hschedule, hrest⟩ := bind_eq_ok hrest
    obtain ⟨sent, hsend, hpure⟩ := bind_eq_ok hrest
    obtain ⟨-, hnow, rfl⟩ := SelfMessage.scheduleAt_eq_ok hschedule
    refine .inr ⟨not_le.mp hlimit, ttl, timer, htimer, hnow, ?_⟩
    rw [← ok.inj hpure]
    exact (discovery_sendAODVPacket hsend).trans rfl

/-- A target without a timer gets one, and no retries are counted. -/
theorem discovery_startRouteDiscovery {target : A} {timeToLive : ℕ}
    (h : node.startRouteDiscovery now role target timeToLive = .ok after) :
    (node.params.rreqRatelimit ≤ node.rreqCount ∧
      after.discovery.timers = node.discovery.timers ∧
      after.discovery.held = node.discovery.held) ∨
      (node.rreqCount < node.params.rreqRatelimit ∧
        now ≤ now + ringTraversalTime node.params node.params.ttlStart ∧
        after.discovery = arm
          { node.discovery with retries := node.discovery.retries.assign target 0 } now target
          ⟨target, node.params.ttlStart, false, none⟩ node.params.ttlStart) := by
  obtain ⟨⟨⟩, hnone, hsend⟩ := bind_eq_ok h
  have hfree : node.waitForRREPTimers.find target = none := by
    unfold assert at hnone
    split at hnone
    · rename_i hongoing
      simpa [hasOngoingRouteDiscovery] using hongoing
    · cases hnone
  rcases discovery_sendRREQ hsend with ⟨hlimit, hsame⟩ | ⟨hlimit, ttl, timer, htimer, hnow, hafter⟩
  · refine .inl ⟨hlimit, ?_, ?_⟩
    · rw [hsame]
      rfl
    · rw [hsame]
      rfl
  · obtain ⟨rfl, rfl⟩ := Prod.mk.inj
      (ok.inj (htimer.symm.trans (waitTimer_of_none (by exact hfree))))
    exact .inr ⟨hlimit, hnow, hafter⟩

/-- The retries are exhausted, or the RREQ is repeated with the next TTL. -/
theorem discovery_handleWaitForRREP {timer : WaitForRrep A}
    (hfind : node.waitForRREPTimers.find timer.destAddr = some timer)
    (h : node.handleWaitForRREP now role timer = .ok after) :
    ∃ retries, node.addressToRreqRetries.find timer.destAddr = some retries ∧
      ((retries = node.params.rreqRetries ∧
        after.discovery = { node.discovery with
          timers := node.discovery.timers.remove timer.destAddr
          held := node.discovery.held.erase timer.destAddr
          dropped := node.discovery.dropped ++ node.discovery.held.equalRange timer.destAddr }) ∨
      (retries ≠ node.params.rreqRetries ∧ node.params.rreqRatelimit ≤ node.rreqCount ∧
        after.discovery.timers = node.discovery.timers) ∨
      (retries ≠ node.params.rreqRetries ∧ node.rreqCount < node.params.rreqRatelimit ∧
        now ≤ now + ringTraversalTime node.params (nextTTL node.params timer.lastTTL) ∧
        after.discovery = arm
          { node.discovery with
            retries := if timer.lastTTL = node.params.netDiameter
              then node.discovery.retries.assign timer.destAddr (retries + 1)
              else node.discovery.retries } now timer.destAddr
          { timer with lastTTL := nextTTL node.params timer.lastTTL }
          (nextTTL node.params timer.lastTTL))) := by
  unfold handleWaitForRREP at h
  simp only at h
  split at h
  · cases h
  · rename_i retries hretries
    refine ⟨retries, hretries, ?_⟩
    by_cases hend : retries = node.params.rreqRetries
    · rw [if_pos hend] at h
      obtain ⟨⟨⟩, -, hrest⟩ := bind_eq_ok h
      exact .inl ⟨hend, by rw [← ok.inj hrest]; rfl⟩
    · rw [if_neg hend] at h
      rcases discovery_sendRREQ h with
        ⟨hlimit, hsame⟩ | ⟨hlimit, ttl, armed, htimer, hnow, hafter⟩
      · exact .inr (.inl ⟨hend, hlimit, by rw [hsame]; rfl⟩)
      · obtain ⟨rfl, rfl⟩ := waitTimer_of_some (by exact hfind) htimer
        exact .inr (.inr ⟨hend, hlimit, hnow, hafter⟩)

/-- A datagram waits for its destination. -/
def hold (d : Discovery A) (datagram : Datagram A) : Discovery A :=
  { d with held := d.held.insert datagram.destinationAddress datagram }

/-- A datagram needs a route that the node neither has nor waits for. -/
def StartsDiscovery (node : AodvCluster A) (datagram : Datagram A) : Prop :=
  (node.params.isGroup datagram.destinationAddress ||
      node.params.isLocalAddress datagram.destinationAddress) = false ∧
    (node.findRoute datagram.destinationAddress).filter Route.active = none ∧
    node.hasOngoingRouteDiscovery datagram.destinationAddress = false

instance (node : AodvCluster A) (datagram : Datagram A) :
    Decidable (node.StartsDiscovery datagram) :=
  decidable_of_iff
    ((node.params.isGroup datagram.destinationAddress ||
        node.params.isLocalAddress datagram.destinationAddress) = false ∧
      ((node.findRoute datagram.destinationAddress).filter Route.active).isNone = true ∧
      node.hasOngoingRouteDiscovery datagram.destinationAddress = false)
    (by rw [Option.isNone_iff_eq_none]; rfl)

/-- A datagram is accepted, or joins a discovery, or starts one. -/
theorem discovery_ensureRouteForDatagram {accepted : Bool}
    (h : node.ensureRouteForDatagram now role datagram = .ok (after, accepted)) :
    (¬node.StartsDiscovery datagram ∧ after.discovery = node.discovery) ∨
      (node.hasOngoingRouteDiscovery datagram.destinationAddress = true ∧
        after.discovery = hold node.discovery datagram) ∨
      (node.StartsDiscovery datagram ∧ node.params.rreqRatelimit ≤ node.rreqCount ∧
        after.discovery.timers = node.discovery.timers ∧
        after.discovery.held = (hold node.discovery datagram).held) ∨
      (node.StartsDiscovery datagram ∧ node.rreqCount < node.params.rreqRatelimit ∧
        now ≤ now + ringTraversalTime node.params node.params.ttlStart ∧
        after.discovery = arm
          { hold node.discovery datagram with
            retries := node.discovery.retries.assign datagram.destinationAddress 0 } now
          datagram.destinationAddress
          ⟨datagram.destinationAddress, node.params.ttlStart, false, none⟩
          node.params.ttlStart) := by
  unfold ensureRouteForDatagram at h
  simp only at h
  split at h
  · rename_i hlocal
    rw [← (Prod.mk.inj (ok.inj h)).1]
    refine .inl ⟨?_, rfl⟩
    rintro ⟨hnot, -⟩
    rw [hlocal] at hnot
    cases hnot
  · rename_i hlocal
    split at h
    · rename_i route hroute
      rw [← (Prod.mk.inj (ok.inj h)).1]
      refine .inl ⟨?_, by simp⟩
      rintro ⟨-, hnone, -⟩
      rw [hroute] at hnone
      cases hnone
    · rename_i hroute
      by_cases hongoing : node.hasOngoingRouteDiscovery datagram.destinationAddress = true
      · have hheld : (node.delayDatagram datagram).hasOngoingRouteDiscovery
            datagram.destinationAddress = true := hongoing
        rw [if_pos hheld] at h
        rw [← (Prod.mk.inj (ok.inj h)).1]
        exact .inr (.inl ⟨hongoing, rfl⟩)
      · have hheld : ¬(node.delayDatagram datagram).hasOngoingRouteDiscovery
            datagram.destinationAddress = true := hongoing
        rw [if_neg hheld] at h
        have hstarts : node.StartsDiscovery datagram :=
          ⟨Bool.eq_false_iff.mpr hlocal, hroute, Bool.eq_false_iff.mpr hongoing⟩
        obtain ⟨started, hstart, hpure⟩ := bind_eq_ok h
        rw [← (Prod.mk.inj (ok.inj hpure)).1]
        rcases discovery_startRouteDiscovery hstart with
          ⟨hlimit, htimers, hholds⟩ | ⟨hlimit, hnow, hafter⟩
        · exact .inr (.inr (.inl ⟨hstarts, hlimit, htimers, hholds⟩))
        · exact .inr (.inr (.inr ⟨hstarts, hlimit, hnow, hafter⟩))

/-- A RREP for the node itself completes the discovery of its destination. -/
theorem discovery_handleRREP {sourceAddr : A}
    (h : node.handleRREP now rrep sourceAddr = .ok after) :
    after.discovery = node.discovery ∨ after.discovery = { node.discovery with
      timers := node.discovery.timers.remove rrep.destAddr
      held := node.discovery.held.erase rrep.destAddr
      reinjected := node.discovery.reinjected ++
        node.discovery.held.equalRange rrep.destAddr } := by
  unfold handleRREP at h
  split at h
  · rw [← ok.inj h]
    exact .inl (discovery_handleHelloMessage rrep)
  · simp only at h
    set updated := updateForwardRoute _ now _ sourceAddr with hupdated
    have hsame : updated.discovery = node.discovery := by
      rw [hupdated, discovery_updateForwardRoute, discovery_createOrUpdate]
    split at h
    · exact .inl ((discovery_relayRREP h).trans hsame)
    · split at h
      · right
        obtain ⟨⟨⟩, -, hpure⟩ := bind_eq_ok h
        rw [← ok.inj hpure, ← hsame]
        set installed := updated.createOrUpdate rrep.destAddr sourceAddr _ true _ true _
        have hinstalled : installed.discovery = updated.discovery :=
          discovery_createOrUpdate ..
        rw [← hinstalled]
        rfl
      · rw [← ok.inj h]
        exact .inl hsame

/-! ## Events -/

/-- The retries of a target are not exhausted. -/
def HasRetries (node : AodvCluster A) (target : A) : Prop :=
  node.addressToRreqRetries.find target ≠ some node.params.rreqRetries

/-- An event makes the node originate a RREQ. -/
def OriginatesRREQ (node : AodvCluster A) : Event A → Prop
  | .datagram _ datagram => node.StartsDiscovery datagram
  | .waitForRREP _ target => target ∈ node.waitForRREPTimers ∧ node.HasRetries target
  | _ => False

instance (node : AodvCluster A) : DecidablePred node.OriginatesRREQ
  | .datagram _ datagram => inferInstanceAs (Decidable (node.StartsDiscovery datagram))
  | .waitForRREP _ target => inferInstanceAs (Decidable (target ∈ node.waitForRREPTimers ∧ _ ≠ _))
  | .datagramForward _ | .packet .. | .linkBroken _ | .helloMsgTimer | .expungeTimer _
  | .counterTimer | .rrepAckTimer | .blacklistTimer => isFalse not_false

/-- What an event does to the discoveries. -/
inductive Change (node : AodvCluster A) (now : SimTime) : Event A → Discovery A → Prop
  | same {event : Event A} (hnot : ¬node.OriginatesRREQ event)
      (hexpires : ∀ role target, event = .waitForRREP role target →
        target ∉ node.waitForRREPTimers) :
      Change node now event node.discovery
  | join {role : Role} {datagram : Datagram A}
      (hongoing : node.hasOngoingRouteDiscovery datagram.destinationAddress = true) :
      Change node now (.datagram role datagram) (hold node.discovery datagram)
  | start {role : Role} {datagram : Datagram A} (hstarts : node.StartsDiscovery datagram)
      (hlimit : node.rreqCount < node.params.rreqRatelimit)
      (hnow : now ≤ now + ringTraversalTime node.params node.params.ttlStart) :
      Change node now (.datagram role datagram) (arm
        { hold node.discovery datagram with
          retries := node.discovery.retries.assign datagram.destinationAddress 0 } now
        datagram.destinationAddress
        ⟨datagram.destinationAddress, node.params.ttlStart, false, none⟩ node.params.ttlStart)
  | strand {role : Role} {datagram : Datagram A} {d : Discovery A}
      (hstarts : node.StartsDiscovery datagram)
      (hlimit : node.params.rreqRatelimit ≤ node.rreqCount)
      (htimers : d.timers = node.discovery.timers)
      (hheld : d.held = (hold node.discovery datagram).held) :
      Change node now (.datagram role datagram) d
  | complete {role : Role} {packet : AodvControlPacket A} {sourceAddr : A} {ttl : ℕ}
      (target : A) :
      Change node now (.packet role packet sourceAddr ttl) { node.discovery with
        timers := node.discovery.timers.remove target
        held := node.discovery.held.erase target
        reinjected := node.discovery.reinjected ++ node.discovery.held.equalRange target }
  | cancel {role : Role} {target : A} {timer : WaitForRrep A}
      (hfind : node.discovery.timers.find target = some timer)
      (hretries : ¬node.HasRetries target) :
      Change node now (.waitForRREP role target) { node.discovery with
        timers := (node.discovery.timers.assign target { timer with timer := none }).remove target
        held := node.discovery.held.erase target
        dropped := node.discovery.dropped ++ node.discovery.held.equalRange target }
  | stall {role : Role} {target : A} {timer : WaitForRrep A} {d : Discovery A}
      (hfind : node.discovery.timers.find target = some timer)
      (hretries : node.HasRetries target)
      (hlimit : node.params.rreqRatelimit ≤ node.rreqCount)
      (htimers : d.timers = node.discovery.timers.assign target { timer with timer := none }) :
      Change node now (.waitForRREP role target) d
  | again {role : Role} {target : A} {timer : WaitForRrep A} {retries : ℕ}
      (hfind : node.discovery.timers.find target = some timer)
      (hretries : node.HasRetries target)
      (hcount : node.discovery.retries.find target = some retries)
      (hlimit : node.rreqCount < node.params.rreqRatelimit)
      (hnow : now ≤ now +
        ringTraversalTime node.params (nextTTL node.params timer.lastTTL)) :
      Change node now (.waitForRREP role target) (arm
        { node.discovery with
          timers := node.discovery.timers.assign target { timer with timer := none }
          retries := if timer.lastTTL = node.params.netDiameter
            then node.discovery.retries.assign target (retries + 1)
            else node.discovery.retries } now target
        { timer with lastTTL := nextTTL node.params timer.lastTTL, timer := none }
        (nextTTL node.params timer.lastTTL))

/-- Each timer has the address of its target. -/
def TimersNamed (node : AodvCluster A) : Prop :=
  ∀ target timer, node.waitForRREPTimers.find target = some timer → timer.destAddr = target

theorem change_of_handle {event : Event A} (hnamed : node.TimersNamed)
    (h : node.handle now event = .ok after) : Change node now event after.discovery := by
  cases event with
  | datagram role datagram =>
    obtain ⟨⟨queued, accepted⟩, hensure, hpure⟩ := bind_eq_ok h
    rw [← ok.inj hpure]
    rcases discovery_ensureRouteForDatagram hensure with
      ⟨hnot, hsame⟩ | ⟨hongoing, hafter⟩ | ⟨hstarts, hlimit, htimers, hheld⟩ |
      ⟨hstarts, hlimit, hnow, hafter⟩
    · rw [hsame]
      exact .same hnot nofun
    · rw [hafter]
      exact .join hongoing
    · exact .strand hstarts hlimit htimers hheld
    · rw [hafter]
      exact .start hstarts hlimit hnow
  | datagramForward datagram =>
    rw [discovery_datagramForwardHook h]
    exact .same not_false nofun
  | packet role packet sourceAddr ttl =>
    cases packet with
    | RREQ rreq =>
      rw [discovery_handleRREQ h]
      exact .same not_false nofun
    | RREP rrep =>
      rcases discovery_handleRREP h with hsame | hcomplete
      · rw [hsame]
        exact .same not_false nofun
      · rw [hcomplete]
        exact .complete rrep.destAddr
    | RERR unreachableNodes =>
      rw [discovery_handleRERR h]
      exact .same not_false nofun
    | RREPACK =>
      rw [← ok.inj h, discovery_handleRREPACK]
      exact .same not_false nofun
  | linkBroken datagram =>
    rw [discovery_linkBroken h]
    exact .same not_false nofun
  | waitForRREP role target =>
    have hexpire : node.expireWaitForRREP now role target = .ok after := h
    unfold expireWaitForRREP at hexpire
    split at hexpire
    · rename_i hnone
      rw [← ok.inj hexpire]
      refine .same ?_ ?_
      · rintro ⟨hmem, -⟩
        exact AssocMap.find_eq_none.mp hnone hmem
      · rintro role target ⟨⟩
        exact AssocMap.find_eq_none.mp hnone
    · rename_i timer hfind
      obtain rfl := hnamed target timer hfind
      have hexpired : (node.waitForRREPTimers.assign timer.destAddr
          { timer with timer := none }).find timer.destAddr =
          some { timer with timer := none } := by
        rw [AssocMap.find_assign, if_pos rfl]
      obtain ⟨retries, hcount, hcases⟩ := discovery_handleWaitForRREP (by exact hexpired) hexpire
      have hcount' : node.addressToRreqRetries.find timer.destAddr = some retries := hcount
      have hretries : retries ≠ node.params.rreqRetries → node.HasRetries timer.destAddr := by
        intro hne heq
        exact hne (Option.some.inj (hcount'.symm.trans heq))
      rcases hcases with ⟨hend, hafter⟩ | ⟨hne, hlimit, htimers⟩ | ⟨hne, hlimit, hnow, hafter⟩
      · rw [hafter]
        refine .cancel hfind ?_
        intro hhas
        exact hhas (hcount'.trans (congrArg some hend))
      · exact .stall hfind (hretries hne) hlimit htimers
      · rw [hafter]
        exact .again hfind (hretries hne) hcount' hlimit hnow
  | helloMsgTimer =>
    rw [discovery_sendHelloMessagesIfNeeded h]
    exact .same not_false nofun
  | expungeTimer visited | counterTimer =>
    rw [← ok.inj h]
    exact .same not_false nofun
  | rrepAckTimer =>
    rw [discovery_handleRREPACKTimer h]
    exact .same not_false nofun
  | blacklistTimer =>
    rw [discovery_handleBlackListTimer h]
    exact .same not_false nofun

end AodvCluster

end Inet4.Aodv
