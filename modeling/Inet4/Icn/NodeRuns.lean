import Inet4.Icn.NoCluster
import Inet4.Machine

/-!
# Runs of a node

What a node of the information-centric network receives: packets from the link layer, the
expirations of its timers, and the requests of its applications.  The lemmas of this file say what
each event can do to the table of pending GETs, to the delay queue and to the packets sent, so that
later proofs need not open the handlers.
-/

namespace Inet4.Icn

open ColorPendingGetTable
open Except (ok)

/-- What happens to a node. -/
inductive NodeAction
  /-- A packet arrives; `delay` is the delay that is drawn if it has to be flooded. -/
  | receive (packet : Packet) (srcAddress : MacAddress) (delay : SimTime)
  /-- The timer of the delay queue expires. -/
  | delayer
  /-- A timer of the table of pending GETs expires, and the message is deleted. -/
  | pitTimer (timer : PitTimer) (deleted : DeletedMessage)
  | bindPort (port : Port) (socketId : ℤ)
  | sendGET (sid : SID) (port : Port) (nonce : ℤ)
  | cacheData (sid : SID) (payload : List Byte)

/-- An action and the clock reading at which it happens. -/
structure NodeEvent where
  now : SimTime
  action : NodeAction

namespace ColorNoCluster

/-- The effect of an event. -/
def handle (node : ColorNoCluster) (event : NodeEvent) : Except Fault ColorNoCluster :=
  match event.action with
  | .receive packet srcAddress delay =>
    node.handleIncomingDatagram event.now packet srcAddress delay
  | .delayer => node.handleDelayer event.now
  | .pitTimer timer deleted => do
    let pit ← node.pit.handleMessage timer deleted
    return { node with pit }
  | .bindPort port socketId => .ok (node.bindPort port socketId)
  | .sendGET sid port nonce => .ok (node.sendGET event.now sid port nonce)
  | .cacheData sid payload => node.fragmentAndStore payload sid

/-- A timer expires at the time for which it is scheduled. -/
def Enabled (node : ColorNoCluster) (event : NodeEvent) : Prop :=
  match event.action with
  | .delayer => node.delayQueue.timer = some event.now
  | .pitTimer timer _ => node.pit.scheduled.find timer = some event.now
  | _ => True

/-- A node in its environment. -/
def machine : Machine ColorNoCluster NodeEvent Fault where
  Enabled := Enabled
  handle := handle

instance (node : ColorNoCluster) (event : NodeEvent) : Decidable (machine.Enabled node event) :=
  match event with
  | ⟨_, .receive ..⟩ | ⟨_, .bindPort ..⟩ | ⟨_, .sendGET ..⟩ | ⟨_, .cacheData ..⟩ => isTrue trivial
  | ⟨_, .delayer⟩ | ⟨_, .pitTimer ..⟩ => inferInstanceAs (Decidable (_ = _))

/-- A node with empty tables. -/
def initial (par : Parameters) : ColorNoCluster := { par }

variable {node node' mid : ColorNoCluster} {now delay : SimTime} {srcAddress : MacAddress}
variable {packet newPacket newPacket' : DataPacket} {getPacket : GetPacket} {sid : SID}

/-! ## What the handlers leave alone -/

/-- The parameters, the table of pending GETs and the delay queue are the same; packets may have
been sent. -/
structure SameInterests (node node' : ColorNoCluster) : Prop where
  par : node'.par = node.par
  pit : node'.pit = node.pit
  delayQueue : node'.delayQueue = node.delayQueue
  sent : ∃ new, node'.queueOut = node.queueOut ++ new

theorem SameInterests.refl (node : ColorNoCluster) : SameInterests node node :=
  ⟨rfl, rfl, rfl, [], by simp⟩

theorem SameInterests.trans (h : SameInterests node mid) (h' : SameInterests mid node') :
    SameInterests node node' := by
  obtain ⟨new, hnew⟩ := h.sent
  obtain ⟨new', hnew'⟩ := h'.sent
  refine ⟨h'.par.trans h.par, h'.pit.trans h.pit, h'.delayQueue.trans h.delayQueue,
    new ++ new', ?_⟩
  rw [hnew', hnew, List.append_assoc]

/-- Padding is removed from the payload only. -/
theorem removePadding_head {totalLength : ℤ}
    (h : removePadding totalLength packet = .ok newPacket) :
    newPacket = { packet with payload := newPacket.payload } := by
  unfold removePadding at h
  split at h
  · split at h
    · cases h
    · obtain rfl := ok.inj h
      rfl
  · obtain rfl := ok.inj h
    rfl

/-- What collecting a packet can change. -/
theorem collect_eq (h : node.collect packet = .ok node') :
    ∃ resemBuffer sidToSockets transportOut,
      node' = { node with resemBuffer, sidToSockets, transportOut } := by
  unfold collect at h
  dsimp only at h
  split at h
  · obtain ⟨⟨fullPacket, resemBuffer⟩, -, h⟩ := bind_eq_ok h
    cases fullPacket with
    | none | some fullPacket =>
      obtain rfl := ok.inj h
      exact ⟨_, _, _, rfl⟩
  · obtain rfl := ok.inj h
    exact ⟨_, _, _, rfl⟩

/-- A header teaches routes only. -/
theorem learnRoutes_eq (node : ColorNoCluster) (now : SimTime) (head : Data)
    (srcAddress : MacAddress) : ∃ rt, node.learnRoutes now head srcAddress = { node with rt } := by
  unfold learnRoutes
  split <;> split <;> exact ⟨_, rfl⟩

theorem sameInterests_forwardEntry {iter : PITentry}
    (h : forwardEntry now packet iter node newPacket = .ok (node', newPacket')) :
    SameInterests node node' := by
  unfold forwardEntry at h
  dsimp only at h
  split at h
  · obtain ⟨rfl, -⟩ := Prod.mk.inj (ok.inj h)
    exact ⟨rfl, rfl, rfl, [], by simp [findRoute]⟩
  · obtain ⟨stripped, -, h⟩ := bind_eq_ok h
    obtain ⟨rfl, -⟩ := Prod.mk.inj (ok.inj h)
    exact ⟨rfl, rfl, rfl, _, rfl⟩

theorem sameInterests_forwardLoop {entries : List PITentry}
    (h : forwardLoop now packet entries node newPacket = .ok node') :
    SameInterests node node' := by
  induction entries generalizing node newPacket with
  | nil =>
    obtain rfl := ok.inj h
    exact SameInterests.refl node
  | cons iter rest ih =>
    obtain ⟨⟨mid, newPacket'⟩, hentry, h⟩ := bind_eq_ok h
    exact (sameInterests_forwardEntry hentry).trans (ih h)

/-- Data can remove the record of its SID and touches no other. -/
theorem handleDataPacket_spec (h : node.handleDataPacket now packet srcAddress = .ok node') :
    ∃ mid, SameInterests node mid ∧
      (node' = mid ∨ ∃ pit, node.pit.removeEntry packet.head.sid = .ok pit ∧
        node' = { mid with pit }) := by
  obtain ⟨collected, hcollect, h⟩ := bind_eq_ok h
  obtain ⟨resemBuffer, sidToSockets, transportOut, rfl⟩ := collect_eq hcollect
  obtain ⟨rt, hrt⟩ := learnRoutes_eq { node with resemBuffer, sidToSockets, transportOut } now
    packet.head srcAddress
  have hlearned : SameInterests node { node with resemBuffer, sidToSockets, transportOut, rt } :=
    ⟨rfl, rfl, rfl, [], (List.append_nil _).symm⟩
  rw [hrt] at h
  dsimp only at h
  split at h
  · obtain ⟨mid, hloop, h⟩ := bind_eq_ok h
    obtain ⟨pit, hremove, rfl⟩ := bind_pure_eq_ok h
    have hmid := hlearned.trans (sameInterests_forwardLoop hloop)
    rw [hmid.pit] at hremove
    exact ⟨mid, hmid, .inr ⟨pit, hremove, rfl⟩⟩
  · obtain rfl := ok.inj h
    exact ⟨_, hlearned, .inl rfl⟩

/-! ## What a GET does -/

/-- The route that `handleGetPacket` finds for content it does not have.  It has looked for it once
before, which may have removed an expired route. -/
def routeFor (node : ColorNoCluster) (now : SimTime) (head : Get) (srcAddress : MacAddress) :
    Option Croute :=
  let node := node.learnGetRoutes now head srcAddress
  let (_, node) := node.findRoute now head.sid.getNidHead
  (node.findRoute now head.sid.getNidHead).1

/-- The content is requested from others. -/
def Misses (node : ColorNoCluster) (head : Get) : Prop :=
  0 ≤ head.timeToLive ∧ (node.ct.getBlock head.sid = none ∨
    head.mustBeFresh ∧ node.par.nid ≠ head.sid.getNidHead)

instance (node : ColorNoCluster) (head : Get) : Decidable (Misses node head) :=
  inferInstanceAs (Decidable (_ ∧ _))

/-- The GET is addressed to the node. -/
def Addressed (node : ColorNoCluster) (head : Get) : Prop :=
  head.nexthop = node.par.nid ∨ head.nexthop.isDefault

instance (node : ColorNoCluster) (head : Get) : Decidable (Addressed node head) :=
  inferInstanceAs (Decidable (_ ∨ _))

/-- The GET as `floodGet` queues it. -/
def floodedGet (node : ColorNoCluster) (packet : GetPacket) : GetPacket :=
  { packet with
    head :=
      { packet.head with timeToLive := packet.head.timeToLive - 1, lastHop := node.par.nid } }

/-- What becomes of a GET that opens a record. -/
inductive Treatment (node : ColorNoCluster) (now : SimTime) (packet : GetPacket)
    (route : Option Croute) (delay : SimTime) (node' : ColorNoCluster) : Prop
  /-- It is sent on along the route. -/
  | forwarded (datagram : Datagram) (newPacket : GetPacket)
      (hroute : route ≠ none) (haddressed : Addressed node packet.head)
      (hqueueOut : node'.queueOut = node.queueOut ++ [datagram])
      (hpacket : datagram.packet = .get newPacket) (hsid : newPacket.head.sid = packet.head.sid)
      (hqueue : node'.delayQueue = node.delayQueue)
  /-- It is left to the delay queue. -/
  | flooded (found : Bool) (delayQueue : DelayQueue)
      (hroute : route = none) (hdefault : packet.head.nexthop.isDefault)
      (hqueueOut : node'.queueOut = node.queueOut)
      (hfound : node.delayQueue.checkAndDecrease (.get (node.floodedGet packet)) =
        .ok (found, delayQueue))
      (hinsert : found = false → delayQueue.insert now (.get (node.floodedGet packet)) .GET
        (now + delay) node.par.TC = .ok node'.delayQueue)
      (hsame : found = true → node'.delayQueue = delayQueue)
  /-- It is not passed on. -/
  | neglected (hroute : route ≠ none → ¬Addressed node packet.head)
      (hdefault : route = none → packet.head.nexthop.isDefault = false)
      (hqueueOut : node'.queueOut = node.queueOut)
      (hqueue : node'.delayQueue = node.delayQueue)

variable {rt : ColorRoutingTable}

/-- Forwarding along a route happens for a GET that is addressed to the node. -/
theorem forwardGet_spec {route : Croute}
    (h : node.forwardGet now getPacket route srcAddress = .ok node') :
    node'.par = node.par ∧ node'.delayQueue = node.delayQueue ∧
    (Addressed node getPacket.head ∧
        node.pit.createEntry now getPacket.head.sid getPacket.head.source srcAddress entryLifetime
          getPacket.head.nonce = .ok node'.pit ∧
        (∃ datagram newPacket, node'.queueOut = node.queueOut ++ [datagram] ∧
          datagram.packet = .get newPacket ∧ newPacket.head.sid = getPacket.head.sid) ∨
      ¬Addressed node getPacket.head ∧ node' = node) := by
  unfold forwardGet at h
  dsimp only at h
  split at h
  · rename_i haddressed
    obtain ⟨pit, hcreate, rfl⟩ := bind_pure_eq_ok h
    exact ⟨rfl, rfl, .inl ⟨haddressed, hcreate, _, _, rfl, rfl, rfl⟩⟩
  · rename_i hnot
    obtain rfl := ok.inj h
    exact ⟨rfl, rfl, .inr ⟨hnot, rfl⟩⟩

/-- A GET whose SID has no record is queued unless a copy of it waits already. -/
theorem floodGet_spec (hsid : node.pit.haveSID getPacket.head.sid = false)
    (h : node.floodGet now getPacket srcAddress delay = .ok node') :
    node'.par = node.par ∧ node'.queueOut = node.queueOut ∧
    node.pit.createEntry now getPacket.head.sid getPacket.head.source srcAddress entryLifetime
      getPacket.head.nonce = .ok node'.pit ∧
    ∃ found delayQueue, node.delayQueue.checkAndDecrease (.get (node.floodedGet getPacket)) =
        .ok (found, delayQueue) ∧
      (found = false → delayQueue.insert now (.get (node.floodedGet getPacket)) .GET
        (now + delay) node.par.TC = .ok node'.delayQueue) ∧
      (found = true → node'.delayQueue = delayQueue) := by
  obtain ⟨delayQueue', hdelay, h⟩ := bind_eq_ok h
  obtain ⟨pit, hcreate, rfl⟩ := bind_pure_eq_ok h
  obtain ⟨⟨found, delayQueue⟩, hfound, hinsert⟩ := bind_eq_ok hdelay
  refine ⟨rfl, rfl, hcreate, found, delayQueue, hfound, ?_, ?_⟩
  · rintro rfl
    simp only [hsid, Bool.or_false, Bool.false_eq_true, if_false] at hinsert
    exact hinsert
  · rintro rfl
    simp only [hsid, Bool.false_or, if_true] at hinsert
    exact (ok.inj hinsert).symm

variable {route : Option Croute}

/-- The branches of `passOn`. -/
theorem passOn_cases (h : node.passOn now getPacket route srcAddress delay = .ok node') :
    (node.pit.haveSID getPacket.head.sid ∧ node' = node) ∨
    node.pit.haveSID getPacket.head.sid = false ∧
      ((∃ r, route = some r ∧ node.forwardGet now getPacket r srcAddress = .ok node') ∨
      ((route = none ∧ getPacket.head.nexthop.isDefault ∨ node.par.flood) ∧
        node.floodGet now getPacket srcAddress delay = .ok node') ∨
      (route = none ∧ getPacket.head.nexthop.isDefault = false ∧ node' = node)) := by
  unfold passOn at h
  split at h
  · rename_i hsid
    exact .inl ⟨hsid, (ok.inj h).symm⟩
  · rename_i hsid
    refine .inr ⟨Bool.eq_false_iff.mpr hsid, ?_⟩
    cases hflood : node.par.flood with
    | true =>
      simp only [hflood, Bool.or_true, if_true] at h
      exact .inr (.inl ⟨.inr rfl, h⟩)
    | false =>
      cases route with
      | some r =>
        simp only [hflood] at h
        exact .inl ⟨r, rfl, h⟩
      | none =>
        simp only [hflood, Bool.or_false] at h
        split at h
        · rename_i hdefault
          exact .inr (.inl ⟨.inl ⟨rfl, hdefault⟩, h⟩)
        · rename_i hdefault
          exact .inr (.inr ⟨rfl, Bool.eq_false_iff.mpr hdefault, (ok.inj h).symm⟩)

/-- What is sent on opens the record of its SID or leaves the table alone. -/
theorem passOn_pit (h : node.passOn now getPacket route srcAddress delay = .ok node') :
    node'.par = node.par ∧ (node'.pit = node.pit ∨
      node.pit.createEntry now getPacket.head.sid getPacket.head.source srcAddress entryLifetime
        getPacket.head.nonce = .ok node'.pit) := by
  rcases passOn_cases h with ⟨-, rfl⟩ | ⟨hsid, ⟨r, -, h⟩ | ⟨-, h⟩ | ⟨-, -, rfl⟩⟩
  · exact ⟨rfl, .inl rfl⟩
  · obtain ⟨hpar, -, ⟨-, hcreate, -⟩ | ⟨-, rfl⟩⟩ := forwardGet_spec h
    · exact ⟨hpar, .inr hcreate⟩
    · exact ⟨rfl, .inl rfl⟩
  · obtain ⟨hpar, -, hcreate, -⟩ := floodGet_spec hsid h
    exact ⟨hpar, .inr hcreate⟩
  · exact ⟨rfl, .inl rfl⟩

/-- A GET whose SID has no record is treated in one of three ways. -/
theorem passOn_treatment (hflood : node.par.flood = false)
    (hsid : node.pit.haveSID getPacket.head.sid = false)
    (h : node.passOn now getPacket route srcAddress delay = .ok node') :
    Treatment node now getPacket route delay node' := by
  rcases passOn_cases h with ⟨hhave, -⟩ |
    ⟨-, ⟨r, rfl, hforward⟩ | ⟨hroute, hflooded⟩ | ⟨rfl, hdefault, rfl⟩⟩
  · rw [hsid] at hhave
    cases hhave
  · obtain ⟨-, hqueue, ⟨haddressed, -, datagram, newPacket, hout, hpacket, hnew⟩ | ⟨hnot, rfl⟩⟩ :=
      forwardGet_spec hforward
    · exact .forwarded datagram newPacket (by simp) haddressed hout hpacket hnew hqueue
    · exact .neglected (fun _ ↦ hnot) (by simp) rfl rfl
  · simp only [hflood, Bool.false_eq_true, or_false] at hroute
    obtain ⟨-, hout, -, found, delayQueue, hfound, hinsert, hsame⟩ := floodGet_spec hsid hflooded
    exact .flooded found delayQueue hroute.1 hroute.2 hout hfound hinsert hsame
  · exact .neglected (by simp) (fun _ ↦ hdefault) rfl rfl

/-- The last part of `requestContent` sees to it that the SID has a record. -/
theorem remember_spec (h : node.remember now getPacket.head srcAddress = .ok node') :
    ∃ pit, node' = { node with pit } ∧
      (pit = node.pit ∧ node.pit.haveSID getPacket.head.sid ∨
        ∃ t, node.pit.createEntry now getPacket.head.sid getPacket.head.source srcAddress t
          getPacket.head.nonce = .ok pit) := by
  unfold remember at h
  split at h
  · rename_i hentry
    obtain rfl := ok.inj h
    exact ⟨_, rfl, .inl ⟨rfl, haveSID_of_haveEntry hentry⟩⟩
  · obtain ⟨pit, hcreate, rfl⟩ := bind_pure_eq_ok h
    exact ⟨pit, rfl, .inr ⟨_, hcreate⟩⟩

theorem Treatment.of_tables {pit : ColorPendingGetTable}
    (h : Treatment { node with rt } now getPacket route delay mid) :
    Treatment node now getPacket route delay { mid with pit } := by
  cases h with
  | forwarded datagram newPacket hroute haddressed hqueueOut hpacket hsid hqueue =>
    exact .forwarded datagram newPacket hroute haddressed hqueueOut hpacket hsid hqueue
  | flooded found delayQueue hroute hdefault hqueueOut hfound hinsert hsame =>
    exact .flooded found delayQueue hroute hdefault hqueueOut hfound hinsert hsame
  | neglected hroute hdefault hqueueOut hqueue => exact .neglected hroute hdefault hqueueOut hqueue

theorem sameInterests_serveLoop {head : Get} {route : Option Croute} (packets : List DataPacket)
    (node : ColorNoCluster) :
    SameInterests node (serveLoop now head route srcAddress packets node) := by
  induction packets generalizing node with
  | nil => exact SameInterests.refl node
  | cons P rest ih =>
    unfold serveLoop
    split
    · exact SameInterests.refl node
    · refine SameInterests.trans ?_ (ih _)
      exact ⟨rfl, rfl, rfl, _, rfl⟩

/-- A GET that is dropped or served touches no request. -/
theorem handleGetPacket_served (hserved : ¬Misses node getPacket.head)
    (h : node.handleGetPacket now getPacket srcAddress delay = .ok node') :
    SameInterests node node' := by
  unfold handleGetPacket at h
  dsimp only at h
  split at h
  · obtain rfl := ok.inj h
    exact SameInterests.refl node
  · rename_i hlive
    have hlive' : 0 ≤ getPacket.head.timeToLive := Int.not_lt.mp hlive
    split at h
    · rename_i hnone
      exact absurd ⟨hlive', .inl hnone⟩ hserved
    · split at h
      · rename_i hfresh
        exact absurd ⟨hlive', .inr hfresh⟩ hserved
      · obtain rfl := ok.inj h
        refine SameInterests.trans ?_ (sameInterests_serveLoop _ _)
        exact ⟨rfl, rfl, rfl, [], (List.append_nil _).symm⟩

/-- A GET for content that is requested from others. -/
theorem handleGetPacket_missed (hmiss : Misses node getPacket.head)
    (h : node.handleGetPacket now getPacket srcAddress delay = .ok node') :
    ∃ rt mid, { node with rt }.passOn now getPacket
        (routeFor node now getPacket.head srcAddress) srcAddress delay = .ok mid ∧
      mid.remember now getPacket.head srcAddress = .ok node' := by
  have hrequest : ((node.learnGetRoutes now getPacket.head srcAddress).findRoute now
      getPacket.head.sid.getNidHead).2.requestContent now getPacket srcAddress delay =
        .ok node' := by
    unfold handleGetPacket at h
    dsimp only at h
    split at h
    · rename_i hdead
      exact absurd hmiss.1 (Int.not_le.mpr hdead)
    · split at h
      · exact h
      · rename_i lists hlists
        split at h
        · exact h
        · rename_i hfresh
          rcases hmiss.2 with hnone | hfresh'
          · exact absurd (hlists.symm.trans hnone) (by simp)
          · exact absurd hfresh' hfresh
  obtain ⟨mid, hpass, hremember⟩ := bind_eq_ok hrequest
  exact ⟨_, mid, hpass, hremember⟩

/-- After such a GET its SID has a record, and no other SID has gained or lost one. -/
theorem handleGetPacket_pit (hmiss : Misses node getPacket.head)
    (h : node.handleGetPacket now getPacket srcAddress delay = .ok node') :
    node'.par = node.par ∧ (node.pit.Coherent → node'.pit.Coherent) ∧
      ∀ sid, node'.pit.haveSID sid ↔ sid = getPacket.head.sid ∨ node.pit.haveSID sid := by
  obtain ⟨rt, mid, hpass, hremember⟩ := handleGetPacket_missed hmiss h
  obtain ⟨hpar, hmid⟩ := passOn_pit hpass
  obtain ⟨pit, rfl, hpit⟩ := remember_spec hremember
  have hmidCoherent : node.pit.Coherent → mid.pit.Coherent := by
    intro hcoherent
    rcases hmid with hsame | hcreate
    · rw [hsame]
      exact hcoherent
    · exact coherent_createEntry hcoherent hcreate
  have hmidHave : ∀ sid, (mid.pit.haveSID sid ∨ sid = getPacket.head.sid) ↔
      (sid = getPacket.head.sid ∨ node.pit.haveSID sid) := by
    intro sid
    rcases hmid with hsame | hcreate
    · rw [hsame]
      exact or_comm
    · rw [haveSID_createEntry hcreate]
      exact ⟨fun h ↦ h.elim id .inl, .inl⟩
  refine ⟨hpar, ?_, ?_⟩
  · intro hcoherent
    rcases hpit with ⟨rfl, -⟩ | ⟨t, hcreate⟩
    · exact hmidCoherent hcoherent
    · exact coherent_createEntry (hmidCoherent hcoherent) hcreate
  · intro sid
    rw [← hmidHave]
    rcases hpit with ⟨rfl, hhave⟩ | ⟨t, hcreate⟩
    · constructor
      · exact .inl
      · rintro (h | rfl)
        · exact h
        · exact hhave
    · exact (haveSID_createEntry hcreate).trans or_comm

/-- A GET whose SID has a record is not passed on. -/
theorem handleGetPacket_suppressed (hmiss : Misses node getPacket.head)
    (hsid : node.pit.haveSID getPacket.head.sid)
    (h : node.handleGetPacket now getPacket srcAddress delay = .ok node') :
    node'.queueOut = node.queueOut ∧ node'.delayQueue = node.delayQueue := by
  obtain ⟨rt, mid, hpass, hremember⟩ := handleGetPacket_missed hmiss h
  obtain ⟨pit, rfl, -⟩ := remember_spec hremember
  rcases passOn_cases hpass with ⟨-, rfl⟩ | ⟨hnone, -⟩
  · exact ⟨rfl, rfl⟩
  · exact absurd hsid (Bool.eq_false_iff.mp hnone)

/-- Without flooding, a GET that opens a record is treated in one of three ways. -/
theorem handleGetPacket_treatment (hflood : node.par.flood = false)
    (hmiss : Misses node getPacket.head) (hsid : node.pit.haveSID getPacket.head.sid = false)
    (h : node.handleGetPacket now getPacket srcAddress delay = .ok node') :
    Treatment node now getPacket (routeFor node now getPacket.head srcAddress) delay node' := by
  obtain ⟨rt, mid, hpass, hremember⟩ := handleGetPacket_missed hmiss h
  obtain ⟨pit, rfl, -⟩ := remember_spec hremember
  refine Treatment.of_tables (passOn_treatment ?_ ?_ hpass)
  · exact hflood
  · exact hsid

/-! ## The other events -/

/-- An entry keeps its counter and its SID when it takes another route. -/
theorem redirect_spec {first iter : PendPkt} (h : node.redirect now first = .ok (iter, mid)) :
    mid.par = node.par ∧ mid.pit = node.pit ∧ mid.queueOut = node.queueOut ∧ iter.tc = first.tc ∧
      ∀ packet, first.pkt = some (.get packet) →
        ∃ newPacket, iter.pkt = some (.get newPacket) ∧ newPacket.head.sid = packet.head.sid := by
  unfold redirect at h
  split at h
  · rename_i old htype hpkt
    obtain ⟨rfl, rfl⟩ := Prod.mk.inj (ok.inj h)
    refine ⟨rfl, rfl, rfl, rfl, ?_⟩
    intro packet hpacket
    obtain rfl := Packet.get.inj (Option.some.inj (hpkt.symm.trans hpacket))
    exact ⟨_, rfl, rfl⟩
  · cases h
  · obtain ⟨rfl, rfl⟩ := Prod.mk.inj (ok.inj h)
    exact ⟨rfl, rfl, rfl, rfl, fun packet hpacket ↦ ⟨packet, hpacket, rfl⟩⟩

/-- The timer of the delay queue takes out the first entry.  A GET whose counter has not run out is
sent. -/
theorem handleDelayer_spec (h : node.handleDelayer now = .ok node') :
    node'.par = node.par ∧ node'.pit = node.pit ∧
      ∃ first new, node.delayQueue.priQueue = first :: node'.delayQueue.priQueue ∧
        node'.queueOut = node.queueOut ++ new ∧
        (1 ≤ first.tc → ∀ packet, first.pkt = some (.get packet) →
          ∃ datagram ∈ new, ∃ newPacket, datagram.packet = .get newPacket ∧
            newPacket.head.sid = packet.head.sid) := by
  unfold handleDelayer at h
  dsimp only at h
  split at h
  · cases h
  · rename_i first rest hqueue
    obtain ⟨⟨iter, mid⟩, hredirect, h⟩ := bind_eq_ok h
    obtain ⟨⟨packet, delayQueue⟩, hpop, h⟩ := bind_eq_ok h
    obtain ⟨hpar, hpit, hout, htc, hpkt⟩ := redirect_spec hredirect
    obtain ⟨popped, hpopped, hpacket⟩ := DelayQueue.popAtFront_eq_ok hpop
    obtain ⟨rfl, rfl⟩ := List.cons.inj hpopped
    have hresult : node'.par = mid.par ∧ node'.pit = mid.pit ∧ node'.delayQueue = delayQueue ∧
        ∃ status, node'.queueOut = mid.queueOut ++ (packet.map fun packet ↦
          (⟨packet, mid.par.macAddress, BROADCAST_ADDRESS, status⟩ : Datagram)).toList := by
      cases packet with
      | none =>
        obtain rfl := ok.inj h
        exact ⟨rfl, rfl, rfl, none, (List.append_nil _).symm⟩
      | some packet =>
        obtain rfl := ok.inj h
        exact ⟨rfl, rfl, rfl, _, rfl⟩
    obtain ⟨hpar', hpit', hqueue', status, hout'⟩ := hresult
    refine ⟨hpar'.trans hpar, hpit'.trans hpit, first, _, ?_, hout'.trans (by rw [hout]), ?_⟩
    · rw [hqueue', ← hqueue]
    · intro hcounter getPacket hget
      obtain ⟨newPacket, hnew, hsid⟩ := hpkt getPacket hget
      have hlive : ¬iter.tc < 1 := by omega
      rw [if_neg hlive, hnew] at hpacket
      subst hpacket
      exact ⟨_, List.mem_singleton_self _, newPacket, rfl, hsid⟩

theorem sameInterests_sendGET (node : ColorNoCluster) (now : SimTime) (sid : SID) (port : Port)
    (nonce : ℤ) : SameInterests node (node.sendGET now sid port nonce) := by
  unfold sendGET getHead
  dsimp only
  split <;> exact ⟨rfl, rfl, rfl, _, rfl⟩

/-- No request is made: records can only go, the delay queue is the same, and packets may have been
sent. -/
structure Quiet (node node' : ColorNoCluster) : Prop where
  par : node'.par = node.par
  records : ∀ sid, node'.pit.haveSID sid → node.pit.haveSID sid
  coherent : node.pit.Coherent → node'.pit.Coherent
  delayQueue : node'.delayQueue = node.delayQueue
  sent : ∃ new, node'.queueOut = node.queueOut ++ new

theorem SameInterests.quiet (h : SameInterests node node') : Quiet node node' where
  par := h.par
  records _ hhave := h.pit ▸ hhave
  coherent hcoherent := h.pit ▸ hcoherent
  delayQueue := h.delayQueue
  sent := h.sent

/-- The removal of a record is quiet. -/
theorem SameInterests.quiet_removeEntry {scheduled : SelfMessages PitTimer}
    {pit : ColorPendingGetTable} (h : SameInterests node mid)
    (hremove : { node.pit with scheduled }.removeEntry sid = .ok pit) :
    Quiet node { mid with pit } where
  par := h.par
  records _ hhave := ((haveSID_removeEntry hremove).mp hhave).2
  coherent hcoherent := by
    have hpit : Coherent { node.pit with scheduled } := hcoherent
    exact coherent_removeEntry hpit hremove
  delayQueue := h.delayQueue
  sent := h.sent

/-- An event is quiet, or it is the timer of the delay queue, or a GET for content that is requested
from others. -/
theorem handle_cases {event : NodeEvent} (h : machine.Step node event node') :
    Quiet node node' ∨
    (event.action = .delayer ∧ node.handleDelayer event.now = .ok node') ∨
    ∃ packet srcAddress delay, event.action = .receive (.get packet) srcAddress delay ∧
      Misses node packet.head ∧
      node.handleGetPacket event.now packet srcAddress delay = .ok node' := by
  obtain ⟨-, hok⟩ := h
  obtain ⟨now, action⟩ := event
  cases action with
  | receive packet srcAddress delay =>
    cases packet with
    | get packet =>
      by_cases hmiss : Misses node packet.head
      · exact .inr (.inr ⟨packet, srcAddress, delay, rfl, hmiss, hok⟩)
      · exact .inl (handleGetPacket_served hmiss hok).quiet
    | data packet =>
      obtain ⟨mid, hsame, rfl | ⟨pit, hremove, rfl⟩⟩ := handleDataPacket_spec hok
      · exact .inl hsame.quiet
      · exact .inl (hsame.quiet_removeEntry hremove)
  | delayer => exact .inr (.inl ⟨rfl, hok⟩)
  | pitTimer timer deleted =>
    obtain ⟨pit, hpit, rfl⟩ := bind_pure_eq_ok hok
    obtain ⟨-, sid, scheduled, -, -, hremove⟩ := handleMessage_eq_ok hpit
    exact .inl ((SameInterests.refl node).quiet_removeEntry hremove)
  | bindPort port socketId =>
    obtain rfl := ok.inj hok
    exact .inl (SameInterests.quiet ⟨rfl, rfl, rfl, [], (List.append_nil _).symm⟩)
  | sendGET sid port nonce =>
    obtain rfl := ok.inj hok
    exact .inl (sameInterests_sendGET node now sid port nonce).quiet
  | cacheData sid payload =>
    obtain ⟨packets, -, rfl⟩ := bind_pure_eq_ok hok
    exact .inl (SameInterests.quiet ⟨rfl, rfl, rfl, [], (List.append_nil _).symm⟩)

/-! ## Runs -/

variable {par : Parameters} {events : List NodeEvent}

/-- Throughout a run the parameters are the same and every SID with a pending GET has a timer. -/
theorem coherent_of_run (hrun : machine.Run (initial par) events node) :
    node.par = par ∧ node.pit.Coherent := by
  refine hrun.invariant (P := fun node ↦ node.par = par ∧ node.pit.Coherent) ?_
    ⟨rfl, coherent_empty par.hash⟩
  rintro node event node' ⟨hpar, hcoherent⟩ hstep
  rcases handle_cases hstep with hquiet | ⟨-, hdelayer⟩ | ⟨packet, src, delay, -, hmiss, hget⟩
  · exact ⟨hquiet.par.trans hpar, hquiet.coherent hcoherent⟩
  · obtain ⟨hpar', hpit, -⟩ := handleDelayer_spec hdelayer
    rw [hpar', hpit]
    exact ⟨hpar, hcoherent⟩
  · obtain ⟨hpar', hcoherent', -⟩ := handleGetPacket_pit hmiss hget
    exact ⟨hpar'.trans hpar, hcoherent' hcoherent⟩

/-- The parameters of a relay, with a stand-in for the hash. -/
def relay : Parameters where
  hash nid := ⟨~~~nid.value⟩
  nid := ⟨1⟩
  macAddress := 1
  mtu := 2304
  hopLimit := 5
  TC := 2
  flood := false
  routeLifeTime := SimTime.ofMillis 1000

/-- The arrival of a GET that a node has just sent for some content of node 9. -/
def getFrom (now : SimTime) (source : NID) (srcAddress : MacAddress) (nonce : ℤ) : NodeEvent :=
  ⟨now, .receive (.get { head := { sid := ⟨⟨9⟩, 1⟩, source, lastHop := source, nonce } })
    srcAddress 1000⟩

end ColorNoCluster

end Inet4.Icn
