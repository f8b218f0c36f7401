import Inet4.Icn.Emission
import Inet4.Pccp.Indicator

/-!
# Congestion feedback in a network

A network of nodes, each with the congestion indicators of its link layer.  What a node hands to the
link layer passes an indicator and is then on the air, where any node that it is addressed to may
receive it, early or late, more than once or never.

Each Data packet is followed by its `Path`: the nodes that have transmitted it since it was served,
and the levels that their indicators computed.  No handler reads it.  The level of a Data packet is
the maximum along its path as long as what is served from a content store bears no level; a stored
copy bears the level with which it was received.
-/

namespace Inet4.Pccp

open Icn Icn.ColorNoCluster Function List

/-- The access categories of the MAC, each with a queue of its own. -/
inductive AccessCategory
  | AC_BK
  | AC_BE
  | AC_VI
  | AC_VO
  deriving DecidableEq

/-- The nodes that have transmitted a packet since it was served, with the levels computed there. -/
abbrev Path (ι : Type) := List (ι × PccpClCode)

/-- The maximum of the levels along a path. -/
def Path.level {ι : Type} (path : Path ι) : ℤ :=
  path.foldl (fun level hop ↦ max level hop.2.toInt) 0

/-- A packet on the air. -/
structure Flight (ι : Type) where
  packet : Packet
  srcAddress : MacAddress
  destAddress : MacAddress
  path : Path ι

/-- Nodes, their indicators, and the packets between them. -/
structure Network (ι W : Type) where
  nodes : ι → ColorNoCluster
  indicators : ι → AccessCategory → PccpIndicator W
  /-- What each node has handed to the link layer and no indicator has seen. -/
  queued : ι → List (Datagram × Path ι)
  air : List (Flight ι) := []
  /-- What each node has handed to its consumers, oldest first. -/
  delivered : ι → List (Delivery × Path ι)

/-- What happens in a network. -/
inductive NetworkAction (ι : Type)
  /-- A node does something other than receive a packet. -/
  | act (i : ι) (action : NodeAction)
  /-- A node receives a packet from the air. -/
  | receive (i : ι) (flight : ℕ) (delay : SimTime)
  /-- The next packet of a node passes an indicator.  The collections are those before and after it
  enters the queue. -/
  | transmit (i : ι) (ac : AccessCategory) (before after : Collection)

/-- The packets of a node come from the air. -/
def isReceive : NodeAction → Bool
  | .receive .. => true
  | _ => false

/-- An action and the clock reading at which it happens. -/
structure NetworkEvent (ι : Type) where
  now : SimTime
  action : NetworkAction ι

namespace Network

variable {ι W : Type} [DecidableEq ι] [DoubleMath W]

/-- A node has handled an event: what it has sent is queued, and what it has delivered is noted,
both with the given path. -/
def nodeDone (net : Network ι W) (i : ι) (node' : ColorNoCluster) (path : Path ι) : Network ι W :=
  let node := net.nodes i
  let sent := node'.queueOut.drop node.queueOut.length
  let delivered := node'.transportOut.drop node.transportOut.length
  { net with
    nodes := update net.nodes i node'
    queued := update net.queued i (net.queued i ++ sent.map (·, path))
    delivered := update net.delivered i (net.delivered i ++ delivered.map (·, path)) }

/-- The path of what a node sends on when it receives a packet.  Data that answers a GET starts a
new path. -/
def pathBehind (flight : Flight ι) : Path ι :=
  match flight.packet with
  | .data _ => flight.path
  | .get _ => []

/-- The effect of an event. -/
def handle (net : Network ι W) (event : NetworkEvent ι) : Except Fault (Network ι W) :=
  match event.action with
  | .act i action => do
    let node' ← ColorNoCluster.handle (net.nodes i) ⟨event.now, action⟩
    return net.nodeDone i node' []
  | .receive i k delay =>
    match net.air[k]? with
    | none => .ok net
    | some flight => do
      let node' ← ColorNoCluster.handle (net.nodes i)
        ⟨event.now, .receive flight.packet flight.srcAddress delay⟩
      return net.nodeDone i node' (pathBehind flight)
  | .transmit i ac before after =>
    match net.queued i with
    | [] => .ok net
    | (datagram, path) :: rest =>
      let (cl, indicator, packet) :=
        (net.indicators i ac).matchesPacket event.now before datagram
      let indicator := indicator.pushOrSendPacket event.now after
      let flight : Flight ι :=
        { packet
          srcAddress := datagram.srcAddress
          destAddress := datagram.destAddress
          path := path ++ (cl.map fun cl ↦ (i, cl)).toList }
      .ok { net with
        indicators := update net.indicators i
          (update (net.indicators i) ac indicator)
        queued := update net.queued i rest
        air := net.air ++ [flight] }

/-- A node receives what is addressed to it or to all; timers expire when they are due. -/
def Enabled (net : Network ι W) (event : NetworkEvent ι) : Prop :=
  match event.action with
  | .act i action =>
    ColorNoCluster.Enabled (net.nodes i) ⟨event.now, action⟩ ∧ isReceive action = false
  | .receive i k _ =>
    ∃ flight ∈ net.air[k]?, flight.destAddress = (net.nodes i).par.macAddress ∨
      flight.destAddress = BROADCAST_ADDRESS
  | .transmit i _ _ _ => net.queued i ≠ []

/-- A network in its environment. -/
def machine : Machine (Network ι W) (NetworkEvent ι) Fault where
  Enabled := Enabled
  handle := handle

/-- A network of nodes with empty tables. -/
def initial (par : ι → Parameters) (indicators : ι → AccessCategory → PccpIndicator W) :
    Network ι W where
  nodes i := ColorNoCluster.initial (par i)
  indicators
  queued _ := []
  delivered _ := []

/-- The level of what is delivered is the maximum of the levels that were computed on its way. -/
def Describes (net : Network ι W) : Prop :=
  ∀ i, ∀ d ∈ net.delivered i, d.2 ≠ [] ∧ d.1.congestionLevel = d.2.level

/-- Whatever is served from a content store bears level 0. -/
def ServesFreely (net : Network ι W) (event : NetworkEvent ι) : Prop :=
  match event.action with
  | .receive i k delay => ∀ flight ∈ net.air[k]?, ColorNoCluster.ServesFreely (net.nodes i)
      ⟨event.now, .receive flight.packet flight.srcAddress delay⟩
  | _ => True

instance (net : Network ι W) (event : NetworkEvent ι) : Decidable (machine.Enabled net event) :=
  match event with
  | ⟨now, .act i action⟩ =>
    inferInstanceAs (Decidable (ColorNoCluster.machine.Enabled (net.nodes i) ⟨now, action⟩ ∧
      isReceive action = false))
  | ⟨_, .receive ..⟩ => inferInstanceAs (Decidable (∃ _ ∈ _, _))
  | ⟨_, .transmit i _ _ _⟩ =>
    match h : net.queued i with
    | [] => isFalse fun hne ↦ hne h
    | _ :: _ => isTrue fun hnil ↦ by cases h.symm.trans hnil

instance (net : Network ι W) (event : NetworkEvent ι) :
    Decidable ((machine.restrict ServesFreely).Enabled net event) :=
  match event with
  | ⟨now, .act i action⟩ => inferInstanceAs (Decidable (machine.Enabled net ⟨now, .act i action⟩ ∧
      True))
  | ⟨now, .receive i k delay⟩ =>
    inferInstanceAs (Decidable (machine.Enabled net ⟨now, .receive i k delay⟩ ∧
      ∀ flight ∈ net.air[k]?, ColorNoCluster.ServesFreely (net.nodes i)
        ⟨now, .receive flight.packet flight.srcAddress delay⟩))
  | ⟨now, .transmit i ac before after⟩ =>
    inferInstanceAs (Decidable (machine.Enabled net ⟨now, .transmit i ac before after⟩ ∧ True))

variable {net net' : Network ι W} {event : NetworkEvent ι} {i : ι} {path : Path ι}
variable {node' : ColorNoCluster} {par : ι → Parameters}
variable {indicators : ι → AccessCategory → PccpIndicator W}

omit [DecidableEq ι] [DoubleMath W] in
theorem level_append (path : Path ι) (i : ι) (cl : PccpClCode) :
    (path ++ [(i, cl)]).level = max path.level cl.toInt := by
  simp [Path.level, foldl_append]

/-- Every Data packet that is queued, on the air or delivered bears the maximum of the levels along
its path. -/
structure Levelled (net : Network ι W) : Prop where
  gets : ∀ i, (net.nodes i).delayQueue.OnlyGets
  queued : ∀ i, ∀ q ∈ net.queued i, ∀ packet, q.1.packet = .data packet →
    q.1.pitInd ≠ none ∧ packet.head.congestionLevel = q.2.level
  air : ∀ flight ∈ net.air, ∀ packet, flight.packet = .data packet →
    flight.path ≠ [] ∧ packet.head.congestionLevel = flight.path.level
  delivered : ∀ i, ∀ d ∈ net.delivered i, d.2 ≠ [] ∧ d.1.congestionLevel = d.2.level

omit [DecidableEq ι] [DoubleMath W] in
theorem levelled_initial : Levelled (initial par indicators : Network ι W) where
  gets i iter hiter := by cases hiter
  queued i q hq := by cases hq
  air flight hflight := by cases hflight
  delivered i d hd := by cases hd

omit [DoubleMath W] in
/-- What a node sends and delivers with the level of a path. -/
theorem Levelled.nodeDone {delivers : Prop} (h : Levelled net)
    (hgets : node'.delayQueue.OnlyGets) (hemits : Emits path.level delivers (net.nodes i) node')
    (hpath : delivers → path ≠ []) :
    Levelled (net.nodeDone i node' path) := by
  obtain ⟨sent, hsent, hlevel⟩ := hemits.sent
  obtain ⟨delivered, hdelivered, hlevel'⟩ := hemits.delivered
  refine ⟨?_, ?_, h.air, ?_⟩
  · intro j
    by_cases hj : j = i
    · subst hj
      simpa [Network.nodeDone] using hgets
    · simpa [Network.nodeDone, hj] using h.gets j
  · intro j q hq
    by_cases hj : j = i
    · subst hj
      simp only [Network.nodeDone, update_self, hsent, drop_left] at hq
      rcases mem_append.mp hq with hq | hq
      · exact h.queued j q hq
      · obtain ⟨datagram, hmem, rfl⟩ := mem_map.mp hq
        exact hlevel datagram hmem
    · simp only [Network.nodeDone, update_of_ne hj] at hq
      exact h.queued j q hq
  · intro j d hd
    by_cases hj : j = i
    · subst hj
      simp only [Network.nodeDone, update_self, hdelivered, drop_left] at hd
      rcases mem_append.mp hd with hd | hd
      · exact h.delivered j d hd
      · obtain ⟨delivery, hmem, rfl⟩ := mem_map.mp hd
        obtain ⟨hdelivers, hdeliveryLevel⟩ := hlevel' delivery hmem
        exact ⟨hpath hdelivers, hdeliveryLevel⟩
    · simp only [Network.nodeDone, update_of_ne hj] at hd
      exact h.delivered j d hd

omit [DoubleMath W] in
/-- A node acts on its own. -/
theorem Levelled.act {now : SimTime} {action : NodeAction} (h : Levelled net)
    (haction : isReceive action = false)
    (hstep : ColorNoCluster.machine.Step (net.nodes i) ⟨now, action⟩ node') :
    Levelled (net.nodeDone i node' []) := by
  have hgets := onlyGets_handle (h.gets i) hstep
  have hfree : ColorNoCluster.ServesFreely (net.nodes i) ⟨now, action⟩ := by
    cases action with
    | receive packet srcAddress delay => cases haction
    | _ => trivial
  have hemits := emits_handle (h.gets i) hfree hstep.2
  cases action with
  | receive packet srcAddress delay => cases haction
  | _ => exact h.nodeDone hgets hemits False.elim

omit [DoubleMath W] in
/-- A node receives a packet from the air. -/
theorem Levelled.receive {now delay : SimTime} {flight : Flight ι} (h : Levelled net)
    (hflight : flight ∈ net.air)
    (hfree : ColorNoCluster.ServesFreely (net.nodes i)
      ⟨now, .receive flight.packet flight.srcAddress delay⟩)
    (hstep : ColorNoCluster.machine.Step (net.nodes i)
      ⟨now, .receive flight.packet flight.srcAddress delay⟩ node') :
    Levelled (net.nodeDone i node' (pathBehind flight)) := by
  have hgets := onlyGets_handle (h.gets i) hstep
  have hemits := emits_handle (h.gets i) hfree hstep.2
  cases hpacket : flight.packet with
  | get packet =>
    rw [hpacket] at hemits
    have hpath : pathBehind flight = [] := by
      simp [pathBehind, hpacket]
    rw [hpath]
    exact h.nodeDone hgets hemits False.elim
  | data packet =>
    rw [hpacket] at hemits
    obtain ⟨hne, hlevel⟩ := h.air flight hflight packet hpacket
    have hpath : pathBehind flight = flight.path := by
      simp [pathBehind, hpacket]
    rw [hpath]
    simp only [expectedLevel, hlevel] at hemits
    exact h.nodeDone hgets hemits fun _ ↦ hne

omit [DecidableEq ι] in
/-- The indicator raises the level of Data to the level that it computes. -/
theorem level_matchesPacket {indicator : PccpIndicator W} {now : SimTime} {collection : Collection}
    {datagram : Datagram} {packet : DataPacket} (i : ι)
    (hdatagram : ∀ packet, datagram.packet = .data packet →
      datagram.pitInd ≠ none ∧ packet.head.congestionLevel = path.level)
    (hpacket : (indicator.matchesPacket now collection datagram).2.2 = .data packet) :
    ∃ cl, (indicator.matchesPacket now collection datagram).1 = some cl ∧
      packet.head.congestionLevel = (path ++ [(i, cl)]).level := by
  unfold PccpIndicator.matchesPacket at hpacket ⊢
  cases hpit : datagram.pitInd with
  | none =>
    simp only [hpit] at hpacket
    exact absurd hpit (hdatagram packet hpacket).1
  | some pitInd =>
    simp only [hpit] at hpacket ⊢
    refine ⟨_, rfl, ?_⟩
    cases hdata : datagram.packet with
    | get get =>
      simp only [hdata] at hpacket
      cases hpacket
    | data data =>
      simp only [hdata] at hpacket
      obtain rfl := Packet.data.inj hpacket
      rw [level_append, PccpIndicator.congestionLevel_setPccpCl, (hdatagram data hdata).2]

/-- A packet passes an indicator. -/
theorem Levelled.transmit {datagram : Datagram} {rest : List (Datagram × Path ι)}
    {indicators : ι → AccessCategory → PccpIndicator W} {indicator : PccpIndicator W}
    {now : SimTime} {collection : Collection} (h : Levelled net)
    (hqueued : net.queued i = (datagram, path) :: rest) :
    Levelled { net with
      indicators
      queued := update net.queued i rest
      air := net.air ++ [
        { packet := (indicator.matchesPacket now collection datagram).2.2
          srcAddress := datagram.srcAddress
          destAddress := datagram.destAddress
          path := path ++ ((indicator.matchesPacket now collection datagram).1.map
            fun cl ↦ (i, cl)).toList }] } where
  gets := h.gets
  queued := by
    intro j q hq
    by_cases hj : j = i
    · subst hj
      apply h.queued j q
      rw [hqueued]
      simp only [update_self] at hq
      exact mem_cons_of_mem _ hq
    · simp only [update_of_ne hj] at hq
      exact h.queued j q hq
  air := by
    intro flight hflight packet hpacket
    rcases mem_append.mp hflight with hold | hnew
    · exact h.air flight hold packet hpacket
    · obtain rfl := mem_singleton.mp hnew
      have hdatagram := h.queued i (datagram, path) (by simp [hqueued])
      obtain ⟨cl, hcl, hlevel⟩ := level_matchesPacket i hdatagram hpacket
      simp only [hcl, Option.map_some, Option.toList_some]
      exact ⟨by simp, hlevel⟩
  delivered := h.delivered

/-- One event keeps the invariant, provided that what is served bears level 0. -/
theorem Levelled.step (h : Levelled net)
    (hstep : (machine.restrict ServesFreely).Step net event net') :
    Levelled net' := by
  obtain ⟨⟨henabled, hok⟩, hfree⟩ := Machine.step_restrict_iff.mp hstep
  obtain ⟨now, action⟩ := event
  cases action with
  | act i action =>
    obtain ⟨node', hhandle, rfl⟩ := bind_pure_eq_ok hok
    exact h.act henabled.2 ⟨henabled.1, hhandle⟩
  | receive i k delay =>
    simp only [machine, handle] at hok
    cases hair : net.air[k]? with
    | none =>
      simp only [hair] at hok
      obtain rfl := Except.ok.inj hok
      exact h
    | some flight =>
      simp only [hair] at hok
      obtain ⟨node', hhandle, rfl⟩ := bind_pure_eq_ok hok
      exact h.receive (mem_of_getElem? hair) (hfree flight hair) ⟨trivial, hhandle⟩
  | transmit i ac before after =>
    simp only [machine, handle] at hok
    cases hqueued : net.queued i with
    | nil =>
      simp only [hqueued] at hok
      obtain rfl := Except.ok.inj hok
      exact h
    | cons q rest =>
      simp only [hqueued] at hok
      obtain rfl := Except.ok.inj hok
      exact h.transmit hqueued

/-- As long as whatever is served from a content store bears level 0, the level of what is delivered
is the maximum of the levels that were computed on its way. -/
theorem describes_of_servesFreely {events : List (NetworkEvent ι)}
    (hrun : (machine.restrict ServesFreely).Run (initial par indicators) events net) :
    Describes net := by
  have hlevelled : Levelled net :=
    hrun.invariant (fun _ _ _ h hstep ↦ h.step hstep) levelled_initial
  exact hlevelled.delivered

/-- Station 0 relays, station 1 has the content, and station 2 wants it. -/
def station (i : Fin 3) : Parameters :=
  { relay with
    nid := ⟨i.val + 1⟩
    macAddress := i.val + 1
    mtu := 86 }

/-- The congestion index is the load of the queue. -/
def loadIndicator (_ : Fin 3) (_ : AccessCategory) : PccpIndicator ℚ where
  wq := 1
  g := 1 / 5
  CI_FREE := 1 / 20
  CI_BUSY := 3 / 10
  CI_CONG := 3 / 5
  algorithm := .CCS
  avgDataQueueLength := 0
  avgPitLength := 0
  ci := 0

/-- The content of station 1. -/
def content : SID := ⟨⟨2⟩, 1⟩

/-- A transmission from an idle queue. -/
def transmitIdle (i : Fin 3) : NetworkAction (Fin 3) :=
  .transmit i .AC_BE ⟨1, 100⟩ ⟨1, 100⟩

/-- The content travels from the congested station 1 over station 0 to station 2. -/
def fromProducer : List (NetworkEvent (Fin 3)) :=
  [⟨0, .act 1 (.cacheData content [1, 2, 3, 4, 5, 6, 7, 8])⟩,
    ⟨0, .act 2 (.bindPort 5 1)⟩,
    ⟨0, .act 2 (.sendGET content 5 7)⟩,
    ⟨0, transmitIdle 2⟩,
    ⟨0, .receive 0 0 1000⟩,
    ⟨1000, .act 0 .delayer⟩,
    ⟨1000, transmitIdle 0⟩,
    ⟨1000, .receive 1 1 0⟩,
    ⟨1000, .transmit 1 .AC_BE ⟨90, 100⟩ ⟨90, 100⟩⟩,
    ⟨1000, .receive 0 2 0⟩,
    ⟨1000, transmitIdle 0⟩,
    ⟨1000, .receive 2 3 0⟩]

theorem describes_of_servesFreely_fromProducer :
    ∃ net : Network (Fin 3) ℚ,
      (machine.restrict ServesFreely).Run (initial station loadIndicator) fromProducer net ∧
      (net.delivered 2).map Prod.snd = [[(1, .CONGESTED), (0, .FREE)]] ∧ Describes net := by
  have hexec : ((machine.restrict ServesFreely).exec (initial station loadIndicator)
      fromProducer).any fun net ↦
        decide ((net.delivered 2).map Prod.snd = [[(1, .CONGESTED), (0, .FREE)]]) := by
    decide +kernel
  obtain ⟨net, hrun, hdelivered⟩ := Machine.exists_run_of_exec hexec
  exact ⟨net, hrun, hdelivered, describes_of_servesFreely hrun⟩

/-- Station 2 asks again, and station 0 answers from its content store. -/
def fromCache : List (NetworkEvent (Fin 3)) :=
  [⟨2000, .act 2 (.sendGET content 5 8)⟩,
    ⟨2000, transmitIdle 2⟩,
    ⟨2000, .receive 0 4 1000⟩,
    ⟨2000, transmitIdle 0⟩,
    ⟨2000, .receive 2 5 0⟩]

/-- The copy that the idle station 0 serves replays the congestion of station 1. -/
theorem not_describes_fromCache :
    ∃ net : Network (Fin 3) ℚ,
      machine.Run (initial station loadIndicator) (fromProducer ++ fromCache) net ∧
      (∃ d ∈ net.delivered 2, d.1.congestionLevel = 3 ∧ d.2 = [(0, .FREE)]) ∧ ¬Describes net := by
  have hexec : (machine.exec (initial station loadIndicator) (fromProducer ++ fromCache)).any
      fun net ↦ decide (∃ d ∈ net.delivered 2, d.1.congestionLevel = 3 ∧ d.2 = [(0, .FREE)]) := by
    decide +kernel
  obtain ⟨net, hrun, d, hmem, hlevel, hpath⟩ := Machine.exists_run_of_exec hexec
  refine ⟨net, hrun, ⟨d, hmem, hlevel, hpath⟩, ?_⟩
  intro hdescribes
  have hequal := (hdescribes 2 d hmem).2
  rw [hlevel, hpath] at hequal
  exact absurd hequal (by decide)

end Network

end Inet4.Pccp
