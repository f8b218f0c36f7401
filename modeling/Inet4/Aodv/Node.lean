import Inet4.Kernel
import Inet4.MultiMap

/-!
# A node of the AODV cluster protocol

The state of `Aodv_cluster` and what it does with datagrams, control packets and timers.  A route of
the module is a host route; routes that other modules installed do not matter, since each of them is
treated like a missing one.  The environment decides the role of the node in its cluster, and it may
call `expungeRoutes` at any time: the code does so at the least lifetime.
-/

namespace Inet4.Aodv

variable {A : Type} [DecidableEq A]

/-- A 32-bit `unsigned int`. -/
abbrev Word := BitVec 32

structure Rreq (A : Type) where
  gratuitousRREPFlag : Bool
  destOnlyFlag : Bool
  unknownSeqNumFlag : Bool
  hopCount : ℕ
  rreqId : Word
  destAddr : A
  destSeqNum : Word
  originatorAddr : A
  originatorSeqNum : Word
  cluster : Bool
deriving DecidableEq

/-- The originator of a Hello message is unspecified. -/
structure Rrep (A : Type) where
  ackRequiredFlag : Bool
  hopCount : ℕ
  destAddr : A
  destSeqNum : Word
  originatorAddr : Option A
  lifeTime : SimTime
deriving DecidableEq

structure UnreachableNode (A : Type) where
  addr : A
  seqNum : Word
deriving DecidableEq

inductive AodvControlPacket (A : Type)
  | RREQ (rreq : Rreq A)
  | RREP (rrep : Rrep A)
  | RERR (unreachableNodes : List (UnreachableNode A))
  | RREPACK
deriving DecidableEq

/-- A packet given to the socket; without a destination address it is broadcast. -/
structure Outgoing (A : Type) where
  packet : AodvControlPacket A
  destAddr : Option A
  timeToLive : ℕ
deriving DecidableEq

/-- A datagram of the network layer. -/
structure Datagram (A : Type) where
  sourceAddress : A
  destinationAddress : A
  payload : ℕ
deriving DecidableEq

structure Parameters (A : Type) where
  /-- Broadcast and multicast addresses. -/
  isGroup : A → Bool
  isLocalAddress : A → Bool
  askGratuitousRREP : Bool
  destinationOnlyFlag : Bool
  activeRouteTimeout : SimTime
  helloInterval : SimTime
  allowedHelloLoss : ℕ
  netDiameter : ℕ
  nodeTraversalTime : SimTime
  rerrRatelimit : ℕ
  rreqRetries : ℕ
  rreqRatelimit : ℕ
  timeoutBuffer : ℕ
  ttlStart : ℕ
  ttlIncrement : ℕ
  ttlThreshold : ℕ
  myRouteTimeout : SimTime
  deletePeriod : SimTime
  blacklistTimeout : SimTime
  netTraversalTime : SimTime
  nextHopWait : SimTime
  pathDiscoveryTime : SimTime

/-- A host route with its `AodvRouteData`. -/
structure Route (A : Type) where
  nextHop : A
  metric : ℕ
  precursorList : List A
  active : Bool
  validDestNum : Bool
  destSeqNum : Word
  lifeTime : SimTime
deriving DecidableEq

def Route.addPrecursor (route : Route A) (precursorAddr : A) : Route A :=
  { route with precursorList := route.precursorList.insert precursorAddr }

/-- The timer for a Route Reply. -/
structure WaitForRrep (A : Type) where
  destAddr : A
  lastTTL : ℕ
  fromInvalidEntry : Bool
  timer : SelfMessage

structure AodvCluster (A : Type) where
  self : A
  params : Parameters A
  routes : AssocMap A (Route A) := ∅
  rreqId : Word := 0
  sequenceNum : Word := 0
  waitForRREPTimers : AssocMap A (WaitForRrep A) := ∅
  rreqsArrivalTime : AssocMap (A × Word) SimTime := ∅
  failedNextHop : Option A := none
  blacklist : AssocMap A SimTime := ∅
  rerrCount : ℕ := 0
  rreqCount : ℕ := 0
  lastBroadcastTime : SimTime := 0
  addressToRreqRetries : AssocMap A ℕ := ∅
  rrepAckTimer : SelfMessage := none
  blacklistTimer : SelfMessage := none
  rebootTime : SimTime := 0
  targetAddressToDelayedPackets : MultiMap A (Datagram A) := .empty
  /-- What was given to the socket. -/
  sent : List (Outgoing A) := []
  /-- What was given to `reinjectQueuedDatagram` and to `dropQueuedDatagram`. -/
  reinjected : List (Datagram A) := []
  dropped : List (Datagram A) := []

/-- The answers of the cluster module. -/
structure Role where
  isGateway : Bool
  isHead : Bool

namespace AodvCluster

variable (node : AodvCluster A)

/-- `findBestMatchingRoute`, as far as it finds a route of this module. -/
def findRoute (destAddr : A) : Option (Route A) :=
  node.routes.find destAddr

def setRoute (destAddr : A) (route : Route A) : AodvCluster A :=
  { node with routes := node.routes.assign destAddr route }

def createRoute (destAddr nextHop : A) (hopCount : ℕ) (hasValidDestNum : Bool) (destSeqNum : Word)
    (isActive : Bool) (lifeTime : SimTime) :
    AodvCluster A :=
  node.setRoute destAddr
    { nextHop := nextHop
      metric := hopCount
      precursorList := []
      active := isActive
      validDestNum := hasValidDestNum
      destSeqNum := destSeqNum
      lifeTime := lifeTime }

/-- The destination is the one of the route that is updated. -/
def updateRoutingTable (destAddr : A) (route : Route A) (nextHop : A) (hopCount : ℕ)
    (hasValidDestNum : Bool) (destSeqNum : Word) (isActive : Bool)
    (lifeTime : SimTime) : AodvCluster A :=
  node.setRoute destAddr
    { route with
      nextHop := nextHop
      metric := hopCount
      active := isActive
      validDestNum := hasValidDestNum
      destSeqNum := destSeqNum
      lifeTime := lifeTime }

/-- A route is created or updated. -/
def createOrUpdate (destAddr nextHop : A) (hopCount : ℕ) (hasValidDestNum : Bool)
    (destSeqNum : Word) (isActive : Bool) (lifeTime : SimTime) :
    AodvCluster A :=
  match node.findRoute destAddr with
  | none =>
    node.createRoute destAddr nextHop hopCount hasValidDestNum destSeqNum isActive lifeTime
  | some route => node.updateRoutingTable destAddr route nextHop hopCount hasValidDestNum
      destSeqNum isActive lifeTime

variable (now : SimTime)

def sendAODVPacket (packet : AodvControlPacket A) (destAddr : Option A) (timeToLive : ℕ)
    : Except Fault (AodvCluster A) := do
  assert (timeToLive ≠ 0)
  return { node with
    lastBroadcastTime := if destAddr = none then now else node.lastBroadcastTime
    sent := node.sent ++ [⟨packet, destAddr, timeToLive⟩] }

def updateValidRouteLifeTime (destAddr : A) (lifetime : SimTime) : AodvCluster A :=
  match node.findRoute destAddr with
  | some route =>
    if route.active then
      node.setRoute destAddr { route with lifeTime := max route.lifeTime lifetime }
    else node
  | none => node

def hasOngoingRouteDiscovery (target : A) : Bool :=
  (node.waitForRREPTimers.find target).isSome

def delayDatagram (datagram : Datagram A) : AodvCluster A :=
  { node with targetAddressToDelayedPackets :=
      node.targetAddressToDelayedPackets.insert datagram.destinationAddress datagram }

def createRREQ (destAddr : A) : Rreq A × AodvCluster A :=
  let known := match node.findRoute destAddr with
    | some route => if route.validDestNum then some route.destSeqNum else none
    | none => none
  let rreq : Rreq A :=
    { gratuitousRREPFlag := node.params.askGratuitousRREP
      destOnlyFlag := node.params.destinationOnlyFlag
      unknownSeqNumFlag := known.isNone
      hopCount := 0
      rreqId := node.rreqId + 1
      destAddr := destAddr
      destSeqNum := known.getD 0
      originatorAddr := node.self
      originatorSeqNum := node.sequenceNum + 1
      cluster := false }
  (rreq, { node with
    sequenceNum := node.sequenceNum + 1
    rreqId := node.rreqId + 1
    rreqsArrivalTime := node.rreqsArrivalTime.assign (node.self, node.rreqId + 1) now })

/-- The cluster flag of a RREQ that is sent. -/
def setCluster (role : Role) (rreq : Rreq A) : Rreq A :=
  if role.isGateway then { rreq with cluster := false }
  else if role.isHead then { rreq with cluster := true }
  else rreq

/-- The TTL after the last one: the ring expands up to a threshold. -/
def nextTTL (params : Parameters A) (lastTTL : ℕ) : ℕ :=
  if lastTTL + params.ttlIncrement < params.ttlThreshold then lastTTL + params.ttlIncrement
  else params.netDiameter

def ringTraversalTime (params : Parameters A) (timeToLive : ℕ) : SimTime :=
  2 * params.nodeTraversalTime * (timeToLive + params.timeoutBuffer)

/-- The TTL of a RREQ and the timer for its reply, before it is scheduled. -/
def waitTimer (destAddr : A) (timeToLive : ℕ) : Except Fault (ℕ × WaitForRrep A) :=
  match node.waitForRREPTimers.find destAddr with
  | some timer =>
    if timeToLive ≠ 0 then .ok (timeToLive, { timer with
      destAddr := destAddr
      lastTTL := timeToLive
      fromInvalidEntry := true
      timer := timer.timer.cancelEvent })
    else do
      assert (timer.timer = none)
      let timeToLive := nextTTL node.params timer.lastTTL
      return (timeToLive, { timer with destAddr := destAddr, lastTTL := timeToLive })
  | none => .ok (node.params.ttlStart,
      { destAddr := destAddr
        lastTTL := node.params.ttlStart
        fromInvalidEntry := false
        timer := none })

def sendRREQ (role : Role) (rreq : Rreq A) (destAddr : Option A) (timeToLive : ℕ)
    : Except Fault (AodvCluster A) :=
  if node.params.rreqRatelimit ≤ node.rreqCount then .ok node
  else do
    let (timeToLive, timer) ← node.waitTimer rreq.destAddr timeToLive
    let scheduled ← timer.timer.scheduleAt now (now + ringTraversalTime node.params timeToLive)
    let timer := { timer with timer := scheduled }
    let node := { node with
      waitForRREPTimers := node.waitForRREPTimers.assign rreq.destAddr timer }
    let node ← node.sendAODVPacket now (.RREQ (setCluster role rreq)) destAddr timeToLive
    return { node with rreqCount := node.rreqCount + 1 }

def startRouteDiscovery (role : Role) (target : A) (timeToLive : ℕ)
    : Except Fault (AodvCluster A) := do
  assert (node.hasOngoingRouteDiscovery target = false)
  let (rreq, node) := node.createRREQ now target
  let node := { node with addressToRreqRetries := node.addressToRreqRetries.assign target 0 }
  node.sendRREQ now role rreq none timeToLive

/-- The end of a discovery: the datagrams that wait leave, and the timer is deleted. -/
def endRouteDiscovery (target : A) : AodvCluster A :=
  { node with
    targetAddressToDelayedPackets := node.targetAddressToDelayedPackets.erase target
    waitForRREPTimers := node.waitForRREPTimers.remove target }

def completeRouteDiscovery (target : A) : Except Fault (AodvCluster A) := do
  assert (node.hasOngoingRouteDiscovery target = true)
  return { node.endRouteDiscovery target with
    reinjected :=
      node.reinjected ++ node.targetAddressToDelayedPackets.equalRange target }

def cancelRouteDiscovery (destAddr : A) : Except Fault (AodvCluster A) := do
  assert (node.hasOngoingRouteDiscovery destAddr = true)
  return { node.endRouteDiscovery destAddr with
    dropped := node.dropped ++ node.targetAddressToDelayedPackets.equalRange destAddr }

/-- The timer of the entry is no longer scheduled when this is called. -/
def handleWaitForRREP (role : Role) (rrepTimer : WaitForRrep A) : Except Fault (AodvCluster A) :=
  let destAddr := rrepTimer.destAddr
  match node.addressToRreqRetries.find destAddr with
  | none => .error .runtimeError
  | some retries =>
    if retries = node.params.rreqRetries then node.cancelRouteDiscovery destAddr
    else
      let (rreq, node) := node.createRREQ now destAddr
      let node := { node with
        addressToRreqRetries :=
          if rrepTimer.lastTTL = node.params.netDiameter then
            node.addressToRreqRetries.assign destAddr (retries + 1)
          else node.addressToRreqRetries }
      node.sendRREQ now role rreq none 0

/-- The second component of the hook's result: whether the datagram is accepted. -/
def ensureRouteForDatagram (role : Role) (datagram : Datagram A)
    : Except Fault (AodvCluster A × Bool) :=
  let destAddr := datagram.destinationAddress
  if node.params.isGroup destAddr || node.params.isLocalAddress destAddr then .ok (node, true)
  else
    let route := node.findRoute destAddr
    match route.filter Route.active with
    | some route =>
      let node := node.updateValidRouteLifeTime destAddr (now + node.params.activeRouteTimeout)
      let node :=
        node.updateValidRouteLifeTime route.nextHop (now + node.params.activeRouteTimeout)
      .ok (node, true)
    | none => do
      let node := node.delayDatagram datagram
      if node.hasOngoingRouteDiscovery destAddr then return (node, false)
      else
        let timeToLive := match route with
          | some route => route.metric + node.params.ttlIncrement
          | none => 0
        let node ← node.startRouteDiscovery now role destAddr timeToLive
        return (node, false)

/-- `trunc(SIMTIME_MS)`. -/
def truncMillis (t : SimTime) : SimTime := t.tdiv (SimTime.ofMillis 1) * SimTime.ofMillis 1

/-- The changes of a route that exists. -/
def modifyRoute (destAddr : A) (change : Route A → Route A) : AodvCluster A :=
  match node.findRoute destAddr with
  | some route => node.setRoute destAddr (change route)
  | none => node

def createRREP (rreq : Rreq A) (lastHopAddr : A) : Except Fault (Rrep A × AodvCluster A) :=
  if rreq.destAddr = node.self then
    let sequenceNum :=
      if !rreq.unknownSeqNumFlag && node.sequenceNum + 1 == rreq.destSeqNum
        then node.sequenceNum + 1
        else node.sequenceNum
    .ok ({ ackRequiredFlag := false
           hopCount := 0
           destAddr := rreq.destAddr
           destSeqNum := sequenceNum
           originatorAddr := some rreq.originatorAddr
           lifeTime := truncMillis node.params.myRouteTimeout },
      { node with sequenceNum := sequenceNum })
  else
    match node.findRoute rreq.destAddr with
    | none => .error .undefinedBehaviour
    | some destRoute =>
      let node := node.modifyRoute rreq.destAddr (·.addPrecursor lastHopAddr)
      let node := node.modifyRoute rreq.originatorAddr (·.addPrecursor destRoute.nextHop)
      .ok ({ ackRequiredFlag := false
             hopCount := destRoute.metric
             destAddr := rreq.destAddr
             destSeqNum := destRoute.destSeqNum
             originatorAddr := some rreq.originatorAddr
             lifeTime := truncMillis (destRoute.lifeTime - now) }, node)

/-- The node waits for the acknowledgement of a RREP. -/
def waitForRREPACK (nextHop : A) : Except Fault (AodvCluster A) := do
  let scheduled ← node.rrepAckTimer.cancelEvent.scheduleAt now (now + node.params.nextHopWait)
  return { node with failedNextHop := some nextHop, rrepAckTimer := scheduled }

def sendRREP (rrep : Rrep A) (destAddr : A) (timeToLive : ℕ) : Except Fault (AodvCluster A) :=
  match node.findRoute destAddr with
  | none => .error .undefinedBehaviour
  | some destRoute =>
    let node := node.setRoute destAddr (destRoute.addPrecursor destRoute.nextHop)
    -- the node is a neighbour, and the link to it may be unidirectional
    if destRoute.metric = 1 then do
      let node ← node.waitForRREPACK now destRoute.nextHop
      node.sendAODVPacket now (.RREP { rrep with ackRequiredFlag := true })
        (some destRoute.nextHop) timeToLive
    else node.sendAODVPacket now (.RREP rrep) (some destRoute.nextHop) timeToLive

/-- A gratuitous RREP is made from the route to the originator and sent towards the destination. -/
def sendGratuitousRREP (rreq : Rreq A) (timeToLive : ℕ) : Except Fault (AodvCluster A) :=
  match node.findRoute rreq.originatorAddr, node.findRoute rreq.destAddr with
  | some originatorRoute, some destRoute =>
    node.sendAODVPacket now (.RREP
      { ackRequiredFlag := false
        hopCount := originatorRoute.metric
        destAddr := rreq.originatorAddr
        destSeqNum := rreq.originatorSeqNum
        originatorAddr := some rreq.destAddr
        lifeTime := originatorRoute.lifeTime }) (some destRoute.nextHop) timeToLive
  | _, _ => .error .undefinedBehaviour

/-- Whether the same RREQ has arrived within PATH_DISCOVERY_TIME. -/
def arrivedBefore (rreq : Rreq A) : Bool :=
  match node.rreqsArrivalTime.find (rreq.originatorAddr, rreq.rreqId) with
  | some time => now - time ≤ node.params.pathDiscoveryTime
  | none => false

/-- The reverse route of a RREQ whose hop count has been incremented.  The numbers are compared as
`int`s. -/
def updateReverseRoute (rreq : Rreq A) (sourceAddr : A) : AodvCluster A :=
  let minimalLifeTime := now + 2 * node.params.netTraversalTime -
    2 * rreq.hopCount * node.params.nodeTraversalTime
  let newLifeTime := max now minimalLifeTime
  match node.findRoute rreq.originatorAddr with
  | none => node.createRoute rreq.originatorAddr sourceAddr rreq.hopCount true
      rreq.originatorSeqNum true newLifeTime
  | some route =>
    let newSeqNum := if route.destSeqNum.toInt < rreq.originatorSeqNum.toInt
      then rreq.originatorSeqNum else route.destSeqNum
    if route.destSeqNum.toInt < rreq.originatorSeqNum.toInt ∨
        (rreq.originatorSeqNum.toInt = route.destSeqNum.toInt ∧ rreq.hopCount < route.metric) ∨
        rreq.unknownSeqNumFlag = true then
      node.updateRoutingTable rreq.originatorAddr route sourceAddr rreq.hopCount true newSeqNum true
        newLifeTime
    else node

/-- Whether the node may act as a router: it has not rebooted a short time ago. -/
def hasSettled : Prop :=
  node.rebootTime + node.params.deletePeriod < now ∨ node.rebootTime = 0

instance (node : AodvCluster A) (now : SimTime) : Decidable (node.hasSettled now) :=
  inferInstanceAs (Decidable (_ ∨ _))

/-- A RREQ that the node does not answer is forwarded in the backbone of the clusters. -/
def relayRREQ (role : Role) (rreq : Rreq A) (timeToLive : ℕ) : Except Fault (AodvCluster A) :=
  if 0 < timeToLive ∧ node.hasSettled now then
    let destSeqNum := match node.findRoute rreq.destAddr with
      | some route =>
        if rreq.destSeqNum ≤ route.destSeqNum then route.destSeqNum else rreq.destSeqNum
      | none => rreq.destSeqNum
    let rreq := { rreq with destSeqNum := destSeqNum, unknownSeqNumFlag := false }
    if rreq.cluster && role.isGateway || role.isHead then
      node.sendAODVPacket now (.RREQ (setCluster role rreq)) none timeToLive
    else .ok node
  else .ok node

/-- The active route with which an intermediate node may answer a RREQ. -/
def freshRoute (rreq : Rreq A) : Option (Route A) :=
  (node.findRoute rreq.destAddr).filter fun route ↦
    route.active && route.validDestNum && rreq.destSeqNum ≤ route.destSeqNum

/-- The answer of an intermediate node, with a gratuitous RREP when it is asked for. -/
def answerRREQ (rreq : Rreq A) (sourceAddr : A) : Except Fault (AodvCluster A) := do
  let (rrep, node) ← node.createRREP now rreq sourceAddr
  let node ← node.sendRREP now rrep rreq.originatorAddr 255
  if rreq.gratuitousRREPFlag then node.sendGratuitousRREP now rreq 100
  else return node

/-- What is done with a RREQ that is new, after the routes are updated. -/
def processRREQ (role : Role) (rreq : Rreq A) (sourceAddr : A) (timeToLive : ℕ)
    : Except Fault (AodvCluster A) :=
  if rreq.destAddr = node.self then do
    let (rrep, node) ← node.createRREP now rreq sourceAddr
    node.sendRREP now rrep rreq.originatorAddr 255
  else
    match node.freshRoute rreq with
    | none => node.relayRREQ now role rreq timeToLive
    | some route =>
      -- the RREP would make a loop
      if route.nextHop = sourceAddr then .ok node
      else if rreq.destOnlyFlag then node.relayRREQ now role rreq timeToLive
      else node.answerRREQ now rreq sourceAddr

def handleRREQ (role : Role) (rreq : Rreq A) (sourceAddr : A) (timeToLive : ℕ)
    : Except Fault (AodvCluster A) :=
  if sourceAddr ∈ node.blacklist then .ok node
  else
    let node := node.createOrUpdate sourceAddr sourceAddr 1 false rreq.originatorSeqNum true
      (now + node.params.activeRouteTimeout)
    if node.arrivedBefore now rreq then .ok node
    else
      let node := { node with rreqsArrivalTime :=
        node.rreqsArrivalTime.assign (rreq.originatorAddr, rreq.rreqId) now }
      let rreq := { rreq with hopCount := rreq.hopCount + 1 }
      (node.updateReverseRoute now rreq sourceAddr).processRREQ now role rreq sourceAddr timeToLive

def handleHelloMessage (helloMessage : Rrep A) : AodvCluster A :=
  let helloOriginatorAddr := helloMessage.destAddr
  let newLifeTime := now + node.params.allowedHelloLoss * node.params.helloInterval
  match node.findRoute helloOriginatorAddr with
  | none => node.createRoute helloOriginatorAddr helloOriginatorAddr 1 true
      helloMessage.destSeqNum true newLifeTime
  | some route => node.updateRoutingTable helloOriginatorAddr route helloOriginatorAddr 1 true
      helloMessage.destSeqNum true (max route.lifeTime newLifeTime)

variable (route : Route A)

/-- The circumstances (i) to (iv) in which an existing route is updated by a RREP. -/
def Route.isUpdatedBy (destSeqNum : Word) (newHopCount : ℕ) : Bool :=
  !route.validDestNum || route.destSeqNum < destSeqNum ||
    destSeqNum == route.destSeqNum && (!route.active || newHopCount < route.metric)

/-- The forward route of a RREP whose hop count has been incremented. -/
def updateForwardRoute (rrep : Rrep A) (sourceAddr : A) : AodvCluster A :=
  match node.findRoute rrep.destAddr with
  | none => node.createRoute rrep.destAddr sourceAddr rrep.hopCount true rrep.destSeqNum true
      (now + rrep.lifeTime)
  | some route =>
    if Route.isUpdatedBy route rrep.destSeqNum rrep.hopCount then
      node.updateRoutingTable rrep.destAddr route sourceAddr rrep.hopCount true rrep.destSeqNum
        true (now + rrep.lifeTime)
    else node

/-- A RREP is acknowledged when it asks for it. -/
def acknowledgeRREP (rrep : Rrep A) (sourceAddr : A) : Except Fault (AodvCluster A) :=
  if rrep.ackRequiredFlag then node.sendAODVPacket now .RREPACK (some sourceAddr) 100
  else .ok node

/-- A next hop is added to the precursors of a destination and of the next hop towards it. -/
def addPrecursors (destAddr precursorAddr : A) : AodvCluster A :=
  let node := node.modifyRoute destAddr (·.addPrecursor precursorAddr)
  match node.findRoute destAddr with
  | some destRoute => node.modifyRoute destRoute.nextHop (·.addPrecursor precursorAddr)
  | none => node

/-- A RREP is forwarded towards its originator. -/
def relayRREP (rrep : Rrep A) (originatorAddr : A) (sourceAddr : A)
    : Except Fault (AodvCluster A) :=
  match node.findRoute originatorAddr with
  | none => .ok node
  | some originatorRoute =>
    let node := node.setRoute originatorAddr { originatorRoute with
      lifeTime := max (now + node.params.activeRouteTimeout) originatorRoute.lifeTime }
    if node.hasSettled now then do
      let node ← node.acknowledgeRREP now rrep sourceAddr
      let node := node.addPrecursors rrep.destAddr originatorRoute.nextHop
      node.sendAODVPacket now (.RREP { rrep with ackRequiredFlag := false })
        (some originatorRoute.nextHop) 100
    else .ok node

def handleRREP (rrep : Rrep A) (sourceAddr : A) : Except Fault (AodvCluster A) :=
  match rrep.originatorAddr with
  | none => .ok (node.handleHelloMessage now rrep)
  | some originatorAddr =>
    let node := node.createOrUpdate sourceAddr sourceAddr 1 false rrep.destSeqNum true
      (now + node.params.activeRouteTimeout)
    let rrep := { rrep with hopCount := rrep.hopCount + 1 }
    let node := node.updateForwardRoute now rrep sourceAddr
    if originatorAddr ≠ node.self then node.relayRREP now rrep originatorAddr sourceAddr
    else if node.hasOngoingRouteDiscovery rrep.destAddr then
      let node := node.createOrUpdate rrep.destAddr sourceAddr rrep.hopCount true rrep.destSeqNum
        true (now + rrep.lifeTime)
      node.completeRouteDiscovery rrep.destAddr
    else .ok node

/-- A RERR is broadcast. -/
def sendRERR (unreachableNodes : List (UnreachableNode A)) : Except Fault (AodvCluster A) :=
  { node with rerrCount := node.rerrCount + 1 }.sendAODVPacket now (.RERR unreachableNodes) none 1

/-- An active route over a next hop. -/
def Route.uses (nextHop : A) : Bool := route.active && route.nextHop = nextHop

/-- The number of a destination that became unreachable is incremented if it is valid. -/
def Route.nextSeqNum : Word :=
  if route.validDestNum then route.destSeqNum + 1 else route.destSeqNum

def Route.afterLinkBreak (unreachableAddr : A) (lifeTime : SimTime) : Route A :=
  if Route.uses route unreachableAddr then
    { route with
      destSeqNum := Route.nextSeqNum route
      active := false
      lifeTime := lifeTime }
  else route

/-- The unreachable neighbour and the destinations that use it as the next hop. -/
def unreachableNodes (unreachableAddr : A) (unreachableRoute : Route A) :
    List (UnreachableNode A) :=
  (if unreachableRoute.active then [⟨unreachableAddr, unreachableRoute.destSeqNum⟩] else []) ++
    (node.routes.entries.filter fun entry ↦ Route.uses entry.2 unreachableAddr).map
      fun entry ↦ ⟨entry.1, Route.nextSeqNum entry.2⟩

def handleLinkBreakSendRERR (unreachableAddr : A) : Except Fault (AodvCluster A) :=
  match node.findRoute unreachableAddr with
  | none => .ok node
  | some unreachableRoute =>
    let unreachableNodes := node.unreachableNodes unreachableAddr unreachableRoute
    let node := { node with
      routes := node.routes.updateAll fun _ route ↦
        some (Route.afterLinkBreak route unreachableAddr (now + node.params.deletePeriod)) }
    if node.params.rerrRatelimit ≤ node.rerrCount ∨ unreachableNodes.isEmpty then .ok node
    else node.sendRERR now unreachableNodes

/-- The entries of a RERR for a destination. -/
def entriesFor (unreachableNodes : List (UnreachableNode A)) (destAddr : A) :
    List (UnreachableNode A) :=
  unreachableNodes.filter fun node ↦ node.addr = destAddr

/-- A route that goes to the sender of a RERR, with the last number that the RERR has for it. -/
def Route.afterRERR (destAddr sourceAddr : A)
    (unreachableNodes : List (UnreachableNode A)) (lifeTime : SimTime) : Route A :=
  if Route.uses route sourceAddr then
    match (entriesFor unreachableNodes destAddr).getLast? with
    | some node => { route with destSeqNum := node.seqNum, active := false, lifeTime := lifeTime }
    | none => route
  else route

def handleRERR (unreachableNodes : List (UnreachableNode A)) (sourceAddr : A) :
    Except Fault (AodvCluster A) :=
  let unreachableNeighbors :=
    (node.routes.entries.filter fun entry ↦
      Route.uses entry.2 sourceAddr && !entry.2.precursorList.isEmpty).flatMap
        fun entry ↦ entriesFor unreachableNodes entry.1
  let node := { node with
    routes := node.routes.updateAll fun destAddr route ↦
      some (Route.afterRERR route destAddr sourceAddr unreachableNodes
        (now + node.params.deletePeriod)) }
  if node.params.rerrRatelimit ≤ node.rerrCount ∨ unreachableNeighbors.isEmpty ∨
      ¬node.hasSettled now then .ok node
  else node.sendRERR now unreachableNeighbors

def sendRERRWhenNoRouteToForward (unreachableAddr : A) : Except Fault (AodvCluster A) :=
  if node.params.rerrRatelimit ≤ node.rerrCount then .ok node
  else
    let seqNum := match node.findRoute unreachableAddr with
      | some route => if route.validDestNum then route.destSeqNum else 0
      | none => 0
    node.sendRERR now [⟨unreachableAddr, seqNum⟩]

/-- The lifetime of the route to the next hop of a route. -/
def refreshNextHop (route : Option (Route A)) (lifetime : SimTime) : AodvCluster A :=
  match route with
  | some route => node.updateValidRouteLifeTime route.nextHop lifetime
  | none => node

def datagramForwardHook (datagram : Datagram A) : Except Fault (AodvCluster A) :=
  let destAddr := datagram.destinationAddress
  let lifetime := now + node.params.activeRouteTimeout
  let ipSource := node.findRoute datagram.sourceAddress
  if node.params.isGroup destAddr || node.params.isLocalAddress destAddr then
    if node.params.isLocalAddress destAddr then .ok (node.refreshNextHop ipSource lifetime)
    else .ok node
  else
    let routeDest := node.findRoute destAddr
    let node := node.updateValidRouteLifeTime datagram.sourceAddress lifetime
    let node := node.updateValidRouteLifeTime destAddr lifetime
    let node := (node.refreshNextHop routeDest lifetime).refreshNextHop ipSource lifetime
    match node.findRoute destAddr with
    | some route =>
      if route.active then .ok node
      else
        let node := node.setRoute destAddr { route with
          destSeqNum := Route.nextSeqNum route
          lifeTime := now + node.params.deletePeriod }
        node.sendRERRWhenNoRouteToForward now destAddr
    | none => node.sendRERRWhenNoRouteToForward now destAddr

/-- `receiveSignal` with the signal for a broken link. -/
def linkBroken (datagram : Datagram A) : Except Fault (AodvCluster A) :=
  match node.findRoute datagram.destinationAddress with
  | some route => node.handleLinkBreakSendRERR now route.nextHop
  | none => .ok node

def handleRREPACK (neighborAddr : A) : AodvCluster A :=
  if node.rrepAckTimer.isSome then
    match node.findRoute neighborAddr with
    | some route => { node.setRoute neighborAddr { route with active := true } with
        rrepAckTimer := node.rrepAckTimer.cancelEvent }
    | none => node
  else node

def handleRREPACKTimer : Except Fault (AodvCluster A) :=
  match node.failedNextHop with
  | none => .ok node
  | some failedNextHop => do
    let node := { node with
      blacklist := node.blacklist.assign failedNextHop (now + node.params.blacklistTimeout) }
    if node.blacklistTimer.isSome then return node
    else
      let scheduled ← node.blacklistTimer.scheduleAt now (now + node.params.blacklistTimeout)
      return { node with blacklistTimer := scheduled }

def handleBlackListTimer : Except Fault (AodvCluster A) := do
  let node := { node with blacklist := node.blacklist.removeIf fun lifetime ↦ lifetime ≤ now }
  match (node.blacklist.entries.map Sigma.snd).min? with
  | none => return node
  | some nextTime =>
    let scheduled ← node.blacklistTimer.scheduleAt now nextTime
    return { node with blacklistTimer := scheduled }

def createHelloMessage : Rrep A where
  ackRequiredFlag := false
  hopCount := 0
  destAddr := node.self
  destSeqNum := node.sequenceNum
  originatorAddr := none
  lifeTime := node.params.allowedHelloLoss * node.params.helloInterval

def sendHelloMessagesIfNeeded : Except Fault (AodvCluster A) :=
  let hasActiveRoute := node.routes.entries.any fun entry ↦ entry.2.active
  if hasActiveRoute ∧
      (node.lastBroadcastTime = 0 ∨ node.params.helloInterval < now - node.lastBroadcastTime) then
    node.sendAODVPacket now (.RREP node.createHelloMessage) none 1
  else .ok node

/-- An expired route becomes inactive, and an inactive one is deleted unless it is waited for. -/
def expungeRoute (destAddr : A) (route : Route A) : Option (Route A) :=
  if route.lifeTime ≤ now then
    if route.active then
      some { route with active := false, lifeTime := now + node.params.deletePeriod }
    else if node.hasOngoingRouteDiscovery destAddr then
      some { route with lifeTime := now + 2 * node.params.netTraversalTime }
    else none
  else some route

/-- The loop leaves out the route after one that it deletes, so that it depends on the order of the
routes which of them it visits. -/
def expungeRoutes (visited : A → Bool) : AodvCluster A :=
  { node with
    routes := node.routes.updateAll fun destAddr route ↦
      if visited destAddr then node.expungeRoute now destAddr route else some route }

end AodvCluster

inductive Event (A : Type)
  /-- `datagramPreRoutingHook` or `datagramLocalOutHook`. -/
  | datagram (role : Role) (datagram : Datagram A)
  | datagramForward (datagram : Datagram A)
  /-- A control packet arrives; the TTL is the one after the decrement. -/
  | packet (role : Role) (packet : AodvControlPacket A) (sourceAddr : A) (arrivalPacketTTL : ℕ)
  | linkBroken (datagram : Datagram A)
  | waitForRREP (role : Role) (target : A)
  | helloMsgTimer
  | expungeTimer (visited : A → Bool)
  | counterTimer
  | rrepAckTimer
  | blacklistTimer

namespace AodvCluster

def processPacket (node : AodvCluster A) (now : SimTime) (role : Role)
    (packet : AodvControlPacket A) (sourceAddr : A) (arrivalPacketTTL : ℕ) :
    Except Fault (AodvCluster A) :=
  match packet with
  | .RREQ rreq => node.handleRREQ now role rreq sourceAddr arrivalPacketTTL
  | .RREP rrep => node.handleRREP now rrep sourceAddr
  | .RERR unreachableNodes => node.handleRERR now unreachableNodes sourceAddr
  | .RREPACK => .ok (node.handleRREPACK sourceAddr)

/-- The timer for a Route Reply arrives, and it is no longer scheduled. -/
def expireWaitForRREP (node : AodvCluster A) (now : SimTime) (role : Role) (target : A) :
    Except Fault (AodvCluster A) :=
  match node.waitForRREPTimers.find target with
  | none => .ok node
  | some rrepTimer =>
    let rrepTimer := { rrepTimer with timer := none }
    { node with waitForRREPTimers :=
        node.waitForRREPTimers.assign target rrepTimer }.handleWaitForRREP now role rrepTimer

def handle (node : AodvCluster A) (now : SimTime) : Event A → Except Fault (AodvCluster A)
  | .datagram role datagram => do
    let (node, _) ← node.ensureRouteForDatagram now role datagram
    return node
  | .datagramForward datagram => node.datagramForwardHook now datagram
  | .packet role packet sourceAddr arrivalPacketTTL =>
    node.processPacket now role packet sourceAddr arrivalPacketTTL
  | .linkBroken datagram => node.linkBroken now datagram
  | .waitForRREP role target => node.expireWaitForRREP now role target
  | .helloMsgTimer => node.sendHelloMessagesIfNeeded now
  | .expungeTimer visited => .ok (node.expungeRoutes now visited)
  | .counterTimer => .ok { node with rreqCount := 0, rerrCount := 0 }
  | .rrepAckTimer => { node with rrepAckTimer := none }.handleRREPACKTimer now
  | .blacklistTimer => { node with blacklistTimer := none }.handleBlackListTimer now

end AodvCluster

end Inet4.Aodv
