import Inet4.Icn.CacheTable
import Inet4.Icn.DelayQueue
import Inet4.Icn.FragBuf
import Inet4.Icn.PendingTable
import Inet4.Icn.RoutingTable

/-!
# A node of the information-centric network

`colorNoCluster` answers a GET from its content store or remembers and forwards it, passes Data on
to the nodes whose GETs it remembers, and stores it on the way.  The state holds the tables of the
node and records what it sends: `queueOut` to the link layer and `transportOut` to the consumer.
Statistics and the routing trace are left out.  The random draws of the code (the forwarding delay
and the nonce) are arguments of the handlers.
-/

namespace Inet4.Icn

/-- `PitInd`, the tag that tells the link layer that a packet is Data. -/
structure PitInd where
  pitLength : ℕ
  pitCapacity : ℕ
  deriving DecidableEq

/-- A packet handed to the link layer, with its tags `MacAddressReq` and `PitInd`. -/
structure Datagram where
  packet : Packet
  srcAddress : MacAddress
  destAddress : MacAddress
  pitInd : Option PitInd
  deriving DecidableEq

/-- A packet handed to a socket, with its tags `SidInd` and `ClInd`. -/
structure Delivery where
  socketId : ℤ
  sid : SID
  congestionLevel : ℤ
  payload : List Byte
  deriving DecidableEq

/-- The identity of a node, its parameters, and the constructor `NID(T &)`. -/
structure Parameters where
  hash : NID → NID
  nid : NID
  macAddress : MacAddress
  mtu : ℤ
  hopLimit : ℤ
  TC : ℤ
  flood : Bool
  routeLifeTime : SimTime

structure ColorNoCluster where
  par : Parameters
  getTable : AssocMap (SID × NID) SimTime := ∅
  /-- The socket bound to each port. -/
  socketsByPortMap : AssocMap Port ℤ := ∅
  sidToSockets : AssocMap SID Port := ∅
  ct : ColorCacheTable := ∅
  pit : ColorPendingGetTable := { hash := par.hash }
  rt : ColorRoutingTable := MultiMap.empty
  resemBuffer : ColorFragBuf := ∅
  delayQueue : DelayQueue := {}
  /-- What was sent to the link layer, oldest first. -/
  queueOut : List Datagram := []
  /-- What was sent to the consumers, oldest first. -/
  transportOut : List Delivery := []

namespace ColorNoCluster

variable (node : ColorNoCluster)

def sendDatagramToOutput (packet : Packet) (mac : MacAddress) : ColorNoCluster :=
  let pitInd :=
    match packet with
    | .data _ => some ⟨node.pit.getLength, ColorPendingGetTable.capacity⟩
    | .get _ => none
  { node with
    queueOut := node.queueOut ++ [⟨packet, node.par.macAddress, mac, pitInd⟩] }

variable (now : SimTime)

def createRoute (dest nextHop : NID) (mac : MacAddress) (ttl : SimTime) (linkQ : ℤ)
    : ColorNoCluster :=
  { node with rt := node.rt.createEntry now dest nextHop mac ttl linkQ }

def findRoute (node : ColorNoCluster) (now : SimTime) (dest : NID) :
    Option Croute × ColorNoCluster :=
  let (route, rt) := node.rt.findRoute now dest
  (route, { node with rt })

/-- The first part of `handleDataPacket`: a consumer collects the fragments of the SIDs it has
requested. -/
def collect (packet : DataPacket) : Except Fault ColorNoCluster :=
  let head := packet.head
  match node.socketsByPortMap.find head.portNumber2, node.sidToSockets.find head.sid with
  | some socketId, some _ => do
    let (fullPacket, resemBuffer) ← node.resemBuffer.addFragment packet
    match fullPacket with
    | none => return { node with resemBuffer }
    | some fullPacket =>
      return { node with
        resemBuffer
        sidToSockets := node.sidToSockets.remove head.sid
        transportOut := node.transportOut ++
          [⟨socketId, head.sid, head.congestionLevel, fullPacket.payload⟩] }
  | _, _ => .ok node

/-- The routes that `handleDataPacket` learns from a header. -/
def learnRoutes (head : Data) (srcAddress : MacAddress) : ColorNoCluster :=
  let ttl := node.par.routeLifeTime
  let node := node.createRoute now head.lastHop head.lastHop srcAddress ttl head.timeToLive
  let node :=
    if head.comeFromSource then
      node.createRoute now head.sid.getNidHead head.lastHop srcAddress ttl head.timeToLive
    else node
  if head.routeMetric ≠ 0 then
    node.createRoute now head.sid.getNidHead head.lastHop srcAddress head.routeLifetime
      head.routeMetric
  else node

/-- Everything behind `totalLength` is padding.  A packet that is cut within its header has no
`Data` to remove. -/
def removePadding (totalLength : ℤ) (packet : DataPacket) : Except Fault DataPacket :=
  if totalLength < packet.dataLength then
    if totalLength < headerLength then .error .runtimeError
    else .ok { packet with payload := packet.payload.take (totalLength - headerLength).toNat }
  else .ok packet

/-- The header that `handleDataPacket` stores. -/
def cacheHead (head : Data) : Data :=
  { head with timeToLive := 8, comeFromSource := false, routeMetric := 0 }

/-- The header that `handleDataPacket` sends on. -/
def forwardHead (head : Data) : Data :=
  { head with
    timeToLive := head.timeToLive - 1
    lastHop := node.par.nid
    routeMetric := if head.routeMetric ≠ 0 then head.routeMetric - 1 else head.routeMetric }

/-- The body of the loop of `handleDataPacket` over the entries of the SID. -/
def forwardEntry (packet : DataPacket) (iter : PITentry) (node : ColorNoCluster)
    (newPacket : DataPacket) : Except Fault (ColorNoCluster × DataPacket) := do
  let (route, node) := node.findRoute now iter.nid
  let nexthop :=
    match route with
    | some route => route.nextMac
    | none => iter.mac
  if node.ct.hasThisPacket packet packet.head.sid then
    return (node, newPacket)
  else
    let newPacket ← removePadding packet.head.totalLength newPacket
    let cachePacket : DataPacket := { newPacket with head := cacheHead newPacket.head }
    let newPacket : DataPacket := { newPacket with head := node.forwardHead newPacket.head }
    let ct := node.ct.cachePacket packet.head.sid cachePacket
    let node := { node with ct }.sendDatagramToOutput (.data newPacket) nexthop
    return (node, newPacket)

/-- The loop of `handleDataPacket`. -/
def forwardLoop (now : SimTime) (packet : DataPacket) :
    List PITentry → ColorNoCluster → DataPacket → Except Fault ColorNoCluster
  | [], node, _ => .ok node
  | iter :: rest, node, newPacket => do
    let (node, newPacket) ← forwardEntry now packet iter node newPacket
    forwardLoop now packet rest node newPacket

def handleDataPacket (packet : DataPacket) (srcAddress : MacAddress)
    : Except Fault ColorNoCluster := do
  let headSid := packet.head.sid
  let node ← node.collect packet
  let node := node.learnRoutes now packet.head srcAddress
  if node.pit.haveSID headSid then
    let node ← forwardLoop now packet (node.pit.findPITentry headSid) node packet
    let pit ← node.pit.removeEntry headSid
    return { node with pit }
  else
    return node

/-- The lifetime of an entry, `ttl = 1`. -/
def entryLifetime : SimTime := SimTime.ofMillis 1000

variable (packet : GetPacket)

/-- `handleGetPacket` where there is a route: a GET addressed to this node is remembered and sent
towards the source; one that is merely overheard is not. -/
def forwardGet (route : Croute) (srcAddress : MacAddress) : Except Fault ColorNoCluster := do
  let head := packet.head
  if head.nexthop = node.par.nid ∨ head.nexthop.isDefault then
    let pit ←
      node.pit.createEntry now head.sid head.source srcAddress entryLifetime head.nonce
    let newHead : Get :=
      { head with
        timeToLive := head.timeToLive - 1
        lastHop := node.par.nid
        nexthop := route.nextHop
        MAC := node.par.macAddress }
    let newPacket : GetPacket := { packet with head := newHead }
    return { node with pit }.sendDatagramToOutput (.get newPacket) BROADCAST_ADDRESS
  else
    return node

/-- The GET that is to be flooded enters the delay queue, unless a copy of it waits there or the SID
has a record; a copy that waits is counted down. -/
def delayFlooding (newPacket : GetPacket) (delay : SimTime) : Except Fault DelayQueue := do
  let (found, delayQueue) ← node.delayQueue.checkAndDecrease (.get newPacket)
  if node.pit.haveSID newPacket.head.sid || found then
    return delayQueue
  else
    delayQueue.insert now (.get newPacket) .GET (now + delay) node.par.TC

variable (srcAddress : MacAddress)

/-- `handleGetPacket` where there is no route: the GET waits in the delay queue before it is
flooded. -/
def floodGet (delay : SimTime) : Except Fault ColorNoCluster := do
  let head : Get :=
    { packet.head with timeToLive := packet.head.timeToLive - 1, lastHop := node.par.nid }
  let delayQueue ← node.delayFlooding now { packet with head } delay
  let pit ← node.pit.createEntry now head.sid head.source srcAddress entryLifetime head.nonce
  return { node with delayQueue, pit }

/-- `handleGetPacket` for content that is requested from others: a GET whose SID has no record yet
is sent on, and `route` is where to. -/
def passOn (route : Option Croute) (srcAddress : MacAddress) (delay : SimTime)
    : Except Fault ColorNoCluster :=
  if node.pit.haveSID packet.head.sid then .ok node
  else
    match node.par.flood, route with
    | false, some route => node.forwardGet now packet route srcAddress
    | flood, _ =>
      if packet.head.nexthop.isDefault || flood then node.floodGet now packet srcAddress delay
      else .ok node

/-- The end of `handleGetPacket` for content that is requested from others. -/
def remember (head : Get) (srcAddress : MacAddress) : Except Fault ColorNoCluster :=
  if node.pit.haveEntry head.sid head.nonce then .ok node
  else do
    let pit ←
      node.pit.createEntry now head.sid head.source srcAddress (SimTime.ofMillis 1000) head.nonce
    return { node with pit }

/-- `handleGetPacket` for content that is requested from others. -/
def requestContent (delay : SimTime) : Except Fault ColorNoCluster := do
  let (route, node) := node.findRoute now packet.head.sid.getNidHead
  let node ← node.passOn now packet route srcAddress delay
  node.remember now packet.head srcAddress

/-- A GET of the same source for the same SID was served less than 0.1 s ago. -/
def servedRecently (head : Get) : Bool :=
  match node.getTable.find (head.sid, head.source) with
  | some time => now - time < SimTime.ofMillis 100
  | none => false

/-- The header with which `handleGetPacket` sends a stored packet. -/
def servedHead (head : Get) (route : Option Croute) (stored : Data) : Data :=
  let forwardHead : Data := { stored with portNumber2 := head.portNumber1, lastHop := node.par.nid }
  match route with
  | some route => { forwardHead with routeMetric := route.linkQlt, routeLifetime := route.lifeTime }
  | none => forwardHead

/-- The loop of `handleGetPacket` over the stored packets of the SID. -/
def serveLoop (now : SimTime) (head : Get) (route : Option Croute) (srcAddress : MacAddress) :
    List DataPacket → ColorNoCluster → ColorNoCluster
  | [], node => node
  | P :: rest, node =>
    if node.servedRecently now head then node
    else
      let getTable := node.getTable.assign (head.sid, head.source) now
      let newP : DataPacket := { P with head := node.servedHead head route P.head }
      let node := { node with getTable }.sendDatagramToOutput (.data newP) srcAddress
      serveLoop now head route srcAddress rest node

/-- The routes that `handleGetPacket` learns from a header. -/
def learnGetRoutes (head : Get) (srcAddress : MacAddress) : ColorNoCluster :=
  let ttl := node.par.routeLifeTime
  let node := node.createRoute now head.source head.lastHop srcAddress ttl head.timeToLive
  node.createRoute now head.lastHop head.lastHop srcAddress ttl head.timeToLive

def handleGetPacket (delay : SimTime) : Except Fault ColorNoCluster := do
  let head := packet.head
  if head.timeToLive < 0 then
    return node
  else
    let node := node.learnGetRoutes now head srcAddress
    let (route, node) := node.findRoute now head.sid.getNidHead
    match node.ct.getBlock head.sid with
    | none => node.requestContent now packet srcAddress delay
    | some lists =>
      if head.mustBeFresh ∧ node.par.nid ≠ head.sid.getNidHead then
        node.requestContent now packet srcAddress delay
      else
        let node := node.learnGetRoutes now head srcAddress
        let route := route.map (node.rt.reread head.sid.getNidHead)
        return serveLoop now head route srcAddress lists node

def handleIncomingDatagram (packet : Packet) (srcAddress : MacAddress) (delay : SimTime)
    : Except Fault ColorNoCluster :=
  match packet with
  | .data packet => node.handleDataPacket now packet srcAddress
  | .get packet => node.handleGetPacket now packet srcAddress delay

/-- A GET that is about to leave the delay queue takes the route that is known by then. -/
def redirect (iter : PendPkt) : Except Fault (PendPkt × ColorNoCluster) :=
  match iter.type, iter.pkt with
  | .GET, some (.get packet) =>
    let (route, node) := node.findRoute now packet.head.sid.getNidHead
    let nexthop :=
      match route with
      | some route => route.nextHop
      | none => packet.head.nexthop
    let packet : GetPacket := { packet with head := { packet.head with nexthop } }
    .ok ({ iter with pkt := some (.get packet) }, node)
  | .GET, some (.data _) => .error .runtimeError
  | _, _ => .ok (iter, node)

/-- The part of `handleMessageWhenUp` for the timer `delayer`, which the kernel has taken out of the
future event set. -/
def handleDelayer : Except Fault ColorNoCluster := do
  let queue : DelayQueue := { node.delayQueue with timer := none }
  match queue.priQueue with
  | [] => .error .undefinedBehaviour
  | iter :: rest => do
    let (iter, node) ← node.redirect now iter
    let (packet, delayQueue) ← { queue with priQueue := iter :: rest }.popAtFront now
    let node := { node with delayQueue }
    match packet with
    | some packet => return node.sendDatagramToOutput packet BROADCAST_ADDRESS
    | none => return node

def getHead (sid : SID) : Get × ColorNoCluster :=
  let (route, node) := node.findRoute now sid.getNidHead
  let get : Get :=
    { timeToLive := node.par.hopLimit
      sid
      source := node.par.nid
      lastHop := node.par.nid
      MAC := node.par.macAddress }
  match route, node.par.flood with
  | some route, false => ({ get with nexthop := route.nextHop }, node)
  | _, _ => (get, node)

/-- `sendGET`, called for a `ColorSocketSendGetCommand`. -/
def sendGET (sid : SID) (port : Port) (nonce : ℤ) : ColorNoCluster :=
  let (get, node) := node.getHead now sid
  let packet : GetPacket := { head := { get with portNumber1 := port, nonce } }
  let node := node.sendDatagramToOutput (.get packet) BROADCAST_ADDRESS
  { node with sidToSockets := node.sidToSockets.assign sid port }

def dataHead (sid : SID) : Data :=
  { timeToLive := node.par.hopLimit
    sid
    nid := node.par.nid
    lastHop := node.par.nid
    MAC := node.par.macAddress }

variable (payload : List Byte)

/-- `encapsulate` for Data. -/
def encapsulateData (sid : SID) : DataPacket :=
  { head :=
      { node.dataHead sid with totalLength := payload.length, comeFromSource := true }
    payload }

/-- The local variable `fragmentLength` of `FragmentAndStore`. -/
def fragmentLength : ℤ := ((node.par.mtu - headerLength).tdiv 8) * 8

/-- `peekDataAt(B(offset), B(length))`. -/
def peekDataAt (offset length : ℤ) : Except Fault (List Byte) :=
  if 0 ≤ offset ∧ 0 ≤ length ∧ offset + length ≤ payload.length then
    .ok ((payload.drop offset.toNat).take length.toNat)
  else .error .runtimeError

/-- The loop of `FragmentAndStore`, which is left once `offset` reaches `payloadLength`; the packets
it hands to `CachePacket`, in order. -/
def fragmentLoop (node : ColorNoCluster) (payload : List Byte) (sid : SID)
    (payloadLength : ℤ) : ℕ → ℤ → Except Fault (List DataPacket)
  | 0, offset => if offset < payloadLength then .error .notReturned else .ok []
  | fuel + 1, offset =>
    if offset < payloadLength then do
      let reach ← addInt offset node.fragmentLength
      let lastFragment := decide (reach ≥ payloadLength)
      let thisFragmentLength :=
        if lastFragment then payloadLength - offset else node.fragmentLength
      let fragData ← peekDataAt payload offset thisFragmentLength
      let head : Data :=
        { node.dataHead sid with
          moreFragments := !lastFragment
          offset := offset.toNat
          totalLength := headerLength + thisFragmentLength }
      let fragments ← fragmentLoop node payload sid payloadLength fuel (offset + thisFragmentLength)
      return ⟨head, fragData⟩ :: fragments
    else .ok []

/-- The packets that `FragmentAndStore` hands to `CachePacket`.  The rounds of the loop that can be
made are at most as many as the payload has bytes. -/
def fragments (sid : SID) : Except Fault (List DataPacket) := do
  let payloadLength := wrapInt payload.length
  if ¬0 < node.fragmentLength then .error .runtimeError
  else
    let total ← addInt headerLength payloadLength
    if total < node.par.mtu then
      return [node.encapsulateData payload sid]
    else
      fragmentLoop node payload sid payloadLength payload.length 0

/-- `FragmentAndStore`, called for a `ColorSocketCacheDataCommand`. -/
def fragmentAndStore (sid : SID) : Except Fault ColorNoCluster := do
  let packets ← node.fragments payload sid
  let ct := packets.foldl (fun ct packet ↦ ct.cachePacket sid packet) node.ct
  return { node with ct }

/-- `handleRequest` for a `ColorSocketBindCommand`. -/
def bindPort (port : Port) (socketId : ℤ) : ColorNoCluster :=
  { node with socketsByPortMap := node.socketsByPortMap.assign port socketId }

end ColorNoCluster

end Inet4.Icn
