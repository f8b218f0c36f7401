import Inet4.Ted.Database

/-!
# Link state routing

`LinkStateRouting` floods the links of the traffic engineering database.  A router announces all it
knows once, with a request for what the others know, and every later change of its own links.  What
is new to a router is entered into its database and sent on to its peers, the sender excepted.
-/

namespace Inet4.Ted

open Ipv4 (Ipv4Address Ipv4RoutingTable)

/-- `none` where `checkLinkValidity` returns false, else the index that `match` points to. -/
def checkLinkValidity (link : TeLinkStateInfo) : List TeLinkStateInfo → Option (Option ℕ)
  | [] => some none
  | elem :: rest =>
    if elem.sourceId = link.sourceId ∧ elem.messageId = link.messageId ∧
        elem.timestamp = link.timestamp then none
    else if elem.advrouter = link.advrouter ∧ elem.linkid = link.linkid then
      if elem.timestamp < link.timestamp ∨
          elem.timestamp = link.timestamp ∧ elem.messageId < link.messageId then some (some 0)
      else none
    else (checkLinkValidity link rest).map fun found ↦ found.map (· + 1)

/-- Increments `maxMessageId`, an `int`. -/
def updateTimestamp (ted : Ted) (now : SimTime) (link : TeLinkStateInfo) :
    Except Fault (Ted × TeLinkStateInfo) := do
  assert (link.advrouter = ted.routerId)
  throwIf (ted.maxMessageId = 2147483647#32) .undefinedBehaviour
  return ({ ted with maxMessageId := ted.maxMessageId + 1 },
    { link with timestamp := now, messageId := ted.maxMessageId + 1 })

/-- A packet with a `LinkStateMsg`. -/
structure LinkStatePacket where
  destAddress : Ipv4Address
  srcAddress : Ipv4Address
  linkInfo : List TeLinkStateInfo
  request : Bool
deriving DecidableEq

/-- A node with the module.  `announced` is no variable of the module: it records what the node has
announced, the latest last. -/
structure LinkStateRouting where
  tedmod : Ted
  rt : Ipv4RoutingTable
  peerIfAddrs : List Ipv4Address
  announceMsg : Bool
  announced : List TeLinkStateInfo

namespace LinkStateRouting

variable (router : LinkStateRouting)

def sendToPeer (peer : Ipv4Address) (list : List TeLinkStateInfo) (req : Bool)
    : LinkStatePacket where
  destAddress := peer
  srcAddress := router.tedmod.routerId
  linkInfo := list
  request := req

/-- A link that `sendToPeers` sends over. -/
def SendsOver (exceptPeer : Ipv4Address) (elem : TeLinkStateInfo) : Prop :=
  elem.advrouter = router.tedmod.routerId ∧ elem.linkid ≠ exceptPeer ∧ elem.state = true ∧
    elem.localAddr ∈ router.peerIfAddrs

instance (router : LinkStateRouting) (exceptPeer : Ipv4Address) :
    DecidablePred (router.SendsOver exceptPeer) := fun _ ↦ inferInstanceAs (Decidable (_ ∧ _))

def sendToPeers (list : List TeLinkStateInfo) (req : Bool) (exceptPeer : Ipv4Address)
    : List LinkStatePacket :=
  (router.tedmod.ted.filter fun elem ↦ router.SendsOver exceptPeer elem).map fun elem ↦
    router.sendToPeer elem.linkid list req

/-- The announcement that `initialize` schedules. -/
def announce : LinkStateRouting × List LinkStatePacket :=
  ({ router with
      announceMsg := false
      announced := router.announced ++ router.tedmod.ted },
    router.sendToPeers router.tedmod.ted true 0#32)

/-- The database, `change` and `forward` while a message is processed. -/
structure Received where
  ted : List TeLinkStateInfo
  change : Bool
  forward : List TeLinkStateInfo

end LinkStateRouting

/-- An entry with what is copied from a newer link; the addresses of the interfaces are not. -/
def TeLinkStateInfo.copyFrom (elem link : TeLinkStateInfo) : TeLinkStateInfo :=
  { elem with
    state := link.state
    messageId := link.messageId
    sourceId := link.sourceId
    timestamp := link.timestamp
    unResvBandwidth := link.unResvBandwidth
    maxBandwidth := link.maxBandwidth
    metric := link.metric
    metric_pos := link.metric_pos }

namespace LinkStateRouting

/-- One link of a message. -/
def receiveLink (received : Received) (link : TeLinkStateInfo) : Except Fault Received :=
  match checkLinkValidity link received.ted with
  | none => .ok received
  | some none => do
    assert (link.sourceId = link.advrouter)
    return { ted := received.ted ++ [link]
             change := true
             forward := received.forward ++ [link] }
  | some (some i) => do
    assert (link.sourceId = link.advrouter)
    return { ted := received.ted.modify i (·.copyFrom link)
             change := received.change || received.ted[i]?.any fun elem ↦ elem.state ≠ link.state
             forward := received.forward ++ [link] }

/-- `if (change) rebuildRoutingTable();` -/
def rebuildIf (change : Bool) (tedmod : Ted) (rt : Ipv4RoutingTable) :
    Except Fault Ipv4RoutingTable :=
  if change then tedmod.rebuildRoutingTable rt else .ok rt

def processLINK_STATE_MESSAGE (router : LinkStateRouting) (pk : LinkStatePacket) :
    Except Fault (LinkStateRouting × List LinkStatePacket) := do
  let received ← pk.linkInfo.foldlM receiveLink ⟨router.tedmod.ted, false, []⟩
  let tedmod : Ted := { router.tedmod with ted := received.ted }
  let rt ← rebuildIf received.change tedmod router.rt
  let next : LinkStateRouting := { router with tedmod := tedmod, rt := rt }
  let reply := if pk.request then [next.sendToPeer pk.srcAddress tedmod.ted false] else []
  let forward :=
    if received.forward = [] then [] else next.sendToPeers received.forward false pk.srcAddress
  return (next, reply ++ forward)

/-- One index of the signal. -/
def announceLink (now : SimTime) (signalled : Ted × List TeLinkStateInfo) (index : ℕ) :
    Except Fault (Ted × List TeLinkStateInfo) :=
  match signalled.1.ted[index]? with
  | none => .error .undefinedBehaviour
  | some link => do
    let updated ← updateTimestamp signalled.1 now link
    let tedmod : Ted := { updated.1 with ted := updated.1.ted.set index updated.2 }
    return (tedmod, signalled.2 ++ [updated.2])

def receiveSignal (router : LinkStateRouting) (now : SimTime) (tedLinkIndices : List ℕ) :
    Except Fault (LinkStateRouting × List LinkStatePacket) := do
  assert (tedLinkIndices ≠ [])
  let signalled ← tedLinkIndices.foldlM (announceLink now) (router.tedmod, [])
  let next : LinkStateRouting :=
    { router with
      tedmod := signalled.1
      announced := router.announced ++ signalled.2 }
  return (next, next.sendToPeers signalled.2 false 0#32)

end LinkStateRouting

/-- What other modules change of a link. -/
structure LinkAttributes where
  metric : ℚ
  metric_pos : 0 < metric
  maxBandwidth : ℚ
  unResvBandwidth : Vector ℚ 8
  state : Bool

def TeLinkStateInfo.withAttributes (link : TeLinkStateInfo) (attributes : LinkAttributes) :
    TeLinkStateInfo :=
  { link with
    metric := attributes.metric
    metric_pos := attributes.metric_pos
    maxBandwidth := attributes.maxBandwidth
    unResvBandwidth := attributes.unResvBandwidth
    state := attributes.state }

namespace LinkStateRouting

/-- The database after other modules have written to it. -/
def setLinks (ted : List TeLinkStateInfo) (indices : List ℕ) (attributes : ℕ → LinkAttributes) :
    List TeLinkStateInfo :=
  ted.mapIdx fun i link ↦ if i ∈ indices then link.withAttributes (attributes i) else link

/-- A change of links by another module, which emits the signal and has the routing table rebuilt
when a link went up or down. -/
def changeLinks (router : LinkStateRouting) (now : SimTime) (indices : List ℕ)
    (attributes : ℕ → LinkAttributes) :
    Except Fault (LinkStateRouting × List LinkStatePacket) := do
  let links := setLinks router.tedmod.ted indices attributes
  let written : LinkStateRouting := { router with tedmod := { router.tedmod with ted := links } }
  let signalled ← written.receiveSignal now indices
  let change := links.map TeLinkStateInfo.state ≠ router.tedmod.ted.map TeLinkStateInfo.state
  let rt ← rebuildIf change signalled.1.tedmod signalled.1.rt
  return ({ signalled.1 with rt := rt }, signalled.2)

end LinkStateRouting

/-- Routers and the packets between them. -/
structure LinkStateNetwork (ι : Type) where
  router : ι → LinkStateRouting
  inFlight : List LinkStatePacket
  now : SimTime

inductive LinkStateEvent (ι : Type)
  | announce (i : ι)
  /-- The packet at a position arrives at a router. -/
  | deliver (i : ι) (position : ℕ)
  | changeLinks (i : ι) (indices : List ℕ) (attributes : ℕ → LinkAttributes)
  | advance (time : SimTime)

namespace LinkStateNetwork

variable {ι : Type} [DecidableEq ι]
variable (net : LinkStateNetwork ι)

/-- A router has handled an event and has sent some packets. -/
def after (i : ι)
    (result : LinkStateRouting × List LinkStatePacket) : LinkStateNetwork ι :=
  { net with
    router := Function.update net.router i result.1
    inFlight := net.inFlight ++ result.2 }

def Enabled : LinkStateEvent ι → Prop
  | .announce i => (net.router i).announceMsg = true
  | .deliver i position =>
    net.inFlight[position]?.map LinkStatePacket.destAddress = some (net.router i).tedmod.routerId
  | .changeLinks _ _ _ => True
  | .advance time => net.now ≤ time

def handle : LinkStateEvent ι → Except Fault (LinkStateNetwork ι)
  | .announce i => .ok (net.after i (net.router i).announce)
  | .deliver i position =>
    match net.inFlight[position]? with
    | none => .error .undefinedBehaviour
    | some pk => do
      let result ← (net.router i).processLINK_STATE_MESSAGE pk
      return { net with inFlight := net.inFlight.eraseIdx position }.after i result
  | .changeLinks i indices attributes => do
    let result ← (net.router i).changeLinks net.now indices attributes
    return net.after i result
  | .advance time => .ok { net with now := time }

/-- Packets are delivered in any order and after any time. -/
def machine (ι : Type) [DecidableEq ι] :
    Machine (LinkStateNetwork ι) (LinkStateEvent ι) Fault where
  Enabled := Enabled
  handle := handle

instance (net : LinkStateNetwork ι) (event : LinkStateEvent ι) :
    Decidable ((machine ι).Enabled net event) :=
  match event with
  | .announce _ | .deliver .. => inferInstanceAs (Decidable (_ = _))
  | .changeLinks .. => isTrue trivial
  | .advance _ => inferInstanceAs (Decidable (_ ≤ _))

end LinkStateNetwork

end Inet4.Ted
