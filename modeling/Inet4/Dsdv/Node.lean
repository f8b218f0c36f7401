import Inet4.Ipv4.RoutingTableRuns
import Inet4.LoopFreedom

/-!
# A node of the DSDV protocol

The state of `Dsdv` and what it does with its timers and with hello messages.  Its routes are host
routes in the routing table of the node, objects of a class derived from `Ipv4Route`.  A hello that
is useful is forwarded on one of two paths.  Without `isForwardHello` a copy with the address of the
node and a greater hop distance is sent in a new packet.  With it the received packet is kept in a
list and sent when a timer fires; the changed copy is not put into that packet, and the packet still
has the tags with which it was passed up.
-/

namespace Inet4

open Ipv4 (Ipv4Address RoutePtr Ipv4Route Ipv4RoutingTable)

namespace Dsdv

def ALLONES_ADDRESS : Ipv4Address := BitVec.allOnes 32

/-- `nextAddress` is the node that transmits the message. -/
structure DsdvHello where
  srcAddress : Ipv4Address
  sequencenumber : BitVec 32
  nextAddress : Ipv4Address
  hopdistance : ℤ
deriving DecidableEq

/-- The label of the route that a hello offers. -/
def DsdvHello.label (hello : DsdvHello) : RouteLabel ℤ :=
  routeLabel hello.sequencenumber.toNat hello.hopdistance

inductive Protocol
  | manet
  | ipv4
deriving DecidableEq

/-- A packet with a hello message and the tags that decide where it goes.  The last two fields are
marks of an observer, which no function of a node reads: the node that transmitted the packet last
and the number of transmissions of the message since it was created. -/
structure Packet where
  hello : DsdvHello
  packetProtocolTag : Protocol
  dispatchProtocolReq : Protocol
  transmitter : Ipv4Address
  travelled : ℕ
deriving DecidableEq

/-- `Ipv4::decapsulate`: the tags of a packet that is passed up. -/
def Packet.decapsulate (packet : Packet) : Packet :=
  { packet with packetProtocolTag := .manet, dispatchProtocolReq := .manet }

inductive ServicePrimitive
  | SP_REQUEST
  | SP_INDICATION
deriving DecidableEq

/-- The modules behind the dispatcher at which services are registered. -/
inductive Module
  | ipv4
  | dsdv
deriving DecidableEq

/-- `MessageDispatcher::handlePacket`. -/
def handlePacket (packet : Packet) : Except Fault Module :=
  let servicePrimitive : ServicePrimitive :=
    if packet.dispatchProtocolReq = packet.packetProtocolTag then .SP_INDICATION else .SP_REQUEST
  match packet.dispatchProtocolReq, servicePrimitive with
  | .ipv4, .SP_REQUEST => .ok .ipv4
  | .manet, .SP_INDICATION => .ok .dsdv
  | _, _ => .error .runtimeError

/-- What `DsdvIpv4Route` adds to a route, and the packet that the route was made from, which no
function of a node reads. -/
structure DsdvIpv4Route where
  sequencenumber : BitVec 32
  expiryTime : SimTime
  accepted : Packet
deriving DecidableEq

def DsdvIpv4Route.isValid (route : DsdvIpv4Route) (now : SimTime) : Bool :=
  route.expiryTime = 0 || now < route.expiryTime

end Dsdv

/-- The objects behind the pointers in `dsdvRoutes` are of the derived class. -/
structure Dsdv where
  isForwardHello : Bool := false
  /-- The address of `interface80211ptr`. -/
  source : Ipv4Address
  interface80211ptr : ℕ := 0
  routeLifetime : SimTime
  sequencenumber : BitVec 32 := 0
  rt : Ipv4RoutingTable := {}
  dsdvRoutes : AssocMap RoutePtr Dsdv.DsdvIpv4Route := ∅
  /-- The packets of the `ForwardEntry` objects. -/
  forwardList : List Dsdv.Packet := []

namespace Dsdv

variable (node : Dsdv) (now : SimTime)

/-- The virtual `isValid` of a route answers according to the time. -/
def refreshRoute (route : Ipv4Route) : Ipv4Route :=
  match node.dsdvRoutes.find route.ptr with
  | some data => { route with isValid := data.isValid now }
  | none => route

def refresh : Dsdv :=
  { node with rt := { node.rt with routes := node.rt.routes.map (node.refreshRoute now) } }

/-- The branch of `handleSelfMessage` for the periodic broadcast. -/
def sendHello : Dsdv × Option Packet :=
  let node := { node with
    rt := node.rt.purge
    sequencenumber := node.sequencenumber + 2 }
  (node, some
    { hello :=
        { srcAddress := node.source
          sequencenumber := node.sequencenumber
          nextAddress := node.source
          hopdistance := 1 }
      packetProtocolTag := .manet
      dispatchProtocolReq := .ipv4
      transmitter := node.source
      travelled := 0 })

/-- The branch of `handleSelfMessage` for the event of an entry of the list. -/
def sendForwardEntry (index : ℕ) : Dsdv × Option Packet :=
  ({ node with forwardList := node.forwardList.eraseIdx index }, node.forwardList[index]?)

/-- Whether a hello is useful, given the best matching route. -/
def isUseful (found : Option RoutePtr) (hello : DsdvHello) : Except Fault Bool :=
  match found with
  | none => .ok true
  | some ptr =>
    match node.rt.routeAt ptr with
    | none => .error .undefinedBehaviour
    | some route => .ok (
      route.netmask ≠ ALLONES_ADDRESS ||
        match node.dsdvRoutes.find ptr with
        | none => false
        | some data => data.sequencenumber < hello.sequencenumber ||
          (hello.sequencenumber = data.sequencenumber && hello.hopdistance < route.metric))

/-- `deleteRoute` for a route of this module, whose object is deleted too. -/
def deleteRoute (node : Dsdv) (ptr : RoutePtr) : Dsdv :=
  { node with
    rt := (node.rt.deleteRoute ptr).2
    dsdvRoutes := node.dsdvRoutes.remove ptr }

/-- The route that was found is deleted if it is one of this module. -/
def removeOldEntry (found : Option RoutePtr) : Dsdv :=
  match found with
  | none => node
  | some ptr => if (node.dsdvRoutes.find ptr).isSome then node.deleteRoute ptr else node

/-- What the derived class adds to the new route. -/
def newData (packet : Packet) : DsdvIpv4Route where
  sequencenumber := packet.hello.sequencenumber
  expiryTime := now + node.routeLifetime
  accepted := packet

variable (ptr : RoutePtr)

/-- The new route; the address of the object is part of the event. -/
def newRoute (packet : Packet) : Ipv4Route where
  ptr := ptr
  dest := packet.hello.srcAddress
  netmask := ALLONES_ADDRESS
  gateway := packet.hello.nextAddress
  interfacePtr := some node.interface80211ptr
  adminDist := 255
  metric := packet.hello.hopdistance
  isValid := (node.newData now packet).isValid now

def addHostRoute (packet : Packet) : Except Fault Dsdv := do
  let rt ← node.rt.addRoute (node.newRoute now ptr packet)
  return { node with
    rt := rt
    dsdvRoutes := node.dsdvRoutes.assign ptr (node.newData now packet) }

/-- A useful hello is sent in a new packet, or the received packet waits in the list. -/
def forwardHello (packet : Packet) : Except Fault (Dsdv × Option Packet) := do
  let numHops ← addInt packet.hello.hopdistance 1
  if node.isForwardHello then
    return ({ node with forwardList := node.forwardList ++ [packet] }, none)
  else
    return (node, some { packet with
      hello := { packet.hello with nextAddress := node.source, hopdistance := numHops }
      packetProtocolTag := .manet
      dispatchProtocolReq := .ipv4 })

/-- The part of `handleMessageWhenUp` after the lookup. -/
def updateRoute (found : Option RoutePtr) (packet : Packet)
    : Except Fault (Dsdv × Option Packet) := do
  let useful ← node.isUseful found packet.hello
  if useful then
    let node ← (node.removeOldEntry found).addHostRoute now ptr packet
    node.forwardHello packet
  else return (node, none)

/-- `handleMessageWhenUp` for a packet that arrives on `ipIn`. -/
def handleMessageWhenUp (packet : Packet) :
    Except Fault (Dsdv × Option Packet) := do
  assert (packet.packetProtocolTag = .manet)
  if packet.hello.srcAddress = node.source then return (node, none)
  else
    let (found, rt) ← node.rt.findBestMatchingRoute packet.hello.srcAddress
    updateRoute { node with rt := rt } now ptr found packet

end Dsdv

end Inet4
