import Inet4.Udp.MulticastMembership

/-!
# The UDP module

`Udp` keeps its sockets in two maps: by the socket id of the application, and by local port.  A
socket comes into existence with the first command that names it, and gets an ephemeral port unless
that command is a bind to a given port.  The lists of the second map hold pointers to sockets, which
the model writes as the ids the sockets are stored under.
-/

namespace Inet4.Udp

/-- A packet from the application, with the tags the module reads. -/
structure AppPacket where
  socketId : ℤ
  srcAddr : L3Address := .NONE
  destAddr : L3Address := .NONE
  /-- `L4PortReq`: source and destination port. -/
  portsReq : Option (ℤ × ℤ) := none
  interfaceReq : Option ℤ := none
  multicastReq : Option Bool := none
  hopLimitReq : Option ℤ := none
  dscpReq : Option ℤ := none
  tosReq : Option ℤ := none
  /-- In bytes. -/
  totalLength : ℕ := 0
deriving DecidableEq

/-- A packet for the network layer, with its header and its tags. -/
structure SentPacket where
  srcAddr : L3Address
  destAddr : L3Address
  sourcePort : ℤ
  destinationPort : ℤ
  totalLengthField : ℕ
  interfaceReq : Option ℤ
  multicastLoop : Bool
  hopLimitReq : Option ℤ
  dscpReq : Option ℤ
  tosReq : Option ℤ
deriving DecidableEq

/-- A packet from the network layer. -/
structure UdpPacket where
  srcAddr : L3Address
  srcPort : ℤ
  destAddr : L3Address
  destPort : ℤ
  /-- The length of the header and the data as the header has it, and of the data received. -/
  totalLength : ℤ := 8
  dataLength : ℤ := 0
  /-- What `verifyCrc` returns. -/
  crcCorrect : Bool := true
deriving DecidableEq

inductive SetOptionCommand
  | setTimeToLive (ttl : ℤ)
  | setDscp (dscp : ℤ)
  | setTos (tos : ℤ)
  | setBroadcast (broadcast : Bool)
  | setMulticastOutputInterface (interfaceId : ℤ)
  | setMulticastLoop (loop : Bool)
  | setReuseAddress (reuseAddr : Bool)
  | multicast (call : MulticastCall)
deriving DecidableEq

/-- What the module is handed from above and from below. -/
inductive Command
  | bind (sockId : ℤ) (localAddr : L3Address) (localPort : ℤ)
  | connect (sockId : ℤ) (remoteAddr : L3Address) (remotePort : ℤ)
  | setOption (sockId : ℤ) (option : SetOptionCommand)
  | close (sockId : ℤ)
  | destroy (sockId : ℤ)
  | send (packet : AppPacket)
  | receive (packet : UdpPacket)
deriving DecidableEq

inductive Output
  | sendUp (sockId : ℤ) (packet : UdpPacket)
  /-- An ICMP error for a packet that no socket takes. -/
  | portUnreachable (packet : UdpPacket)
  | sendDown (packet : SentPacket)
  | socketClosed (sockId : ℤ)
deriving DecidableEq

def EPHEMERAL_PORTRANGE_START : ℤ := 1024

def EPHEMERAL_PORTRANGE_END : ℤ := 5000

def UDP_MAX_MESSAGE_SIZE : ℕ := 65535

def UDP_HEADER_LENGTH : ℕ := 8

end Udp

open Udp

structure Udp where
  socketsByIdMap : AssocMap ℤ SockDesc := ∅
  socketsByPortMap : AssocMap ℤ (List ℤ) := ∅
  lastEphemeralPort : ℤ := EPHEMERAL_PORTRANGE_START
  ift : InterfaceTable
deriving DecidableEq

namespace Udp

variable (udp : Udp)

/-- The list of a port; the index operator makes an empty one where there is none. -/
def portList (port : ℤ) : List ℤ := (udp.socketsByPortMap.find port).getD []

/-- The sockets on the list of a port. -/
def socketsAt (port : ℤ) : List SockDesc :=
  (udp.portList port).filterMap udp.socketsByIdMap.find

variable (sockId : ℤ)

/-- A write through a pointer to a socket. -/
def setSocket (sd : SockDesc) : Udp :=
  { udp with socketsByIdMap := udp.socketsByIdMap.assign sockId sd }

def setPortList (port : ℤ) (list : List ℤ) : Udp :=
  { udp with socketsByPortMap := udp.socketsByPortMap.assign port list }

variable (localAddr : L3Address)

def findFirstSocketByLocalAddress (localPort : ℤ) : Option SockDesc :=
  (udp.socketsAt localPort).find? fun sd ↦ sd.localAddr.isUnspecified ∨ sd.localAddr = localAddr

/-- The port after a port, as an `unsigned short` and within the range. -/
def nextEphemeralPort (port : ℤ) : ℤ :=
  let next := (port + 1) % 65536
  if next = EPHEMERAL_PORTRANGE_END then EPHEMERAL_PORTRANGE_START else next

/-- The loop of `getEphemeralPort`, for at most `fuel` rounds. -/
def searchEphemeralPort (udp : Udp) (searchUntil : ℤ) : ℕ → ℤ → Except SimulationError ℤ
  | 0, _ => .error .notReturned
  | fuel + 1, port =>
    if port ∈ udp.socketsByPortMap then
      if port = searchUntil then
        .error (.runtimeError "Ephemeral port range %d..%d exhausted, all ports occupied")
      else searchEphemeralPort udp searchUntil fuel (nextEphemeralPort port)
    else .ok port

/-- `getEphemeralPort`; the port it returns is the new `lastEphemeralPort`. -/
def getEphemeralPort : Except SimulationError ℤ :=
  udp.searchEphemeralPort udp.lastEphemeralPort 65536 (nextEphemeralPort udp.lastEphemeralPort)

/-- The port of a new socket. -/
def choosePort (localPort : ℤ) : Except SimulationError (Udp × ℤ) :=
  if localPort = -1 then do
    let port ← udp.getEphemeralPort
    return ({ udp with lastEphemeralPort := port }, port)
  else .ok (udp, localPort)

def createSocket (localAddr : L3Address) (localPort : ℤ) :
    Except SimulationError (Udp × SockDesc) := do
  let chosen ← udp.choosePort localPort
  let sd : SockDesc :=
    { sockId := sockId
      isBound := false
      localAddr := localAddr
      localPort := chosen.2
      onlyLocalPortIsSet := localAddr.isUnspecified }
  return ((chosen.1.setSocket sockId sd).setPortList sd.localPort
    (chosen.1.portList sd.localPort ++ [sockId]), sd)

/-- A socket that exists is bound.  Its old port keeps its list. -/
def bindSocket (sd : SockDesc) (localAddr : L3Address) (localPort : ℤ) : Udp :=
  let sd :=
    { sd with
      isBound := true
      localAddr := localAddr }
  if localPort ≠ -1 ∧ sd.localPort ≠ localPort then
    let udp := udp.setPortList sd.localPort ((udp.portList sd.localPort).filter (· ≠ sockId))
    (udp.setSocket sockId { sd with localPort := localPort }).setPortList localPort
      (udp.portList localPort ++ [sockId])
  else udp.setSocket sockId sd

def bind (udp : Udp) (sockId : ℤ) (localAddr : L3Address) (localPort : ℤ) :
    Except SimulationError Udp := do
  throwIf (sockId = -1) (.runtimeError "sockId in BIND message not filled in")
  throwIf (localPort < -1 ∨ localPort > 65535)
    (.runtimeError "bind: invalid local port number %d")
  let socket := udp.socketsByIdMap.find sockId
  -- the port is handed on as an `unsigned short`
  let existing := udp.findFirstSocketByLocalAddress localAddr (localPort % 65536)
  throwIf (existing.any fun other ↦ !(socket.any SockDesc.reuseAddr && other.reuseAddr))
    (.runtimeError "bind: local address/port %s:%u already taken")
  match socket with
  | some sd =>
    throwIf sd.isBound (.runtimeError "bind: socket is already bound (sockId=%d)")
    return udp.bindSocket sockId sd localAddr localPort
  | none =>
    let created ← udp.createSocket sockId localAddr localPort
    return created.1.setSocket sockId { created.2 with isBound := true }

def getOrCreateSocket : Except SimulationError (Udp × SockDesc) :=
  if sockId = -1 then .error (.runtimeError "sockId in Udp command not filled in")
  else
    match udp.socketsByIdMap.find sockId with
    | some sd => .ok (udp, sd)
    | none => udp.createSocket sockId .NONE (-1)

def connect (udp : Udp) (sockId : ℤ) (remoteAddr : L3Address) (remotePort : ℤ) :
    Except SimulationError Udp := do
  throwIf remoteAddr.isUnspecified (.runtimeError "connect: unspecified remote address")
  throwIf (remotePort ≤ 0 ∨ remotePort > 65535)
    (.runtimeError "connect: invalid remote port number %d")
  let found ← udp.getOrCreateSocket sockId
  return found.1.setSocket sockId
    { found.2 with
      remoteAddr := remoteAddr
      remotePort := remotePort
      onlyLocalPortIsSet := false }

/-- The socket and the interfaces after an option. -/
def SetOptionCommand.apply (state : Sockets) : SetOptionCommand → Except SimulationError Sockets
  | .setTimeToLive ttl => .ok ({ state.1 with ttl := ttl }, state.2)
  | .setDscp dscp => .ok ({ state.1 with dscp := dscp }, state.2)
  | .setTos tos => .ok ({ state.1 with tos := tos }, state.2)
  | .setBroadcast broadcast => .ok ({ state.1 with isBroadcast := broadcast }, state.2)
  | .setMulticastOutputInterface interfaceId =>
    .ok ({ state.1 with multicastOutputInterfaceId := interfaceId }, state.2)
  | .setMulticastLoop loop => .ok ({ state.1 with multicastLoop := loop }, state.2)
  | .setReuseAddress reuseAddr => .ok ({ state.1 with reuseAddr := reuseAddr }, state.2)
  | .multicast call => call.apply state

/-- `UDP_C_SETOPTION`. -/
def setOption (option : SetOptionCommand) : Except SimulationError Udp := do
  let found ← udp.getOrCreateSocket sockId
  let state ← option.apply (found.2, found.1.ift)
  return { found.1.setSocket sockId state.1 with ift := state.2 }

def destroySocket : Udp :=
  match udp.socketsByIdMap.find sockId with
  | none => udp
  | some sd =>
    let list := (udp.portList sd.localPort).erase sockId
    { udp with
      socketsByIdMap := udp.socketsByIdMap.remove sockId
      socketsByPortMap :=
        if list = [] then udp.socketsByPortMap.remove sd.localPort
        else udp.socketsByPortMap.assign sd.localPort list }

variable (sd : SockDesc)

/-- The interface for a packet to a multicast group that asks for none. -/
def multicastInterface (destAddr : L3Address) : Option ℤ :=
  let interfaceId :=
    match sd.findFirstMulticastMembership destAddr with
    | some (_, membership) =>
      if membership.interfaceId ≠ -1 then membership.interfaceId
      else sd.multicastOutputInterfaceId
    | none => sd.multicastOutputInterfaceId
  if interfaceId ≠ -1 then some interfaceId else none

/-- The packet a socket sends down. -/
def encapsulate (packet : AppPacket) : Except SimulationError SentPacket := do
  let srcAddr := if packet.srcAddr.isUnspecified then sd.localAddr else packet.srcAddr
  let destAddr := if packet.destAddr.isUnspecified then sd.remoteAddr else packet.destAddr
  let ports := packet.portsReq.getD (-1, -1)
  let srcPort := if ports.1 = -1 then sd.localPort else ports.1
  let destPort := if ports.2 = -1 then sd.remotePort else ports.2
  throwIf (packet.interfaceReq = some (-1))
    (.assertion "interfaceReq == nullptr || interfaceReq->getInterfaceId() != -1")
  let interfaceReq ←
    if packet.interfaceReq = none then
      if ← destAddr.isMulticast then pure (multicastInterface sd destAddr) else pure none
    else pure packet.interfaceReq
  throwIf destAddr.isUnspecified (.runtimeError "send: unspecified destination address")
  throwIf (destPort ≤ 0 ∨ destPort > 65535)
    (.runtimeError "send: invalid remote port number %d")
  let hopLimitReq := if sd.ttl ≠ -1 then packet.hopLimitReq <|> some sd.ttl else packet.hopLimitReq
  let dscpReq := if sd.dscp ≠ -1 then packet.dscpReq <|> some sd.dscp else packet.dscpReq
  throwIf (sd.tos ≠ -1 ∧ packet.tosReq = none ∧ dscpReq ≠ none)
    (.runtimeError "setting error: TOS and DSCP found together")
  let tosReq := if sd.tos ≠ -1 then packet.tosReq <|> some sd.tos else packet.tosReq
  let totalLength := UDP_HEADER_LENGTH + packet.totalLength
  throwIf (totalLength > UDP_MAX_MESSAGE_SIZE)
    (.runtimeError "send: total UDP message size exceeds %u")
  return {
    srcAddr := srcAddr
    destAddr := destAddr
    sourcePort := srcPort
    destinationPort := destPort
    totalLengthField := totalLength
    interfaceReq := interfaceReq
    multicastLoop := packet.multicastReq.getD sd.multicastLoop
    hopLimitReq := hopLimitReq
    dscpReq := dscpReq
    tosReq := tosReq }

def handleUpperPacket (packet : AppPacket) : Except SimulationError (Udp × List Output) := do
  let found ← udp.getOrCreateSocket packet.socketId
  let sent ← encapsulate found.2 packet
  return (found.1, [.sendDown sent])

/-- The test of `findSocketForUnicastPacket`. -/
def matchesUnicast (localAddr remoteAddr : L3Address) (remotePort : ℤ) : Bool :=
  sd.onlyLocalPortIsSet ∨
    (sd.remotePort = -1 ∨ sd.remotePort = remotePort) ∧
      (sd.localAddr.isUnspecified ∨ sd.localAddr = localAddr) ∧
        (sd.remoteAddr.isUnspecified ∨ sd.remoteAddr = remoteAddr)

/-- The loop of `findSocketForUnicastPacket`. -/
def selectSocket (test : SockDesc → Bool) : List SockDesc → Option SockDesc → Option SockDesc
  | [], socketBoundToAnyAddress => socketBoundToAnyAddress
  | sd :: list, socketBoundToAnyAddress =>
    if test sd then
      if sd.localAddr.isUnspecified then selectSocket test list (some sd) else some sd
    else selectSocket test list socketBoundToAnyAddress

def findSocketForUnicastPacket (localPort : ℤ) (remoteAddr : L3Address)
    (remotePort : ℤ) : Option SockDesc :=
  selectSocket (fun sd ↦ matchesUnicast sd localAddr remoteAddr remotePort)
    (udp.socketsAt localPort).reverse none

/-- The test of `findSocketsForMcastBcastPacket`. -/
def matchesMcastBcast (localAddr remoteAddr : L3Address) (remotePort : ℤ)
    (isBroadcast : Bool) : Bool :=
  (sd.remotePort = -1 ∨ sd.remotePort = remotePort) ∧
    (sd.remoteAddr.isUnspecified ∨ sd.remoteAddr = remoteAddr) ∧
      if isBroadcast then sd.isBroadcast
      else (sd.findFirstMulticastMembership localAddr).any fun found ↦
        found.2.isSourceAllowed remoteAddr

def findSocketsForMcastBcastPacket (localPort : ℤ) (remoteAddr : L3Address)
    (remotePort : ℤ) (isBroadcast : Bool) : List SockDesc :=
  (udp.socketsAt localPort).filter fun sd ↦
    matchesMcastBcast sd localAddr remoteAddr remotePort isBroadcast

/-- The header is too long for the length field, or the length field for the packet. -/
def UdpPacket.hasIncorrectLength (packet : UdpPacket) : Bool :=
  packet.totalLength < UDP_HEADER_LENGTH ∨
    packet.totalLength > UDP_HEADER_LENGTH + packet.dataLength

def processUDPPacket (packet : UdpPacket) : Except SimulationError (List Output) := do
  if packet.hasIncorrectLength ∨ !packet.crcCorrect then return []
  let isMulticast ← packet.destAddr.isMulticast
  let isBroadcast ← packet.destAddr.isBroadcast
  if !isMulticast ∧ !isBroadcast then
    match udp.findSocketForUnicastPacket packet.destAddr packet.destPort packet.srcAddr
        packet.srcPort with
    | none => return [.portUnreachable packet]
    | some sd => return [.sendUp sd.sockId packet]
  else
    match udp.findSocketsForMcastBcastPacket packet.destAddr packet.destPort packet.srcAddr
        packet.srcPort isBroadcast with
    | [] => return [.portUnreachable packet]
    | sds => return sds.map fun sd ↦ .sendUp sd.sockId packet

/-- `handleUpperCommand`, `handleUpperPacket` and `handleLowerPacket`. -/
def handle : Command → Except SimulationError (Udp × List Output)
  | .bind sockId localAddr localPort => do
    let udp ← udp.bind sockId localAddr localPort
    return (udp, [])
  | .connect sockId remoteAddr remotePort => do
    let udp ← udp.connect sockId remoteAddr remotePort
    return (udp, [])
  | .setOption sockId option => do
    let udp ← udp.setOption sockId option
    return (udp, [])
  | .close sockId => return (udp.destroySocket sockId, [.socketClosed sockId])
  | .destroy sockId => return (udp.destroySocket sockId, [])
  | .send packet => udp.handleUpperPacket packet
  | .receive packet => do
    let outputs ← udp.processUDPPacket packet
    return (udp, outputs)

end Udp

end Inet4
