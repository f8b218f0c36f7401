import Inet4.Ipv4.RoutingTable

/-!
# The DHCP server

`DhcpServer` keeps its leases in a map from addresses and looks them up by the hardware address of
the client.  A client that has no lease gets the address it asks for or the first free one of the
pool.  A request names the server, an address it wants to use again, or the address it uses.
-/

namespace Inet4.Dhcp

open Ipv4 (Ipv4Address)

abbrev MacAddress := BitVec 48

inductive DhcpOpcode
  | BOOTREQUEST
  | BOOTREPLY
deriving DecidableEq

inductive DhcpMessageType
  | DHCPDISCOVER
  | DHCPOFFER
  | DHCPREQUEST
  | DHCPDECLINE
  | DHCPACK
  | DHCPNAK
  | DHCPRELEASE
  | DHCPINFORM
deriving DecidableEq

/-- `DhcpOptions`.  An option that a message does not carry has the default value. -/
structure DhcpOptions where
  messageType : DhcpMessageType
  requestedIp : Ipv4Address := 0#32
  subnetMask : Ipv4Address := 0#32
  router : List Ipv4Address := []
  dns : List Ipv4Address := []
  serverIdentifier : Ipv4Address := 0#32
  renewalTime : SimTime := 0
  rebindingTime : SimTime := 0
  leaseTime : SimTime := 0
deriving DecidableEq

structure DhcpMessage where
  op : DhcpOpcode
  htype : ℕ := 1
  hlen : ℕ := 6
  hops : ℕ := 0
  xid : BitVec 32
  secs : ℕ := 0
  broadcast : Bool := false
  ciaddr : Ipv4Address := 0#32
  yiaddr : Ipv4Address := 0#32
  giaddr : Ipv4Address := 0#32
  chaddr : MacAddress
  options : DhcpOptions
  /-- In bytes; the server does not read it. -/
  chunkLength : ℕ := 0
deriving DecidableEq

/-- A message on its way down, with the arguments of `sendToUDP`. -/
structure Datagram where
  message : DhcpMessage
  srcPort : ℕ
  destAddr : Ipv4Address
  destPort : ℕ
  interfaceId : ℤ
deriving DecidableEq

/-- `DhcpLease` with the fields that the server uses. -/
structure DhcpLease where
  xid : ℤ := -1
  ip : Ipv4Address := 0#32
  mac : MacAddress := 0#48
  gateway : Ipv4Address := 0#32
  subnetMask : Ipv4Address := 0#32
  dns : Ipv4Address := 0#32
  leaseTime : SimTime := 0
  leased : Bool := false
deriving DecidableEq

/-- The interface on which requests are served. -/
structure InterfaceEntry where
  interfaceId : ℤ
  ipAddress : Ipv4Address
  netmask : Ipv4Address
deriving DecidableEq

structure DhcpServer where
  leased : AssocMap Ipv4Address DhcpLease := ∅
  numSent : ℕ := 0
  numReceived : ℕ := 0
  maxNumOfClients : BitVec 32
  /-- In seconds. -/
  leaseTime : BitVec 32
  subnetMask : Ipv4Address
  gateway : Ipv4Address
  ipAddressStart : Ipv4Address
  ie : InterfaceEntry
deriving DecidableEq

namespace DhcpServer

def serverPort : ℕ := 67

def clientPort : ℕ := 68

def ALLONES_ADDRESS : Ipv4Address := BitVec.allOnes 32

/-- `handleStartOperation`.  An empty parameter `gateway` stands for the address of the
interface. -/
def handleStartOperation (ie : InterfaceEntry) (maxNumClients leaseTime : BitVec 32)
    (gateway : Option Ipv4Address) (numReservedAddresses : BitVec 32) :
    Except Fault DhcpServer := do
  let networkStartAddress := ie.ipAddress &&& ie.netmask
  let ipAddressStart := networkStartAddress + numReservedAddresses
  if ¬ Ipv4Address.maskedAddrAreEqual ie.ipAddress ipAddressStart ie.netmask then
    .error .runtimeError
  else if ¬ Ipv4Address.maskedAddrAreEqual ie.ipAddress (ipAddressStart + maxNumClients - 1)
      ie.netmask then
    .error .runtimeError
  else
    .ok {
      maxNumOfClients := maxNumClients
      leaseTime := leaseTime
      subnetMask := ie.netmask
      gateway := gateway.getD ie.ipAddress
      ipAddressStart := ipAddressStart
      ie := ie }

variable (server : DhcpServer)

/-- The addresses that the loop of `getAvailableLease` goes through. -/
def pool : List Ipv4Address :=
  (List.range server.maxNumOfClients.toNat).map fun i ↦ server.ipAddressStart + BitVec.ofNat 32 i

/-- The first lease of a client in the order of the addresses, with its key. -/
def getLeaseByMac (mac : MacAddress) : Option (Ipv4Address × DhcpLease) :=
  server.leased.findFirst BitVec.toNat fun lease ↦ lease.mac = mac

/-- A write through a pointer to a lease. -/
def setLease (ip : Ipv4Address) (lease : DhcpLease) : DhcpServer :=
  { server with leased := server.leased.assign ip lease }

/-- A new record replaces the one under the address. -/
def createLease (ip : Ipv4Address) : DhcpServer :=
  server.setLease ip { ip := ip, gateway := server.gateway, subnetMask := server.subnetMask }

/-- The loop through the pool. -/
def searchPool (server : DhcpServer) : List Ipv4Address → Option Ipv4Address × DhcpServer
  | [] => (none, server)
  | ip :: rest =>
    match server.leased.find ip with
    | some lease => if !lease.leased then (some ip, server) else searchPool server rest
    | none => (some ip, server.createLease ip)

/-- The key of the lease for a client that has none.  The address of the client is not looked at. -/
def getAvailableLease (requestedAddress : Ipv4Address) : Option Ipv4Address × DhcpServer :=
  if !requestedAddress.isUnspecified then
    match server.leased.find requestedAddress with
    | some lease =>
      if !lease.leased then (some requestedAddress, server)
      else (some requestedAddress, server.createLease requestedAddress)
    | none => (some requestedAddress, server.createLease requestedAddress)
  else server.searchPool server.pool

def seconds (n : ℕ) : SimTime := .ofMillis (1000 * n)

def sendToUDP (message : DhcpMessage) (destAddr : Ipv4Address) : DhcpServer × List Datagram :=
  ({ server with numSent := server.numSent + 1 },
    [⟨message, serverPort, destAddr, clientPort, server.ie.interfaceId⟩])

def sendNak (msg : DhcpMessage) : DhcpServer × List Datagram :=
  let nak : DhcpMessage :=
    { op := .BOOTREPLY
      xid := msg.xid
      broadcast := msg.broadcast
      giaddr := msg.giaddr
      chaddr := msg.chaddr
      options := { messageType := .DHCPNAK, serverIdentifier := server.ie.ipAddress }
      chunkLength := 236 + 6 + 3 + 5 }
  server.sendToUDP nak (if !msg.giaddr.isUnspecified then msg.giaddr else ALLONES_ADDRESS)

/-- Where an offer or an acknowledgement is sent. -/
def replyAddress (packet : DhcpMessage) : Ipv4Address :=
  if !packet.giaddr.isUnspecified then packet.giaddr
  else if !packet.ciaddr.isUnspecified then packet.ciaddr
  else if packet.broadcast then ALLONES_ADDRESS
  else ALLONES_ADDRESS

/-- The message about a lease that is common to offers and acknowledgements. -/
def leaseMessage (messageType : DhcpMessageType) (ciaddr giaddr : Ipv4Address) (lease : DhcpLease)
    : DhcpMessage where
  op := .BOOTREPLY
  xid := BitVec.ofInt 32 lease.xid
  ciaddr := ciaddr
  yiaddr := lease.ip
  giaddr := giaddr
  chaddr := lease.mac
  options :=
    { messageType := messageType
      subnetMask := lease.subnetMask
      renewalTime := seconds (server.leaseTime.toNat / 2)
      rebindingTime := seconds (server.leaseTime.toNat * 7 / 8)
      leaseTime := seconds server.leaseTime.toNat
      router := [lease.gateway]
      dns := [lease.dns]
      serverIdentifier := server.ie.ipAddress }
  chunkLength := 236 + 3 + 6 + 6 + 6 + 6 + 6 + 6 + 6 + 5

variable (now : SimTime)

/-- The time of the reply is noted in the lease before the message is sent. -/
def sendLease (ip : Ipv4Address) (lease : DhcpLease) (message : DhcpMessage) (packet : DhcpMessage)
    : DhcpServer × List Datagram :=
  (server.setLease ip { lease with leaseTime := now }).sendToUDP message (replyAddress packet)

def sendAck (ip : Ipv4Address) (lease : DhcpLease) (packet : DhcpMessage)
    : DhcpServer × List Datagram :=
  server.sendLease now ip lease (server.leaseMessage .DHCPACK lease.ip 0#32 lease) packet

def sendOffer (ip : Ipv4Address) (lease : DhcpLease) (packet : DhcpMessage)
    : DhcpServer × List Datagram :=
  server.sendLease now ip lease (server.leaseMessage .DHCPOFFER 0#32 lease.gateway lease) packet

/-- The branch of `processDhcpMessage` for a `DHCPDISCOVER`. -/
def processDiscover (dhcpMsg : DhcpMessage) : DhcpServer × List Datagram :=
  match server.getLeaseByMac dhcpMsg.chaddr with
  | none =>
    match server.getAvailableLease dhcpMsg.options.requestedIp with
    | (some ip, server) =>
      let lease := (server.leased.find ip).getD {}
      server.sendOffer now ip
        { lease with mac := dhcpMsg.chaddr, xid := dhcpMsg.xid.toNat, leased := true } dhcpMsg
    | (none, server) => (server, [])
  | some (ip, lease) => server.sendOffer now ip { lease with xid := dhcpMsg.xid.toNat } dhcpMsg

/-- What every acknowledgement writes to the lease before `sendAck`. -/
def acknowledge (ip : Ipv4Address) (lease : DhcpLease) (dhcpMsg : DhcpMessage)
    : DhcpServer × List Datagram :=
  server.sendAck now ip
    { lease with
      xid := dhcpMsg.xid.toNat
      leaseTime := seconds server.leaseTime.toNat
      leased := true } dhcpMsg

/-- The branch of `processDhcpMessage` for a `DHCPREQUEST`. -/
def processRequest (dhcpMsg : DhcpMessage) : DhcpServer × List Datagram :=
  if dhcpMsg.options.serverIdentifier = server.ie.ipAddress then
    match server.getLeaseByMac dhcpMsg.chaddr with
    | some (ip, lease) =>
      if lease.ip ≠ dhcpMsg.options.requestedIp then server.sendNak dhcpMsg
      else server.acknowledge now ip lease dhcpMsg
    | none => server.sendNak dhcpMsg
  else if dhcpMsg.ciaddr.isUnspecified then
    -- init-reboot
    let requestedAddress := dhcpMsg.options.requestedIp
    match server.leased.find requestedAddress with
    | none => (server, [])
    | some lease =>
      if Ipv4Address.maskedAddrAreEqual requestedAddress lease.ip server.subnetMask then
        server.acknowledge now requestedAddress lease dhcpMsg
      else server.sendNak dhcpMsg
  else
    -- renewing or rebinding
    match server.leased.find dhcpMsg.ciaddr with
    | some lease => server.acknowledge now dhcpMsg.ciaddr lease dhcpMsg
    | none => server.sendNak dhcpMsg

def processDhcpMessage (inputInterfaceId : ℤ) (dhcpMsg : DhcpMessage)
    : DhcpServer × List Datagram :=
  if inputInterfaceId ≠ server.ie.interfaceId then (server, [])
  else
    let (server, sent) :=
      match dhcpMsg.op with
      | .BOOTREQUEST =>
        match dhcpMsg.options.messageType with
        | .DHCPDISCOVER => server.processDiscover now dhcpMsg
        | .DHCPREQUEST => server.processRequest now dhcpMsg
        | _ => (server, [])
      | .BOOTREPLY => (server, [])
    ({ server with numReceived := server.numReceived + 1 }, sent)

end DhcpServer

end Inet4.Dhcp
