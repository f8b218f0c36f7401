import Inet4.EthernetSwitch.MacAddressTable

/-!
# The relay of an Ethernet switch

The relay learns from the source addresses of the frames that arrive, and sends a frame to the port
behind which its destination was seen or, when that is not known, to all ports.  When the switch
runs a spanning tree protocol, the states of the ports say which of them learn and forward.
-/

namespace Inet4.EthernetSwitch

open Ieee8021d (MacAddress Ieee8021dInterfaceData)

/-- `InterfaceEntry`, with the protocol data of the spanning tree protocols. -/
structure InterfaceEntry where
  interfaceId : ℤ
  isLoopback : Bool
  isBroadcast : Bool
  macAddress : MacAddress
  ieee8021dInterfaceData : Option Ieee8021dInterfaceData
  deriving DecidableEq, Repr

/-- `INTERFACEIDS_START`. -/
def interfaceIdsStart : ℤ := 100

/-- `InterfaceTable`: the interfaces in the order of their ids, from `INTERFACEIDS_START` on. -/
structure InterfaceTable where
  interfaces : List InterfaceEntry
  ids_nodup : (interfaces.map InterfaceEntry.interfaceId).Nodup
  start_le : ∀ id ∈ interfaces.map InterfaceEntry.interfaceId, interfaceIdsStart ≤ id

structure Ieee8022LlcHeader where
  dsap : ℤ
  ssap : ℤ
  control : ℤ
  deriving DecidableEq, Repr

/-- A packet that starts with an `EthernetMacHeader`; `llc` is what the bytes after it say when they
are read as an `Ieee8022LlcHeader`. -/
structure Frame where
  dest : MacAddress
  src : MacAddress
  typeOrLength : ℤ
  llc : Ieee8022LlcHeader
  deriving DecidableEq, Repr

/-- What the relay hands to other modules. -/
inductive Output
  /-- A frame on `ifOut`, with its `InterfaceReq`. -/
  | ifOut (interfaceId : ℤ) (frame : Frame)
  /-- A frame on `upperLayerOut`. -/
  | upperLayerOut (frame : Frame)
  deriving DecidableEq, Repr

/-- `Ieee8021dRelay`, its address table and its interface table, with all it has sent. -/
structure Switch where
  isStpAware : Bool
  bridgeAddress : MacAddress
  registeredMacAddresses : List (MacAddress × MacAddress)
  ifTable : InterfaceTable
  macTable : MacAddressTable
  now : SimTime
  numReceivedNetworkFrames : ℕ := 0
  numDroppedFrames : ℕ := 0
  numDispatchedNonBPDUFrames : ℕ := 0
  sent : List Output := []

/-- `MacAddress::STP_MULTICAST_ADDRESS`, 01:80:C2:00:00:00. -/
def stpMulticastAddress : MacAddress := 0x0180C2000000

/-- `Ieee8021dInterfaceData::isLearning`. -/
def isLearning (data : Ieee8021dInterfaceData) : Bool :=
  data.state = .LEARNING || data.state = .FORWARDING

/-- `Ieee8021dInterfaceData::isForwarding`. -/
def isForwarding (data : Ieee8021dInterfaceData) : Bool := data.state = .FORWARDING

def isIeee8023Header (frame : Frame) : Bool := 0 < frame.typeOrLength && frame.typeOrLength < 0x600

def isBpdu (frame : Frame) : Bool :=
  isIeee8023Header frame && frame.llc.ssap = 0x42 && frame.llc.dsap = 0x42 && frame.llc.control = 3

/-- `Ieee8021dRelay::Comp`. -/
def comp (first second : MacAddress × MacAddress) : Bool :=
  first.1 < second.1 && first.2 < second.1

/-- `in_range`: the range of the value alone has an equivalent in the set. -/
def inRange (ranges : List (MacAddress × MacAddress)) (value : MacAddress) : Bool :=
  ranges.any fun range ↦ !comp range (value, value) && !comp (value, value) range

namespace InterfaceEntry

/-- `getProtocolData<Ieee8021dInterfaceData>`. -/
def getProtocolData (ie : InterfaceEntry) : Except SimulationError Ieee8021dInterfaceData :=
  match ie.ieee8021dInterfaceData with
  | some data => .ok data
  | none => .error (.runtimeError "Tag '%s' is absent")

/-- The interface with other protocol data, when it is the one with the id. -/
def withData (ie : InterfaceEntry) (interfaceId : ℤ) (data : Ieee8021dInterfaceData) :
    InterfaceEntry :=
  { ie with
    ieee8021dInterfaceData := if ie.interfaceId = interfaceId then some data
      else ie.ieee8021dInterfaceData }

end InterfaceEntry

namespace InterfaceTable

def getInterfaceById (ifTable : InterfaceTable) (id : ℤ) : Except SimulationError InterfaceEntry :=
  match ifTable.interfaces.find? fun ie ↦ ie.interfaceId = id with
  | some ie => .ok ie
  | none => .error (.runtimeError "getInterfaceById(): no interface with ID=%d")

theorem map_interfaceId_withData (interfaces : List InterfaceEntry) (interfaceId : ℤ)
    (data : Ieee8021dInterfaceData) :
    (interfaces.map fun ie ↦ ie.withData interfaceId data).map InterfaceEntry.interfaceId =
      interfaces.map InterfaceEntry.interfaceId := by
  rw [List.map_map]
  rfl

/-- The spanning tree protocol changes the data of a port. -/
def setData (ifTable : InterfaceTable) (interfaceId : ℤ) (data : Ieee8021dInterfaceData) :
    InterfaceTable where
  interfaces := ifTable.interfaces.map fun ie ↦ ie.withData interfaceId data
  ids_nodup  := (map_interfaceId_withData ..).symm ▸ ifTable.ids_nodup
  start_le   := (map_interfaceId_withData ..).symm ▸ ifTable.start_le

end InterfaceTable

namespace Switch

variable (s : Switch)

/-- `getPortInterfaceData`; `none` is the null pointer of a switch without a spanning tree. -/
def getPortInterfaceData (interfaceId : ℤ) :
    Except SimulationError (Option Ieee8021dInterfaceData) :=
  if s.isStpAware then do
    let gateIfEntry ← s.ifTable.getInterfaceById interfaceId
    let portData ← gateIfEntry.getProtocolData
    return some portData
  else return none

def isForwardingInterface (ie : InterfaceEntry) : Except SimulationError Bool :=
  if s.isStpAware then do
    let data ← ie.getProtocolData
    return isForwarding data
  else return true

variable (frame : Frame)

def dispatch (ie : InterfaceEntry) : Switch :=
  { s with
    numDispatchedNonBPDUFrames := s.numDispatchedNonBPDUFrames + 1
    sent := s.sent ++ [.ifOut ie.interfaceId frame] }

def sendUp : Switch :=
  { s with sent := s.sent ++ [.upperLayerOut frame] }

/-- The frame is counted and deleted. -/
def drop : Switch := { s with numDroppedFrames := s.numDroppedFrames + 1 }

variable (arrivalInterfaceId : ℤ)

/-- A frame that is flooded reaches an interface. -/
def broadcastOn (ie : InterfaceEntry) : Except SimulationError Switch :=
  if ie.isLoopback || !ie.isBroadcast then return s
  else if ie.interfaceId = arrivalInterfaceId then return s
  else do
    let forwarding ← s.isForwardingInterface ie
    return if forwarding then s.dispatch frame ie else s

def broadcast : Except SimulationError Switch :=
  s.ifTable.interfaces.foldlM (fun s ie ↦ s.broadcastOn frame arrivalInterfaceId ie) s

def learn (srcAddr : MacAddress) (arrivalInterfaceId : ℤ) : Except SimulationError Switch := do
  let port ← s.getPortInterfaceData arrivalInterfaceId
  return if !s.isStpAware || port.any isLearning then
    { s with
      macTable := s.macTable.updateTableWithAddress s.now arrivalInterfaceId srcAddr 0 }
  else s

/-- `macTable->getInterfaceIdForAddress`, as the relay sees it. -/
def lookup (address : MacAddress) : ℤ × Switch :=
  let found := s.macTable.getInterfaceIdForAddress s.now address 0
  (found.1, { s with macTable := found.2 })

/-- A frame that is neither for the switch nor a broadcast, and arrived on a forwarding port. -/
def forward : Except SimulationError Switch :=
  let found := s.lookup frame.dest
  if found.1 = -1 then found.2.broadcast frame arrivalInterfaceId
  else do
    let outputInterface ← s.ifTable.getInterfaceById found.1
    if found.1 ≠ arrivalInterfaceId then do
      let forwarding ← found.2.isForwardingInterface outputInterface
      return if forwarding then found.2.dispatch frame outputInterface else found.2.drop
    else return found.2.drop

/-- A BPDU for the spanning tree module. -/
def isBpduForStp (arrivalPortData : Option Ieee8021dInterfaceData) : Bool :=
  s.isStpAware && (frame.dest = stpMulticastAddress || frame.dest = s.bridgeAddress) &&
    arrivalPortData.any (fun data ↦ data.role ≠ .DISABLED) && isBpdu frame

/-- `handleAndDispatchFrame`, after the source address has been learned. -/
def dispatchFrame (arrivalInterface : InterfaceEntry) : Except SimulationError Switch :=
  let arrivalPortData := arrivalInterface.ieee8021dInterfaceData
  if s.isBpduForStp frame arrivalPortData then return s.sendUp frame
  else if s.isStpAware && !arrivalPortData.any isForwarding then return s.drop
  else if inRange s.registeredMacAddresses frame.dest then return s.sendUp frame
  else if isBroadcast frame.dest then s.broadcast frame arrivalInterface.interfaceId
  else s.forward frame arrivalInterface.interfaceId

def handleAndDispatchFrame : Except SimulationError Switch := do
  let arrivalInterface ← s.ifTable.getInterfaceById arrivalInterfaceId
  throwIf (s.isStpAware ∧ arrivalInterface.ieee8021dInterfaceData = none)
    (.runtimeError "Ieee8021dInterfaceData not found for interface %s")
  let s ← s.learn frame.src arrivalInterfaceId
  s.dispatchFrame frame arrivalInterface

/-- A frame from the network is counted. -/
def received : Switch :=
  { s with numReceivedNetworkFrames := s.numReceivedNetworkFrames + 1 }

def handleLowerPacket : Except SimulationError Switch :=
  s.received.handleAndDispatchFrame frame arrivalInterfaceId

/-- `handleUpperPacket`; -1 is the missing `InterfaceReq`. -/
def handleUpperPacket (interfaceId : ℤ) : Except SimulationError Switch :=
  if interfaceId ≠ -1 then do
    let ie ← s.ifTable.getInterfaceById interfaceId
    return s.dispatch frame ie
  else if isBroadcast frame.dest then s.broadcast frame (-1)
  else
    let found := s.lookup frame.dest
    if found.1 = -1 then found.2.broadcast frame (-1)
    else do
      -- the id of the missing request, not the one that was found
      let ie ← s.ifTable.getInterfaceById interfaceId
      return found.2.dispatch frame ie

/-- `registerAddresses`: a range that overlaps one of the set is not inserted. -/
def registerAddresses (startMac endMac : MacAddress) : Switch :=
  if s.registeredMacAddresses.any fun range ↦
      !comp range (startMac, endMac) && !comp (startMac, endMac) range then s
  else { s with registeredMacAddresses := (startMac, endMac) :: s.registeredMacAddresses }

end Switch

end Inet4.EthernetSwitch
