import Inet4.BinarySearch
import Inet4.Ipv4.HostMulticastGroups

/-!
# Multicast memberships of UDP sockets

A socket keeps its source filters in a table that is searched with `std::lower_bound`, under an
order written by hand in which the interface id -1 stands for all interfaces.  Each socket call
changes the table and reports the old and the new filter to the interfaces concerned.
-/

namespace Inet4.Udp

open Ipv4 (Ipv4InterfaceData McastSourceFilterMode)

inductive UdpSourceFilterMode
  | UDP_INCLUDE_MCAST_SOURCES
  | UDP_EXCLUDE_MCAST_SOURCES
deriving DecidableEq

open UdpSourceFilterMode

/-- The mode in the words of the interface. -/
def UdpSourceFilterMode.toMcast : UdpSourceFilterMode → McastSourceFilterMode
  | UDP_INCLUDE_MCAST_SOURCES => .MCAST_INCLUDE_SOURCES
  | UDP_EXCLUDE_MCAST_SOURCES => .MCAST_EXCLUDE_SOURCES

structure MulticastMembership where
  multicastAddress : L3Address := .NONE
  /-- -1 stands for all interfaces. -/
  interfaceId : ℤ := -1
  filterMode : UdpSourceFilterMode := UDP_INCLUDE_MCAST_SOURCES
  sourceList : List L3Address := []
deriving DecidableEq

namespace MulticastMembership

def isSourceAllowed (membership : MulticastMembership) (sourceAddr : L3Address) : Bool :=
  match membership.filterMode with
  | UDP_INCLUDE_MCAST_SOURCES => sourceAddr ∈ membership.sourceList
  | UDP_EXCLUDE_MCAST_SOURCES => sourceAddr ∉ membership.sourceList

def lessMembership (first second : MulticastMembership) : Bool :=
  if first.multicastAddress ≠ second.multicastAddress then
    first.multicastAddress.lessThan second.multicastAddress
  else if first.interfaceId = -1 ∨ first.interfaceId ≥ second.interfaceId then false
  else true

end MulticastMembership

open MulticastMembership (lessMembership)

structure SockDesc where
  sockId : ℤ := -1
  isBound : Bool := false
  onlyLocalPortIsSet : Bool := false
  reuseAddr : Bool := false
  localAddr : L3Address := .NONE
  remoteAddr : L3Address := .NONE
  localPort : ℤ := -1
  remotePort : ℤ := -1
  isBroadcast : Bool := false
  multicastOutputInterfaceId : ℤ := -1
  multicastLoop : Bool := true
  ttl : ℤ := -1
  dscp : ℤ := -1
  tos : ℤ := -1
  multicastMembershipTable : List MulticastMembership := []
deriving DecidableEq

namespace SockDesc

/-- The position `std::lower_bound` returns for a group and an interface. -/
def lowerBound (sd : SockDesc) (multicastAddress : L3Address) (interfaceId : ℤ) : ℕ :=
  let key : MulticastMembership :=
    { multicastAddress := multicastAddress
      interfaceId := interfaceId }
  BinarySearch.lowerBound (fun membership ↦ lessMembership membership key)
    sd.multicastMembershipTable

variable (sd : SockDesc)

/-- The first membership of a group, with its position. -/
def findFirstMulticastMembership (multicastAddress : L3Address) :
    Option (ℕ × MulticastMembership) :=
  let position := sd.lowerBound multicastAddress 0
  match sd.multicastMembershipTable[position]? with
  | none => none
  | some membership =>
    if membership.multicastAddress = multicastAddress then some (position, membership) else none

/-- The membership of a group on an interface, with its position. -/
def findMulticastMembership (multicastAddress : L3Address) (interfaceId : ℤ) :
    Option (ℕ × MulticastMembership) :=
  let position := sd.lowerBound multicastAddress interfaceId
  match sd.multicastMembershipTable[position]? with
  | none => none
  | some membership =>
    if membership.multicastAddress = multicastAddress ∧ membership.interfaceId = interfaceId then
      some (position, membership)
    else none

/-- The socket with the membership added, and the position the membership has got. -/
def addMulticastMembership (membership : MulticastMembership) : ℕ × SockDesc :=
  let position := sd.lowerBound membership.multicastAddress membership.interfaceId
  (position,
    { sd with
      multicastMembershipTable := sd.multicastMembershipTable.insertIdx position membership })

/-- The record at a position is erased. -/
def deleteMulticastMembership (position : ℕ) : SockDesc :=
  { sd with multicastMembershipTable := sd.multicastMembershipTable.eraseIdx position }

/-- A write through the pointer to the record at a position. -/
def setMulticastMembership (position : ℕ) (membership : MulticastMembership) :
    SockDesc :=
  { sd with multicastMembershipTable := sd.multicastMembershipTable.set position membership }

end SockDesc

structure InterfaceEntry where
  isMulticast : Bool
  /-- `none` on an interface without IPv4. -/
  ipv4Data : Option Ipv4InterfaceData := some {}
deriving DecidableEq

namespace InterfaceEntry

def getProtocolData (ie : InterfaceEntry) : Except SimulationError Ipv4InterfaceData :=
  match ie.ipv4Data with
  | none => .error (.runtimeError "No %s in interface protocol data")
  | some data => .ok data

def changeMulticastGroupMembership (ie : InterfaceEntry) (multicastAddress : L3Address)
    (oldFilterMode : McastSourceFilterMode) (oldSourceList : List L3Address)
    (newFilterMode : McastSourceFilterMode) (newSourceList : List L3Address) :
    Except SimulationError InterfaceEntry := do
  match multicastAddress with
  | .IPv4 group =>
    let oldIPv4SourceList ← oldSourceList.mapM L3Address.toIpv4
    let newIPv4SourceList ← newSourceList.mapM L3Address.toIpv4
    let data ← ie.getProtocolData
    let data ← data.changeMulticastGroupMembership group oldFilterMode oldIPv4SourceList
      newFilterMode newIPv4SourceList
    return { ie with ipv4Data := some data }
  | .NONE => throw (.runtimeError "Unknown address type")
  | _ =>
    throw (.runtimeError "changeMulticastGroupMembership() not implemented for type %s")

/-- `Udp::addMulticastAddressToInterface`.  Groups of other types than IPv4 are added to data of
the interface that no source filter reads. -/
def addMulticastAddress (ie : InterfaceEntry) (multicastAddr : L3Address) :
    Except SimulationError InterfaceEntry := do
  throwIf (¬ie.isMulticast) (.assertion "ie && ie->isMulticast()")
  let isMulticast ← multicastAddr.isMulticast
  throwIf (¬isMulticast) (.assertion "multicastAddr.isMulticast()")
  match multicastAddr with
  | .IPv4 group =>
    let data ← ie.getProtocolData
    let data ← data.joinMulticastGroup group
    return { ie with ipv4Data := some data }
  | _ => return ie

end InterfaceEntry

/-- The interfaces; their ids count from `INTERFACEIDS_START`. -/
structure InterfaceTable where
  idToInterface : List InterfaceEntry
deriving DecidableEq

namespace InterfaceTable

def INTERFACEIDS_START : ℕ := 100

variable (ift : InterfaceTable)

def findInterfaceById (id : ℤ) : Option InterfaceEntry :=
  if id < INTERFACEIDS_START then none
  else ift.idToInterface[(id - INTERFACEIDS_START).toNat]?

def getInterfaceById (ift : InterfaceTable) (id : ℤ) : Except SimulationError InterfaceEntry :=
  match ift.findInterfaceById id with
  | none => .error (.runtimeError "getInterfaceById(): no interface with ID=%d")
  | some ie => .ok ie

/-- A change of the interface with an id. -/
def updateInterface (id : ℤ)
    (change : InterfaceEntry → Except SimulationError InterfaceEntry) :
    Except SimulationError InterfaceTable := do
  let ie ← ift.getInterfaceById id
  let ie ← change ie
  return { idToInterface := ift.idToInterface.set (id - INTERFACEIDS_START).toNat ie }

/-- The same change of every multicast interface, in the order of the table. -/
def updateMulticastInterfaces
    (change : InterfaceEntry → Except SimulationError InterfaceEntry) :
    Except SimulationError InterfaceTable := do
  let entries ← ift.idToInterface.mapM fun ie ↦
    if ie.isMulticast then change ie else pure ie
  return { idToInterface := entries }

/-- The change on the interface a membership is for. -/
def update (interfaceId : ℤ)
    (change : InterfaceEntry → Except SimulationError InterfaceEntry) :
    Except SimulationError InterfaceTable :=
  if interfaceId ≠ -1 then ift.updateInterface interfaceId change
  else ift.updateMulticastInterfaces change

end InterfaceTable

/-- A socket and the interfaces. -/
abbrev Sockets := SockDesc × InterfaceTable

/-- The checks of `joinMulticastGroups` on the interface a group is joined on. -/
def checkInterface (ift : InterfaceTable) (interfaceId : ℤ) : Except SimulationError Unit :=
  if interfaceId ≠ -1 then do
    let ie ← ift.getInterfaceById interfaceId
    throwIf (¬ie.isMulticast) (.assertion "ie->isMulticast()")
  else .ok ()

variable (state : Sockets)

/-- One round of the loop of `joinMulticastGroups`. -/
def joinMulticastGroup (multicastAddr : L3Address) (interfaceId : ℤ) :
    Except SimulationError Sockets := do
  let isMulticast ← multicastAddr.isMulticast
  throwIf (¬isMulticast) (.assertion "multicastAddr.isMulticast()")
  throwIf (state.1.findMulticastMembership multicastAddr interfaceId).isSome
    (.runtimeError "UPD::joinMulticastGroups(): %s group on interface %s is already joined.")
  let membership : MulticastMembership :=
    { interfaceId := interfaceId
      multicastAddress := multicastAddr
      filterMode := UDP_EXCLUDE_MCAST_SOURCES }
  let added := state.1.addMulticastMembership membership
  checkInterface state.2 interfaceId
  let ift ← state.2.update interfaceId fun ie ↦ ie.addMulticastAddress multicastAddr
  return (added.2, ift)

/-- `joinMulticastGroups`; a group without an interface id is joined on all interfaces. -/
def joinMulticastGroups (state : Sockets) : List L3Address → List ℤ → Except SimulationError Sockets
  | [], _ => .ok state
  | multicastAddr :: multicastAddresses, interfaceIds => do
    let state ← joinMulticastGroup state multicastAddr (interfaceIds.headD (-1))
    joinMulticastGroups state multicastAddresses interfaceIds.tail

/-- The loop of `leaveMulticastGroups` over the memberships of one group, which start at a
position; at most `fuel` of them. -/
def leaveMemberships (multicastAddress : L3Address) (position : ℕ) :
    ℕ → Sockets → Except SimulationError Sockets
  | 0, state => .ok state
  | fuel + 1, state =>
    match state.1.multicastMembershipTable[position]? with
    | none => .ok state
    | some membership =>
      if membership.multicastAddress ≠ multicastAddress then .ok state
      else do
        let ift ← state.2.update membership.interfaceId fun ie ↦
          ie.changeMulticastGroupMembership membership.multicastAddress
            membership.filterMode.toMcast membership.sourceList .MCAST_INCLUDE_SOURCES []
        leaveMemberships multicastAddress position fuel
          (state.1.deleteMulticastMembership position, ift)

/-- One round of the loop of `leaveMulticastGroups`. -/
def leaveMulticastGroup (multicastAddress : L3Address) : Except SimulationError Sockets :=
  match state.1.findFirstMulticastMembership multicastAddress with
  | none => .ok state
  | some (position, _) =>
    leaveMemberships multicastAddress position state.1.multicastMembershipTable.length state

def leaveMulticastGroups (multicastAddresses : List L3Address) : Except SimulationError Sockets :=
  multicastAddresses.foldlM leaveMulticastGroup state

/-- The assertions at the start of the five calls for one interface. -/
def checkMulticastCall (interfaceId : ℤ) (multicastAddress : L3Address) :
    Except SimulationError Unit := do
  let ie ← state.2.getInterfaceById interfaceId
  throwIf (¬ie.isMulticast) (.assertion "ie && ie->isMulticast()")
  let isMulticast ← multicastAddress.isMulticast
  throwIf (¬isMulticast) (.assertion "multicastAddress.isMulticast()")

/-- The membership that three of the calls require, with its position. -/
def requireMembership (interfaceId : ℤ) (multicastAddress : L3Address)
    (filterMode : UdpSourceFilterMode) (notAMember wrongMode : String) :
    Except SimulationError (ℕ × MulticastMembership) :=
  match state.1.findMulticastMembership multicastAddress interfaceId with
  | none => .error (.runtimeError notAMember)
  | some (position, membership) =>
    if membership.filterMode ≠ filterMode then .error (.runtimeError wrongMode)
    else .ok (position, membership)

/-- The loop that erases the first occurrence of each source: the sources left, and whether any
was erased. -/
def eraseSources (sources : List L3Address) : List L3Address → List L3Address × Bool
  | [] => (sources, false)
  | source :: sourceList =>
    if source ∈ sources then ((eraseSources (sources.erase source) sourceList).1, true)
    else eraseSources sources sourceList

/-- The loop of `blockMulticastSources` and `joinMulticastSources`, which appends the sources that
are already there. -/
def appendSources (sources : List L3Address) : List L3Address → List L3Address × Bool
  | [] => (sources, false)
  | source :: sourceList =>
    if source ∈ sources then ((appendSources (sources ++ [source]) sourceList).1, true)
    else appendSources sources sourceList

/-- The sources of a membership are replaced and, if they have changed, reported. -/
def reportSources (position : ℕ) (membership : MulticastMembership)
    (sources : List L3Address × Bool) (oldFilterMode newFilterMode : McastSourceFilterMode) :
    Except SimulationError Sockets := do
  let sd := state.1.setMulticastMembership position { membership with sourceList := sources.1 }
  if sources.2 then
    let ift ← state.2.updateInterface membership.interfaceId fun ie ↦
      ie.changeMulticastGroupMembership membership.multicastAddress oldFilterMode
        membership.sourceList newFilterMode sources.1
    return (sd, ift)
  else
    return (sd, state.2)

def blockMulticastSources (state : Sockets) (interfaceId : ℤ) (multicastAddress : L3Address)
    (sourceList : List L3Address) : Except SimulationError Sockets := do
  checkMulticastCall state interfaceId multicastAddress
  let found ← requireMembership state interfaceId multicastAddress UDP_EXCLUDE_MCAST_SOURCES
    "Udp::blockMulticastSources(): not a member of %s group on interface '%s'"
    "Udp::blockMulticastSources(): socket was not joined to all sources of %s group on interface '%s'"
  reportSources state found.1 found.2 (appendSources found.2.sourceList sourceList)
    .MCAST_EXCLUDE_SOURCES .MCAST_EXCLUDE_SOURCES

def unblockMulticastSources (state : Sockets) (interfaceId : ℤ) (multicastAddress : L3Address)
    (sourceList : List L3Address) : Except SimulationError Sockets := do
  checkMulticastCall state interfaceId multicastAddress
  let found ← requireMembership state interfaceId multicastAddress UDP_EXCLUDE_MCAST_SOURCES
    "Udp::unblockMulticastSources(): not a member of %s group in interface '%s'"
    "Udp::unblockMulticastSources(): socket was not joined to all sources of %s group on interface '%s'"
  reportSources state found.1 found.2 (eraseSources found.2.sourceList sourceList)
    .MCAST_EXCLUDE_SOURCES .MCAST_EXCLUDE_SOURCES

def leaveMulticastSources (state : Sockets) (interfaceId : ℤ) (multicastAddress : L3Address)
    (sourceList : List L3Address) : Except SimulationError Sockets := do
  checkMulticastCall state interfaceId multicastAddress
  let found ← requireMembership state interfaceId multicastAddress UDP_INCLUDE_MCAST_SOURCES
    "Udp::leaveMulticastSources(): not a member of %s group in interface '%s'"
    "Udp::leaveMulticastSources(): socket was joined to all sources of %s group on interface '%s'"
  let sources := eraseSources found.2.sourceList sourceList
  -- the modes that are reported are those of the source
  let state ← reportSources state found.1 found.2 sources
    .MCAST_EXCLUDE_SOURCES .MCAST_EXCLUDE_SOURCES
  if sources.1 = [] then return (state.1.deleteMulticastMembership found.1, state.2)
  return state

/-- The membership of a group on an interface, which is added in INCLUDE mode when there is
none. -/
def findOrAddMembership (sd : SockDesc) (interfaceId : ℤ) (multicastAddress : L3Address) :
    SockDesc × ℕ × MulticastMembership :=
  match sd.findMulticastMembership multicastAddress interfaceId with
  | some found => (sd, found)
  | none =>
    let membership : MulticastMembership :=
      { interfaceId := interfaceId
        multicastAddress := multicastAddress
        filterMode := UDP_INCLUDE_MCAST_SOURCES }
    let added := sd.addMulticastMembership membership
    (added.2, added.1, membership)

def joinMulticastSources (state : Sockets) (interfaceId : ℤ) (multicastAddress : L3Address)
    (sourceList : List L3Address) : Except SimulationError Sockets := do
  checkMulticastCall state interfaceId multicastAddress
  let found := findOrAddMembership state.1 interfaceId multicastAddress
  throwIf (found.2.2.filterMode = UDP_EXCLUDE_MCAST_SOURCES)
    (.runtimeError "Udp::joinMulticastSources(): socket was joined to all sources of %s group on interface '%s'")
  reportSources (found.1, state.2) found.2.1 found.2.2
    (appendSources found.2.2.sourceList sourceList) .MCAST_INCLUDE_SOURCES .MCAST_INCLUDE_SOURCES

def setMulticastSourceFilter (interfaceId : ℤ) (multicastAddress : L3Address)
    (filterMode : UdpSourceFilterMode) (sourceList : List L3Address) :
    Except SimulationError Sockets := do
  checkMulticastCall state interfaceId multicastAddress
  let found := findOrAddMembership state.1 interfaceId multicastAddress
  let membership := found.2.2
  if membership.filterMode ≠ filterMode ∨ membership.sourceList ≠ sourceList then
    let sd := found.1.setMulticastMembership found.2.1
      { membership with
        filterMode := filterMode
        sourceList := sourceList }
    let ift ← state.2.updateInterface interfaceId fun ie ↦
      ie.changeMulticastGroupMembership multicastAddress membership.filterMode.toMcast
        membership.sourceList filterMode.toMcast sourceList
    return (sd, ift)
  return (found.1, state.2)

/-- The options of a socket that concern its multicast memberships. -/
inductive MulticastCall
  | joinMulticastGroups (multicastAddresses : List L3Address) (interfaceIds : List ℤ)
  | leaveMulticastGroups (multicastAddresses : List L3Address)
  | blockMulticastSources (interfaceId : ℤ) (multicastAddress : L3Address)
      (sourceList : List L3Address)
  | unblockMulticastSources (interfaceId : ℤ) (multicastAddress : L3Address)
      (sourceList : List L3Address)
  | leaveMulticastSources (interfaceId : ℤ) (multicastAddress : L3Address)
      (sourceList : List L3Address)
  | joinMulticastSources (interfaceId : ℤ) (multicastAddress : L3Address)
      (sourceList : List L3Address)
  | setMulticastSourceFilter (interfaceId : ℤ) (multicastAddress : L3Address)
      (filterMode : UdpSourceFilterMode) (sourceList : List L3Address)
deriving DecidableEq

/-- The call on a socket. -/
def MulticastCall.apply : MulticastCall → Except SimulationError Sockets
  | .joinMulticastGroups multicastAddresses interfaceIds =>
    Udp.joinMulticastGroups state multicastAddresses interfaceIds
  | .leaveMulticastGroups multicastAddresses => Udp.leaveMulticastGroups state multicastAddresses
  | .blockMulticastSources interfaceId multicastAddress sourceList =>
    Udp.blockMulticastSources state interfaceId multicastAddress sourceList
  | .unblockMulticastSources interfaceId multicastAddress sourceList =>
    Udp.unblockMulticastSources state interfaceId multicastAddress sourceList
  | .leaveMulticastSources interfaceId multicastAddress sourceList =>
    Udp.leaveMulticastSources state interfaceId multicastAddress sourceList
  | .joinMulticastSources interfaceId multicastAddress sourceList =>
    Udp.joinMulticastSources state interfaceId multicastAddress sourceList
  | .setMulticastSourceFilter interfaceId multicastAddress filterMode sourceList =>
    Udp.setMulticastSourceFilter state interfaceId multicastAddress filterMode sourceList

end Inet4.Udp
