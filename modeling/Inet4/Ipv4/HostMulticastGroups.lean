import Inet4.L3Address

/-!
# The multicast groups an interface has joined

`Ipv4InterfaceData` keeps, for each multicast group, how many sockets include and how many exclude
each source, and the number of sockets in EXCLUDE mode.  The filter of the interface is computed
from these counts.  Sockets report a change by their old and their new filter.
-/

namespace Inet4.Ipv4

inductive McastSourceFilterMode
  | MCAST_INCLUDE_SOURCES
  | MCAST_EXCLUDE_SOURCES
deriving DecidableEq

open McastSourceFilterMode

structure Ipv4MulticastSourceList where
  filterMode : McastSourceFilterMode := MCAST_INCLUDE_SOURCES
  sources : List Ipv4Address := []
deriving DecidableEq

def Ipv4MulticastSourceList.isEmpty (list : Ipv4MulticastSourceList) : Bool :=
  list.filterMode = MCAST_INCLUDE_SOURCES ∧ list.sources = []

/-- `std::map<Ipv4Address, int>`. -/
abbrev Counts := AssocMap Ipv4Address ℤ

namespace Counts

/-- The keys in the order of an iteration over the map. -/
def keysInOrder (counts : Counts) : List Ipv4Address :=
  counts.keys.insertionSort fun first second ↦ first.toNat ≤ second.toNat

/-- One round of the loop over the old sources. -/
def release (counts : Counts) (source : Ipv4Address) : Except SimulationError Counts :=
  match counts.find source with
  | none => .error (.runtimeError "Inconsistent reference counts in Ipv4InterfaceData.")
  | some count => .ok (if count = 1 then counts.remove source else counts.assign source (count - 1))

/-- One round of the loop over the new sources. -/
def acquire (counts : Counts) (source : Ipv4Address) : Counts :=
  match counts.find source with
  | none => counts.assign source 1
  | some count => counts.assign source (count + 1)

end Counts

structure HostMulticastGroupData where
  multicastGroup : Ipv4Address
  includeCounts : Counts := ∅
  excludeCounts : Counts := ∅
  numOfExcludeModeSockets : ℤ := 0
  sourceList : Ipv4MulticastSourceList := {}
deriving DecidableEq

namespace HostMulticastGroupData

variable (entry : HostMulticastGroupData)

/-- The counts of the sockets in a mode. -/
def counts : McastSourceFilterMode → Counts
  | MCAST_INCLUDE_SOURCES => entry.includeCounts
  | MCAST_EXCLUDE_SOURCES => entry.excludeCounts

def setCounts (filterMode : McastSourceFilterMode) (counts : Counts) : HostMulticastGroupData :=
  match filterMode with
  | MCAST_INCLUDE_SOURCES => { entry with includeCounts := counts }
  | MCAST_EXCLUDE_SOURCES => { entry with excludeCounts := counts }

/-- The list that `updateSourceList` computes. -/
def computedSourceList : Ipv4MulticastSourceList :=
  if entry.numOfExcludeModeSockets = 0 then
    { filterMode := MCAST_INCLUDE_SOURCES
      sources := entry.includeCounts.keysInOrder }
  else
    { filterMode := MCAST_EXCLUDE_SOURCES
      sources := entry.excludeCounts.keysInOrder.filter fun source ↦
        entry.excludeCounts.find source = some entry.numOfExcludeModeSockets ∧
          source ∉ entry.includeCounts }

/-- The new entry and whether the filter mode or the source list has changed. -/
def updateSourceList : HostMulticastGroupData × Bool :=
  ({ entry with sourceList := entry.computedSourceList },
    entry.sourceList ≠ entry.computedSourceList)

/-- The number of EXCLUDE mode sockets after a change of mode. -/
def changeMode (oldFilterMode newFilterMode : McastSourceFilterMode) : HostMulticastGroupData :=
  match oldFilterMode, newFilterMode with
  | MCAST_INCLUDE_SOURCES, MCAST_EXCLUDE_SOURCES =>
    { entry with numOfExcludeModeSockets := entry.numOfExcludeModeSockets + 1 }
  | MCAST_EXCLUDE_SOURCES, MCAST_INCLUDE_SOURCES =>
    { entry with numOfExcludeModeSockets := entry.numOfExcludeModeSockets - 1 }
  | _, _ => entry

end HostMulticastGroupData

/-- The part of `Ipv4InterfaceData` that sockets change. -/
structure Ipv4InterfaceData where
  joinedMulticastGroups : List HostMulticastGroupData := []
deriving DecidableEq

namespace Ipv4InterfaceData

variable (data : Ipv4InterfaceData) (multicastAddress : Ipv4Address)

def findHostGroupData : Option HostMulticastGroupData :=
  data.joinedMulticastGroups.find? fun entry ↦ entry.multicastGroup = multicastAddress

/-- A write through the pointer to the first entry of a group. -/
def setHostGroupData (entry : HostMulticastGroupData) : Ipv4InterfaceData where
  joinedMulticastGroups :=
    data.joinedMulticastGroups.replaceF fun other ↦
      if other.multicastGroup = entry.multicastGroup then some entry else none

def removeHostGroupData : Ipv4InterfaceData where
  joinedMulticastGroups :=
    data.joinedMulticastGroups.eraseP fun entry ↦ entry.multicastGroup = multicastAddress

/-- The entry of a group, which is appended when there is none and the socket had no filter. -/
def findOrAddHostGroupData (oldFilterMode : McastSourceFilterMode)
    (oldSourceList : List Ipv4Address) :
    Except SimulationError (Ipv4InterfaceData × HostMulticastGroupData) :=
  match data.findHostGroupData multicastAddress with
  | some entry => .ok (data, entry)
  | none =>
    if oldFilterMode = MCAST_INCLUDE_SOURCES ∧ oldSourceList = [] then
      let entry := { multicastGroup := multicastAddress }
      .ok ({ joinedMulticastGroups := data.joinedMulticastGroups ++ [entry] }, entry)
    else
      .error (.assertion "oldFilterMode == MCAST_INCLUDE_SOURCES && oldSourceList.empty()")

/-- `changeMulticastGroupMembership`, without the signals about the change. -/
def changeMulticastGroupMembership (data : Ipv4InterfaceData) (multicastAddress : Ipv4Address)
    (oldFilterMode : McastSourceFilterMode) (oldSourceList : List Ipv4Address)
    (newFilterMode : McastSourceFilterMode) (newSourceList : List Ipv4Address) :
    Except SimulationError Ipv4InterfaceData := do
  throwIf (¬multicastAddress.isMulticast)
    (.runtimeError "Ipv4InterfaceData::changeMulticastGroupMembership(): multicast address expected, received %s.")
  let found ← data.findOrAddHostGroupData multicastAddress oldFilterMode oldSourceList
  let counts ← oldSourceList.foldlM Counts.release (found.2.counts oldFilterMode)
  let entry := found.2.setCounts oldFilterMode counts
  let entry := entry.setCounts newFilterMode
    (newSourceList.foldl Counts.acquire (entry.counts newFilterMode))
  let updated := (entry.changeMode oldFilterMode newFilterMode).updateSourceList
  let data := found.1.setHostGroupData updated.1
  if updated.2 ∧ updated.1.sourceList.isEmpty then
    return data.removeHostGroupData multicastAddress
  return data

def joinMulticastGroup : Except SimulationError Ipv4InterfaceData :=
  data.changeMulticastGroupMembership multicastAddress MCAST_INCLUDE_SOURCES []
    MCAST_EXCLUDE_SOURCES []

end Ipv4InterfaceData

end Inet4.Ipv4
