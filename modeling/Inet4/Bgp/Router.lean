import Inet4.Ipv4.RoutingTable

/-!
# BGP route selection

`BgpRouter` turns an UPDATE message into an entry and compares it with the entry that it has for
the same network.  Entries are routes, and those that are selected are put into the IPv4 routing
table.  What is sent to the other sessions afterwards changes no table and is left out.
-/

namespace Inet4.Bgp

open Ipv4 (Ipv4Address Ipv4Route Ipv4RoutingTable RoutePtr)

inductive BgpSessionType
  | IGP
  | EGP
  | INCOMPLETE
deriving DecidableEq

def BgpSessionType.value : BgpSessionType → BitVec 8
  | .IGP => 0
  | .EGP => 1
  | .INCOMPLETE => 2

abbrev AsId := BitVec 16

abbrev SessionId := ℕ

/-- The path attributes; those that are not read are `other`. -/
inductive BgpUpdatePathAttributes
  | ORIGIN (value : BitVec 8)
  | AS_PATH (value : List (List AsId))
  | NEXT_HOP (value : Ipv4Address)
  | LOCAL_PREF (value : BitVec 32)
  | other

@[ext]
structure BgpUpdateNlri where
  length : BitVec 8
  nlriPrefix : Ipv4Address

structure BgpUpdateMessage where
  pathAttributes : List BgpUpdatePathAttributes
  nlri : List BgpUpdateNlri

structure BgpSession where
  type : BgpSessionType
  linkIntf : Option ℕ

/-- `IRoute::SourceType`. -/
inductive SourceType
  | MANUAL | IFACENETMASK | ROUTER_ADVERTISEMENT | OWN_ADV_PREFIX | ICMP_REDIRECT | RIP | OSPF | BGP
  | ZEBRA | MANET | MANET2 | DYMO | AODV | EIGRP | LISP | BABEL | ODR | UNKNOWN | ISIS
deriving DecidableEq

def dBGPExternal : ℕ := 20

def dBGPInternal : ℕ := 200

def dUnknown : ℕ := 255

def DEFAULT_COST : ℤ := 1

/-- `BgpRoutingTableEntry`.  The source type of a route object is kept in the tables. -/
structure BgpRoutingTableEntry extends Ipv4Route where
  pathType : BitVec 8 := BgpSessionType.INCOMPLETE.value
  asList : List AsId := []
  localPreference : ℤ := 0
  ibgpLearned : Bool := false
deriving DecidableEq

namespace BgpRoutingTableEntry

variable (entry : BgpRoutingTableEntry)

/-- What tells entries apart. -/
def network : Ipv4Address := entry.dest &&& entry.netmask

/-- The copy constructor from a route. -/
def ofRoute (entry : Ipv4Route) (ptr : RoutePtr) : BgpRoutingTableEntry where
  ptr := ptr
  dest := entry.dest
  netmask := entry.netmask
  gateway := entry.gateway
  interfacePtr := entry.interfacePtr
  adminDist := dBGPExternal
  metric := DEFAULT_COST

/-- One path attribute in `decisionProcess`; the local preference is an `int`. -/
def setAttribute : BgpUpdatePathAttributes → BgpRoutingTableEntry
  | .ORIGIN value => { entry with pathType := value }
  | .NEXT_HOP value => { entry with gateway := value }
  | .LOCAL_PREF value => { entry with localPreference := value.toInt }
  | _ => entry

/-- The administrative distance by the type of the session. -/
def setSessionType : BgpSessionType → BgpRoutingTableEntry
  | .IGP => { entry with adminDist := dBGPInternal, ibgpLearned := true }
  | .EGP => { entry with adminDist := dBGPExternal }
  | .INCOMPLETE => { entry with adminDist := dUnknown }

end BgpRoutingTableEntry

/-- The AS numbers of all AS paths of a message. -/
def BgpUpdateMessage.asPath (msg : BgpUpdateMessage) : List AsId :=
  msg.pathAttributes.flatMap fun attr ↦
    match attr with
    | .AS_PATH value => value.flatten
    | _ => []

/-- `isInTable`: the first entry with the same network. -/
def isInTable (rtTable : List BgpRoutingTableEntry) (entry : BgpRoutingTableEntry) :
    Option BgpRoutingTableEntry :=
  rtTable.find? fun entryCur ↦ entry.network = entryCur.network

def isInASList (ASList : List AsId) (entry : BgpRoutingTableEntry) : Bool :=
  ASList.any fun elem ↦ elem ∈ entry.asList

/-- `asLoopDetection`, which starts at the second AS number. -/
def asLoopDetection (entry : BgpRoutingTableEntry) (myAS : AsId) : Bool := myAS ∈ entry.asList.tail

/-- What UPDATE messages change: the tables, the source types of route objects and the number of
objects there have been. -/
structure Tables where
  bgpRoutingTable : List BgpRoutingTableEntry
  rt : Ipv4RoutingTable
  sourceType : RoutePtr → SourceType
  allocated : RoutePtr

def isDefaultRoute (entry : Ipv4Route) : Bool := entry.dest = 0#32 ∧ entry.netmask = 0#32

/-- A route that `isInRoutingTable` finds for an address. -/
def Covers (entry : Ipv4Route) (addr : Ipv4Address) : Prop :=
  entry.Matches addr ∧ ¬(isDefaultRoute entry = true ∧ addr ≠ 0#32)

instance (entry : Ipv4Route) (addr : Ipv4Address) : Decidable (Covers entry addr) :=
  inferInstanceAs (Decidable (_ ∧ _))

namespace Tables

variable (tables : Tables)

def isInRoutingTable (addr : Ipv4Address) : Option Ipv4Route :=
  tables.rt.routes.find? fun entry ↦ Covers entry addr

def ospfExist : Bool :=
  tables.rt.routes.any fun route ↦ tables.sourceType route.ptr = .OSPF

/-- Neither default routes nor routes of BGP make an address reachable. -/
def isReachable (addr : Ipv4Address) : Bool :=
  addr = 0#32 ∨ ∃ route ∈ tables.rt.routes, ¬isDefaultRoute route = true ∧
    tables.sourceType route.ptr ≠ .BGP ∧ addr &&& route.netmask = route.dest &&& route.netmask

/-- A new entry object. -/
def allocate : Tables :=
  { tables with
    sourceType := Function.update tables.sourceType tables.allocated .BGP
    allocated := tables.allocated + 1 }

def deleteBGPRoutingEntry (entry : BgpRoutingTableEntry) : Tables :=
  if tables.bgpRoutingTable.any fun it ↦ it.network = entry.network then
    { tables with
      bgpRoutingTable := tables.bgpRoutingTable.eraseP fun it ↦ it.network = entry.network
      rt := (tables.rt.deleteRoute entry.ptr).2 }
  else tables

/-- The tests in their order; true where the old entry stays. -/
def tieBreakingProcess (oldEntry entry : BgpRoutingTableEntry) : Bool × Tables :=
  if entry.localPreference > oldEntry.localPreference then
    (false, tables.deleteBGPRoutingEntry oldEntry)
  else if entry.asList.length < oldEntry.asList.length then
    (false, tables.deleteBGPRoutingEntry oldEntry)
  else if entry.pathType < oldEntry.pathType then
    (false, tables.deleteBGPRoutingEntry oldEntry)
  else (true, tables)

/-- `rt->addRoute(entry)`. -/
def addRoute (tables : Tables) (entry : BgpRoutingTableEntry) : Except Fault Tables := do
  let rt ← tables.rt.addRoute entry.toIpv4Route
  return { tables with rt := rt }

/-- `bgpRoutingTable.push_back(entry)`. -/
def push (entry : BgpRoutingTableEntry) : Tables :=
  { tables with bgpRoutingTable := tables.bgpRoutingTable ++ [entry] }

end Tables

/-- The members of the module that UPDATE messages do not change. -/
structure BgpRouter where
  myAsId : AsId
  /-- The parameter `localPreference`, which is stored in an `int`. -/
  localPreference : ℤ
  prefixListIN : List BgpRoutingTableEntry
  asListIN : List AsId
  sessions : SessionId → BgpSession
  redistributeInternal : Bool
  ospfModule : Bool

inductive DecisionResult
  | notChanged
  | ROUTE_DESTINATION_CHANGED
  | NEW_ROUTE_ADDED
deriving DecidableEq

namespace BgpRouter

variable (router : BgpRouter) (tables : Tables)

/-- A route of another protocol covers the destination: an entry from an internal session has a copy
of it added; `none` where the entry is given up. -/
def adoptRoute (type : BgpSessionType) (oldEntry : Ipv4Route) (localPreference : ℤ)
    : Except Fault (Option Tables) :=
  if type = .IGP then do
    let bgpEntry : BgpRoutingTableEntry :=
      { BgpRoutingTableEntry.ofRoute oldEntry tables.allocated with
        asList := [router.myAsId]
        pathType := BgpSessionType.IGP.value
        adminDist := dBGPInternal
        ibgpLearned := true
        localPreference := localPreference }
    let tables ← tables.allocate.addRoute bgpEntry
    return some tables
  else .ok none

variable (entry : BgpRoutingTableEntry)

/-- What is done with the IPv4 routing table before a new entry is stored. -/
def checkRoutingTable (type : BgpSessionType) :
    Except Fault (Option Tables) :=
  match tables.isInRoutingTable entry.dest with
  | some oldEntry =>
    if tables.sourceType oldEntry.ptr ≠ .BGP then
      router.adoptRoute tables type oldEntry entry.localPreference
    else .ok (some tables)
  | none =>
    if type = .IGP ∧ tables.isReachable entry.gateway = true then do
      let tables ← tables.addRoute entry
      return some tables
    else .ok (some tables)

/-- The insertion into OSPF, of which only the errors matter here. -/
def insertExternalRoute : Except Fault Unit :=
  if tables.ospfExist ∧ router.redistributeInternal then do
    throwIf (entry.interfacePtr = none) .runtimeError
    throwIf (router.ospfModule = false) .runtimeError
  else .ok ()

/-- A new entry from an external session. -/
def addExternal : Except Fault Tables := do
  let tables ← if tables.isReachable entry.gateway then tables.addRoute entry else .ok tables
  router.insertExternalRoute tables entry
  return tables

def decisionProcess (msg : BgpUpdateMessage) (entry : BgpRoutingTableEntry)
    (sessionIndex : SessionId) : Except Fault (DecisionResult × Tables) :=
  if (isInTable router.prefixListIN entry).isSome ∨ isInASList router.asListIN entry then
    .ok (.notChanged, tables)
  else
    let session := router.sessions sessionIndex
    let entry := (msg.pathAttributes.foldl .setAttribute entry).setSessionType session.type
    -- the interface is set before the entry gets into a table
    let linked : BgpRoutingTableEntry := { entry with interfacePtr := session.linkIntf }
    match isInTable tables.bgpRoutingTable entry with
    | some oldEntry =>
      let result := tables.tieBreakingProcess oldEntry entry
      if result.1 then .ok (.notChanged, result.2)
      else do
        let tables ← (result.2.push linked).addRoute linked
        return (.ROUTE_DESTINATION_CHANGED, tables)
    | none => do
      match ← router.checkRoutingTable tables linked session.type with
      | none => return (.notChanged, tables)
      | some tables =>
        let tables := tables.push linked
        let tables ← if session.type = .EGP then router.addExternal tables linked else .ok tables
        return (.NEW_ROUTE_ADDED, tables)

/-- The entry that `processMessage` makes before the decision process. -/
def newEntry (ptr : RoutePtr) (msg : BgpUpdateMessage) (nlri : BgpUpdateNlri) :
    BgpRoutingTableEntry where
  ptr := ptr
  dest := nlri.nlriPrefix
  netmask := Ipv4Address.makeNetmask nlri.length.toNat
  gateway := 0#32
  interfacePtr := none
  adminDist := dUnknown
  metric := DEFAULT_COST
  asList := msg.asPath
  localPreference := wrapInt router.localPreference

def processMessage (sessionIndex : SessionId) (msg : BgpUpdateMessage) :
    Except Fault (DecisionResult × Tables) :=
  match msg.nlri with
  | [] => .error .runtimeError
  | nlri :: _ => do
    throwIf (nlri.length.toNat > 32) .runtimeError
    let entry := router.newEntry tables.allocated msg nlri
    if asLoopDetection entry router.myAsId then return (.notChanged, tables.allocate)
    else router.decisionProcess tables.allocate msg entry sessionIndex

end BgpRouter

end Inet4.Bgp
