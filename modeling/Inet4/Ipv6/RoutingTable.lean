import Inet4.Kernel
import Inet4.Machine
import Mathlib.Data.BitVec

/-!
# The IPv6 routing table and its destination cache

`Ipv6RoutingTable` keeps its routes sorted, so that the first one that matches is the best one, and
remembers next hops in a destination cache.  Routes may have an expiry time; an expired route is
found by the search for the longest prefix, which throws it out when it came from a router
advertisement.  A new route purges the destination cache.
-/

namespace Inet4.Ipv6

abbrev Ipv6Address := BitVec 128

/-- `Ipv6Address::UNSPECIFIED_ADDRESS`. -/
def unspecifiedAddress : Ipv6Address := 0

/-- `Ipv6Address::constructMask`. -/
def constructMask (prefixLength : Fin 129) : Ipv6Address :=
  BitVec.allOnes 128 <<< (128 - prefixLength.val)

/-- `Ipv6Address::matches`. -/
def addressMatches (address destPrefix : Ipv6Address) (prefixLength : Fin 129) : Bool :=
  (address ^^^ destPrefix) &&& constructMask prefixLength = 0

/-- `IRoute::SourceType`. -/
inductive SourceType
  | MANUAL | IFACENETMASK | ROUTER_ADVERTISEMENT | OWN_ADV_PREFIX | ICMP_REDIRECT | RIP | OSPF | BGP
  | ZEBRA | MANET | MANET2 | DYMO | AODV | EIGRP | LISP | BABEL | ODR | UNKNOWN | ISIS
  deriving DecidableEq, Repr

/-- A pointer to a route. -/
abbrev RoutePtr := ℕ

/-- `Ipv6Route::dDirectlyConnected`. -/
def dDirectlyConnected : ℕ := 0

/-- `Ipv6Route::dUnknown`. -/
def dUnknown : ℕ := 255

/-- `Ipv6Route`, with the values of its constructor. -/
structure Ipv6Route where
  /-- The address of the object. -/
  ptr : RoutePtr
  destPrefix : Ipv6Address
  prefixLength : Fin 129
  sourceType : SourceType
  interfaceId : Option ℤ := none
  nextHop : Ipv6Address := unspecifiedAddress
  expiryTime : SimTime := 0
  metric : ℤ := 0
  adminDist : ℕ := dUnknown
  deriving DecidableEq, Repr

namespace Ipv6Route

variable (route : Ipv6Route)

/-- A destination is in the prefix of a route. -/
def Matches (dest : Ipv6Address) : Prop :=
  addressMatches dest route.destPrefix route.prefixLength = true

instance (route : Ipv6Route) (dest : Ipv6Address) : Decidable (route.Matches dest) :=
  inferInstanceAs (Decidable (_ = _))

/-- The lifetime of a route is over; 0 represents infinity. -/
def Expired (now : SimTime) : Prop :=
  now > route.expiryTime ∧ route.expiryTime ≠ 0

instance (route : Ipv6Route) (now : SimTime) : Decidable (route.Expired now) :=
  inferInstanceAs (Decidable (_ ∧ _))

/-- The next hop to a destination, which is the destination itself on a directly connected link. -/
def nextHopTo (dest : Ipv6Address) : Ipv6Address :=
  if route.nextHop = unspecifiedAddress then dest else route.nextHop

/-- The id of the interface, -1 without an interface. -/
def outInterfaceId : ℤ := route.interfaceId.getD (-1)

end Ipv6Route

/-- `Ipv6RoutingTable::DestCacheEntry`. -/
structure DestCacheEntry where
  interfaceId : ℤ := -1
  nextHopAddr : Ipv6Address
  expiryTime : SimTime
  deriving DecidableEq, Repr

namespace DestCacheEntry

/-- The lifetime of an entry is over. -/
def Expired (entry : DestCacheEntry) (now : SimTime) : Prop :=
  entry.expiryTime > 0 ∧ now > entry.expiryTime

instance (entry : DestCacheEntry) (now : SimTime) : Decidable (entry.Expired now) :=
  inferInstanceAs (Decidable (_ ∧ _))

end DestCacheEntry

/-- The field codes of `changed`. -/
inductive ChangeCode
  | F_DESTINATION | F_PREFIX_LENGTH | F_NEXTHOP | F_IFACE | F_TYPE | F_ADMINDIST | F_METRIC
  | F_EXPIRYTIME
  deriving DecidableEq, Repr

/-- A call of a setter of `Ipv6Route`. -/
inductive Setter
  | setDestination (dest : Ipv6Address)
  | setPrefixLength (prefixLength : Fin 129)
  | setNextHop (nextHop : Ipv6Address)
  | setInterface (interfaceId : Option ℤ)
  | setSourceType (sourceType : SourceType)
  | setAdminDist (adminDist : ℕ)
  | setMetric (metric : ℤ)
  | setExpiryTime (expiryTime : SimTime)
  deriving DecidableEq, Repr

namespace Setter

def write : Setter → Ipv6Route → Ipv6Route
  | setDestination destPrefix, route => { route with destPrefix }
  | setPrefixLength prefixLength, route => { route with prefixLength }
  | setNextHop nextHop, route => { route with nextHop }
  | setInterface interfaceId, route => { route with interfaceId }
  | setSourceType sourceType, route => { route with sourceType }
  | setAdminDist adminDist, route => { route with adminDist }
  | setMetric metric, route => { route with metric }
  | setExpiryTime expiryTime, route => { route with expiryTime }

def fieldCode : Setter → ChangeCode
  | setDestination _ => .F_DESTINATION
  | setPrefixLength _ => .F_PREFIX_LENGTH
  | setNextHop _ => .F_NEXTHOP
  | setInterface _ => .F_IFACE
  | setSourceType _ => .F_TYPE
  | setAdminDist _ => .F_ADMINDIST
  | setMetric _ => .F_METRIC
  | setExpiryTime _ => .F_EXPIRYTIME

end Setter

structure Ipv6RoutingTable where
  isrouter : Bool := false
  useAdminDist : Bool := false
  routeList : List Ipv6Route := []
  destCache : AssocMap Ipv6Address DestCacheEntry := ∅

/-- `Ipv6RoutingTable::routeLessThan`. -/
def routeLessThan (useAdminDist : Bool) (a b : Ipv6Route) : Bool :=
  if a.prefixLength ≠ b.prefixLength then b.prefixLength < a.prefixLength
  else if useAdminDist = true ∧ a.adminDist ≠ b.adminDist then a.adminDist < b.adminDist
  else a.metric < b.metric

/-- The order in which `std::stable_sort` arranges the routes. -/
def InFront (useAdminDist : Bool) (a b : Ipv6Route) : Prop := routeLessThan useAdminDist b a = false

instance (useAdminDist : Bool) : DecidableRel (InFront useAdminDist) := fun a b ↦
  inferInstanceAs (Decidable (routeLessThan useAdminDist b a = false))

namespace Ipv6RoutingTable

variable (table : Ipv6RoutingTable) (ptr : RoutePtr)

/-- The object behind a pointer, when it is in the table. -/
def routeAt : Option Ipv6Route :=
  table.routeList.find? fun route ↦ route.ptr = ptr

/-- `lookupDestCache`: the next hop and the interface, -1 when there is no entry. -/
def lookupDestCache (now : SimTime) (dest : Ipv6Address) : (Ipv6Address × ℤ) × Ipv6RoutingTable :=
  match table.destCache.find dest with
  | none => ((unspecifiedAddress, -1), table)
  | some entry =>
    if entry.Expired now then
      ((unspecifiedAddress, -1), { table with destCache := table.destCache.remove dest })
    else ((entry.nextHopAddr, entry.interfaceId), table)

def updateDestCache (dest nextHopAddr : Ipv6Address) (interfaceId : ℤ) (expiryTime : SimTime)
    : Ipv6RoutingTable :=
  { table with destCache := table.destCache.assign dest ⟨interfaceId, nextHopAddr, expiryTime⟩ }

def purgeDestCache : Ipv6RoutingTable := { table with destCache := ∅ }

def purgeDestCacheEntriesToNeighbour (nextHopAddr : Ipv6Address) (interfaceId : ℤ)
    : Ipv6RoutingTable :=
  { table with
    destCache := table.destCache.removeIf fun entry ↦
      entry.interfaceId = interfaceId && entry.nextHopAddr = nextHopAddr }

variable (interfaceId : ℤ)

def purgeDestCacheForInterfaceId : Ipv6RoutingTable :=
  { table with destCache := table.destCache.removeIf fun entry ↦ entry.interfaceId = interfaceId }

/-- The loop of `doLongestPrefixMatch`, from an iterator on: the route that is found, and what is
left of the routes. -/
def matchLoop (now : SimTime) (dest : Ipv6Address) :
    List Ipv6Route → Except SimulationError (Option Ipv6Route × List Ipv6Route)
  | [] => .ok (none, [])
  | route :: rest =>
    if route.Matches dest then
      if route.Expired now then
        if route.sourceType = .ROUTER_ADVERTISEMENT then matchLoop now dest rest
        -- the iterator stays at the expired route
        else .error .notReturned
      else .ok (some route, route :: rest)
    else (matchLoop now dest rest).map fun result ↦ (result.1, route :: result.2)

def doLongestPrefixMatch (now : SimTime) (dest : Ipv6Address) :
    Except SimulationError (Option Ipv6Route × Ipv6RoutingTable) :=
  (matchLoop now dest table.routeList).map fun result ↦
    (result.1, { table with routeList := result.2 })

def internalAddRoute (route : Ipv6Route) : Ipv6RoutingTable :=
  { table with
    routeList := (table.routeList ++ [route]).insertionSort (InFront table.useAdminDist) }

def addRoute (route : Ipv6Route) : Ipv6RoutingTable :=
  (table.internalAddRoute route).purgeDestCache

/-- Routes are deleted by `internalDeleteRoute` or `internalRemoveRoute`. -/
def deleteRoutesIf (p : Ipv6Route → Bool) : Ipv6RoutingTable :=
  { table with routeList := table.routeList.filter fun route ↦ !p route }

/-- `removeRoute`; the caller keeps the route. -/
def removeRoute : Ipv6RoutingTable :=
  table.deleteRoutesIf fun route ↦ route.ptr = ptr

def deleteRoute : Ipv6RoutingTable :=
  table.deleteRoutesIf fun route ↦ route.ptr = ptr

def deleteDefaultRoutes : Ipv6RoutingTable :=
  table.deleteRoutesIf fun route ↦
    route.interfaceId = some interfaceId && route.prefixLength = 0

def deletePrefixes : Ipv6RoutingTable :=
  table.deleteRoutesIf fun route ↦
    route.interfaceId = some interfaceId && 0 < route.prefixLength

def deleteAllRoutes : Ipv6RoutingTable :=
  table.deleteRoutesIf fun _ ↦ true

def deleteInterfaceRoutes : Ipv6RoutingTable :=
  table.deleteRoutesIf fun route ↦ route.interfaceId = some interfaceId

/-- `receiveSignal`, when an interface went down. -/
def interfaceDown : Ipv6RoutingTable :=
  (table.deleteInterfaceRoutes interfaceId).purgeDestCacheForInterfaceId interfaceId

/-- `deleteOnLinkPrefix`: the first such route is deleted. -/
def deleteOnLinkPrefix (destPrefix : Ipv6Address) (prefixLength : Fin 129) : Ipv6RoutingTable :=
  match table.routeList.find? fun route ↦ route.sourceType = .ROUTER_ADVERTISEMENT &&
      route.destPrefix = destPrefix && route.prefixLength = prefixLength with
  | none => table
  | some route => table.deleteRoutesIf fun other ↦ other.ptr = route.ptr

/-- A write through a pointer to a route of the table. -/
def write (f : Ipv6Route → Ipv6Route) : Ipv6RoutingTable :=
  { table with
    routeList := table.routeList.map fun route ↦ if route.ptr = ptr then f route else route }

def routeChanged (fieldCode : ChangeCode) : Ipv6RoutingTable :=
  if fieldCode = .F_DESTINATION ∨ fieldCode = .F_PREFIX_LENGTH ∨ fieldCode = .F_METRIC then
    match table.routeAt ptr with
    | none => table
    | some route => (table.removeRoute ptr).internalAddRoute route
  else table

/-- A setter is called on a route of the table: when the value is a new one, it is stored and the
table is told. -/
def setField (setter : Setter) : Ipv6RoutingTable :=
  match table.routeAt ptr with
  | none => table
  | some route =>
    if setter.write route = route then table
    else (table.write ptr setter.write).routeChanged ptr setter.fieldCode

/-- `addOrUpdateOnLinkPrefix` and `addOrUpdateOwnAdvPrefix`, which differ in the source of the
route; `ptr` is the address of the route that is created when there is none. -/
def addOrUpdatePrefix (sourceType : SourceType) (table : Ipv6RoutingTable) (ptr : RoutePtr)
    (destPrefix : Ipv6Address) (prefixLength : Fin 129) (interfaceId : ℤ) (expiryTime : SimTime) :
    Ipv6RoutingTable :=
  match table.routeList.find? fun route ↦ route.sourceType = sourceType &&
      route.destPrefix = destPrefix && route.prefixLength = prefixLength with
  | none => table.addRoute
      { ptr, destPrefix, prefixLength, sourceType, expiryTime
        interfaceId := some interfaceId
        metric := 0
        adminDist := dDirectlyConnected }
  | some route =>
    (table.setField route.ptr (.setInterface (some interfaceId))).setField route.ptr
      (.setExpiryTime expiryTime)

def addOrUpdateOnLinkPrefix : Ipv6RoutingTable → RoutePtr → Ipv6Address → Fin 129 → ℤ → SimTime →
    Ipv6RoutingTable :=
  addOrUpdatePrefix .ROUTER_ADVERTISEMENT

def addOrUpdateOwnAdvPrefix : Ipv6RoutingTable → RoutePtr → Ipv6Address → Fin 129 → ℤ → SimTime →
    Ipv6RoutingTable :=
  addOrUpdatePrefix .OWN_ADV_PREFIX

end Ipv6RoutingTable

/-- The IPv6 module of a node and its routing table, at some time. -/
structure Node where
  rt : Ipv6RoutingTable
  now : SimTime
  numUnroutable : ℕ := 0

/-- What `determineOutputInterface` decides about a datagram. -/
inductive Decision
  /-- It returns true, with the next hop and the interface. -/
  | output (nextHop : Ipv6Address) (interfaceId : ℤ)
  /-- A router sends an ICMPv6 error. -/
  | destinationUnreachable
  /-- A host passes the datagram to Neighbour Discovery. -/
  | neighbourDiscovery
  deriving DecidableEq, Repr

/-- `determineOutputInterface`, when the destination cache has no answer. -/
def Node.searchOutputInterface (node : Node) (dest : Ipv6Address) :
    Except SimulationError (Decision × Node) := do
  let found ← node.rt.doLongestPrefixMatch node.now dest
  match found.1 with
  | none =>
    if found.2.isrouter then
      return (.destinationUnreachable,
        { node with rt := found.2, numUnroutable := node.numUnroutable + 1 })
    else return (.neighbourDiscovery, { node with rt := found.2 })
  | some route =>
    return (.output (route.nextHopTo dest) route.outInterfaceId,
      { node with
        rt := found.2.updateDestCache dest (route.nextHopTo dest) route.outInterfaceId
          route.expiryTime })

def Node.determineOutputInterface (node : Node) (dest : Ipv6Address) :
    Except SimulationError (Decision × Node) :=
  let cached := node.rt.lookupDestCache node.now dest
  if cached.1.2 = -1 then { node with rt := cached.2 }.searchOutputInterface dest
  else .ok (.output cached.1.1 cached.1.2, { node with rt := cached.2 })

/-- What happens to the routing table. -/
inductive Event
  | determineOutputInterface (dest : Ipv6Address)
  | addRoute (route : Ipv6Route)
  | addOrUpdateOnLinkPrefix (ptr : RoutePtr) (destPrefix : Ipv6Address) (prefixLength : Fin 129)
      (interfaceId : ℤ) (expiryTime : SimTime)
  | addOrUpdateOwnAdvPrefix (ptr : RoutePtr) (destPrefix : Ipv6Address) (prefixLength : Fin 129)
      (interfaceId : ℤ) (expiryTime : SimTime)
  | deleteOnLinkPrefix (destPrefix : Ipv6Address) (prefixLength : Fin 129)
  | removeRoute (ptr : RoutePtr)
  | deleteRoute (ptr : RoutePtr)
  | setField (ptr : RoutePtr) (setter : Setter)
  | deleteDefaultRoutes (interfaceId : ℤ)
  | deletePrefixes (interfaceId : ℤ)
  | deleteAllRoutes
  | interfaceDeleted (interfaceId : ℤ)
  | interfaceDown (interfaceId : ℤ)
  | purgeDestCache
  | purgeDestCacheEntriesToNeighbour (nextHopAddr : Ipv6Address) (interfaceId : ℤ)
  | purgeDestCacheForInterfaceId (interfaceId : ℤ)
  | elapse (duration : SimTime)
  deriving DecidableEq, Repr

/-- What an event other than a lookup does to the table. -/
def Ipv6RoutingTable.change (table : Ipv6RoutingTable) : Event → Ipv6RoutingTable
  | .addRoute route => table.addRoute route
  | .addOrUpdateOnLinkPrefix ptr destPrefix prefixLength interfaceId expiryTime =>
    table.addOrUpdateOnLinkPrefix ptr destPrefix prefixLength interfaceId expiryTime
  | .addOrUpdateOwnAdvPrefix ptr destPrefix prefixLength interfaceId expiryTime =>
    table.addOrUpdateOwnAdvPrefix ptr destPrefix prefixLength interfaceId expiryTime
  | .deleteOnLinkPrefix destPrefix prefixLength => table.deleteOnLinkPrefix destPrefix prefixLength
  | .removeRoute ptr => table.removeRoute ptr
  | .deleteRoute ptr => table.deleteRoute ptr
  | .setField ptr setter => table.setField ptr setter
  | .deleteDefaultRoutes interfaceId => table.deleteDefaultRoutes interfaceId
  | .deletePrefixes interfaceId => table.deletePrefixes interfaceId
  | .deleteAllRoutes => table.deleteAllRoutes
  | .interfaceDeleted interfaceId => table.deleteInterfaceRoutes interfaceId
  | .interfaceDown interfaceId => table.interfaceDown interfaceId
  | .purgeDestCache => table.purgeDestCache
  | .purgeDestCacheEntriesToNeighbour nextHopAddr interfaceId =>
    table.purgeDestCacheEntriesToNeighbour nextHopAddr interfaceId
  | .purgeDestCacheForInterfaceId interfaceId => table.purgeDestCacheForInterfaceId interfaceId
  | .determineOutputInterface _ | .elapse _ => table

/-- The simulated node under one event. -/
def Node.handle (node : Node) : Event → Except SimulationError Node
  | .determineOutputInterface dest => (node.determineOutputInterface dest).map Prod.snd
  | .elapse duration => .ok { node with now := node.now + duration }
  | e => .ok { node with rt := node.rt.change e }

/-- The address of a new route is not that of a route in the table, and time does not run
backwards. -/
def Node.Enabled (node : Node) : Event → Prop
  | .addRoute route => ∀ other ∈ node.rt.routeList, other.ptr ≠ route.ptr
  | .addOrUpdateOnLinkPrefix ptr .. | .addOrUpdateOwnAdvPrefix ptr .. =>
    ∀ other ∈ node.rt.routeList, other.ptr ≠ ptr
  | .elapse duration => 0 ≤ duration
  | _ => True

instance (node : Node) : (e : Event) → Decidable (node.Enabled e)
  | .addRoute _ | .addOrUpdateOnLinkPrefix _ .. | .addOrUpdateOwnAdvPrefix _ .. =>
    inferInstanceAs (Decidable (∀ _ ∈ _, _))
  | .elapse _ => inferInstanceAs (Decidable (_ ≤ _))
  | .determineOutputInterface _ | .deleteOnLinkPrefix .. | .removeRoute _ | .deleteRoute _
  | .setField .. | .deleteDefaultRoutes _ | .deletePrefixes _ | .deleteAllRoutes
  | .interfaceDeleted _ | .interfaceDown _ | .purgeDestCache
  | .purgeDestCacheEntriesToNeighbour .. | .purgeDestCacheForInterfaceId _ => isTrue trivial

def machine : Machine Node Event SimulationError where
  Enabled := Node.Enabled
  handle  := Node.handle

instance (node : Node) (e : Event) : Decidable (machine.Enabled node e) :=
  inferInstanceAs (Decidable (node.Enabled e))

end Inet4.Ipv6
