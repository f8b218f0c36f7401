import Inet4.Ipv4.Fragmentation
import Inet4.Machine
import Inet4.SortedVector

/-!
# The IPv4 routing table

`Ipv4RoutingTable` keeps its unicast routes in a vector with the best route in front and remembers
the answers of earlier lookups in a cache.  A route in the table may be modified; its setters tell
the table, which puts the route in its place again when the order depends on the field.  Whether a
route is valid changes without a notice to the table.
-/

namespace Inet4.Ipv4

namespace Ipv4Address

def isUnspecified (addr : Ipv4Address) : Bool := addr = 0#32

def getNetmaskLength (addr : Ipv4Address) : ℕ :=
  match (List.range 32).find? fun i ↦ addr.getLsbD i with
  | some i => 32 - i
  | none => 0

def makeNetmask (length : ℕ) : Ipv4Address :=
  if length ≥ 32 then 0xffffffff#32 else ~~~(0xffffffff#32 >>> length)

def isValidNetmask (addr : Ipv4Address) : Bool := addr = makeNetmask addr.getNetmaskLength

def maskedAddrAreEqual (addr1 addr2 netmask : Ipv4Address) : Bool :=
  (addr1 ^^^ addr2) &&& netmask = 0#32

end Ipv4Address

/-- A pointer to a route. -/
abbrev RoutePtr := ℕ

/-- `Ipv4Route` with the fields that the table reads and the setters write.  `isValid` is the
present answer of the virtual function of this name, which a derived class may make depend on
time. -/
structure Ipv4Route where
  /-- The address of the object. -/
  ptr : RoutePtr
  dest : Ipv4Address
  netmask : Ipv4Address
  gateway : Ipv4Address
  interfacePtr : Option ℕ
  adminDist : ℕ
  metric : ℤ
  isValid : Bool := true
deriving DecidableEq

namespace Ipv4Route

/-- A destination is in the prefix of a route. -/
def Matches (route : Ipv4Route) (dest : Ipv4Address) : Prop :=
  Ipv4Address.maskedAddrAreEqual dest route.dest route.netmask = true

instance (route : Ipv4Route) (dest : Ipv4Address) : Decidable (route.Matches dest) :=
  inferInstanceAs (Decidable (_ = _))

def getPrefixLength (route : Ipv4Route) : ℕ := route.netmask.getNetmaskLength

end Ipv4Route

/-- The field codes of `changed` that setters of the table's routes use. -/
inductive ChangeCode
  | F_DESTINATION
  | F_PREFIX_LENGTH
  | F_NEXTHOP
  | F_IFACE
  | F_ADMINDIST
  | F_METRIC
deriving DecidableEq

structure Ipv4RoutingTable where
  useAdminDist : Bool := false
  routes : List Ipv4Route := []
  routingCache : AssocMap Ipv4Address (Option RoutePtr) := ∅

namespace Ipv4RoutingTable

variable (table : Ipv4RoutingTable)

def invalidateCache : Ipv4RoutingTable :=
  { table with routingCache := ∅ }

/-- The object behind a pointer, when it is in the table. -/
def routeAt (ptr : RoutePtr) : Option Ipv4Route :=
  table.routes.find? fun route ↦ route.ptr = ptr

/-- The search of `findBestMatchingRoute` through the vector. -/
def scan (dest : Ipv4Address) : Option Ipv4Route :=
  table.routes.find? fun e ↦ e.isValid && decide (e.Matches dest)

/-- The part of `findBestMatchingRoute` after the cache had no usable answer. -/
def lookUp (dest : Ipv4Address) : Option RoutePtr × Ipv4RoutingTable :=
  let bestRoute := (table.scan dest).map (·.ptr)
  (bestRoute, { table with routingCache := table.routingCache.assign dest bestRoute })

/-- A cached pointer is dereferenced, so that the route has to be still there. -/
def findBestMatchingRoute (dest : Ipv4Address) :
    Except Fault (Option RoutePtr × Ipv4RoutingTable) :=
  match table.routingCache.find dest with
  | none => .ok (table.lookUp dest)
  | some none => .ok (none, table)
  | some (some ptr) =>
    match table.routeAt ptr with
    | none => .error .undefinedBehaviour
    | some route => .ok (if route.isValid then (some ptr, table) else table.lookUp dest)

/-- The last valid one of the default routes, which are at the end of the vector. -/
def getDefaultRoute : Option Ipv4Route :=
  (table.routes.reverse.takeWhile fun route ↦ route.netmask.isUnspecified).find? (·.isValid)

def routeLessThan (useAdminDist : Bool) (a b : Ipv4Route) : Bool :=
  if a.netmask ≠ b.netmask then b.netmask < a.netmask
  else if a.dest ≠ b.dest then a.dest < b.dest
  else if useAdminDist = true ∧ a.adminDist ≠ b.adminDist then a.adminDist < b.adminDist
  else a.metric < b.metric

variable (entry : RoutePtr)

def internalRemoveRoute : Option Ipv4Route × Ipv4RoutingTable :=
  match table.routeAt entry with
  | none => (none, table)
  | some route =>
    (some route,
      { table with routes := table.routes.eraseP fun e ↦ e.ptr = entry }.invalidateCache)

/-- The route goes back to the caller. -/
def removeRoute : Option Ipv4Route × Ipv4RoutingTable :=
  table.internalRemoveRoute entry

def deleteRoute : Bool × Ipv4RoutingTable :=
  let (route, table) := table.internalRemoveRoute entry
  (route.isSome, table)

/-- A new default route replaces the old one. -/
def replaceDefaultRoute (entry : Ipv4Route) : Ipv4RoutingTable :=
  if entry.netmask.isUnspecified then
    match table.getDefaultRoute with
    | none => table
    | some oldDefaultRoute => (table.deleteRoute oldDefaultRoute.ptr).2
  else table

def internalAddRoute (entry : Ipv4Route) : Except Fault Ipv4RoutingTable :=
  if ¬ entry.netmask.isValidNetmask then
    .error .runtimeError
  else if entry.netmask ≠ 0#32 ∧ entry.dest &&& entry.netmask = 0#32 then
    .error .runtimeError
  else if entry.dest &&& ~~~entry.netmask ≠ 0#32 then
    .error .runtimeError
  else if entry.interfacePtr = none then
    .error .runtimeError
  else
    let table := table.replaceDefaultRoute entry
    let routes :=
      SortedVector.insertUpper (routeLessThan table.useAdminDist) entry table.routes
    .ok { table with routes }.invalidateCache

def addRoute (entry : Ipv4Route) : Except Fault Ipv4RoutingTable :=
  table.internalAddRoute entry

/-- The data structures of the table depend on the destination, the netmask and the metric. -/
def routeChanged (fieldCode : ChangeCode) : Except Fault Ipv4RoutingTable :=
  if fieldCode = .F_DESTINATION ∨ fieldCode = .F_PREFIX_LENGTH ∨ fieldCode = .F_METRIC then
    match table.internalRemoveRoute entry with
    | (none, _) => .error .runtimeError
    | (some route, table) => table.internalAddRoute route
  else .ok table

/-- The invalid routes are erased, and the cache is cleared with each of them. -/
def purge : Ipv4RoutingTable :=
  if table.routes.all (·.isValid) then table
  else { table with routes := table.routes.filter (·.isValid) }.invalidateCache

/-- A write through a pointer to a route of the table. -/
def write (f : Ipv4Route → Ipv4Route) : Ipv4RoutingTable :=
  { table with
    routes := table.routes.map fun route ↦ if route.ptr = entry then f route else route }

/-- A setter of `Ipv4Route`: a new value is stored and the table is told. -/
def setField {α : Type} [DecidableEq α] (get : Ipv4Route → α) (put : Ipv4Route → α → Ipv4Route)
    (fieldCode : ChangeCode) (table : Ipv4RoutingTable) (entry : RoutePtr) (value : α) :
    Except Fault Ipv4RoutingTable :=
  match table.routeAt entry with
  | none => .ok table
  | some route =>
    if get route ≠ value then
      (table.write entry fun route ↦ put route value).routeChanged entry fieldCode
    else .ok table

def setDestination : Ipv4RoutingTable → RoutePtr → Ipv4Address → Except Fault Ipv4RoutingTable :=
  setField (·.dest) (fun route dest ↦ { route with dest }) .F_DESTINATION

def setNetmask : Ipv4RoutingTable → RoutePtr → Ipv4Address → Except Fault Ipv4RoutingTable :=
  setField (·.netmask) (fun route netmask ↦ { route with netmask }) .F_PREFIX_LENGTH

def setGateway : Ipv4RoutingTable → RoutePtr → Ipv4Address → Except Fault Ipv4RoutingTable :=
  setField (·.gateway) (fun route gateway ↦ { route with gateway }) .F_NEXTHOP

def setInterface : Ipv4RoutingTable → RoutePtr → Option ℕ → Except Fault Ipv4RoutingTable :=
  setField (·.interfacePtr) (fun route interfacePtr ↦ { route with interfacePtr }) .F_IFACE

def setAdminDist : Ipv4RoutingTable → RoutePtr → ℕ → Except Fault Ipv4RoutingTable :=
  setField (·.adminDist) (fun route adminDist ↦ { route with adminDist }) .F_ADMINDIST

def setMetric : Ipv4RoutingTable → RoutePtr → ℤ → Except Fault Ipv4RoutingTable :=
  setField (·.metric) (fun route metric ↦ { route with metric }) .F_METRIC

/-- Time passes or a protocol writes to its routes: `isValid` answers anew for every route. -/
def revalidate (isValid : RoutePtr → Bool) : Ipv4RoutingTable :=
  { table with
    routes := table.routes.map fun route ↦ { route with isValid := isValid route.ptr } }

inductive Event
  | addRoute (entry : Ipv4Route)
  | removeRoute (entry : RoutePtr)
  | deleteRoute (entry : RoutePtr)
  | purge
  | findBestMatchingRoute (dest : Ipv4Address)
  | setDestination (entry : RoutePtr) (dest : Ipv4Address)
  | setNetmask (entry : RoutePtr) (netmask : Ipv4Address)
  | setGateway (entry : RoutePtr) (gateway : Ipv4Address)
  | setInterface (entry : RoutePtr) (interfacePtr : Option ℕ)
  | setAdminDist (entry : RoutePtr) (adminDist : ℕ)
  | setMetric (entry : RoutePtr) (metric : ℤ)
  | revalidate (isValid : RoutePtr → Bool)

def handle : Event → Except Fault Ipv4RoutingTable
  | .addRoute entry => table.addRoute entry
  | .removeRoute entry => .ok (table.removeRoute entry).2
  | .deleteRoute entry => .ok (table.deleteRoute entry).2
  | .purge => .ok table.purge
  | .findBestMatchingRoute dest => (table.findBestMatchingRoute dest).map (·.2)
  | .setDestination entry dest => table.setDestination entry dest
  | .setNetmask entry netmask => table.setNetmask entry netmask
  | .setGateway entry gateway => table.setGateway entry gateway
  | .setInterface entry interfacePtr => table.setInterface entry interfacePtr
  | .setAdminDist entry adminDist => table.setAdminDist entry adminDist
  | .setMetric entry metric => table.setMetric entry metric
  | .revalidate isValid => .ok (table.revalidate isValid)

/-- An event the callers may deliver: the table owns its routes, so that a route it holds is not
added again. -/
def Enabled : Event → Prop
  | .addRoute entry => ∀ route ∈ table.routes, route.ptr ≠ entry.ptr
  | _ => True

instance (table : Ipv4RoutingTable) : (event : Event) → Decidable (table.Enabled event)
  | .addRoute _ => inferInstanceAs (Decidable (∀ _ ∈ _, _))
  | .removeRoute _ | .deleteRoute _ | .purge | .findBestMatchingRoute _ | .setDestination ..
  | .setNetmask .. | .setGateway .. | .setInterface .. | .setAdminDist .. | .setMetric ..
  | .revalidate _ => isTrue trivial

def machine : Machine Ipv4RoutingTable Event Fault where
  Enabled := Enabled
  handle := handle

end Ipv4RoutingTable

end Inet4.Ipv4
