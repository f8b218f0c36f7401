import Inet4.Kernel

/-!
# A RIP router

The table of `Rip` and what the module does with requests, responses and its timers.  A route of the
table refers to a route of the host, which is the route of an interface or one that the module made;
deleting the route of an interface is signalled to the module while the table still refers to it.
The environment decides when the timers fire, so that triggered updates may come at any time.
-/

namespace Inet4.Rip

def RIP_INFINITE_METRIC : ℕ := 16

/-- An address; the unspecified one is `none`. -/
abbrev L3Address (A : Type) := Option A

inductive Mode
  | RIPv2
  | RIPng
deriving DecidableEq

inductive RipMode
  | NO_RIP
  | PASSIVE
  | NO_SPLIT_HORIZON
  | SPLIT_HORIZON
  | SPLIT_HORIZON_POISON_REVERSE
deriving DecidableEq

/-- An interface of a router, with the link that it is on and the test for addresses of its
network. -/
structure InterfaceEntry (A L : Type) where
  interfaceId : ℕ
  address : A
  link : L
  inNetwork : A → Bool
  isUp : Bool := true
  /-- The entries that fit into a packet. -/
  maxEntries : ℕ := 25

structure RipInterfaceEntry (A L : Type) where
  ie : InterfaceEntry A L
  metric : ℕ := 1
  mode : RipMode := .NO_RIP

/-- A route of the host at the start, whose source is an interface. -/
structure InterfaceRoute (A L : Type) where
  destination : A
  prefixLength : ℕ
  ie : InterfaceEntry A L
  metric : ℕ := 0

/-- What stays the same in a static network. -/
structure Config (A L : Type) where
  mode : Mode := .RIPv2
  ripUdpPort : ℕ := 520
  routeExpiryTime : SimTime
  routePurgeTime : SimTime
  holdDownTime : SimTime := 0
  triggeredUpdate : Bool := true
  isUnicast : A → Bool := fun _ ↦ true
  isLinkLocal : A → Bool := fun _ ↦ false
  maxPrefixLength : ℕ := 32
  ift : List (InterfaceEntry A L)
  ripInterfaces : List (RipInterfaceEntry A L)
  interfaceRoutes : List (InterfaceRoute A L)

inductive RipCommand
  | RIP_REQUEST
  | RIP_RESPONSE
deriving DecidableEq

inductive RipAf
  | RIP_AF_NONE
  | RIP_AF_INET
deriving DecidableEq

structure RipEntry (A : Type) where
  addressFamilyId : RipAf
  routeTag : ℕ := 0
  address : L3Address A := none
  prefixLength : ℕ := 0
  nextHop : L3Address A := none
  metric : ℕ
deriving DecidableEq

structure RipPacket (A : Type) where
  command : RipCommand
  entry : List (RipEntry A)
deriving DecidableEq

/-- A packet that a router receives, with its tags. -/
structure Received (A : Type) where
  packet : RipPacket A
  srcAddr : A
  srcPort : ℕ
  interfaceId : ℕ
  hopLimit : ℕ

/-- A packet that is given to the socket for an interface; without a destination it goes to the
multicast address of the routers. -/
structure Outgoing (A : Type) where
  packet : RipPacket A
  destAddr : Option A
  interfaceId : ℕ

inductive RouteType
  | RIP_ROUTE_RTE
  | RIP_ROUTE_STATIC
  | RIP_ROUTE_DEFAULT
  | RIP_ROUTE_REDISTRIBUTE
  | RIP_ROUTE_INTERFACE
deriving DecidableEq

/-- The fields of a route of the host that the module uses; `fromRip` tells whether this module is
its source. -/
structure HostRoute where
  metric : ℕ
  fromRip : Bool
deriving DecidableEq

structure RipRoute (A : Type) where
  route : Option HostRoute
  type : RouteType
  dest : L3Address A
  prefixLength : ℕ
  nextHop : L3Address A
  metric : ℕ
  ie : Option ℕ
  fromAddr : L3Address A := none
  lastUpdateTime : SimTime := 0
  changed : Bool := false
  tag : ℕ := 0
  lastInvalid : SimTime := 0
deriving DecidableEq

variable {A L : Type}

namespace RipRoute

variable (ripRoute : RipRoute A)

/-- The metric of a learned route is written to the route of the host too. -/
def setMetric (metric : ℕ) : RipRoute A :=
  { ripRoute with
    metric := metric
    route := if ripRoute.type = .RIP_ROUTE_RTE then
        ripRoute.route.map fun route ↦ { route with metric := metric }
      else ripRoute.route }

/-- The route of the host is deleted after the reference to it. -/
def invalidateRoute (now : SimTime) : RipRoute A :=
  { ripRoute with
    route := none
    metric := RIP_INFINITE_METRIC
    changed := true
    lastInvalid := now }

/-- The route of the host is deleted and `receiveSignal` is called for it. -/
def routeDeleted (now : SimTime) : RipRoute A :=
  match ripRoute.route with
  | none => ripRoute
  | some route =>
    let ripRoute := { ripRoute with route := none }
    if route.fromRip then ripRoute else ripRoute.invalidateRoute now

/-- The two branches of `updateRoute` that replace the route of the host. -/
def replaceRoute (now : SimTime) (oldMetric : ℕ) (nextHop : L3Address A) (metric : ℕ)
    : Except Fault (RipRoute A) :=
  if oldMetric = RIP_INFINITE_METRIC then
    if metric < RIP_INFINITE_METRIC then
      .ok { ripRoute.routeDeleted now with
        type := .RIP_ROUTE_RTE
        nextHop := nextHop
        route := some { metric := metric, fromRip := true } }
    else .ok ripRoute
  else do
    assert (ripRoute.route.isSome = true)
    return { ripRoute.routeDeleted now with
      nextHop := nextHop
      route := if metric < RIP_INFINITE_METRIC then some { metric := metric, fromRip := true }
        else none }

def updateRoute (now : SimTime) (ie : ℕ) (nextHop : L3Address A) (metric : ℕ) (routeTag : ℕ)
    (fromAddr : L3Address A) : Except Fault (RipRoute A) := do
  let oldMetric := ripRoute.metric
  let ripRoute ← ({ ripRoute with ie := some ie }.setMetric metric).replaceRoute now oldMetric
    nextHop metric
  let ripRoute := { ripRoute with fromAddr := fromAddr, tag := routeTag, changed := true }
  if oldMetric ≠ RIP_INFINITE_METRIC ∧ metric = RIP_INFINITE_METRIC then
    return ripRoute.invalidateRoute now
  else return { ripRoute with lastUpdateTime := now }

end RipRoute

variable (config : Config A L)

def Config.findRipInterfaceById (interfaceId : ℕ) : Option (RipInterfaceEntry A L) :=
  config.ripInterfaces.find? fun elem ↦ elem.ie.interfaceId = interfaceId

def Config.getInterfaceMetric (ie : InterfaceEntry A L) : ℕ :=
  match config.findRipInterfaceById ie.interfaceId with
  | some ripIe => ripIe.metric
  | none => 1

/-- The routes of interfaces on which RIP is not switched off. -/
def Config.isImported (route : InterfaceRoute A L) : Bool :=
  match config.findRipInterfaceById route.ie.interfaceId with
  | some ripIe => ripIe.mode ≠ .NO_RIP
  | none => true

def Config.importRoute (route : InterfaceRoute A L) : RipRoute A where
  route := some { metric := route.metric, fromRip := false }
  type := .RIP_ROUTE_INTERFACE
  dest := some route.destination
  prefixLength := route.prefixLength
  nextHop := none
  metric := config.getInterfaceMetric route.ie
  ie := some route.ie.interfaceId

def sendRIPRequest (ripInterface : RipInterfaceEntry A L) : Outgoing A where
  packet :=
    { command := .RIP_REQUEST
      entry := [{ addressFamilyId := .RIP_AF_NONE, metric := RIP_INFINITE_METRIC }] }
  destAddr := none
  interfaceId := ripInterface.ie.interfaceId

/-- `startRIPRouting` on a host that has routes of interfaces only. -/
def Config.startRIPRouting : List (RipRoute A) × List (Outgoing A) :=
  ((config.interfaceRoutes.filter config.isImported).map config.importRoute,
    (config.ripInterfaces.filter fun elem ↦ elem.mode ≠ .NO_RIP && elem.mode ≠ .PASSIVE).map
      sendRIPRequest)

variable (now : SimTime)

/-- What `checkExpiredRoutes` does with one route; `none` is a route that is purged. -/
def Config.checkExpired (ripRoute : RipRoute A) : Option (RipRoute A) :=
  if ripRoute.type = .RIP_ROUTE_RTE then
    if ripRoute.lastUpdateTime + config.routeExpiryTime + config.routePurgeTime ≤ now then none
    else if ripRoute.lastUpdateTime + config.routeExpiryTime ≤ now then
      some (ripRoute.invalidateRoute now)
    else some ripRoute
  else some ripRoute

variable (table : List (RipRoute A))

def Config.checkExpiredRoutes : List (RipRoute A) :=
  table.filterMap (config.checkExpired now)

/-- The entry for a route, unless it is left out. -/
def entryFor (ripInterface : RipInterfaceEntry A L) (changedOnly : Bool) (ripRoute : RipRoute A) :
    Option (RipEntry A) :=
  let entry : RipEntry A :=
    { addressFamilyId := .RIP_AF_INET
      routeTag := ripRoute.tag
      address := ripRoute.dest
      prefixLength := ripRoute.prefixLength
      nextHop := none
      metric := ripRoute.metric }
  if changedOnly && !ripRoute.changed then none
  else if ripRoute.ie = some ripInterface.ie.interfaceId then
    match ripInterface.mode with
    | .SPLIT_HORIZON => none
    | .SPLIT_HORIZON_POISON_REVERSE => some { entry with metric := RIP_INFINITE_METRIC }
    | _ => some entry
  else some entry

/-- The packets for the entries; a packet that is full is sent and the next one begins. -/
def packetsFor (maxEntries : ℕ) : List (RipEntry A) → List (RipEntry A) → List (RipPacket A)
  | [], [] => []
  | entry, [] => [{ command := .RIP_RESPONSE, entry := entry }]
  | entry, next :: rest =>
    if maxEntries ≤ (entry ++ [next]).length then
      { command := .RIP_RESPONSE, entry := entry ++ [next] } :: packetsFor maxEntries [] rest
    else packetsFor maxEntries (entry ++ [next]) rest

def Config.sendRoutes (destAddr : Option A)
    (ripInterface : RipInterfaceEntry A L) (changedOnly : Bool) :
    Except Fault (List (RipRoute A) × List (Outgoing A)) :=
  if ripInterface.mode = .NO_RIP then .ok (table, [])
  else if ripInterface.mode = .PASSIVE then .ok (config.checkExpiredRoutes now table, [])
  else do
    let table := config.checkExpiredRoutes now table
    assert (changedOnly = true → table ≠ [] → config.triggeredUpdate = true)
    let entries := table.filterMap (entryFor ripInterface changedOnly)
    assert (entries ≠ [] → 0 < ripInterface.ie.maxEntries)
    return (table, (packetsFor ripInterface.ie.maxEntries [] entries).map fun packet ↦
      { packet := packet, destAddr := destAddr, interfaceId := ripInterface.ie.interfaceId })

/-- One turn of the loop of `processUpdate`. -/
def Config.sendUpdate (triggered : Bool)
    (state : List (RipRoute A) × List (Outgoing A)) (ripInterface : RipInterfaceEntry A L) :
    Except Fault (List (RipRoute A) × List (Outgoing A)) :=
  if ripInterface.ie.isUp then do
    let (table, sent) ← config.sendRoutes now state.1 none ripInterface triggered
    return (table, state.2 ++ sent)
  else .ok state

def Config.processUpdate (triggered : Bool)
    : Except Fault (List (RipRoute A) × List (Outgoing A)) := do
  let (table, sent) ← config.ripInterfaces.foldlM (config.sendUpdate now triggered) (table, [])
  return (table.map fun ripRoute ↦ { ripRoute with changed := false }, sent)

def addRoute (dest : L3Address A) (prefixLength : ℕ) (ie : ℕ)
    (nextHop : L3Address A) (metric : ℕ) (routeTag : ℕ) (fromAddr : L3Address A) :
    List (RipRoute A) :=
  table ++ [{
    route := some { metric := metric, fromRip := true }
    type := .RIP_ROUTE_RTE
    dest := dest
    prefixLength := prefixLength
    nextHop := nextHop
    metric := metric
    ie := some ie
    fromAddr := fromAddr
    lastUpdateTime := now
    changed := true
    tag := routeTag }]

section Received

variable [DecidableEq A]

def RipRoute.isFor (address : L3Address A) (prefixLength : ℕ) (ripRoute : RipRoute A) : Bool :=
  ripRoute.dest = address && ripRoute.prefixLength = prefixLength

/-- `findRipRoute`, and a change of the route that is found. -/
def updateRipRoute (address : L3Address A) (prefixLength : ℕ)
    (change : RipRoute A → Except Fault (RipRoute A)) :
    List (RipRoute A) → Except Fault (Option (List (RipRoute A)))
  | [] => .ok none
  | ripRoute :: rest =>
    if ripRoute.isFor address prefixLength then do
      let changed ← change ripRoute
      return some (changed :: rest)
    else do
      let rest ← updateRipRoute address prefixLength change rest
      return rest.map (ripRoute :: ·)

def findRipRoute (table : List (RipRoute A)) (address : L3Address A) (prefixLength : ℕ) :
    Option (RipRoute A) :=
  table.find? (·.isFor address prefixLength)

/-- The entries of the answer to a request for certain prefixes. -/
def answerEntry (table : List (RipRoute A)) (entry : RipEntry A) : Except Fault (RipEntry A) :=
  match entry.addressFamilyId with
  | .RIP_AF_NONE => .error .runtimeError
  | .RIP_AF_INET =>
    match findRipRoute table entry.address entry.prefixLength with
    | some ripRoute => .ok { entry with metric := ripRoute.metric }
    | none => .ok { entry with metric := RIP_INFINITE_METRIC }

def Config.processRequest (config : Config A L) (now : SimTime) (table : List (RipRoute A))
    (received : Received A) : Except Fault (List (RipRoute A) × List (Outgoing A)) :=
  match received.packet.entry with
  | [] => .ok (table, [])
  | entry :: rest =>
    if entry.addressFamilyId = .RIP_AF_NONE ∧ rest = [] ∧ entry.metric = RIP_INFINITE_METRIC then
      match config.findRipInterfaceById received.interfaceId with
      | some ripInterface =>
        config.sendRoutes now table (some received.srcAddr) ripInterface false
      | none => .ok (table, [])
    else do
      let entries ← (entry :: rest).mapM (answerEntry table)
      return (table, [{
        packet := { command := .RIP_RESPONSE, entry := entries }
        destAddr := some received.srcAddr
        interfaceId := received.interfaceId }])

def Config.isLocalAddress (config : Config A L) (address : A) : Bool :=
  config.ift.any fun ie ↦ ie.address = address

def Config.isNeighborAddress (config : Config A L) (address : A) : Bool :=
  match config.ift.find? fun ie ↦ ie.inNetwork address with
  | some ie => ie.address ≠ address
  | none => false

def Config.isValidEntry (config : Config A L) (entry : RipEntry A) : Bool :=
  entry.metric ≤ RIP_INFINITE_METRIC && entry.address.any config.isUnicast &&
    (config.mode ≠ .RIPng || !entry.address.any config.isLinkLocal &&
      entry.prefixLength ≤ config.maxPrefixLength)

def Config.isValidResponse (config : Config A L) (received : Received A) : Bool :=
  received.srcPort = config.ripUdpPort && !config.isLocalAddress received.srcAddr &&
    (match config.mode with
      | .RIPng => config.isLinkLocal received.srcAddr && received.hopLimit = 255
      | .RIPv2 => config.isNeighborAddress received.srcAddr) &&
    received.packet.entry.all config.isValidEntry

/-- The router of a route refreshes it. -/
def RipRoute.touch (ripRoute : RipRoute A) (now : SimTime) (srcAddr : A) : RipRoute A :=
  if ripRoute.fromAddr = some srcAddr then { ripRoute with lastUpdateTime := now } else ripRoute

/-- `preventRouteUpdate`: a route that is reachable again is held down, or there is a better one. -/
def Config.preventRouteUpdate (config : Config A L) (now : SimTime) (ripRoute : RipRoute A)
    (metric : ℕ) : Bool :=
  ripRoute.metric = RIP_INFINITE_METRIC && metric < RIP_INFINITE_METRIC &&
    (0 < config.holdDownTime && now < ripRoute.lastInvalid + config.holdDownTime ||
      ripRoute.route.any fun route ↦ route.metric ≤ metric)

/-- A route that is known is updated by an entry with a better metric, or by its own router. -/
def Config.updateFromEntry (config : Config A L) (now : SimTime) (ie : ℕ) (srcAddr : A)
    (nextHop : L3Address A) (metric : ℕ) (routeTag : ℕ) (ripRoute : RipRoute A) :
    Except Fault (RipRoute A) :=
  if (ripRoute.type = .RIP_ROUTE_STATIC ∨ ripRoute.type = .RIP_ROUTE_DEFAULT) ∧
      ripRoute.metric ≠ RIP_INFINITE_METRIC then .ok ripRoute
  else if metric < ripRoute.metric ∨
      (ripRoute.fromAddr = some srcAddr ∧ ripRoute.metric ≠ metric) then
    if config.preventRouteUpdate now ripRoute metric then .ok (ripRoute.touch now srcAddr)
    else (ripRoute.touch now srcAddr).updateRoute now ie nextHop metric routeTag (some srcAddr)
  else .ok (ripRoute.touch now srcAddr)

def Config.processEntry (config : Config A L) (now : SimTime) (incomingIe : RipInterfaceEntry A L)
    (srcAddr : A) (table : List (RipRoute A)) (entry : RipEntry A) :
    Except Fault (List (RipRoute A)) := do
  let metric := min (entry.metric + max incomingIe.metric 1) RIP_INFINITE_METRIC
  let nextHop := if entry.nextHop = none then some srcAddr else entry.nextHop
  let updated ← updateRipRoute entry.address entry.prefixLength
    (config.updateFromEntry now incomingIe.ie.interfaceId srcAddr nextHop metric entry.routeTag)
    table
  match updated with
  | some table => return table
  | none =>
    if metric ≠ RIP_INFINITE_METRIC then
      return addRoute now table entry.address entry.prefixLength incomingIe.ie.interfaceId nextHop
        metric entry.routeTag (some srcAddr)
    else return table

def Config.processResponse (config : Config A L) (now : SimTime) (table : List (RipRoute A))
    (received : Received A) : Except Fault (List (RipRoute A)) :=
  if config.isValidResponse received then
    match config.findRipInterfaceById received.interfaceId with
    | none => .ok table
    | some incomingIe =>
      received.packet.entry.foldlM (config.processEntry now incomingIe received.srcAddr) table
  else .ok table

/-- The branch of `handleMessageWhenUp` for data from the socket. -/
def Config.handlePacket (config : Config A L) (now : SimTime) (table : List (RipRoute A))
    (received : Received A) : Except Fault (List (RipRoute A) × List (Outgoing A)) :=
  match received.packet.command with
  | .RIP_REQUEST => config.processRequest now table received
  | .RIP_RESPONSE => do
    let table ← config.processResponse now table received
    return (table, [])

end Received

end Inet4.Rip
