import Inet4.BellmanFord
import Inet4.L3Address
import Mathlib.Algebra.Order.Field.Rat

/-!
# The traffic engineering database

`Ted` holds what is known of the links of the network, and computes shortest paths over them and
the host routes that follow.  Vertices are kept in a vector in the order in which the links name
them; the parent of a vertex is an index, or -1.
-/

namespace Inet4.Ted

open BellmanFord (Edge)
open Ipv4 (Ipv4Address Ipv4Route Ipv4RoutingTable)

/-- `TeLinkStateInfo`.  Metrics are positive and exact. -/
structure TeLinkStateInfo where
  advrouter : Ipv4Address
  linkid : Ipv4Address
  localAddr : Ipv4Address
  remote : Ipv4Address
  metric : ℚ
  metric_pos : 0 < metric
  maxBandwidth : ℚ
  unResvBandwidth : Vector ℚ 8
  timestamp : SimTime
  sourceId : BitVec 32
  messageId : BitVec 32
  state : Bool
deriving DecidableEq

def LS_INFINITY : ℚ := 10 ^ 16

def ALLONES_ADDRESS : Ipv4Address := BitVec.allOnes 32

/-- `InterfaceEntry`, as far as it is read here. -/
structure InterfaceEntry where
  interfaceId : ℕ
  address : Ipv4Address
deriving DecidableEq

/-- The interfaces of the node; `initializeTED` throws unless their addresses are unique and
specified. -/
structure InterfaceTable where
  interfaces : List InterfaceEntry
  ids_nodup : (interfaces.map InterfaceEntry.interfaceId).Nodup
  addresses_nodup : (interfaces.map InterfaceEntry.address).Nodup
  specified : ∀ ie ∈ interfaces, ie.address ≠ 0#32

/-- `getInterfaceByAddress` of the routing table; a null pointer is `none`. -/
def InterfaceTable.getInterfaceByAddress (ift : InterfaceTable) (addr : Ipv4Address) : Option ℕ :=
  if addr = 0#32 then none
  else (ift.interfaces.find? fun ie ↦ ie.address = addr).map InterfaceEntry.interfaceId

end Ted

open Ted

structure Ted where
  ted : List TeLinkStateInfo
  routerId : Ipv4.Ipv4Address
  ift : InterfaceTable
  /-- The addresses of the interfaces that are no loopbacks. -/
  interfaceAddrs : List Ipv4.Ipv4Address
  interfaceAddrs_sublist : interfaceAddrs.Sublist (ift.interfaces.map InterfaceEntry.address)
  maxMessageId : BitVec 32

namespace Ted

open BellmanFord (Edge)
open Ipv4 (Ipv4Address Ipv4Route Ipv4RoutingTable)

variable (ted : Ted)

/-- A link of this router to a peer. -/
def IsOwnLink (peerIP : Ipv4Address) (elem : TeLinkStateInfo) : Prop :=
  elem.linkid = peerIP ∧ elem.advrouter = ted.routerId

instance (ted : Ted) (peerIP : Ipv4Address) : DecidablePred (ted.IsOwnLink peerIP) := fun _ ↦
  inferInstanceAs (Decidable (_ ∧ _))

def getInterfaceAddrByPeerAddress (peerIP : Ipv4Address) : Except Fault Ipv4Address :=
  match ted.ted.find? fun elem ↦ ted.IsOwnLink peerIP elem with
  | some elem => .ok elem.localAddr
  | none => .error .runtimeError

def isLocalPeer (inetAddr : Ipv4Address) : Bool :=
  ted.ted.any fun elem ↦ ted.IsOwnLink inetAddr elem

/-- `getPeerByLocalAddress`, with the assertion of `linkIndex`. -/
def getPeerByLocalAddress (localInf : Ipv4Address) : Except Fault Ipv4Address :=
  match ted.ted.find? fun elem ↦ elem.advrouter = ted.routerId ∧ elem.localAddr = localInf with
  | some elem => .ok elem.linkid
  | none => .error .runtimeError

/-- `vertex_t`. -/
structure Vertex where
  node : Ipv4Address
  parent : Option ℕ
  dist : ℚ
deriving DecidableEq

/-- `assignIndex`; returns the vertices with it. -/
def assignIndex (vertices : List Vertex) (nodeAddr : Ipv4Address) : ℕ × List Vertex :=
  match vertices.findIdx? fun vertex ↦ vertex.node = nodeAddr with
  | some i => (i, vertices)
  | none =>
    (vertices.length, vertices ++ [{ node := nodeAddr, parent := none, dist := LS_INFINITY }])

/-- A link that `calculateShortestPaths` does not skip. -/
def TeLinkStateInfo.IsSelected (reqBandwidth : ℚ) (priority : Fin 8) (elem : TeLinkStateInfo) :
    Prop :=
  elem.state = true ∧ ¬elem.unResvBandwidth[priority] < reqBandwidth

instance (reqBandwidth : ℚ) (priority : Fin 8) :
    DecidablePred (TeLinkStateInfo.IsSelected reqBandwidth priority) := fun _ ↦
  inferInstanceAs (Decidable (_ ∧ _))

/-- The vertices and edges after a selected link. -/
def addEdge (graph : List Vertex × List (Edge ℕ ℚ)) (elem : TeLinkStateInfo) :
    List Vertex × List (Edge ℕ ℚ) :=
  let src := assignIndex graph.1 elem.advrouter
  let dest := assignIndex src.2 elem.linkid
  (dest.2, graph.2 ++ [{ src := src.1, dest := dest.1, weight := elem.metric }])

/-- One edge in a round; the flag is `mod`. -/
def relaxEdge (state : List Vertex × Bool) (edge : Edge ℕ ℚ) : Except Fault (List Vertex × Bool) :=
  match state.1[edge.src]?, state.1[edge.dest]? with
  | some src, some dest =>
    if edge.src = edge.dest then .error .runtimeError
    else if src.dist + edge.weight ≥ dest.dist then .ok state
    else
      .ok (state.1.set edge.dest
        { dest with
          dist := src.dist + edge.weight
          parent := some edge.src }, true)
  | _, _ => .error .runtimeError

/-- At most `rounds` rounds, and none after one without a change. -/
def relaxRounds (edges : List (Edge ℕ ℚ)) : ℕ → List Vertex → Except Fault (List Vertex)
  | 0, vertices => .ok vertices
  | rounds + 1, vertices => do
    let state ← edges.foldlM relaxEdge (vertices, false)
    if state.2 then relaxRounds edges rounds state.1 else return state.1

/-- The vertices and edges of the selected links, before the source is added. -/
def selectEdges (topology : List TeLinkStateInfo) (reqBandwidth : ℚ) (priority : Fin 8) :
    List Vertex × List (Edge ℕ ℚ) :=
  (topology.filter fun elem ↦ elem.IsSelected reqBandwidth priority).foldl addEdge ([], [])

def calculateShortestPaths (topology : List TeLinkStateInfo) (reqBandwidth : ℚ) (priority : Fin 8)
    : Except Fault (List Vertex) :=
  let graph := selectEdges topology reqBandwidth priority
  let src := assignIndex graph.1 ted.routerId
  let vertices := src.2.modify src.1 fun vertex ↦ { vertex with dist := 0 }
  relaxRounds graph.2 (vertices.length - 1) vertices

/-- The search for the nearest vertex of the set: the least distance so far and its index. -/
def selectNearest (dest : List Ipv4Address) (best : ℚ × Option ℕ) (entry : Vertex × ℕ) :
    ℚ × Option ℕ :=
  if entry.1.dist ≥ best.1 then best
  else if entry.1.node ∉ dest then best
  else (entry.1.dist, some entry.2)

/-- The path that ends with `result`, from the source to the vertex at `index` and on. -/
def pathTo (vertices : List Vertex) :
    ℕ → ℕ → List Ipv4Address → Except Fault (List Ipv4Address)
  | 0, _, _ => .error .notReturned
  | fuel + 1, index, result =>
    match vertices[index]? with
    | none => .error .undefinedBehaviour
    | some vertex =>
      match vertex.parent with
      | none => .ok (vertex.node :: result)
      | some parent => pathTo vertices fuel parent (vertex.node :: result)

def calculateShortestPath (dest : List Ipv4Address) (topology : List TeLinkStateInfo)
    (reqBandwidth : ℚ) (priority : Fin 8) : Except Fault (List Ipv4Address) := do
  let vertices ← ted.calculateShortestPaths topology reqBandwidth priority
  match (vertices.zipIdx.foldl (selectNearest dest) (LS_INFINITY, none)).2 with
  | none => return []
  | some minIndex => pathTo vertices vertices.length minIndex []

variable (table : Ipv4RoutingTable)

/-- A pointer that no route of the table has. -/
def newRoute : ℕ :=
  (table.routes.map Ipv4Route.ptr).foldr max 0 + 1

/-- A host route, with the gateway and the interface it is given. -/
structure HostRoute where
  destination : Ipv4Address
  gateway : Ipv4Address
  interfacePtr : Option ℕ
deriving DecidableEq

/-- The route object for a host route. -/
def HostRoute.toRoute (route : HostRoute) (ptr : ℕ) : Ipv4Route where
  ptr := ptr
  dest := route.destination
  netmask := ALLONES_ADDRESS
  gateway := route.gateway
  interfacePtr := route.interfacePtr
  adminDist := 255
  metric := 0

def addHostRoute (route : HostRoute) : Except Fault Ipv4RoutingTable :=
  table.addRoute (route.toRoute (newRoute table))

/-- The loop that removes all routes but the multicast ones, with `n` rounds left. -/
def removeUnicastRoutes : ℕ → ℕ → Ipv4RoutingTable → Except Fault Ipv4RoutingTable
  | 0, _, table => .ok table
  | n + 1, j, table =>
    match table.routes[j]? with
    | none => .error .undefinedBehaviour
    | some entry =>
      if entry.dest.isMulticast then removeUnicastRoutes n (j + 1) table
      else removeUnicastRoutes n j (table.deleteRoute entry.ptr).2

/-- The first local peer on the way from a vertex to the source. -/
def nextHopIndex (ted : Ted) (vertices : List Vertex) : ℕ → ℕ → Except Fault Ipv4Address
  | 0, _ => .error .notReturned
  | fuel + 1, nHop =>
    match vertices[nHop]? with
    | none => .error .undefinedBehaviour
    | some vertex =>
      if ted.isLocalPeer vertex.node then .ok vertex.node
      else
        match vertex.parent with
        | none => .error .undefinedBehaviour
        | some parent => nextHopIndex ted vertices fuel parent

/-- The route to the vertex `i`; there is none to this router, to vertices that are not reached and
to local peers. -/
def remoteRoute (vertices : List Vertex) (entry : Vertex × ℕ) : Except Fault (Option HostRoute) :=
  if entry.1.node = ted.routerId ∨ entry.1.parent = none ∨ ted.isLocalPeer entry.1.node then
    .ok none
  else do
    let nHop ← ted.nextHopIndex vertices vertices.length entry.2
    let localInf ← ted.getInterfaceAddrByPeerAddress nHop
    let route : HostRoute :=
      { destination := entry.1.node
        gateway := if entry.1.node = nHop then 0#32 else nHop
        interfacePtr := ted.ift.getInterfaceByAddress localInf }
    return some route

/-- The route to the peer behind an interface. -/
def peerRoute (localInf : Ipv4Address) : Except Fault HostRoute := do
  let peer ← ted.getPeerByLocalAddress localInf
  let route : HostRoute :=
    { destination := peer
      gateway := 0#32
      interfacePtr := ted.ift.getInterfaceByAddress localInf }
  return route

def addRemoteRoute (vertices : List Vertex) (table : Ipv4RoutingTable) (entry : Vertex × ℕ)
    : Except Fault Ipv4RoutingTable := do
  match ← ted.remoteRoute vertices entry with
  | none => return table
  | some route => addHostRoute table route

def addPeerRoute (localInf : Ipv4Address) : Except Fault Ipv4RoutingTable := do
  let route ← ted.peerRoute localInf
  addHostRoute table route

def rebuildRoutingTable : Except Fault Ipv4RoutingTable := do
  let vertices ← ted.calculateShortestPaths ted.ted 0 7
  let table ← removeUnicastRoutes table.routes.length 0 table
  let table ← vertices.zipIdx.foldlM (ted.addRemoteRoute vertices) table
  ted.interfaceAddrs.foldlM ted.addPeerRoute table

end Ted

end Inet4
