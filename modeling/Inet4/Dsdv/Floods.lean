import Inet4.Dsdv.HostRoutes

/-!
# Hello floods of a DSDV network

The nodes of a network and the hello messages between them.  A message on the air may be received by
any neighbour of its transmitter, at any later time and any number of times, or not at all; a packet
that the dispatcher hands back to the node arrives there again.  As long as no route expires, the
routes towards a source are labelled by the sequence number and the number of hops: a hello offers
a label that is greater than the one that its transmitter has, and labels only get smaller.
-/

namespace Inet4.Dsdv

open Ipv4 (Ipv4Address RoutePtr Ipv4Route Ipv4RoutingTable)
open Except (ok)

/-- Nodes are known by their addresses. -/
structure Network where
  nodes : Ipv4Address → Dsdv
  clock : SimTime := 0
  onAir : List Packet := []
  /-- Packets that came back from the dispatcher, with the nodes that sent them. -/
  returned : List (Ipv4Address × Packet) := []

inductive FloodEvent
  /-- The timer for the periodic broadcast. -/
  | helloTimer (n : Ipv4Address)
  /-- The timer of an entry of the list. -/
  | forwardTimer (n : Ipv4Address) (index : ℕ)
  /-- A packet on the air is received. -/
  | receive (n : Ipv4Address) (index : ℕ) (ptr : RoutePtr)
  /-- A packet that came back arrives. -/
  | receiveReturned (index : ℕ) (ptr : RoutePtr)
  /-- The network layer looks up a route. -/
  | findRoute (n : Ipv4Address) (dest : Ipv4Address)

/-- A lookup by another module. -/
def findRoute (node : Dsdv) (dest : Ipv4Address) : Except Fault (Dsdv × Option Packet) := do
  let (_, rt) ← node.rt.findBestMatchingRoute dest
  return ({ node with rt := rt }, none)

namespace Network

/-- The dispatcher passes a packet to the network layer, which broadcasts it, or to the node. -/
def send (network : Network) (n : Ipv4Address) : Option Packet → Except Fault Network
  | none => .ok network
  | some packet => do
    match ← handlePacket packet with
    | .ipv4 => .ok { network with
        onAir := network.onAir ++
          [{ packet with transmitter := n, travelled := packet.travelled + 1 }] }
    | .dsdv => .ok { network with returned := network.returned ++ [(n, packet)] }

/-- The network with a new state of one node. -/
def put (network : Network) (n : Ipv4Address) (node : Dsdv) (now : SimTime) : Network :=
  { network with nodes := Function.update network.nodes n node, clock := now }

/-- A node handles an event. -/
def act (network : Network) (n : Ipv4Address) (now : SimTime)
    (handler : Dsdv → Except Fault (Dsdv × Option Packet)) : Except Fault Network := do
  let (node, sent) ← handler ((network.nodes n).refresh now)
  (network.put n node now).send n sent

def handle (network : Network) : SimTime × FloodEvent → Except Fault Network
  | (now, .helloTimer n) => network.act n now fun node ↦ .ok node.sendHello
  | (now, .forwardTimer n index) => network.act n now fun node ↦ .ok (node.sendForwardEntry index)
  | (now, .receive n index ptr) =>
    match network.onAir[index]? with
    | none => .error .undefinedBehaviour
    | some packet =>
      network.act n now fun node ↦ node.handleMessageWhenUp now ptr packet.decapsulate
  | (now, .receiveReturned index ptr) =>
    match network.returned[index]? with
    | none => .error .undefinedBehaviour
    | some (n, packet) => network.act n now fun node ↦ node.handleMessageWhenUp now ptr packet
  | (now, .findRoute n dest) => network.act n now (·.findRoute dest)

/-- What must hold of the node that handles an event: none of its routes has expired, and a new
object is not one that is there. -/
def Ready (network : Network) (links : Ipv4Address → Ipv4Address → Prop) (now : SimTime) :
    FloodEvent → Prop
  | .helloTimer n => (network.nodes n).Unexpired now
  | .forwardTimer n index =>
    (network.nodes n).Unexpired now ∧ index < (network.nodes n).forwardList.length
  | .receive n index ptr =>
    (network.nodes n).Unexpired now ∧ (network.nodes n).Fresh ptr ∧
      match network.onAir[index]? with
      | none => False
      | some packet => links packet.transmitter n
  | .receiveReturned index ptr =>
    match network.returned[index]? with
    | none => False
    | some (n, _) => (network.nodes n).Unexpired now ∧ (network.nodes n).Fresh ptr
  | .findRoute n _ => (network.nodes n).Unexpired now

end Network

/-- A network with arbitrary links. -/
def floods (links : Ipv4Address → Ipv4Address → Prop) :
    Machine Network (SimTime × FloodEvent) Fault where
  Enabled network event := network.clock ≤ event.1 ∧ network.Ready links event.1 event.2
  handle := Network.handle

/-- A node before it has sent or received a message.  Its table holds any routes of other
modules. -/
structure Started (node : Dsdv) : Prop where
  sequencenumber : node.sequencenumber = 0
  lifetime : 0 < node.routeLifetime
  table : ∃ (useAdminDist : Bool) (routes : List Ipv4Route),
    Ipv4RoutingTable.machine.Run { useAdminDist }
    (routes.map Ipv4RoutingTable.Event.addRoute) node.rt
  dsdvRoutes : node.dsdvRoutes = ∅
  forwardList : node.forwardList = []

/-- A network of nodes with distinct addresses that start.  Each node may forward in its own way. -/
structure Network.Started (network : Network) : Prop where
  source : ∀ n, (network.nodes n).source = n
  nodes : ∀ n, (network.nodes n).Started
  onAir : network.onAir = []
  returned : network.returned = []

/-- The neighbour that transmitted the accepted hello is the gateway, and the metric is the number
of hops that it travelled. -/
structure Accurate (links : Ipv4Address → Ipv4Address → Prop) (n : Ipv4Address)
    (route : Ipv4Route) (data : DsdvIpv4Route) : Prop where
  source : data.accepted.hello.srcAddress = route.dest
  gateway : route.gateway = data.accepted.transmitter
  neighbour : links route.gateway n
  metric : route.metric = data.accepted.travelled

/-- The next hops towards a source. -/
def Network.NextHop (network : Network) (src n m : Ipv4Address) : Prop :=
  ∃ route data, (network.nodes n).HasRoute route data ∧ route.dest = src ∧ route.gateway = m

/-- A node has a route whose label is not greater than another one. -/
def Reaches (node : Dsdv) (src : Ipv4Address) (bound : RouteLabel ℤ) : Prop :=
  ∃ route data, node.HasRoute route data ∧ route.dest = src ∧ label route data ≤ bound

/-- The transmitter of a hello is its source, or it has a route that is better than the offer. -/
structure Backed (nodes : Ipv4Address → Dsdv) (packet : Packet) : Prop where
  next : packet.hello.nextAddress = packet.transmitter
  hops : packet.hello.hopdistance = packet.travelled
  offer : packet.transmitter = packet.hello.srcAddress ∨
    (nodes packet.transmitter).Reaches packet.hello.srcAddress
      (routeLabel packet.hello.sequencenumber.toNat (packet.hello.hopdistance - 1))

/-- A packet that was passed up and whose hello the node does not need any more. -/
structure Known (node : Dsdv) (packet : Packet) : Prop where
  passedUp : packet.decapsulate = packet
  reaches : node.Reaches packet.hello.srcAddress packet.hello.label

/-- The invariant. -/
structure Network.Sound (links : Ipv4Address → Ipv4Address → Prop) (network : Network) : Prop where
  source : ∀ n, (network.nodes n).source = n
  tidy : ∀ n, (network.nodes n).Tidy
  routes : ∀ n route data, (network.nodes n).HasRoute route data →
    Backed network.nodes data.accepted ∧ links data.accepted.transmitter n
  onAir : ∀ packet ∈ network.onAir, Backed network.nodes packet
  held : ∀ n, ∀ packet ∈ (network.nodes n).forwardList, (network.nodes n).Known packet
  returned : ∀ entry ∈ network.returned, (network.nodes entry.1).Known entry.2

variable {links : Ipv4Address → Ipv4Address → Prop} {network network' : Network}
variable {node node' : Dsdv} {n : Ipv4Address} {now : SimTime} {ptr : RoutePtr} {packet : Packet}
variable {sent : Option Packet}

/-- Labels get smaller only. -/
def Improves (node node' : Dsdv) : Prop :=
  ∀ route data, node.HasRoute route data → node'.Reaches route.dest (label route data)

theorem improves_of_routes
    (hroutes : ∀ route data, node'.HasRoute route data ↔ node.HasRoute route data) :
    Improves node node' := by
  intro route data hroute
  exact ⟨route, data, (hroutes route data).mpr hroute, rfl, le_rfl⟩

theorem Reaches.mono {src : Ipv4Address} {bound : RouteLabel ℤ} (h : node.Reaches src bound)
    (himproves : Improves node node') : node'.Reaches src bound := by
  obtain ⟨route, data, hroute, rfl, hle⟩ := h
  obtain ⟨route', data', hroute', hdest, hle'⟩ := himproves route data hroute
  exact ⟨route', data', hroute', hdest, hle'.trans hle⟩

theorem Accepts.hasRoute (h : Accepts node now ptr packet node' sent) :
    node'.HasRoute (node.newRoute now ptr packet) (node.newData now packet) :=
  (h.routes _ _).mpr (.inl ⟨rfl, rfl⟩)

/-- The new route is better than the one that it replaces. -/
theorem Accepts.improves (h : Accepts node now ptr packet node' sent) : Improves node node' := by
  intro route data hroute
  by_cases hdest : route.dest = packet.hello.srcAddress
  · refine ⟨_, _, h.hasRoute, hdest.symm, ?_⟩
    exact (h.smaller route data hroute hdest).le
  · exact ⟨route, data, (h.routes route data).mpr (.inr ⟨hroute, hdest⟩), rfl, le_rfl⟩

/-- After a hello was accepted the node does not need it any more. -/
theorem Accepts.reaches (h : Accepts node now ptr packet node' sent) :
    node'.Reaches packet.hello.srcAddress packet.hello.label :=
  ⟨_, _, h.hasRoute, rfl, le_rfl⟩

theorem Backed.mono {nodes nodes' : Ipv4Address → Dsdv} (h : Backed nodes packet)
    (himproves : ∀ n, Improves (nodes n) (nodes' n)) : Backed nodes' packet where
  next := h.next
  hops := h.hops
  offer := h.offer.imp_right fun hreaches ↦ hreaches.mono (himproves _)

theorem Known.mono (h : node.Known packet) (himproves : Improves node node') :
    node'.Known packet :=
  ⟨h.passedUp, h.reaches.mono himproves⟩

/-- One node handles an event, and its routes get better. -/
theorem Network.Sound.update (h : network.Sound links) (now : SimTime)
    (hsetup : SameSetup (network.nodes n) node') (htidy : node'.Tidy)
    (himproves : Improves (network.nodes n) node')
    (hroutes : ∀ route data, node'.HasRoute route data →
      (network.nodes n).HasRoute route data ∨
        Backed network.nodes data.accepted ∧ links data.accepted.transmitter n)
    (hheld : ∀ packet ∈ node'.forwardList, node'.Known packet) :
    (network.put n node' now).Sound links := by
  have hcases : ∀ (p : Ipv4Address → Dsdv → Prop), p n node' →
      (∀ m, p m (network.nodes m)) → ∀ m, p m ((network.put n node' now).nodes m) := by
    intro p hnode hnodes m
    by_cases hm : m = n
    · subst hm
      exact (congrArg (p m) (Function.update_self ..)).mpr hnode
    · exact (congrArg (p m) (Function.update_of_ne hm ..)).mpr (hnodes m)
  have hall : ∀ m, Improves (network.nodes m) ((network.put n node' now).nodes m) :=
    hcases (fun m node ↦ Improves (network.nodes m) node) himproves
      fun m ↦ improves_of_routes fun _ _ ↦ Iff.rfl
  exact
    { source := hcases (fun m node ↦ node.source = m) (hsetup.source.trans (h.source n)) h.source
      tidy := hcases (fun _ node ↦ node.Tidy) htidy h.tidy
      routes := by
        apply hcases fun m node ↦ ∀ route data, node.HasRoute route data →
          Backed (network.put n node' now).nodes data.accepted ∧ links data.accepted.transmitter m
        · intro route data hroute
          rcases hroutes route data hroute with hold | hnew
          · exact ⟨(h.routes n route data hold).1.mono hall, (h.routes n route data hold).2⟩
          · exact ⟨hnew.1.mono hall, hnew.2⟩
        · intro m route data hroute
          exact ⟨(h.routes m route data hroute).1.mono hall, (h.routes m route data hroute).2⟩
      onAir := fun packet hpacket ↦ (h.onAir packet hpacket).mono hall
      held := hcases (fun _ node ↦ ∀ packet ∈ node.forwardList, node.Known packet) hheld h.held
      returned := fun entry hentry ↦ (h.returned entry hentry).mono (hall entry.1) }

/-- A packet that goes on the air offers less than its transmitter has, and one that comes back is
not needed. -/
theorem Network.Sound.send (h : network.Sound links) (hsend : network.send n sent = .ok network')
    (hair : ∀ packet ∈ sent, handlePacket packet = .ok .ipv4 → Backed network.nodes
      { packet with transmitter := n, travelled := packet.travelled + 1 })
    (hreturned : ∀ packet ∈ sent, handlePacket packet = .ok .dsdv →
      (network.nodes n).Known packet) : network'.Sound links := by
  cases sent with
  | none =>
    obtain rfl := ok.inj hsend
    exact h
  | some packet =>
    obtain ⟨module, hmodule, hrest⟩ := bind_eq_ok hsend
    cases module with
    | ipv4 =>
      obtain rfl := ok.inj hrest
      refine { h with onAir := fun other hother ↦ ?_ }
      rcases List.mem_append.mp hother with hold | hnew
      · exact h.onAir other hold
      · rw [List.mem_singleton.mp hnew]
        exact hair packet rfl hmodule
    | dsdv =>
      obtain rfl := ok.inj hrest
      refine { h with returned := fun other hother ↦ ?_ }
      rcases List.mem_append.mp hother with hold | hnew
      · exact h.returned other hold
      · rw [List.mem_singleton.mp hnew]
        exact hreturned packet rfl hmodule

theorem Known.handlePacket (h : node.Known packet) :
    Dsdv.handlePacket packet = .ok .dsdv := by
  rw [← h.passedUp]
  rfl

/-- What a handler may do: new routes come from hello messages that their transmitters back, and so
do the messages that leave. -/
structure Keeps (links : Ipv4Address → Ipv4Address → Prop) (network : Network) (n : Ipv4Address)
    (now : SimTime) (node' : Dsdv) (sent : Option Packet) : Prop where
  tidy : node'.Tidy
  setup : SameSetup (network.nodes n) node'
  improves : Improves (network.nodes n) node'
  routes : ∀ route data, node'.HasRoute route data → (network.nodes n).HasRoute route data ∨
    Backed network.nodes data.accepted ∧ links data.accepted.transmitter n
  held : ∀ packet ∈ node'.forwardList, node'.Known packet
  air : ∀ packet ∈ sent, Dsdv.handlePacket packet = .ok .ipv4 →
    Backed (network.put n node' now).nodes
      { packet with transmitter := n, travelled := packet.travelled + 1 }
  returned : ∀ packet ∈ sent, Dsdv.handlePacket packet = .ok .dsdv → node'.Known packet

/-- One event of a node whose routes have not expired. -/
theorem Network.Sound.act (h : network.Sound links) (hunexpired : (network.nodes n).Unexpired now)
    {handler : Dsdv → Except Fault (Dsdv × Option Packet)}
    (hact : network.act n now handler = .ok network')
    (hhandler : ∀ node' sent, handler (network.nodes n) = .ok (node', sent) →
      Keeps links network n now node' sent) :
    network'.Sound links := by
  obtain ⟨⟨node', sent⟩, hrun, hsend⟩ := bind_eq_ok hact
  rw [(h.tidy n).refresh_eq hunexpired] at hrun
  have hkeeps := hhandler node' sent hrun
  have hself : (network.put n node' now).nodes n = node' := Function.update_self ..
  have hput := h.update now hkeeps.setup hkeeps.tidy hkeeps.improves hkeeps.routes hkeeps.held
  apply hput.send hsend hkeeps.air
  intro packet hpacket hmodule
  rw [hself]
  exact hkeeps.returned packet hpacket hmodule

theorem Network.Sound.keeps_sendHello (h : network.Sound links) :
    Keeps links network n now (network.nodes n).sendHello.1 (network.nodes n).sendHello.2 where
  tidy := (h.tidy n).sendHello.1
  setup := ⟨rfl, rfl, rfl⟩
  improves := improves_of_routes (h.tidy n).sendHello.2
  routes route data hroute := .inl (((h.tidy n).sendHello.2 route data).mp hroute)
  held packet hpacket := (h.held n packet hpacket).mono (improves_of_routes (h.tidy n).sendHello.2)
  air := by
    intro packet hpacket _
    obtain rfl := Option.mem_some_iff.mp hpacket
    exact ⟨h.source n, rfl, .inl (h.source n).symm⟩
  returned := by
    intro packet hpacket hmodule
    obtain rfl := Option.mem_some_iff.mp hpacket
    cases hmodule

theorem Network.Sound.keeps_sendForwardEntry (h : network.Sound links) (index : ℕ) :
    Keeps links network n now ((network.nodes n).sendForwardEntry index).1
      ((network.nodes n).sendForwardEntry index).2 := by
  have hroutes : ∀ route data,
      ((network.nodes n).sendForwardEntry index).1.HasRoute route data ↔
        (network.nodes n).HasRoute route data := fun _ _ ↦ hasRoute_of_same rfl rfl
  have hknown : ∀ packet ∈ (network.nodes n).forwardList,
      ((network.nodes n).sendForwardEntry index).1.Known packet :=
    fun packet hpacket ↦ (h.held n packet hpacket).mono (improves_of_routes hroutes)
  exact
    { tidy := (h.tidy n).of_routes (h.tidy n).consistent
        (fun route data ↦ (hroutes route data).mp) rfl rfl
      setup := ⟨rfl, rfl, rfl⟩
      improves := improves_of_routes hroutes
      routes := fun route data hroute ↦ .inl ((hroutes route data).mp hroute)
      held := fun packet hpacket ↦ hknown packet (List.mem_of_mem_eraseIdx hpacket)
      air := by
        intro packet hpacket hmodule
        have hreturn := (hknown packet (List.mem_of_getElem? hpacket)).handlePacket
        cases hreturn.symm.trans hmodule
      returned := fun packet hpacket _ ↦ hknown packet (List.mem_of_getElem? hpacket) }

theorem Network.Sound.keeps_ignores (h : network.Sound links) (htidy : node'.Tidy)
    (hignores : Ignores (network.nodes n) node') : Keeps links network n now node' none where
  tidy := htidy
  setup := hignores.toSameSetup
  improves := improves_of_routes hignores.routes
  routes route data hroute := .inl ((hignores.routes route data).mp hroute)
  held packet hpacket := by
    rw [hignores.forwardList] at hpacket
    exact (h.held n packet hpacket).mono (improves_of_routes hignores.routes)
  air := nofun
  returned := nofun

/-- A hello that is accepted came from the air. -/
theorem Network.Sound.keeps_accepts (h : network.Sound links) (htidy : node'.Tidy)
    (haccepts : Accepts (network.nodes n) now ptr packet node' sent)
    (hbacked : Backed network.nodes packet) (hlinks : links packet.transmitter n)
    (hpassedUp : packet.decapsulate = packet) : Keeps links network n now node' sent := by
  have hold : ∀ packet ∈ (network.nodes n).forwardList, node'.Known packet :=
    fun packet hpacket ↦ (h.held n packet hpacket).mono haccepts.improves
  have hnew : node'.Known packet := ⟨hpassedUp, haccepts.reaches⟩
  have hforwarded := haccepts.forwarded
  have hself : (network.put n node' now).nodes n = node' := Function.update_self ..
  exact
    { tidy := htidy
      setup := haccepts.toSameSetup
      improves := haccepts.improves
      routes := by
        intro route data hroute
        rcases (haccepts.routes route data).mp hroute with ⟨rfl, rfl⟩ | hroute
        · exact .inr ⟨hbacked, hlinks⟩
        · exact .inl hroute.1
      held := by
        intro other hother
        split at hforwarded
        · rw [hforwarded.2] at hother
          rcases List.mem_append.mp hother with hother | hother
          · exact hold other hother
          · rw [List.mem_singleton.mp hother]
            exact hnew
        · rw [hforwarded.1] at hother
          exact hold other hother
      air := by
        intro other hother _
        split at hforwarded
        · rw [hforwarded.1] at hother
          cases hother
        · rw [hforwarded.2] at hother
          obtain rfl := Option.mem_some_iff.mp hother
          refine ⟨h.source n, ?_, .inr ?_⟩
          · exact_mod_cast congrArg (· + 1) hbacked.hops
          · rw [hself, add_sub_cancel_right]
            exact haccepts.reaches
      returned := by
        intro other hother hmodule
        split at hforwarded
        · rw [hforwarded.1] at hother
          cases hother
        · rw [hforwarded.2] at hother
          obtain rfl := Option.mem_some_iff.mp hother
          cases hmodule }

theorem Network.Sound.step {event : SimTime × FloodEvent} (h : network.Sound links)
    (hstep : (floods links).Step network event network') : network'.Sound links := by
  obtain ⟨⟨-, hready⟩, hhandle⟩ := hstep
  obtain ⟨now, event⟩ := event
  cases event with
  | helloTimer n =>
    have hact : network.act n now (fun node ↦ .ok node.sendHello) = .ok network' := hhandle
    apply h.act hready hact
    intro node' sent hrun
    obtain ⟨rfl, rfl⟩ := Prod.mk.inj (ok.inj hrun)
    exact h.keeps_sendHello
  | forwardTimer n index =>
    have hact : network.act n now (fun node ↦ .ok (node.sendForwardEntry index)) = .ok network' :=
      hhandle
    apply h.act hready.1 hact
    intro node' sent hrun
    obtain ⟨rfl, rfl⟩ := Prod.mk.inj (ok.inj hrun)
    exact h.keeps_sendForwardEntry index
  | receive n index ptr =>
    obtain ⟨hunexpired, hfresh, hlinks⟩ := hready
    simp only [floods, handle] at hhandle hlinks
    cases hpacket : network.onAir[index]? with
    | none =>
      rw [hpacket] at hlinks
      exact hlinks.elim
    | some packet =>
      rw [hpacket] at hlinks hhandle
      apply h.act hunexpired hhandle
      intro node' sent hrun
      obtain ⟨htidy, ⟨hignores, rfl⟩ | ⟨-, haccepts⟩⟩ := (h.tidy n).handleMessageWhenUp hfresh hrun
      · exact h.keeps_ignores htidy hignores
      · have hbacked := h.onAir packet (List.mem_of_getElem? hpacket)
        exact h.keeps_accepts htidy haccepts ⟨hbacked.next, hbacked.hops, hbacked.offer⟩ hlinks rfl
  | receiveReturned index ptr =>
    simp only [floods, handle, Ready] at hhandle hready
    cases hentry : network.returned[index]? with
    | none =>
      rw [hentry] at hready
      exact hready.elim
    | some entry =>
      obtain ⟨n, packet⟩ := entry
      rw [hentry] at hready hhandle
      apply h.act hready.1 hhandle
      intro node' sent hrun
      obtain ⟨htidy, ⟨hignores, rfl⟩ | ⟨-, haccepts⟩⟩ :=
        (h.tidy n).handleMessageWhenUp hready.2 hrun
      · exact h.keeps_ignores htidy hignores
      · have hknown := h.returned (n, packet) (List.mem_of_getElem? hentry)
        obtain ⟨route, data, hroute, hdest, hle⟩ := hknown.reaches
        exact absurd (haccepts.smaller route data hroute hdest) hle.not_gt
  | findRoute n dest =>
    have hact : network.act n now (·.findRoute dest) = .ok network' := hhandle
    apply h.act hready hact
    intro node' sent hrun
    obtain ⟨⟨found, rt⟩, hfind, hrest⟩ := bind_eq_ok hrun
    obtain ⟨rfl, rfl⟩ := Prod.mk.inj (ok.inj hrest)
    have hrt : rt.routes = (network.nodes n).rt.routes := by
      rw [Ipv4RoutingTable.findBestMatchingRoute_eq_ok hfind]
    have hroutes : ∀ route data, HasRoute { network.nodes n with rt := rt } route data ↔
        (network.nodes n).HasRoute route data := fun _ _ ↦ hasRoute_of_same hrt rfl
    apply h.keeps_ignores
    · exact (h.tidy n).of_routes ((h.tidy n).consistent.isBest_of_find hfind).2
        (fun route data ↦ (hroutes route data).mp) rfl rfl
    · exact ⟨⟨rfl, rfl, rfl⟩, hroutes, rfl⟩

/-- The table to which routes were added is consistent. -/
theorem consistent_of_addRoutes {table table' : Ipv4RoutingTable} {routes : List Ipv4Route}
    (h : table.Consistent)
    (hrun : Ipv4RoutingTable.machine.Run table (routes.map Ipv4RoutingTable.Event.addRoute)
      table') : table'.Consistent := by
  induction routes generalizing table with
  | nil =>
    obtain rfl := Machine.run_nil_iff.mp hrun
    exact h
  | cons route routes ih =>
    obtain ⟨next, hstep, hrest⟩ := Machine.run_cons_iff.mp hrun
    have hadmissible : table.Admissible (.addRoute route) := trivial
    exact ih (h.step hadmissible hstep) hrest

theorem Network.Started.sound (h : network.Started) : network.Sound links := by
  have hnone : ∀ n route data, ¬ (network.nodes n).HasRoute route data := by
    intro n route data hroute
    have hdata := hroute.data
    rw [(h.nodes n).dsdvRoutes] at hdata
    cases hdata
  exact
    { source := h.source
      tidy := by
        intro n
        obtain ⟨useAdminDist, routes, hrun⟩ := (h.nodes n).table
        exact
          { consistent :=
              consistent_of_addRoutes (Ipv4RoutingTable.consistent_empty useAdminDist) hrun
            lifetime := (h.nodes n).lifetime
            netmask := fun route data hroute ↦ absurd hroute (hnone n route data)
            valid := fun route data hroute ↦ absurd hroute (hnone n route data)
            foreign := fun route data hroute ↦ absurd hroute (hnone n route data)
            unique := fun route data _ _ hroute ↦ absurd hroute (hnone n route data)
            made := fun route data hroute ↦ absurd hroute (hnone n route data) }
      routes := fun n route data hroute ↦ absurd hroute (hnone n route data)
      onAir := by
        rw [h.onAir]
        exact nofun
      held := by
        intro n
        rw [(h.nodes n).forwardList]
        exact nofun
      returned := by
        rw [h.returned]
        exact nofun }

theorem Network.Sound.accurate (h : network.Sound links) {route : Ipv4Route}
    {data : DsdvIpv4Route} (hroute : (network.nodes n).HasRoute route data) :
    Accurate links n route data := by
  have hmade := (h.tidy n).made route data hroute
  have hbacked := h.routes n route data hroute
  have hgateway : route.gateway = data.accepted.transmitter := hmade.gateway.trans hbacked.1.next
  exact
    { source := hmade.dest.symm
      gateway := hgateway
      neighbour := hgateway ▸ hbacked.2
      metric := hmade.metric.trans hbacked.1.hops }

/-- A node is labelled by its route for a source. -/
def Network.Labelled (network : Network) (src n : Ipv4Address) (k : RouteLabel ℤ) : Prop :=
  ∃ route data, (network.nodes n).HasRoute route data ∧ route.dest = src ∧ label route data = k

theorem Network.Sound.label_unique (h : network.Sound links) (src : Ipv4Address) :
    ∀ n k l, network.Labelled src n k → network.Labelled src n l → k = l := by
  rintro n k l ⟨route, data, hroute, hdest, rfl⟩ ⟨route', data', hroute', hdest', rfl⟩
  have hsame := (h.tidy n).unique route data route' data' hroute hroute'
    (hdest.trans hdest'.symm)
  subst hsame
  rw [Option.some.inj (hroute.data.symm.trans hroute'.data)]

/-- The gateway has a smaller label. -/
theorem Network.Sound.loopFree (h : network.Sound links) (src : Ipv4Address) :
    LoopFree (network.NextHop src) := by
  apply loopFree_of_label (h.label_unique src)
  rintro a b c ⟨route, data, hroute, hdest, rfl⟩ ⟨route', data', hroute', hdest', -⟩
  have hmade := (h.tidy a).made route data hroute
  have hbacked := (h.routes a route data hroute).1
  have hsrc : data.accepted.hello.srcAddress = src := hmade.dest.symm.trans hdest
  have hgateway : route.gateway = data.accepted.transmitter := (h.accurate hroute).gateway
  have hoffer := hbacked.offer
  rw [← hgateway, hsrc] at hoffer
  rcases hoffer with hself | ⟨better, data'', hbetter, hdest'', hle⟩
  · have hforeign := (h.tidy _).foreign route' data' hroute'
    rw [h.source, hself] at hforeign
    exact absurd hdest' hforeign
  · refine ⟨_, _, ⟨route, data, hroute, hdest, rfl⟩,
      ⟨better, data'', hbetter, hdest'', rfl⟩, hle.trans_lt ?_⟩
    rw [hmade.label_eq, DsdvHello.label, routeLabel_lt_iff]
    exact .inr ⟨rfl, by omega⟩

/-- In every state that a network reaches while no route expires, each DSDV route leads to the
neighbour that transmitted the accepted hello and counts its hops, and the next hops towards any
source form no cycle. -/
theorem loopFree_of_run {events : List (SimTime × FloodEvent)} (hstarted : network.Started)
    (hrun : (floods links).Run network events network') :
    (∀ n route data, (network'.nodes n).HasRoute route data → Accurate links n route data) ∧
      ∀ src, LoopFree (network'.NextHop src) := by
  have hsound : network'.Sound links :=
    hrun.invariant (fun _ _ _ h hstep ↦ h.step hstep) hstarted.sound
  exact ⟨fun _ _ _ ↦ hsound.accurate, hsound.loopFree⟩

/-- A node whose table has no other routes. -/
def freshNode (isForwardHello : Bool) (source : Ipv4Address) : Dsdv where
  isForwardHello := isForwardHello
  source := source
  routeLifetime := 5000000000000

theorem started_freshNode (isForwardHello : Bool) (source : Ipv4Address) :
    (freshNode isForwardHello source).Started where
  sequencenumber := rfl
  lifetime := by
    show (0 : ℤ) < 5000000000000
    decide
  table := ⟨false, [], .nil _⟩
  dsdvRoutes := rfl
  forwardList := rfl

/-- Nodes with successive addresses are neighbours. -/
def Adjacent (a b : Ipv4Address) : Prop := a + 1 = b ∨ b + 1 = a

instance (a b : Ipv4Address) : Decidable (Adjacent a b) := inferInstanceAs (Decidable (_ ∨ _))

section Witness

instance (links : Ipv4Address → Ipv4Address → Prop) [DecidableRel links] (network : Network)
    (now : SimTime) : (event : FloodEvent) → Decidable (network.Ready links now event)
  | .helloTimer n => inferInstanceAs (Decidable ((network.nodes n).Unexpired now))
  | .forwardTimer .. => inferInstanceAs (Decidable (_ ∧ _))
  | .receive n index ptr =>
    match h : network.onAir[index]? with
    | none => isFalse fun hready ↦ by simp [Network.Ready, h] at hready
    | some packet => decidable_of_iff ((network.nodes n).Unexpired now ∧
        (network.nodes n).Fresh ptr ∧ links packet.transmitter n) (by simp [Network.Ready, h])
  | .receiveReturned index ptr =>
    match h : network.returned[index]? with
    | none => isFalse fun hready ↦ by simp [Network.Ready, h] at hready
    | some (n, _) => decidable_of_iff ((network.nodes n).Unexpired now ∧
        (network.nodes n).Fresh ptr) (by simp [Network.Ready, h])
  | .findRoute n _ => inferInstanceAs (Decidable ((network.nodes n).Unexpired now))

instance (network : Network) (event : SimTime × FloodEvent) :
    Decidable ((floods Adjacent).Enabled network event) :=
  inferInstanceAs (Decidable (_ ∧ _))

/-- The last node of the chain forwards from the list. -/
def chain : Network where
  nodes n := freshNode (n = 3) n

theorem started_chain : chain.Started where
  source _ := rfl
  nodes _ := started_freshNode _ _
  onAir := rfl
  returned := rfl

/-- The hello of the first node reaches the last one through the one between them, comes back from
the dispatcher there, and is followed by the next one. -/
theorem loopFree_of_run_chain :
    ∃ network, (floods Adjacent).Run chain
        [(0, .helloTimer 1), (1, .receive 2 0 1), (2, .receive 3 1 1), (3, .forwardTimer 3 0),
          (3, .receiveReturned 0 2), (4, .findRoute 3 1), (5, .helloTimer 1),
          (6, .receive 2 2 2)] network ∧
      (∀ n route data, (network.nodes n).HasRoute route data → Accurate Adjacent n route data) ∧
      ∀ src, LoopFree (network.NextHop src) := by
  refine Machine.exists_run_imp (fun _ ↦ True) (by decide +kernel) ?_
  intro network hrun _
  exact loopFree_of_run started_chain hrun

end Witness

end Inet4.Dsdv
