import Inet4.DistanceVector
import Inet4.Machine
import Inet4.Rip.Table

/-!
# Exchanges of RIP routers

The routers of a static network and the datagrams between them.  A multicast on a link may be
received by any router with an interface there, at any later time and any number of times, or not at
all.  The answer to a request is a unicast, which IP routes: it leaves on some interface of its
sender and arrives on some interface of its addressee.  The receiver adds the metric of the
interface of arrival and only asks whether it has an interface in the network of the sender's
address.  Where responses arrive on links of their senders, the finite metrics are never less than
the distances.
-/

namespace Inet4.Rip

open List

variable {R A L : Type}

/-- A datagram, the router that sent it and the link on which it left. -/
structure Datagram (R A L : Type) where
  sender : R
  packet : RipPacket A
  srcAddr : A
  srcPort : ℕ
  destAddr : Option A
  link : L

/-- A router has a table once it has started. -/
structure Network (R A L : Type) where
  tables : R → Option (List (RipRoute A)) := fun _ ↦ none
  clock : SimTime := 0
  datagrams : List (Datagram R A L) := []

inductive ExchangeEvent (R : Type)
  | start (r : R)
  /-- The timer of the regular or of the triggered updates. -/
  | update (r : R) (triggered : Bool)
  /-- A datagram arrives on an interface.  IP routes an answer to another one. -/
  | receive (r : R) (index : ℕ) (interfaceId : ℕ) (hopLimit : ℕ) (outInterfaceId : ℕ)

variable (config : R → Config A L)

/-- The interface of a router with a number. -/
def getInterface (r : R) (interfaceId : ℕ) : Option (InterfaceEntry A L) :=
  (config r).ift.find? fun ie ↦ ie.interfaceId = interfaceId

/-- The datagram of a packet that a router sends.  Only a multicast is sent on a given interface. -/
def toDatagram (r : R) (outInterfaceId : ℕ) (outgoing : Outgoing A) : Option (Datagram R A L) :=
  (getInterface config r
      (if outgoing.destAddr.isNone then outgoing.interfaceId else outInterfaceId)).map fun ie ↦
    { sender := r
      packet := outgoing.packet
      srcAddr := ie.address
      srcPort := (config r).ripUdpPort
      destAddr := outgoing.destAddr
      link := ie.link }

section Machine

variable [DecidableEq R] [DecidableEq A]

namespace Network

variable (network : Network R A L)

/-- The table of a router after an event, and what it sent. -/
def put (now : SimTime) (r : R) (outInterfaceId : ℕ)
    (result : List (RipRoute A) × List (Outgoing A)) : Network R A L where
  tables := Function.update network.tables r (some result.1)
  clock := now
  datagrams := network.datagrams ++ result.2.filterMap (toDatagram config r outInterfaceId)

def handle :
    SimTime × ExchangeEvent R → Except Fault (Network R A L)
  | (now, .start r) => .ok (network.put config now r 0 (config r).startRIPRouting)
  | (now, .update r triggered) =>
    match network.tables r with
    | none => .error .undefinedBehaviour
    | some table => do
      let result ← (config r).processUpdate now table triggered
      return network.put config now r 0 result
  | (now, .receive r index interfaceId hopLimit outInterfaceId) =>
    match network.tables r, network.datagrams[index]? with
    | some table, some datagram => do
      let result ← (config r).handlePacket now table
        { packet := datagram.packet
          srcAddr := datagram.srcAddr
          srcPort := datagram.srcPort
          interfaceId := interfaceId
          hopLimit := hopLimit }
      return network.put config now r outInterfaceId result
    | _, _ => .error .undefinedBehaviour

/-- A router starts once, a multicast arrives on an interface of its link, and a unicast at the
router that has the address. -/
def Ready : ExchangeEvent R → Prop
  | .start r => network.tables r = none
  | .update r _ => network.tables r ≠ none
  | .receive r index interfaceId _ _ => network.tables r ≠ none ∧
    ∃ datagram ∈ network.datagrams[index]?, ∃ ie ∈ getInterface config r interfaceId,
      datagram.destAddr = none ∧ ie.link = datagram.link ∨
        ∃ address ∈ datagram.destAddr, (config r).isLocalAddress address = true

end Network

/-- A response arrives on a link of the router that sent it. -/
def Network.Direct (network : Network R A L) : SimTime × ExchangeEvent R → Prop
  | (_, .receive r index interfaceId _ _) =>
    ∀ datagram ∈ network.datagrams[index]?, ∀ receiving ∈ getInterface config r interfaceId,
      datagram.packet.command = .RIP_RESPONSE →
        ∃ sending ∈ (config datagram.sender).ift, sending.link = receiving.link
  | _ => True

def exchanges : Machine (Network R A L) (SimTime × ExchangeEvent R) Fault where
  Enabled network event := network.clock ≤ event.1 ∧ network.Ready config event.2
  handle network event := network.handle config event

end Machine

/-- The metric that a router adds to what it hears of another one on a common link. -/
def Hears (s r : R) (metric : ℕ) : Prop :=
  ∃ sending ∈ (config s).ift, ∃ interfaceId receiving ripInterface,
    getInterface config r interfaceId = some receiving ∧ sending.link = receiving.link ∧
      (config r).findRipInterfaceById interfaceId = some ripInterface ∧
      ripInterface.metric = metric

/-- A router has an interface in the prefix. -/
def Attached (dest : L3Address A) (prefixLength : ℕ) (r : R) (metric : ℕ) : Prop :=
  ∃ route ∈ (config r).interfaceRoutes, some route.destination = dest ∧
    route.prefixLength = prefixLength ∧ (config r).getInterfaceMetric route.ie = metric

/-- The paths to a prefix. -/
def paths (dest : L3Address A) (prefixLength : ℕ) : CostNetwork R where
  attached := Attached config dest prefixLength
  hears := Hears config

/-- Another router with an interface on a common link. -/
def Neighbour (r s : R) : Prop :=
  s ≠ r ∧ ∃ sending ∈ (config s).ift, ∃ receiving ∈ (config r).ift, sending.link = receiving.link

/-- A neighbour with an address has advertised a prefix with a finite metric. -/
def Advertised (datagrams : List (Datagram R A L)) (r : R) (address : A) (dest : L3Address A)
    (prefixLength : ℕ) : Prop :=
  ∃ datagram ∈ datagrams, datagram.srcAddr = address ∧ Neighbour config r datagram.sender ∧
    (∃ ie ∈ (config datagram.sender).ift, ie.address = address) ∧
    datagram.packet.command = .RIP_RESPONSE ∧ ∃ entry ∈ datagram.packet.entry,
      entry.address = dest ∧ entry.prefixLength = prefixLength ∧
        entry.metric < RIP_INFINITE_METRIC

/-- A finite metric is not less than the distance, and the next hop, which only the routes of
interfaces do without, has advertised the prefix. -/
structure Justified (datagrams : List (Datagram R A L)) (r : R) (route : RipRoute A) : Prop where
  metric : (paths config route.dest route.prefixLength).distance r ≤ route.metric
  nextHop : route.type = .RIP_ROUTE_INTERFACE ∧ route.nextHop = none ∨
    ∃ address, route.nextHop = some address ∧
      Advertised config datagrams r address route.dest route.prefixLength

/-- A datagram comes from an interface of its sender.  It is a request for the whole table, or its
finite metrics are not less than the distances of the sender. -/
structure Honest (datagram : Datagram R A L) : Prop where
  source : ∃ ie ∈ (config datagram.sender).ift, ie.address = datagram.srcAddr
  content : datagram.packet = wholeTable ∨ datagram.packet.command = .RIP_RESPONSE ∧
    ∀ entry ∈ datagram.packet.entry, entry.nextHop = none ∧
      (entry.metric < RIP_INFINITE_METRIC →
        (paths config entry.address entry.prefixLength).distance datagram.sender ≤ entry.metric)

/-- What holds of each route in a table. -/
def Sound (datagrams : List (Datagram R A L)) (r : R) (route : RipRoute A) : Prop :=
  route.metric < RIP_INFINITE_METRIC → Justified config datagrams r route

structure Network.Sound (network : Network R A L) : Prop where
  datagrams : ∀ datagram ∈ network.datagrams, Honest config datagram
  routes : ∀ r, ∀ table ∈ network.tables r, ∀ route ∈ table,
    Rip.Sound config network.datagrams r route

variable {config} {datagrams datagrams' : List (Datagram R A L)}
variable {r : R} {now : SimTime} {result : List (RipRoute A) × List (Outgoing A)}

theorem Sound.mono {route : RipRoute A} (h : Sound config datagrams r route)
    (hsub : datagrams ⊆ datagrams') : Sound config datagrams' r route := by
  intro hfinite
  have hjust := h hfinite
  refine ⟨hjust.metric, hjust.nextHop.imp_right ?_⟩
  rintro ⟨address, hnextHop, datagram, hdatagram, hrest⟩
  exact ⟨address, hnextHop, datagram, hsub hdatagram, hrest⟩

theorem stable_sound (datagrams : List (Datagram R A L)) (r : R) :
    Stable (Sound config datagrams r) where
  infinite _ hinfinite hfinite := absurd hfinite (not_lt.mpr hinfinite)
  congr := by
    rintro route route' ⟨htype, hdest, hprefix, hnextHop, hmetric⟩ h hfinite
    have hjust := h (hmetric ▸ hfinite)
    constructor
    · rw [hdest, hprefix, hmetric]
      exact hjust.metric
    · rw [htype, hdest, hprefix, hnextHop]
      exact hjust.nextHop

theorem getInterface_eq_some {interfaceId : ℕ} {ie : InterfaceEntry A L}
    (h : getInterface config r interfaceId = some ie) : ie ∈ (config r).ift :=
  mem_of_find?_eq_some h

/-- What a router sends is honest when it is a request for the whole table or reports its routes. -/
theorem honest_toDatagram {outInterfaceId : ℕ} {outgoing : Outgoing A} {datagram : Datagram R A L}
    (hdatagram : toDatagram config r outInterfaceId outgoing = some datagram)
    (hsent : outgoing.packet = wholeTable ∨ Reports (Sound config datagrams r) outgoing.packet) :
    Honest config datagram := by
  obtain ⟨ie, hie, rfl⟩ := Option.map_eq_some_iff.mp hdatagram
  refine ⟨⟨ie, getInterface_eq_some hie, rfl⟩, ?_⟩
  rcases hsent with hwhole | ⟨hcommand, hentries⟩
  · exact .inl hwhole
  · refine .inr ⟨hcommand, fun entry hentry ↦ ⟨(hentries entry hentry).1, fun hfinite ↦ ?_⟩⟩
    obtain ⟨route, hsound, hdest, hprefix, hmetric⟩ := (hentries entry hentry).2 hfinite
    rw [← hdest, ← hprefix, ← hmetric]
    exact (hsound (hmetric ▸ hfinite)).metric

/-- The routes of the interfaces. -/
theorem sound_importRoute {route : InterfaceRoute A L}
    (hroute : route ∈ (config r).interfaceRoutes) :
    Sound config datagrams r ((config r).importRoute route) := by
  intro _
  refine ⟨?_, .inl ⟨rfl, rfl⟩⟩
  apply CostNetwork.distance_le_of_attached
  exact ⟨route, hroute, rfl, rfl, rfl⟩

section Steps

variable [DecidableEq R] [DecidableEq A] {network network' : Network R A L}

omit [DecidableEq A] in
/-- One router handles an event. -/
theorem Network.Sound.put {outInterfaceId : ℕ} (h : network.Sound config)
    (hroutes : ∀ route ∈ result.1, Rip.Sound config network.datagrams r route)
    (hsent : ∀ outgoing ∈ result.2, outgoing.packet = wholeTable ∨
      Reports (Rip.Sound config network.datagrams r) outgoing.packet) :
    (network.put config now r outInterfaceId result).Sound config where
  datagrams := by
    intro datagram hdatagram
    rcases mem_append.mp hdatagram with hold | hnew
    · exact h.datagrams datagram hold
    · obtain ⟨outgoing, houtgoing, hto⟩ := mem_filterMap.mp hnew
      exact honest_toDatagram hto (hsent outgoing houtgoing)
  routes := by
    intro s table htable route hroute
    have hsub : network.datagrams ⊆ (network.put config now r outInterfaceId result).datagrams :=
      subset_append_left _ _
    by_cases hs : s = r
    · subst hs
      have htable : some result.1 = some table :=
        (Function.update_self s _ network.tables).symm.trans htable
      obtain rfl := Option.some.inj htable
      exact (hroutes route hroute).mono hsub
    · have htable : network.tables s = some table :=
        (Function.update_of_ne hs _ network.tables).symm.trans htable
      exact (h.routes s table htable route hroute).mono hsub

omit [DecidableEq R] in
/-- An honest response teaches a router no less than its distance, on a link of the sender. -/
theorem learns_of_honest {datagram : Datagram R A L} (hhonest : Honest config datagram)
    (hmem : datagram ∈ datagrams) (hcommand : datagram.packet.command = .RIP_RESPONSE)
    {interfaceId hopLimit : ℕ} {receiving : InterfaceEntry A L}
    {incomingIe : RipInterfaceEntry A L}
    (hreceiving : getInterface config r interfaceId = some receiving)
    (hlink : ∃ sending ∈ (config datagram.sender).ift, sending.link = receiving.link)
    (hincoming : (config r).findRipInterfaceById interfaceId = some incomingIe)
    (hvalid : (config r).isValidResponse
      { packet := datagram.packet
        srcAddr := datagram.srcAddr
        srcPort := datagram.srcPort
        interfaceId := interfaceId
        hopLimit := hopLimit } = true)
    {entry : RipEntry A} (hentry : entry ∈ datagram.packet.entry) :
    Learns (Sound config datagrams r) incomingIe datagram.srcAddr entry := by
  intro route hdest hprefix hmetric hfinite hnextHop _
  obtain ⟨source, hsource, haddress⟩ := hhonest.source
  obtain ⟨sending, hsending, hsendingLink⟩ := hlink
  have hcontent : datagram.packet.command = .RIP_RESPONSE ∧ ∀ entry ∈ datagram.packet.entry, _ :=
    hhonest.content.resolve_left fun hwhole ↦ by
      rw [hwhole] at hcommand
      cases hcommand
  have hheard : learnedMetric incomingIe entry = entry.metric + max incomingIe.metric 1 ∧
      entry.metric < RIP_INFINITE_METRIC := by
    rw [hmetric] at hfinite
    unfold learnedMetric at hfinite ⊢
    omega
  have hhears : Hears config datagram.sender r incomingIe.metric :=
    ⟨sending, hsending, interfaceId, receiving, incomingIe, hreceiving, hsendingLink, hincoming,
      rfl⟩
  constructor
  · rw [hdest, hprefix, hmetric, hheard.1]
    have hsender := ((hcontent.2 entry hentry).2 hheard.2)
    calc
      (paths config entry.address entry.prefixLength).distance r ≤
          (entry.metric + incomingIe.metric : ℕ) :=
        CostNetwork.distance_le_add hsender hhears
      _ ≤ (entry.metric + max incomingIe.metric 1 : ℕ) := by
        exact_mod_cast Nat.add_le_add_left (le_max_left _ _) _
  · right
    refine ⟨datagram.srcAddr, hnextHop, datagram, hmem, rfl, ⟨?_, sending, hsending, receiving,
      getInterface_eq_some hreceiving, hsendingLink⟩,
      ⟨source, hsource, haddress⟩, hcommand, entry, hentry, hdest.symm, hprefix.symm, hheard.2⟩
    -- a router does not accept its own responses
    intro hself
    rw [hself] at hsource
    have hlocal : (config r).isLocalAddress datagram.srcAddr = true :=
      any_eq_true.mpr ⟨source, hsource, by simpa using haddress⟩
    simp [Config.isValidResponse, hlocal] at hvalid

theorem Network.Sound.step {event : SimTime × ExchangeEvent R} (h : network.Sound config)
    (hstep : ((exchanges config).restrict (Network.Direct config)).Step network event network') :
    network'.Sound config := by
  obtain ⟨⟨⟨-, hready⟩, hdirect⟩, hhandle⟩ := hstep
  obtain ⟨now, event⟩ := event
  cases event with
  | start r =>
    obtain rfl := Except.ok.inj hhandle
    apply h.put
    · intro route hroute
      obtain ⟨imported, himported, rfl⟩ := mem_map.mp hroute
      exact sound_importRoute (mem_of_mem_filter himported)
    · intro outgoing houtgoing
      obtain ⟨ripInterface, -, rfl⟩ := mem_map.mp houtgoing
      exact .inl rfl
  | update r triggered =>
    simp only [Machine.restrict, exchanges, handle] at hhandle
    cases htable : network.tables r with
    | none => exact absurd htable hready
    | some table =>
      rw [htable] at hhandle
      obtain ⟨result, hupdate, rfl⟩ := bind_pure_eq_ok hhandle
      have hsends := (stable_sound network.datagrams r).processUpdate
        (h.routes r table htable) hupdate
      exact h.put hsends.routes fun outgoing houtgoing ↦ .inr (hsends.sent outgoing houtgoing)
  | receive r index interfaceId hopLimit outInterfaceId =>
    obtain ⟨-, datagram, hdatagram, receiving, hreceiving, -⟩ := hready
    have hmem := mem_of_getElem? hdatagram
    have hhonest := h.datagrams datagram hmem
    simp only [Machine.restrict, exchanges, handle] at hhandle
    cases htable : network.tables r with
    | none =>
      rw [htable] at hhandle
      cases hhandle
    | some table =>
      rw [htable, hdatagram] at hhandle
      obtain ⟨result, hpacket, rfl⟩ := bind_pure_eq_ok hhandle
      have hroutes := h.routes r table htable
      have hstable : Stable (Rip.Sound config network.datagrams r) := stable_sound _ _
      unfold Config.handlePacket at hpacket
      split at hpacket
      · rename_i hcommand
        have hwhole : datagram.packet = wholeTable :=
          hhonest.content.resolve_right fun hresponse ↦ by
          rw [hresponse.1] at hcommand
          cases hcommand
        have hsends := hstable.processRequest hroutes hwhole hpacket
        exact h.put hsends.routes fun outgoing houtgoing ↦ .inr (hsends.sent outgoing houtgoing)
      · rename_i hcommand
        obtain ⟨table', hresponse, rfl⟩ := bind_pure_eq_ok hpacket
        apply h.put _ fun _ hnone ↦ absurd hnone not_mem_nil
        have hcontent := hhonest.content.resolve_left fun hwhole ↦ by
          rw [hwhole] at hcommand
          cases hcommand
        apply hstable.processResponse hroutes (fun entry hentry ↦ (hcontent.2 entry hentry).1) _
          hresponse
        intro incomingIe hincoming hvalid entry hentry
        exact learns_of_honest hhonest hmem hcommand hreceiving
          (hdirect datagram hdatagram receiving hreceiving hcommand) hincoming hvalid hentry

/-- In every state that a static network reaches with responses on links of their senders, no router
has a finite metric for a prefix that is less than its distance, and the next hop of a route with a
finite metric is a neighbour that advertised the prefix with a finite metric. -/
theorem justified_of_run {events : List (SimTime × ExchangeEvent R)}
    (hrun : ((exchanges config).restrict (Network.Direct config)).Run {} events network) :
    ∀ r, ∀ table ∈ network.tables r, ∀ route ∈ table, route.metric < RIP_INFINITE_METRIC →
      Justified config network.datagrams r route := by
  have hsound : network.Sound config := by
    apply hrun.invariant (fun _ _ _ h hstep ↦ h.step hstep)
    exact ⟨nofun, fun _ _ h ↦ by cases h⟩
  exact hsound.routes

end Steps

section Decidable

variable [DecidableEq R] [DecidableEq A] [DecidableEq L]

instance (config : R → Config A L) (network : Network R A L) :
    DecidablePred ((exchanges config).Enabled network)
  | (now, .start r) => inferInstanceAs (Decidable (network.clock ≤ now ∧ network.tables r = none))
  | (now, .update r _) =>
    inferInstanceAs (Decidable (network.clock ≤ now ∧ network.tables r ≠ none))
  | (_, .receive ..) => inferInstanceAs (Decidable (_ ∧ _ ≠ none ∧ _))

instance (config : R → Config A L) (network : Network R A L) :
    DecidablePred (network.Direct config)
  | (_, .receive ..) => inferInstanceAs (Decidable (∀ _ ∈ _, ∀ _ ∈ _, _ → ∃ _ ∈ _, _ = _))
  | (_, .start _) | (_, .update ..) => .isTrue trivial

end Decidable

/-- The interface of a router on a link; the first digit of an address is the one of the router. -/
def interfaceOn (r link : ℕ) : InterfaceEntry ℕ ℕ where
  interfaceId := link
  address := 10 * r + link
  link := link
  inNetwork address := address % 10 = link

/-- A router is on the link with its own number and on the next one, and is attached to the
first. -/
def chain (r : ℕ) : Config ℕ ℕ where
  routeExpiryTime := 180000000000000
  routePurgeTime := 120000000000000
  ift := [interfaceOn r r, interfaceOn r (r + 1)]
  ripInterfaces :=
    [{ ie := interfaceOn r r, metric := 2, mode := .SPLIT_HORIZON_POISON_REVERSE },
      { ie := interfaceOn r (r + 1), metric := 3, mode := .SPLIT_HORIZON }]
  interfaceRoutes := [{ destination := r, prefixLength := 24, ie := interfaceOn r r }]

/-- The prefix of the first router reaches the last one in an answer and a triggered update. -/
theorem justified_of_run_chain :
    ∃ network, ((exchanges chain).restrict (Network.Direct chain)).Run {}
        [(0, .start 1), (1, .start 2), (2, .receive 1 2 2 64 2), (3, .receive 2 4 2 64 0),
          (4, .start 3), (5, .update 2 true), (6, .receive 3 8 3 255 0), (7, .update 3 false)]
        network ∧
      ∀ r, ∀ table ∈ network.tables r, ∀ route ∈ table, route.metric < RIP_INFINITE_METRIC →
        Justified chain network.datagrams r route := by
  refine Machine.exists_run_imp (fun _ ↦ True) (by decide +kernel) ?_
  intro network hrun _
  exact justified_of_run hrun

/-- An interface of a router of `detour`. -/
structure Port where
  link : ℕ
  metric : ℕ
  mode : RipMode := .SPLIT_HORIZON
  prefixLength : ℕ := 24

/-- The links 1 to 4 are between the first two routers, between the first and the last one, between
all of them, and of the second router alone.  The first router is passive on link 3, and its network
on link 1 has a longer prefix than that of the second one. -/
def ports : Fin 3 → List Port
  | 0 => [⟨1, 2, .SPLIT_HORIZON, 25⟩, ⟨2, 1, .SPLIT_HORIZON, 24⟩, ⟨3, 2, .PASSIVE, 24⟩]
  | 1 => [⟨1, 1, .SPLIT_HORIZON, 24⟩, ⟨3, 1, .SPLIT_HORIZON, 24⟩, ⟨4, 1, .SPLIT_HORIZON, 24⟩]
  | 2 => [⟨2, 1, .SPLIT_HORIZON, 24⟩, ⟨3, 1, .SPLIT_HORIZON, 24⟩]

def detour (r : Fin 3) : Config ℕ ℕ where
  routeExpiryTime := 180000000000000
  routePurgeTime := 120000000000000
  ift := (ports r).map fun port ↦ interfaceOn r port.link
  ripInterfaces := (ports r).map fun port ↦
    { ie := interfaceOn r port.link, metric := port.metric, mode := port.mode }
  interfaceRoutes := (ports r).map fun port ↦
    { destination := port.link, prefixLength := port.prefixLength, ie := interfaceOn r port.link }

def distanceToLast : Fin 3 → ℕ
  | 0 => 3
  | 1 => 1
  | 2 => 2

/-- The first router is three away from the network of the second one, on every path. -/
theorem le_distance_detour : ((3 : ℕ) : ℕ∞) ≤ (paths detour (some 4) 24).distance 0 := by
  have hattached : ∀ r : Fin 3, ∀ route ∈ (detour r).interfaceRoutes,
      some route.destination = some 4 →
        distanceToLast r ≤ (detour r).getInterfaceMetric route.ie := by
    decide
  have hhears : ∀ s r : Fin 3, ∀ sending ∈ (detour s).ift,
    ∀ ripInterface ∈ (detour r).ripInterfaces,
      ∀ receiving ∈ getInterface detour r ripInterface.ie.interfaceId,
        sending.link = receiving.link →
          distanceToLast r ≤ distanceToLast s + ripInterface.metric := by
    decide
  have hlabels (r : Fin 3) : (distanceToLast r : ℕ∞) ≤ (paths detour (some 4) 24).distance r := by
    apply CostNetwork.le_distance
    · rintro r _ ⟨route, hroute, hdest, -, rfl⟩
      exact hattached r route hroute hdest
    · rintro s r _ ⟨sending, hsending, interfaceId, receiving, ripInterface, hreceiving, hlink,
        hrip,
        rfl⟩
      have hid : ripInterface.ie.interfaceId = interfaceId := by
        simpa using find?_some (l := (detour r).ripInterfaces) hrip
      exact hhears s r sending hsending ripInterface (mem_of_find?_eq_some hrip) receiving
        (hid ▸ hreceiving) hlink
  exact hlabels 0

/-- The second router has learned a longer prefix of the first one's address on link 1 through the
last one when a request from there reaches it.  Its answer goes the same way and arrives on link
2. -/
theorem not_justified_detour :
    ∃ network, (exchanges detour).Run {}
        [(0, .start 0), (1, .start 1), (2, .start 2), (3, .update 0 false),
          (4, .receive 2 8 2 64 0),
          (5, .update 2 false), (6, .receive 1 10 3 64 0), (7, .receive 1 0 1 64 3),
          (8, .receive 0 11 2 64 0)] network ∧
      ∃ table ∈ network.tables 0, ∃ route ∈ table, route.metric < RIP_INFINITE_METRIC ∧
        ¬Justified detour network.datagrams 0 route := by
  refine Machine.exists_run_imp (fun network : Network (Fin 3) ℕ ℕ ↦ ∃ table ∈ network.tables 0,
    ∃ route ∈ table, route.dest = some 4 ∧ route.prefixLength = 24 ∧ route.metric = 2)
    (by decide +kernel) ?_
  rintro network - ⟨table, htable, route, hroute, hdest, hlength, hmetric⟩
  refine ⟨table, htable, route, hroute, by rw [hmetric]; decide, fun h ↦ ?_⟩
  have hle := le_distance_detour.trans (hdest ▸ hlength ▸ h.metric)
  rw [hmetric] at hle
  exact absurd hle (by decide)

end Inet4.Rip
