import Inet4.Dsdv.Node
import Inet4.Ipv4.RoutingTableChanges

/-!
# The host routes of a DSDV node

As long as no route expires, a node has at most one DSDV route for a destination.  A hello message
leaves the routes as they are, or it replaces the route for its source by one with a smaller label.
-/

namespace Inet4

open Ipv4 (Ipv4Address RoutePtr Ipv4Route Ipv4RoutingTable)
open Except (ok)

namespace Ipv4.Ipv4RoutingTable

variable {table table' : Ipv4RoutingTable} {dest : Ipv4Address} {answer : Option RoutePtr}

/-- A lookup changes the cache only. -/
theorem findBestMatchingRoute_eq_ok
    (hfind : table.findBestMatchingRoute dest = .ok (answer, table')) :
    table' = { table with routingCache := table'.routingCache } := by
  unfold findBestMatchingRoute at hfind
  split at hfind
  · obtain ⟨-, rfl⟩ := Prod.mk.inj (ok.inj hfind)
    rfl
  · obtain ⟨-, rfl⟩ := Prod.mk.inj (ok.inj hfind)
    rfl
  · split at hfind
    · cases hfind
    · split at hfind
      · obtain ⟨-, rfl⟩ := Prod.mk.inj (ok.inj hfind)
        rfl
      · obtain ⟨-, rfl⟩ := Prod.mk.inj (ok.inj hfind)
        rfl

/-- The answer is right for the table after the lookup too. -/
theorem Consistent.isBest_of_find (h : table.Consistent)
    (hfind : table.findBestMatchingRoute dest = .ok (answer, table')) :
    table'.IsBest dest answer ∧ table'.Consistent := by
  obtain ⟨answer', after, hfind', hbest, hafter⟩ := h.findBestMatchingRoute dest
  obtain ⟨rfl, rfl⟩ := Prod.mk.inj (ok.inj (hfind'.symm.trans hfind))
  refine ⟨?_, hafter⟩
  rw [findBestMatchingRoute_eq_ok hfind]
  cases answer' with
  | none | some ptr => exact hbest

theorem purge_subset (table : Ipv4RoutingTable) : table.purge.routes ⊆ table.routes := by
  unfold purge
  split
  · exact List.Subset.refl _
  · exact List.filter_sublist.subset

theorem mem_purge {route : Ipv4Route} (hroute : route ∈ table.routes)
    (hvalid : route.isValid = true) : route ∈ table.purge.routes := by
  unfold purge
  split
  · exact hroute
  · exact List.mem_filter.mpr ⟨hroute, hvalid⟩

/-- A route for a single host is added to the others. -/
theorem mem_addRoute_of_host {entry route : Ipv4Route} (hhost : entry.netmask ≠ 0#32)
    (hadd : table.addRoute entry = .ok table') :
    route ∈ table'.routes ↔ route = entry ∨ route ∈ table.routes :=
  mem_addRoute hadd fun hzero ↦ absurd hzero hhost

end Ipv4.Ipv4RoutingTable

namespace Dsdv

theorem matches_host_iff {route : Ipv4Route} {dest : Ipv4Address}
    (hhost : route.netmask = ALLONES_ADDRESS) : route.Matches dest ↔ route.dest = dest := by
  unfold Ipv4Route.Matches Ipv4Address.maskedAddrAreEqual
  rw [hhost, ALLONES_ADDRESS, BitVec.and_allOnes, decide_eq_true_eq, BitVec.xor_eq_zero_iff]
  exact eq_comm

/-- The only netmask of full length. -/
theorem eq_allones_of_length {netmask : Ipv4Address} (hvalid : netmask.isValidNetmask = true)
    (hlength : netmask.getNetmaskLength = 32) : netmask = ALLONES_ADDRESS := by
  have hmask : netmask = Ipv4Address.makeNetmask netmask.getNetmaskLength := by
    simpa [Ipv4Address.isValidNetmask] using hvalid
  rw [hmask, hlength]
  rfl

/-- A route that is at least as good as a host route is one. -/
theorem netmask_of_preferred {useAdminDist : Bool} {route other : Ipv4Route}
    (hroute : route.WellFormed) (hhost : other.netmask = ALLONES_ADDRESS)
    (hpreferred : route.Preferred useAdminDist other) : route.netmask = ALLONES_ADDRESS := by
  have hother : other.getPrefixLength = 32 := by
    rw [Ipv4Route.getPrefixLength, hhost]
    decide
  have hle := Ipv4Address.getNetmaskLength_le route.netmask
  apply eq_allones_of_length hroute.1
  rcases hpreferred with hlonger | ⟨hsame, -⟩
  · rw [hother, Ipv4Route.getPrefixLength] at hlonger
    omega
  · rw [hother] at hsame
    exact hsame.symm

/-- A route in the table that is an object of the derived class. -/
structure HasRoute (node : Dsdv) (route : Ipv4Route) (data : DsdvIpv4Route) : Prop where
  mem : route ∈ node.rt.routes
  data : node.dsdvRoutes.find route.ptr = some data

/-- The label of a route. -/
def label (route : Ipv4Route) (data : DsdvIpv4Route) : RouteLabel ℤ :=
  routeLabel data.sequencenumber.toNat route.metric

/-- A route has the fields of the hello that was accepted. -/
structure MadeFrom (route : Ipv4Route) (data : DsdvIpv4Route) : Prop where
  dest : route.dest = data.accepted.hello.srcAddress
  gateway : route.gateway = data.accepted.hello.nextAddress
  metric : route.metric = data.accepted.hello.hopdistance
  sequencenumber : data.sequencenumber = data.accepted.hello.sequencenumber

theorem MadeFrom.label_eq {route : Ipv4Route} {data : DsdvIpv4Route} (h : MadeFrom route data) :
    label route data = data.accepted.hello.label := by
  rw [label, DsdvHello.label, h.metric, h.sequencenumber]

/-- The routes of a node while none of them expires. -/
structure Tidy (node : Dsdv) : Prop where
  consistent : node.rt.Consistent
  lifetime : 0 < node.routeLifetime
  netmask : ∀ route data, node.HasRoute route data → route.netmask = ALLONES_ADDRESS
  valid : ∀ route data, node.HasRoute route data → route.isValid = true
  foreign : ∀ route data, node.HasRoute route data → route.dest ≠ node.source
  unique : ∀ route data route' data', node.HasRoute route data → node.HasRoute route' data' →
    route.dest = route'.dest → route = route'
  made : ∀ route data, node.HasRoute route data → MadeFrom route data

/-- No route of the module has expired. -/
def Unexpired (node : Dsdv) (now : SimTime) : Prop :=
  ∀ route ∈ node.rt.routes, ∀ data ∈ node.dsdvRoutes.find route.ptr, data.isValid now = true

instance (node : Dsdv) (now : SimTime) : Decidable (node.Unexpired now) :=
  inferInstanceAs (Decidable (∀ _ ∈ _, _))

variable {node node' : Dsdv} {now : SimTime} {ptr : RoutePtr} {packet : Packet}
variable {found : Option RoutePtr} {sent : Option Packet} {route : Ipv4Route}
variable {data : DsdvIpv4Route}

/-- With the same routes a node stays tidy, whatever is cached. -/
theorem Tidy.of_routes (h : node.Tidy) (hconsistent : node'.rt.Consistent)
    (hroutes : ∀ route data, node'.HasRoute route data → node.HasRoute route data)
    (hsource : node'.source = node.source) (hlifetime : node'.routeLifetime = node.routeLifetime) :
    node'.Tidy where
  consistent := hconsistent
  lifetime := hlifetime ▸ h.lifetime
  netmask route data hroute := h.netmask route data (hroutes route data hroute)
  valid route data hroute := h.valid route data (hroutes route data hroute)
  foreign route data hroute := hsource ▸ h.foreign route data (hroutes route data hroute)
  unique route data route' data' hroute hroute' :=
    h.unique route data route' data' (hroutes route data hroute) (hroutes route' data' hroute')
  made route data hroute := h.made route data (hroutes route data hroute)

/-- As long as no route expires, time changes nothing. -/
theorem Tidy.refresh_eq (h : node.Tidy) (hunexpired : node.Unexpired now) :
    node.refresh now = node := by
  have hroutes : node.rt.routes.map (node.refreshRoute now) = node.rt.routes := by
    conv_rhs => rw [← List.map_id node.rt.routes]
    apply List.map_congr_left
    intro route hroute
    cases hdata : node.dsdvRoutes.find route.ptr with
    | none => simp only [refreshRoute, hdata, id_eq]
    | some data =>
      have hnow := hunexpired route hroute data hdata
      have hvalid := h.valid route data ⟨hroute, hdata⟩
      simp only [refreshRoute, hdata, hnow, id_eq]
      rw [← hvalid]
  rw [refresh, hroutes]

/-- The routes are in the table and in the objects of the derived class. -/
theorem hasRoute_of_same (hrt : node'.rt.routes = node.rt.routes)
    (hobjects : node'.dsdvRoutes = node.dsdvRoutes) :
    node'.HasRoute route data ↔ node.HasRoute route data := by
  constructor
  · intro hroute
    exact ⟨hrt ▸ hroute.mem, hobjects ▸ hroute.data⟩
  · intro hroute
    exact ⟨hrt.symm ▸ hroute.mem, hobjects.symm ▸ hroute.data⟩

/-- A useful hello has a smaller label than the route for its source, which was found. -/
theorem Tidy.of_useful (h : node.Tidy)
    (hbest : node.rt.IsBest packet.hello.srcAddress found)
    (huseful : node.isUseful found packet.hello = .ok true) (hroute : node.HasRoute route data)
    (hdest : route.dest = packet.hello.srcAddress) :
    found = some route.ptr ∧ packet.hello.label < label route data := by
  have hnetmask := h.netmask route data hroute
  have hmatch : route.Matches packet.hello.srcAddress := (matches_host_iff hnetmask).mpr hdest
  have hvalid := h.valid route data hroute
  cases found with
  | none => exact absurd hmatch (hbest route hroute.mem hvalid)
  | some ptr =>
    obtain ⟨best, hbest, rfl, -, hmatch', hpreferred⟩ := hbest
    have hhost : best.netmask = ALLONES_ADDRESS :=
      netmask_of_preferred (h.consistent.wellFormed best hbest) hnetmask
        (hpreferred route hroute.mem hvalid hmatch)
    simp only [isUseful, h.consistent.routeAt_of_mem hbest, hhost, ne_eq, not_true_eq_false,
      decide_false, Bool.false_or] at huseful
    cases hdata : node.dsdvRoutes.find best.ptr with
    | none =>
      rw [hdata] at huseful
      cases huseful
    | some data' =>
      have hdest' : best.dest = packet.hello.srcAddress := (matches_host_iff hhost).mp hmatch'
      have hsame := h.unique best data' route data ⟨hbest, hdata⟩ hroute (hdest'.trans hdest.symm)
      subst hsame
      have hsame : data' = data := Option.some.inj (hdata.symm.trans hroute.data)
      subst hsame
      rw [hdata] at huseful
      refine ⟨rfl, ?_⟩
      simpa [label, DsdvHello.label, routeLabel_lt_iff, BitVec.lt_def, BitVec.toNat_eq] using
        ok.inj huseful

/-- The host route that was found is the one for the source of the hello. -/
theorem Tidy.ptr_ne_of_dest_ne (h : node.Tidy)
    (hbest : node.rt.IsBest packet.hello.srcAddress (some ptr)) (hroute : node.HasRoute route data)
    (hdest : route.dest ≠ packet.hello.srcAddress) : route.ptr ≠ ptr := by
  intro hptr
  obtain ⟨best, hmem, hbestptr, -, hmatch, -⟩ := hbest
  have hsame := h.consistent.eq_of_ptr_eq hroute.mem hmem (hptr.trans hbestptr.symm)
  rw [← hsame] at hmatch
  exact hdest ((matches_host_iff (h.netmask route data hroute)).mp hmatch)

theorem Tidy.hasRoute_deleteRoute (h : node.Tidy) :
    (node.deleteRoute ptr).HasRoute route data ↔ node.HasRoute route data ∧ route.ptr ≠ ptr := by
  constructor
  · intro hroute
    have hmem := (Ipv4RoutingTable.mem_deleteRoute h.consistent.nodup).mp hroute.mem
    have hdata := hroute.data
    rw [deleteRoute, AssocMap.find_remove, if_neg hmem.2] at hdata
    exact ⟨⟨hmem.1, hdata⟩, hmem.2⟩
  · intro hboth
    refine ⟨(Ipv4RoutingTable.mem_deleteRoute h.consistent.nodup).mpr ⟨hboth.1.mem, hboth.2⟩, ?_⟩
    exact (AssocMap.find_remove.trans (if_neg hboth.2)).trans hboth.1.data

/-- The old entry is the route for the source of the hello. -/
theorem Tidy.hasRoute_removeOldEntry (h : node.Tidy)
    (hbest : node.rt.IsBest packet.hello.srcAddress found)
    (huseful : node.isUseful found packet.hello = .ok true) :
    (node.removeOldEntry found).HasRoute route data ↔
      node.HasRoute route data ∧ route.dest ≠ packet.hello.srcAddress := by
  have hfound : node.HasRoute route data → route.dest = packet.hello.srcAddress →
      found = some route.ptr := fun hroute hdest ↦ (h.of_useful hbest huseful hroute hdest).1
  cases found with
  | none =>
    constructor
    · intro hroute
      refine ⟨hroute, fun hdest ↦ ?_⟩
      cases hfound hroute hdest
    · exact And.left
  | some ptr =>
    cases hdata : node.dsdvRoutes.find ptr with
    | none =>
      have hkeep : node.removeOldEntry (some ptr) = node := by simp [removeOldEntry, hdata]
      rw [hkeep]
      constructor
      · intro hroute
        refine ⟨hroute, fun hdest ↦ ?_⟩
        have hptr := Option.some.inj (hfound hroute hdest)
        rw [hptr, hroute.data] at hdata
        cases hdata
      · exact And.left
    | some old =>
      have hdelete : node.removeOldEntry (some ptr) = node.deleteRoute ptr := by
        simp [removeOldEntry, hdata]
      rw [hdelete, h.hasRoute_deleteRoute]
      constructor
      · intro hroute
        refine ⟨hroute.1, fun hdest ↦ ?_⟩
        exact hroute.2 (Option.some.inj (hfound hroute.1 hdest)).symm
      · intro hroute
        exact ⟨hroute.1, h.ptr_ne_of_dest_ne hbest hroute.1 hroute.2⟩

theorem Tidy.removeOldEntry (h : node.Tidy) (found : Option RoutePtr) :
    (node.removeOldEntry found).Tidy := by
  unfold Dsdv.removeOldEntry
  split
  · exact h
  · split
    · refine h.of_routes (h.consistent.internalRemoveRoute _) ?_ rfl rfl
      intro route data hroute
      exact (h.hasRoute_deleteRoute.mp hroute).1
    · exact h

/-- The pointer of a new object is not one of a route in the table. -/
def Fresh (node : Dsdv) (ptr : RoutePtr) : Prop := ∀ route ∈ node.rt.routes, route.ptr ≠ ptr

instance (node : Dsdv) (ptr : RoutePtr) : Decidable (node.Fresh ptr) :=
  inferInstanceAs (Decidable (∀ _ ∈ _, _))

theorem Fresh.removeOldEntry (h : node.Fresh ptr) (found : Option RoutePtr) :
    (node.removeOldEntry found).Fresh ptr := by
  unfold Dsdv.removeOldEntry
  split
  · exact h
  · split
    · intro route hroute
      exact h route (Ipv4RoutingTable.internalRemoveRoute_subset _ _ hroute)
    · exact h

theorem hasRoute_addHostRoute (hfresh : node.Fresh ptr)
    (hadd : node.addHostRoute now ptr packet = .ok node') :
    node'.HasRoute route data ↔
      (route = node.newRoute now ptr packet ∧ data = node.newData now packet) ∨
        node.HasRoute route data := by
  obtain ⟨rt, hrt, rfl⟩ := bind_pure_eq_ok hadd
  have hhost : (node.newRoute now ptr packet).netmask ≠ 0#32 :=
    show ALLONES_ADDRESS ≠ 0#32 by decide
  have hmem : route ∈ rt.routes ↔ route = node.newRoute now ptr packet ∨ route ∈ node.rt.routes :=
    Ipv4RoutingTable.mem_addRoute_of_host hhost hrt
  constructor
  · intro hroute
    have hdata := hroute.data
    rw [AssocMap.find_assign] at hdata
    rcases hmem.mp hroute.mem with rfl | hold
    · have hnew : (node.newRoute now ptr packet).ptr = ptr := rfl
      rw [if_pos hnew] at hdata
      exact .inl ⟨rfl, (Option.some.inj hdata).symm⟩
    · rw [if_neg (hfresh route hold)] at hdata
      exact .inr ⟨hold, hdata⟩
  · rintro (⟨rfl, rfl⟩ | hroute)
    · exact ⟨hmem.mpr (.inl rfl), AssocMap.find_assign.trans (if_pos rfl)⟩
    · refine ⟨hmem.mpr (.inr hroute.mem), ?_⟩
      exact (AssocMap.find_assign.trans (if_neg (hfresh route hroute.mem))).trans hroute.data

/-- A route for a new destination leaves a node tidy. -/
theorem Tidy.addHostRoute (h : node.Tidy) (hfresh : node.Fresh ptr)
    (hforeign : packet.hello.srcAddress ≠ node.source)
    (hnew : ∀ route data, node.HasRoute route data → route.dest ≠ packet.hello.srcAddress)
    (hadd : node.addHostRoute now ptr packet = .ok node') : node'.Tidy := by
  have hroutes : ∀ route data, node'.HasRoute route data ↔
      (route = node.newRoute now ptr packet ∧ data = node.newData now packet) ∨
        node.HasRoute route data := fun _ _ ↦ hasRoute_addHostRoute hfresh hadd
  obtain ⟨rt, hrt, hnode⟩ := bind_eq_ok hadd
  have hfresh' : ∀ route ∈ node.rt.routes, route.ptr ≠ (node.newRoute now ptr packet).ptr := hfresh
  obtain rfl := ok.inj hnode
  exact
    { consistent := h.consistent.internalAddRoute hfresh' hrt
      lifetime := h.lifetime
      netmask := by
        intro route data hroute
        rcases (hroutes route data).mp hroute with ⟨rfl, rfl⟩ | hold
        · rfl
        · exact h.netmask route data hold
      valid := by
        intro route data hroute
        rcases (hroutes route data).mp hroute with ⟨rfl, rfl⟩ | hold
        · have hlater : now < now + node.routeLifetime := lt_add_of_pos_right now h.lifetime
          simp [newRoute, newData, DsdvIpv4Route.isValid, hlater]
        · exact h.valid route data hold
      foreign := by
        intro route data hroute
        rcases (hroutes route data).mp hroute with ⟨rfl, rfl⟩ | hold
        · exact hforeign
        · exact h.foreign route data hold
      unique := by
        intro route data route' data' hroute hroute' hdest
        rcases (hroutes route data).mp hroute with ⟨rfl, rfl⟩ | hold
        · rcases (hroutes route' data').mp hroute' with ⟨rfl, rfl⟩ | hold'
          · rfl
          · exact absurd hdest.symm (hnew route' data' hold')
        · rcases (hroutes route' data').mp hroute' with ⟨rfl, rfl⟩ | hold'
          · exact absurd hdest (hnew route data hold)
          · exact h.unique route data route' data' hold hold' hdest
      made := by
        intro route data hroute
        rcases (hroutes route data).mp hroute with ⟨rfl, rfl⟩ | hold
        · exact ⟨rfl, rfl, rfl, rfl⟩
        · exact h.made route data hold }

/-- The fields that no message changes. -/
structure SameSetup (node node' : Dsdv) : Prop where
  source : node'.source = node.source
  isForwardHello : node'.isForwardHello = node.isForwardHello
  routeLifetime : node'.routeLifetime = node.routeLifetime

/-- The routes and the list stay as they are. -/
structure Ignores (node node' : Dsdv) : Prop extends SameSetup node node' where
  routes : ∀ route data, node'.HasRoute route data ↔ node.HasRoute route data
  forwardList : node'.forwardList = node.forwardList

/-- The route for the source of a hello is replaced by one with a smaller label, the other routes
stay, and the hello is forwarded. -/
structure Accepts (node : Dsdv) (now : SimTime) (ptr : RoutePtr) (packet : Packet) (node' : Dsdv)
    (sent : Option Packet) : Prop extends SameSetup node node' where
  smaller : ∀ route data, node.HasRoute route data → route.dest = packet.hello.srcAddress →
    packet.hello.label < label route data
  routes : ∀ route data, node'.HasRoute route data ↔
    (route = node.newRoute now ptr packet ∧ data = node.newData now packet) ∨
      node.HasRoute route data ∧ route.dest ≠ packet.hello.srcAddress
  forwarded : if node.isForwardHello then
      sent = none ∧ node'.forwardList = node.forwardList ++ [packet]
    else node'.forwardList = node.forwardList ∧ sent = some { packet with
      hello :=
        { packet.hello with
          nextAddress := node.source
          hopdistance := packet.hello.hopdistance + 1 }
      packetProtocolTag := .manet
      dispatchProtocolReq := .ipv4 }

theorem forwardHello_eq_ok {result : Dsdv × Option Packet}
    (hforward : node.forwardHello packet = .ok result) :
    result = if node.isForwardHello then
        ({ node with forwardList := node.forwardList ++ [packet] }, none)
      else (node, some { packet with
        hello :=
          { packet.hello with
            nextAddress := node.source
            hopdistance := packet.hello.hopdistance + 1 }
        packetProtocolTag := .manet
        dispatchProtocolReq := .ipv4 }) := by
  obtain ⟨numHops, hhops, hrest⟩ := bind_eq_ok hforward
  obtain rfl := (addInt_eq_ok hhops).1
  split
  · rename_i hmode
    rw [if_pos hmode] at hrest
    exact (ok.inj hrest).symm
  · rename_i hmode
    rw [if_neg hmode] at hrest
    exact (ok.inj hrest).symm

theorem sameSetup_removeOldEntry (node : Dsdv) (found : Option RoutePtr) :
    SameSetup node (node.removeOldEntry found) := by
  unfold removeOldEntry
  split
  · exact ⟨rfl, rfl, rfl⟩
  · split <;> exact ⟨rfl, rfl, rfl⟩

theorem newRoute_removeOldEntry (node : Dsdv) (now : SimTime) (ptr : RoutePtr) (packet : Packet)
    (found : Option RoutePtr) :
    (node.removeOldEntry found).newRoute now ptr packet = node.newRoute now ptr packet ∧
      (node.removeOldEntry found).newData now packet = node.newData now packet := by
  unfold removeOldEntry
  split
  · exact ⟨rfl, rfl⟩
  · split <;> exact ⟨rfl, rfl⟩

/-- A useful hello is accepted. -/
theorem Tidy.accepts (h : node.Tidy) (hfresh : node.Fresh ptr)
    (hforeign : packet.hello.srcAddress ≠ node.source)
    (hbest : node.rt.IsBest packet.hello.srcAddress found)
    (huseful : node.isUseful found packet.hello = .ok true) {added : Dsdv}
    (hadd : (node.removeOldEntry found).addHostRoute now ptr packet = .ok added)
    (hforward : added.forwardHello packet = .ok (node', sent)) :
    Accepts node now ptr packet node' sent ∧ node'.Tidy := by
  have hsetup := sameSetup_removeOldEntry node found
  have hremoved : ∀ route data, (node.removeOldEntry found).HasRoute route data ↔
      node.HasRoute route data ∧ route.dest ≠ packet.hello.srcAddress :=
    fun _ _ ↦ h.hasRoute_removeOldEntry hbest huseful
  have hroutes : ∀ route data, added.HasRoute route data ↔
      (route = node.newRoute now ptr packet ∧ data = node.newData now packet) ∨
        node.HasRoute route data ∧ route.dest ≠ packet.hello.srcAddress := by
    intro route data
    have hnew := newRoute_removeOldEntry node now ptr packet found
    rw [hasRoute_addHostRoute (hfresh.removeOldEntry found) hadd, hremoved, hnew.1, hnew.2]
  have htidy : added.Tidy := by
    apply (h.removeOldEntry found).addHostRoute (hfresh.removeOldEntry found) _ _ hadd
    · rw [hsetup.source]
      exact hforeign
    · intro route data hroute
      exact ((hremoved route data).mp hroute).2
  have hlist : (node.removeOldEntry found).forwardList = node.forwardList := by
    unfold Dsdv.removeOldEntry
    split
    · rfl
    · split <;> rfl
  obtain ⟨rt, -, hadded⟩ := bind_eq_ok hadd
  have hadded : SameSetup node added ∧ added.forwardList = node.forwardList := by
    rw [← ok.inj hadded]
    exact ⟨⟨hsetup.source, hsetup.isForwardHello, hsetup.routeLifetime⟩, hlist⟩
  have hresult := forwardHello_eq_ok hforward
  have hsmaller : ∀ route data, node.HasRoute route data →
      route.dest = packet.hello.srcAddress → packet.hello.label < label route data :=
    fun _ _ hroute hdest ↦ (h.of_useful hbest huseful hroute hdest).2
  by_cases hmode : added.isForwardHello = true
  · rw [if_pos hmode] at hresult
    obtain ⟨rfl, rfl⟩ := Prod.mk.inj hresult
    have hsame : ∀ route data,
        HasRoute { added with forwardList := added.forwardList ++ [packet] } route data ↔
          added.HasRoute route data := fun _ _ ↦ hasRoute_of_same rfl rfl
    constructor
    · exact
        { source := hadded.1.source
          isForwardHello := hadded.1.isForwardHello
          routeLifetime := hadded.1.routeLifetime
          smaller := hsmaller
          routes := fun route data ↦ (hsame route data).trans (hroutes route data)
          forwarded := by
            rw [if_pos (hadded.1.isForwardHello ▸ hmode), ← hadded.2]
            exact ⟨rfl, rfl⟩ }
    · exact htidy.of_routes htidy.consistent (fun route data ↦ (hsame route data).mp) rfl rfl
  · rw [if_neg hmode] at hresult
    obtain ⟨rfl, rfl⟩ := Prod.mk.inj hresult
    constructor
    · exact
        { hadded.1 with
          smaller := hsmaller
          routes := hroutes
          forwarded := by
            rw [if_neg (hadded.1.isForwardHello ▸ hmode), ← hadded.1.source]
            exact ⟨hadded.2, rfl⟩ }
    · exact htidy

/-- A message is ignored or accepted, and the node stays tidy. -/
theorem Tidy.handleMessageWhenUp (h : node.Tidy) (hfresh : node.Fresh ptr)
    (hhandle : node.handleMessageWhenUp now ptr packet = .ok (node', sent)) :
    node'.Tidy ∧ (Ignores node node' ∧ sent = none ∨
      packet.hello.srcAddress ≠ node.source ∧ Accepts node now ptr packet node' sent) := by
  obtain ⟨⟨⟩, -, hrest⟩ := bind_eq_ok hhandle
  split at hrest
  · obtain ⟨rfl, rfl⟩ := Prod.mk.inj (ok.inj hrest)
    exact ⟨h, .inl ⟨⟨⟨rfl, rfl, rfl⟩, fun _ _ ↦ Iff.rfl, rfl⟩, rfl⟩⟩
  · rename_i hforeign
    obtain ⟨⟨found, rt⟩, hfind, hupdate⟩ := bind_eq_ok hrest
    have hbest := h.consistent.isBest_of_find hfind
    have hrt : rt.routes = node.rt.routes := by
      rw [Ipv4RoutingTable.findBestMatchingRoute_eq_ok hfind]
    have hsame : ∀ route data, HasRoute { node with rt := rt } route data ↔
        node.HasRoute route data := fun _ _ ↦ hasRoute_of_same hrt rfl
    have htidy : Tidy { node with rt := rt } :=
      h.of_routes hbest.2 (fun route data ↦ (hsame route data).mp) rfl rfl
    obtain ⟨useful, huseful, hrest⟩ := bind_eq_ok hupdate
    cases useful with
    | false =>
      obtain ⟨rfl, rfl⟩ := Prod.mk.inj (ok.inj hrest)
      exact ⟨htidy, .inl ⟨⟨⟨rfl, rfl, rfl⟩, hsame, rfl⟩, rfl⟩⟩
    | true =>
      obtain ⟨added, hadd, hforward⟩ := bind_eq_ok hrest
      have hfresh' : Fresh { node with rt := rt } ptr := by
        unfold Fresh
        rw [hrt]
        exact hfresh
      have haccepts := htidy.accepts hfresh' hforeign hbest.1 huseful hadd hforward
      refine ⟨haccepts.2, .inr ⟨hforeign, ?_⟩⟩
      exact
        { source := haccepts.1.source
          isForwardHello := haccepts.1.isForwardHello
          routeLifetime := haccepts.1.routeLifetime
          smaller := fun route data hroute ↦
            haccepts.1.smaller route data ((hsame route data).mpr hroute)
          routes := by
            intro route data
            rw [haccepts.1.routes, hsame]
            rfl
          forwarded := haccepts.1.forwarded }

/-- With no expired route only routes of other modules are purged. -/
theorem Tidy.sendHello (h : node.Tidy) :
    node.sendHello.1.Tidy ∧ ∀ route data,
      node.sendHello.1.HasRoute route data ↔ node.HasRoute route data := by
  have hroutes : ∀ route data,
      node.sendHello.1.HasRoute route data ↔ node.HasRoute route data := by
    intro route data
    constructor
    · intro hroute
      exact ⟨Ipv4RoutingTable.purge_subset node.rt hroute.mem, hroute.data⟩
    · intro hroute
      exact ⟨Ipv4RoutingTable.mem_purge hroute.mem (h.valid route data hroute), hroute.data⟩
  exact ⟨h.of_routes h.consistent.purge (fun route data ↦ (hroutes route data).mp) rfl rfl,
    hroutes⟩

end Dsdv

end Inet4
