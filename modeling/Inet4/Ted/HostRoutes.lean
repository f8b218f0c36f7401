import Inet4.Ipv4.RoutingTableRuns
import Inet4.Ted.ShortestPaths
import Mathlib

/-!
# Host routes for the routers of the network

`rebuildRoutingTable` follows the parents of a vertex to the first router that this router has a
link to, up or down, and takes the first of these links.  To such a router itself it installs a
route for every interface that leads there.
-/

namespace Inet4.Ted

open List
open BellmanFord (Edge Walk Labels)
open Ipv4 (Ipv4Address Ipv4Route Ipv4RoutingTable)

/-- A route that `addRoute` accepts. -/
def HostRoute.Valid (route : HostRoute) : Prop :=
  route.destination ≠ 0#32 ∧ route.interfacePtr ≠ none

/-- What the routes of a table say, whatever object they are. -/
def contents (table : Ipv4RoutingTable) : List Ipv4Route :=
  table.routes.map fun route ↦ { route with ptr := 0 }

variable {table table' : Ipv4RoutingTable} {route : HostRoute}

theorem allOnes_isValidNetmask : ALLONES_ADDRESS.isValidNetmask = true := by decide

theorem allOnes_ne_zero : ALLONES_ADDRESS ≠ 0#32 := by decide

/-- The table with a new host route. -/
def withHostRoute (table : Ipv4RoutingTable) (route : HostRoute) : Ipv4RoutingTable :=
  { table with
    routes := SortedVector.insertUpper (Ipv4RoutingTable.routeLessThan table.useAdminDist)
      (route.toRoute (newRoute table)) table.routes }.invalidateCache

theorem addHostRoute_of_valid (table : Ipv4RoutingTable) (hvalid : route.Valid) :
    addHostRoute table route = .ok (withHostRoute table route) := by
  have hmask : ¬¬ALLONES_ADDRESS.isValidNetmask = true := not_not.mpr allOnes_isValidNetmask
  have hdest : ¬(ALLONES_ADDRESS ≠ 0#32 ∧ route.destination &&& ALLONES_ADDRESS = 0#32) := by
    rw [ALLONES_ADDRESS, BitVec.and_allOnes]
    exact fun hzero ↦ hvalid.1 hzero.2
  have hbits : ¬route.destination &&& ~~~ALLONES_ADDRESS ≠ 0#32 := by
    simp [ALLONES_ADDRESS]
  refine (if_neg hmask).trans ((if_neg hdest).trans ((if_neg hbits).trans ?_))
  exact if_neg hvalid.2

theorem valid_of_addHostRoute (h : addHostRoute table route = .ok table') : route.Valid := by
  unfold addHostRoute Ipv4RoutingTable.addRoute Ipv4RoutingTable.internalAddRoute at h
  split_ifs at h with hmask hzero hbits hinterface
  refine ⟨?_, hinterface⟩
  intro hdest
  refine hzero ⟨allOnes_ne_zero, ?_⟩
  change route.destination &&& _ = _
  rw [hdest, BitVec.zero_and]

theorem contents_withHostRoute (table : Ipv4RoutingTable) (route : HostRoute) :
    (contents (withHostRoute table route)).Perm (route.toRoute 0 :: contents table) :=
  (SortedVector.insertUpper_perm _ _ table.routes).map _

variable {α : Type}

/-- The routes that a loop finds out for its elements. -/
def found (g : α → Except Fault (Option HostRoute)) (xs : List α) : List HostRoute :=
  xs.filterMap fun x ↦ (g x).toOption.join

section Loop

variable {α : Type} {f : Ipv4RoutingTable → α → Except Fault Ipv4RoutingTable}
variable {g : α → Except Fault (Option HostRoute)} {xs : List α}

/-- The body of a loop installs the route that is found out for the element, if there is one. -/
def Installs (f : Ipv4RoutingTable → α → Except Fault Ipv4RoutingTable)
    (g : α → Except Fault (Option HostRoute)) : Prop :=
  ∀ table x, f table x = (do
    match ← g x with
    | none => return table
    | some route => addHostRoute table route)

/-- What is found out for an element is no route, or one that can be installed. -/
def FindsValid (g : α → Except Fault (Option HostRoute)) (x : α) : Prop :=
  ∃ result, g x = .ok result ∧ ∀ route ∈ result, route.Valid

theorem Installs.exists_step (h : Installs f g) {x : α} (hfinds : FindsValid g x)
    (table : Ipv4RoutingTable) : ∃ table', f table x = .ok table' ∧
      (contents table').Perm ((found g [x]).map (·.toRoute 0) ++ contents table) := by
  obtain ⟨result, hresult, hvalid⟩ := hfinds
  rw [h, bind_of_ok hresult, found, filterMap_cons, hresult]
  cases result with
  | none => exact ⟨table, rfl, List.Perm.refl _⟩
  | some route =>
    exact ⟨_, addHostRoute_of_valid table (hvalid route rfl), contents_withHostRoute table route⟩

theorem Installs.exists_foldlM (h : Installs f g) (hfinds : ∀ x ∈ xs, FindsValid g x)
    (table : Ipv4RoutingTable) : ∃ table', xs.foldlM f table = .ok table' ∧
      (contents table').Perm ((found g xs).map (·.toRoute 0) ++ contents table) := by
  induction xs generalizing table with
  | nil => exact ⟨table, rfl, List.Perm.refl _⟩
  | cons x rest ih =>
    obtain ⟨hfirst, hrest⟩ := forall_mem_cons.mp hfinds
    obtain ⟨middle, hmiddle, hstep⟩ := h.exists_step hfirst table
    obtain ⟨table', hfold, hloop⟩ := ih hrest middle
    refine ⟨table', ?_, ?_⟩
    · rw [foldlM_cons, bind_of_ok hmiddle]
      exact hfold
    · have hcons : found g (x :: rest) = found g [x] ++ found g rest := by
        rw [found, found, found, ← filterMap_append]
        rfl
      calc
        List.Perm (contents table') _ := hloop
        List.Perm _ ((found g rest).map (·.toRoute 0) ++
            ((found g [x]).map (·.toRoute 0) ++ contents table)) := hstep.append_left _
        List.Perm _ (((found g [x]).map (·.toRoute 0) ++ (found g rest).map (·.toRoute 0)) ++
            contents table) := by
          rw [← append_assoc]
          exact perm_append_comm.append_right _
        _ = (found g (x :: rest)).map (·.toRoute 0) ++ contents table := by
          rw [hcons, map_append]

theorem Installs.findsValid_of_foldlM (h : Installs f g) (hfold : xs.foldlM f table = .ok table') :
    ∀ x ∈ xs, FindsValid g x := by
  induction xs generalizing table with
  | nil => exact fun x hmem ↦ by cases hmem
  | cons x rest ih =>
    rw [foldlM_cons] at hfold
    obtain ⟨middle, hmiddle, hrest⟩ := bind_eq_ok hfold
    rw [forall_mem_cons]
    refine ⟨?_, ih hrest⟩
    rw [h] at hmiddle
    obtain ⟨result, hresult, hadd⟩ := bind_eq_ok hmiddle
    refine ⟨result, hresult, ?_⟩
    intro route hroute
    cases hroute
    exact valid_of_addHostRoute hadd

end Loop

/-- Objects are told apart by their pointers. -/
theorem routes_deleteRoute {kept rest : List Ipv4Route} {entry : Ipv4Route}
    (hroutes : table.routes = kept ++ entry :: rest)
    (hptr : (table.routes.map Ipv4Route.ptr).Nodup) :
    (table.deleteRoute entry.ptr).2.routes = kept ++ rest := by
  have hother : ∀ route ∈ kept, ¬decide (route.ptr = entry.ptr) = true := by
    intro route hmem heq
    rw [hroutes, map_append] at hptr
    exact disjoint_of_nodup_append hptr (mem_map_of_mem hmem)
      (mem_map.mpr ⟨entry, mem_cons_self, (of_decide_eq_true heq).symm⟩)
  have hfound : table.routeAt entry.ptr = some entry := by
    rw [Ipv4RoutingTable.routeAt, hroutes, find?_append, find?_eq_none.mpr hother]
    simp
  have herased : table.routes.eraseP (fun e ↦ e.ptr = entry.ptr) = kept ++ rest := by
    rw [hroutes, eraseP_append_right _ hother, eraseP_cons_of_pos (by simp)]
  rw [Ipv4RoutingTable.deleteRoute, Ipv4RoutingTable.internalRemoveRoute, hfound]
  exact herased

/-- The loop keeps the multicast routes, those before position `j` among them. -/
theorem exists_removeUnicastRoutes {kept rest : List Ipv4Route} {j : ℕ}
    (hroutes : table.routes = kept ++ rest) (hj : kept.length = j)
    (hptr : (table.routes.map Ipv4Route.ptr).Nodup) :
    ∃ table', removeUnicastRoutes rest.length j table = .ok table' ∧
      table'.routes = kept ++ rest.filter (·.dest.isMulticast) := by
  induction rest generalizing table kept j with
  | nil => exact ⟨table, rfl, hroutes⟩
  | cons entry rest ih =>
    have hentry : table.routes[j]? = some entry := by
      rw [hroutes, ← hj, getElem?_append_right le_rfl, Nat.sub_self]
      rfl
    rw [length_cons, removeUnicastRoutes, hentry]
    cases hmulticast : entry.dest.isMulticast with
    | true =>
      have hroutes' : table.routes = (kept ++ [entry]) ++ rest := by
        rw [hroutes, append_assoc]
        rfl
      have hlength : (kept ++ [entry]).length = j + 1 := by
        rw [length_append, hj]
        rfl
      obtain ⟨table', hremove, heq⟩ := ih hroutes' hlength hptr
      refine ⟨table', ?_, ?_⟩
      · simp only [hmulticast, if_true]
        exact hremove
      · simp [heq, hmulticast]
    | false =>
      have hroutes' := routes_deleteRoute hroutes hptr
      have hptr' : ((table.deleteRoute entry.ptr).2.routes.map Ipv4Route.ptr).Nodup := by
        rw [hroutes']
        rw [hroutes] at hptr
        exact hptr.sublist (((sublist_cons_self entry rest).append_left kept).map _)
      obtain ⟨table', hremove, heq⟩ := ih hroutes' hj hptr'
      refine ⟨table', ?_, ?_⟩
      · simp only [hmulticast, Bool.false_eq_true, if_false]
        exact hremove
      · simp [heq, hmulticast]

/-- The objects of a table are different ones. -/
def HasDistinctRoutes (table : Ipv4RoutingTable) : Prop := (table.routes.map Ipv4Route.ptr).Nodup

variable (ted : Ted)

theorem installs_addRemoteRoute (vertices : List Vertex) :
    Installs (ted.addRemoteRoute vertices) (ted.remoteRoute vertices) := fun _ _ ↦ rfl

/-- What the loop over the interfaces finds out. -/
def peerRoute? (localInf : Ipv4Address) : Except Fault (Option HostRoute) := do
  let route ← ted.peerRoute localInf
  return some route

theorem installs_addPeerRoute : Installs ted.addPeerRoute ted.peerRoute? := by
  intro table localInf
  unfold addPeerRoute peerRoute?
  cases ted.peerRoute localInf with
  | error fault | ok route => rfl

/-- What a rebuild leaves in the table. -/
structure Rebuilt (ted : Ted) (vertices : List Vertex) (table table' : Ipv4RoutingTable) :
    Prop where
  calculated : ted.calculateShortestPaths ted.ted 0 7 = .ok vertices
  remote : ∀ entry ∈ vertices.zipIdx, FindsValid (ted.remoteRoute vertices) entry
  peer : ∀ localInf ∈ ted.interfaceAddrs, FindsValid ted.peerRoute? localInf
  contents_perm : (contents table').Perm
    ((found ted.peerRoute? ted.interfaceAddrs).map (·.toRoute 0) ++
      ((found (ted.remoteRoute vertices) vertices.zipIdx).map (·.toRoute 0) ++
        (contents table).filter (·.dest.isMulticast)))

theorem exists_rebuilt {ted : Ted} {vertices : List Vertex} (hdistinct : HasDistinctRoutes table)
    (hcalculated : ted.calculateShortestPaths ted.ted 0 7 = .ok vertices)
    (hremote : ∀ entry ∈ vertices.zipIdx, FindsValid (ted.remoteRoute vertices) entry)
    (hpeer : ∀ localInf ∈ ted.interfaceAddrs, FindsValid ted.peerRoute? localInf) :
    ∃ table', ted.rebuildRoutingTable table = .ok table' ∧ ted.Rebuilt vertices table table' := by
  obtain ⟨cleared, hcleared, hkept⟩ :=
    exists_removeUnicastRoutes (nil_append table.routes).symm length_nil hdistinct
  obtain ⟨middle, hmiddle, hremotes⟩ :=
    (ted.installs_addRemoteRoute vertices).exists_foldlM hremote cleared
  obtain ⟨table', htable', hpeers⟩ := ted.installs_addPeerRoute.exists_foldlM hpeer middle
  refine ⟨table', ?_, hcalculated, hremote, hpeer, ?_⟩
  · unfold rebuildRoutingTable
    rw [bind_of_ok hcalculated, bind_of_ok hcleared, bind_of_ok hmiddle]
    exact htable'
  · have hcontents : contents cleared = (contents table).filter (·.dest.isMulticast) := by
      rw [contents, hkept, nil_append, contents, filter_map]
      rfl
    rw [← hcontents]
    exact hpeers.trans (hremotes.append_left _)

/-- A rebuild that succeeds has left the right contents. -/
theorem exists_rebuilt_of_ok {ted : Ted} (hdistinct : HasDistinctRoutes table)
    (h : ted.rebuildRoutingTable table = .ok table') :
    ∃ vertices, ted.Rebuilt vertices table table' := by
  have hok := h
  obtain ⟨vertices, hcalculated, h⟩ := bind_eq_ok h
  obtain ⟨cleared, -, h⟩ := bind_eq_ok h
  obtain ⟨middle, hmiddle, h⟩ := bind_eq_ok h
  obtain ⟨table'', htable'', hrebuilt⟩ := exists_rebuilt hdistinct hcalculated
    ((ted.installs_addRemoteRoute vertices).findsValid_of_foldlM hmiddle)
    (ted.installs_addPeerRoute.findsValid_of_foldlM h)
  rw [hok] at htable''
  cases htable''
  exact ⟨vertices, hrebuilt⟩

section FilterMap

variable {α β : Type} {f : α → Option β} {xs : List α} {x y : α} {b c : β}

theorem filterMap_eq_singleton (hnodup : xs.Nodup) (hx : x ∈ xs) (hfx : f x = some b)
    (hother : ∀ y ∈ xs, y ≠ x → f y = none) : xs.filterMap f = [b] := by
  obtain ⟨before, after, rfl⟩ := append_of_mem hx
  have hbefore : ∀ y ∈ before, f y = none := by
    intro y hy
    refine hother y (mem_append_left _ hy) ?_
    rintro rfl
    exact disjoint_of_nodup_append hnodup hy mem_cons_self
  have hafter : ∀ y ∈ after, f y = none := by
    intro y hy
    refine hother y (mem_append_right _ (mem_cons_of_mem x hy)) ?_
    rintro rfl
    exact (nodup_cons.mp (List.Nodup.of_append_right hnodup)).1 hy
  rw [filterMap_append, filterMap_eq_nil_iff.mpr hbefore, filterMap_cons_some hfx,
    filterMap_eq_nil_iff.mpr hafter]
  rfl

/-- A single result comes from a single element. -/
theorem eq_of_filterMap_eq_singleton (h : xs.filterMap f = [b]) (hx : x ∈ xs) (hfx : f x = some c)
    (hy : y ∈ xs) (hfy : (f y).isSome) : c = b ∧ y = x := by
  obtain ⟨before, after, rfl⟩ := append_of_mem hx
  rw [filterMap_append, filterMap_cons_some hfx] at h
  obtain ⟨hbefore, hrest⟩ : before.filterMap f = [] ∧ c :: after.filterMap f = [b] := by
    rcases append_eq_singleton_iff.mp h with ⟨hnil, hcons⟩ | ⟨-, hcons⟩
    · exact ⟨hnil, hcons⟩
    · cases hcons
  obtain ⟨hc, hafter⟩ := cons.inj hrest
  refine ⟨hc, ?_⟩
  rcases mem_append.mp hy with hmem | hmem
  · rw [filterMap_eq_nil_iff.mp hbefore y hmem] at hfy
    cases hfy
  · cases hmem with
    | head => rfl
    | tail _ hmem =>
      rw [filterMap_eq_nil_iff.mp hafter y hmem] at hfy
      cases hfy

end FilterMap

/-- The host routes of a router. -/
def hostRoutes (table : Ipv4RoutingTable) (addr : Ipv4Address) : List Ipv4Route :=
  table.routes.filter fun route ↦ route.dest = addr ∧ route.netmask = ALLONES_ADDRESS

/-- The routes to one router that a loop finds out. -/
def foundFor (g : α → Except Fault (Option HostRoute)) (addr : Ipv4Address) (x : α) :
    Option HostRoute :=
  (g x).toOption.join.filter fun route ↦ route.destination = addr

theorem filter_found (g : α → Except Fault (Option HostRoute)) (addr : Ipv4Address)
    (xs : List α) :
    ((found g xs).map (·.toRoute 0)).filter
        (fun route ↦ route.dest = addr ∧ route.netmask = ALLONES_ADDRESS) =
      (xs.filterMap (foundFor g addr)).map (·.toRoute 0) := by
  rw [filter_map, found, filter_filterMap]
  have hsame : ∀ route : HostRoute,
      ((fun route : Ipv4Route ↦ decide (route.dest = addr ∧ route.netmask = ALLONES_ADDRESS)) ∘
        (·.toRoute 0)) route = decide (route.destination = addr) := by
    intro route
    exact decide_eq_decide.mpr (and_iff_left rfl)
  rw [funext hsame]
  rfl

theorem Rebuilt.hostRoutes_perm {ted : Ted} {vertices : List Vertex} {addr : Ipv4Address}
    (h : ted.Rebuilt vertices table table') (hunicast : addr.isMulticast = false) :
    ((hostRoutes table' addr).map fun route ↦ { route with ptr := 0 }).Perm
      ((ted.interfaceAddrs.filterMap (foundFor ted.peerRoute? addr)).map (·.toRoute 0) ++
        (vertices.zipIdx.filterMap (foundFor (ted.remoteRoute vertices) addr)).map
          (·.toRoute 0)) := by
  have hcontents : (hostRoutes table' addr).map (fun route ↦ { route with ptr := 0 }) =
      (contents table').filter
        (fun route ↦ route.dest = addr ∧ route.netmask = ALLONES_ADDRESS) := by
    rw [contents, filter_map]
    rfl
  have hkept : ((contents table).filter (·.dest.isMulticast)).filter
      (fun route ↦ route.dest = addr ∧ route.netmask = ALLONES_ADDRESS) = [] := by
    apply filter_eq_nil_iff.mpr
    intro route hmem hroute
    have hmulticast := (mem_filter.mp hmem).2
    rw [(of_decide_eq_true hroute).1, hunicast] at hmulticast
    cases hmulticast
  have hfiltered := h.contents_perm.filter
    fun route ↦ route.dest = addr ∧ route.netmask = ALLONES_ADDRESS
  rw [filter_append, filter_append, filter_found, filter_found, hkept,
    append_nil] at hfiltered
  rw [hcontents]
  exact hfiltered

/-- One route that the loops find out is the one route of the table. -/
theorem Rebuilt.exists_hostRoute {ted : Ted} {vertices : List Vertex} {addr : Ipv4Address}
    (h : ted.Rebuilt vertices table table') (hunicast : addr.isMulticast = false)
    (hfound : ted.interfaceAddrs.filterMap (foundFor ted.peerRoute? addr) ++
      vertices.zipIdx.filterMap (foundFor (ted.remoteRoute vertices) addr) = [route]) :
    ∃ installed, hostRoutes table' addr = [installed] ∧
      { installed with ptr := 0 } = route.toRoute 0 := by
  have hperm := h.hostRoutes_perm hunicast
  rw [← map_append, hfound] at hperm
  exact map_eq_singleton_iff.mp (perm_singleton.mp hperm)

theorem Rebuilt.exists_found {ted : Ted} {vertices : List Vertex} {addr : Ipv4Address}
    {installed : Ipv4Route} (h : ted.Rebuilt vertices table table')
    (hunicast : addr.isMulticast = false) (hroutes : hostRoutes table' addr = [installed]) :
    ∃ route : HostRoute, ted.interfaceAddrs.filterMap (foundFor ted.peerRoute? addr) ++
        vertices.zipIdx.filterMap (foundFor (ted.remoteRoute vertices) addr) = [route] ∧
      route.toRoute 0 = { installed with ptr := 0 } := by
  have hperm := h.hostRoutes_perm hunicast
  rw [← map_append, hroutes] at hperm
  exact map_eq_singleton_iff.mp (perm_singleton.mp hperm.symm)

theorem foundFor_of_eq {g : α → Except Fault (Option HostRoute)} {x : α}
    {addr : Ipv4Address} (hg : g x = .ok (some route)) (hdest : route.destination = addr) :
    foundFor g addr x = some route := by
  rw [foundFor, hg]
  exact Option.filter_some_pos (decide_eq_true hdest)

theorem of_foundFor {g : α → Except Fault (Option HostRoute)} {x : α}
    {addr : Ipv4Address} (h : foundFor g addr x = some route) :
    g x = .ok (some route) ∧ route.destination = addr := by
  obtain ⟨hjoin, hdest⟩ := Option.filter_eq_some_iff.mp h
  refine ⟨?_, of_decide_eq_true hdest⟩
  cases hg : g x with
  | error fault =>
    rw [hg] at hjoin
    cases hjoin
  | ok result =>
    rw [hg] at hjoin
    exact congrArg Except.ok hjoin

def upLinks : List TeLinkStateInfo := ted.ted.filter (·.state)

def ownLinks : List TeLinkStateInfo :=
  ted.ted.filter fun elem ↦ elem.advrouter = ted.routerId

/-- Links as `initializeTED` enters them: those of this router lead out of different interfaces, and
routers have unicast addresses.  No link has more reserved than it has bandwidth. -/
structure Proper (ted : Ted) : Prop where
  attached : ∀ elem ∈ ted.ownLinks, elem.localAddr ∈ ted.interfaceAddrs
  unique : ∀ elem ∈ ted.ownLinks, ∀ other ∈ ted.ownLinks,
    elem.localAddr = other.localAddr → elem = other
  unicast : ∀ elem ∈ ted.ted, elem.linkid.isMulticast = false
  unreserved : ∀ elem ∈ ted.ted, elem.state = true → 0 ≤ elem.unResvBandwidth.get 7

variable {ted} {elem : TeLinkStateInfo} {addr : Ipv4Address}

theorem mem_ownLinks : elem ∈ ted.ownLinks ↔ elem ∈ ted.ted ∧ elem.advrouter = ted.routerId := by
  rw [ownLinks, mem_filter, decide_eq_true_iff]

theorem isLocalPeer_iff : ted.isLocalPeer addr = true ↔
    ∃ elem ∈ ted.ownLinks, elem.linkid = addr := by
  rw [isLocalPeer, any_eq_true]
  constructor
  · rintro ⟨elem, hmem, hown⟩
    have hboth := of_decide_eq_true hown
    exact ⟨elem, mem_ownLinks.mpr ⟨hmem, hboth.2⟩, hboth.1⟩
  · rintro ⟨elem, hmem, hlink⟩
    obtain ⟨hted, hadv⟩ := mem_ownLinks.mp hmem
    exact ⟨elem, hted, decide_eq_true ⟨hlink, hadv⟩⟩

theorem Proper.selected_eq (h : ted.Proper) : selected ted.ted 0 7 = ted.upLinks := by
  apply filter_congr
  intro elem hmem
  rw [Bool.eq_iff_iff, decide_eq_true_iff]
  constructor
  · exact fun hselected ↦ hselected.1
  · exact fun hup ↦ ⟨hup, not_lt.mpr (h.unreserved elem hmem hup)⟩

theorem exists_interface (hmem : addr ∈ ted.interfaceAddrs) :
    ∃ ie ∈ ted.ift.interfaces, ie.address = addr ∧
      ted.ift.getInterfaceByAddress addr = some ie.interfaceId := by
  obtain ⟨ie, hie, haddr⟩ := mem_map.mp (ted.interfaceAddrs_sublist.mem hmem)
  cases hfind : ted.ift.interfaces.find? fun ie ↦ ie.address = addr with
  | none => exact absurd (decide_eq_true haddr) (find?_eq_none.mp hfind ie hie)
  | some other =>
    have hother : decide (other.address = addr) = true :=
      find?_some (p := fun ie : InterfaceEntry ↦ decide (ie.address = addr)) hfind
    refine ⟨other, mem_of_find?_eq_some hfind, of_decide_eq_true hother, ?_⟩
    rw [InterfaceTable.getInterfaceByAddress, if_neg (haddr ▸ ted.ift.specified ie hie), hfind]
    rfl

/-- Different addresses are those of different interfaces. -/
theorem eq_of_getInterfaceByAddress {addr' : Ipv4Address} (hmem : addr ∈ ted.interfaceAddrs)
    (hmem' : addr' ∈ ted.interfaceAddrs)
    (heq : ted.ift.getInterfaceByAddress addr = ted.ift.getInterfaceByAddress addr') :
    addr = addr' := by
  obtain ⟨ie, hie, haddr, hget⟩ := exists_interface hmem
  obtain ⟨ie', hie', haddr', hget'⟩ := exists_interface hmem'
  rw [hget, hget'] at heq
  have hsame : ie = ie' := inj_on_of_nodup_map ted.ift.ids_nodup hie hie' (Option.some.inj heq)
  rw [← haddr, ← haddr', hsame]

/-- The route to the peer of a link. -/
def directRoute (ted : Ted) (elem : TeLinkStateInfo) : HostRoute where
  destination := elem.linkid
  gateway := 0#32
  interfacePtr := ted.ift.getInterfaceByAddress elem.localAddr

theorem Proper.peerRoute?_eq (h : ted.Proper) (hmem : elem ∈ ted.ownLinks) :
    ted.peerRoute? elem.localAddr = .ok (some (ted.directRoute elem)) := by
  obtain ⟨hted, hadv⟩ := mem_ownLinks.mp hmem
  have hpeer : ted.getPeerByLocalAddress elem.localAddr = .ok elem.linkid := by
    unfold getPeerByLocalAddress
    cases hfind : ted.ted.find? fun other ↦
        other.advrouter = ted.routerId ∧ other.localAddr = elem.localAddr with
    | none => exact absurd (decide_eq_true ⟨hadv, rfl⟩) (find?_eq_none.mp hfind elem hted)
    | some other =>
      have hother : decide (other.advrouter = ted.routerId ∧ other.localAddr = elem.localAddr) =
        true :=
        find?_some (p := fun other : TeLinkStateInfo ↦
          decide (other.advrouter = ted.routerId ∧ other.localAddr = elem.localAddr)) hfind
      obtain ⟨hadv', hlocal⟩ := of_decide_eq_true hother
      have hown := mem_ownLinks.mpr ⟨mem_of_find?_eq_some hfind, hadv'⟩
      rw [h.unique other hown elem hmem hlocal]
  unfold peerRoute? peerRoute
  rw [bind_of_ok hpeer]
  rfl

theorem exists_ownLink_of_peerRoute? {result : Option HostRoute} {localInf : Ipv4Address}
    (h : ted.peerRoute? localInf = .ok result) :
    ∃ elem ∈ ted.ownLinks, elem.localAddr = localInf := by
  obtain ⟨route, hroute, -⟩ := bind_eq_ok h
  obtain ⟨peer, hpeer, -⟩ := bind_eq_ok hroute
  unfold getPeerByLocalAddress at hpeer
  split at hpeer
  · rename_i elem hfind
    have helem : decide (elem.advrouter = ted.routerId ∧ elem.localAddr = localInf) = true :=
      find?_some (p := fun other : TeLinkStateInfo ↦
        decide (other.advrouter = ted.routerId ∧ other.localAddr = localInf)) hfind
    obtain ⟨hadv, hlocal⟩ := of_decide_eq_true helem
    exact ⟨elem, mem_ownLinks.mpr ⟨mem_of_find?_eq_some hfind, hadv⟩, hlocal⟩
  · cases hpeer

theorem Proper.foundFor_peer (h : ted.Proper) (hmem : elem ∈ ted.ownLinks) :
    foundFor ted.peerRoute? elem.linkid elem.localAddr = some (ted.directRoute elem) :=
  foundFor_of_eq (h.peerRoute?_eq hmem) rfl

theorem Proper.of_foundFor_peer (h : ted.Proper) {localInf : Ipv4Address} {route : HostRoute}
    (hfound : foundFor ted.peerRoute? addr localInf = some route) :
    ∃ elem ∈ ted.ownLinks, elem.localAddr = localInf ∧ elem.linkid = addr ∧
      route = ted.directRoute elem := by
  obtain ⟨hroute, hdest⟩ := of_foundFor hfound
  obtain ⟨elem, hmem, hlocal⟩ := exists_ownLink_of_peerRoute? hroute
  rw [← hlocal, h.peerRoute?_eq hmem] at hroute
  cases hroute
  exact ⟨elem, hmem, hlocal, hdest, rfl⟩

theorem interfaceAddrs_nodup (ted : Ted) : ted.interfaceAddrs.Nodup :=
  ted.ift.addresses_nodup.sublist ted.interfaceAddrs_sublist

/-- A router that can be reached over links that are up. -/
def Due (ted : Ted) (addr : Ipv4Address) : Prop :=
  addr ≠ ted.routerId ∧ Reaches ted.upLinks ted.routerId addr

theorem Due.unicast (h : ted.Due addr) (hproper : ted.Proper) : addr.isMulticast = false := by
  obtain ⟨hother, path, w, hwalk⟩ := h
  generalize hfull : addr :: path = full at hwalk
  cases hwalk with
  | start =>
    cases hfull
    exact absurd rfl hother
  | step _ hmem =>
    obtain ⟨elem, helem, hedge⟩ := mem_map.mp hmem
    rw [(cons.inj hfull).1, ← hedge]
    exact hproper.unicast elem (mem_filter.mp helem).1

/-- A link of this router is the first one of a path of the least metric. -/
def IsFirstLink (ted : Ted) (addr : Ipv4Address) (elem : TeLinkStateInfo) : Prop :=
  elem ∈ ted.ownLinks ∧ elem.state = true ∧
    ∃ path w, LinkWalk ted.upLinks elem.linkid (addr :: path) w ∧
      ∀ path' w', LinkWalk ted.upLinks ted.routerId (addr :: path') w' → elem.metric + w ≤ w'

/-- The router that packets are handed to. -/
def nextHop (route : Ipv4Route) : Ipv4Address :=
  if route.gateway = 0#32 then route.dest else route.gateway

/-- A rebuild installs one host route to every router that can be reached, and it goes along a path
of the least metric. -/
def InstallsShortest (ted : Ted) (table : Ipv4RoutingTable) : Prop :=
  ∃ table', ted.rebuildRoutingTable table = .ok table' ∧
    ∀ addr, ted.Due addr → ∃ route elem, hostRoutes table' addr = [route] ∧
      ted.IsFirstLink addr elem ∧
      route.interfacePtr = ted.ift.getInterfaceByAddress elem.localAddr ∧
      nextHop route = elem.linkid

/-- To every peer there is one link of this router, which is up and as short as any path, and every
other router is closer than the limit. -/
structure LinksAreDirect (ted : Ted) : Prop where
  asserts : AssertsNoLoop ted.routerId ted.upLinks
  behind : ∀ localInf ∈ ted.interfaceAddrs, ∃ elem ∈ ted.ownLinks, elem.localAddr = localInf
  specified : ∀ elem ∈ ted.ownLinks, elem.linkid ≠ 0#32
  remote : ∀ addr, ted.Due addr → ted.isLocalPeer addr = false →
    addr ≠ 0#32 ∧ ∃ path w, LinkWalk ted.upLinks ted.routerId (addr :: path) w ∧ w < LS_INFINITY
  direct : ∀ elem ∈ ted.ownLinks, ted.Due elem.linkid →
    elem.state = true ∧
      (∀ path w, LinkWalk ted.upLinks ted.routerId (elem.linkid :: path) w → elem.metric ≤ w) ∧
      ∀ other ∈ ted.ownLinks, other.linkid = elem.linkid → other = elem

theorem mem_of_mem_upLinks (hmem : elem ∈ ted.upLinks) : elem ∈ ted.ted ∧ elem.state = true :=
  mem_filter.mp hmem

variable {vertices : List Vertex} {edges : List (Edge ℕ ℚ)} {s i : ℕ}

/-- The first vertex behind the source is a peer of this router. -/
theorem isLocalPeer_of_parent (h : Solved ted.routerId ted.upLinks edges s vertices)
    (hparent : (labels vertices).parent i = some s) :
    ted.isLocalPeer (nodeAt vertices i) = true := by
  obtain ⟨edge, hmem, hsrc, hdest, -⟩ := h.shortest.parent_edge i s hparent
  obtain ⟨elem, helem, heq⟩ := h.exists_elem hmem
  have hadv : elem.advrouter = nodeAt vertices edge.src := congrArg Edge.src heq
  have hlink : elem.linkid = nodeAt vertices edge.dest := congrArg Edge.dest heq
  rw [hsrc, h.source_eq] at hadv
  rw [hdest] at hlink
  exact isLocalPeer_iff.mpr ⟨elem, mem_ownLinks.mpr ⟨(mem_of_mem_upLinks helem).1, hadv⟩, hlink⟩

/-- The loop ends at a peer that is an ancestor of the vertex. -/
theorem exists_nextHopIndex (h : Solved ted.routerId ted.upLinks edges s vertices) {fuel : ℕ}
    (hi : i < vertices.length) (hsource : i ≠ s)
    (hreached : (labels vertices).dist i < LS_INFINITY)
    (hfuel : (labels vertices).rank (Finset.range vertices.length) i < fuel) :
    ∃ j path, ted.nextHopIndex vertices fuel i = .ok (nodeAt vertices j) ∧
      ted.isLocalPeer (nodeAt vertices j) = true ∧ j ≠ s ∧ j < vertices.length ∧
      (labels vertices).dist j < LS_INFINITY ∧
      Labels.TreePath (labels vertices) j (i :: path) := by
  induction fuel generalizing i with
  | zero => exact absurd hfuel (Nat.not_lt_zero _)
  | succ fuel ih =>
    have hvertex := getElem?_eq_getElem hi
    have hnode := nodeAt_of_getElem? hvertex
    have hlabel := (labels_of_getElem? hvertex).2
    rw [nextHopIndex, hvertex]
    cases hpeer : ted.isLocalPeer (vertices[i]).node with
    | true =>
      rw [← hnode] at hpeer
      refine ⟨i, [], ?_, hpeer, hsource, hi, hreached, .refl⟩
      simp only [← hnode, hpeer, if_true]
    | false =>
      obtain ⟨parent, hparent⟩ := h.shortest.has_parent i hsource hreached
      obtain ⟨hbound, hcloser, -, hrank⟩ := h.parent_lt hparent
      have hparentSource : parent ≠ s := by
        rintro rfl
        rw [hnode.symm, isLocalPeer_of_parent h hparent] at hpeer
        cases hpeer
      obtain ⟨j, path, hnext, hrest⟩ :=
        ih hbound hparentSource (hcloser.trans hreached) (by omega)
      obtain ⟨hlocal, hj, hlt, hdist, htree⟩ := hrest
      refine ⟨j, parent :: path, ?_, hlocal, hj, hlt, hdist, .step hparent htree⟩
      rw [hlabel] at hparent
      simp only [hpeer, hparent, Bool.false_eq_true, if_false]
      exact hnext

theorem exists_interfaceAddr (hpeer : ted.isLocalPeer addr = true) :
    ∃ elem ∈ ted.ownLinks, elem.linkid = addr ∧
      ted.getInterfaceAddrByPeerAddress addr = .ok elem.localAddr := by
  unfold getInterfaceAddrByPeerAddress
  cases hfind : ted.ted.find? fun elem ↦ ted.IsOwnLink addr elem with
  | none =>
    obtain ⟨elem, hmem, hlink⟩ := isLocalPeer_iff.mp hpeer
    obtain ⟨hted, hadv⟩ := mem_ownLinks.mp hmem
    have hown : decide (ted.IsOwnLink addr elem) = true := decide_eq_true ⟨hlink, hadv⟩
    exact absurd hown (find?_eq_none.mp hfind elem hted)
  | some elem =>
    have helem : decide (ted.IsOwnLink addr elem) = true :=
      find?_some (p := fun elem : TeLinkStateInfo ↦ decide (ted.IsOwnLink addr elem)) hfind
    obtain ⟨hlink, hadv⟩ := of_decide_eq_true helem
    exact ⟨elem, mem_ownLinks.mpr ⟨mem_of_find?_eq_some hfind, hadv⟩, hlink, rfl⟩

/-- The source is the only vertex with the address of this router. -/
theorem eq_source_iff (h : Solved ted.routerId ted.upLinks edges s vertices)
    (hi : i < vertices.length) : nodeAt vertices i = ted.routerId ↔ i = s := by
  constructor
  · intro heq
    rw [← indexOf_nodeAt h.nodup hi, heq, h.indexOf_source]
  · intro heq
    rw [heq, h.source_eq]

theorem due_of_reached (h : Solved ted.routerId ted.upLinks edges s vertices)
    (hi : i < vertices.length) (hsource : i ≠ s)
    (hreached : (labels vertices).dist i < LS_INFINITY) : ted.Due (nodeAt vertices i) := by
  obtain ⟨path, hwalk⟩ := h.exists_linkWalk hreached
  exact ⟨fun heq ↦ hsource ((eq_source_iff h hi).mp heq), path, _, hwalk⟩

theorem remoteRoute_of_skipped {entry : Vertex × ℕ}
    (hskip : entry.1.node = ted.routerId ∨ entry.1.parent = none ∨
      ted.isLocalPeer entry.1.node = true) : ted.remoteRoute vertices entry = .ok none :=
  if_pos hskip

theorem of_remoteRoute {entry : Vertex × ℕ} {route : HostRoute}
    (h : ted.remoteRoute vertices entry = .ok (some route)) :
    route.destination = entry.1.node ∧ entry.1.node ≠ ted.routerId ∧ entry.1.parent ≠ none ∧
      ted.isLocalPeer entry.1.node ≠ true := by
  by_cases hskip : entry.1.node = ted.routerId ∨ entry.1.parent = none ∨
      ted.isLocalPeer entry.1.node = true
  · rw [remoteRoute_of_skipped hskip] at h
    cases h
  · obtain ⟨hnode, hrest⟩ := not_or.mp hskip
    rw [remoteRoute, if_neg hskip] at h
    obtain ⟨nHop, -, h⟩ := bind_eq_ok h
    obtain ⟨localInf, -, h⟩ := bind_eq_ok h
    cases h
    exact ⟨rfl, hnode, not_or.mp hrest⟩

theorem filterMap_remote_of_peer (hpeer : ted.isLocalPeer addr = true) :
    vertices.zipIdx.filterMap (foundFor (ted.remoteRoute vertices) addr) = [] := by
  apply filterMap_eq_nil_iff.mpr
  intro entry _
  cases hfound : foundFor (ted.remoteRoute vertices) addr entry with
  | none => rfl
  | some route =>
    obtain ⟨hroute, hdest⟩ := of_foundFor hfound
    obtain ⟨hnode, -, -, hother⟩ := of_remoteRoute hroute
    rw [← hnode, hdest] at hother
    exact absurd hpeer hother

theorem Proper.filterMap_peer_of_remote (h : ted.Proper) (hpeer : ted.isLocalPeer addr = false) :
    ted.interfaceAddrs.filterMap (foundFor ted.peerRoute? addr) = [] := by
  apply filterMap_eq_nil_iff.mpr
  intro localInf _
  cases hfound : foundFor ted.peerRoute? addr localInf with
  | none => rfl
  | some route =>
    obtain ⟨elem, hmem, -, hlink, -⟩ := h.of_foundFor_peer hfound
    rw [isLocalPeer_iff.mpr ⟨elem, hmem, hlink⟩] at hpeer
    cases hpeer

/-- Only the vertex of a router can find out a route to it. -/
theorem filterMap_remote_eq_singleton (h : Solved ted.routerId ted.upLinks edges s vertices)
    {vertex : Vertex} {route : HostRoute} (hvertex : vertices[i]? = some vertex)
    (hroute : ted.remoteRoute vertices (vertex, i) = .ok (some route)) :
    vertices.zipIdx.filterMap (foundFor (ted.remoteRoute vertices) vertex.node) = [route] := by
  have hnodup : vertices.zipIdx.Nodup := by
    refine List.Nodup.of_map Prod.snd ?_
    rw [List.zipIdx_map_snd]
    exact List.nodup_range'
  apply filterMap_eq_singleton hnodup (List.mem_zipIdx_iff_getElem?.mpr hvertex)
    (foundFor_of_eq hroute (of_remoteRoute hroute).1)
  rintro ⟨other, k⟩ hmem hne
  cases hfound : foundFor (ted.remoteRoute vertices) vertex.node (other, k) with
  | none => rfl
  | some otherRoute =>
    obtain ⟨hother, hdest⟩ := of_foundFor hfound
    have hget : vertices[k]? = some other := List.mem_zipIdx_iff_getElem?.mp hmem
    have hsame : nodeAt vertices k = nodeAt vertices i := by
      rw [nodeAt_of_getElem? hget, nodeAt_of_getElem? hvertex, ← hdest]
      exact (of_remoteRoute hother).1.symm
    have hindex : k = i := by
      rw [← indexOf_nodeAt h.nodup (List.getElem?_eq_some_iff.mp hget).1, hsame,
        indexOf_nodeAt h.nodup (List.getElem?_eq_some_iff.mp hvertex).1]
    rw [hindex, hvertex] at hget
    rw [hindex, Option.some.inj hget] at hne
    exact absurd rfl hne

/-- A router that is reached and no peer gets a route over the first link to a peer on its way. -/
theorem exists_remoteRoute (h : Solved ted.routerId ted.upLinks edges s vertices) {vertex : Vertex}
    (hvertex : vertices[i]? = some vertex) (hnode : vertex.node ≠ ted.routerId)
    (hparent : vertex.parent ≠ none) (hpeer : ted.isLocalPeer vertex.node ≠ true) :
    ∃ j path, ∃ elem ∈ ted.ownLinks,
      ted.remoteRoute vertices (vertex, i) =
        .ok (some
          { destination := vertex.node
            gateway := elem.linkid
            interfacePtr := ted.ift.getInterfaceByAddress elem.localAddr }) ∧
      elem.linkid = nodeAt vertices j ∧ ted.Due elem.linkid ∧
      (labels vertices).dist j < LS_INFINITY ∧
      Labels.TreePath (labels vertices) j (i :: path) := by
  have hbound := (List.getElem?_eq_some_iff.mp hvertex).1
  have hsource : i ≠ s := by
    intro heq
    rw [← nodeAt_of_getElem? hvertex, (eq_source_iff h hbound).mpr heq] at hnode
    exact hnode rfl
  have hreached : (labels vertices).dist i < LS_INFINITY := by
    obtain ⟨parent, hsome⟩ := Option.ne_none_iff_exists'.mp hparent
    rw [← (labels_of_getElem? hvertex).2] at hsome
    exact (h.parent_lt hsome).2.2.1
  have hfuel : (labels vertices).rank (Finset.range vertices.length) i < vertices.length := by
    have hcard := Labels.rank_lt_card (l := labels vertices) (Finset.mem_range.mpr hbound)
    rwa [Finset.card_range] at hcard
  obtain ⟨j, path, hnext, hlocal, hj, hlt, hdist, htree⟩ :=
    exists_nextHopIndex h hbound hsource hreached hfuel
  obtain ⟨elem, hmem, hlink, hinterface⟩ := exists_interfaceAddr hlocal
  refine ⟨j, path, elem, hmem, ?_, hlink, ?_, hdist, htree⟩
  · have hskip : ¬(vertex.node = ted.routerId ∨ vertex.parent = none ∨
        ted.isLocalPeer vertex.node = true) := by
      rintro (heq | heq | heq)
      · exact hnode heq
      · exact hparent heq
      · exact hpeer heq
    have hne : vertex.node ≠ nodeAt vertices j := by
      intro heq
      rw [heq] at hpeer
      exact hpeer hlocal
    refine (if_neg hskip).trans ?_
    rw [bind_of_ok hnext, bind_of_ok hinterface, if_neg hne, hlink]
    rfl
  · rw [hlink]
    exact due_of_reached h hlt hj hdist

/-- Every vertex but the source has a parent exactly when it is closer than the limit. -/
theorem parent_ne_none_iff (h : Solved ted.routerId ted.upLinks edges s vertices) {vertex : Vertex}
    (hvertex : vertices[i]? = some vertex) (hsource : i ≠ s) :
    vertex.parent ≠ none ↔ (labels vertices).dist i < LS_INFINITY := by
  obtain ⟨-, hparent⟩ := labels_of_getElem? hvertex
  rw [← hparent]
  constructor
  · intro hne
    obtain ⟨parent, hsome⟩ := Option.ne_none_iff_exists'.mp hne
    exact (h.parent_lt hsome).2.2.1
  · intro hreached hnone
    obtain ⟨parent, hsome⟩ := h.shortest.has_parent i hsource hreached
    rw [hnone] at hsome
    cases hsome

namespace LinksAreDirect

section

variable (h : ted.LinksAreDirect)
include h

theorem findsValid_remote (hproper : ted.Proper)
    (hsolved : Solved ted.routerId ted.upLinks edges s vertices) :
    ∀ entry ∈ vertices.zipIdx, FindsValid (ted.remoteRoute vertices) entry := by
  rintro ⟨vertex, i⟩ hmem
  have hvertex := List.mem_zipIdx_iff_getElem?.mp hmem
  by_cases hskip : vertex.node = ted.routerId ∨ vertex.parent = none ∨
      ted.isLocalPeer vertex.node = true
  · exact ⟨none, remoteRoute_of_skipped hskip, fun _ hroute ↦ by cases hroute⟩
  · obtain ⟨hnode, hrest⟩ := not_or.mp hskip
    obtain ⟨hparent, hpeer⟩ := not_or.mp hrest
    obtain ⟨j, path, elem, helem, hroute, -⟩ :=
      exists_remoteRoute hsolved hvertex hnode hparent hpeer
    refine ⟨_, hroute, ?_⟩
    intro route heq
    cases heq
    have hbound := (List.getElem?_eq_some_iff.mp hvertex).1
    have hsource : i ≠ s := by
      rintro rfl
      rw [← nodeAt_of_getElem? hvertex, hsolved.source_eq] at hnode
      exact hnode rfl
    have hdue := due_of_reached hsolved hbound hsource
      ((parent_ne_none_iff hsolved hvertex hsource).mp hparent)
    rw [nodeAt_of_getElem? hvertex] at hdue
    obtain ⟨ie, -, -, hget⟩ := exists_interface (hproper.attached elem helem)
    refine ⟨(h.remote vertex.node hdue (eq_false_of_ne_true hpeer)).1, ?_⟩
    rw [hget]
    exact Option.some_ne_none _

theorem findsValid_peer (hproper : ted.Proper) :
    ∀ localInf ∈ ted.interfaceAddrs, FindsValid ted.peerRoute? localInf := by
  intro localInf hmem
  obtain ⟨elem, helem, hlocal⟩ := h.behind localInf hmem
  refine ⟨_, by rw [← hlocal]; exact hproper.peerRoute?_eq helem, ?_⟩
  intro route heq
  cases heq
  obtain ⟨ie, -, -, hget⟩ := exists_interface (hproper.attached elem helem)
  refine ⟨h.specified elem helem, ?_⟩
  change ted.ift.getInterfaceByAddress elem.localAddr ≠ none
  rw [hget]
  exact Option.some_ne_none _

/-- The route to a peer is the direct one. -/
theorem found_of_peer (hproper : ted.Proper) (hmem : elem ∈ ted.ownLinks)
    (hdue : ted.Due elem.linkid) :
    ted.interfaceAddrs.filterMap (foundFor ted.peerRoute? elem.linkid) ++
      vertices.zipIdx.filterMap (foundFor (ted.remoteRoute vertices) elem.linkid) =
        [ted.directRoute elem] := by
  have hpeers : ted.interfaceAddrs.filterMap (foundFor ted.peerRoute? elem.linkid) =
      [ted.directRoute elem] := by
    apply filterMap_eq_singleton ted.interfaceAddrs_nodup (hproper.attached elem hmem)
      (hproper.foundFor_peer hmem)
    intro localInf _ hne
    cases hfound : foundFor ted.peerRoute? elem.linkid localInf with
    | none => rfl
    | some route =>
      obtain ⟨other, hother, hlocal, hlink, -⟩ := hproper.of_foundFor_peer hfound
      rw [(h.direct elem hmem hdue).2.2 other hother hlink] at hlocal
      exact absurd hlocal.symm hne
  rw [hpeers, filterMap_remote_of_peer (isLocalPeer_iff.mpr ⟨elem, hmem, rfl⟩), append_nil]

theorem isFirstLink_peer (hmem : elem ∈ ted.ownLinks) (hdue : ted.Due elem.linkid)
    : ted.IsFirstLink elem.linkid elem := by
  obtain ⟨hup, hleast, -⟩ := h.direct elem hmem hdue
  refine ⟨hmem, hup, [], 0, .start, ?_⟩
  intro path' w' hwalk'
  rw [add_zero]
  exact hleast path' w' hwalk'

/-- A link to a peer is the first one of the least paths to the routers behind it in the tree. -/
theorem isFirstLink_remote (hsolved : Solved ted.routerId ted.upLinks edges s vertices) {j : ℕ}
    {path : List ℕ}
    (hmem : elem ∈ ted.ownLinks) (hlink : elem.linkid = nodeAt vertices j)
    (hdue : ted.Due elem.linkid) (hi : i < vertices.length)
    (hreached : (labels vertices).dist j < LS_INFINITY)
    (htree : Labels.TreePath (labels vertices) j (i :: path)) :
    ted.IsFirstLink (nodeAt vertices i) elem := by
  obtain ⟨hup, hleast, -⟩ := h.direct elem hmem hdue
  obtain ⟨w, hwalk, hdist⟩ := hsolved.shortest.walk_of_treePath hsolved.weight_pos htree
  have hbehind := hsolved.linkWalk hwalk
  rw [← hlink, map_cons] at hbehind
  refine ⟨hmem, hup, path.map (nodeAt vertices), w, hbehind, ?_⟩
  intro path' w' hwalk'
  obtain ⟨toPeer, hpeer⟩ := hsolved.exists_linkWalk hreached
  rw [← hlink] at hpeer
  have hshort := hsolved.dist_le hwalk'
  rw [indexOf_nodeAt hsolved.nodup hi] at hshort
  calc
    elem.metric + w ≤ (labels vertices).dist j + w := add_le_add_left (hleast toPeer _ hpeer) w
    _ = (labels vertices).dist i := hdist.symm
    _ ≤ w' := hshort

/-- The table of a rebuild has one route to a router that is due, and it is a shortest one. -/
theorem exists_route (hproper : ted.Proper)
    (hsolved : Solved ted.routerId ted.upLinks edges s vertices) (hdue : ted.Due addr) :
    ∃ route : HostRoute, ∃ elem,
      ted.interfaceAddrs.filterMap (foundFor ted.peerRoute? addr) ++
          vertices.zipIdx.filterMap (foundFor (ted.remoteRoute vertices) addr) = [route] ∧
        ted.IsFirstLink addr elem ∧
        route.interfacePtr = ted.ift.getInterfaceByAddress elem.localAddr ∧
        nextHop (route.toRoute 0) = elem.linkid := by
  cases hpeer : ted.isLocalPeer addr with
  | true =>
    obtain ⟨elem, hmem, rfl⟩ := isLocalPeer_iff.mp hpeer
    exact ⟨_, elem, h.found_of_peer hproper hmem hdue, h.isFirstLink_peer hmem hdue, rfl,
      if_pos rfl⟩
  | false =>
    obtain ⟨-, path, w, hwalk, hlt⟩ := h.remote addr hdue hpeer
    obtain ⟨vertex, hentry, hnode, hle⟩ := hsolved.exists_entry hwalk
    have hvertex : vertices[indexOf vertices addr]? = some vertex :=
      List.mem_zipIdx_iff_getElem?.mp hentry
    have hbound := (List.getElem?_eq_some_iff.mp hvertex).1
    have haddr : nodeAt vertices (indexOf vertices addr) = addr := by
      rw [nodeAt_of_getElem? hvertex, hnode]
    have hsource : indexOf vertices addr ≠ s := by
      intro heq
      refine hdue.1 ?_
      rw [← haddr, heq, hsolved.source_eq]
    have hreached : (labels vertices).dist (indexOf vertices addr) < LS_INFINITY := by
      rw [(labels_of_getElem? hvertex).1]
      exact hle.trans_lt hlt
    have hparent := (parent_ne_none_iff hsolved hvertex hsource).mpr hreached
    have hother : vertex.node ≠ ted.routerId := by
      rw [hnode]
      exact hdue.1
    have hremote : ted.isLocalPeer vertex.node ≠ true := by
      rw [hnode, hpeer]
      exact Bool.false_ne_true
    obtain ⟨j, toPeer, elem, hmem, hroute, hlink, hdue', hnear, htree⟩ :=
      exists_remoteRoute hsolved hvertex hother hparent hremote
    have hfound := filterMap_remote_eq_singleton hsolved hvertex hroute
    have hfirst := h.isFirstLink_remote hsolved hmem hlink hdue' hbound hnear htree
    rw [hnode] at hfound
    rw [haddr] at hfirst
    rw [hproper.filterMap_peer_of_remote hpeer, List.nil_append]
    exact ⟨_, elem, hfound, hfirst, rfl, if_neg (h.specified elem hmem)⟩

theorem installsShortest (hproper : ted.Proper) (hdistinct : HasDistinctRoutes table)
    : ted.InstallsShortest table := by
  have hassert := h.asserts
  rw [← hproper.selected_eq] at hassert
  obtain ⟨edges, s, vertices, hcalculated, hsolved⟩ := ted.exists_calculateShortestPaths hassert
  rw [hproper.selected_eq] at hsolved
  obtain ⟨table', hrebuild, hrebuilt⟩ := exists_rebuilt hdistinct hcalculated
    (h.findsValid_remote hproper hsolved) (h.findsValid_peer hproper)
  refine ⟨table', hrebuild, ?_⟩
  intro addr hdue
  obtain ⟨route, elem, hfound, hfirst, hinterface, hnext⟩ := h.exists_route hproper hsolved hdue
  obtain ⟨installed, hroutes, hsame⟩ :=
    hrebuilt.exists_hostRoute (hdue.unicast hproper) hfound
  refine ⟨installed, elem, hroutes, hfirst, ?_, ?_⟩
  · have hptr : installed.interfacePtr = route.interfacePtr := congrArg Ipv4Route.interfacePtr hsame
    rw [hptr, hinterface]
  · rw [← hnext, ← hsame]
    rfl

end

end LinksAreDirect

namespace Rebuilt

section

variable (h : ted.Rebuilt vertices table table')
include h

theorem asserts (hproper : ted.Proper) : AssertsNoLoop ted.routerId ted.upLinks := by
  rw [← hproper.selected_eq]
  by_contra hassert
  have hcalculated := h.calculated
  rw [ted.calculateShortestPaths_of_loop hassert] at hcalculated
  cases hcalculated

theorem exists_solved (hproper : ted.Proper) :
    ∃ edges s, Solved ted.routerId ted.upLinks edges s vertices := by
  have hassert := h.asserts hproper
  rw [← hproper.selected_eq] at hassert
  obtain ⟨edges, s, solution, hcalculated, hsolved⟩ := ted.exists_calculateShortestPaths hassert
  rw [h.calculated] at hcalculated
  cases hcalculated
  rw [hproper.selected_eq] at hsolved
  exact ⟨edges, s, hsolved⟩

theorem exists_behind :
    ∀ localInf ∈ ted.interfaceAddrs, ∃ elem ∈ ted.ownLinks, elem.localAddr = localInf := by
  intro localInf hmem
  obtain ⟨result, hresult, -⟩ := h.peer localInf hmem
  exact exists_ownLink_of_peerRoute? hresult

theorem specified (hproper : ted.Proper) : ∀ elem ∈ ted.ownLinks, elem.linkid ≠ 0#32 := by
  intro elem hmem
  obtain ⟨result, hresult, hvalid⟩ := h.peer elem.localAddr (hproper.attached elem hmem)
  rw [hproper.peerRoute?_eq hmem] at hresult
  cases hresult
  exact (hvalid _ rfl).1

/-- Routes to routers that are no peers come from vertices that are reached. -/
theorem exists_near (hproper : ted.Proper) {route : HostRoute} (hdue : ted.Due addr)
    (hpeer : ted.isLocalPeer addr = false)
    (hfound : ted.interfaceAddrs.filterMap (foundFor ted.peerRoute? addr) ++
      vertices.zipIdx.filterMap (foundFor (ted.remoteRoute vertices) addr) = [route]) :
    addr ≠ 0#32 ∧
      ∃ path w, LinkWalk ted.upLinks ted.routerId (addr :: path) w ∧ w < LS_INFINITY := by
  obtain ⟨edges, s, hsolved⟩ := h.exists_solved hproper
  rw [hproper.filterMap_peer_of_remote hpeer, nil_append] at hfound
  have hmem : route ∈ vertices.zipIdx.filterMap (foundFor (ted.remoteRoute vertices) addr) := by
    rw [hfound]
    exact mem_singleton_self route
  obtain ⟨⟨vertex, i⟩, hentry, hsome⟩ := mem_filterMap.mp hmem
  obtain ⟨hroute, hdest⟩ := of_foundFor hsome
  obtain ⟨hnode, -, hparent, -⟩ := of_remoteRoute hroute
  have hvertex : vertices[i]? = some vertex := mem_zipIdx_iff_getElem?.mp hentry
  have haddr : nodeAt vertices i = addr := by
    rw [nodeAt_of_getElem? hvertex, ← hdest]
    exact hnode.symm
  have hsource : i ≠ s := by
    rintro rfl
    refine hdue.1 ?_
    rw [← haddr, hsolved.source_eq]
  have hreached := (parent_ne_none_iff hsolved hvertex hsource).mp hparent
  obtain ⟨path, hwalk⟩ := hsolved.exists_linkWalk hreached
  rw [haddr] at hwalk
  refine ⟨?_, path, _, hwalk, hreached⟩
  obtain ⟨result, hresult, hvalid⟩ := h.remote (vertex, i) hentry
  rw [hroute] at hresult
  cases hresult
  rw [← hdest]
  exact (hvalid route rfl).1

end

/-- The one route to a peer is the direct one, and no other link leads there. -/
theorem eq_directRoute (hproper : ted.Proper) {route : HostRoute} (hmem : elem ∈ ted.ownLinks)
    (hfound : ted.interfaceAddrs.filterMap (foundFor ted.peerRoute? elem.linkid) ++
      vertices.zipIdx.filterMap (foundFor (ted.remoteRoute vertices) elem.linkid) = [route]) :
    route = ted.directRoute elem ∧
      ∀ other ∈ ted.ownLinks, other.linkid = elem.linkid → other = elem := by
  rw [filterMap_remote_of_peer (isLocalPeer_iff.mpr ⟨elem, hmem, rfl⟩), append_nil] at hfound
  have hdirect := hproper.foundFor_peer hmem
  have hattached := hproper.attached elem hmem
  constructor
  · have hself : (foundFor ted.peerRoute? elem.linkid elem.localAddr).isSome := by
      rw [hdirect]
      rfl
    exact (eq_of_filterMap_eq_singleton hfound hattached hdirect hattached hself).1.symm
  · intro other hother hlink
    have hsome : (foundFor ted.peerRoute? elem.linkid other.localAddr).isSome := by
      rw [← hlink, hproper.foundFor_peer hother]
      rfl
    have hlocal := (eq_of_filterMap_eq_singleton hfound hattached hdirect
      (hproper.attached other hother) hsome).2
    exact hproper.unique other hother elem hmem hlocal

end Rebuilt

theorem weight_pos_upLinks (ted : Ted) :
    ∀ edge ∈ ted.upLinks.map TeLinkStateInfo.toEdge, 0 < edge.weight := by
  intro edge hmem
  obtain ⟨elem, -, rfl⟩ := mem_map.mp hmem
  exact elem.metric_pos

theorem InstallsShortest.linksAreDirect (h : ted.InstallsShortest table) (hproper : ted.Proper)
    (hdistinct : HasDistinctRoutes table) : ted.LinksAreDirect := by
  obtain ⟨table', hrebuild, hshortest⟩ := h
  obtain ⟨vertices, hrebuilt⟩ := exists_rebuilt_of_ok hdistinct hrebuild
  refine ⟨hrebuilt.asserts hproper, hrebuilt.exists_behind, hrebuilt.specified hproper, ?_, ?_⟩
  · intro addr hdue hpeer
    obtain ⟨installed, -, hroutes, -⟩ := hshortest addr hdue
    obtain ⟨route, hfound, -⟩ := hrebuilt.exists_found (hdue.unicast hproper) hroutes
    exact hrebuilt.exists_near hproper hdue hpeer hfound
  · intro elem hmem hdue
    obtain ⟨installed, first, hroutes, hfirst, hinterface, -⟩ := hshortest elem.linkid hdue
    obtain ⟨route, hfound, hsame⟩ := hrebuilt.exists_found (hdue.unicast hproper) hroutes
    obtain ⟨hroute, hsingle⟩ := Rebuilt.eq_directRoute hproper hmem hfound
    obtain ⟨hown, hup, path, w, hwalk, hleast⟩ := hfirst
    -- the route of the table leads out of the interface of the first link
    have hptr : ted.ift.getInterfaceByAddress elem.localAddr =
        ted.ift.getInterfaceByAddress first.localAddr := by
      rw [hroute] at hsame
      rw [← hinterface]
      exact congrArg Ipv4Route.interfacePtr hsame
    have hlocal := eq_of_getInterfaceByAddress (hproper.attached elem hmem)
      (hproper.attached first hown) hptr
    have heq : elem = first := hproper.unique elem hmem first hown hlocal
    refine ⟨heq ▸ hup, ?_, hsingle⟩
    intro path' w' hwalk'
    calc
      elem.metric = first.metric := congrArg TeLinkStateInfo.metric heq
      _ ≤ first.metric + w := le_add_of_nonneg_right (hwalk.nonneg ted.weight_pos_upLinks)
      _ ≤ w' := hleast path' w' hwalk'

/-- Paths are least ones exactly where no assertion fails and the limit is not reached, and routes
exactly where moreover the links to peers are direct. -/
theorem shortestPaths_iff (ted : Ted) (hproper : ted.Proper) (hdistinct : HasDistinctRoutes table) :
    (∀ dest topology reqBandwidth priority,
      ted.FindsShortest dest topology reqBandwidth priority ↔
        AssertsNoLoop ted.routerId (selected topology reqBandwidth priority) ∧
          WithinLimit ted.routerId (selected topology reqBandwidth priority) dest) ∧
    (ted.InstallsShortest table ↔ ted.LinksAreDirect) := by
  refine ⟨fun dest topology reqBandwidth priority ↦ ted.findsShortest_iff dest topology _ _, ?_⟩
  constructor
  · exact fun hinstalls ↦ hinstalls.linksAreDirect hproper hdistinct
  · exact fun hdirect ↦ hdirect.installsShortest hproper hdistinct

theorem link_pos (cost : ℕ) : 0 < (cost : ℚ) + 1 := Nat.cast_add_one_pos cost

/-- A link that is up, of metric `cost + 1`. -/
def link (advrouter linkid localAddr : Ipv4Address) (cost : ℕ) : TeLinkStateInfo where
  advrouter := advrouter
  linkid := linkid
  localAddr := localAddr
  remote := 0#32
  metric := cost + 1
  metric_pos := link_pos cost
  maxBandwidth := 1
  unResvBandwidth := Vector.replicate 8 1
  timestamp := 0
  sourceId := 0#32
  messageId := 0#32
  state := true

theorem twoInterfaces_ids :
    ([⟨101, 12#32⟩, ⟨102, 13#32⟩] : List InterfaceEntry).map
      InterfaceEntry.interfaceId |>.Nodup := by
  decide

theorem twoInterfaces_addresses :
    ([⟨101, 12#32⟩, ⟨102, 13#32⟩] : List InterfaceEntry).map InterfaceEntry.address |>.Nodup := by
  decide

theorem twoInterfaces_specified :
    ∀ ie ∈ ([⟨101, 12#32⟩, ⟨102, 13#32⟩] : List InterfaceEntry), ie.address ≠ 0#32 := by
  decide

def twoInterfaces : InterfaceTable where
  interfaces := [⟨101, 12#32⟩, ⟨102, 13#32⟩]
  ids_nodup := twoInterfaces_ids
  addresses_nodup := twoInterfaces_addresses
  specified := twoInterfaces_specified

theorem twoInterfaces_sublist :
    [12#32, 13#32].Sublist (twoInterfaces.interfaces.map InterfaceEntry.address) :=
  List.Sublist.refl _

/-- Router 1 has links to 2 and to 3, and the way to 3 over 2 is shorter than its own link. -/
def triangle : Ted where
  ted := [link 1 2 12 0, link 2 3 23 0, link 1 3 13 9, link 3 4 34 0]
  routerId := 1
  ift := twoInterfaces
  interfaceAddrs := [12#32, 13#32]
  interfaceAddrs_sublist := twoInterfaces_sublist
  maxMessageId := 0#32

theorem triangle_proper : triangle.Proper where
  attached := by decide +kernel
  unique := by decide +kernel
  unicast := by decide +kernel
  unreserved := by decide +kernel

theorem triangle_shorter :
    LinkWalk triangle.upLinks triangle.routerId [3, 2, 1] (0 + (0 + 1) + (0 + 1)) := by
  have hfirst : (link 1 2 12 0).toEdge ∈ triangle.upLinks.map TeLinkStateInfo.toEdge := by
    decide +kernel
  have hsecond : (link 2 3 23 0).toEdge ∈ triangle.upLinks.map TeLinkStateInfo.toEdge := by
    decide +kernel
  have htwo : LinkWalk triangle.upLinks triangle.routerId [2, 1] (0 + (0 + 1)) :=
    Walk.step (e := (link 1 2 12 0).toEdge) .start hfirst
  exact Walk.step (e := (link 2 3 23 0).toEdge) htwo hsecond

theorem shortestPaths_iff_triangle :
    (∀ dest topology reqBandwidth priority,
      triangle.FindsShortest dest topology reqBandwidth priority ↔
        AssertsNoLoop triangle.routerId (selected topology reqBandwidth priority) ∧
          WithinLimit triangle.routerId (selected topology reqBandwidth priority) dest) ∧
    (triangle.InstallsShortest {} ↔ triangle.LinksAreDirect) :=
  triangle.shortestPaths_iff triangle_proper nodup_nil

/-- The packets for 3 are sent over the longer way. -/
theorem not_installsShortest_triangle : triangle.Proper ∧ ¬triangle.InstallsShortest {} := by
  refine ⟨triangle_proper, ?_⟩
  intro hinstalls
  have hdirect := hinstalls.linksAreDirect triangle_proper nodup_nil
  have hmem : link 1 3 13 9 ∈ triangle.ownLinks := by decide +kernel
  have hdue : triangle.Due (link 1 3 13 9).linkid := ⟨by decide +kernel, _, _, triangle_shorter⟩
  have hle := (hdirect.direct _ hmem hdue).2.1 _ _ triangle_shorter
  exact absurd hle (by decide +kernel)

end Inet4.Ted
