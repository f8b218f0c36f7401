import Inet4.Rip.Node

/-!
# The routes of a RIP router

What the handlers do to the routes in the table, as far as their metrics and next hops are
concerned.  A property of routes that holds of every route with an infinite metric, and that depends
on the destination, the metric, the type and the next hop only, survives expiry and updates; a
received entry adds the routes that have its metric, increased by the one of the interface.
-/

namespace Inet4.Rip

open List Option
open Except (ok)

variable {A L : Type}

/-- The fields of a route that a property of interest depends on. -/
structure SameRoute (route route' : RipRoute A) : Prop where
  type : route'.type = route.type
  dest : route'.dest = route.dest
  prefixLength : route'.prefixLength = route.prefixLength
  nextHop : route'.nextHop = route.nextHop
  metric : route'.metric = route.metric

/-- A property of the routes with a finite metric. -/
structure Stable (J : RipRoute A → Prop) : Prop where
  infinite : ∀ route, RIP_INFINITE_METRIC ≤ route.metric → J route
  congr : ∀ route route', SameRoute route route' → J route → J route'

variable {J : RipRoute A → Prop} {config : Config A L} {now : SimTime}
variable {table table' : List (RipRoute A)}

theorem Stable.invalidateRoute (hJ : Stable J) (route : RipRoute A) :
    J (route.invalidateRoute now) :=
  hJ.infinite _ le_rfl

/-- Expired routes get an infinite metric or are purged. -/
theorem Stable.checkExpiredRoutes (hJ : Stable J) (config : Config A L) (now : SimTime)
    (h : ∀ route ∈ table, J route) :
    ∀ route ∈ config.checkExpiredRoutes now table, J route := by
  intro route hroute
  obtain ⟨old, hold, hcheck⟩ := mem_filterMap.mp hroute
  unfold Config.checkExpired at hcheck
  split_ifs at hcheck
  · obtain rfl := some.inj hcheck
    exact hJ.invalidateRoute old
  · obtain rfl := some.inj hcheck
    exact h old hold
  · obtain rfl := some.inj hcheck
    exact h old hold

/-- The entries of the packets are the given ones. -/
theorem mem_packetsFor {maxEntries : ℕ} {current entries : List (RipEntry A)} {packet : RipPacket A}
    (hpacket : packet ∈ packetsFor maxEntries current entries) :
    packet.command = .RIP_RESPONSE ∧ packet.entry ⊆ current ++ entries := by
  induction entries generalizing current with
  | nil =>
    cases current with
    | nil => cases hpacket
    | cons entry rest =>
      obtain rfl := mem_singleton.mp hpacket
      exact ⟨rfl, by simp⟩
  | cons next rest ih =>
    have hunfold : packetsFor maxEntries current (next :: rest) =
        if maxEntries ≤ (current ++ [next]).length then
          { command := .RIP_RESPONSE, entry := current ++ [next] } :: packetsFor maxEntries [] rest
        else packetsFor maxEntries (current ++ [next]) rest := by
      cases current <;> rfl
    rw [hunfold] at hpacket
    split at hpacket
    · rcases mem_cons.mp hpacket with rfl | hrest
      · refine ⟨rfl, fun entry hentry ↦ ?_⟩
        rcases mem_append.mp hentry with hcurrent | hnext
        · exact mem_append_left _ hcurrent
        · rw [mem_singleton.mp hnext]
          exact mem_append_right _ mem_cons_self
      · have hsub := ih hrest
        refine ⟨hsub.1, fun entry hentry ↦ ?_⟩
        exact mem_append_right _ (mem_cons_of_mem _ (hsub.2 hentry))
    · have hsub := ih hpacket
      rw [append_assoc, singleton_append] at hsub
      exact hsub

theorem entryFor_eq_some {ripInterface : RipInterfaceEntry A L} {changedOnly : Bool}
    {route : RipRoute A} {entry : RipEntry A}
    (hentry : entryFor ripInterface changedOnly route = some entry) :
    entry.nextHop = none ∧ entry.address = route.dest ∧ entry.prefixLength = route.prefixLength ∧
      (entry.metric = route.metric ∨ entry.metric = RIP_INFINITE_METRIC) := by
  unfold entryFor at hentry
  split_ifs at hentry
  · split at hentry
    · cases hentry
    · obtain rfl := some.inj hentry
      exact ⟨rfl, rfl, rfl, .inr rfl⟩
    · obtain rfl := some.inj hentry
      exact ⟨rfl, rfl, rfl, .inl rfl⟩
  · obtain rfl := some.inj hentry
    exact ⟨rfl, rfl, rfl, .inl rfl⟩

/-- A response has entries without next hops, whose finite metrics are those of routes with the
property. -/
def Reports (J : RipRoute A → Prop) (packet : RipPacket A) : Prop :=
  packet.command = .RIP_RESPONSE ∧ ∀ entry ∈ packet.entry, entry.nextHop = none ∧
    (entry.metric < RIP_INFINITE_METRIC → ∃ route, J route ∧ route.dest = entry.address ∧
      route.prefixLength = entry.prefixLength ∧ route.metric = entry.metric)

/-- What the functions that send responses leave in the table and send. -/
structure Sends (J : RipRoute A → Prop)
    (result : List (RipRoute A) × List (Outgoing A)) : Prop where
  routes : ∀ route ∈ result.1, J route
  sent : ∀ outgoing ∈ result.2, Reports J outgoing.packet

theorem sends_nothing (h : ∀ route ∈ table, J route) : Sends J (table, []) := ⟨h, nofun⟩

theorem Stable.sendRoutes (hJ : Stable J) (h : ∀ route ∈ table, J route) {destAddr : Option A}
    {ripInterface : RipInterfaceEntry A L} {changedOnly : Bool}
    {result : List (RipRoute A) × List (Outgoing A)}
    (hsend : config.sendRoutes now table destAddr ripInterface changedOnly = .ok result) :
    Sends J result := by
  have hchecked := hJ.checkExpiredRoutes config now h
  unfold Config.sendRoutes at hsend
  split_ifs at hsend
  · obtain rfl := ok.inj hsend
    exact sends_nothing h
  · obtain rfl := ok.inj hsend
    exact sends_nothing hchecked
  · obtain ⟨⟨⟩, -, hrest⟩ := bind_eq_ok hsend
    obtain ⟨⟨⟩, -, hrest⟩ := bind_eq_ok hrest
    obtain rfl := ok.inj hrest
    refine ⟨hchecked, fun outgoing houtgoing ↦ ?_⟩
    obtain ⟨packet, hpacket, rfl⟩ := mem_map.mp houtgoing
    have hentries := mem_packetsFor hpacket
    refine ⟨hentries.1, fun entry hentry ↦ ?_⟩
    obtain ⟨route, hroute, hfor⟩ := mem_filterMap.mp (hentries.2 hentry)
    obtain ⟨hnextHop, haddress, hprefix, hmetric⟩ := entryFor_eq_some hfor
    refine ⟨hnextHop, fun hfinite ↦ ?_⟩
    rcases hmetric with hmetric | hinfinite
    · exact ⟨route, hchecked route hroute, haddress.symm, hprefix.symm, hmetric.symm⟩
    · rw [hinfinite] at hfinite
      exact absurd hfinite (lt_irrefl _)

theorem Stable.sendUpdate (hJ : Stable J) {state result : List (RipRoute A) × List (Outgoing A)}
    {triggered : Bool} {ripInterface : RipInterfaceEntry A L} (h : Sends J state)
    (hsend : config.sendUpdate now triggered state ripInterface = .ok result) :
    Sends J result := by
  unfold Config.sendUpdate at hsend
  split_ifs at hsend
  · obtain ⟨⟨table, sent⟩, hroutes, hrest⟩ := bind_eq_ok hsend
    obtain rfl := ok.inj hrest
    have hsends := hJ.sendRoutes h.routes hroutes
    refine ⟨hsends.routes, fun outgoing houtgoing ↦ ?_⟩
    rcases mem_append.mp houtgoing with hold | hnew
    · exact h.sent outgoing hold
    · exact hsends.sent outgoing hnew
  · obtain rfl := ok.inj hsend
    exact h

/-- The loop over the interfaces. -/
theorem Stable.sendUpdates (hJ : Stable J) {triggered : Bool}
    (ripInterfaces : List (RipInterfaceEntry A L))
    {state result : List (RipRoute A) × List (Outgoing A)} (h : Sends J state)
    (hsend : ripInterfaces.foldlM (config.sendUpdate now triggered) state = .ok result) :
    Sends J result := by
  induction ripInterfaces generalizing state with
  | nil =>
    obtain rfl := ok.inj hsend
    exact h
  | cons ripInterface rest ih =>
    obtain ⟨next, hfirst, hrest⟩ := bind_eq_ok hsend
    exact ih (hJ.sendUpdate h hfirst) hrest

theorem Stable.processUpdate (hJ : Stable J) (h : ∀ route ∈ table, J route) {triggered : Bool}
    {result : List (RipRoute A) × List (Outgoing A)}
    (hupdate : config.processUpdate now table triggered = .ok result) : Sends J result := by
  obtain ⟨⟨table', sent⟩, hloop, hrest⟩ := bind_eq_ok hupdate
  obtain rfl := ok.inj hrest
  have hsends := hJ.sendUpdates config.ripInterfaces (sends_nothing h) hloop
  refine ⟨fun route hroute ↦ ?_, hsends.sent⟩
  obtain ⟨old, hold, rfl⟩ := mem_map.mp hroute
  exact hJ.congr old _ ⟨rfl, rfl, rfl, rfl, rfl⟩ (hsends.routes old hold)

/-- Deleting a route of an interface makes the metric infinite. -/
theorem routeDeleted_fields (now : SimTime) (route : RipRoute A) :
    (route.routeDeleted now).dest = route.dest ∧
      (route.routeDeleted now).prefixLength = route.prefixLength ∧
      ((route.routeDeleted now).metric = route.metric ∨
        (route.routeDeleted now).metric = RIP_INFINITE_METRIC) := by
  unfold RipRoute.routeDeleted
  split
  · exact ⟨rfl, rfl, .inl rfl⟩
  · split
    · exact ⟨rfl, rfl, .inl rfl⟩
    · exact ⟨rfl, rfl, .inr rfl⟩

/-- An updated route has the metric and the next hop of the update, or its metric is infinite. -/
structure Updates (route : RipRoute A) (nextHop : L3Address A) (metric : ℕ)
    (route' : RipRoute A) : Prop where
  dest : route'.dest = route.dest
  prefixLength : route'.prefixLength = route.prefixLength
  finite : route'.metric < RIP_INFINITE_METRIC → route'.metric = metric ∧ route'.nextHop = nextHop

theorem updates_replaceRoute {route route' : RipRoute A} {oldMetric metric : ℕ}
    {nextHop : L3Address A} (hmetric : route.metric = metric)
    (hreplace : route.replaceRoute now oldMetric nextHop metric = .ok route') :
    Updates route nextHop metric route' := by
  obtain ⟨hdest, hprefix, hdeleted⟩ := routeDeleted_fields now route
  unfold RipRoute.replaceRoute at hreplace
  by_cases hold : oldMetric = RIP_INFINITE_METRIC
  · rw [if_pos hold] at hreplace
    split at hreplace
    · obtain rfl := ok.inj hreplace
      refine ⟨hdest, hprefix, fun hlt ↦ ⟨?_, rfl⟩⟩
      rcases hdeleted with heq | hinfinite
      · exact heq.trans hmetric
      · exact absurd hinfinite hlt.ne
    · rename_i hinfinite
      obtain rfl := ok.inj hreplace
      refine ⟨rfl, rfl, fun hlt ↦ ?_⟩
      rw [hmetric] at hlt
      exact absurd hlt hinfinite
  · rw [if_neg hold] at hreplace
    obtain ⟨⟨⟩, -, hrest⟩ := bind_eq_ok hreplace
    obtain rfl := ok.inj hrest
    refine ⟨hdest, hprefix, fun hlt ↦ ⟨?_, rfl⟩⟩
    rcases hdeleted with heq | hinfinite
    · exact heq.trans hmetric
    · exact absurd hinfinite hlt.ne

theorem updates_updateRoute {route route' : RipRoute A} {ie metric routeTag : ℕ}
    {nextHop fromAddr : L3Address A}
    (hupdate : route.updateRoute now ie nextHop metric routeTag fromAddr = .ok route') :
    Updates route nextHop metric route' := by
  obtain ⟨replaced, hreplace, hrest⟩ := bind_eq_ok hupdate
  have hupdates := updates_replaceRoute rfl hreplace
  split at hrest
  · obtain rfl := ok.inj hrest
    exact ⟨hupdates.dest, hupdates.prefixLength, fun hlt ↦ absurd hlt (lt_irrefl _)⟩
  · obtain rfl := ok.inj hrest
    exact ⟨hupdates.dest, hupdates.prefixLength, hupdates.finite⟩

/-- The request for the whole table. -/
def wholeTable : RipPacket A where
  command := .RIP_REQUEST
  entry := [{ addressFamilyId := .RIP_AF_NONE, metric := RIP_INFINITE_METRIC }]

/-- The metric of a route that is learned from an entry. -/
def learnedMetric (incomingIe : RipInterfaceEntry A L) (entry : RipEntry A) : ℕ :=
  min (entry.metric + max incomingIe.metric 1) RIP_INFINITE_METRIC

/-- A route that is learned from an entry of a router has the property. -/
def Learns (J : RipRoute A → Prop) (incomingIe : RipInterfaceEntry A L) (srcAddr : A)
    (entry : RipEntry A) : Prop :=
  ∀ route : RipRoute A, route.dest = entry.address → route.prefixLength = entry.prefixLength →
    route.metric = learnedMetric incomingIe entry → route.metric < RIP_INFINITE_METRIC →
    route.nextHop = some srcAddr → J route

section Received

variable [DecidableEq A]

theorem sameRoute_touch (now : SimTime) (route : RipRoute A) (srcAddr : A) :
    SameRoute route (route.touch now srcAddr) := by
  unfold RipRoute.touch
  split <;> exact ⟨rfl, rfl, rfl, rfl, rfl⟩

/-- An entry leaves a route as it is or updates it. -/
theorem updateFromEntry_cases {route route' : RipRoute A} {ie metric routeTag : ℕ} {srcAddr : A}
    {nextHop : L3Address A}
    (hupdate : config.updateFromEntry now ie srcAddr nextHop metric routeTag route = .ok route') :
    SameRoute route route' ∨ Updates route nextHop metric route' := by
  have htouch := sameRoute_touch now route srcAddr
  unfold Config.updateFromEntry at hupdate
  split_ifs at hupdate
  · obtain rfl := ok.inj hupdate
    exact .inl ⟨rfl, rfl, rfl, rfl, rfl⟩
  · obtain rfl := ok.inj hupdate
    exact .inl htouch
  · have hupdates := updates_updateRoute hupdate
    exact .inr ⟨hupdates.dest.trans htouch.dest,
      hupdates.prefixLength.trans htouch.prefixLength, hupdates.finite⟩
  · obtain rfl := ok.inj hupdate
    exact .inl htouch

variable {address : L3Address A} {prefixLength : ℕ}
variable {change : RipRoute A → Except Fault (RipRoute A)}

/-- The first route to the network is changed. -/
theorem updateRipRoute_spec {updated : Option (List (RipRoute A))}
    (hupdate : updateRipRoute address prefixLength change table = .ok updated) :
    updated = none ∧ findRipRoute table address prefixLength = none ∨
      ∃ before old new after, table = before ++ old :: after ∧
        updated = some (before ++ new :: after) ∧
        findRipRoute before address prefixLength = none ∧
        old.isFor address prefixLength = true ∧ change old = .ok new := by
  induction table generalizing updated with
  | nil => exact .inl ⟨(ok.inj hupdate).symm, rfl⟩
  | cons first rest ih =>
    unfold updateRipRoute at hupdate
    split at hupdate
    · rename_i hfor
      obtain ⟨changed, hchange, hrest⟩ := bind_eq_ok hupdate
      exact .inr ⟨[], first, changed, rest, rfl, (ok.inj hrest).symm, rfl, hfor, hchange⟩
    · rename_i hnot
      obtain ⟨found, hrec, hrest⟩ := bind_eq_ok hupdate
      obtain rfl := ok.inj hrest
      rcases ih hrec with ⟨rfl, hnone⟩ | ⟨before, old, new, after, rfl, rfl, hnone, hfor, hchange⟩
      · exact .inl ⟨rfl, (find?_cons_of_neg hnot).trans hnone⟩
      · exact .inr ⟨first :: before, old, new, after, rfl, rfl,
          (find?_cons_of_neg hnot).trans hnone, hfor, hchange⟩

/-- Each route after the change of one of them was there before or is the changed one. -/
theorem mem_updateRipRoute
    (hupdate : updateRipRoute address prefixLength change table = .ok (some table'))
    {route : RipRoute A} (hroute : route ∈ table') :
    route ∈ table ∨ ∃ old ∈ table, old.isFor address prefixLength = true ∧
      change old = .ok route := by
  rcases updateRipRoute_spec hupdate with
    ⟨heq, -⟩ | ⟨before, old, new, after, rfl, heq, -, hfor, hchange⟩
  · cases heq
  · obtain rfl := some.inj heq
    rcases mem_append.mp hroute with hbefore | hrest
    · exact .inl (mem_append_left _ hbefore)
    · rcases mem_cons.mp hrest with rfl | hafter
      · exact .inr ⟨old, mem_append_right _ mem_cons_self, hfor, hchange⟩
      · exact .inl (mem_append_right _ (mem_cons_of_mem _ hafter))

theorem Stable.processEntry (hJ : Stable J) (h : ∀ route ∈ table, J route)
    {incomingIe : RipInterfaceEntry A L} {srcAddr : A} {entry : RipEntry A}
    (hnextHop : entry.nextHop = none) (hlearns : Learns J incomingIe srcAddr entry)
    (hprocess : config.processEntry now incomingIe srcAddr table entry = .ok table') :
    ∀ route ∈ table', J route := by
  have hlearned : ∀ route : RipRoute A, route.dest = entry.address →
      route.prefixLength = entry.prefixLength →
      (route.metric < RIP_INFINITE_METRIC → route.metric = learnedMetric incomingIe entry ∧
        route.nextHop = some srcAddr) → J route := by
    intro route hdest hprefix hfinite
    rcases lt_or_ge route.metric RIP_INFINITE_METRIC with hlt | hge
    · exact hlearns route hdest hprefix (hfinite hlt).1 hlt (hfinite hlt).2
    · exact hJ.infinite route hge
  obtain ⟨updated, hupdate, hrest⟩ := bind_eq_ok hprocess
  rw [if_pos hnextHop] at hupdate hrest
  cases updated with
  | some changed =>
    obtain rfl := ok.inj hrest
    intro route hroute
    rcases mem_updateRipRoute hupdate hroute with hold | ⟨old, hold, hfor, hchange⟩
    · exact h route hold
    · rw [RipRoute.isFor, Bool.and_eq_true, decide_eq_true_eq, decide_eq_true_eq] at hfor
      rcases updateFromEntry_cases hchange with hsame | hupdates
      · exact hJ.congr old route hsame (h old hold)
      · exact hlearned route (hupdates.dest.trans hfor.1) (hupdates.prefixLength.trans hfor.2)
          hupdates.finite
  | none =>
    simp only at hrest
    split at hrest
    · obtain rfl := ok.inj hrest
      intro route hroute
      rcases mem_append.mp hroute with hold | hnew
      · exact h route hold
      · rw [mem_singleton.mp hnew]
        exact hlearned _ rfl rfl fun _ ↦ ⟨rfl, rfl⟩
    · obtain rfl := ok.inj hrest
      exact h

theorem Stable.processEntries (hJ : Stable J) {incomingIe : RipInterfaceEntry A L} {srcAddr : A}
    (entries : List (RipEntry A)) (h : ∀ route ∈ table, J route)
    (hnextHop : ∀ entry ∈ entries, entry.nextHop = none)
    (hlearns : ∀ entry ∈ entries, Learns J incomingIe srcAddr entry)
    (hprocess : entries.foldlM (config.processEntry now incomingIe srcAddr) table = .ok table') :
    ∀ route ∈ table', J route := by
  induction entries generalizing table with
  | nil =>
    obtain rfl := ok.inj hprocess
    exact h
  | cons entry rest ih =>
    obtain ⟨next, hfirst, hrest⟩ := bind_eq_ok hprocess
    have hnext := hJ.processEntry h (hnextHop entry mem_cons_self)
      (hlearns entry mem_cons_self) hfirst
    exact ih hnext (fun other hother ↦ hnextHop other (mem_cons_of_mem _ hother))
      (fun other hother ↦ hlearns other (mem_cons_of_mem _ hother)) hrest

/-- A response is processed if it is valid and comes in on an interface of the module. -/
theorem Stable.processResponse (hJ : Stable J) (h : ∀ route ∈ table, J route)
    {received : Received A} (hnextHop : ∀ entry ∈ received.packet.entry, entry.nextHop = none)
    (hlearns : ∀ incomingIe, config.findRipInterfaceById received.interfaceId = some incomingIe →
      config.isValidResponse received = true → ∀ entry ∈ received.packet.entry,
        Learns J incomingIe received.srcAddr entry)
    (hprocess : config.processResponse now table received = .ok table') :
    ∀ route ∈ table', J route := by
  unfold Config.processResponse at hprocess
  split at hprocess
  · rename_i hvalid
    split at hprocess
    · obtain rfl := ok.inj hprocess
      exact h
    · rename_i incomingIe hfind
      exact hJ.processEntries received.packet.entry h hnextHop (hlearns incomingIe hfind hvalid)
        hprocess
  · obtain rfl := ok.inj hprocess
    exact h

theorem Stable.processRequest (hJ : Stable J) (h : ∀ route ∈ table, J route)
    {received : Received A} (hwhole : received.packet = wholeTable)
    {result : List (RipRoute A) × List (Outgoing A)}
    (hprocess : config.processRequest now table received = .ok result) : Sends J result := by
  unfold Config.processRequest at hprocess
  rw [hwhole] at hprocess
  simp only [wholeTable, and_self, ite_true] at hprocess
  split at hprocess
  · exact hJ.sendRoutes h hprocess
  · obtain rfl := ok.inj hprocess
    exact sends_nothing h

end Received

end Inet4.Rip
