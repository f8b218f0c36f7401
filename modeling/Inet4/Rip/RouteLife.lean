import Inet4.Machine
import Inet4.Rip.Table

/-!
# The life of a RIP route

What happens to one route of the table until it is purged: the handlers of the module go through the
table and apply the functions of a route to it.  The environment decides when the table is checked,
which entries of responses are for the route, and what becomes of the interface and of the route of
the host that it refers to.
-/

namespace Inet4.Rip

open Except (ok)

variable {A L : Type} [DecidableEq A]

/-! ## Events -/

inductive RouteEvent (A : Type)
  /-- `checkExpiredRoutes`, which runs whenever routes are sent. -/
  | check
  /-- `processUpdate` clears the flag. -/
  | sent
  /-- An entry of a response, with the metric that includes the one of the interface. -/
  | entry (ie : ℕ) (srcAddr : A) (nextHop : L3Address A) (metric routeTag : ℕ)
  /-- The signal that the interface of the route is down. -/
  | interfaceDown
  /-- The signal that the route of the host was deleted by another module. -/
  | routeDeleted
  /-- The signal that the route of the interface was added again. -/
  | routeAdded (hostMetric metric : ℕ)
  /-- The signal that a route of another module was changed. -/
  | routeChanged (dest : L3Address A) (prefixLength : ℕ) (nextHop : L3Address A) (ie : Option ℕ)
deriving DecidableEq

/-- A route and the time of the last event; a purged route is `none`. -/
structure RouteLife (A : Type) where
  clock : SimTime
  route : Option (RipRoute A)
deriving DecidableEq

namespace RouteLife

/-- Metrics of entries are at most infinite, and those of interfaces are less. -/
def Enabled (life : RouteLife A) (event : SimTime × RouteEvent A) : Prop :=
  life.clock ≤ event.1 ∧ ∃ route ∈ life.route, match event.2 with
    | .entry _ _ _ metric _ => metric ≤ RIP_INFINITE_METRIC
    | .routeAdded _ metric => route.type = .RIP_ROUTE_INTERFACE ∧ metric < RIP_INFINITE_METRIC
    | .routeChanged .. => ∃ hostRoute ∈ route.route, hostRoute.fromRip = false
    | _ => True

def handleRoute (config : Config A L) (now : SimTime) (route : RipRoute A) :
    RouteEvent A → Except Fault (Option (RipRoute A))
  | .check => .ok (config.checkExpired now route)
  | .sent => .ok (some { route with changed := false })
  | .entry ie srcAddr nextHop metric routeTag => do
    let route ← config.updateFromEntry now ie srcAddr nextHop metric routeTag route
    return some route
  | .interfaceDown => .ok (some (route.invalidateRoute now))
  | .routeDeleted => .ok (some (route.routeDeleted now))
  | .routeAdded hostMetric metric =>
    let route := { route with route := some { metric := hostMetric, fromRip := false } }
    .ok (some { route.setMetric metric with changed := true })
  | .routeChanged dest prefixLength nextHop ie => .ok (some { route with
      changed := route.changed || (dest ≠ route.dest || prefixLength ≠ route.prefixLength ||
        nextHop ≠ route.nextHop || ie ≠ route.ie)
      dest := dest
      prefixLength := prefixLength
      nextHop := nextHop
      ie := ie })

def handle (config : Config A L) (life : RouteLife A) (event : SimTime × RouteEvent A) :
    Except Fault (RouteLife A) :=
  match life.route with
  | none => .ok { life with clock := event.1 }
  | some route => do
    let route ← handleRoute config event.1 route event.2
    return ⟨event.1, route⟩

def machine (config : Config A L) : Machine (RouteLife A) (SimTime × RouteEvent A) Fault where
  Enabled := Enabled
  handle := handle config

end RouteLife

/-! ## What holds of every route -/

/-- The route of another module that a route refers to. -/
def RipRoute.foreign (route : RipRoute A) : Option HostRoute := route.route.filter (!·.fromRip)

/-- The times have passed, and a route of another module is referred to only by a reachable route
that was not learned.  An unreachable route may refer to a route of the host after it took the place
of the route of an interface. -/
structure RipRoute.Consistent (route : RipRoute A) (clock : SimTime) : Prop where
  update_le : route.lastUpdateTime ≤ clock
  invalid_le : route.lastInvalid ≤ clock
  metric_le : route.metric ≤ RIP_INFINITE_METRIC
  unreachable : route.metric = RIP_INFINITE_METRIC → route.type = .RIP_ROUTE_RTE →
    route.route = none
  imported : route.foreign ≠ none →
    route.type ≠ .RIP_ROUTE_RTE ∧ route.metric ≠ RIP_INFINITE_METRIC

namespace RipRoute

variable {config : Config A L} {route route' : RipRoute A} {clock now : SimTime}
variable {ie metric routeTag : ℕ} {srcAddr : A} {nextHop fromAddr : L3Address A}

omit [DecidableEq A] in
theorem Consistent.mono (h : route.Consistent clock) (hle : clock ≤ now) : route.Consistent now :=
  ⟨h.update_le.trans hle, h.invalid_le.trans hle, h.metric_le, h.unreachable, h.imported⟩

omit [DecidableEq A] in
theorem Consistent.invalidateRoute (h : route.Consistent now) :
    (route.invalidateRoute now).Consistent now :=
  ⟨h.update_le, le_rfl, le_rfl, fun _ _ ↦ rfl, absurd rfl⟩

theorem touch_fields (route : RipRoute A) (now : SimTime) (srcAddr : A) :
    (route.touch now srcAddr).metric = route.metric ∧
      (route.touch now srcAddr).route = route.route ∧
      (route.touch now srcAddr).lastInvalid = route.lastInvalid := by
  unfold RipRoute.touch
  split <;> exact ⟨rfl, rfl, rfl⟩

theorem Consistent.touch (h : route.Consistent now) (srcAddr : A) :
    (route.touch now srcAddr).Consistent now := by
  unfold RipRoute.touch
  split
  · exact ⟨le_rfl, h.invalid_le, h.metric_le, h.unreachable, h.imported⟩
  · exact h

omit [DecidableEq A] in
theorem Consistent.routeDeleted (h : route.Consistent now) :
    (route.routeDeleted now).Consistent now := by
  unfold RipRoute.routeDeleted
  split
  · exact h
  · split
    · exact ⟨h.update_le, h.invalid_le, h.metric_le, fun _ _ ↦ rfl, absurd rfl⟩
    · exact ⟨h.update_le, le_rfl, le_rfl, fun _ _ ↦ rfl, absurd rfl⟩

omit [DecidableEq A] in
/-- What is left of a route while the route of the host is replaced: the route of another module
takes the metric with it. -/
theorem routeDeleted_setMetric (route : RipRoute A) (now : SimTime) (metric : ℕ) :
    ((route.setMetric metric).routeDeleted now).type = route.type ∧
      ((route.setMetric metric).routeDeleted now).lastUpdateTime = route.lastUpdateTime ∧
      (((route.setMetric metric).routeDeleted now).metric = metric ∧
          ((route.setMetric metric).routeDeleted now).lastInvalid = route.lastInvalid ∨
        ((route.setMetric metric).routeDeleted now).metric = RIP_INFINITE_METRIC ∧
          ((route.setMetric metric).routeDeleted now).lastInvalid = now ∧
          route.foreign ≠ none) := by
  obtain ⟨hostRoute, type⟩ := route
  unfold RipRoute.routeDeleted setMetric
  cases hostRoute with
  | none => split <;> simp_all
  | some hostRoute =>
    obtain ⟨hostMetric, fromRip⟩ := hostRoute
    cases fromRip <;> by_cases htype : type = .RIP_ROUTE_RTE <;>
      simp [htype, foreign, RipRoute.invalidateRoute]

omit [DecidableEq A] in
theorem exists_updateRoute
    (hroute : route.metric ≠ RIP_INFINITE_METRIC → route.route.isSome = true) :
    ∃ route', route.updateRoute now ie nextHop metric routeTag fromAddr = .ok route' := by
  have hset : route.metric ≠ RIP_INFINITE_METRIC →
      ({ route with ie := some ie }.setMetric metric).route.isSome = true := by
    intro hne
    unfold setMetric
    split
    · rw [Option.isSome_map]
      exact hroute hne
    · exact hroute hne
  have hreplace : ∃ replaced, ({ route with ie := some ie }.setMetric metric).replaceRoute now
      route.metric nextHop metric = .ok replaced := by
    unfold replaceRoute
    by_cases hold : route.metric = RIP_INFINITE_METRIC
    · rw [if_pos hold]
      split <;> exact ⟨_, rfl⟩
    · rw [if_neg hold]
      exact ⟨_, bind_of_ok (assert_of (hset hold))⟩
  obtain ⟨replaced, hreplace⟩ := hreplace
  unfold updateRoute
  dsimp only
  rw [bind_of_ok hreplace]
  split <;> exact ⟨_, rfl⟩

omit [DecidableEq A] in
/-- The route refers to no route of another module any more, and an unreachable one is reachable
again. -/
theorem updateRoute_spec (h : route.Consistent now) (hle : metric ≤ RIP_INFINITE_METRIC)
    (hold : route.metric = RIP_INFINITE_METRIC → metric < RIP_INFINITE_METRIC)
    (hupdate : route.updateRoute now ie nextHop metric routeTag fromAddr = .ok route') :
    route'.Consistent now ∧ route'.foreign = none ∧
      (route.metric = RIP_INFINITE_METRIC →
        route'.metric = metric ∧ route'.lastInvalid = route.lastInvalid) := by
  obtain ⟨htype, hupdated, hleft⟩ := routeDeleted_setMetric { route with ie := some ie } now metric
  obtain ⟨replaced, hreplace, hrest⟩ := bind_eq_ok hupdate
  unfold replaceRoute at hreplace
  by_cases hinfinite : route.metric = RIP_INFINITE_METRIC
  · rw [if_pos hinfinite, if_pos (hold hinfinite)] at hreplace
    obtain rfl := ok.inj hreplace
    rw [if_neg fun h ↦ h.1 hinfinite] at hrest
    obtain rfl := ok.inj hrest
    rcases hleft with ⟨hmetric, hinvalid⟩ | ⟨-, -, hother⟩
    · exact ⟨⟨le_rfl, hinvalid.trans_le h.invalid_le, hmetric.trans_le hle,
        fun heq ↦ absurd (hmetric.symm.trans heq) (hold hinfinite).ne, absurd rfl⟩, rfl,
        fun _ ↦ ⟨hmetric, hinvalid⟩⟩
    · exact absurd hinfinite (h.imported hother).2
  · rw [if_neg hinfinite] at hreplace
    obtain ⟨⟨⟩, -, hreplace⟩ := bind_eq_ok hreplace
    obtain rfl := ok.inj hreplace
    by_cases hreached : metric < RIP_INFINITE_METRIC
    · simp only [if_pos hreached] at hrest
      rw [if_neg fun h ↦ h.2.not_lt hreached] at hrest
      obtain rfl := ok.inj hrest
      refine ⟨⟨le_rfl, ?_, ?_, ?_, absurd rfl⟩, rfl, fun heq ↦ absurd heq hinfinite⟩
      · rcases hleft with ⟨-, hinvalid⟩ | ⟨-, hinvalid, -⟩
        · exact hinvalid.trans_le h.invalid_le
        · exact hinvalid.le
      · rcases hleft with ⟨hmetric, -⟩ | ⟨hmetric, -⟩
        · exact hmetric.trans_le hle
        · exact hmetric.le
      · intro heq hlearned
        rcases hleft with ⟨hmetric, -⟩ | ⟨-, -, hother⟩
        · exact absurd (hmetric.symm.trans heq) hreached.ne
        · exact absurd (htype.symm.trans hlearned) (h.imported hother).1
    · rw [if_pos ⟨hinfinite, le_antisymm hle (not_lt.mp hreached)⟩] at hrest
      obtain rfl := ok.inj hrest
      refine ⟨⟨?_, le_rfl, le_rfl, fun _ _ ↦ rfl, absurd rfl⟩, rfl, fun heq ↦ absurd heq hinfinite⟩
      exact hupdated.trans_le h.update_le

/-- The metric of an entry is better, or another one from the router of the route. -/
def Updates (route : RipRoute A) (srcAddr : A) (metric : ℕ) : Prop :=
  metric < route.metric ∨ route.fromAddr = some srcAddr ∧ route.metric ≠ metric

omit [DecidableEq A] in
theorem Updates.reaches (h : route.Updates srcAddr metric) (hle : metric ≤ RIP_INFINITE_METRIC)
    (hold : route.metric = RIP_INFINITE_METRIC) : metric < RIP_INFINITE_METRIC := by
  rcases h with hlt | ⟨-, hne⟩
  · exact hlt.trans_eq hold
  · exact lt_of_le_of_ne hle (hold ▸ hne.symm)

/-- An entry is ignored, refreshes the route, or updates it. -/
theorem updateFromEntry_eq
    (h : config.updateFromEntry now ie srcAddr nextHop metric routeTag route = .ok route') :
    route' = route ∨ route' = route.touch now srcAddr ∨
      (¬((route.type = .RIP_ROUTE_STATIC ∨ route.type = .RIP_ROUTE_DEFAULT) ∧
        route.metric ≠ RIP_INFINITE_METRIC) ∧ route.Updates srcAddr metric) ∧
        (route.touch now srcAddr).updateRoute now ie nextHop metric routeTag (some srcAddr) =
          .ok route' := by
  unfold Config.updateFromEntry at h
  split_ifs at h with hignored hbetter
  · exact .inl (ok.inj h).symm
  · exact .inr (.inl (ok.inj h).symm)
  · exact .inr (.inr ⟨⟨hignored, hbetter⟩, h⟩)
  · exact .inr (.inl (ok.inj h).symm)

/-- What an update leaves of a route. -/
theorem Consistent.update (h : route.Consistent now) (hle : metric ≤ RIP_INFINITE_METRIC)
    (hupdates : route.Updates srcAddr metric)
    (hupdate : (route.touch now srcAddr).updateRoute now ie nextHop metric routeTag fromAddr =
      .ok route') :
    route'.Consistent now ∧ route'.foreign = none ∧
      (route.metric = RIP_INFINITE_METRIC →
        route'.metric = metric ∧ route'.lastInvalid = route.lastInvalid) := by
  obtain ⟨hmetric, -, hinvalid⟩ := route.touch_fields now srcAddr
  have hspec := updateRoute_spec (h.touch srcAddr) hle
    (fun heq ↦ hupdates.reaches hle (hmetric.symm.trans heq)) hupdate
  rwa [hmetric, hinvalid] at hspec

theorem Consistent.updateFromEntry (h : route.Consistent now) (hle : metric ≤ RIP_INFINITE_METRIC)
    (hentry : config.updateFromEntry now ie srcAddr nextHop metric routeTag route = .ok route') :
    route'.Consistent now := by
  rcases updateFromEntry_eq hentry with rfl | rfl | ⟨⟨-, hupdates⟩, hupdate⟩
  · exact h
  · exact h.touch srcAddr
  · exact (h.update hle hupdates hupdate).1

omit [DecidableEq A] in
theorem Consistent.checkExpired (h : route.Consistent now)
    (hcheck : config.checkExpired now route = some route') : route'.Consistent now := by
  unfold Config.checkExpired at hcheck
  split_ifs at hcheck
  · obtain rfl := Option.some.inj hcheck
    exact h.invalidateRoute
  · obtain rfl := Option.some.inj hcheck
    exact h
  · obtain rfl := Option.some.inj hcheck
    exact h

end RipRoute

namespace RouteLife

variable {config : Config A L} {life life' : RouteLife A} {event : SimTime × RouteEvent A}

def Consistent (life : RouteLife A) : Prop := ∀ route ∈ life.route, route.Consistent life.clock

theorem Consistent.step (h : life.Consistent) (hstep : (machine config).Step life event life') :
    life'.Consistent := by
  obtain ⟨⟨hclock, route, hroute, henabled⟩, hhandle⟩ := hstep
  obtain ⟨now, event⟩ := event
  have hconsistent := (h route hroute).mono hclock
  simp only [machine, handle, Option.mem_def.mp hroute] at hhandle
  obtain ⟨result, hresult, rfl⟩ := bind_pure_eq_ok hhandle
  rintro route' (rfl : result = some route')
  cases event with
  | check => exact hconsistent.checkExpired (ok.inj hresult)
  | sent | routeChanged dest prefixLength nextHop ie =>
    obtain rfl := Option.some.inj (ok.inj hresult)
    exact ⟨hconsistent.update_le, hconsistent.invalid_le, hconsistent.metric_le,
      hconsistent.unreachable, hconsistent.imported⟩
  | entry ie srcAddr nextHop metric routeTag =>
    obtain ⟨updated, hupdate, heq⟩ := bind_pure_eq_ok hresult
    obtain rfl := Option.some.inj heq
    exact hconsistent.updateFromEntry henabled hupdate
  | interfaceDown =>
    obtain rfl := Option.some.inj (ok.inj hresult)
    exact hconsistent.invalidateRoute
  | routeDeleted =>
    obtain rfl := Option.some.inj (ok.inj hresult)
    exact hconsistent.routeDeleted
  | routeAdded hostMetric metric =>
    obtain rfl := Option.some.inj (ok.inj hresult)
    obtain ⟨htype, hmetric⟩ := henabled
    have hother : route.type ≠ .RIP_ROUTE_RTE := by
      rw [htype]
      decide
    exact ⟨hconsistent.update_le, hconsistent.invalid_le, hmetric.le,
      fun heq ↦ absurd heq hmetric.ne, fun _ ↦ ⟨hother, hmetric.ne⟩⟩

/-- A route as `addRoute` and `importRoute` make it. -/
structure New (life : RouteLife A) : Prop where
  times : ∀ route ∈ life.route, route.lastUpdateTime ≤ life.clock ∧ route.lastInvalid ≤ life.clock
  metric_lt : ∀ route ∈ life.route, route.metric < RIP_INFINITE_METRIC
  imported : ∀ route ∈ life.route, route.foreign ≠ none → route.type ≠ .RIP_ROUTE_RTE

theorem New.consistent_of_run {start : RouteLife A} {events : List (SimTime × RouteEvent A)}
    (hnew : start.New) (hrun : (machine config).Run start events life) : life.Consistent := by
  apply hrun.invariant fun _ _ _ h hstep ↦ h.step hstep
  intro route hroute
  obtain ⟨hupdate, hinvalid⟩ := hnew.times route hroute
  have hlt := hnew.metric_lt route hroute
  exact ⟨hupdate, hinvalid, hlt.le, fun heq ↦ absurd heq hlt.ne,
    fun hother ↦ ⟨hnew.imported route hroute hother, hlt.ne⟩⟩

/-! ## Routes of other modules -/

/-- Every route of the table has come to be what it is by events of its life. -/
def Reached (config : Config A L) (now : SimTime) (table : List (RipRoute A)) : Prop :=
  0 ≤ now ∧ ∀ route ∈ table, ∃ start events clock, start.New ∧ clock ≤ now ∧
    (machine config).Run start events ⟨clock, some route⟩

theorem reached_startRIPRouting (hmetric : ∀ route ∈ config.interfaceRoutes,
    config.getInterfaceMetric route.ie < RIP_INFINITE_METRIC) :
    Reached config 0 config.startRIPRouting.1 := by
  refine ⟨le_rfl, fun route hroute ↦ ?_⟩
  obtain ⟨interfaceRoute, hmem, rfl⟩ := List.mem_map.mp hroute
  refine ⟨⟨0, some (config.importRoute interfaceRoute)⟩, [], 0, ⟨?_, ?_, ?_⟩, le_rfl, .nil _⟩
  · rintro _ ⟨⟩
    exact ⟨le_rfl, le_rfl⟩
  · rintro _ ⟨⟩
    exact hmetric _ (List.mem_of_mem_filter hmem)
  · rintro _ ⟨⟩ -
    exact nofun

theorem Reached.consistent {now : SimTime} {table : List (RipRoute A)}
    (h : Reached config now table) : ∀ route ∈ table, route.Consistent now := by
  intro route hroute
  obtain ⟨start, events, clock, hnew, hclock, hrun⟩ := h.2 route hroute
  exact (hnew.consistent_of_run hrun route rfl).mono hclock

end RouteLife

section Response

open List

variable {config : Config A L} {now : SimTime} {incomingIe : RipInterfaceEntry A L} {srcAddr : A}
variable {table table' : List (RipRoute A)} {entry : RipEntry A}

/-- An entry replaces the route of another module: the one of an interface, and by a better
metric. -/
def RipRoute.IsReplaced (route : RipRoute A) (srcAddr : A) (metric : ℕ) : Prop :=
  route.foreign ≠ none ∧ ¬(route.type = .RIP_ROUTE_STATIC ∨ route.type = .RIP_ROUTE_DEFAULT) ∧
    route.Updates srcAddr metric

theorem RipRoute.Consistent.foreign_of_entry {route route' : RipRoute A} {ie metric routeTag : ℕ}
    {nextHop : L3Address A} (h : route.Consistent now) (hle : metric ≤ RIP_INFINITE_METRIC)
    (hentry : config.updateFromEntry now ie srcAddr nextHop metric routeTag route = .ok route') :
    (route.IsReplaced srcAddr metric → route'.foreign = none) ∧
      (¬route.IsReplaced srcAddr metric → route'.foreign = route.foreign ∧
        ∀ metric, route'.IsReplaced srcAddr metric ↔ route.IsReplaced srcAddr metric) := by
  constructor
  · rintro ⟨hother, htype, hupdates⟩
    have hbetter : metric < route.metric ∨ route.fromAddr = some srcAddr ∧ route.metric ≠ metric :=
      hupdates
    have hprevent : ¬config.preventRouteUpdate now route metric = true := by
      simp [Config.preventRouteUpdate, (h.imported hother).2]
    rw [Config.updateFromEntry, if_neg fun h ↦ htype h.1, if_pos hbetter, if_neg hprevent] at hentry
    exact (h.update hle hupdates hentry).2.1
  · intro hnot
    rcases RipRoute.updateFromEntry_eq hentry with rfl | rfl | ⟨⟨hignored, hupdates⟩, hupdate⟩
    · exact ⟨rfl, fun _ ↦ Iff.rfl⟩
    · unfold RipRoute.touch
      split <;> exact ⟨rfl, fun _ ↦ Iff.rfl⟩
    · have hnone : route.foreign = none := by
        by_contra hother
        exact hnot ⟨hother, fun htype ↦ hignored ⟨htype, (h.imported hother).2⟩, hupdates⟩
      have hnone' := (h.update hle hupdates hupdate).2.1
      refine ⟨hnone'.trans hnone.symm, fun _ ↦ ?_⟩
      rw [RipRoute.IsReplaced, RipRoute.IsReplaced, hnone, hnone']
      exact ⟨fun h ↦ absurd rfl h.1, fun h ↦ absurd rfl h.1⟩

/-- The routes of other modules that the table refers to. -/
def foreignRoutes (table : List (RipRoute A)) : List HostRoute := table.filterMap RipRoute.foreign

/-- The route that an entry is for is replaced. -/
def ReplacesForeign (table : List (RipRoute A)) (incomingIe : RipInterfaceEntry A L) (srcAddr : A)
    (entry : RipEntry A) : Prop :=
  ∃ route ∈ findRipRoute table entry.address entry.prefixLength,
    route.IsReplaced srcAddr (learnedMetric incomingIe entry)

theorem replacesForeign_congr {before after : List (RipRoute A)} {old new : RipRoute A}
    (hfor : ∀ address prefixLength, new.isFor address prefixLength = old.isFor address prefixLength)
    (hreplaced : ∀ metric, new.IsReplaced srcAddr metric ↔ old.IsReplaced srcAddr metric) :
    ReplacesForeign (before ++ new :: after) incomingIe srcAddr entry ↔
      ReplacesForeign (before ++ old :: after) incomingIe srcAddr entry := by
  unfold ReplacesForeign findRipRoute
  rw [find?_append, find?_append, find?_cons, find?_cons, hfor]
  cases before.find? _ with
  | some first => exact Iff.rfl
  | none => cases old.isFor entry.address entry.prefixLength <;> simp [hreplaced]

theorem processEntry_foreignRoutes (hnow : 0 ≤ now) (h : ∀ route ∈ table, route.Consistent now)
    (hprocess : config.processEntry now incomingIe srcAddr table entry = .ok table') :
    (∀ route ∈ table', route.Consistent now) ∧
      (ReplacesForeign table incomingIe srcAddr entry →
        (foreignRoutes table').length < (foreignRoutes table).length) ∧
      (¬ReplacesForeign table incomingIe srcAddr entry →
        foreignRoutes table' = foreignRoutes table ∧
        ∀ other, ReplacesForeign table' incomingIe srcAddr other ↔
          ReplacesForeign table incomingIe srcAddr other) := by
  have hle : learnedMetric incomingIe entry ≤ RIP_INFINITE_METRIC := min_le_right _ _
  obtain ⟨updated, hupdate, hrest⟩ := bind_eq_ok hprocess
  rcases updateRipRoute_spec hupdate with
    ⟨rfl, hnone⟩ | ⟨before, old, new, after, rfl, rfl, hnone, hfor, hchange⟩
  · have hnot : ¬ReplacesForeign table incomingIe srcAddr entry := by
      rintro ⟨route, hfind, -⟩
      rw [hnone] at hfind
      cases hfind
    simp only at hrest
    split at hrest
    · rename_i hfinite
      obtain rfl := ok.inj hrest
      refine ⟨forall_mem_append.mpr ⟨h, ?_⟩, fun h ↦ absurd h hnot, fun _ ↦ ⟨?_, fun other ↦ ?_⟩⟩
      · rw [forall_mem_singleton]
        exact ⟨le_rfl, hnow, hle, fun heq ↦ absurd heq hfinite, absurd rfl⟩
      · exact filterMap_append.trans (append_nil _)
      · unfold ReplacesForeign findRipRoute addRoute
        rw [find?_append, find?_singleton]
        cases table.find? _ with
        | some first => exact Iff.rfl
        | none => split <;> simp [RipRoute.IsReplaced, RipRoute.foreign]
    · obtain rfl := ok.inj hrest
      exact ⟨h, fun h ↦ absurd h hnot, fun _ ↦ ⟨rfl, fun _ ↦ Iff.rfl⟩⟩
  · obtain rfl := ok.inj hrest
    obtain ⟨hbefore, hold, hafter⟩ := by simpa only [forall_mem_append, forall_mem_cons] using h
    obtain ⟨hreplaced, hkept⟩ := hold.foreign_of_entry hle hchange
    have hfind : findRipRoute (before ++ old :: after) entry.address entry.prefixLength =
      some old := by
      rw [findRipRoute, find?_append, find?_cons_of_pos hfor]
      exact congrArg (Option.or · _) hnone
    have hiff : ReplacesForeign (before ++ old :: after) incomingIe srcAddr entry ↔
        old.IsReplaced srcAddr (learnedMetric incomingIe entry) := by
      rw [ReplacesForeign, hfind]
      simp
    refine ⟨?_, fun hreplaces ↦ ?_, fun hnot ↦ ?_⟩
    · simp only [forall_mem_append, forall_mem_cons]
      exact ⟨hbefore, hold.updateFromEntry hle hchange, hafter⟩
    · have hgone := hreplaced (hiff.mp hreplaces)
      obtain ⟨hostRoute, hother⟩ := Option.ne_none_iff_exists'.mp (hiff.mp hreplaces).1
      simp [foreignRoutes, hgone, hother]
    · obtain ⟨hforeign, hsame⟩ := hkept (mt hiff.mpr hnot)
      have hnetwork : new.dest = old.dest ∧ new.prefixLength = old.prefixLength := by
        rcases updateFromEntry_cases hchange with hsame | hupdates
        · exact ⟨hsame.dest, hsame.prefixLength⟩
        · exact ⟨hupdates.dest, hupdates.prefixLength⟩
      refine ⟨?_, fun other ↦ replacesForeign_congr (fun address prefixLength ↦ ?_) hsame⟩
      · simp only [foreignRoutes, filterMap_append, filterMap_cons, hforeign]
      · rw [RipRoute.isFor, RipRoute.isFor, hnetwork.1, hnetwork.2]

theorem processEntries_foreignRoutes {entries : List (RipEntry A)} (hnow : 0 ≤ now)
    (h : ∀ route ∈ table, route.Consistent now)
    (hprocess : entries.foldlM (config.processEntry now incomingIe srcAddr) table = .ok table') :
    (foreignRoutes table').length ≤ (foreignRoutes table).length ∧
      (foreignRoutes table' = foreignRoutes table ↔
        ∀ entry ∈ entries, ¬ReplacesForeign table incomingIe srcAddr entry) := by
  induction entries generalizing table with
  | nil =>
    obtain rfl := ok.inj hprocess
    exact ⟨le_rfl, iff_of_true rfl nofun⟩
  | cons entry entries ih =>
    obtain ⟨mid, hentry, hrest⟩ := bind_eq_ok hprocess
    obtain ⟨hmid, hreplaced, hkept⟩ := processEntry_foreignRoutes hnow h hentry
    obtain ⟨hle, hiff⟩ := ih hmid hrest
    by_cases hreplaces : ReplacesForeign table incomingIe srcAddr entry
    · have hlt := hle.trans_lt (hreplaced hreplaces)
      refine ⟨hlt.le, iff_of_false (fun heq ↦ ?_) fun hnot ↦ hnot entry mem_cons_self hreplaces⟩
      rw [heq] at hlt
      exact lt_irrefl _ hlt
    · obtain ⟨heq, hsame⟩ := hkept hreplaces
      rw [heq] at hle hiff
      refine ⟨hle, hiff.trans ?_⟩
      simp only [hsame, forall_mem_cons, hreplaces, not_false_eq_true, true_and]

/-- In every reachable table a response leaves the routes of other modules alone exactly if none of
its entries replaces the route of an interface. -/
theorem processResponse_keeps_iff {received : Received A} (h : RouteLife.Reached config now table)
    (hprocess : config.processResponse now table received = .ok table') :
    foreignRoutes table' = foreignRoutes table ↔
      (config.isValidResponse received = true →
        ∀ incomingIe ∈ config.findRipInterfaceById received.interfaceId,
          ∀ entry ∈ received.packet.entry,
            ¬ReplacesForeign table incomingIe received.srcAddr entry) := by
  unfold Config.processResponse at hprocess
  split at hprocess
  · rename_i hvalid
    split at hprocess
    · rename_i hnone
      obtain rfl := ok.inj hprocess
      refine iff_of_true rfl fun _ incomingIe hsome ↦ ?_
      rw [hnone] at hsome
      cases hsome
    · rename_i incomingIe hsome
      rw [(processEntries_foreignRoutes h.1 h.consistent hprocess).2]
      simp [hvalid, hsome]
  · rename_i hinvalid
    obtain rfl := ok.inj hprocess
    exact iff_of_true rfl fun hvalid ↦ absurd hvalid hinvalid

def sampleInterface (id metric : ℕ) : RipInterfaceEntry ℕ ℕ :=
  ⟨{ interfaceId := id, address := 10 * id, link := id, inNetwork := (· / 10 = id) }, metric,
    .NO_SPLIT_HORIZON⟩

/-- The first interface has the metric 5, and router 21 is on the second one. -/
def costlyNetwork : Config ℕ ℕ where
  routeExpiryTime := 180
  routePurgeTime := 120
  holdDownTime := 60
  ift := [(sampleInterface 1 5).ie, (sampleInterface 2 1).ie]
  ripInterfaces := [sampleInterface 1 5, sampleInterface 2 1]
  interfaceRoutes := [⟨10, 24, (sampleInterface 1 5).ie, 0⟩]

/-- Router 21 has a route to the network of the first interface. -/
def announcement (metric : ℕ) : Received ℕ :=
  ⟨⟨.RIP_RESPONSE, [⟨.RIP_AF_INET, 0, some 10, 24, none, metric⟩]⟩, 21, 520, 2, 1⟩

theorem processResponse_keeps_iff_distant :
    ∃ table', costlyNetwork.processResponse 0 costlyNetwork.startRIPRouting.1 (announcement 4) =
        .ok table' ∧ foreignRoutes table' = foreignRoutes costlyNetwork.startRIPRouting.1 := by
  have hprocess : costlyNetwork.processResponse 0 costlyNetwork.startRIPRouting.1 (announcement 4) =
      .ok _ := rfl
  refine ⟨_, hprocess, (processResponse_keeps_iff
    (RouteLife.reached_startRIPRouting (by decide)) hprocess).mpr ?_⟩
  rintro - _ ⟨⟩ entry hentry ⟨route, hroute, -, -, hlt | ⟨hfrom, -⟩⟩
  · obtain rfl := mem_singleton.mp hentry
    obtain rfl := Option.some.inj hroute
    exact absurd hlt (by decide)
  · obtain rfl := mem_singleton.mp hentry
    obtain rfl := Option.some.inj hroute
    cases hfrom

/-- Router 21 has a route of metric 2 for this router, and the route of the interface is deleted. -/
theorem not_keeps_costly :
    RouteLife.Reached costlyNetwork 0 costlyNetwork.startRIPRouting.1 ∧
      foreignRoutes costlyNetwork.startRIPRouting.1 = [⟨0, false⟩] ∧
      (costlyNetwork.processResponse 0 costlyNetwork.startRIPRouting.1 (announcement 1)).map
        foreignRoutes = .ok [] :=
  ⟨RouteLife.reached_startRIPRouting (by decide), rfl, rfl⟩

end Response

/-! ## Hold-down and purge -/

/-- An unreachable route is invalidated once more: it has expired and is not to be purged yet, or
its interface goes down. -/
def Config.Invalidates (config : Config A L) (route : RipRoute A) (now : SimTime) :
    RouteEvent A → Prop
  | .check => route.type = .RIP_ROUTE_RTE ∧ route.lastUpdateTime + config.routeExpiryTime ≤ now ∧
      now < route.lastUpdateTime + config.routeExpiryTime + config.routePurgeTime
  | .interfaceDown => True
  | _ => False

/-- The router of the route sends an entry for it. -/
def RipRoute.Refreshes (route : RipRoute A) (_ : SimTime) : RouteEvent A → Prop
  | .entry _ srcAddr _ _ _ => route.fromAddr = some srcAddr
  | _ => False

namespace RouteLife

variable {config : Config A L} {life life' : RouteLife A} {event : SimTime × RouteEvent A}
variable {P : RipRoute A → SimTime → RouteEvent A → Prop} {t : SimTime}

/-- The route is unreachable, and nothing of the kind happens to it after the given time. -/
def Spared (P : RipRoute A → SimTime → RouteEvent A → Prop) (t : SimTime) (life : RouteLife A)
    (event : SimTime × RouteEvent A) : Prop :=
  ∀ route ∈ life.route, route.metric = RIP_INFINITE_METRIC ∧ (P route event.1 event.2 → event.1 ≤ t)

/-- What an event does to the times of an unreachable route. -/
theorem Consistent.step_unreachable (h : life.Consistent)
    (hstep : (machine config).Step life event life') {route route' : RipRoute A}
    (hroute : life.route = some route) (hunreachable : route.metric = RIP_INFINITE_METRIC)
    (hroute' : life'.route = some route') :
    (route'.lastInvalid = route.lastInvalid ∨
        config.Invalidates route event.1 event.2 ∧ route'.lastInvalid = event.1) ∧
      (route'.metric = RIP_INFINITE_METRIC → route'.lastUpdateTime = route.lastUpdateTime ∨
        route.Refreshes event.1 event.2 ∧ route'.lastUpdateTime = event.1) := by
  obtain ⟨⟨hclock, enabled, hsome, henabled⟩, hhandle⟩ := hstep
  obtain ⟨now, event⟩ := event
  have hconsistent := (h _ hroute).mono hclock
  simp only [machine, handle, hroute] at hhandle
  obtain ⟨result, hresult, rfl⟩ := bind_pure_eq_ok hhandle
  obtain rfl : result = some route' := hroute'
  cases event with
  | check =>
    have hcheck := ok.inj hresult
    unfold Config.checkExpired at hcheck
    split_ifs at hcheck with hlearned hpurge hexpired
    · obtain rfl := Option.some.inj hcheck
      exact ⟨.inr ⟨⟨hlearned, hexpired, not_le.mp hpurge⟩, rfl⟩, fun _ ↦ .inl rfl⟩
    · obtain rfl := Option.some.inj hcheck
      exact ⟨.inl rfl, fun _ ↦ .inl rfl⟩
    · obtain rfl := Option.some.inj hcheck
      exact ⟨.inl rfl, fun _ ↦ .inl rfl⟩
  | entry ie srcAddr nextHop metric routeTag =>
    obtain ⟨updated, hentry, heq⟩ := bind_pure_eq_ok hresult
    obtain rfl := Option.some.inj heq
    rcases RipRoute.updateFromEntry_eq hentry with rfl | rfl | ⟨⟨-, hupdates⟩, hupdate⟩
    · exact ⟨.inl rfl, fun _ ↦ .inl rfl⟩
    · unfold RipRoute.touch
      split
      · rename_i hfrom
        exact ⟨.inl rfl, fun _ ↦ .inr ⟨hfrom, rfl⟩⟩
      · exact ⟨.inl rfl, fun _ ↦ .inl rfl⟩
    · obtain ⟨hmetric, hinvalid⟩ :=
        (hconsistent.update henabled hupdates hupdate).2.2 hunreachable
      exact ⟨.inl hinvalid, fun hinfinite ↦ absurd (hmetric.symm.trans hinfinite)
        (hupdates.reaches henabled hunreachable).ne⟩
  | interfaceDown =>
    obtain rfl := Option.some.inj (ok.inj hresult)
    exact ⟨.inr ⟨trivial, rfl⟩, fun _ ↦ .inl rfl⟩
  | routeDeleted =>
    obtain rfl := Option.some.inj (ok.inj hresult)
    unfold RipRoute.routeDeleted
    split
    · exact ⟨.inl rfl, fun _ ↦ .inl rfl⟩
    · rename_i hostRoute hhost
      split
      · exact ⟨.inl rfl, fun _ ↦ .inl rfl⟩
      · rename_i hother
        refine absurd hunreachable (hconsistent.imported ?_).2
        simp [RipRoute.foreign, hhost, hother]
  | _ =>
    obtain rfl := Option.some.inj (ok.inj hresult)
    exact ⟨.inl rfl, fun _ ↦ .inl rfl⟩

/-- A time that only such events set anew stays what it was. -/
theorem le_of_run_spared {time : RipRoute A → SimTime} (h : life.Consistent)
    (hstep : ∀ life event life' route route', life.Consistent →
      (machine config).Step life event life' → life.route = some route →
      route.metric = RIP_INFINITE_METRIC → life'.route = some route' →
      route'.metric = RIP_INFINITE_METRIC →
      time route' = time route ∨ P route event.1 event.2 ∧ time route' = event.1)
    (hle : ∀ route ∈ life.route, time route ≤ t) {later : List (SimTime × RouteEvent A)}
    (hrun : ((machine config).restrict (Spared P t)).Run life later life') :
    life'.Consistent ∧
      ∀ route ∈ life'.route, route.metric = RIP_INFINITE_METRIC → time route ≤ t := by
  apply hrun.invariant (P := fun life ↦ life.Consistent ∧
    ∀ route ∈ life.route, route.metric = RIP_INFINITE_METRIC → time route ≤ t) ?_
    ⟨h, fun route hroute _ ↦ hle route hroute⟩
  rintro mid event mid' ⟨hmid, htime⟩ hrestricted
  obtain ⟨hnext, hspared⟩ := Machine.step_restrict_iff.mp hrestricted
  refine ⟨hmid.step hnext, fun route' hroute' hunreachable' ↦ ?_⟩
  obtain ⟨-, route, hroute, -⟩ := hnext.1
  obtain ⟨hunreachable, hevent⟩ := hspared route hroute
  rcases hstep mid event mid' route route' hmid hnext hroute hunreachable hroute' hunreachable' with
    heq | ⟨hkind, heq⟩
  · exact heq.trans_le (htime route hroute hunreachable)
  · exact heq.trans_le (hevent hkind)

/-- From the time that a route is unreachable, if it stays so: without another invalidation it
accepts any reachable entry after the hold-down, and without an entry of its router it is purged in
time. -/
theorem recovers_and_purged_of_run {start : RouteLife A} {events : List (SimTime × RouteEvent A)}
    (hnew : start.New) (hrun : (machine config).Run start events life) :
    (∀ later last, ((machine config).restrict (Spared config.Invalidates life.clock)).Run life
        later last → ∀ route, last.route = some route → route.metric = RIP_INFINITE_METRIC →
      route.type = .RIP_ROUTE_RTE ∨ route.route = none → ∀ now, last.clock ≤ now →
      life.clock + config.holdDownTime ≤ now → ∀ ie srcAddr nextHop routeTag,
      ∀ metric < RIP_INFINITE_METRIC, ∃ route', config.updateFromEntry now ie srcAddr nextHop metric
        routeTag route = .ok route' ∧ route'.metric = metric) ∧
    ∀ later last, ((machine config).restrict (Spared RipRoute.Refreshes life.clock)).Run life
        later last → ∀ route, last.route = some route → route.metric = RIP_INFINITE_METRIC →
      route.type = .RIP_ROUTE_RTE → ∀ now,
      life.clock + config.routeExpiryTime + config.routePurgeTime ≤ now →
      config.checkExpired now route = none := by
  have hconsistent := hnew.consistent_of_run hrun
  constructor
  · intro later last hlater route hroute hunreachable hreference now hnow hheld ie srcAddr nextHop
      routeTag metric hmetric
    obtain ⟨hlast, htime⟩ := le_of_run_spared hconsistent
      (fun _ _ _ _ _ h hstep hroute hold hroute' _ ↦
        (h.step_unreachable hstep hroute hold hroute').1)
      (fun route hroute ↦ (hconsistent route hroute).invalid_le) hlater
    have hinvalid := htime route hroute hunreachable
    have hnone : route.route = none :=
      hreference.elim ((hlast route hroute).unreachable hunreachable) id
    have hbetter : metric < route.metric ∨ route.fromAddr = some srcAddr ∧ route.metric ≠ metric :=
      .inl (hmetric.trans_eq hunreachable.symm)
    have hprevent : ¬config.preventRouteUpdate now route metric = true := by
      have hover : ¬now < route.lastInvalid + config.holdDownTime :=
        not_lt.mpr ((add_le_add hinvalid le_rfl).trans hheld)
      simp [Config.preventRouteUpdate, hnone, hover]
    obtain ⟨route', hupdate⟩ : ∃ route', (route.touch now srcAddr).updateRoute now ie nextHop metric
        routeTag (some srcAddr) = .ok route' := RipRoute.exists_updateRoute fun hne ↦
      absurd ((route.touch_fields now srcAddr).1.trans hunreachable) hne
    refine ⟨route', ?_, (((hlast route hroute).mono hnow).update hmetric.le hbetter hupdate).2.2
      hunreachable |>.1⟩
    rw [Config.updateFromEntry, if_neg fun h ↦ h.2 hunreachable, if_pos hbetter, if_neg hprevent]
    exact hupdate
  · intro later last hlater route hroute hunreachable hlearned now hdue
    obtain ⟨-, htime⟩ := le_of_run_spared hconsistent
      (fun _ _ _ _ _ h hstep hroute hold hroute' ↦
        (h.step_unreachable hstep hroute hold hroute').2)
      (fun route hroute ↦ (hconsistent route hroute).update_le) hlater
    have hover := (add_le_add (add_le_add
      (htime route hroute hunreachable) le_rfl) le_rfl).trans hdue
    rw [Config.checkExpired, if_pos hlearned, if_pos hover]

/-- A route over router 21. -/
def learnedRoute : RipRoute ℕ where
  route := some ⟨2, true⟩
  type := .RIP_ROUTE_RTE
  dest := some 30
  prefixLength := 24
  nextHop := some 21
  metric := 2
  ie := some 2
  fromAddr := some 21

theorem recovers_and_purged_of_run_expired :
    ∃ life route, (machine costlyNetwork).Run ⟨0, some learnedRoute⟩ [(180, .check)] life ∧
      life.route = some route ∧
      (∃ route', costlyNetwork.updateFromEntry 241 2 22 none 3 0 route = .ok route' ∧
        route'.metric = 3) ∧
      costlyNetwork.checkExpired 480 route = none := by
  have hnew : New ⟨0, some learnedRoute⟩ := by
    refine ⟨?_, ?_, ?_⟩ <;> rintro _ ⟨⟩ <;> decide
  have hrun : (machine costlyNetwork).Run ⟨0, some learnedRoute⟩ [(180, .check)] _ :=
    .cons ⟨⟨by decide, _, rfl, trivial⟩, rfl⟩ (.nil _)
  obtain ⟨haccepts, hpurged⟩ := recovers_and_purged_of_run hnew hrun
  exact ⟨_, _, hrun, rfl, haccepts [] _ (.nil _) _ rfl rfl (.inl rfl) 241 (by decide)
    (by decide) 2 22
    none 0 3 (by decide), hpurged [] _ (.nil _) _ rfl rfl rfl 480 (by decide)⟩

/-- Checks invalidate the route again while it is held down, and the old router refreshes it with an
infinite metric. -/
theorem held_down_and_kept :
    ∃ life, (machine costlyNetwork).Run ⟨0, some learnedRoute⟩ [(180, .check)] life ∧
      life.route.map RipRoute.metric = some RIP_INFINITE_METRIC ∧
      (∃ last route, (machine costlyNetwork).Run life [(210, .check), (239, .check)] last ∧
        last.route = some route ∧
        costlyNetwork.updateFromEntry 241 2 22 none 3 0 route = .ok route) ∧
      ∃ last route, (machine costlyNetwork).Run life
          [(239, .entry 2 21 none RIP_INFINITE_METRIC 0)] last ∧ last.route = some route ∧
        costlyNetwork.checkExpired 480 route ≠ none :=
  ⟨_, .cons ⟨⟨by decide, _, rfl, trivial⟩, rfl⟩ (.nil _), rfl,
    ⟨_, _, .cons ⟨⟨by decide, _, rfl, trivial⟩, rfl⟩
      (.cons ⟨⟨by decide, _, rfl, trivial⟩, rfl⟩ (.nil _)), rfl, rfl⟩,
    _, _, .cons ⟨⟨by decide, _, rfl, le_rfl⟩, rfl⟩ (.nil _), rfl, by decide⟩

end RouteLife

end Inet4.Rip
