import Inet4.Ipv6.RoutingTable
import Inet4.SortedVector
import Mathlib.Data.Prod.Lex

/-!
# Runs of the IPv6 routing table

Only the addition of a route purges the destination cache.  Whatever else is done to the routes, the
cache keeps its answers, so that they are right only as long as the routes by which the cached
destinations are reached stay as good.  The search for the longest prefix returns unless it comes to
an expired route that is not from a router advertisement.
-/

namespace Inet4.Ipv6

open List
open Ipv6RoutingTable (matchLoop)
open SortedVector (InOrder)

namespace Ipv6Route

variable (useAdminDist : Bool)

/-- What the order of the table compares: the prefix length, the longest first, the administrative
distance if it is used, and the metric. -/
def rank (route : Ipv6Route) : (Fin 129)ᵒᵈ ×ₗ ℕ ×ₗ ℤ :=
  toLex (OrderDual.toDual route.prefixLength,
    toLex (if useAdminDist then route.adminDist else 0, route.metric))

theorem routeLessThan_iff (a b : Ipv6Route) :
    routeLessThan useAdminDist a b = true ↔ a.rank useAdminDist < b.rank useAdminDist := by
  simp only [rank, Prod.Lex.toLex_lt_toLex, routeLessThan, OrderDual.toDual_lt_toDual,
    OrderDual.toDual_inj]
  by_cases hlength : a.prefixLength = b.prefixLength
  · cases useAdminDist <;> by_cases hdist : a.adminDist = b.adminDist <;> simp [hlength, hdist]
  · simp [hlength]

theorem inFront_iff (a b : Ipv6Route) :
    InFront useAdminDist a b ↔ a.rank useAdminDist ≤ b.rank useAdminDist := by
  rw [InFront, ← Bool.not_eq_true, routeLessThan_iff, not_lt]

/-- A route is at least as good as another one that matches the same destination. -/
def Preferred (route other : Ipv6Route) : Prop :=
  other.prefixLength < route.prefixLength ∨
    other.prefixLength = route.prefixLength ∧
      (useAdminDist = true ∧ route.adminDist < other.adminDist ∨
        (useAdminDist = true → route.adminDist = other.adminDist) ∧ route.metric ≤ other.metric)

theorem preferred_of_inFront {useAdminDist : Bool} {route other : Ipv6Route}
    (h : InFront useAdminDist route other) : Preferred useAdminDist route other := by
  unfold InFront routeLessThan at h
  by_cases hlength : other.prefixLength = route.prefixLength
  · right
    refine ⟨hlength, ?_⟩
    rw [if_neg (not_not_intro hlength)] at h
    cases useAdminDist with
    | false => simpa using h
    | true =>
      by_cases hdist : other.adminDist = route.adminDist
      · simpa [hdist] using h
      · have hle : route.adminDist ≤ other.adminDist := by simpa [hdist] using h
        left
        exact ⟨rfl, by omega⟩
  · left
    have hle : ¬route.prefixLength < other.prefixLength := by simpa [hlength] using h
    exact lt_of_le_of_ne (not_lt.mp hle) hlength

/-- A route lives at least as long as an entry of the destination cache. -/
def Outlives (route : Ipv6Route) (entry : DestCacheEntry) : Prop :=
  route.expiryTime = 0 ∨ 0 < entry.expiryTime ∧ entry.expiryTime ≤ route.expiryTime

instance (route : Ipv6Route) (entry : DestCacheEntry) : Decidable (route.Outlives entry) :=
  inferInstanceAs (Decidable (_ ∨ _))

theorem Outlives.not_expired {route : Ipv6Route} {entry : DestCacheEntry} {now : SimTime}
    (h : route.Outlives entry) (hentry : ¬entry.Expired now) : ¬route.Expired now := by
  unfold Outlives at h
  unfold DestCacheEntry.Expired at hentry
  unfold Expired
  grind

theorem Expired.mono {route : Ipv6Route} {now later : SimTime} (h : route.Expired now)
    (hle : now ≤ later) : route.Expired later := by
  exact ⟨lt_of_lt_of_le h.1 hle, h.2⟩

end Ipv6Route

/-- The first route that matches a destination and is not expired. -/
def best (routes : List Ipv6Route) (now : SimTime) (dest : Ipv6Address) : Option Ipv6Route :=
  routes.find? fun route ↦ decide (route.Matches dest) && !decide (route.Expired now)

/-- An answer is the longest prefix, and among the longest ones the best one, of the routes that
match the destination and have not expired. -/
def IsBest (table : Ipv6RoutingTable) (now : SimTime) (dest : Ipv6Address) (route : Ipv6Route) :
    Prop :=
  route ∈ table.routeList ∧ route.Matches dest ∧ ¬route.Expired now ∧
    ∀ other ∈ table.routeList, other.Matches dest → ¬other.Expired now →
      route.Preferred table.useAdminDist other

/-- The routes stand in the order of the comparison. -/
def Sorted (useAdminDist : Bool) (routes : List Ipv6Route) : Prop :=
  routes.Pairwise (InFront useAdminDist)

instance (useAdminDist : Bool) (routes : List Ipv6Route) : Decidable (Sorted useAdminDist routes) :=
  inferInstanceAs (Decidable (List.Pairwise _ _))

section Best

variable {routes routes' : List Ipv6Route} {route : Ipv6Route} {now later : SimTime}
variable {dest : Ipv6Address} {useAdminDist : Bool}

theorem sorted_iff : Sorted useAdminDist routes ↔
    InOrder (Ipv6Route.rank useAdminDist) routes := by
  have hpair : InFront useAdminDist = fun a b ↦ a.rank useAdminDist ≤ b.rank useAdminDist := by
    funext a b
    exact propext (Ipv6Route.inFront_iff useAdminDist a b)
  rw [Sorted, hpair]
  rfl

theorem best_spec (h : best routes now dest = some route) :
    route ∈ routes ∧ route.Matches dest ∧ ¬route.Expired now := by
  have hfound := find?_some h
  simp only [Bool.and_eq_true, decide_eq_true_eq, Bool.not_eq_true', decide_eq_false_iff_not]
    at hfound
  exact ⟨mem_of_find?_eq_some h, hfound⟩

theorem best_eq_none_iff :
    best routes now dest = none ↔ ∀ route ∈ routes, route.Matches dest → route.Expired now := by
  unfold best
  simp

/-- In a sorted table the first route is the best one. -/
theorem isBest_of_best {table : Ipv6RoutingTable}
    (hsorted : Sorted table.useAdminDist table.routeList)
    (h : best table.routeList now dest = some route) : IsBest table now dest route := by
  obtain ⟨hmem, hmatches, halive⟩ := best_spec h
  refine ⟨hmem, hmatches, halive, ?_⟩
  intro other hother hmatches' halive'
  apply Ipv6Route.preferred_of_inFront
  rw [Ipv6Route.inFront_iff]
  exact (sorted_iff.mp hsorted).rank_le_of_find? h hother (by simp [hmatches', halive'])

/-- The element that is found is also found by a stricter test that it passes. -/
theorem find?_of_imp {α : Type} {l : List α} {p q : α → Bool} {a : α} (h : l.find? p = some a)
    (hq : q a = true) (himp : ∀ b, q b = true → p b = true) : l.find? q = some a := by
  obtain ⟨-, front, back, rfl, hfront⟩ := find?_eq_some_iff_append.mp h
  refine find?_eq_some_iff_append.mpr ⟨hq, front, back, rfl, ?_⟩
  intro b hb
  have hp := hfront b hb
  rw [Bool.not_eq_true'] at hp ⊢
  exact Bool.eq_false_iff.mpr fun hqb ↦ Bool.eq_false_iff.mp hp (himp b hqb)

/-- The best route stays the best one until it expires. -/
theorem best_later (h : best routes now dest = some route) (hle : now ≤ later)
    (halive : ¬route.Expired later) : best routes later dest = some route := by
  refine find?_of_imp h ?_ ?_
  · simp [(best_spec h).2.1, halive]
  · intro other hother
    simp only [Bool.and_eq_true, decide_eq_true_eq, Bool.not_eq_true', decide_eq_false_iff_not]
      at hother ⊢
    exact ⟨hother.1, fun hexpired ↦ hother.2 (hexpired.mono hle)⟩

/-- The best route stays the best one when others are deleted. -/
theorem best_filter {p : Ipv6Route → Bool} (h : best routes now dest = some route)
    (hp : p route = true) : best (routes.filter p) now dest = some route := by
  unfold best at h ⊢
  rw [find?_filter]
  refine find?_of_imp h ?_ ?_
  · have hfound := find?_some h
    simp only [hp, true_and]
    exact decide_eq_true hfound
  · intro other hother
    exact (of_decide_eq_true hother).2

end Best

/-- The search comes to a route at which it does not return: the first route that matches and is not
thrown out has expired. -/
def Blocked (routes : List Ipv6Route) (now : SimTime) (dest : Ipv6Address) : Prop :=
  ∃ route ∈ routes.find? fun route ↦ decide (route.Matches dest) &&
      !(decide (route.Expired now) && decide (route.sourceType = .ROUTER_ADVERTISEMENT)),
    route.Expired now

instance (routes : List Ipv6Route) (now : SimTime) (dest : Ipv6Address) :
    Decidable (Blocked routes now dest) :=
  inferInstanceAs (Decidable (∃ _ ∈ _, _))

section Search

variable {routes : List Ipv6Route} {now : SimTime} {dest : Ipv6Address}

/-- A search that is blocked does not return. -/
theorem matchLoop_of_blocked (h : Blocked routes now dest) :
    matchLoop now dest routes = .error .notReturned := by
  induction routes with
  | nil =>
    obtain ⟨route, hroute, -⟩ := h
    cases hroute
  | cons route routes ih =>
    obtain ⟨stop, hstop, hexpired⟩ := h
    rw [find?_cons] at hstop
    unfold matchLoop
    by_cases hmatches : route.Matches dest
    · rw [if_pos hmatches]
      by_cases hold : route.Expired now
      · rw [if_pos hold]
        by_cases hsource : route.sourceType = .ROUTER_ADVERTISEMENT
        · simp only [hmatches, hold, hsource, decide_true, Bool.and_true, Bool.not_true,
            Bool.and_false] at hstop
          rw [if_pos hsource]
          exact ih ⟨stop, hstop, hexpired⟩
        · rw [if_neg hsource]
      · simp only [hmatches, hold, decide_true, decide_false, Bool.false_and, Bool.not_false,
          Bool.and_true, Option.mem_def, Option.some.injEq] at hstop
        exact absurd (hstop ▸ hexpired) hold
    · simp only [hmatches, decide_false, Bool.false_and] at hstop
      rw [if_neg hmatches, ih ⟨stop, hstop, hexpired⟩]
      rfl

/-- Any other search returns the best route, and the routes that it throws out were not the best
ones of any destination. -/
theorem matchLoop_of_not_blocked (h : ¬Blocked routes now dest) :
    ∃ rest, matchLoop now dest routes = .ok (best routes now dest, rest) ∧ rest.Sublist routes ∧
      ∀ other, best rest now other = best routes now other := by
  induction routes with
  | nil => exact ⟨[], rfl, List.Sublist.slnil, fun _ ↦ rfl⟩
  | cons route routes ih =>
    unfold Blocked at h
    rw [find?_cons] at h
    unfold matchLoop best
    rw [find?_cons, ← best]
    by_cases hmatches : route.Matches dest
    · rw [if_pos hmatches]
      by_cases hold : route.Expired now
      · rw [if_pos hold]
        by_cases hsource : route.sourceType = .ROUTER_ADVERTISEMENT
        · simp only [hmatches, hold, hsource, decide_true, Bool.and_true, Bool.not_true,
            Bool.and_false] at h ⊢
          obtain ⟨rest, hrest, hsub, hbest⟩ := ih h
          refine ⟨rest, hrest, hsub.cons route, ?_⟩
          intro other
          simp only [find?_cons, hold, decide_true, Bool.not_true, Bool.and_false]
          exact hbest other
        · simp only [hmatches, hsource, decide_true, decide_false, Bool.and_false, Bool.not_false,
            Bool.and_true] at h
          exact absurd ⟨route, rfl, hold⟩ h
      · simp only [hmatches, hold, decide_true, decide_false, Bool.not_false, Bool.and_true]
        exact ⟨route :: routes, by simp, List.Sublist.refl _, fun _ ↦ rfl⟩
    · simp only [hmatches, decide_false, Bool.false_and] at h ⊢
      obtain ⟨rest, hrest, hsub, hbest⟩ := ih h
      refine ⟨route :: rest, by rw [if_neg not_false, hrest]; rfl, hsub.cons_cons route, ?_⟩
      intro other
      rw [find?_cons, find?_cons]
      split
      · rfl
      · exact hbest other

end Search

namespace Ipv6RoutingTable

/-- The entry by which the destination cache answers a lookup. -/
def answer (table : Ipv6RoutingTable) (now : SimTime) (dest : Ipv6Address) :
    Option DestCacheEntry :=
  (table.destCache.find dest).filter fun entry ↦
    !decide (entry.Expired now) && decide (entry.interfaceId ≠ -1)

/-- A route leads to a destination by the next hop and the interface of an entry, and for at least
as long. -/
def Serves (route : Ipv6Route) (dest : Ipv6Address) (entry : DestCacheEntry) : Prop :=
  route.nextHopTo dest = entry.nextHopAddr ∧ route.outInterfaceId = entry.interfaceId ∧
    route.Outlives entry

/-- The destinations that are still in the cache after a change keep the next hop and the interface
of their best route, and the best route does not expire before the entry in the cache does. -/
def Undisturbed (before after : Ipv6RoutingTable) (now : SimTime) : Prop :=
  ∀ dest ∈ after.destCache.keys, ∀ entry ∈ after.answer now dest,
    ∀ route ∈ best before.routeList now dest, ∃ route' ∈ best after.routeList now dest,
      route'.nextHopTo dest = route.nextHopTo dest ∧
        route'.outInterfaceId = route.outInterfaceId ∧ route'.Outlives entry

instance (before after : Ipv6RoutingTable) (now : SimTime) :
    Decidable (Undisturbed before after now) :=
  decidableBAll _ _

/-- The addresses of the routes are different. -/
def Distinct (routes : List Ipv6Route) : Prop := (routes.map Ipv6Route.ptr).Nodup

/-- The table is sorted. -/
def WellOrdered (table : Ipv6RoutingTable) : Prop := Sorted table.useAdminDist table.routeList

instance (table : Ipv6RoutingTable) : Decidable table.WellOrdered :=
  inferInstanceAs (Decidable (Sorted _ _))

end Ipv6RoutingTable

open Ipv6RoutingTable (Serves Undisturbed Distinct WellOrdered)

/-- The side condition on events.  A lookup that the cache does not answer does not come to an
expired route at which the search stays.  A change of the routes that leaves entries in the cache
leaves the best routes of their destinations as good as they were; and with administrative distances
in use, a new one leaves the table sorted. -/
def Node.Admissible (node : Node) : Event → Prop
  | .determineOutputInterface dest =>
    node.rt.answer node.now dest = none → ¬Blocked node.rt.routeList node.now dest
  | .setField ptr setter =>
    Undisturbed node.rt (node.rt.change (.setField ptr setter)) node.now ∧
      (setter.fieldCode = .F_ADMINDIST → node.rt.useAdminDist = true →
        (node.rt.change (.setField ptr setter)).WellOrdered)
  | .addRoute _ | .interfaceDown _ | .purgeDestCache | .purgeDestCacheEntriesToNeighbour ..
  | .purgeDestCacheForInterfaceId _ | .elapse _ => True
  | e => Undisturbed node.rt (node.rt.change e) node.now

instance (node : Node) : (e : Event) → Decidable (node.Admissible e)
  | .determineOutputInterface _ => inferInstanceAs (Decidable (_ → _))
  | .setField .. => inferInstanceAs (Decidable (_ ∧ _))
  | .addRoute _ | .interfaceDown _ | .purgeDestCache | .purgeDestCacheEntriesToNeighbour ..
  | .purgeDestCacheForInterfaceId _ | .elapse _ => isTrue trivial
  | .addOrUpdateOnLinkPrefix .. | .addOrUpdateOwnAdvPrefix .. | .deleteOnLinkPrefix ..
  | .removeRoute _ | .deleteRoute _ | .deleteDefaultRoutes _ | .deletePrefixes _ | .deleteAllRoutes
  | .interfaceDeleted _ => inferInstanceAs (Decidable (Undisturbed _ _ _))

/-- The cache agrees with a sorted table. -/
structure Coherent (node : Node) : Prop where
  nonneg : 0 ≤ node.now
  wellOrdered : node.rt.WellOrdered
  distinct : Distinct node.rt.routeList
  current : ∀ dest entry, node.rt.answer node.now dest = some entry →
    ∃ route, best node.rt.routeList node.now dest = some route ∧ Serves route dest entry

namespace Ipv6RoutingTable

variable {table before after : Ipv6RoutingTable} {now : SimTime} {dest : Ipv6Address}
variable {entry : DestCacheEntry}

theorem answer_eq_some_iff : table.answer now dest = some entry ↔
    table.destCache.find dest = some entry ∧ ¬entry.Expired now ∧ entry.interfaceId ≠ -1 := by
  unfold answer
  simp

/-- An answer of a smaller cache is an answer of the cache. -/
theorem answer_of_find (hfind : after.destCache.find dest = some entry →
    before.destCache.find dest = some entry) (h : after.answer now dest = some entry) :
    before.answer now dest = some entry := by
  rw [answer_eq_some_iff] at h ⊢
  exact ⟨hfind h.1, h.2⟩

theorem answer_removeIf {p : DestCacheEntry → Bool}
    (h : { table with destCache := table.destCache.removeIf p }.answer now dest = some entry) :
    table.answer now dest = some entry ∧ p entry = false := by
  rw [answer_eq_some_iff, AssocMap.find_removeIf, Option.filter_eq_some_iff] at h
  exact ⟨answer_eq_some_iff.mpr ⟨h.1.1, h.2⟩, by simpa using h.1.2⟩

theorem Distinct.sublist {routes routes' : List Ipv6Route} (h : Distinct routes)
    (hsub : routes'.Sublist routes) : Distinct routes' :=
  List.Nodup.sublist (hsub.map _) h

theorem wellOrdered_internalAddRoute (table : Ipv6RoutingTable) (route : Ipv6Route) :
    (table.internalAddRoute route).WellOrdered := by
  have : Std.Total (InFront table.useAdminDist) := ⟨fun a b ↦ by
    rw [Ipv6Route.inFront_iff, Ipv6Route.inFront_iff]
    exact le_total _ _⟩
  have : IsTrans Ipv6Route (InFront table.useAdminDist) := ⟨fun a b c hab hbc ↦ by
    rw [Ipv6Route.inFront_iff] at hab hbc ⊢
    exact hab.trans hbc⟩
  exact pairwise_insertionSort (InFront table.useAdminDist) _

theorem distinct_internalAddRoute {route : Ipv6Route} (h : Distinct table.routeList)
    (hnew : ∀ other ∈ table.routeList, other.ptr ≠ route.ptr) :
    Distinct (table.internalAddRoute route).routeList := by
  have hperm : (table.internalAddRoute route).routeList.Perm (table.routeList ++ [route]) :=
    perm_insertionSort _ _
  unfold Distinct
  rw [(hperm.map Ipv6Route.ptr).nodup_iff, map_append, nodup_append]
  refine ⟨h, nodup_singleton _, ?_⟩
  intro ptr hptr ptr' hptr'
  obtain ⟨other, hother, rfl⟩ := mem_map.mp hptr
  rw [mem_singleton.mp hptr']
  exact hnew other hother

theorem wellOrdered_deleteRoutesIf (h : table.WellOrdered) (p : Ipv6Route → Bool) :
    (table.deleteRoutesIf p).WellOrdered :=
  List.Pairwise.sublist filter_sublist h

theorem distinct_deleteRoutesIf (h : Distinct table.routeList) (p : Ipv6Route → Bool) :
    Distinct (table.deleteRoutesIf p).routeList :=
  h.sublist filter_sublist

/-- A setter does not change the address of the object. -/
@[simp]
theorem ptr_write (setter : Setter) (route : Ipv6Route) : (setter.write route).ptr = route.ptr := by
  cases setter <;> rfl

theorem distinct_write {ptr : RoutePtr} (h : Distinct table.routeList) (setter : Setter) :
    Distinct (table.write ptr setter.write).routeList := by
  unfold Distinct write
  rw [map_map]
  have hptr : Ipv6Route.ptr ∘ (fun route ↦ if route.ptr = ptr then setter.write route else route) =
      Ipv6Route.ptr := by
    funext route
    simp only [Function.comp_apply]
    split <;> simp
  rw [hptr]
  exact h

/-- A setter of another field than the order compares. -/
theorem rank_write {setter : Setter} {useAdminDist : Bool}
    (hfield : ¬(setter.fieldCode = .F_DESTINATION ∨ setter.fieldCode = .F_PREFIX_LENGTH ∨
      setter.fieldCode = .F_METRIC))
    (hdist : ¬(setter.fieldCode = .F_ADMINDIST ∧ useAdminDist = true)) (route : Ipv6Route) :
    (setter.write route).rank useAdminDist = route.rank useAdminDist := by
  cases setter <;> simp_all [Setter.fieldCode, Setter.write, Ipv6Route.rank]

theorem wellOrdered_write {ptr : RoutePtr} {setter : Setter} (h : table.WellOrdered)
    (hrank : ∀ route, (setter.write route).rank table.useAdminDist =
      route.rank table.useAdminDist) : (table.write ptr setter.write).WellOrdered := by
  unfold WellOrdered Sorted write at *
  rw [pairwise_map]
  refine h.imp ?_
  intro a b hab
  rw [Ipv6Route.inFront_iff] at hab ⊢
  split <;> split <;> simpa only [hrank] using hab

theorem distinct_routeChanged {ptr : RoutePtr} {fieldCode : ChangeCode}
    (h : Distinct table.routeList) : Distinct (table.routeChanged ptr fieldCode).routeList := by
  unfold routeChanged
  split
  · split
    · exact h
    · rename_i route hroute
      refine distinct_internalAddRoute (distinct_deleteRoutesIf h _) ?_
      intro other hother
      have hptr : route.ptr = ptr := by simpa using find?_some hroute
      rw [hptr]
      simpa using (mem_filter.mp hother).2
  · exact h

theorem distinct_setField (h : Distinct table.routeList) (ptr : RoutePtr) (setter : Setter) :
    Distinct (table.setField ptr setter).routeList := by
  unfold setField
  split
  · exact h
  · split
    · exact h
    · exact distinct_routeChanged (distinct_write h setter)

theorem wellOrdered_setField (h : table.WellOrdered) (ptr : RoutePtr) (setter : Setter)
    (hdist : setter.fieldCode = .F_ADMINDIST → table.useAdminDist = true →
      (table.setField ptr setter).WellOrdered) : (table.setField ptr setter).WellOrdered := by
  by_cases hskip : setter.fieldCode = .F_ADMINDIST ∧ table.useAdminDist = true
  · exact hdist hskip.1 hskip.2
  · unfold setField
    split
    · exact h
    · split
      · exact h
      · rename_i route hroute hnew
        unfold routeChanged
        split
        · split
          · rename_i hgone
            have hfound : (table.write ptr setter.write).routeAt ptr ≠ none := by
              rw [routeAt, ne_eq, find?_eq_none]
              intro hnone
              have hmem := mem_of_find?_eq_some hroute
              have hptr : route.ptr = ptr := by simpa using find?_some hroute
              have hwritten := hnone (setter.write route)
                (mem_map.mpr ⟨route, hmem, if_pos hptr⟩)
              simp [hptr] at hwritten
            exact absurd hgone hfound
          · exact wellOrdered_internalAddRoute _ _
        · rename_i hfield
          exact wellOrdered_write h (rank_write hfield hskip)

/-- A sorted table of different objects; what is done to the routes keeps it. -/
structure Kept (before after : Ipv6RoutingTable) : Prop where
  wellOrdered : after.WellOrdered
  distinct : Distinct after.routeList
  answers : ∀ now dest entry, after.answer now dest = some entry →
    before.answer now dest = some entry

theorem destCache_routeChanged (ptr : RoutePtr) (fieldCode : ChangeCode) :
    (table.routeChanged ptr fieldCode).destCache = table.destCache := by
  unfold routeChanged
  split
  · split <;> rfl
  · rfl

theorem destCache_setField (ptr : RoutePtr) (setter : Setter) :
    (table.setField ptr setter).destCache = table.destCache := by
  unfold setField
  split
  · rfl
  · split
    · rfl
    · exact destCache_routeChanged ptr setter.fieldCode

theorem kept_of_destCache_eq (hordered : after.WellOrdered) (hdistinct : Distinct after.routeList)
    (hcache : after.destCache = before.destCache) : Kept before after where
  wellOrdered := hordered
  distinct    := hdistinct
  answers now dest entry h := by
    unfold answer at h ⊢
    rwa [hcache] at h

theorem kept_deleteRoutesIf (hordered : table.WellOrdered) (hdistinct : Distinct table.routeList)
    (p : Ipv6Route → Bool) : Kept table (table.deleteRoutesIf p) :=
  kept_of_destCache_eq (wellOrdered_deleteRoutesIf hordered p)
    (distinct_deleteRoutesIf hdistinct p) rfl

theorem kept_setField (hordered : table.WellOrdered) (hdistinct : Distinct table.routeList)
    (ptr : RoutePtr) (setter : Setter)
    (hdist : setter.fieldCode = .F_ADMINDIST → table.useAdminDist = true →
      (table.setField ptr setter).WellOrdered) : Kept table (table.setField ptr setter) :=
  kept_of_destCache_eq (wellOrdered_setField hordered ptr setter hdist)
    (distinct_setField hdistinct ptr setter) (destCache_setField ptr setter)

theorem kept_addRoute {route : Ipv6Route} (hdistinct : Distinct table.routeList)
    (hnew : ∀ other ∈ table.routeList, other.ptr ≠ route.ptr) :
    Kept table (table.addRoute route) where
  wellOrdered := wellOrdered_internalAddRoute table route
  distinct    := distinct_internalAddRoute hdistinct hnew
  answers now dest entry h := by
    have hfind := (answer_eq_some_iff.mp h).1
    cases hfind

theorem kept_removeIf (hordered : table.WellOrdered) (hdistinct : Distinct table.routeList)
    (p : DestCacheEntry → Bool) :
    Kept table { table with destCache := table.destCache.removeIf p } where
  wellOrdered := hordered
  distinct    := hdistinct
  answers _ _ _ h := (answer_removeIf h).1

theorem Kept.trans {middle : Ipv6RoutingTable} (h : Kept before middle) (h' : Kept middle after) :
    Kept before after where
  wellOrdered := h'.wellOrdered
  distinct    := h'.distinct
  answers now dest entry hanswer := h.answers now dest entry (h'.answers now dest entry hanswer)

theorem kept_addOrUpdatePrefix (hordered : table.WellOrdered) (hdistinct : Distinct table.routeList)
    (sourceType : SourceType) {ptr : RoutePtr} (destPrefix : Ipv6Address) (prefixLength : Fin 129)
    (interfaceId : ℤ) (expiryTime : SimTime)
    (hnew : ∀ other ∈ table.routeList, other.ptr ≠ ptr) :
    Kept table
      (addOrUpdatePrefix sourceType table ptr destPrefix prefixLength interfaceId expiryTime) := by
  unfold addOrUpdatePrefix
  split
  · exact kept_addRoute hdistinct hnew
  · rename_i route hroute
    have hfirst := kept_setField hordered hdistinct route.ptr (.setInterface (some interfaceId))
      fun hfield ↦ by cases hfield
    exact hfirst.trans (kept_setField hfirst.wellOrdered hfirst.distinct route.ptr
      (.setExpiryTime expiryTime) fun hfield ↦ by cases hfield)

end Ipv6RoutingTable

open Ipv6RoutingTable (Kept)

variable {node node' : Node} {e : Event} {dest : Ipv6Address}

/-- Every change of the table that meets the side condition keeps it sorted, its objects different
and its cache without new entries. -/
theorem Coherent.kept (h : Coherent node) (henabled : node.Enabled e) (he : node.Admissible e) :
    Kept node.rt (node.rt.change e) := by
  have hsame : Kept node.rt node.rt := Ipv6RoutingTable.kept_of_destCache_eq h.wellOrdered
    h.distinct rfl
  have hdelete := Ipv6RoutingTable.kept_deleteRoutesIf h.wellOrdered h.distinct
  have hpurge := Ipv6RoutingTable.kept_removeIf h.wellOrdered h.distinct
  cases e with
  | determineOutputInterface dest | elapse duration => exact hsame
  | addRoute route => exact Ipv6RoutingTable.kept_addRoute h.distinct henabled
  | addOrUpdateOnLinkPrefix ptr destPrefix prefixLength interfaceId expiryTime
  | addOrUpdateOwnAdvPrefix ptr destPrefix prefixLength interfaceId expiryTime =>
    exact Ipv6RoutingTable.kept_addOrUpdatePrefix h.wellOrdered h.distinct _ destPrefix prefixLength
      interfaceId expiryTime henabled
  | deleteOnLinkPrefix destPrefix prefixLength =>
    change Kept node.rt (node.rt.deleteOnLinkPrefix destPrefix prefixLength)
    unfold Ipv6RoutingTable.deleteOnLinkPrefix
    split
    · exact hsame
    · exact hdelete _
  | removeRoute ptr | deleteRoute ptr | deleteDefaultRoutes interfaceId
  | deletePrefixes interfaceId | deleteAllRoutes | interfaceDeleted interfaceId => exact hdelete _
  | setField ptr setter =>
    exact Ipv6RoutingTable.kept_setField h.wellOrdered h.distinct ptr setter he.2
  | interfaceDown interfaceId =>
    have hfirst := hdelete fun route ↦ route.interfaceId = some interfaceId
    exact hfirst.trans (Ipv6RoutingTable.kept_removeIf hfirst.wellOrdered hfirst.distinct _)
  | purgeDestCache =>
    exact {
      wellOrdered := h.wellOrdered
      distinct    := h.distinct
      answers     := fun now dest entry hanswer ↦ by
        cases (Ipv6RoutingTable.answer_eq_some_iff.mp hanswer).1 }
  | purgeDestCacheEntriesToNeighbour nextHopAddr interfaceId
  | purgeDestCacheForInterfaceId interfaceId => exact hpurge _

/-- When the best routes are not disturbed, the cache stays coherent. -/
theorem Coherent.of_undisturbed (h : Coherent node) {rt : Ipv6RoutingTable}
    (hkept : Kept node.rt rt) (hundisturbed : Undisturbed node.rt rt node.now) :
    Coherent { node with rt := rt } where
  nonneg      := h.nonneg
  wellOrdered := hkept.wellOrdered
  distinct    := hkept.distinct
  current dest entry hanswer := by
    obtain ⟨route, hbest, hnext, hid, -⟩ := h.current dest entry (hkept.answers _ _ _ hanswer)
    have hmem : dest ∈ rt.destCache.keys := AList.mem_keys.mp
      (AssocMap.mem_iff_find.mpr ⟨entry, (Ipv6RoutingTable.answer_eq_some_iff.mp hanswer).1⟩)
    obtain ⟨route', hbest', hnext', hid', houtlives⟩ :=
      hundisturbed dest hmem entry hanswer route hbest
    exact ⟨route', hbest', hnext'.trans hnext, hid'.trans hid, houtlives⟩

/-- When the best routes of all destinations that the cache answers stay, it stays coherent. -/
theorem Coherent.of_best (h : Coherent node) {rt : Ipv6RoutingTable} (hkept : Kept node.rt rt)
    (hbest : ∀ dest entry route, rt.answer node.now dest = some entry →
      best node.rt.routeList node.now dest = some route → Serves route dest entry →
      best rt.routeList node.now dest = some route) :
    Coherent { node with rt := rt } where
  nonneg      := h.nonneg
  wellOrdered := hkept.wellOrdered
  distinct    := hkept.distinct
  current dest entry hanswer := by
    obtain ⟨route, hroute, hserves⟩ := h.current dest entry (hkept.answers _ _ _ hanswer)
    exact ⟨route, hbest dest entry route hanswer hroute hserves, hserves⟩

/-- The routes and the entries of an interface that went down are gone; what is left is reached
through other interfaces. -/
theorem Coherent.interfaceDown (h : Coherent node) (interfaceId : ℤ)
    (hkept : Kept node.rt (node.rt.interfaceDown interfaceId)) :
    Coherent { node with rt := node.rt.interfaceDown interfaceId } := by
  refine h.of_best hkept ?_
  intro dest entry route hanswer hbest hserves
  have hother : entry.interfaceId ≠ interfaceId := by
    have hleft := Ipv6RoutingTable.answer_removeIf hanswer
    simpa using hleft.2
  refine best_filter hbest ?_
  have hid : route.interfaceId ≠ some interfaceId := by
    intro heq
    have hout := hserves.2.1
    rw [Ipv6Route.outInterfaceId, heq] at hout
    exact hother hout.symm
  simpa using hid

theorem Coherent.elapse (h : Coherent node) {duration : SimTime} (hduration : 0 ≤ duration) :
    Coherent { node with now := node.now + duration } where
  nonneg      := Int.add_nonneg h.nonneg hduration
  wellOrdered := h.wellOrdered
  distinct    := h.distinct
  current dest entry hanswer := by
    have hle : node.now ≤ node.now + duration := Int.le_add_of_nonneg_right hduration
    obtain ⟨hfind, halive, hid⟩ := Ipv6RoutingTable.answer_eq_some_iff.mp hanswer
    have hearlier : ¬entry.Expired node.now := fun hexpired ↦
      halive ⟨hexpired.1, lt_of_lt_of_le hexpired.2 hle⟩
    obtain ⟨route, hbest, hserves⟩ := h.current dest entry
      (Ipv6RoutingTable.answer_eq_some_iff.mpr ⟨hfind, hearlier, hid⟩)
    exact ⟨route, best_later hbest hle (hserves.2.2.not_expired halive), hserves⟩

/-- A decision follows the best route, and there is none that leads to the destination when the
datagram is rejected or handed to Neighbour Discovery. -/
def Node.Decides (node : Node) (dest : Ipv6Address) : Decision → Prop
  | .output nextHop interfaceId => ∃ route, IsBest node.rt node.now dest route ∧
      nextHop = route.nextHopTo dest ∧ interfaceId = route.outInterfaceId
  | .destinationUnreachable => node.rt.isrouter = true ∧
      ∀ route ∈ node.rt.routeList, route.Matches dest → route.Expired node.now
  | .neighbourDiscovery => node.rt.isrouter = false ∧
      ∀ route ∈ node.rt.routeList, route.Matches dest → route.Expired node.now

theorem lookupDestCache_of_answer {table : Ipv6RoutingTable} {now : SimTime}
    {entry : DestCacheEntry} (h : table.answer now dest = some entry) :
    table.lookupDestCache now dest = ((entry.nextHopAddr, entry.interfaceId), table) := by
  obtain ⟨hfind, halive, -⟩ := Ipv6RoutingTable.answer_eq_some_iff.mp h
  unfold Ipv6RoutingTable.lookupDestCache
  simp only [hfind, if_neg halive]

/-- A lookup without an answer returns -1 and may erase an expired entry. -/
theorem lookupDestCache_of_no_answer {table : Ipv6RoutingTable} {now : SimTime}
    (h : table.answer now dest = none) :
    (table.lookupDestCache now dest).1.2 = -1 ∧
      ∃ destCache, (table.lookupDestCache now dest).2 = { table with destCache } ∧
        ∀ other entry, destCache.find other = some entry →
          table.destCache.find other = some entry := by
  unfold Ipv6RoutingTable.lookupDestCache
  cases hfind : table.destCache.find dest with
  | none => exact ⟨rfl, table.destCache, rfl, fun _ _ hfound ↦ hfound⟩
  | some entry =>
    by_cases hexpired : entry.Expired now
    · simp only [if_pos hexpired]
      refine ⟨trivial, table.destCache.remove dest, rfl, ?_⟩
      intro other entry' hfound
      rw [AssocMap.find_remove] at hfound
      split at hfound
      · cases hfound
      · exact hfound
    · simp only [if_neg hexpired]
      refine ⟨?_, table.destCache, rfl, fun _ _ hfound ↦ hfound⟩
      by_contra hid
      rw [Ipv6RoutingTable.answer_eq_some_iff.mpr ⟨hfind, hexpired, hid⟩] at h
      cases h

/-- A cache with fewer entries and routes among which the best ones still are. -/
theorem Coherent.shrink (h : Coherent node) {routes : List Ipv6Route}
    {destCache : AssocMap Ipv6Address DestCacheEntry} (hsub : routes.Sublist node.rt.routeList)
    (hbest : ∀ other, best routes node.now other = best node.rt.routeList node.now other)
    (hcache : ∀ other entry, destCache.find other = some entry →
      node.rt.destCache.find other = some entry) (numUnroutable : ℕ) :
    Coherent
      { node with rt := { node.rt with routeList := routes, destCache }, numUnroutable } where
  nonneg      := h.nonneg
  wellOrdered := List.Pairwise.sublist hsub h.wellOrdered
  distinct    := h.distinct.sublist hsub
  current other entry hanswer := by
    rw [hbest]
    exact h.current other entry (Ipv6RoutingTable.answer_of_find (hcache other entry) hanswer)

/-- The best route of a destination enters the cache. -/
theorem Coherent.updateDestCache (h : Coherent node) {route : Ipv6Route}
    (hbest : best node.rt.routeList node.now dest = some route) :
    Coherent { node with
      rt := node.rt.updateDestCache dest (route.nextHopTo dest) route.outInterfaceId
        route.expiryTime } where
  nonneg      := h.nonneg
  wellOrdered := h.wellOrdered
  distinct    := h.distinct
  current other entry hanswer := by
    obtain ⟨hfind, halive, hid⟩ := Ipv6RoutingTable.answer_eq_some_iff.mp hanswer
    have hassign := hfind
    rw [Ipv6RoutingTable.updateDestCache, AssocMap.find_assign] at hassign
    split at hassign
    · rename_i hother
      subst hother
      cases hassign
      refine ⟨route, hbest, rfl, rfl, ?_⟩
      have hroute := (best_spec hbest).2.2
      have hnonneg := h.nonneg
      unfold Ipv6Route.Expired at hroute
      unfold Ipv6Route.Outlives
      grind
    · exact h.current other entry (Ipv6RoutingTable.answer_eq_some_iff.mpr ⟨hassign, halive, hid⟩)

/-- The search for a destination that the cache does not answer. -/
theorem Coherent.searchOutputInterface (h : Coherent node)
    (hsearch : ¬Blocked node.rt.routeList node.now dest) :
    ∃ decision node', node.searchOutputInterface dest = .ok (decision, node') ∧
      node.Decides dest decision ∧ Coherent node' := by
  obtain ⟨rest, hloop, hsub, hbest⟩ := matchLoop_of_not_blocked hsearch
  have hfound : node.rt.doLongestPrefixMatch node.now dest =
      .ok (best node.rt.routeList node.now dest, { node.rt with routeList := rest }) := by
    rw [Ipv6RoutingTable.doLongestPrefixMatch, hloop]
    rfl
  have hshrunk := h.shrink hsub hbest fun _ _ hfind ↦ hfind
  unfold Node.searchOutputInterface
  rw [bind_of_ok hfound]
  cases hroute : best node.rt.routeList node.now dest with
  | none =>
    dsimp only
    have hnone := best_eq_none_iff.mp hroute
    cases hrouter : node.rt.isrouter with
    | true => exact ⟨_, _, rfl, ⟨hrouter, hnone⟩, hrouter ▸ hshrunk (node.numUnroutable + 1)⟩
    | false => exact ⟨_, _, rfl, ⟨hrouter, hnone⟩, hrouter ▸ hshrunk node.numUnroutable⟩
  | some route =>
    refine ⟨_, _, rfl, ⟨route, isBest_of_best h.wellOrdered hroute, rfl, rfl⟩, ?_⟩
    exact (hshrunk node.numUnroutable).updateDestCache ((hbest dest).trans hroute)

/-- A lookup in a coherent state returns, and decides by the best route. -/
theorem Coherent.determineOutputInterface (h : Coherent node)
    (he : node.Admissible (.determineOutputInterface dest)) :
    ∃ decision node', node.determineOutputInterface dest = .ok (decision, node') ∧
      node.Decides dest decision ∧ Coherent node' := by
  unfold Node.determineOutputInterface
  cases hanswer : node.rt.answer node.now dest with
  | some entry =>
    obtain ⟨-, -, hid⟩ := Ipv6RoutingTable.answer_eq_some_iff.mp hanswer
    obtain ⟨route, hbest, hnext, hout, -⟩ := h.current dest entry hanswer
    rw [lookupDestCache_of_answer hanswer]
    rw [if_neg hid]
    exact ⟨_, _, rfl, ⟨route, isBest_of_best h.wellOrdered hbest, hnext.symm, hout.symm⟩, h⟩
  | none =>
    obtain ⟨hid, destCache, htable, hcache⟩ := lookupDestCache_of_no_answer hanswer
    rw [if_pos hid, htable]
    have hshrunk := h.shrink (List.Sublist.refl _) (fun _ ↦ rfl) hcache node.numUnroutable
    exact hshrunk.searchOutputInterface (he hanswer)

/-- A lookup that does not meet the side condition does not return. -/
theorem determineOutputInterface_of_blocked
    (he : ¬node.Admissible (.determineOutputInterface dest)) :
    node.determineOutputInterface dest = .error .notReturned := by
  obtain ⟨hanswer, hblocked⟩ := Classical.not_imp.mp he
  obtain ⟨hid, destCache, htable, -⟩ := lookupDestCache_of_no_answer hanswer
  unfold Node.determineOutputInterface
  rw [if_pos hid, htable, Node.searchOutputInterface, Ipv6RoutingTable.doLongestPrefixMatch,
    matchLoop_of_blocked (not_not.mp hblocked)]
  rfl

/-- One step that meets the side condition. -/
theorem Coherent.step (h : Coherent node) (henabled : node.Enabled e) (he : node.Admissible e)
    (hstep : node.handle e = .ok node') : Coherent node' := by
  have hkept := h.kept henabled he
  cases e with
  | determineOutputInterface dest =>
    obtain ⟨decision, node'', hresult, -, hcoherent⟩ := h.determineOutputInterface he
    have hsame : node'' = node' := by
      have hmap := congrArg (Except.map Prod.snd) hresult
      exact Except.ok.inj (hmap.symm.trans hstep)
    exact hsame ▸ hcoherent
  | elapse duration =>
    cases hstep
    exact h.elapse henabled
  | addRoute route =>
    cases hstep
    refine h.of_best hkept ?_
    intro dest entry route' hanswer
    cases (Ipv6RoutingTable.answer_eq_some_iff.mp hanswer).1
  | interfaceDown interfaceId =>
    cases hstep
    exact h.interfaceDown interfaceId hkept
  | purgeDestCache | purgeDestCacheEntriesToNeighbour nextHopAddr interfaceId
  | purgeDestCacheForInterfaceId interfaceId =>
    cases hstep
    exact h.of_best hkept fun _ _ _ _ hbest _ ↦ hbest
  | setField ptr setter =>
    cases hstep
    exact h.of_undisturbed hkept he.1
  | addOrUpdateOnLinkPrefix ptr destPrefix prefixLength interfaceId expiryTime
  | addOrUpdateOwnAdvPrefix ptr destPrefix prefixLength interfaceId expiryTime
  | deleteOnLinkPrefix destPrefix prefixLength | removeRoute ptr | deleteRoute ptr
  | deleteDefaultRoutes interfaceId | deletePrefixes interfaceId | deleteAllRoutes
  | interfaceDeleted interfaceId =>
    cases hstep
    exact h.of_undisturbed hkept he

/-- A node whose routing table is still empty. -/
def Node.start (isrouter useAdminDist : Bool) : Node where
  rt  := { isrouter, useAdminDist }
  now := 0

theorem coherent_start (isrouter useAdminDist : Bool) :
    Coherent (Node.start isrouter useAdminDist) where
  nonneg      := le_rfl
  wellOrdered := List.Pairwise.nil
  distinct    := nodup_nil
  current dest entry h := by
    cases (Ipv6RoutingTable.answer_eq_some_iff.mp h).1

theorem coherent_of_run {isrouter useAdminDist : Bool} {events : List Event}
    (hrun : (machine.restrict Node.Admissible).Run (Node.start isrouter useAdminDist) events node) :
    Coherent node := by
  refine hrun.invariant ?_ (coherent_start isrouter useAdminDist)
  intro node e node' h hstep
  have hboth := Machine.step_restrict_iff.mp hstep
  exact h.step hboth.1.1 hboth.2 hboth.1.2

/-- After every run whose steps meet the side condition, a lookup that meets it returns and decides
by the best route of the table; any other lookup does not return. -/
theorem decides_of_run {isrouter useAdminDist : Bool} {events : List Event}
    (hrun : (machine.restrict Node.Admissible).Run (Node.start isrouter useAdminDist) events node)
    (dest : Ipv6Address) :
    (node.Admissible (.determineOutputInterface dest) →
      ∃ decision node', node.determineOutputInterface dest = .ok (decision, node') ∧
        node.Decides dest decision) ∧
      (¬node.Admissible (.determineOutputInterface dest) →
        node.determineOutputInterface dest = .error .notReturned) := by
  refine ⟨?_, determineOutputInterface_of_blocked⟩
  intro he
  obtain ⟨decision, node', hresult, hdecides, -⟩ :=
    (coherent_of_run hrun).determineOutputInterface he
  exact ⟨decision, node', hresult, hdecides⟩

/-- The address 2001:db8::1. -/
def sampleDest : Ipv6Address := 0x20010DB8000000000000000000000001

theorem prefixLength_lt : 32 < 129 := by decide

/-- A route to 2001:db8::/32 on interface 101. -/
def sampleRoute (ptr : RoutePtr) (sourceType : SourceType) (expiryTime : SimTime) : Ipv6Route where
  ptr := ptr
  destPrefix := 0x20010DB8000000000000000000000000
  prefixLength := ⟨32, prefixLength_lt⟩
  sourceType := sourceType
  interfaceId := some 101
  expiryTime := expiryTime

/-- A prefix is learned from a router advertisement, used, and renewed before it expires. -/
theorem decides_of_run_renewed :
    ∃ node, (machine.restrict Node.Admissible).Run (Node.start true false)
        [.addRoute (sampleRoute 1 .ROUTER_ADVERTISEMENT 10), .determineOutputInterface sampleDest,
          .elapse 5, .setField 1 (.setExpiryTime 20), .elapse 10] node ∧
      ∃ decision node', node.determineOutputInterface sampleDest = .ok (decision, node') ∧
        node.Decides sampleDest decision := by
  refine Machine.exists_run_imp (fun node ↦ node.Admissible (.determineOutputInterface sampleDest))
    (by decide +kernel) ?_
  intro node hrun he
  exact (decides_of_run hrun sampleDest).1 he

/-- A datagram follows a route that has been deleted, and a search does not return from a route that
has expired and is not from a router advertisement. -/
theorem not_decides :
    (∃ node, machine.Run (Node.start true false)
        [.addRoute (sampleRoute 1 .MANUAL 0), .determineOutputInterface sampleDest,
          .deleteRoute 1] node ∧
      ∃ decision node', node.determineOutputInterface sampleDest = .ok (decision, node') ∧
        ¬node.Decides sampleDest decision) ∧
    ∃ node, machine.Run (Node.start true false)
        [.addRoute (sampleRoute 1 .MANUAL 10), .elapse 20] node ∧
      node.determineOutputInterface sampleDest = .error .notReturned := by
  constructor
  · refine Machine.exists_run_imp (fun node ↦ node.rt.routeList = [] ∧ node.rt.answer node.now
      sampleDest = some ⟨101, sampleDest, 0⟩) (by decide +kernel) ?_
    rintro node hrun ⟨hempty, hanswer⟩
    have hlookup := lookupDestCache_of_answer hanswer
    refine ⟨.output sampleDest 101, node, ?_, ?_⟩
    · unfold Node.determineOutputInterface
      rw [hlookup]
      rfl
    · rintro ⟨route, ⟨hmem, -⟩, -⟩
      rw [hempty] at hmem
      cases hmem
  · refine Machine.exists_run_imp (fun node ↦ ¬node.Admissible (.determineOutputInterface
      sampleDest)) (by decide +kernel) ?_
    intro node hrun he
    exact determineOutputInterface_of_blocked he

end Inet4.Ipv6
