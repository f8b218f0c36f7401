import Inet4.Ipv4.RoutingTableRuns
import Mathlib.Data.List.TakeWhile

/-!
# The routes after a change

Which routes a table holds after a route is added or deleted.  A new default route replaces the old
one, and every other route leaves the routes of the table alone.
-/

namespace Inet4.Ipv4.Ipv4RoutingTable

open List

variable {rt rt' : Ipv4RoutingTable} {route : Ipv4Route}

theorem deleteRoute_sublist (rt : Ipv4RoutingTable) (ptr : RoutePtr) :
    (rt.deleteRoute ptr).2.routes.Sublist rt.routes := by
  change (rt.internalRemoveRoute ptr).2.routes.Sublist rt.routes
  unfold internalRemoveRoute
  cases rt.routeAt ptr with
  | none => exact List.Sublist.refl _
  | some found => exact eraseP_sublist

/-- A route is deleted through its pointer. -/
theorem mem_deleteRoute {ptr : RoutePtr} (hnodup : (rt.routes.map (·.ptr)).Nodup) :
    route ∈ (rt.deleteRoute ptr).2.routes ↔ route ∈ rt.routes ∧ route.ptr ≠ ptr := by
  change route ∈ (rt.internalRemoveRoute ptr).2.routes ↔ _
  unfold internalRemoveRoute
  cases hfind : rt.routeAt ptr with
  | none =>
    have hother := find?_eq_none.mp hfind
    simp only [decide_eq_true_eq] at hother
    exact ⟨fun hmem ↦ ⟨hmem, hother route hmem⟩, And.left⟩
  | some found =>
    constructor
    · intro hmem
      exact ⟨mem_of_mem_eraseP hmem, key_ne_of_mem_eraseP hnodup hmem⟩
    · intro hboth
      exact (mem_eraseP_of_neg (by simpa using hboth.2)).mpr hboth.1

theorem replaceDefaultRoute_sublist (rt : Ipv4RoutingTable) (entry : Ipv4Route) :
    (rt.replaceDefaultRoute entry).routes.Sublist rt.routes := by
  unfold replaceDefaultRoute
  split
  · split
    · exact List.Sublist.refl _
    · exact deleteRoute_sublist rt _
  · exact List.Sublist.refl _

/-- Without another default route nothing is replaced. -/
theorem replaceDefaultRoute_eq_self {entry : Ipv4Route}
    (h : entry.netmask = 0#32 → ∀ route ∈ rt.routes, route.netmask ≠ 0#32) :
    rt.replaceDefaultRoute entry = rt := by
  unfold replaceDefaultRoute
  split
  · rename_i hzero
    have hother := h (of_decide_eq_true hzero)
    have hdefault : rt.getDefaultRoute = none := by
      apply find?_eq_none.mpr
      intro route hmem
      have htake := mem_takeWhile_imp hmem
      have hroute := mem_reverse.mp ((takeWhile_sublist _).subset hmem)
      exact absurd (of_decide_eq_true htake) (hother route hroute)
    rw [hdefault]
  · rfl

section

variable (h : rt.addRoute route = .ok rt')
include h

theorem addRoute_perm : rt'.routes.Perm (route :: (rt.replaceDefaultRoute route).routes) := by
  obtain ⟨-, rfl⟩ := internalAddRoute_eq_ok h
  exact SortedVector.insertUpper_perm _ _ _

/-- An address without bits under the netmask is refused. -/
theorem and_ne_zero_of_addRoute (hmask : route.netmask ≠ 0#32) :
    route.dest &&& route.netmask ≠ 0#32 := by
  intro hzero
  unfold addRoute internalAddRoute at h
  rw [if_pos (And.intro hmask hzero)] at h
  split at h <;> cases h

theorem mem_addRoute_self : route ∈ rt'.routes :=
  (addRoute_perm h).mem_iff.mpr mem_cons_self

theorem mem_of_mem_addRoute {other : Ipv4Route} (hother : other ∈ rt'.routes)
    : other = route ∨ other ∈ rt.routes := by
  rcases mem_cons.mp ((addRoute_perm h).mem_iff.mp hother) with heq | hold
  · exact .inl heq
  · exact .inr ((replaceDefaultRoute_sublist rt route).subset hold)

theorem mem_addRoute (hdefault : route.netmask = 0#32 → ∀ other ∈ rt.routes, other.netmask ≠ 0#32)
    {other : Ipv4Route} : other ∈ rt'.routes ↔ other = route ∨ other ∈ rt.routes := by
  have hperm := addRoute_perm h
  rw [replaceDefaultRoute_eq_self hdefault] at hperm
  exact hperm.mem_iff.trans mem_cons

theorem nodup_addRoute (hfresh : ∀ other ∈ rt.routes, other.ptr ≠ route.ptr)
    (hnodup : (rt.routes.map (·.ptr)).Nodup) : (rt'.routes.map (·.ptr)).Nodup := by
  have hsub := replaceDefaultRoute_sublist rt route
  rw [((addRoute_perm h).map _).nodup_iff, map_cons, nodup_cons]
  constructor
  · intro hmem
    obtain ⟨other, hother, hptr⟩ := mem_map.mp hmem
    exact hfresh other (hsub.subset hother) hptr
  · exact (hsub.map _).nodup hnodup

end

end Inet4.Ipv4.Ipv4RoutingTable
