import Inet4.Ipv4.RoutingTable
import Mathlib.Data.Prod.Lex

/-!
# Longest prefix matching over runs

In the order of the vector the first match is the best one: routes of equal prefix length that match
the same destination have the same prefix, and then the administrative distance and the metric
decide.  The order and the cached answers survive every operation but two.  A new administrative
distance leaves the route at its place, and a route that becomes valid again leaves the answers
that were found without it.
-/

namespace Inet4.Ipv4

open List BitVec
open SortedVector (InOrder)
open Except (ok)

namespace Ipv4Address

theorem getNetmaskLength_le (addr : Ipv4Address) : addr.getNetmaskLength ≤ 32 := by
  unfold getNetmaskLength
  split <;> omega

theorem makeNetmask_lt_iff {m n : ℕ} (hm : m ≤ 32) (hn : n ≤ 32) :
    makeNetmask m < makeNetmask n ↔ m < n := by
  have hall : ∀ i j : Fin 33, makeNetmask i < makeNetmask j ↔ i < j := by decide +kernel
  have hij := hall ⟨m, by omega⟩ ⟨n, by omega⟩
  simpa using hij

/-- Valid netmasks are ordered by their lengths. -/
theorem lt_iff_getNetmaskLength_lt {a b : Ipv4Address} (ha : a.isValidNetmask = true)
    (hb : b.isValidNetmask = true) : a < b ↔ a.getNetmaskLength < b.getNetmaskLength := by
  have hmaska : a = makeNetmask a.getNetmaskLength := by simpa [isValidNetmask] using ha
  have hmaskb : b = makeNetmask b.getNetmaskLength := by simpa [isValidNetmask] using hb
  calc
    a < b ↔ makeNetmask a.getNetmaskLength < makeNetmask b.getNetmaskLength := by
      rw [← hmaska, ← hmaskb]
    _ ↔ a.getNetmaskLength < b.getNetmaskLength :=
      makeNetmask_lt_iff a.getNetmaskLength_le b.getNetmaskLength_le

/-- Addresses without bits outside a netmask are equal when both agree with a third one under it. -/
theorem eq_of_maskedAddrAreEqual {dest a b m : Ipv4Address} (ha : a &&& ~~~m = 0#32)
    (hb : b &&& ~~~m = 0#32) (hda : maskedAddrAreEqual dest a m = true)
    (hdb : maskedAddrAreEqual dest b m = true) : a = b := by
  simp only [maskedAddrAreEqual, decide_eq_true_eq] at hda hdb
  apply eq_of_getLsbD_eq
  intro i hi
  have hai := congrArg (getLsbD · i) ha
  have hbi := congrArg (getLsbD · i) hb
  have hdai := congrArg (getLsbD · i) hda
  have hdbi := congrArg (getLsbD · i) hdb
  simp only [getLsbD_and, getLsbD_not, getLsbD_xor, getLsbD_zero, hi,
    decide_true, Bool.true_and] at hai hbi hdai hdbi
  revert hai hbi hdai hdbi
  cases a.getLsbD i <;> cases b.getLsbD i <;> cases m.getLsbD i <;> cases dest.getLsbD i <;> simp

end Ipv4Address

namespace Ipv4Route

/-- What the order of the vector compares: the netmask, the longest first, the destination, the
administrative distance if it is used, and the metric. -/
def rank (useAdminDist : Bool) (route : Ipv4Route) : ℕᵒᵈ ×ₗ ℕ ×ₗ ℕ ×ₗ ℤ :=
  toLex (OrderDual.toDual route.netmask.toNat, toLex (route.dest.toNat,
    toLex (if useAdminDist then route.adminDist else 0, route.metric)))

theorem routeLessThan_iff (useAdminDist : Bool) (a b : Ipv4Route) :
    Ipv4RoutingTable.routeLessThan useAdminDist a b = true ↔
      a.rank useAdminDist < b.rank useAdminDist := by
  simp only [rank, Prod.Lex.toLex_lt_toLex, Ipv4RoutingTable.routeLessThan,
    OrderDual.toDual_lt_toDual, OrderDual.toDual_inj, ← toNat_eq, ← lt_def]
  by_cases hmask : a.netmask = b.netmask
  · by_cases hdest : a.dest = b.dest
    · cases useAdminDist <;> by_cases hdist : a.adminDist = b.adminDist <;>
        simp [hmask, hdest, hdist]
    · simp [hmask, hdest]
  · simp [hmask]

/-- What the table checks of a route. -/
def WellFormed (route : Ipv4Route) : Prop :=
  route.netmask.isValidNetmask = true ∧ route.dest &&& ~~~route.netmask = 0#32

/-- A route is at least as good as another one that matches the same destination. -/
def Preferred (useAdminDist : Bool) (route other : Ipv4Route) : Prop :=
  other.getPrefixLength < route.getPrefixLength ∨
    other.getPrefixLength = route.getPrefixLength ∧
      (useAdminDist = true ∧ route.adminDist < other.adminDist ∨
        (useAdminDist = true → route.adminDist = other.adminDist) ∧ route.metric ≤ other.metric)

instance (useAdminDist : Bool) (route other : Ipv4Route) :
    Decidable (Preferred useAdminDist route other) :=
  inferInstanceAs (Decidable (_ ∨ _))

theorem preferred_of_rank_le {useAdminDist : Bool} {route other : Ipv4Route} {dest : Ipv4Address}
    (hroute : route.WellFormed) (hother : other.WellFormed) (hmatch : route.Matches dest)
    (hmatch' : other.Matches dest)
    (hrank : route.rank useAdminDist ≤ other.rank useAdminDist) :
    Preferred useAdminDist route other := by
  have hnot : ¬ Ipv4RoutingTable.routeLessThan useAdminDist other route = true := by
    rw [routeLessThan_iff]
    exact not_lt.mpr hrank
  unfold Preferred getPrefixLength
  by_cases hmask : other.netmask = route.netmask
  · have hdest : other.dest = route.dest := by
      unfold Matches at hmatch hmatch'
      rw [hmask] at hmatch'
      have hbits := hother.2
      rw [hmask] at hbits
      exact Ipv4Address.eq_of_maskedAddrAreEqual hbits hroute.2 hmatch' hmatch
    right
    refine ⟨by rw [hmask], ?_⟩
    simp only [Ipv4RoutingTable.routeLessThan, hmask, hdest, ne_eq, not_true_eq_false,
      ite_false] at hnot
    cases useAdminDist with
    | false => simpa using hnot
    | true =>
      by_cases hdist : other.adminDist = route.adminDist
      · simpa [hdist] using hnot
      · have hle : route.adminDist ≤ other.adminDist := by simpa [hdist] using hnot
        left
        exact ⟨rfl, by omega⟩
  · left
    have hle : ¬ route.netmask < other.netmask := by
      simpa [Ipv4RoutingTable.routeLessThan, hmask] using hnot
    rw [← Ipv4Address.lt_iff_getNetmaskLength_lt hother.1 hroute.1, lt_def]
    have hne : other.netmask.toNat ≠ route.netmask.toNat := fun h ↦ hmask (eq_of_toNat_eq h)
    rw [lt_def] at hle
    omega

end Ipv4Route

namespace Ipv4RoutingTable

open Ipv4Route (rank routeLessThan_iff)

/-- An answer to a lookup is right: a best one of the valid routes that match the destination, or
none when there is no such route. -/
def IsBest (table : Ipv4RoutingTable) (dest : Ipv4Address) : Option RoutePtr → Prop
  | none => ∀ route ∈ table.routes, route.isValid = true → ¬ route.Matches dest
  | some ptr => ∃ route ∈ table.routes, route.ptr = ptr ∧ route.isValid = true ∧
      route.Matches dest ∧ ∀ other ∈ table.routes, other.isValid = true → other.Matches dest →
        route.Preferred table.useAdminDist other

instance (table : Ipv4RoutingTable) (dest : Ipv4Address) :
    (answer : Option RoutePtr) → Decidable (table.IsBest dest answer)
  | none => inferInstanceAs (Decidable (∀ _ ∈ _, _))
  | some _ => inferInstanceAs (Decidable (∃ _ ∈ _, _))

/-- A cached answer is stale: null although a valid route matches, or a valid route that is behind
another valid one in the order. -/
def StaleAnswer (table : Ipv4RoutingTable) (dest : Ipv4Address) : Option (Option RoutePtr) → Prop
  | none => False
  | some none => ∃ other ∈ table.routes, other.isValid = true ∧ other.Matches dest
  | some (some ptr) => ∃ route ∈ table.routes, route.ptr = ptr ∧ route.isValid = true ∧
      ∃ other ∈ table.routes, other.isValid = true ∧ other.Matches dest ∧
        routeLessThan table.useAdminDist other route = true

instance (table : Ipv4RoutingTable) (dest : Ipv4Address) :
    (answer : Option (Option RoutePtr)) → Decidable (table.StaleAnswer dest answer)
  | none => isFalse id
  | some none => inferInstanceAs (Decidable (∃ _ ∈ _, _))
  | some (some _) => inferInstanceAs (Decidable (∃ _ ∈ _, _))

/-- The cache holds a stale answer for a destination. -/
def Stale (table : Ipv4RoutingTable) (dest : Ipv4Address) : Prop :=
  table.StaleAnswer dest (table.routingCache.find dest)

instance (table : Ipv4RoutingTable) (dest : Ipv4Address) : Decidable (table.Stale dest) :=
  inferInstanceAs (Decidable (table.StaleAnswer dest _))

/-- The vector is ordered as its insertions assume. -/
def Ordered (table : Ipv4RoutingTable) : Prop :=
  table.routes.Pairwise fun a b ↦ routeLessThan table.useAdminDist b a = false

instance (table : Ipv4RoutingTable) : Decidable table.Ordered :=
  inferInstanceAs (Decidable (List.Pairwise _ _))

/-- The side condition on events.  With administrative distances in use, a new one leaves the vector
ordered and no cached answer stale; and a route that becomes valid again leaves no answer stale that
is cached for a destination it matches. -/
def Admissible (table : Ipv4RoutingTable) : Event → Prop
  | .setAdminDist entry adminDist =>
    let changed := table.write entry fun route ↦ { route with adminDist }
    table.useAdminDist = true →
      changed.Ordered ∧ ∀ dest ∈ table.routingCache.keys, ¬ changed.Stale dest
  | .revalidate isValid =>
    ∀ dest ∈ table.routingCache.keys,
      (∃ route ∈ table.routes, route.isValid = false ∧ isValid route.ptr = true ∧
        route.Matches dest) →
      ¬ (table.revalidate isValid).Stale dest
  | _ => True

instance (table : Ipv4RoutingTable) : (event : Event) → Decidable (table.Admissible event)
  | .setAdminDist entry adminDist =>
    let changed := table.write entry fun route ↦ { route with adminDist }
    have := decidableBAll (fun dest ↦ ¬ changed.Stale dest) table.routingCache.keys
    inferInstanceAs (Decidable (_ → _))
  | .revalidate _ => decidableBAll _ table.routingCache.keys
  | .addRoute _ | .removeRoute _ | .deleteRoute _ | .purge | .findBestMatchingRoute _
  | .setDestination .. | .setNetmask .. | .setGateway .. | .setInterface .. | .setMetric .. =>
    isTrue trivial

theorem ordered_iff (table : Ipv4RoutingTable) :
    table.Ordered ↔ InOrder (rank table.useAdminDist) table.routes := by
  have hpair : ∀ a b, routeLessThan table.useAdminDist b a = false ↔
      rank table.useAdminDist a ≤ rank table.useAdminDist b := by
    intro a b
    rw [← Bool.not_eq_true, routeLessThan_iff, not_lt]
  simp only [Ordered, InOrder, hpair]

/-- The vector is ordered, its routes have passed the checks and are different objects, and the
cache refers to matching routes of the table and holds no stale answer. -/
structure Consistent (table : Ipv4RoutingTable) : Prop where
  ordered : table.Ordered
  wellFormed : ∀ route ∈ table.routes, route.WellFormed
  nodup : (table.routes.map (·.ptr)).Nodup
  cached : ∀ dest ptr, table.routingCache.find dest = some (some ptr) →
    ∃ route ∈ table.routes, route.ptr = ptr ∧ route.Matches dest
  current : ∀ dest, ¬ table.Stale dest

theorem not_stale_of_find_eq_none {table : Ipv4RoutingTable} {dest : Ipv4Address}
    (h : table.routingCache.find dest = none) : ¬ table.Stale dest := by
  unfold Stale
  rw [h]
  exact id

/-- With an empty cache only the vector matters. -/
theorem consistent_invalidateCache (table : Ipv4RoutingTable) (hordered : table.Ordered)
    (hwellFormed : ∀ route ∈ table.routes, route.WellFormed)
    (hnodup : (table.routes.map (·.ptr)).Nodup) : table.invalidateCache.Consistent where
  ordered := hordered
  wellFormed := hwellFormed
  nodup := hnodup
  cached := by
    intro dest ptr h
    cases h
  current dest := not_stale_of_find_eq_none (AssocMap.find_empty dest)

variable {table table' : Ipv4RoutingTable}

theorem consistent_empty (useAdminDist : Bool) :
    Consistent { useAdminDist := useAdminDist } :=
  consistent_invalidateCache { useAdminDist } .nil nofun .nil

/-- A part of the vector with an empty cache. -/
theorem Consistent.sublist (h : table.Consistent) {routes : List Ipv4Route}
    (hsub : routes.Sublist table.routes) : { table with routes }.invalidateCache.Consistent := by
  apply consistent_invalidateCache
  · exact List.Pairwise.sublist hsub h.ordered
  · intro route hroute
    exact h.wellFormed route (hsub.subset hroute)
  · exact List.Nodup.sublist (hsub.map _) h.nodup

theorem Consistent.eq_of_ptr_eq (h : table.Consistent) {a b : Ipv4Route}
    (ha : a ∈ table.routes) (hb : b ∈ table.routes) (hptr : a.ptr = b.ptr) : a = b :=
  inj_on_of_nodup_map h.nodup ha hb hptr

theorem routeAt_eq_some {entry : RoutePtr} {route : Ipv4Route}
    (h : table.routeAt entry = some route) : route ∈ table.routes ∧ route.ptr = entry :=
  ⟨mem_of_find?_eq_some h, by simpa using find?_some h⟩

theorem Consistent.routeAt_of_mem (h : table.Consistent) {route : Ipv4Route}
    (hroute : route ∈ table.routes) : table.routeAt route.ptr = some route := by
  cases hfind : table.routeAt route.ptr with
  | none =>
    have hnone := find?_eq_none.mp hfind route hroute
    simp at hnone
  | some found =>
    have hfound := routeAt_eq_some hfind
    rw [h.eq_of_ptr_eq hfound.1 hroute hfound.2]

theorem scan_eq_some {dest : Ipv4Address} {route : Ipv4Route} (h : table.scan dest = some route) :
    route ∈ table.routes ∧ route.isValid = true ∧ route.Matches dest := by
  have htest := find?_some h
  rw [Bool.and_eq_true, decide_eq_true_eq] at htest
  exact ⟨mem_of_find?_eq_some h, htest.1, htest.2⟩

theorem scan_eq_none {dest : Ipv4Address} (h : table.scan dest = none) :
    ∀ route ∈ table.routes, route.isValid = true → ¬ route.Matches dest := by
  intro route hroute hvalid hmatch
  have hnone := find?_eq_none.mp h route hroute
  simp [hvalid, hmatch] at hnone

/-- No valid route that matches comes before the one that the search finds. -/
theorem Consistent.scan_first (h : table.Consistent) {dest : Ipv4Address} {route : Ipv4Route}
    (hscan : table.scan dest = some route) :
    ∀ other ∈ table.routes, other.isValid = true → other.Matches dest →
      ¬ routeLessThan table.useAdminDist other route = true := by
  intro other hother hvalid hmatch
  have hordered := (ordered_iff table).mp h.ordered
  have hrank := hordered.rank_le_of_find? hscan hother (by simp [hvalid, hmatch])
  rw [routeLessThan_iff]
  exact not_lt.mpr hrank

/-- A valid matching route that is not behind another one is a best one. -/
theorem Consistent.isBest_of_not_lessThan (h : table.Consistent) {dest : Ipv4Address}
    {route : Ipv4Route} (hroute : route ∈ table.routes) (hvalid : route.isValid = true)
    (hmatch : route.Matches dest)
    (hfirst : ∀ other ∈ table.routes, other.isValid = true → other.Matches dest →
      ¬ routeLessThan table.useAdminDist other route = true) :
    table.IsBest dest (some route.ptr) := by
  refine ⟨route, hroute, rfl, hvalid, hmatch, ?_⟩
  intro other hother hvalid' hmatch'
  have hnot := hfirst other hother hvalid' hmatch'
  rw [routeLessThan_iff] at hnot
  exact Ipv4Route.preferred_of_rank_le (h.wellFormed route hroute) (h.wellFormed other hother)
    hmatch hmatch' (not_lt.mp hnot)

theorem Consistent.isBest_lookUp (h : table.Consistent) (dest : Ipv4Address) :
    table.IsBest dest (table.lookUp dest).1 := by
  unfold lookUp
  cases hscan : table.scan dest with
  | none => exact scan_eq_none hscan
  | some route =>
    have hfound := scan_eq_some hscan
    exact h.isBest_of_not_lessThan hfound.1 hfound.2.1 hfound.2.2 (h.scan_first hscan)

/-- The answer that a lookup caches is not stale. -/
theorem Consistent.lookUp (h : table.Consistent) (dest : Ipv4Address) :
    (table.lookUp dest).2.Consistent where
  ordered := h.ordered
  wellFormed := h.wellFormed
  nodup := h.nodup
  cached := by
    intro dest' ptr hfind
    simp only [Ipv4RoutingTable.lookUp, AssocMap.find_assign] at hfind
    split at hfind
    · rename_i heq
      subst heq
      have hptr := Option.some.inj hfind
      obtain ⟨route, hscan, rfl⟩ := Option.map_eq_some_iff.mp hptr
      have hfound := scan_eq_some hscan
      exact ⟨route, hfound.1, rfl, hfound.2.2⟩
    · exact h.cached dest' ptr hfind
  current := by
    intro dest'
    simp only [Stale, Ipv4RoutingTable.lookUp, AssocMap.find_assign]
    split
    · rename_i heq
      subst heq
      cases hscan : table.scan dest' with
      | none =>
        intro hstale
        obtain ⟨other, hother, hvalid, hmatch⟩ := hstale
        exact scan_eq_none hscan other hother hvalid hmatch
      | some route =>
        intro hstale
        obtain ⟨found, hfound, hptr, -, other, hother, hvalid, hmatch, hless⟩ := hstale
        obtain rfl := h.eq_of_ptr_eq hfound (scan_eq_some hscan).1 hptr
        exact h.scan_first hscan other hother hvalid hmatch hless
    · exact h.current dest'

/-- A lookup returns a best route. -/
theorem Consistent.findBestMatchingRoute (h : table.Consistent) (dest : Ipv4Address) :
    ∃ answer table', table.findBestMatchingRoute dest = .ok (answer, table') ∧
      table.IsBest dest answer ∧ table'.Consistent := by
  have hcurrent := h.current dest
  have hlookUp := h.isBest_lookUp dest
  unfold Ipv4RoutingTable.findBestMatchingRoute
  unfold Stale at hcurrent
  cases hfind : table.routingCache.find dest with
  | none => exact ⟨_, _, rfl, hlookUp, h.lookUp dest⟩
  | some cached =>
    rw [hfind] at hcurrent
    cases cached with
    | none =>
      refine ⟨none, table, rfl, ?_, h⟩
      intro route hroute hvalid hmatch
      exact hcurrent ⟨route, hroute, hvalid, hmatch⟩
    | some ptr =>
      obtain ⟨route, hroute, rfl, hmatch⟩ := h.cached dest ptr hfind
      simp only [h.routeAt_of_mem hroute]
      by_cases hvalid : route.isValid = true
      · refine ⟨some route.ptr, table, by rw [if_pos hvalid], ?_, h⟩
        apply h.isBest_of_not_lessThan hroute hvalid hmatch
        intro other hother hvalid' hmatch' hless
        exact hcurrent ⟨route, hroute, rfl, hvalid, other, hother, hvalid', hmatch', hless⟩
      · exact ⟨_, _, by rw [if_neg hvalid], hlookUp, h.lookUp dest⟩

theorem Consistent.internalRemoveRoute (h : table.Consistent) (entry : RoutePtr) :
    (table.internalRemoveRoute entry).2.Consistent := by
  unfold Ipv4RoutingTable.internalRemoveRoute
  cases table.routeAt entry with
  | none => exact h
  | some route => exact h.sublist eraseP_sublist

theorem internalRemoveRoute_subset (table : Ipv4RoutingTable) (entry : RoutePtr) :
    (table.internalRemoveRoute entry).2.routes ⊆ table.routes := by
  unfold Ipv4RoutingTable.internalRemoveRoute
  cases table.routeAt entry with
  | none => exact List.Subset.refl _
  | some route => exact eraseP_subset

theorem Consistent.replaceDefaultRoute (h : table.Consistent) (entry : Ipv4Route) :
    (table.replaceDefaultRoute entry).Consistent := by
  unfold Ipv4RoutingTable.replaceDefaultRoute
  split
  · split
    · exact h
    · exact h.internalRemoveRoute _
  · exact h

theorem replaceDefaultRoute_subset (table : Ipv4RoutingTable) (entry : Ipv4Route) :
    (table.replaceDefaultRoute entry).routes ⊆ table.routes := by
  unfold Ipv4RoutingTable.replaceDefaultRoute
  split
  · split
    · exact List.Subset.refl _
    · exact internalRemoveRoute_subset table _
  · exact List.Subset.refl _

theorem internalAddRoute_eq_ok {entry : Ipv4Route}
    (hadd : table.internalAddRoute entry = .ok table') :
    entry.WellFormed ∧
      table' = { table.replaceDefaultRoute entry with
        routes := SortedVector.insertUpper
          (routeLessThan (table.replaceDefaultRoute entry).useAdminDist) entry
          (table.replaceDefaultRoute entry).routes }.invalidateCache := by
  unfold internalAddRoute at hadd
  split_ifs at hadd with hmask hzero hbits hinterface
  constructor
  · exact ⟨by simpa using hmask, by simpa using hbits⟩
  · exact (ok.inj hadd).symm

/-- An insertion keeps the order. -/
theorem Consistent.internalAddRoute (h : table.Consistent) {entry : Ipv4Route}
    (hfresh : ∀ route ∈ table.routes, route.ptr ≠ entry.ptr)
    (hadd : table.internalAddRoute entry = .ok table') : table'.Consistent := by
  obtain ⟨hwellFormed, rfl⟩ := internalAddRoute_eq_ok hadd
  have hold := h.replaceDefaultRoute entry
  have hsubset := replaceDefaultRoute_subset table entry
  generalize table.replaceDefaultRoute entry = old at hold hsubset
  have hperm := SortedVector.insertUpper_perm (routeLessThan old.useAdminDist) entry old.routes
  apply consistent_invalidateCache
  · rw [ordered_iff]
    exact ((ordered_iff old).mp hold.ordered).insertUpper (routeLessThan_iff _) entry
  · intro route hroute
    rcases SortedVector.mem_insertUpper.mp hroute with rfl | hroute
    · exact hwellFormed
    · exact hold.wellFormed route hroute
  · rw [(hperm.map _).nodup_iff, map_cons, nodup_cons]
    refine ⟨?_, hold.nodup⟩
    intro hmem
    obtain ⟨route, hroute, hptr⟩ := mem_map.mp hmem
    exact hfresh route (hsubset hroute) hptr

theorem Consistent.purge (h : table.Consistent) : table.purge.Consistent := by
  unfold Ipv4RoutingTable.purge
  split
  · exact h
  · exact h.sublist filter_sublist

/-- A change that leaves the pointer and the prefix of every route as they are. -/
structure KeepsPrefix (g : Ipv4Route → Ipv4Route) : Prop where
  ptr : ∀ route, (g route).ptr = route.ptr
  dest : ∀ route, (g route).dest = route.dest
  netmask : ∀ route, (g route).netmask = route.netmask

variable {g : Ipv4Route → Ipv4Route}

theorem KeepsPrefix.matches_iff (hg : KeepsPrefix g) (route : Ipv4Route) (dest : Ipv4Address) :
    (g route).Matches dest ↔ route.Matches dest := by
  unfold Ipv4Route.Matches
  rw [hg.dest, hg.netmask]

/-- The table with all its routes changed where they are. -/
theorem Consistent.map (h : table.Consistent) (hg : KeepsPrefix g)
    (hordered : { table with routes := table.routes.map g }.Ordered)
    (hcurrent : ∀ dest, ¬ { table with routes := table.routes.map g }.Stale dest) :
    { table with routes := table.routes.map g }.Consistent where
  ordered := hordered
  wellFormed := by
    intro changed hchanged
    obtain ⟨route, hroute, rfl⟩ := mem_map.mp hchanged
    unfold Ipv4Route.WellFormed
    rw [hg.dest, hg.netmask]
    exact h.wellFormed route hroute
  nodup := by
    have heq : (table.routes.map g).map (·.ptr) = table.routes.map (·.ptr) := by
      rw [map_map]
      exact map_congr_left fun route _ ↦ hg.ptr route
    rw [heq]
    exact h.nodup
  cached := by
    intro dest ptr hfind
    obtain ⟨route, hroute, rfl, hmatch⟩ := h.cached dest ptr hfind
    exact ⟨g route, mem_map_of_mem hroute, hg.ptr route,
      (hg.matches_iff route dest).mpr hmatch⟩
  current := hcurrent

/-- A change that leaves the rank and the validity of the routes keeps everything. -/
theorem Consistent.map_of_rank_eq (h : table.Consistent) (hg : KeepsPrefix g)
    (hrank : ∀ route, (g route).rank table.useAdminDist = route.rank table.useAdminDist)
    (hvalid : ∀ route, (g route).isValid = route.isValid) :
    { table with routes := table.routes.map g }.Consistent := by
  apply h.map hg
  · rw [ordered_iff]
    apply pairwise_map.mpr
    simp only [hrank]
    exact (ordered_iff table).mp h.ordered
  · intro dest hstale
    have hcurrent := h.current dest
    simp only [Stale] at hstale hcurrent
    generalize table.routingCache.find dest = answer at hstale hcurrent
    match answer with
    | none => exact hstale
    | some none =>
      obtain ⟨_, hchanged, hvalid', hmatch⟩ := hstale
      obtain ⟨other, hother, rfl⟩ := mem_map.mp hchanged
      rw [hvalid] at hvalid'
      exact hcurrent ⟨other, hother, hvalid', (hg.matches_iff other dest).mp hmatch⟩
    | some (some ptr) =>
      obtain ⟨_, hchanged, hptr, hvalid₁, _, hchanged', hvalid₂, hmatch, hless⟩ := hstale
      obtain ⟨route, hroute, rfl⟩ := mem_map.mp hchanged
      obtain ⟨other, hother, rfl⟩ := mem_map.mp hchanged'
      rw [hvalid] at hvalid₁ hvalid₂
      rw [hg.ptr] at hptr
      rw [routeLessThan_iff, hrank, hrank, ← routeLessThan_iff] at hless
      exact hcurrent ⟨route, hroute, hptr, hvalid₁, other, hother, hvalid₂,
        (hg.matches_iff other dest).mp hmatch, hless⟩

/-- A change of one route. -/
theorem keepsPrefix_at (entry : RoutePtr) (hg : KeepsPrefix g) :
    KeepsPrefix fun route ↦ if route.ptr = entry then g route else route where
  ptr route := by split <;> simp [hg.ptr]
  dest route := by split <;> simp [hg.dest]
  netmask route := by split <;> simp [hg.netmask]

/-- A setter of a field that neither the order nor validity depends on. -/
theorem Consistent.write_of_rank_eq (h : table.Consistent) (entry : RoutePtr)
    (hg : KeepsPrefix g)
    (hrank : ∀ route, (g route).rank table.useAdminDist = route.rank table.useAdminDist)
    (hvalid : ∀ route, (g route).isValid = route.isValid) :
    (table.write entry g).Consistent := by
  apply h.map_of_rank_eq (keepsPrefix_at entry hg)
  · intro route
    split <;> simp [hrank]
  · intro route
    split <;> simp [hvalid]

/-- With different keys, an erasure leaves no element with the key. -/
theorem key_ne_of_mem_eraseP {α β : Type*} [DecidableEq β] {key : α → β} {l : List α} {k : β}
    {e : α} (hnodup : (l.map key).Nodup) (he : e ∈ l.eraseP fun e ↦ key e = k) : key e ≠ k := by
  induction l with
  | nil => cases he
  | cons first rest ih =>
    rw [map_cons, nodup_cons] at hnodup
    by_cases hfirst : key first = k
    · rw [eraseP_cons_of_pos (by simp [hfirst])] at he
      intro hkey
      exact hnodup.1 (mem_map.mpr ⟨e, he, hkey.trans hfirst.symm⟩)
    · rw [eraseP_cons_of_neg (by simp [hfirst])] at he
      rcases mem_cons.mp he with rfl | hrest
      · exact hfirst
      · exact ih hnodup.2 hrest

/-- The route that a setter writes to is taken out as it is now, and the others stay. -/
theorem Consistent.internalRemoveRoute_write (h : table.Consistent) {entry : RoutePtr}
    {route : Ipv4Route} (hroute : table.routeAt entry = some route)
    (hptr : ∀ route, (g route).ptr = route.ptr) :
    (table.write entry g).internalRemoveRoute entry =
      (some (g route), (table.internalRemoveRoute entry).2) := by
  have hfound := routeAt_eq_some hroute
  have htest : (fun e : Ipv4Route ↦ decide (e.ptr = entry)) ∘
      (fun route ↦ if route.ptr = entry then g route else route) =
        fun e ↦ decide (e.ptr = entry) := by
    funext e
    simp only [Function.comp_apply]
    split <;> simp_all
  have hat : (table.write entry g).routeAt entry = some (g route) := by
    unfold routeAt at hroute ⊢
    simp only [write]
    rw [find?_map, htest, hroute, Option.map_some, if_pos hfound.2]
  have herase : (table.write entry g).routes.eraseP (fun e ↦ e.ptr = entry) =
      table.routes.eraseP fun e ↦ e.ptr = entry := by
    simp only [write]
    rw [eraseP_map, htest]
    calc
      _ = (table.routes.eraseP fun e ↦ decide (e.ptr = entry)).map id :=
        map_congr_left fun e he ↦ if_neg (key_ne_of_mem_eraseP h.nodup he)
      _ = _ := map_id _
  unfold Ipv4RoutingTable.internalRemoveRoute
  rw [hat, hroute]
  simp only [herase]
  rfl

/-- The setters of the fields that the order depends on put the route in its new place. -/
theorem Consistent.routeChanged_write (h : table.Consistent) {entry : RoutePtr}
    {route : Ipv4Route} (hroute : table.routeAt entry = some route)
    (hptr : ∀ route, (g route).ptr = route.ptr) {fieldCode : ChangeCode}
    (hcode : fieldCode = .F_DESTINATION ∨ fieldCode = .F_PREFIX_LENGTH ∨ fieldCode = .F_METRIC)
    (hchanged : (table.write entry g).routeChanged entry fieldCode = .ok table') :
    table'.Consistent := by
  have hfound := routeAt_eq_some hroute
  unfold routeChanged at hchanged
  rw [if_pos hcode, h.internalRemoveRoute_write hroute hptr] at hchanged
  have hremoved := h.internalRemoveRoute entry
  have hfresh : ∀ other ∈ (table.internalRemoveRoute entry).2.routes,
      other.ptr ≠ (g route).ptr := by
    intro other hother
    rw [hptr, hfound.2]
    unfold Ipv4RoutingTable.internalRemoveRoute at hother
    rw [hroute] at hother
    exact key_ne_of_mem_eraseP h.nodup hother
  exact hremoved.internalAddRoute hfresh hchanged

/-- A setter of a field that the order depends on. -/
theorem Consistent.setField_of_key (h : table.Consistent) {α : Type} [DecidableEq α]
    {get : Ipv4Route → α} {put : Ipv4Route → α → Ipv4Route} {fieldCode : ChangeCode}
    {entry : RoutePtr} {value : α}
    (hcode : fieldCode = .F_DESTINATION ∨ fieldCode = .F_PREFIX_LENGTH ∨ fieldCode = .F_METRIC)
    (hptr : ∀ route, (put route value).ptr = route.ptr)
    (hset : setField get put fieldCode table entry value = .ok table') : table'.Consistent := by
  unfold setField at hset
  cases hroute : table.routeAt entry with
  | none =>
    rw [hroute] at hset
    obtain rfl := ok.inj hset
    exact h
  | some route =>
    simp only [hroute] at hset
    split at hset
    · exact h.routeChanged_write hroute hptr hcode hset
    · obtain rfl := ok.inj hset
      exact h

/-- A setter of another field leaves the route at its place. -/
theorem setField_of_not_key {α : Type} [DecidableEq α] {get : Ipv4Route → α}
    {put : Ipv4Route → α → Ipv4Route} {fieldCode : ChangeCode} {entry : RoutePtr} {value : α}
    (hcode : ¬ (fieldCode = .F_DESTINATION ∨ fieldCode = .F_PREFIX_LENGTH ∨
      fieldCode = .F_METRIC))
    (hset : setField get put fieldCode table entry value = .ok table') :
    table' = table ∨ table' = table.write entry fun route ↦ put route value := by
  unfold setField at hset
  cases hroute : table.routeAt entry with
  | none =>
    rw [hroute] at hset
    left
    exact (ok.inj hset).symm
  | some route =>
    simp only [hroute] at hset
    split at hset
    · right
      rw [routeChanged, if_neg hcode] at hset
      exact (ok.inj hset).symm
    · left
      exact (ok.inj hset).symm

theorem notMem_keys_of_find_eq_none {dest : Ipv4Address}
    (h : dest ∉ table.routingCache.keys) : table.routingCache.find dest = none :=
  AssocMap.find_eq_none.mpr h

theorem Consistent.setAdminDist (h : table.Consistent) {entry : RoutePtr} {adminDist : ℕ}
    (hadmissible : table.Admissible (.setAdminDist entry adminDist))
    (hset : table.setAdminDist entry adminDist = .ok table') : table'.Consistent := by
  have hkeeps : KeepsPrefix fun route ↦ { route with adminDist } :=
    ⟨fun _ ↦ rfl, fun _ ↦ rfl, fun _ ↦ rfl⟩
  rcases setField_of_not_key (by decide) hset with rfl | rfl
  · exact h
  · by_cases huse : table.useAdminDist = true
    · obtain ⟨hordered, hcurrent⟩ := hadmissible huse
      apply h.map (keepsPrefix_at entry hkeeps) hordered
      intro dest
      by_cases hmem : dest ∈ table.routingCache.keys
      · exact hcurrent dest hmem
      · apply not_stale_of_find_eq_none
        exact notMem_keys_of_find_eq_none hmem
    · apply h.write_of_rank_eq entry hkeeps
      · intro route
        simp [rank, huse]
      · intro route
        rfl

/-- Unless a route becomes valid again, no answer becomes stale. -/
theorem Consistent.revalidate (h : table.Consistent) {isValid : RoutePtr → Bool}
    (hadmissible : table.Admissible (.revalidate isValid)) :
    (table.revalidate isValid).Consistent := by
  have hkeeps : KeepsPrefix fun route ↦ { route with isValid := isValid route.ptr } :=
    ⟨fun _ ↦ rfl, fun _ ↦ rfl, fun _ ↦ rfl⟩
  apply h.map hkeeps
  · rw [ordered_iff]
    exact pairwise_map.mpr ((ordered_iff table).mp h.ordered)
  · intro dest
    by_cases hagain : ∃ route ∈ table.routes, route.isValid = false ∧ isValid route.ptr = true ∧
        route.Matches dest
    · by_cases hmem : dest ∈ table.routingCache.keys
      · exact hadmissible dest hmem hagain
      · apply not_stale_of_find_eq_none
        exact notMem_keys_of_find_eq_none hmem
    -- every valid route that matches was valid before
    · have hbefore : ∀ route ∈ table.routes, isValid route.ptr = true → route.Matches dest →
          route.isValid = true := by
        intro route hroute hafter hmatch
        by_contra hinvalid
        exact hagain ⟨route, hroute, by simpa using hinvalid, hafter, hmatch⟩
      intro hstale
      have hcurrent := h.current dest
      have hcached := h.cached dest
      simp only [Stale] at hstale hcurrent
      generalize table.routingCache.find dest = answer at hstale hcurrent hcached
      match answer with
      | none => exact hstale
      | some none =>
        obtain ⟨_, hchanged, hvalid, hmatch⟩ := hstale
        obtain ⟨other, hother, rfl⟩ := mem_map.mp hchanged
        exact hcurrent ⟨other, hother, hbefore other hother hvalid hmatch, hmatch⟩
      | some (some ptr) =>
        obtain ⟨_, hchanged, hptr, hvalid, _, hchanged', hvalid', hmatch, hless⟩ := hstale
        obtain ⟨route, hroute, rfl⟩ := mem_map.mp hchanged
        obtain ⟨other, hother, rfl⟩ := mem_map.mp hchanged'
        obtain ⟨found, hfound, hptr', hmatch'⟩ := hcached ptr rfl
        obtain rfl := h.eq_of_ptr_eq hfound hroute (hptr'.trans hptr.symm)
        exact hcurrent ⟨found, hfound, hptr, hbefore found hfound hvalid hmatch', other, hother,
          hbefore other hother hvalid' hmatch, hmatch, hless⟩

theorem Consistent.step (h : table.Consistent) {event : Event}
    (hadmissible : table.Admissible event) (hstep : machine.Step table event table') :
    table'.Consistent := by
  obtain ⟨henabled, hhandle⟩ := hstep
  match event with
  | .addRoute entry => exact h.internalAddRoute henabled hhandle
  | .removeRoute entry | .deleteRoute entry =>
    obtain rfl := ok.inj hhandle
    exact h.internalRemoveRoute entry
  | .purge =>
    obtain rfl := ok.inj hhandle
    exact h.purge
  | .findBestMatchingRoute dest =>
    obtain ⟨answer, after, hfind, -, hafter⟩ := h.findBestMatchingRoute dest
    simp only [machine, handle, hfind] at hhandle
    obtain rfl := ok.inj hhandle
    exact hafter
  | .setDestination entry dest =>
    have hset : table.setDestination entry dest = .ok table' := hhandle
    exact h.setField_of_key (by decide) (fun _ ↦ rfl) hset
  | .setNetmask entry netmask =>
    have hset : table.setNetmask entry netmask = .ok table' := hhandle
    exact h.setField_of_key (by decide) (fun _ ↦ rfl) hset
  | .setMetric entry metric =>
    have hset : table.setMetric entry metric = .ok table' := hhandle
    exact h.setField_of_key (by decide) (fun _ ↦ rfl) hset
  | .setGateway entry gateway =>
    have hset : table.setGateway entry gateway = .ok table' := hhandle
    rcases setField_of_not_key (by decide) hset with rfl | rfl
    · exact h
    · exact h.write_of_rank_eq entry ⟨fun _ ↦ rfl, fun _ ↦ rfl, fun _ ↦ rfl⟩ (fun _ ↦ rfl)
        fun _ ↦ rfl
  | .setInterface entry interfacePtr =>
    have hset : table.setInterface entry interfacePtr = .ok table' := hhandle
    rcases setField_of_not_key (by decide) hset with rfl | rfl
    · exact h
    · exact h.write_of_rank_eq entry ⟨fun _ ↦ rfl, fun _ ↦ rfl, fun _ ↦ rfl⟩ (fun _ ↦ rfl)
        fun _ ↦ rfl
  | .setAdminDist entry adminDist => exact h.setAdminDist hadmissible hhandle
  | .revalidate isValid =>
    obtain rfl := ok.inj hhandle
    exact h.revalidate hadmissible

theorem consistent_of_run {useAdminDist : Bool} {events : List Event}
    (hrun : (machine.restrict Admissible).Run { useAdminDist } events table) :
    table.Consistent := by
  apply hrun.invariant _ (consistent_empty useAdminDist)
  intro s event t hs hstep
  have hboth := Machine.step_restrict_iff.mp hstep
  exact hs.step hboth.2 hboth.1

/-- After every run whose steps meet the side condition a lookup of any destination returns a best
one of the valid routes that match it, and null when there is none. -/
theorem longestPrefixMatch_of_run {useAdminDist : Bool} {events : List Event}
    (hrun : (machine.restrict Admissible).Run { useAdminDist } events table)
    (dest : Ipv4Address) :
    ∃ answer table', table.findBestMatchingRoute dest = .ok (answer, table') ∧
      table.IsBest dest answer := by
  obtain ⟨answer, table', hfind, hbest, -⟩ := (consistent_of_run hrun).findBestMatchingRoute dest
  exact ⟨answer, table', hfind, hbest⟩

/-- A route to 10.0.0.0 with a netmask. -/
def routeToTen (ptr : RoutePtr) (length adminDist : ℕ) : Ipv4Route where
  ptr := ptr
  dest := 10#8 ++ 0#24
  netmask := Ipv4Address.makeNetmask length
  gateway := 0#32
  interfacePtr := some 0
  adminDist := adminDist
  metric := 0

instance (table : Ipv4RoutingTable) (event : Event) :
    Decidable (machine.Enabled table event) :=
  inferInstanceAs (Decidable (table.Enabled event))

theorem longestPrefixMatch_of_run_expired :
    ∃ table, (machine.restrict Admissible).Run { useAdminDist := true }
        [.addRoute (routeToTen 1 8 110), .addRoute (routeToTen 2 16 120),
          .findBestMatchingRoute (10#8 ++ 1#24), .revalidate (· = 1),
          .setAdminDist 1 90] table ∧
      ∃ answer table', table.findBestMatchingRoute (10#8 ++ 1#24) = .ok (answer, table') ∧
        table.IsBest (10#8 ++ 1#24) answer := by
  obtain ⟨table, hrun, -⟩ : ∃ table, (machine.restrict Admissible).Run { useAdminDist := true }
      [.addRoute (routeToTen 1 8 110), .addRoute (routeToTen 2 16 120),
        .findBestMatchingRoute (10#8 ++ 1#24), .revalidate (· = 1), .setAdminDist 1 90] table ∧
      table.routes.length = 2 := Machine.exists_run_of_exec (by decide +kernel)
  exact ⟨table, hrun, longestPrefixMatch_of_run hrun _⟩

/-- The answer of the lookup that follows a run. -/
def answerOf (table : Ipv4RoutingTable) (dest : Ipv4Address) : Option (Option RoutePtr) :=
  (table.findBestMatchingRoute dest).toOption.map (·.1)

/-- The route that had the smaller administrative distance is still found when it has the greater
one, and no route is found after a lookup during which the only one was not valid. -/
theorem not_longestPrefixMatch :
    (∃ table, machine.Run { useAdminDist := true }
        [.addRoute (routeToTen 1 8 5), .addRoute (routeToTen 2 8 10), .setAdminDist 1 20] table ∧
      (∃ answer ∈ table.answerOf (10#8 ++ 1#24), ¬ table.IsBest (10#8 ++ 1#24) answer)) ∧
    ∃ table, machine.Run { useAdminDist := false }
        [.addRoute (routeToTen 1 8 5), .revalidate fun _ ↦ false,
          .findBestMatchingRoute (10#8 ++ 1#24), .revalidate fun _ ↦ true] table ∧
      (∃ answer ∈ table.answerOf (10#8 ++ 1#24), ¬ table.IsBest (10#8 ++ 1#24) answer) :=
  ⟨Machine.exists_run_of_exec (by decide +kernel), Machine.exists_run_of_exec (by decide +kernel)⟩

end Ipv4RoutingTable

end Inet4.Ipv4
