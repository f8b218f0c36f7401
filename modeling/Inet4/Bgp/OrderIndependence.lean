import Inet4.Bgp.Selection

/-!
# Agreeable announcements in any order

Entries come from announcements received so far, and every route of BGP belongs to an entry.  A best
announcement gets into both tables when it arrives, and nothing takes it out again.
-/

namespace Inet4.Bgp

open List BgpRoutingTableEntry
open Ipv4 (Ipv4Address Ipv4Route Ipv4RoutingTable RoutePtr)
open Ipv4.Ipv4RoutingTable (mem_addRoute mem_addRoute_self mem_of_mem_addRoute mem_deleteRoute)

variable {router : BgpRouter} {start tables tables' : Tables} {l received : List Announcement}
  {x y : Announcement}

theorem filter_eq_singleton {α : Type} {p : α → Bool} {as : List α} {a : α} (hnodup : as.Nodup)
    (ha : a ∈ as) (hp : p a = true) (hunique : ∀ b ∈ as, p b = true → b = a) :
    as.filter p = [a] := by
  apply perm_singleton.mp
  apply (perm_ext_iff_of_nodup (hnodup.filter p) (nodup_singleton a)).mpr
  intro b
  rw [mem_filter, mem_singleton]
  constructor
  · intro hb
    exact hunique b hb.1 hb.2
  · rintro rfl
    exact ⟨ha, hp⟩

theorem isInRoutingTable_eq_some {addr : Ipv4Address} {route : Ipv4Route}
    (h : tables.isInRoutingTable addr = some route) :
    route ∈ tables.rt.routes ∧ Covers route addr := by
  have hcovers := find?_some h
  exact ⟨mem_of_find?_eq_some h, of_decide_eq_true hcovers⟩

/-- A route covers its own destination. -/
theorem covers_dest_and (route : Ipv4Route) : Covers route (route.dest &&& route.netmask) := by
  constructor
  · unfold Ipv4Route.Matches Ipv4Address.maskedAddrAreEqual
    apply decide_eq_true
    apply BitVec.eq_of_getLsbD_eq
    intro i hi
    simp only [BitVec.getLsbD_and, BitVec.getLsbD_xor, BitVec.getLsbD_zero]
    cases route.dest.getLsbD i <;> cases route.netmask.getLsbD i <;> rfl
  · rintro ⟨hdefault, hne⟩
    have hzero := of_decide_eq_true hdefault
    rw [hzero.1, BitVec.zero_and] at hne
    exact hne rfl

theorem covers_zero {route : Ipv4Route} (h : route.netmask = 0#32) : Covers route 0#32 := by
  constructor
  · unfold Ipv4Route.Matches Ipv4Address.maskedAddrAreEqual
    rw [h, BitVec.and_zero]
    rfl
  · rintro ⟨-, hne⟩
    exact hne rfl

/-- What the tables hold after some announcements.  The entries of announcements are the objects
that were not there at the start. -/
structure Progress (router : BgpRouter) (start : Tables) (l received : List Announcement)
    (tables : Tables) : Prop where
  sound : Sound tables
  allocated_le : start.allocated ≤ tables.allocated
  oldEntries : ∀ e ∈ start.bgpRoutingTable, e ∈ tables.bgpRoutingTable
  oldRoutes : ∀ route ∈ start.rt.routes, route ∈ tables.rt.routes
  oldSources : ∀ ptr < start.allocated, tables.sourceType ptr = start.sourceType ptr
  newSources : ∀ ptr, start.allocated ≤ ptr → ptr < tables.allocated → tables.sourceType ptr = .BGP
  entries : ∀ e ∈ tables.bgpRoutingTable, e ∈ start.bgpRoutingTable ∨
    start.allocated ≤ e.ptr ∧ ∃ y ∈ received, e = router.announced y e.ptr
  routes : ∀ route ∈ tables.rt.routes, route ∈ start.rt.routes ∨
    ∃ e ∈ tables.bgpRoutingTable, start.allocated ≤ e.ptr ∧ route = e.toIpv4Route
  processed : ∀ y ∈ received, ∃ e ∈ tables.bgpRoutingTable, e.network = y.nlri.nlriPrefix
  best : ∀ y ∈ received, router.Selectable l y → ∀ e ∈ tables.bgpRoutingTable,
    e.network = y.nlri.nlriPrefix → router.BestEntry l e
  installed : ∀ e ∈ tables.bgpRoutingTable, start.allocated ≤ e.ptr → router.BestEntry l e →
    e.toIpv4Route ∈ tables.rt.routes

theorem Receivable.progress (hreceivable : Receivable router start l) :
    Progress router start l [] start where
  sound := hreceivable.sound
  allocated_le := le_rfl
  oldEntries := fun _ he ↦ he
  oldRoutes := fun _ hroute ↦ hroute
  oldSources := fun _ _ ↦ rfl
  newSources := fun _ hle hlt ↦ absurd hlt hle.not_gt
  entries := fun _ he ↦ .inl he
  routes := fun _ hroute ↦ .inl hroute
  processed := by
    intro y hy
    cases hy
  best := by
    intro y hy
    cases hy
  installed := fun e he hle ↦ absurd (hreceivable.sound.entry_lt e he) hle.not_gt

/-- A route that covers an announced address is one of BGP. -/
theorem Agreeable.entry_of_covers (hagreeable : Agreeable router start l)
    (hprogress : Progress router start l received tables) (hx : x ∈ l) {route : Ipv4Route}
    (hcover : tables.isInRoutingTable x.nlri.nlriPrefix = some route) :
    ∃ e ∈ tables.bgpRoutingTable, start.allocated ≤ e.ptr ∧ route = e.toIpv4Route ∧
      tables.allocate.sourceType route.ptr = .BGP := by
  have hfound := isInRoutingTable_eq_some hcover
  rcases hprogress.routes route hfound.1 with hold | ⟨e, he, hle, rfl⟩
  · exact absurd hfound.2 (hagreeable.notCovered x hx route hold)
  · refine ⟨e, he, hle, rfl, ?_⟩
    have hlt := hprogress.sound.entry_lt e he
    exact (Function.update_of_ne hlt.ne _ _).trans (hprogress.newSources e.ptr hle hlt)

section Agreeable

variable (hreceivable : Receivable router start l) (hagreeable : Agreeable router start l)

include hreceivable hagreeable

/-- No entry is there at the start for an announced address. -/
theorem Agreeable.network_ne (hx : x ∈ l) {e : BgpRoutingTableEntry}
    (he : e ∈ start.bgpRoutingTable) : e.network ≠ x.nlri.nlriPrefix := by
  intro hnetwork
  obtain ⟨route, hroute, hdest, hmask⟩ := hreceivable.advertised e he
  apply hagreeable.notCovered x hx route hroute
  rw [← hnetwork, network, hdest, hmask]
  exact covers_dest_and route

theorem Agreeable.addable (hx : x ∈ l) (ptr : RoutePtr) :
    Addable (router.announced x ptr).toIpv4Route where
  validNetmask := by
    have hle := (hreceivable.accepts x hx).length_le
    have hall : ∀ n : Fin 33, (Ipv4Address.makeNetmask n).isValidNetmask = true := by
      decide +kernel
    rw [announced_netmask]
    exact hall ⟨_, Nat.lt_succ_of_le hle⟩
  noHostBits := by
    rw [announced_dest, announced_netmask]
    exact hreceivable.noHostBits x hx
  nonzero := by
    rw [announced_dest, announced_netmask, and_eq_self_of_and_not (hreceivable.noHostBits x hx)]
    intro hmask hzero
    rw [hagreeable.nonzero x hx hzero] at hmask
    exact hmask rfl
  linked := hreceivable.linked x hx

/-- The entry with the address of an announcement is one for its prefix. -/
theorem Agreeable.exists_of_network (hprogress : Progress router start l received tables)
    (hsub : received ⊆ l) (hx : x ∈ l) {e : BgpRoutingTableEntry}
    (he : e ∈ tables.bgpRoutingTable) (hnetwork : e.network = x.nlri.nlriPrefix) :
    start.allocated ≤ e.ptr ∧ ∃ y ∈ received, y.nlri = x.nlri ∧ e = router.announced y e.ptr := by
  rcases hprogress.entries e he with hold | ⟨hle, y, hy, heq⟩
  · exact absurd hnetwork (hagreeable.network_ne hreceivable hx hold)
  · have hprefix : y.nlri.nlriPrefix = x.nlri.nlriPrefix := by
      rw [← hreceivable.network_announced (hsub hy) e.ptr, ← heq, hnetwork]
    have hlength := hagreeable.sameLength y (hsub hy) x hx hprefix
    exact ⟨hle, y, hy, BgpUpdateNlri.ext hlength hprefix, heq⟩

/-- A default route belongs to an entry for the network of the new one. -/
theorem Agreeable.entry_of_default (hprogress : Progress router start l received tables)
    (hx : x ∈ l) (hzero : (router.announced x tables.allocated).netmask = 0#32) :
    ∀ route ∈ tables.rt.routes, route.netmask = 0#32 → ∃ e ∈ tables.bgpRoutingTable,
      e.network = (router.announced x tables.allocated).network ∧ e.ptr = route.ptr := by
  intro route hroute hmask
  have hnetwork := hreceivable.network_announced hx tables.allocated
  have haddr : x.nlri.nlriPrefix = 0#32 := by
    rw [← hnetwork, network, hzero, BitVec.and_zero]
  rcases hprogress.routes route hroute with hold | ⟨e, he, hle, rfl⟩
  · have hcovers := covers_zero hmask
    rw [← haddr] at hcovers
    exact absurd hcovers (hagreeable.notCovered x hx route hold)
  · refine ⟨e, he, ?_, rfl⟩
    have hmask' : e.netmask = 0#32 := hmask
    rw [hnetwork, haddr, network, hmask', BitVec.and_zero]

end Agreeable

/-- The next hop of an announcement stays reachable. -/
theorem Receivable.isReachable (hreceivable : Receivable router start l)
    (hprogress : Progress router start l received tables) (hx : x ∈ l) (ptr : RoutePtr) :
    tables.allocate.isReachable (router.announced x ptr).gateway = true := by
  have hreachable := hreceivable.reachable x hx
  rw [announced_gateway]
  unfold Tables.isReachable at hreachable ⊢
  rw [decide_eq_true_eq] at hreachable ⊢
  apply hreachable.imp_right
  rintro ⟨route, hroute, hdefault, hsource, hmatch⟩
  have hlt := hreceivable.sound.route_lt route hroute
  refine ⟨route, hprogress.oldRoutes route hroute, hdefault, ?_, hmatch⟩
  have hupdate : tables.allocate.sourceType route.ptr = tables.sourceType route.ptr :=
    Function.update_of_ne (hlt.trans_le hprogress.allocated_le).ne _ _
  rw [hupdate, hprogress.oldSources route.ptr hlt]
  exact hsource

theorem Agreeable.source (hagreeable : Agreeable router start l)
    (hprogress : Progress router start l received tables) (hx : x ∈ l) : ∀ route,
    tables.isInRoutingTable (router.announced x tables.allocated).dest = some route →
      tables.allocate.sourceType route.ptr = .BGP := by
  intro route hcover
  rw [announced_dest] at hcover
  obtain ⟨e, he, hle, heq, hsource⟩ := hagreeable.entry_of_covers hprogress hx hcover
  exact hsource

section Step

variable (hreceivable : Receivable router start l) (hagreeable : Agreeable router start l)
  (hprogress : Progress router start l received tables) (hsub : received ⊆ l) (hx : x ∈ l)
  (h : Outcome tables (router.sessionType x) (router.announced x tables.allocated) tables')

include hreceivable hagreeable hprogress hsub hx h

/-- A best announcement takes the place of the others, and nothing takes the place of it. -/
theorem Agreeable.bestEntry (hy : y ∈ received ++ [x]) (hselectable : router.Selectable l y)
    {e : BgpRoutingTableEntry} (he : e ∈ tables'.bgpRoutingTable)
    (hnetwork : e.network = y.nlri.nlriPrefix) : router.BestEntry l e := by
  have hnew := hreceivable.network_announced hx tables.allocated
  have hsound' := h.sound (announced_ptr x _) hprogress.sound
  rcases h.mem_entries hprogress.sound he with rfl | ⟨hold, hbeats⟩
  · rcases mem_append.mp hy with hreceived | hlast
    · -- the entry that was there is a best one, and it would have stayed
      obtain ⟨e₀, he₀, hnetwork₀⟩ := hprogress.processed y hreceived
      have hsame : e₀.network = x.nlri.nlriPrefix := by rw [hnetwork₀, ← hnetwork, hnew]
      have hbest := hprogress.best y hreceived hselectable e₀ he₀ hnetwork₀
      obtain ⟨hle, z, hz, hnlri, heq⟩ :=
        hagreeable.exists_of_network hreceivable hprogress hsub hx he₀ hsame
      rw [heq, bestEntry_announced] at hbest
      have hstays : e₀ ∈ tables'.bgpRoutingTable := by
        apply h.mem_of_mem hprogress.sound he₀
        intro _
        rw [heq, announced_beats_iff]
        exact hagreeable.stays z (hsub hz) x hx hnlri.symm hbest
      have hequal := hsound'.eq_of_network_eq hstays he (hsame.trans hnew.symm)
      have hlt := hprogress.sound.entry_lt e₀ he₀
      rw [hequal, announced_ptr] at hlt
      exact absurd hlt (lt_irrefl _)
    · obtain rfl := mem_singleton.mp hlast
      exact (bestEntry_announced y _).mpr hselectable
  · rcases mem_append.mp hy with hreceived | hlast
    · exact hprogress.best y hreceived hselectable e hold hnetwork
    · obtain rfl := mem_singleton.mp hlast
      obtain ⟨hle, z, hz, hnlri, heq⟩ :=
        hagreeable.exists_of_network hreceivable hprogress hsub hx hold hnetwork
      have hnot := hbeats (hnetwork.trans hnew.symm)
      rw [heq, announced_beats_iff] at hnot
      rw [heq, bestEntry_announced]
      by_contra hother
      exact hnot (hagreeable.wins y hx z (hsub hz) hnlri hselectable hother)

/-- A best entry is in the IPv4 table. -/
theorem Agreeable.installed {e : BgpRoutingTableEntry} (he : e ∈ tables'.bgpRoutingTable)
    (hle : start.allocated ≤ e.ptr) (hbest : router.BestEntry l e) :
    e.toIpv4Route ∈ tables'.rt.routes := by
  have hptr : (router.announced x tables.allocated).ptr = tables.allocated := announced_ptr x _
  have hsource := hagreeable.source hprogress hx
  rcases h.mem_entries hprogress.sound he with rfl | ⟨hold, hbeats⟩
  · rcases h.mem_routes_of_mem hptr hprogress.sound hsource he with hroute | ⟨hnone, hreason⟩
    · exact hroute
    · rcases hreason with hunreachable | ⟨htype, route, hcover⟩
      · rw [hreceivable.isReachable hprogress hx] at hunreachable
        cases hunreachable
      · -- another prefix hides the new one
        rw [announced_dest] at hcover
        obtain ⟨e', he', hle', rfl, hsource'⟩ := hagreeable.entry_of_covers hprogress hx hcover
        have hcovers := (isInRoutingTable_eq_some hcover).2
        have hselectable := (bestEntry_announced x _).mp hbest
        rcases hprogress.entries e' he' with hstart | ⟨_, z, hz, heq⟩
        · exact absurd (hreceivable.sound.entry_lt e' hstart) hle'.not_gt
        · have hnetwork := hnone e' he'
          rw [heq, hreceivable.network_announced (hsub hz), hreceivable.network_announced hx]
            at hnetwork
          rw [heq, ← announced_setPtr z 0 e'.ptr] at hcovers
          exact absurd hcovers
            (hagreeable.notHidden x hx z (hsub hz) hselectable htype hnetwork)
  · apply h.mem_routes_of_stays hptr hprogress.sound hsource
      (hagreeable.entry_of_default hreceivable hprogress hx)
      (hprogress.installed e hold hle hbest)
    intro e' he' hsame
    rw [hprogress.sound.eq_of_ptr_eq he' hold hsame]
    exact he

theorem Agreeable.step : Progress router start l (received ++ [x]) tables' where
  sound := h.sound (announced_ptr x _) hprogress.sound
  allocated_le := hprogress.allocated_le.trans h.allocated_lt.le
  oldEntries := by
    intro e he
    apply h.mem_of_mem hprogress.sound (hprogress.oldEntries e he)
    intro hnetwork
    rw [hreceivable.network_announced hx] at hnetwork
    exact absurd hnetwork (hagreeable.network_ne hreceivable hx he)
  oldRoutes := by
    intro route hroute
    have hlt := hreceivable.sound.route_lt route hroute
    apply h.mem_routes_of_stays (announced_ptr x _) hprogress.sound
      (hagreeable.source hprogress hx) (hagreeable.entry_of_default hreceivable hprogress hx)
      (hprogress.oldRoutes route hroute)
    intro e he hsame
    rcases hprogress.entries e he with hold | ⟨hle, hy⟩
    · apply h.mem_of_mem hprogress.sound he
      intro hnetwork
      rw [hreceivable.network_announced hx] at hnetwork
      exact absurd hnetwork (hagreeable.network_ne hreceivable hx hold)
    · rw [hsame] at hle
      exact absurd hlt hle.not_gt
  oldSources := by
    intro ptr hlt
    rw [(h.allocate_of_source (hagreeable.source hprogress hx)).2, ← hprogress.oldSources ptr hlt]
    exact Function.update_of_ne (hlt.trans_le hprogress.allocated_le).ne _ _
  newSources := by
    intro ptr hle hlt
    have hallocate := h.allocate_of_source (hagreeable.source hprogress hx)
    rw [hallocate.1] at hlt
    rw [hallocate.2]
    rcases Nat.lt_succ_iff_lt_or_eq.mp hlt with hold | rfl
    · exact (Function.update_of_ne hold.ne _ _).trans (hprogress.newSources ptr hle hold)
    · exact Function.update_self _ _ _
  entries := by
    intro e he
    rcases h.mem_entries hprogress.sound he with rfl | ⟨hold, hbeats⟩
    · right
      refine ⟨?_, x, mem_append_right _ mem_cons_self, ?_⟩
      · rw [announced_ptr]
        exact hprogress.allocated_le
      · rw [announced_ptr]
    · apply (hprogress.entries e hold).imp_right
      rintro ⟨hle, y, hy, heq⟩
      exact ⟨hle, y, mem_append_left _ hy, heq⟩
  routes := by
    intro route hroute
    rcases h.of_mem_routes hprogress.sound (hagreeable.source hprogress hx) hroute with
      ⟨he, rfl⟩ | ⟨hold, hstays⟩
    · refine .inr ⟨_, he, ?_, rfl⟩
      rw [announced_ptr]
      exact hprogress.allocated_le
    · apply (hprogress.routes route hold).imp_right
      rintro ⟨e, he, hle, rfl⟩
      exact ⟨e, hstays e he rfl, hle, rfl⟩
  processed := by
    intro y hy
    obtain ⟨new, hnew, hnetwork⟩ := h.exists_entry (hagreeable.source hprogress hx)
    rw [hreceivable.network_announced hx] at hnetwork
    rcases mem_append.mp hy with hreceived | hlast
    · by_cases hprefix : y.nlri.nlriPrefix = x.nlri.nlriPrefix
      · exact ⟨new, hnew, hnetwork.trans hprefix.symm⟩
      · obtain ⟨e, he, hsame⟩ := hprogress.processed y hreceived
        refine ⟨e, h.mem_of_mem hprogress.sound he fun hnetwork' ↦ ?_, hsame⟩
        rw [hreceivable.network_announced hx, hsame] at hnetwork'
        exact absurd hnetwork' hprefix
    · obtain rfl := mem_singleton.mp hlast
      exact ⟨new, hnew, hnetwork⟩
  best := fun _ hy hselectable _ he hnetwork ↦
    hagreeable.bestEntry hreceivable hprogress hsub hx h hy hselectable he hnetwork
  installed := fun _ he hle hbest ↦
    hagreeable.installed hreceivable hprogress hsub hx h he hle hbest

/-- Only what is for the prefix and length of the announcement may go. -/
theorem Agreeable.keeps : tables.Keeps tables' x.nlri := by
  have hstays : ∀ e ∈ tables.bgpRoutingTable, ¬IsFor e.toIpv4Route x.nlri →
      e ∈ tables'.bgpRoutingTable := by
    intro e he hother
    apply h.mem_of_mem hprogress.sound he
    intro hnetwork
    rw [hreceivable.network_announced hx] at hnetwork
    obtain ⟨hle, z, hz, hnlri, heq⟩ :=
      hagreeable.exists_of_network hreceivable hprogress hsub hx he hnetwork
    rw [heq, ← hnlri] at hother
    exact absurd (isFor_announced z e.ptr) hother
  refine ⟨hstays, ?_⟩
  intro route hroute hother
  apply h.mem_routes_of_stays (announced_ptr x _) hprogress.sound (hagreeable.source hprogress hx)
    (hagreeable.entry_of_default hreceivable hprogress hx) hroute
  intro e he hsame
  apply hstays e he
  rcases hprogress.routes route hroute with hold | ⟨e', he', hle, rfl⟩
  · rcases hprogress.entries e he with hstart | ⟨hle, hy⟩
    · intro hfor
      apply hagreeable.network_ne hreceivable hx hstart
      rw [network, hfor.1, hfor.2]
      exact and_eq_self_of_and_not (hreceivable.noHostBits x hx)
    · rw [hsame] at hle
      exact absurd (hreceivable.sound.route_lt route hold) hle.not_gt
  · rw [hprogress.sound.eq_of_ptr_eq he he' hsame]
    exact hother

end Step

section Run

variable (hreceivable : Receivable router start l) (hagreeable : Agreeable router start l)

include hreceivable hagreeable

theorem Agreeable.exists_step (hprogress : Progress router start l received tables)
    (hsub : received ⊆ l) (hx : x ∈ l) :
    ∃ tables', router.receive tables x = .ok tables' ∧
      Progress router start l (received ++ [x]) tables' ∧ tables.Keeps tables' x.nlri := by
  have hsource := hagreeable.source hprogress hx
  rw [announced_dest] at hsource
  obtain ⟨tables', hreceive⟩ := exists_receive (hreceivable.accepts x hx)
    (hagreeable.addable hreceivable hx _) hsource hreceivable.ospf
  have houtcome := BgpRouter.outcome_of_receive (hreceivable.accepts x hx) hreceive
  exact ⟨tables', hreceive, hagreeable.step hreceivable hprogress hsub hx houtcome,
    hagreeable.keeps hreceivable hprogress hsub hx houtcome⟩

theorem Agreeable.run (hprogress : Progress router start l received tables)
    (hsub : received ⊆ l) {order : List Announcement} (horder : order ⊆ l) :
    ∃ tables', router.run tables order = .ok tables' ∧
      Progress router start l (received ++ order) tables' := by
  induction order generalizing received tables with
  | nil => exact ⟨tables, rfl, by rwa [append_nil]⟩
  | cons x order ih =>
    obtain ⟨hx, horder⟩ := cons_subset.mp horder
    obtain ⟨next, hreceive, hnext, -⟩ := hagreeable.exists_step hreceivable hprogress hsub hx
    have hsub' : received ++ [x] ⊆ l :=
      append_subset.mpr ⟨hsub, cons_subset.mpr ⟨hx, nil_subset l⟩⟩
    obtain ⟨tables', hrun, hfinal⟩ := ih hnext hsub' horder
    refine ⟨tables', ?_, ?_⟩
    · rw [run_cons, bind_of_ok hreceive]
      exact hrun
    · rwa [append_assoc, singleton_append] at hfinal

/-- When all are received, the best ones are selected. -/
theorem Agreeable.selects (hprogress : Progress router start l received tables)
    (hsub : received ⊆ l) (hall : l ⊆ received) (hx : x ∈ l) : tables.Selects router l x := by
  obtain ⟨e, he, hnetwork⟩ := hprogress.processed x (hall hx)
  obtain ⟨b, hbest, hnlri⟩ : ∃ b, router.IsBest l b ∧ b.nlri = x.nlri := exists_isBest hx
  have hbestEntry : router.BestEntry l e := by
    apply hprogress.best b (hall hbest.1) hbest.selectable e he
    rw [hnetwork, hnlri]
  obtain ⟨hle, y, hy, hsame, heq⟩ :=
    hagreeable.exists_of_network hreceivable hprogress hsub hx he hnetwork
  have hfor : IsFor e.toIpv4Route x.nlri := by
    rw [heq, ← hsame]
    exact isFor_announced y e.ptr
  have hunique : ∀ e' ∈ tables.bgpRoutingTable, IsFor e'.toIpv4Route x.nlri → e' = e := by
    intro e' he' hfor'
    apply hprogress.sound.eq_of_network_eq he' he
    rw [hnetwork, network, hfor'.1, hfor'.2]
    exact and_eq_self_of_and_not (hreceivable.noHostBits x hx)
  refine ⟨e, ?_, hbestEntry, ?_⟩
  · apply filter_eq_singleton (List.Nodup.of_map _ hprogress.sound.entries) he (decide_eq_true hfor)
    intro e' he' htest
    exact hunique e' he' (of_decide_eq_true htest)
  · apply filter_eq_singleton (List.Nodup.of_map _ hprogress.sound.ptrs)
      (hprogress.installed e he hle hbestEntry)
    · exact decide_eq_true
        ⟨hprogress.newSources e.ptr hle (hprogress.sound.entry_lt e he), hfor⟩
    · intro route hroute htest
      have hboth := of_decide_eq_true htest
      rcases hprogress.routes route hroute with hold | ⟨e', he', hle', rfl⟩
      · have hlt := hreceivable.sound.route_lt route hold
        rw [hprogress.oldSources route.ptr hlt] at hboth
        exact absurd hboth.1 (hreceivable.otherProtocols route hold)
      · rw [hunique e' he' hboth.2]

/-- Agreeable announcements may arrive in any order. -/
theorem Agreeable.selectsBest {order : List Announcement} (hperm : order.Perm l) :
    SelectsBest router start l order where
  selects := by
    obtain ⟨tables, hrun, hprogress⟩ :=
      hagreeable.run hreceivable hreceivable.progress (nil_subset l) hperm.subset
    refine ⟨tables, hrun, fun x hx ↦ ?_⟩
    exact hagreeable.selects hreceivable hprogress hperm.subset hperm.symm.subset hx
  keeps := by
    intro received x rest horder before hbefore after hafter
    have hsub : received ++ x :: rest ⊆ l := by
      rw [← horder]
      exact hperm.subset
    obtain ⟨hreceived, hrest⟩ := append_subset.mp hsub
    obtain ⟨tables, hrun, hprogress⟩ :=
      hagreeable.run hreceivable hreceivable.progress (nil_subset l) hreceived
    rw [hbefore] at hrun
    cases hrun
    obtain ⟨tables', hreceive, hnext, hkeeps⟩ := hagreeable.exists_step hreceivable hprogress
      hreceived (cons_subset.mp hrest).1
    rw [hafter] at hreceive
    cases hreceive
    exact hkeeps

end Run

end Inet4.Bgp
