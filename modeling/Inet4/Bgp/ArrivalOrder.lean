import Inet4.Bgp.OrderIndependence

/-!
# Selection and the order of arrival

Where a part of the condition fails, there is an order in which the best announcements for some
prefix come first and yet get no route or no entry.  None of the announcements that follow can
repair this.
-/

namespace Inet4.Bgp

open List
open Ipv4 (Ipv4Address Ipv4Route Ipv4RoutingTable RoutePtr)
open Ipv4.Ipv4RoutingTable (mem_addRoute_self mem_of_mem_addRoute and_ne_zero_of_addRoute)
open BgpRouter (outcome_of_receive newEntry Replaces)

variable {router : BgpRouter} {start tables tables' : Tables} {l order : List Announcement}
  {x y z : Announcement} {addr : Ipv4Address}

/-! ## Runs -/

/-- What every outcome keeps, a run keeps. -/
theorem run_induction {P : Tables → Prop} (haccepts : ∀ x ∈ order, router.Accepts x)
    (hstep : ∀ x ∈ order, ∀ tables tables', Sound tables → P tables →
      Outcome tables (router.sessionType x) (router.announced x tables.allocated) tables' →
      P tables')
    (hsound : Sound tables) (hP : P tables) (hrun : router.run tables order = .ok tables') :
    Sound tables' ∧ P tables' := by
  induction order generalizing tables with
  | nil =>
    cases hrun
    exact ⟨hsound, hP⟩
  | cons x order ih =>
    obtain ⟨next, hreceive, hrest⟩ := bind_eq_ok hrun
    have houtcome := outcome_of_receive (haccepts x mem_cons_self) hreceive
    apply ih _ _ _ _ hrest
    · exact fun y hy ↦ haccepts y (mem_cons_of_mem x hy)
    · exact fun y hy ↦ hstep y (mem_cons_of_mem x hy)
    · exact houtcome.sound (announced_ptr x _) hsound
    · exact hstep x mem_cons_self tables next hsound hP houtcome

/-- The best announcements for an address in front. -/
theorem exists_bests (router : BgpRouter) (l : List Announcement) (addr : Ipv4Address) :
    ∃ bests rest : List Announcement, (bests ++ rest).Perm l ∧
      (∀ z ∈ bests, z ∈ l ∧ z.nlri.nlriPrefix = addr ∧ router.Selectable l z) ∧
      ∀ z ∈ rest, z ∈ l ∧ (z.nlri.nlriPrefix = addr → ¬router.Selectable l z) := by
  classical
  refine ⟨l.filter fun z ↦ z.nlri.nlriPrefix = addr ∧ router.Selectable l z,
    l.filter fun z ↦ !decide (z.nlri.nlriPrefix = addr ∧ router.Selectable l z),
    filter_append_perm _ l, ?_, ?_⟩
  · intro z hz
    have hmem := mem_filter.mp hz
    exact ⟨hmem.1, of_decide_eq_true hmem.2⟩
  · intro z hz
    have hmem := mem_filter.mp hz
    refine ⟨hmem.1, fun haddr hselectable ↦ ?_⟩
    have hnot := hmem.2
    rw [decide_eq_true ⟨haddr, hselectable⟩] at hnot
    cases hnot

theorem exists_perm_cons {α : Type} {a : α} {as : List α} (h : a ∈ as) :
    ∃ rest, as.Perm (a :: rest) := by
  obtain ⟨front, back, rfl⟩ := append_of_mem h
  exact ⟨front ++ back, perm_middle⟩

/-- The best announcements for an address in front of all but one other announcement. -/
theorem exists_bests_of_not_selectable (hy : y ∈ l)
    (hother : y.nlri.nlriPrefix = addr → ¬router.Selectable l y) :
    ∃ bests rest : List Announcement, (y :: (bests ++ rest)).Perm l ∧
      (∀ z ∈ bests, z ∈ l ∧ z.nlri.nlriPrefix = addr ∧ router.Selectable l z) ∧
      ∀ z ∈ rest, z ∈ l ∧ (z.nlri.nlriPrefix = addr → ¬router.Selectable l z) := by
  obtain ⟨bests, rest, hperm, hbests, hrest⟩ := exists_bests router l addr
  have hmem : y ∈ rest := by
    rcases mem_append.mp (hperm.mem_iff.mpr hy) with hbest | hmem
    · exact absurd (hbests y hbest).2.2 (hother (hbests y hbest).2.1)
    · exact hmem
  obtain ⟨rest', hperm'⟩ := exists_perm_cons hmem
  refine ⟨bests, rest', ?_, hbests, fun z hz ↦ hrest z ?_⟩
  · exact (perm_middle.symm.trans (hperm'.symm.append_left bests)).trans hperm
  · exact hperm'.mem_iff.mpr (mem_cons_of_mem y hz)

/-! ## Failure that lasts -/

/-- No entry for an address is a best one with a route. -/
def Unselected (router : BgpRouter) (l : List Announcement) (addr : Ipv4Address) (tables : Tables) :
    Prop :=
  ∀ e ∈ tables.bgpRoutingTable, e.network = addr →
    ¬router.BestEntry l e ∨ ∀ route ∈ tables.rt.routes, route.ptr ≠ e.ptr

/-- An entry is not a best one with a route, and no best announcement replaces it. -/
def Stuck (router : BgpRouter) (l : List Announcement) (addr : Ipv4Address) (tables : Tables) :
    Prop :=
  ∃ e ∈ tables.bgpRoutingTable, e.network = addr ∧
    (¬router.BestEntry l e ∨ ∀ route ∈ tables.rt.routes, route.ptr ≠ e.ptr) ∧
    ∀ z ∈ l, z.nlri.nlriPrefix = addr → router.Selectable l z →
      ∀ ptr, ¬(router.announced z ptr).Beats e

theorem Stuck.unselected (hsound : Sound tables) (h : Stuck router l addr tables) :
    Unselected router l addr tables := by
  obtain ⟨e, he, hnetwork, hfails, -⟩ := h
  intro e' he' hnetwork'
  rw [hsound.eq_of_network_eq he' he (hnetwork'.trans hnetwork.symm)]
  exact hfails

/-- A route of an old entry does not come back. -/
theorem Outcome.route_ne {entry e : BgpRoutingTableEntry} {type : BgpSessionType}
    (h : Outcome tables type entry tables') (hptr : entry.ptr = tables.allocated)
    (hsound : Sound tables) (he : e ∈ tables.bgpRoutingTable)
    (hne : ∀ route ∈ tables.rt.routes, route.ptr ≠ e.ptr) :
    ∀ route ∈ tables'.rt.routes, route.ptr ≠ e.ptr := by
  intro route hroute
  rcases h.mem_routes hptr hroute with hold | ⟨hnew, -⟩
  · exact hne route hold
  · exact ((hsound.entry_lt e he).trans_le hnew).ne'

/-- A best announcement does not help. -/
theorem Stuck.step (hstuck : Stuck router l addr tables) (hsound : Sound tables) (hx : x ∈ l)
    (haddr : x.nlri.nlriPrefix = addr) (hselectable : router.Selectable l x)
    (h : Outcome tables (router.sessionType x) (router.announced x tables.allocated) tables') :
    Stuck router l addr tables' := by
  obtain ⟨e, he, hnetwork, hfails, hstays⟩ := hstuck
  refine ⟨e, ?_, hnetwork, ?_, hstays⟩
  · exact h.mem_of_mem hsound he fun _ ↦ hstays x hx haddr hselectable _
  · exact hfails.imp_right (h.route_ne (announced_ptr x _) hsound he)

theorem Tables.Selects.exists_entry (h : tables.Selects router l x) :
    ∃ e ∈ tables.bgpRoutingTable, IsFor e.toIpv4Route x.nlri ∧ router.BestEntry l e := by
  obtain ⟨e, hentries, hbest, -⟩ := h
  have he : e ∈ tables.entriesFor x.nlri := by
    rw [hentries]
    exact mem_cons_self
  have hmem := mem_filter.mp he
  exact ⟨e, hmem.1, of_decide_eq_true hmem.2, hbest⟩

section Receivable

variable (hreceivable : Receivable router start l)

include hreceivable

/-- An announcement that is not a best one leaves the address unselected. -/
theorem Unselected.step (hunselected : Unselected router l addr tables) (hsound : Sound tables)
    (hx : x ∈ l) (hother : x.nlri.nlriPrefix = addr → ¬router.Selectable l x)
    (h : Outcome tables (router.sessionType x) (router.announced x tables.allocated) tables') :
    Unselected router l addr tables' := by
  intro e he hnetwork
  rcases h.mem_entries hsound he with rfl | ⟨hold, -⟩
  · rw [hreceivable.network_announced hx] at hnetwork
    rw [bestEntry_announced]
    exact .inl (hother hnetwork)
  · exact (hunselected e hold hnetwork).imp_right (h.route_ne (announced_ptr x _) hsound hold)

theorem Receivable.network_of_isFor (hx : x ∈ l) {e : BgpRoutingTableEntry}
    (hfor : IsFor e.toIpv4Route x.nlri) : e.network = x.nlri.nlriPrefix := by
  rw [BgpRoutingTableEntry.network, hfor.1, hfor.2]
  exact and_eq_self_of_and_not (hreceivable.noHostBits x hx)

theorem Receivable.stuck_run {bests : List Announcement}
    (hbests : ∀ z ∈ bests, z ∈ l ∧ z.nlri.nlriPrefix = addr ∧ router.Selectable l z)
    (hsound : Sound tables) (hstuck : Stuck router l addr tables)
    (hrun : router.run tables bests = .ok tables') : Stuck router l addr tables' := by
  apply And.right
  apply run_induction (fun z hz ↦ hreceivable.accepts z (hbests z hz).1) _ hsound hstuck hrun
  intro z hz t t' hsound hP houtcome
  obtain ⟨hmem, hprefix, hselectable⟩ := hbests z hz
  exact hP.step hsound hmem hprefix hselectable houtcome

theorem Unselected.not_selects (hx : x ∈ l)
    (h : Unselected router l x.nlri.nlriPrefix tables) : ¬tables.Selects router l x := by
  rintro ⟨e, hentries, hbest, hroutes⟩
  have he : e ∈ tables.entriesFor x.nlri := by
    rw [hentries]
    exact mem_cons_self
  have hroute : e.toIpv4Route ∈ tables.bgpRoutesFor x.nlri := by
    rw [hroutes]
    exact mem_cons_self
  have hmem := mem_filter.mp he
  have hnetwork := hreceivable.network_of_isFor hx (of_decide_eq_true hmem.2)
  rcases h e hmem.1 hnetwork with hnot | hne
  · exact hnot hbest
  · exact hne _ (mem_filter.mp hroute).1 rfl

/-! ## Orders of arrival -/

section Necessity

variable (hreceivable : Receivable router start l)
  (hall : ∀ order, order.Perm l → SelectsBest router start l order)

include hreceivable hall

theorem Receivable.run_eq_ok (hperm : order.Perm l) : ∃ tables,
    router.run start order = .ok tables ∧ Sound tables ∧ ∀ x ∈ l, tables.Selects router l x := by
  obtain ⟨tables, hrun, hselects⟩ := (hall order hperm).selects
  have hsound := run_induction (P := fun _ ↦ True)
    (fun x hx ↦ hreceivable.accepts x (hperm.subset hx)) (fun _ _ _ _ _ _ _ ↦ trivial)
    hreceivable.sound trivial hrun
  exact ⟨tables, hrun, hsound.1, hselects⟩

/-- After a part of the announcements that holds all best ones for an address, one of these is
selected. -/
theorem Receivable.not_unselected {head rest : List Announcement} (hperm : (head ++ rest).Perm l)
    (hx : x ∈ l) (hrest : ∀ z ∈ rest, z.nlri.nlriPrefix = x.nlri.nlriPrefix →
      ¬router.Selectable l z) :
    ∃ tables, router.run start head = .ok tables ∧ Sound tables ∧
      ¬Unselected router l x.nlri.nlriPrefix tables := by
  obtain ⟨final, hrun, -, hselects⟩ := hreceivable.run_eq_ok hall hperm
  rw [run_append] at hrun
  obtain ⟨tables, hhead, htail⟩ := bind_eq_ok hrun
  have hsub := append_subset.mp hperm.subset
  have hsound := run_induction (P := fun _ ↦ True)
    (fun x hx ↦ hreceivable.accepts x (hsub.1 hx)) (fun _ _ _ _ _ _ _ ↦ trivial)
    hreceivable.sound trivial hhead
  refine ⟨tables, hhead, hsound.1, fun hunselected ↦ ?_⟩
  have hfinal := run_induction (P := Unselected router l x.nlri.nlriPrefix)
    (fun x hx ↦ hreceivable.accepts x (hsub.2 hx))
    (fun z hz t t' hsound hP houtcome ↦
      Unselected.step hreceivable hP hsound (hsub.2 hz) (hrest z hz) houtcome)
    hsound.1 hunselected htail
  exact hfinal.2.not_selects hreceivable hx (hselects x hx)

theorem Receivable.sameLength (hx : x ∈ l) (hy : y ∈ l)
    (hnlriPrefix : x.nlri.nlriPrefix = y.nlri.nlriPrefix) : x.nlri.length = y.nlri.length := by
  obtain ⟨tables, hrun, hsound, hselects⟩ := hreceivable.run_eq_ok hall (List.Perm.refl l)
  obtain ⟨e, he, hfor, -⟩ := (hselects x hx).exists_entry
  obtain ⟨e', he', hfor', -⟩ := (hselects y hy).exists_entry
  have hnetwork := hreceivable.network_of_isFor hx hfor
  have hnetwork' := hreceivable.network_of_isFor hy hfor'
  have hsame := hsound.eq_of_network_eq he he' (by rw [hnetwork, hnetwork', hnlriPrefix])
  rw [hsame] at hfor
  have hlength := makeNetmask_inj (hreceivable.accepts x hx).length_le
    (hreceivable.accepts y hy).length_le (hfor.2.symm.trans hfor'.2)
  exact BitVec.eq_of_toNat_eq hlength

/-- An entry that is there at the start is for another address. -/
theorem Receivable.network_ne (hx : x ∈ l) {e : BgpRoutingTableEntry}
    (he : e ∈ start.bgpRoutingTable) : e.network ≠ x.nlri.nlriPrefix := by
  intro hnetwork
  have hother : ∀ z ∈ l, ¬IsFor e.toIpv4Route z.nlri := by
    intro z hz hfor
    obtain ⟨route, hroute, hdest, hmask⟩ := hreceivable.advertised e he
    exact hreceivable.notProvided z hz route hroute
      ⟨hdest.symm.trans hfor.1, hmask.symm.trans hfor.2⟩
  have hstays : ∀ received rest, l = received ++ rest → ∀ tables,
      router.run start received = .ok tables → e ∈ tables.bgpRoutingTable := by
    intro received
    induction received using reverseRecOn with
    | nil =>
      intro rest hl tables hrun
      cases hrun
      exact he
    | append_singleton received z ih =>
      intro rest hl tables hrun
      rw [append_assoc, singleton_append] at hl
      rw [run_append] at hrun
      obtain ⟨before, hbefore, hlast⟩ := bind_eq_ok hrun
      obtain ⟨after, hafter, rfl⟩ := bind_pure_eq_ok hlast
      have hkeeps := (hall l (List.Perm.refl l)).keeps received z rest hl before hbefore _ hafter
      apply hkeeps.entries e (ih _ hl before hbefore)
      apply hother z
      rw [hl]
      exact mem_append_right _ mem_cons_self
  obtain ⟨tables, hrun, hsound, hselects⟩ := hreceivable.run_eq_ok hall (List.Perm.refl l)
  obtain ⟨e', he', hfor, -⟩ := (hselects x hx).exists_entry
  have hold := hstays l [] (append_nil l).symm tables hrun
  have hsame := hsound.eq_of_network_eq hold he'
    (hnetwork.trans (hreceivable.network_of_isFor hx hfor).symm)
  rw [← hsame] at hfor
  exact hother x hx hfor

/-- The first announcement of all gets into both tables. -/
theorem Receivable.installed_first (hx : x ∈ l)
    (hcover : ∀ route ∈ start.rt.routes, ¬Covers route x.nlri.nlriPrefix)
    (h : Outcome start (router.sessionType x) (router.announced x start.allocated) tables') :
    ∃ rt, start.rt.addRoute (router.announced x start.allocated).toIpv4Route = .ok rt ∧
      tables' = { start.allocate with
        bgpRoutingTable := start.bgpRoutingTable ++ [router.announced x start.allocated]
        rt := rt } := by
  have hnone : ∀ route,
      start.isInRoutingTable (router.announced x start.allocated).dest ≠ some route := by
    intro route hroute
    rw [announced_dest] at hroute
    have hfound := isInRoutingTable_eq_some hroute
    exact hcover route hfound.1 hfound.2
  have hfresh : ∀ oldEntry,
      isInTable start.bgpRoutingTable (router.announced x start.allocated) ≠ some oldEntry := by
    intro oldEntry hfind
    have hfound := isInTable_eq_some hfind
    rw [hreceivable.network_announced hx] at hfound
    exact hreceivable.network_ne hall hx hfound.1 hfound.2
  cases h with
  | kept oldEntry hfind hbeats | replaced oldEntry rt hfind hbeats hadd =>
    exact absurd hfind (hfresh oldEntry)
  | dropped route hfind hroute hsource htype
  | adopted route bgpEntry rt hfind hroute hsource htype hptr hadd =>
    exact absurd hroute (hnone route)
  | stored hfind hreason =>
    rcases hreason with hunreachable | ⟨htype, route, hroute, hsource⟩
    · rw [hreceivable.isReachable hreceivable.progress hx] at hunreachable
      cases hunreachable
    · exact absurd hroute (hnone route)
  | installed rt hfind hsource hadd => exact ⟨rt, hadd, rfl⟩

/-- All announcements that may be selected for a prefix are compared alike. -/
theorem Receivable.replaces_iff (hx : x ∈ l) (hz : z ∈ l)
    (hnlriPrefix : z.nlri.nlriPrefix = x.nlri.nlriPrefix) (hselectable : router.Selectable l z)
    (hselectable' : router.Selectable l x) :
    (router.Replaces z y ↔ router.Replaces x y) ∧ (router.Replaces y z ↔ router.Replaces y x) := by
  have hnlri : z.nlri = x.nlri :=
    BgpUpdateNlri.ext (hreceivable.sameLength hall hz hx hnlriPrefix) hnlriPrefix
  obtain ⟨b, hbest, heq⟩ := hselectable
  obtain ⟨b', hbest', heq'⟩ := hselectable'
  rw [announced_ptr] at heq heq'
  have hb : z.nlri = b.nlri := by
    apply hreceivable.nlri_eq_of_isFor hbest.1 hz
    rw [heq]
    exact isFor_announced b 0
  have hb' : x.nlri = b'.nlri := by
    apply hreceivable.nlri_eq_of_isFor hbest'.1 hx
    rw [heq']
    exact isFor_announced b' 0
  have hrank := hbest.rank_eq hbest' (hb.symm.trans (hnlri.trans hb'))
  unfold Replaces
  rw [heq, heq']
  exact ⟨replaces_congr hrank rfl, replaces_congr rfl hrank⟩

/-- A best announcement without a route stays without it. -/
theorem Receivable.stuck_of_route_ne (hx : x ∈ l) (hselectable : router.Selectable l x)
    {ptr : RoutePtr} (he : router.announced x ptr ∈ tables.bgpRoutingTable)
    (hne : ∀ route ∈ tables.rt.routes, route.ptr ≠ ptr) :
    Stuck router l x.nlri.nlriPrefix tables := by
  refine ⟨_, he, hreceivable.network_announced hx ptr, .inr ?_, ?_⟩
  · rw [announced_ptr]
    exact hne
  · intro z hz hprefix hselectable' ptr'
    rw [announced_beats_iff,
      (hreceivable.replaces_iff hall hx hz hprefix hselectable' hselectable).1]
    exact not_replaces_self x

/-- The tables are as at the start but for objects that are in no table. -/
structure Untouched (start tables : Tables) : Prop where
  bgpRoutingTable : tables.bgpRoutingTable = start.bgpRoutingTable
  rt : tables.rt = start.rt
  allocated_le : start.allocated ≤ tables.allocated
  sources : ∀ ptr < start.allocated, tables.sourceType ptr = start.sourceType ptr

/-- Best announcements that another protocol covers. -/
theorem Receivable.step_of_covered (hx : x ∈ l) (hselectable : router.Selectable l x)
    {route : Ipv4Route} (hroute : route ∈ start.rt.routes)
    (hcovers : Covers route x.nlri.nlriPrefix) (huntouched : Untouched start tables)
    (h : Outcome tables (router.sessionType x) (router.announced x tables.allocated) tables') :
    Untouched start tables' ∨ Stuck router l x.nlri.nlriPrefix tables' := by
  have hptr : ∀ route ∈ start.rt.routes, route.ptr < tables.allocated := fun route hroute ↦
    (hreceivable.sound.route_lt route hroute).trans_le huntouched.allocated_le
  have hfresh : ∀ oldEntry,
      isInTable tables.bgpRoutingTable (router.announced x tables.allocated) ≠ some oldEntry := by
    intro oldEntry hfind
    have hfound := isInTable_eq_some hfind
    rw [huntouched.bgpRoutingTable, hreceivable.network_announced hx] at hfound
    exact hreceivable.network_ne hall hx hfound.1 hfound.2
  have hsource : ∃ route, tables.isInRoutingTable (router.announced x tables.allocated).dest =
      some route ∧ tables.allocate.sourceType route.ptr ≠ .BGP := by
    rw [announced_dest]
    cases hfind : tables.isInRoutingTable x.nlri.nlriPrefix with
    | none =>
      have hnone := find?_eq_none.mp hfind route (by rwa [huntouched.rt])
      exact absurd (decide_eq_true hcovers) hnone
    | some found =>
      have hfound := (isInRoutingTable_eq_some hfind).1
      rw [huntouched.rt] at hfound
      have hold : tables.allocate.sourceType found.ptr = tables.sourceType found.ptr :=
        Function.update_of_ne (hptr found hfound).ne _ _
      refine ⟨found, rfl, ?_⟩
      rw [hold, huntouched.sources _ (hreceivable.sound.route_lt found hfound)]
      exact hreceivable.otherProtocols found hfound
  obtain ⟨found, hfind, hother⟩ := hsource
  cases h with
  | kept oldEntry hfind' hbeats | replaced oldEntry rt hfind' hbeats hadd =>
    exact absurd hfind' (hfresh oldEntry)
  | dropped route' hnone hcover hsource htype =>
    left
    refine ⟨huntouched.bgpRoutingTable, huntouched.rt, Nat.le_succ_of_le huntouched.allocated_le,
      ?_⟩
    intro ptr hlt
    rw [← huntouched.sources ptr hlt]
    exact Function.update_of_ne (hlt.trans_le huntouched.allocated_le).ne _ _
  | adopted route' bgpEntry rt hnone hcover hsource htype hbgp hadd =>
    right
    apply hreceivable.stuck_of_route_ne hall hx hselectable
      (mem_append_right _ mem_cons_self)
    intro other hmem
    rcases mem_of_mem_addRoute hadd hmem with rfl | hold
    · exact hbgp.trans_ne (Nat.succ_ne_self _)
    · rw [huntouched.rt] at hold
      exact (hptr other hold).ne
  | stored hnone hreason =>
    right
    apply hreceivable.stuck_of_route_ne hall hx hselectable
      (mem_append_right _ mem_cons_self)
    intro other hmem
    have hold : other ∈ tables.rt.routes := hmem
    rw [huntouched.rt] at hold
    exact (hptr other hold).ne
  | installed rt hnone hsource hadd => exact absurd (hsource found hfind).2 hother

theorem Receivable.notCovered (hx : x ∈ l) {route : Ipv4Route} (hroute : route ∈ start.rt.routes) :
    ¬Covers route x.nlri.nlriPrefix := by
  intro hcovers
  obtain ⟨bests, rest, hperm, hbests, hrest⟩ := exists_bests router l x.nlri.nlriPrefix
  obtain ⟨tables, hrun, hsound, hselected⟩ :=
    hreceivable.not_unselected hall hperm hx fun z hz ↦ (hrest z hz).2
  apply hselected
  have hstep := run_induction
    (P := fun t ↦ Untouched start t ∨ Stuck router l x.nlri.nlriPrefix t)
    (fun z hz ↦ hreceivable.accepts z (hbests z hz).1)
    (fun z hz t t' hsound hP houtcome ↦ by
      obtain ⟨hmem, hprefix, hselectable⟩ := hbests z hz
      rcases hP with huntouched | hstuck
      · rw [← hprefix] at hcovers ⊢
        exact hreceivable.step_of_covered hall hmem hselectable hroute hcovers huntouched houtcome
      · exact .inr (hstuck.step hsound hmem hprefix hselectable houtcome))
    hreceivable.sound (.inl ⟨rfl, rfl, le_rfl, fun _ _ ↦ rfl⟩) hrun
  rcases hstep.2 with huntouched | hstuck
  · intro e he hnetwork
    rw [huntouched.bgpRoutingTable] at he
    exact absurd hnetwork (hreceivable.network_ne hall hx he)
  · exact hstuck.unselected hsound

/-- An announcement that is alone is added to the table. -/
theorem Receivable.nonzero (hx : x ∈ l) (hzero : x.nlri.nlriPrefix = 0#32) :
    x.nlri.length = 0#8 := by
  obtain ⟨rest, hperm⟩ := exists_perm_cons hx
  obtain ⟨tables, hrun, -⟩ := hreceivable.run_eq_ok hall hperm.symm
  obtain ⟨next, hreceive, -⟩ := bind_eq_ok hrun
  have houtcome := outcome_of_receive (hreceivable.accepts x hx) hreceive
  obtain ⟨rt, hadd, -⟩ := hreceivable.installed_first hall hx
    (fun route hroute ↦ hreceivable.notCovered hall hx hroute) houtcome
  by_contra hlength
  have hmask : (router.announced x start.allocated).netmask ≠ 0#32 := by
    rw [announced_netmask]
    intro hnetmask
    have hlength' := makeNetmask_inj (hreceivable.accepts x hx).length_le (Nat.zero_le 32) hnetmask
    exact hlength (BitVec.eq_of_toNat_eq hlength')
  apply and_ne_zero_of_addRoute hadd hmask
  rw [announced_dest, hzero, BitVec.zero_and]

theorem Receivable.stuck_of_hidden {first second : Tables} (hx : x ∈ l) (hy : y ∈ l)
    (hselectable : router.Selectable l x) (htype : router.sessionType x = .IGP)
    (hne : y.nlri.nlriPrefix ≠ x.nlri.nlriPrefix)
    (hcovers : Covers (router.announced y 0).toIpv4Route x.nlri.nlriPrefix)
    (hfirst : Outcome start (router.sessionType y) (router.announced y start.allocated) first)
    (hsecond : Outcome first (router.sessionType x) (router.announced x first.allocated) second) :
    Stuck router l x.nlri.nlriPrefix second := by
  obtain ⟨rt, hadd, rfl⟩ := hreceivable.installed_first hall hy
    (fun route hroute ↦ hreceivable.notCovered hall hy hroute) hfirst
  generalize hfirst' : ({ start.allocate with
    bgpRoutingTable := start.bgpRoutingTable ++ [router.announced y start.allocated]
    rt := rt } : Tables) = first at hsecond
  have hallocated : first.allocated = start.allocated + 1 := by rw [← hfirst']; rfl
  have hroutes : ∀ route ∈ first.rt.routes,
      route = (router.announced y start.allocated).toIpv4Route ∨ route ∈ start.rt.routes := by
    rw [← hfirst']
    exact fun route ↦ mem_of_mem_addRoute hadd
  have hptr : ∀ route ∈ first.rt.routes, route.ptr < first.allocated := by
    intro route hroute
    rw [hallocated]
    rcases hroutes route hroute with rfl | hold
    · exact (announced_ptr y _).trans_lt (Nat.lt_succ_self _)
    · exact Nat.lt_succ_of_lt (hreceivable.sound.route_lt route hold)
  have hfresh : ∀ oldEntry,
      isInTable first.bgpRoutingTable (router.announced x first.allocated) ≠ some oldEntry := by
    intro oldEntry hfind
    have hfound := isInTable_eq_some hfind
    rw [hreceivable.network_announced hx, ← hfirst'] at hfound
    rcases mem_append.mp hfound.1 with hold | hnew
    · exact hreceivable.network_ne hall hx hold hfound.2
    · rw [mem_singleton.mp hnew, hreceivable.network_announced hy] at hfound
      exact hne hfound.2
  obtain ⟨found, hfind, hsource⟩ : ∃ route,
      first.isInRoutingTable (router.announced x first.allocated).dest = some route ∧
        first.allocate.sourceType route.ptr = .BGP := by
    rw [announced_dest]
    cases hfind : first.isInRoutingTable x.nlri.nlriPrefix with
    | none =>
      have hmem : (router.announced y start.allocated).toIpv4Route ∈ first.rt.routes := by
        rw [← hfirst']
        exact mem_addRoute_self hadd
      have hcovers' : Covers (router.announced y start.allocated).toIpv4Route
          x.nlri.nlriPrefix := by
        rw [← announced_setPtr y start.allocated 0] at hcovers
        exact hcovers
      exact absurd (decide_eq_true hcovers') (find?_eq_none.mp hfind _ hmem)
    | some found =>
      have hfound := isInRoutingTable_eq_some hfind
      rcases hroutes found hfound.1 with rfl | hold
      · refine ⟨_, rfl, ?_⟩
        have hold : first.allocate.sourceType start.allocated = first.sourceType start.allocated :=
          Function.update_of_ne (hallocated ▸ (Nat.lt_succ_self _).ne) _ _
        have hnew : first.sourceType start.allocated = .BGP := by
          rw [← hfirst']
          exact Function.update_self _ _ _
        exact (congrArg _ (announced_ptr y _)).trans (hold.trans hnew)
      · exact absurd hfound.2 (hreceivable.notCovered hall hx hold)
  cases hsecond with
  | kept oldEntry hfind' hbeats | replaced oldEntry rt hfind' hbeats hadd =>
    exact absurd hfind' (hfresh oldEntry)
  | dropped route hnone hcover hother htype'
  | adopted route bgpEntry rt hnone hcover hother htype' hbgp hadd =>
    rw [hfind] at hcover
    cases hcover
    exact absurd hsource hother
  | stored hnone hreason =>
    apply hreceivable.stuck_of_route_ne hall hx hselectable
      (mem_append_right _ mem_cons_self)
    exact fun route hroute ↦ (hptr route hroute).ne
  | installed rt hnone hboth hadd =>
    have hexternal := (hboth found hfind).1
    rw [htype] at hexternal
    cases hexternal

/-- A best entry that is replaced after all best ones are in. -/
theorem Receivable.stays (hx : x ∈ l) (hy : y ∈ l) (hnlri : y.nlri = x.nlri)
    (hselectable : router.Selectable l x) : ¬router.Replaces y x := by
  intro hreplaces
  have hprefix : y.nlri.nlriPrefix = x.nlri.nlriPrefix := by rw [hnlri]
  have hother : ¬router.Selectable l y := by
    intro hselectable'
    rw [(hreceivable.replaces_iff hall hx hy hprefix hselectable' hselectable).1] at hreplaces
    exact not_replaces_self x hreplaces
  obtain ⟨bests, rest, hperm, hbests, hrest⟩ :=
    exists_bests_of_not_selectable hy fun _ : y.nlri.nlriPrefix = x.nlri.nlriPrefix ↦ hother
  have horder : (bests ++ [y] ++ rest).Perm l := by
    rw [append_assoc, singleton_append]
    exact perm_middle.trans hperm
  obtain ⟨tables, hrun, hsound, hselected⟩ :=
    hreceivable.not_unselected hall horder hx fun z hz ↦ (hrest z hz).2
  rw [run_append] at hrun
  obtain ⟨before, hbefore, hlast⟩ := bind_eq_ok hrun
  obtain ⟨after, hafter, rfl⟩ := bind_pure_eq_ok hlast
  have hsound' := run_induction (P := fun _ ↦ True)
    (fun z hz ↦ hreceivable.accepts z (hbests z hz).1) (fun _ _ _ _ _ _ _ ↦ trivial)
    hreceivable.sound trivial hbefore
  have houtcome := outcome_of_receive (hreceivable.accepts y hy) hafter
  apply hselected
  intro e he hnetwork
  left
  rcases houtcome.mem_entries hsound'.1 he with rfl | ⟨hold, hbeats⟩
  · rwa [bestEntry_announced]
  · rintro ⟨b, hbest, heq⟩
    have hb : b.nlri.nlriPrefix = x.nlri.nlriPrefix := by
      rw [← hreceivable.network_announced hbest.1 e.ptr, ← heq, hnetwork]
    have hnot := hbeats (by rw [hnetwork, hreceivable.network_announced hy, hprefix])
    rw [heq, announced_beats_iff,
      (hreceivable.replaces_iff hall hx hbest.1 hb hbest.selectable hselectable).2] at hnot
    exact hnot hreplaces

/-- An entry that comes first and is not replaced by the best ones. -/
theorem Receivable.wins (hx : x ∈ l) (hy : y ∈ l) (hnlri : y.nlri = x.nlri)
    (hselectable : router.Selectable l x) (hother : ¬router.Selectable l y) :
    router.Replaces x y := by
  by_contra hnot
  have hprefix : y.nlri.nlriPrefix = x.nlri.nlriPrefix := by rw [hnlri]
  obtain ⟨bests, rest, hperm, hbests, hrest⟩ :=
    exists_bests_of_not_selectable hy fun _ : y.nlri.nlriPrefix = x.nlri.nlriPrefix ↦ hother
  rw [← cons_append] at hperm
  obtain ⟨tables, hrun, hsound, hselected⟩ :=
    hreceivable.not_unselected hall hperm hx fun z hz ↦ (hrest z hz).2
  obtain ⟨first, hfirst, htail⟩ := bind_eq_ok hrun
  have houtcome := outcome_of_receive (hreceivable.accepts y hy) hfirst
  have hsound₁ := houtcome.sound (announced_ptr y _) hreceivable.sound
  have hstuck : Stuck router l x.nlri.nlriPrefix first := by
    obtain ⟨rt, hadd, rfl⟩ := hreceivable.installed_first hall hy
      (fun route hroute ↦ hreceivable.notCovered hall hy hroute) houtcome
    refine ⟨_, mem_append_right _ mem_cons_self, ?_, .inl ?_, ?_⟩
    · rw [hreceivable.network_announced hy, hprefix]
    · rwa [bestEntry_announced]
    · intro z hz hprefix' hselectable' ptr
      rw [announced_beats_iff,
        (hreceivable.replaces_iff hall hx hz hprefix' hselectable' hselectable).1]
      exact hnot
  apply hselected
  exact (hreceivable.stuck_run hbests hsound₁ hstuck htail).unselected hsound

/-- A best entry over an internal session that comes when another prefix covers it. -/
theorem Receivable.notHidden (hx : x ∈ l) (hy : y ∈ l) (hselectable : router.Selectable l x)
    (htype : router.sessionType x = .IGP) (hne : y.nlri.nlriPrefix ≠ x.nlri.nlriPrefix) :
    ¬Covers (router.announced y 0).toIpv4Route x.nlri.nlriPrefix := by
  intro hcovers
  have hother : y.nlri.nlriPrefix = x.nlri.nlriPrefix → ¬router.Selectable l y :=
    fun hsame ↦ absurd hsame hne
  obtain ⟨bests, rest, hperm, hbests, hrest⟩ := exists_bests_of_not_selectable hy hother
  have hmem : x ∈ bests := by
    have hcons := hperm.mem_iff.mpr hx
    rcases mem_cons.mp hcons with rfl | happend
    · exact absurd rfl hne
    · rcases mem_append.mp happend with hmem | hother
      · exact hmem
      · exact absurd hselectable ((hrest x hother).2 rfl)
  obtain ⟨bests', hperm'⟩ := exists_perm_cons hmem
  have horder : (y :: x :: bests' ++ rest).Perm l :=
    ((hperm'.symm.append_right rest).cons y).trans hperm
  obtain ⟨tables, hrun, hsound, hselected⟩ :=
    hreceivable.not_unselected hall horder hx fun z hz ↦ (hrest z hz).2
  rw [run_cons] at hrun
  obtain ⟨first, hfirst, hrun'⟩ := bind_eq_ok hrun
  obtain ⟨second, hsecond, htail⟩ := bind_eq_ok hrun'
  have houtcome₁ := outcome_of_receive (hreceivable.accepts y hy) hfirst
  have houtcome₂ := outcome_of_receive (hreceivable.accepts x hx) hsecond
  have hsound₁ := houtcome₁.sound (announced_ptr y _) hreceivable.sound
  have hsound₂ := houtcome₂.sound (announced_ptr x _) hsound₁
  have hstuck := hreceivable.stuck_of_hidden hall hx hy hselectable htype hne hcovers houtcome₁
    houtcome₂
  have hbests' : ∀ z ∈ bests', z ∈ l ∧ z.nlri.nlriPrefix = x.nlri.nlriPrefix ∧
      router.Selectable l z := fun z hz ↦
    hbests z (hperm'.mem_iff.mpr (mem_cons_of_mem x hz))
  apply hselected
  exact (hreceivable.stuck_run hbests' hsound₂ hstuck htail).unselected hsound

/-- The condition is needed. -/
theorem Receivable.agreeable : Agreeable router start l where
  sameLength := fun _ hx _ hy hprefix ↦ hreceivable.sameLength hall hx hy hprefix
  nonzero := fun _ hx hzero ↦ hreceivable.nonzero hall hx hzero
  stays := fun _ hx _ hy hnlri hselectable ↦ hreceivable.stays hall hx hy hnlri hselectable
  wins := fun _ hx _ hy hnlri hselectable hother ↦
    hreceivable.wins hall hx hy hnlri hselectable hother
  notHidden := fun _ hx _ hy hselectable htype hne ↦
    hreceivable.notHidden hall hx hy hselectable htype hne
  notCovered := fun _ hx _ hroute ↦ hreceivable.notCovered hall hx hroute

end Necessity

end Receivable

/-! ## Order independence -/

/-- Two external sessions over one interface. -/
def borderRouter : BgpRouter where
  myAsId := 1
  localPreference := 100
  prefixListIN := []
  asListIN := []
  sessions := fun _ ↦ { type := .EGP, linkIntf := some 1 }
  redistributeInternal := false
  ospfModule := false

/-- The route to the neighbours. -/
def neighbourRoute : Ipv4Route where
  ptr := 0
  dest := 0xc0a80000#32
  netmask := 0xffff0000#32
  gateway := 0#32
  interfacePtr := some 1
  adminDist := 0
  metric := 1

def borderTables : Tables where
  bgpRoutingTable := []
  rt := { routes := [neighbourRoute] }
  sourceType := fun _ ↦ .IFACENETMASK
  allocated := 1

/-- An announcement for a network of 16 bits. -/
def borderAnnouncement (session : SessionId) (nlriPrefix : Ipv4Address) (asPath : List AsId)
    (preference : BitVec 32) : Announcement where
  session := session
  pathAttributes :=
    [.ORIGIN 0, .AS_PATH [asPath], .NEXT_HOP 0xc0a80002#32, .LOCAL_PREF preference]
  nlri := { length := 16, nlriPrefix := nlriPrefix }

theorem receivable_border {l : List Announcement}
    (hl : ∀ x ∈ l, ∃ session nlriPrefix asPath preference,
      x = borderAnnouncement session nlriPrefix asPath preference ∧ 1#16 ∉ asPath ∧
        nlriPrefix &&& 0x0000ffff#32 = 0#32 ∧ nlriPrefix ≠ 0xc0a80000#32) :
    Receivable borderRouter borderTables l where
  sound := by constructor <;> decide
  otherProtocols := by decide
  advertised := by decide
  notProvided := by
    intro x hx route hroute hfor
    obtain ⟨session, nlriPrefix, asPath, preference, rfl, -, -, hne⟩ := hl x hx
    obtain rfl := mem_singleton.mp hroute
    exact hne hfor.1.symm
  ospf := by decide
  accepts := by
    intro x hx
    obtain ⟨session, nlriPrefix, asPath, preference, rfl, hloop, -, -⟩ := hl x hx
    have hlength : (16#8).toNat ≤ 32 := by decide
    have htype : BgpSessionType.EGP ≠ .INCOMPLETE := by decide
    refine ⟨hlength, ?_, rfl, rfl, htype⟩
    apply decide_eq_false
    intro hmem
    have hpath : (borderAnnouncement session nlriPrefix asPath preference).msg.asPath = asPath := by
      simp [borderAnnouncement, Announcement.msg, BgpUpdateMessage.asPath]
    have htail := mem_of_mem_tail hmem
    rw [newEntry, hpath] at htail
    exact hloop htail
  noHostBits := by
    intro x hx
    obtain ⟨session, nlriPrefix, asPath, preference, rfl, -, hbits, -⟩ := hl x hx
    have hmask : ~~~Ipv4Address.makeNetmask (16#8).toNat = 0x0000ffff#32 := by decide
    change nlriPrefix &&& ~~~Ipv4Address.makeNetmask (16#8).toNat = 0#32
    rw [hmask]
    exact hbits
  linked := by
    intro x hx hnone
    cases hnone
  reachable := by
    intro x hx
    obtain ⟨session, nlriPrefix, asPath, preference, rfl, -⟩ := hl x hx
    have hgateway : (borderRouter.announced (borderAnnouncement session nlriPrefix asPath
      preference) 0).gateway = 0xc0a80002#32 := rfl
    rw [hgateway]
    decide

/-- An announcement with a higher local preference and a shorter AS path than the next one, which is
for the same prefix. -/
def favoured : Announcement := borderAnnouncement 0 0x0a010000#32 [2] 200

def outdone : Announcement := borderAnnouncement 1 0x0a010000#32 [3, 4] 100

end Inet4.Bgp
