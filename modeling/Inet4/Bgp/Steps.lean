import Inet4.Bgp.Router
import Inet4.Ipv4.RoutingTableChanges

/-!
# Steps of BGP route selection

An announcement that passes the filters has one of six outcomes.  They depend on the entry for the
same network and on the route that covers the destination, and all of them leave the other networks
alone.
-/

namespace Inet4.Bgp

open List BgpRoutingTableEntry
open Ipv4 (Ipv4Address Ipv4Route Ipv4RoutingTable RoutePtr)
open Ipv4.Ipv4RoutingTable (key_ne_of_mem_eraseP mem_addRoute mem_addRoute_self
  mem_of_mem_addRoute nodup_addRoute deleteRoute_sublist mem_deleteRoute)

/-! ## Announcements -/

/-- An UPDATE message with one NLRI and the session it is received over. -/
structure Announcement where
  session : SessionId
  pathAttributes : List BgpUpdatePathAttributes
  nlri : BgpUpdateNlri

variable (x : Announcement)

def Announcement.msg : BgpUpdateMessage where
  pathAttributes := x.pathAttributes
  nlri := [x.nlri]

/-- One of the three tests of `tieBreakingProcess` is met. -/
def BgpRoutingTableEntry.Beats (entry oldEntry : BgpRoutingTableEntry) : Prop :=
  entry.localPreference > oldEntry.localPreference ∨
    entry.asList.length < oldEntry.asList.length ∨ entry.pathType < oldEntry.pathType

instance (entry oldEntry : BgpRoutingTableEntry) : Decidable (entry.Beats oldEntry) :=
  inferInstanceAs (Decidable (_ ∨ _))

namespace BgpRouter

variable (router : BgpRouter)

def sessionType (x : Announcement) : BgpSessionType := (router.sessions x.session).type

/-- The entry of an announcement when it gets into a table. -/
def announced (x : Announcement) (ptr : RoutePtr) : BgpRoutingTableEntry :=
  { (x.pathAttributes.foldl .setAttribute (router.newEntry ptr x.msg x.nlri)).setSessionType
      (router.sessions x.session).type with
    interfacePtr := (router.sessions x.session).linkIntf }

/-- An announcement over an established session that is not filtered out. -/
structure Accepts (x : Announcement) : Prop where
  length_le : x.nlri.length.toNat ≤ 32
  noLoop : asLoopDetection (router.newEntry 0 x.msg x.nlri) router.myAsId = false
  prefixAllowed : isInTable router.prefixListIN (router.newEntry 0 x.msg x.nlri) = none
  asAllowed : isInASList router.asListIN (router.newEntry 0 x.msg x.nlri) = false
  established : router.sessionType x ≠ .INCOMPLETE

/-- The tables after an announcement. -/
def receive (tables : Tables) (x : Announcement) : Except Fault Tables :=
  (router.processMessage tables x.session x.msg).map (·.2)

def run (tables : Tables) (order : List Announcement) : Except Fault Tables :=
  order.foldlM router.receive tables

end BgpRouter

theorem run_cons (router : BgpRouter) (tables : Tables) (x : Announcement)
    (order : List Announcement) :
    router.run tables (x :: order) = router.receive tables x >>= fun t ↦ router.run t order := rfl

theorem run_append (router : BgpRouter) (tables : Tables) (order rest : List Announcement) :
    router.run tables (order ++ rest) =
      router.run tables order >>= fun t ↦ router.run t rest :=
  foldlM_append

/-! ## What the attributes leave alone -/

variable {router : BgpRouter}
variable (entry : BgpRoutingTableEntry)

theorem setAttribute_frame (attr : BgpUpdatePathAttributes) :
    (entry.setAttribute attr).ptr = entry.ptr ∧ (entry.setAttribute attr).dest = entry.dest ∧
      (entry.setAttribute attr).netmask = entry.netmask ∧
      (entry.setAttribute attr).asList = entry.asList := by
  cases attr <;> exact ⟨rfl, rfl, rfl, rfl⟩

theorem foldl_setAttribute_frame (attrs : List BgpUpdatePathAttributes)
    (entry : BgpRoutingTableEntry) :
    (attrs.foldl .setAttribute entry).ptr = entry.ptr ∧
      (attrs.foldl .setAttribute entry).dest = entry.dest ∧
      (attrs.foldl .setAttribute entry).netmask = entry.netmask ∧
      (attrs.foldl .setAttribute entry).asList = entry.asList := by
  induction attrs generalizing entry with
  | nil => exact ⟨rfl, rfl, rfl, rfl⟩
  | cons attr attrs ih =>
    have hstep := setAttribute_frame entry attr
    have hrest := ih (entry.setAttribute attr)
    rw [hstep.1, hstep.2.1, hstep.2.2.1, hstep.2.2.2] at hrest
    exact hrest

theorem setSessionType_frame (type : BgpSessionType) :
    (entry.setSessionType type).ptr = entry.ptr ∧ (entry.setSessionType type).dest = entry.dest ∧
      (entry.setSessionType type).netmask = entry.netmask ∧
      (entry.setSessionType type).asList = entry.asList := by
  cases type <;> exact ⟨rfl, rfl, rfl, rfl⟩

variable (ptr : RoutePtr)

@[simp]
theorem announced_ptr : (router.announced x ptr).ptr = ptr :=
  (setSessionType_frame _ _).1.trans (foldl_setAttribute_frame _ _).1

@[simp]
theorem announced_dest : (router.announced x ptr).dest = x.nlri.nlriPrefix :=
  (setSessionType_frame _ _).2.1.trans (foldl_setAttribute_frame _ _).2.1

@[simp]
theorem announced_netmask :
    (router.announced x ptr).netmask = Ipv4Address.makeNetmask x.nlri.length.toNat :=
  (setSessionType_frame _ _).2.2.1.trans (foldl_setAttribute_frame _ _).2.2.1

@[simp]
theorem announced_asList : (router.announced x ptr).asList = x.msg.asPath :=
  (setSessionType_frame _ _).2.2.2.trans (foldl_setAttribute_frame _ _).2.2.2

theorem setAttribute_setPtr (attr : BgpUpdatePathAttributes)
    (ptr : RoutePtr) : ({ entry with ptr := ptr } : BgpRoutingTableEntry).setAttribute attr =
      { entry.setAttribute attr with ptr := ptr } := by
  cases attr <;> rfl

theorem foldl_setAttribute_setPtr (attrs : List BgpUpdatePathAttributes)
    (entry : BgpRoutingTableEntry) (ptr : RoutePtr) :
    attrs.foldl .setAttribute ({ entry with ptr := ptr } : BgpRoutingTableEntry) =
      { attrs.foldl .setAttribute entry with ptr := ptr } := by
  induction attrs generalizing entry with
  | nil => rfl
  | cons attr attrs ih =>
    rw [foldl_cons, setAttribute_setPtr, ih]
    rfl

/-- Entries of one announcement differ in their addresses only. -/
theorem announced_setPtr (ptr ptr' : RoutePtr) : { router.announced x ptr with ptr := ptr' }
    = router.announced x ptr' := by
  have hfold := foldl_setAttribute_setPtr x.pathAttributes (router.newEntry ptr x.msg x.nlri) ptr'
  unfold BgpRouter.announced
  change _ = { setSessionType (x.pathAttributes.foldl .setAttribute
    { router.newEntry ptr x.msg x.nlri with ptr := ptr' }) _ with
      interfacePtr := (router.sessions x.session).linkIntf }
  rw [hfold]
  cases (router.sessions x.session).type <;> rfl

/-! ## Outcomes -/

/-- What an announcement with the entry `entry` does to the tables. -/
inductive Outcome (tables : Tables) (type : BgpSessionType) (entry : BgpRoutingTableEntry) :
    Tables → Prop
  /-- The old entry stays. -/
  | kept (oldEntry : BgpRoutingTableEntry)
      (hfind : isInTable tables.bgpRoutingTable entry = some oldEntry)
      (hbeats : ¬entry.Beats oldEntry) : Outcome tables type entry tables.allocate
  | replaced (oldEntry : BgpRoutingTableEntry) (rt : Ipv4RoutingTable)
      (hfind : isInTable tables.bgpRoutingTable entry = some oldEntry)
      (hbeats : entry.Beats oldEntry)
      (hadd : (tables.rt.deleteRoute oldEntry.ptr).2.addRoute entry.toIpv4Route = .ok rt) :
      Outcome tables type entry
        { tables.allocate with
          bgpRoutingTable :=
            (tables.bgpRoutingTable.eraseP fun it ↦ it.network = entry.network) ++ [entry]
          rt := rt }
  /-- Another protocol has a route. -/
  | dropped (route : Ipv4Route) (hfind : isInTable tables.bgpRoutingTable entry = none)
      (hcover : tables.isInRoutingTable entry.dest = some route)
      (hsource : tables.allocate.sourceType route.ptr ≠ .BGP) (htype : type ≠ .IGP) :
      Outcome tables type entry tables.allocate
  /-- A copy of the route of another protocol is added. -/
  | adopted (route bgpEntry : Ipv4Route) (rt : Ipv4RoutingTable)
      (hfind : isInTable tables.bgpRoutingTable entry = none)
      (hcover : tables.isInRoutingTable entry.dest = some route)
      (hsource : tables.allocate.sourceType route.ptr ≠ .BGP) (htype : type = .IGP)
      (hptr : bgpEntry.ptr = tables.allocated + 1) (hadd : tables.rt.addRoute bgpEntry = .ok rt) :
      Outcome tables type entry
        { tables.allocate.allocate with
          bgpRoutingTable := tables.bgpRoutingTable ++ [entry]
          rt := rt }
  /-- The entry gets into the BGP table only. -/
  | stored (hfind : isInTable tables.bgpRoutingTable entry = none)
      (hreason : tables.allocate.isReachable entry.gateway = false ∨
        type = .IGP ∧ ∃ route, tables.isInRoutingTable entry.dest = some route ∧
          tables.allocate.sourceType route.ptr = .BGP) :
      Outcome tables type entry (tables.allocate.push entry)
  | installed (rt : Ipv4RoutingTable) (hfind : isInTable tables.bgpRoutingTable entry = none)
      (hsource : ∀ route, tables.isInRoutingTable entry.dest = some route →
        type = .EGP ∧ tables.allocate.sourceType route.ptr = .BGP)
      (hadd : tables.rt.addRoute entry.toIpv4Route = .ok rt) :
      Outcome tables type entry
        { tables.allocate with bgpRoutingTable := tables.bgpRoutingTable ++ [entry], rt := rt }

variable {tables : Tables}

theorem tieBreakingProcess_of_beats {oldEntry entry : BgpRoutingTableEntry}
    (h : entry.Beats oldEntry) :
    tables.tieBreakingProcess oldEntry entry = (false, tables.deleteBGPRoutingEntry oldEntry) := by
  unfold Beats at h
  unfold Tables.tieBreakingProcess
  split_ifs with hpreference hlength horigin
  · rfl
  · rfl
  · rfl
  · exact absurd h (by simp only [hpreference, hlength, horigin, or_self, not_false_eq_true])

theorem tieBreakingProcess_of_not_beats {oldEntry entry : BgpRoutingTableEntry}
    (h : ¬entry.Beats oldEntry) : tables.tieBreakingProcess oldEntry entry = (true, tables) := by
  unfold Tables.tieBreakingProcess
  rw [if_neg fun hpreference ↦ h (.inl hpreference),
    if_neg fun hlength ↦ h (.inr (.inl hlength)), if_neg fun horigin ↦ h (.inr (.inr horigin))]

theorem isInTable_eq_some {rtTable : List BgpRoutingTableEntry}
    {entry oldEntry : BgpRoutingTableEntry} (h : isInTable rtTable entry = some oldEntry) :
    oldEntry ∈ rtTable ∧ oldEntry.network = entry.network := by
  have hnetwork := find?_some h
  exact ⟨mem_of_find?_eq_some h, (of_decide_eq_true hnetwork).symm⟩

theorem isInTable_eq_none {rtTable : List BgpRoutingTableEntry} {entry : BgpRoutingTableEntry}
    (h : isInTable rtTable entry = none) : ∀ e ∈ rtTable, e.network ≠ entry.network := by
  intro e he heq
  exact find?_eq_none.mp h e he (decide_eq_true heq.symm)

theorem deleteBGPRoutingEntry_eq {oldEntry entry : BgpRoutingTableEntry}
    (h : isInTable tables.bgpRoutingTable entry = some oldEntry) :
    tables.deleteBGPRoutingEntry oldEntry = { tables with
      bgpRoutingTable := tables.bgpRoutingTable.eraseP fun it ↦ it.network = entry.network
      rt := (tables.rt.deleteRoute oldEntry.ptr).2 } := by
  have hfound := isInTable_eq_some h
  unfold Tables.deleteBGPRoutingEntry
  rw [if_pos (any_eq_true.mpr ⟨oldEntry, hfound.1, decide_eq_true rfl⟩), hfound.2]

namespace BgpRouter

/-- The message without its attributes: the filters are passed, and the entry is compared. -/
theorem decisionProcess_eq {tables : Tables} {x : Announcement} {ptr : RoutePtr}
    (h : router.Accepts x) :
    router.decisionProcess tables x.msg (router.newEntry ptr x.msg x.nlri) x.session =
      let entry := router.announced x ptr
      match isInTable tables.bgpRoutingTable entry with
      | some oldEntry =>
        let result := tables.tieBreakingProcess oldEntry entry
        if result.1 then .ok (.notChanged, result.2)
        else do
          let tables ← (result.2.push entry).addRoute entry
          return (.ROUTE_DESTINATION_CHANGED, tables)
      | none => do
        match ← router.checkRoutingTable tables entry (router.sessionType x) with
        | none => return (.notChanged, tables)
        | some tables =>
          let tables := tables.push entry
          let tables ← if router.sessionType x = .EGP then router.addExternal tables entry
            else .ok tables
          return (.NEW_ROUTE_ADDED, tables) := by
  have hallowed : ¬((isInTable router.prefixListIN (router.newEntry ptr x.msg x.nlri)).isSome ∨
      isInASList router.asListIN (router.newEntry ptr x.msg x.nlri)) := by
    have hlistIN : isInTable router.prefixListIN (router.newEntry ptr x.msg x.nlri) = none :=
      h.prefixAllowed
    have has : isInASList router.asListIN (router.newEntry ptr x.msg x.nlri) = false := h.asAllowed
    rw [hlistIN, has]
    simp
  unfold decisionProcess
  rw [if_neg hallowed]
  rfl

theorem receive_eq {tables : Tables} {x : Announcement} (h : router.Accepts x) :
    router.receive tables x = (router.decisionProcess tables.allocate x.msg
      (router.newEntry tables.allocated x.msg x.nlri) x.session).map (·.2) := by
  have hloop : ¬asLoopDetection (router.newEntry tables.allocated x.msg x.nlri) router.myAsId =
      true := Bool.eq_false_iff.mp h.noLoop
  have hlength : throwIf (x.nlri.length.toNat > 32) Fault.runtimeError = .ok () :=
    throwIf_of_not (not_lt.mpr h.length_le)
  have hmsg : x.msg.nlri = [x.nlri] := rfl
  unfold receive processMessage
  simp only [hmsg, bind_of_ok hlength, if_neg hloop]

variable {tables tables' : Tables}

/-- An entry for the network exists. -/
theorem outcome_of_find {type : BgpSessionType} {result : DecisionResult}
    {oldEntry entry : BgpRoutingTableEntry}
    (hfind : isInTable tables.bgpRoutingTable entry = some oldEntry)
    (h : (let result := tables.allocate.tieBreakingProcess oldEntry entry
      if result.1 then .ok (.notChanged, result.2)
      else do
        let tables ← (result.2.push entry).addRoute entry
        return (.ROUTE_DESTINATION_CHANGED, tables)) = Except.ok (result, tables')) :
    Outcome tables type entry tables' := by
  by_cases hbeats : entry.Beats oldEntry
  · have hfind' : isInTable tables.allocate.bgpRoutingTable entry = some oldEntry := hfind
    rw [tieBreakingProcess_of_beats hbeats, deleteBGPRoutingEntry_eq hfind'] at h
    obtain ⟨added, hadded, hreturn⟩ := bind_eq_ok h
    obtain ⟨rt, hadd, hrt⟩ := bind_eq_ok hadded
    cases hreturn
    cases hrt
    exact .replaced oldEntry rt hfind hbeats hadd
  · rw [tieBreakingProcess_of_not_beats hbeats] at h
    cases h
    exact .kept oldEntry hfind hbeats

theorem outcome_of_addExternal {result : DecisionResult} {entry : BgpRoutingTableEntry}
    (hfind : isInTable tables.bgpRoutingTable entry = none)
    (hsource : ∀ route, tables.isInRoutingTable entry.dest = some route →
      BgpSessionType.EGP = .EGP ∧ tables.allocate.sourceType route.ptr = .BGP)
    (h : (do
      let tables ← if BgpSessionType.EGP = .EGP then
        router.addExternal (tables.allocate.push entry) entry
      else .ok (tables.allocate.push entry)
      return (DecisionResult.NEW_ROUTE_ADDED, tables)) = Except.ok (result, tables')) :
    Outcome tables .EGP entry tables' := by
  obtain ⟨external, hexternal, hreturn⟩ := bind_eq_ok h
  cases hreturn
  unfold addExternal at hexternal
  by_cases hreachable : (tables.allocate.push entry).isReachable entry.gateway = true
  · simp only [if_pos hreachable] at hexternal
    obtain ⟨added, hadded, hinsert⟩ := bind_eq_ok hexternal
    obtain ⟨rt, hadd, hrt⟩ := bind_eq_ok hadded
    obtain ⟨_, _, rfl⟩ := bind_pure_eq_ok hinsert
    cases hrt
    exact .installed rt hfind hsource hadd
  · simp only [if_neg hreachable] at hexternal
    obtain ⟨_, hadded, hinsert⟩ := bind_eq_ok hexternal
    obtain ⟨_, _, hreturn⟩ := bind_eq_ok hinsert
    cases hadded
    cases hreturn
    exact .stored hfind (.inl (Bool.eq_false_iff.mpr hreachable))

/-- The network is new. -/
theorem outcome_of_find_eq_none {type : BgpSessionType} {result : DecisionResult}
    {entry : BgpRoutingTableEntry} (htype : type ≠ .INCOMPLETE)
    (hfind : isInTable tables.bgpRoutingTable entry = none)
    (h : (do
      match ← router.checkRoutingTable tables.allocate entry type with
      | none => return (.notChanged, tables.allocate)
      | some tables =>
        let tables := tables.push entry
        let tables ← if type = .EGP then router.addExternal tables entry else .ok tables
        return (.NEW_ROUTE_ADDED, tables)) = Except.ok (result, tables')) :
    Outcome tables type entry tables' := by
  obtain ⟨checked, hcheck, hrest⟩ := bind_eq_ok h
  unfold checkRoutingTable at hcheck
  cases hcover : tables.isInRoutingTable entry.dest with
  | none =>
    have hcover' : tables.allocate.isInRoutingTable entry.dest = none := hcover
    have hnone : ∀ route, tables.isInRoutingTable entry.dest = some route →
        type = .EGP ∧ tables.allocate.sourceType route.ptr = .BGP := by
      intro route hroute
      rw [hcover] at hroute
      cases hroute
    simp only [hcover'] at hcheck
    cases type with
    | IGP =>
      by_cases hreachable : tables.allocate.isReachable entry.gateway = true
      · rw [if_pos ⟨rfl, hreachable⟩] at hcheck
        obtain ⟨added, hadded, hreturn⟩ := bind_eq_ok hcheck
        obtain ⟨rt, hadd, hrt⟩ := bind_eq_ok hadded
        cases hreturn
        cases hrt
        cases hrest
        exact .installed rt hfind hnone hadd
      · rw [if_neg fun hboth ↦ hreachable hboth.2] at hcheck
        cases hcheck
        cases hrest
        exact .stored hfind (.inl (Bool.eq_false_iff.mpr hreachable))
    | EGP =>
      cases hcheck
      exact outcome_of_addExternal hfind hnone hrest
    | INCOMPLETE => exact absurd rfl htype
  | some route =>
    have hcover' : tables.allocate.isInRoutingTable entry.dest = some route := hcover
    simp only [hcover'] at hcheck
    by_cases hsource : tables.allocate.sourceType route.ptr = .BGP
    · rw [if_neg (not_not_intro hsource)] at hcheck
      cases hcheck
      cases type with
      | IGP =>
        cases hrest
        exact .stored hfind (.inr ⟨rfl, route, hcover, hsource⟩)
      | EGP =>
        apply outcome_of_addExternal hfind _ hrest
        intro route' hroute'
        rw [hcover] at hroute'
        cases hroute'
        exact ⟨rfl, hsource⟩
      | INCOMPLETE => exact absurd rfl htype
    · rw [if_pos hsource] at hcheck
      cases type with
      | IGP =>
        obtain ⟨added, hadded, hreturn⟩ := bind_eq_ok hcheck
        obtain ⟨rt, hadd, hrt⟩ := bind_eq_ok hadded
        cases hreturn
        cases hrt
        cases hrest
        exact .adopted route _ rt hfind hcover hsource rfl rfl hadd
      | EGP =>
        cases hcheck
        cases hrest
        exact .dropped route hfind hcover hsource (by decide)
      | INCOMPLETE => exact absurd rfl htype

theorem exists_of_map_snd_eq_ok {result : Except Fault (DecisionResult × Tables)} {tables : Tables}
    (h : result.map (·.2) = .ok tables) : ∃ decision, result = .ok (decision, tables) := by
  cases result with
  | error fault => cases h
  | ok pair =>
    cases h
    exact ⟨pair.1, rfl⟩

/-- What an announcement does, case by case. -/
theorem outcome_of_receive {x : Announcement} (h : router.Accepts x)
    (hreceive : router.receive tables x = .ok tables') :
    Outcome tables (router.sessionType x) (router.announced x tables.allocated) tables' := by
  rw [receive_eq h, decisionProcess_eq h] at hreceive
  have hestablished := h.established
  generalize router.announced x tables.allocated = entry at hreceive
  generalize router.sessionType x = type at hreceive hestablished
  have htable : tables.allocate.bgpRoutingTable = tables.bgpRoutingTable := rfl
  simp only [htable] at hreceive
  cases hfind : isInTable tables.bgpRoutingTable entry with
  | some oldEntry =>
    simp only [hfind] at hreceive
    obtain ⟨result, hresult⟩ := exists_of_map_snd_eq_ok hreceive
    exact outcome_of_find hfind hresult
  | none =>
    simp only [hfind] at hreceive
    obtain ⟨result, hresult⟩ := exists_of_map_snd_eq_ok hreceive
    exact outcome_of_find_eq_none hestablished hfind hresult

end BgpRouter

/-! ## What every outcome keeps -/

/-- The entries are for different networks, and the objects are different ones. -/
structure Sound (tables : Tables) : Prop where
  networks : (tables.bgpRoutingTable.map (·.network)).Nodup
  entries : (tables.bgpRoutingTable.map (·.ptr)).Nodup
  ptrs : (tables.rt.routes.map (·.ptr)).Nodup
  entry_lt : ∀ entry ∈ tables.bgpRoutingTable, entry.ptr < tables.allocated
  route_lt : ∀ route ∈ tables.rt.routes, route.ptr < tables.allocated

section Outcome

variable {tables tables' : Tables} {type : BgpSessionType} {entry : BgpRoutingTableEntry}

theorem Sound.eq_of_network_eq (h : Sound tables) {a b : BgpRoutingTableEntry}
    (ha : a ∈ tables.bgpRoutingTable) (hb : b ∈ tables.bgpRoutingTable)
    (hnetwork : a.network = b.network) : a = b :=
  inj_on_of_nodup_map h.networks ha hb hnetwork

theorem Sound.eq_of_ptr_eq (h : Sound tables) {a b : BgpRoutingTableEntry}
    (ha : a ∈ tables.bgpRoutingTable) (hb : b ∈ tables.bgpRoutingTable) (hptr : a.ptr = b.ptr) :
    a = b :=
  inj_on_of_nodup_map h.entries ha hb hptr

/-- An entry is new or an old one that the new one does not beat. -/
theorem Outcome.mem_entries (h : Outcome tables type entry tables') (hsound : Sound tables)
    {e : BgpRoutingTableEntry} (he : e ∈ tables'.bgpRoutingTable) :
    e = entry ∨ e ∈ tables.bgpRoutingTable ∧ (e.network = entry.network → ¬entry.Beats e) := by
  have happend : isInTable tables.bgpRoutingTable entry = none →
      e ∈ tables.bgpRoutingTable ++ [entry] →
      e = entry ∨ e ∈ tables.bgpRoutingTable ∧ (e.network = entry.network → ¬entry.Beats e) := by
    intro hnone hmem
    rcases mem_append.mp hmem with hold | hnew
    · exact .inr ⟨hold, fun hnetwork ↦ absurd hnetwork (isInTable_eq_none hnone e hold)⟩
    · exact .inl (mem_singleton.mp hnew)
  cases h with
  | kept oldEntry hfind hbeats =>
    have hfound := isInTable_eq_some hfind
    refine .inr ⟨he, fun hnetwork ↦ ?_⟩
    rw [hsound.eq_of_network_eq he hfound.1 (hnetwork.trans hfound.2.symm)]
    exact hbeats
  | replaced oldEntry rt hfind hbeats hadd =>
    rcases mem_append.mp he with hold | hnew
    · have hne := key_ne_of_mem_eraseP hsound.networks hold
      exact .inr ⟨mem_of_mem_eraseP hold, fun hnetwork ↦ absurd hnetwork hne⟩
    · exact .inl (mem_singleton.mp hnew)
  | dropped route hfind hcover hsource htype =>
    exact .inr ⟨he, fun hnetwork ↦ absurd hnetwork (isInTable_eq_none hfind e he)⟩
  | adopted route bgpEntry rt hfind hcover hsource htype hptr hadd | stored hfind hreason
  | installed rt hfind hsource hadd => exact happend hfind he

/-- An old entry stays unless the new one beats it. -/
theorem Outcome.mem_of_mem (h : Outcome tables type entry tables') (hsound : Sound tables)
    {e : BgpRoutingTableEntry} (he : e ∈ tables.bgpRoutingTable)
    (hother : e.network = entry.network → ¬entry.Beats e) : e ∈ tables'.bgpRoutingTable := by
  cases h with
  | replaced oldEntry rt hfind hbeats hadd =>
    have hfound := isInTable_eq_some hfind
    have hne : e.network ≠ entry.network := by
      intro hnetwork
      have heq := hsound.eq_of_network_eq he hfound.1 (hnetwork.trans hfound.2.symm)
      rw [heq] at hnetwork hother
      exact hother hnetwork hbeats
    exact mem_append_left _ ((mem_eraseP_of_neg (by simpa using hne)).mpr he)
  | kept | dropped => exact he
  | adopted | stored | installed => exact mem_append_left _ he

theorem Outcome.allocated_lt (h : Outcome tables type entry tables') :
    tables.allocated < tables'.allocated := by
  cases h with
  | adopted => exact Nat.lt_succ_of_lt (Nat.lt_succ_self _)
  | kept | replaced | dropped | stored | installed => exact Nat.lt_succ_self _

/-- Routes are old ones or new objects. -/
theorem Outcome.mem_routes (h : Outcome tables type entry tables')
    (hptr : entry.ptr = tables.allocated) {route : Ipv4Route} (hroute : route ∈ tables'.rt.routes) :
    route ∈ tables.rt.routes ∨ tables.allocated ≤ route.ptr ∧ route.ptr < tables'.allocated := by
  cases h with
  | kept | dropped | stored => exact .inl hroute
  | replaced oldEntry rt hfind hbeats hadd =>
    rcases mem_of_mem_addRoute hadd hroute with rfl | hold
    · exact .inr ⟨hptr.ge, hptr.trans_lt (Nat.lt_succ_self _)⟩
    · exact .inl ((deleteRoute_sublist _ _).subset hold)
  | adopted old bgpEntry rt hfind hcover hsource htype hbgp hadd =>
    rcases mem_of_mem_addRoute hadd hroute with rfl | hold
    · exact .inr ⟨hbgp ▸ Nat.le_succ _, hbgp.trans_lt (Nat.lt_succ_self _)⟩
    · exact .inl hold
  | installed rt hfind hsource hadd =>
    rcases mem_of_mem_addRoute hadd hroute with rfl | hold
    · exact .inr ⟨hptr.ge, hptr.trans_lt (Nat.lt_succ_self _)⟩
    · exact .inl hold

theorem nodup_map_append {β : Type} (key : BgpRoutingTableEntry → β)
    {entries : List BgpRoutingTableEntry} (hnodup : (entries.map key).Nodup)
    (hne : ∀ e ∈ entries, key e ≠ key entry) : ((entries ++ [entry]).map key).Nodup := by
  rw [map_append]
  apply List.Nodup.append hnodup (nodup_singleton _)
  rw [disjoint_singleton, mem_map]
  rintro ⟨e, he, hkey⟩
  exact hne e he hkey

theorem Outcome.sound (h : Outcome tables type entry tables') (hptr : entry.ptr = tables.allocated)
    (hsound : Sound tables) : Sound tables' where
  networks := by
    cases h with
    | kept | dropped => exact hsound.networks
    | replaced oldEntry rt hfind hbeats hadd =>
      apply nodup_map_append (fun e ↦ e.network) ((eraseP_sublist.map _).nodup hsound.networks)
      exact fun e ↦ key_ne_of_mem_eraseP hsound.networks
    | adopted route bgpEntry rt hfind hcover hsource htype hbgp hadd | stored hfind hreason
    | installed rt hfind hsource hadd =>
      exact nodup_map_append _ hsound.networks (isInTable_eq_none hfind)
  entries := by
    have hfresh : ∀ e ∈ tables.bgpRoutingTable, e.ptr ≠ entry.ptr := by
      intro e he
      exact ((hsound.entry_lt e he).trans_eq hptr.symm).ne
    cases h with
    | kept | dropped => exact hsound.entries
    | replaced =>
      apply nodup_map_append (fun e ↦ e.ptr) ((eraseP_sublist.map _).nodup hsound.entries)
      exact fun e he ↦ hfresh e (mem_of_mem_eraseP he)
    | adopted | stored | installed => exact nodup_map_append _ hsound.entries hfresh
  ptrs := by
    cases h with
    | kept | dropped | stored => exact hsound.ptrs
    | replaced oldEntry rt hfind hbeats hadd =>
      have hsub := deleteRoute_sublist tables.rt oldEntry.ptr
      apply nodup_addRoute hadd _ ((hsub.map _).nodup hsound.ptrs)
      intro other hother
      exact ((hsound.route_lt other (hsub.subset hother)).trans_eq hptr.symm).ne
    | adopted route bgpEntry rt hfind hcover hsource htype hbgp hadd =>
      apply nodup_addRoute hadd _ hsound.ptrs
      intro other hother
      exact ((hsound.route_lt other hother).trans_le (hbgp ▸ Nat.le_succ _)).ne
    | installed rt hfind hsource hadd =>
      apply nodup_addRoute hadd _ hsound.ptrs
      intro other hother
      exact ((hsound.route_lt other hother).trans_eq hptr.symm).ne
  entry_lt := by
    intro e he
    rcases h.mem_entries hsound he with rfl | hold
    · exact hptr.trans_lt h.allocated_lt
    · exact (hsound.entry_lt e hold.1).trans h.allocated_lt
  route_lt := by
    intro route hroute
    rcases h.mem_routes hptr hroute with hold | hnew
    · exact (hsound.route_lt route hold).trans h.allocated_lt
    · exact hnew.2

/-! ## Without other protocols -/

section Covered

variable (h : Outcome tables type entry tables') (hptr : entry.ptr = tables.allocated)
  (hsound : Sound tables)
  (hsource : ∀ route, tables.isInRoutingTable entry.dest = some route →
    tables.allocate.sourceType route.ptr = .BGP)

include h hsource

theorem Outcome.allocate_of_source : tables'.allocated = tables.allocated + 1 ∧
    tables'.sourceType = tables.allocate.sourceType := by
  cases h with
  | kept | replaced | stored | installed => exact ⟨rfl, rfl⟩
  | dropped route hfind hcover hother | adopted route bgpEntry rt hfind hcover hother =>
    exact absurd (hsource route hcover) hother

/-- There is an entry for the network now. -/
theorem Outcome.exists_entry : ∃ e ∈ tables'.bgpRoutingTable, e.network = entry.network := by
  cases h with
  | kept oldEntry hfind hbeats => exact ⟨oldEntry, isInTable_eq_some hfind⟩
  | replaced | stored | installed =>
    exact ⟨entry, mem_append_right _ mem_cons_self, rfl⟩
  | dropped route hfind hcover hother | adopted route bgpEntry rt hfind hcover hother =>
    exact absurd (hsource route hcover) hother

include hsound

/-- A route belongs to the new entry or was there, and then its entry has stayed. -/
theorem Outcome.of_mem_routes {route : Ipv4Route} (hroute : route ∈ tables'.rt.routes) :
    entry ∈ tables'.bgpRoutingTable ∧ route = entry.toIpv4Route ∨
      route ∈ tables.rt.routes ∧
        ∀ e ∈ tables.bgpRoutingTable, e.ptr = route.ptr → e ∈ tables'.bgpRoutingTable := by
  have hmem := fun e he ↦ h.mem_of_mem hsound (e := e) he
  cases h with
  | kept => exact .inr ⟨hroute, fun e he _ ↦ he⟩
  | replaced oldEntry rt hfind hbeats hadd =>
    rcases mem_of_mem_addRoute hadd hroute with heq | hold
    · exact .inl ⟨mem_append_right _ mem_cons_self, heq⟩
    · have hboth := (mem_deleteRoute hsound.ptrs).mp hold
      refine .inr ⟨hboth.1, fun e he hsame ↦ hmem e he fun hnetwork _ ↦ ?_⟩
      have hfound := isInTable_eq_some hfind
      have heq := hsound.eq_of_network_eq he hfound.1 (hnetwork.trans hfound.2.symm)
      rw [heq] at hsame
      exact hboth.2 hsame.symm
  | dropped route hfind hcover hother | adopted route bgpEntry rt hfind hcover hother =>
    exact absurd (hsource route hcover) hother
  | stored hfind hreason => exact .inr ⟨hroute, fun e he _ ↦ mem_append_left _ he⟩
  | installed rt hfind hsource' hadd =>
    rcases mem_of_mem_addRoute hadd hroute with heq | hold
    · exact .inl ⟨mem_append_right _ mem_cons_self, heq⟩
    · exact .inr ⟨hold, fun e he _ ↦ mem_append_left _ he⟩

include hptr

/-- A new entry has its route unless it is not reachable or hidden by another prefix. -/
theorem Outcome.mem_routes_of_mem (hentry : entry ∈ tables'.bgpRoutingTable) :
    entry.toIpv4Route ∈ tables'.rt.routes ∨
      (∀ e ∈ tables.bgpRoutingTable, e.network ≠ entry.network) ∧
        (tables.allocate.isReachable entry.gateway = false ∨
          type = .IGP ∧ ∃ route, tables.isInRoutingTable entry.dest = some route) := by
  cases h with
  | kept => exact absurd (hsound.entry_lt entry hentry) hptr.ge.not_gt
  | replaced oldEntry rt hfind hbeats hadd | installed rt hfind hsource' hadd =>
    exact .inl (mem_addRoute_self hadd)
  | dropped route hfind hcover hother | adopted route bgpEntry rt hfind hcover hother =>
    exact absurd (hsource route hcover) hother
  | stored hfind hreason =>
    right
    refine ⟨isInTable_eq_none hfind, hreason.imp_right ?_⟩
    rintro ⟨htype, route, hcover, _⟩
    exact ⟨htype, route, hcover⟩

/-- A route stays when its entry does; a default route has to be one of the same network. -/
theorem Outcome.mem_routes_of_stays
    (hdefault : entry.netmask = 0#32 → ∀ route ∈ tables.rt.routes, route.netmask = 0#32 →
      ∃ e ∈ tables.bgpRoutingTable, e.network = entry.network ∧ e.ptr = route.ptr)
    {route : Ipv4Route} (hroute : route ∈ tables.rt.routes)
    (hstays : ∀ e ∈ tables.bgpRoutingTable, e.ptr = route.ptr → e ∈ tables'.bgpRoutingTable) :
    route ∈ tables'.rt.routes := by
  have hentries := fun e he ↦ h.mem_entries hsound (e := e) he
  cases h with
  | kept | stored => exact hroute
  | replaced oldEntry rt hfind hbeats hadd =>
    have hfound := isInTable_eq_some hfind
    have hne : route.ptr ≠ oldEntry.ptr := by
      intro hsame
      rcases hentries oldEntry (hstays oldEntry hfound.1 hsame.symm) with heq | hold
      · rw [heq] at hfound
        exact absurd (hsound.entry_lt entry hfound.1) hptr.ge.not_gt
      · exact hold.2 hfound.2 hbeats
    apply (mem_addRoute hadd _).mpr (.inr ((mem_deleteRoute hsound.ptrs).mpr ⟨hroute, hne⟩))
    intro hzero other hother hmask
    have hboth := (mem_deleteRoute hsound.ptrs).mp hother
    obtain ⟨e, he, hnetwork, hsame⟩ := hdefault hzero other hboth.1 hmask
    have heq := hsound.eq_of_network_eq he hfound.1 (hnetwork.trans hfound.2.symm)
    rw [heq] at hsame
    exact hboth.2 hsame.symm
  | dropped route' hfind hcover hother htype
  | adopted route' bgpEntry rt hfind hcover hother htype hbgp hadd =>
    exact absurd (hsource route' hcover) hother
  | installed rt hfind hsource' hadd =>
    apply (mem_addRoute hadd _).mpr (.inr hroute)
    intro hzero other hother hmask
    obtain ⟨e, he, hnetwork, -⟩ := hdefault hzero other hother hmask
    exact isInTable_eq_none hfind e he hnetwork

end Covered

end Outcome

/-! ## Success -/

/-- What `Ipv4RoutingTable::addRoute` checks. -/
structure Addable (entry : Ipv4Route) : Prop where
  validNetmask : entry.netmask.isValidNetmask = true
  noHostBits : entry.dest &&& ~~~entry.netmask = 0#32
  nonzero : entry.netmask ≠ 0#32 → entry.dest &&& entry.netmask ≠ 0#32
  linked : entry.interfacePtr ≠ none

theorem Addable.exists_addRoute {entry : Ipv4Route} (h : Addable entry) (rt : Ipv4RoutingTable) :
    ∃ rt', rt.addRoute entry = .ok rt' := by
  unfold Ipv4RoutingTable.addRoute Ipv4RoutingTable.internalAddRoute
  rw [if_neg (not_not_intro h.validNetmask), if_neg fun hboth ↦ h.nonzero hboth.1 hboth.2,
    if_neg (not_not_intro h.noHostBits), if_neg h.linked]
  exact ⟨_, rfl⟩

theorem Addable.exists_tables {entry : BgpRoutingTableEntry} (h : Addable entry.toIpv4Route)
    (tables : Tables) : ∃ tables', tables.addRoute entry = .ok tables' := by
  obtain ⟨rt, hadd⟩ := h.exists_addRoute tables.rt
  unfold Tables.addRoute
  rw [bind_of_ok hadd]
  exact ⟨_, rfl⟩

theorem insertExternalRoute_eq_ok {entry : BgpRoutingTableEntry}
    (hlinked : entry.interfacePtr ≠ none)
    (hospf : router.redistributeInternal = true → router.ospfModule = true) :
    router.insertExternalRoute tables entry = .ok () := by
  unfold BgpRouter.insertExternalRoute
  split
  · rename_i hboth
    have hmodule : ¬router.ospfModule = false := Bool.eq_false_iff.not_left.mpr (hospf hboth.2)
    rw [bind_of_ok (throwIf_of_not hlinked), throwIf_of_not hmodule]
  · rfl

/-- Where no other protocol covers the destination, the handler returns. -/
theorem exists_receive {x : Announcement} (h : router.Accepts x)
    (haddable : Addable (router.announced x tables.allocated).toIpv4Route)
    (hsource : ∀ route, tables.isInRoutingTable x.nlri.nlriPrefix = some route →
      tables.allocate.sourceType route.ptr = .BGP)
    (hospf : router.redistributeInternal = true → router.ospfModule = true) :
    ∃ tables', router.receive tables x = .ok tables' := by
  suffices ∃ result, router.decisionProcess tables.allocate x.msg
      (router.newEntry tables.allocated x.msg x.nlri) x.session = .ok result by
    obtain ⟨result, hresult⟩ := this
    rw [BgpRouter.receive_eq h, hresult]
    exact ⟨_, rfl⟩
  rw [BgpRouter.decisionProcess_eq h]
  have hdest : (router.announced x tables.allocated).dest = x.nlri.nlriPrefix := announced_dest x _
  rw [← hdest] at hsource
  generalize router.announced x tables.allocated = entry at haddable hsource
  cases hfind : isInTable tables.allocate.bgpRoutingTable entry with
  | some oldEntry =>
    by_cases hbeats : entry.Beats oldEntry
    · obtain ⟨added, hadd⟩ :=
        haddable.exists_tables ((tables.allocate.deleteBGPRoutingEntry oldEntry).push entry)
      simp only [hfind, tieBreakingProcess_of_beats hbeats, bind_of_ok hadd]
      exact ⟨_, rfl⟩
    · simp only [hfind, tieBreakingProcess_of_not_beats hbeats]
      exact ⟨_, rfl⟩
  | none =>
    obtain ⟨checked, hcheck⟩ : ∃ checked, router.checkRoutingTable tables.allocate entry
        (router.sessionType x) = .ok (some checked) := by
      unfold BgpRouter.checkRoutingTable
      split
      · rename_i route hcover
        rw [if_neg (not_not_intro (hsource route hcover))]
        exact ⟨_, rfl⟩
      · split
        · obtain ⟨added, hadd⟩ := haddable.exists_tables tables.allocate
          rw [bind_of_ok hadd]
          exact ⟨_, rfl⟩
        · exact ⟨_, rfl⟩
    obtain ⟨external, hexternal⟩ : ∃ external,
        router.addExternal (checked.push entry) entry = .ok external := by
      unfold BgpRouter.addExternal
      split
      · obtain ⟨added, hadd⟩ := haddable.exists_tables (checked.push entry)
        simp only [bind_of_ok hadd, insertExternalRoute_eq_ok haddable.linked hospf]
        exact ⟨_, rfl⟩
      · refine ⟨checked.push entry, ?_⟩
        change router.insertExternalRoute (checked.push entry) entry >>= _ = _
        rw [bind_of_ok (insertExternalRoute_eq_ok haddable.linked hospf)]
        rfl
    simp only [hfind, bind_of_ok hcheck]
    split
    · rw [bind_of_ok hexternal]
      exact ⟨_, rfl⟩
    · exact ⟨_, rfl⟩

end Inet4.Bgp
