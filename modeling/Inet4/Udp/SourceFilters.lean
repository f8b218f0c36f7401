import Inet4.Udp.Sockets
import Inet4.Udp.SocketCalls

/-!
# Source filters over runs of socket calls

Any sockets make any of the seven calls, in any order.  As long as no call is one of those that go
wrong, the table of every socket has the filters its calls have asked for, every membership is
found, every interface has the merge of the filters that are for it, and no call finds the reference
counts of an interface inconsistent.
-/

namespace Inet4

open List

namespace Udp

open Ipv4 (McastFilter Merges)
open UdpSourceFilterMode

/-- The filters of the sockets after some calls. -/
def filtersAfter (calls : List (ℤ × MulticastCall)) : ℤ → Filters :=
  calls.foldl (fun filters call ↦
    Function.update filters call.1 (call.2.effect (filters call.1))) fun _ _ ↦ .none

/-- The socket with an id, or a new one. -/
def socket (udp : Udp) (sockId : ℤ) : SockDesc := (udp.socketsByIdMap.find sockId).getD {}

/-- The filters of a socket. -/
def filters (udp : Udp) (sockId : ℤ) : Filters :=
  tableFilters (udp.socket sockId).multicastMembershipTable

/-- The filters of the sockets that are for an interface. -/
def socketFilters (udp : Udp) (interfaceId : ℤ) (isMulticast : Bool) (group : Ipv4.Ipv4Address) :
    Set McastFilter :=
  {filter | ∃ sockId sd membership, udp.socketsByIdMap.find sockId = some sd ∧
    membership ∈ sd.multicastMembershipTable ∧ membership.multicastAddress = .IPv4 group ∧
      membership.AppliesTo interfaceId isMulticast ∧ filter = membership.mcastFilter}

/-- What the calls mean in a state that some calls have led to. -/
structure MeansCalls (calls : List (ℤ × MulticastCall)) (udp : Udp) : Prop where
  filters : ∀ sockId, udp.filters sockId = filtersAfter calls sockId
  found : ∀ sockId sd, udp.socketsByIdMap.find sockId = some sd →
    ∀ membership ∈ sd.multicastMembershipTable, ∃ position,
      sd.findMulticastMembership membership.multicastAddress membership.interfaceId =
        some (position, membership)
  merged : ∀ (k : ℕ) ie data, udp.ift.idToInterface[k]? = some ie → ie.ipv4Data = some data →
    ∀ group, Merges (data.sourceFilter group)
      (udp.socketFilters (InterfaceTable.INTERFACEIDS_START + k : ℕ) ie.isMulticast group)
  consistent : ∀ sockId call, call.Heeds (udp.socket sockId) →
    ∀ error, udp.setOption sockId (.multicast call) = .error error → ¬IsInconsistency error

/-- The module under any multicast calls of its sockets. -/
def callMachine : Machine Udp (ℤ × MulticastCall) SimulationError where
  Enabled _ _ := True
  handle udp call := udp.setOption call.1 (.multicast call.2)

instance (udp : Udp) (call : ℤ × MulticastCall) : Decidable (callMachine.Enabled udp call) :=
  isTrue trivial

/-- The next call is none of those that go wrong. -/
def HeedsFilters (udp : Udp) (call : ℤ × MulticastCall) : Prop :=
  call.2.Heeds (udp.socket call.1)

/-- The interfaces before any socket has joined a group. -/
def Unjoined (ift : InterfaceTable) : Prop :=
  ∀ ie ∈ ift.idToInterface, ∀ data, ie.ipv4Data = some data → data.joinedMulticastGroups = []

def membershipsOf (sockets : AssocMap ℤ SockDesc) : List MulticastMembership :=
  sockets.entries.flatMap fun entry ↦ entry.2.multicastMembershipTable

variable {udp next : Udp} {sockId : ℤ} {sd : SockDesc} {sockets : AssocMap ℤ SockDesc}

theorem membershipsOf_assign (sockets : AssocMap ℤ SockDesc) (sockId : ℤ) (sd : SockDesc) :
    membershipsOf (sockets.assign sockId sd) =
      sd.multicastMembershipTable ++ membershipsOf (sockets.remove sockId) := rfl

/-- The memberships of a socket stand apart from those of the others. -/
theorem membershipsOf_perm (hfind : sockets.find sockId = some sd) :
    (membershipsOf sockets).Perm
      (sd.multicastMembershipTable ++ membershipsOf (sockets.remove sockId)) := by
  have hmem : sockId ∈ sockets.keys := AList.mem_keys.mp (AssocMap.mem_iff_find.mpr ⟨sd, hfind⟩)
  obtain ⟨sd', before, after, -, hentries, hrest⟩ := exists_of_kerase hmem
  have hsd : sd' = sd := by
    have hentry : (⟨sockId, sd'⟩ : Sigma fun _ : ℤ ↦ SockDesc) ∈ sockets.entries := by
      rw [hentries]
      exact mem_append_right _ mem_cons_self
    have hfind' := AssocMap.find_eq_some_iff.mpr hentry
    rw [hfind] at hfind'
    exact (Option.some.inj hfind').symm
  have hremove : (sockets.remove sockId).entries = before ++ after := hrest
  simp only [membershipsOf, hentries, hremove, flatMap_append, flatMap_cons, hsd]
  exact perm_append_comm_assoc _ _ _

theorem membershipsOf_remove_of_notMem (hfree : sockets.find sockId = none) :
    membershipsOf (sockets.remove sockId) = membershipsOf sockets := by
  have hnot : sockId ∉ sockets := AssocMap.find_eq_none.mp hfree
  have hentries : (sockets.remove sockId).entries = sockets.entries :=
    kerase_of_notMem_keys fun hmem ↦ hnot (AList.mem_keys.mpr hmem)
  rw [membershipsOf, hentries, membershipsOf]

theorem mem_membershipsOf {membership : MulticastMembership} :
    membership ∈ membershipsOf sockets ↔
      ∃ sockId sd, sockets.find sockId = some sd ∧
        membership ∈ sd.multicastMembershipTable := by
  rw [membershipsOf, mem_flatMap]
  constructor
  · rintro ⟨⟨sockId, sd⟩, hentry, hmem⟩
    exact ⟨sockId, sd, AssocMap.find_eq_some_iff.mpr hentry, hmem⟩
  · rintro ⟨sockId, sd, hfind, hmem⟩
    exact ⟨⟨sockId, sd⟩, AssocMap.find_eq_some_iff.mp hfind, hmem⟩

structure Filtered (filters : ℤ → Filters) (udp : Udp) : Prop where
  tables : ∀ sockId sd, udp.socketsByIdMap.find sockId = some sd →
    Ordered sd.multicastMembershipTable ∧
      ∀ membership ∈ sd.multicastMembershipTable, membership.Proper
  reflects : udp.ift.Reflects (membershipsOf udp.socketsByIdMap)
  filters_eq : ∀ sockId, udp.filters sockId = filters sockId

theorem Filtered.sound {filters : ℤ → Filters} (h : Filtered filters udp)
    (hfind : udp.socketsByIdMap.find sockId = some sd) :
    Sound (sd, udp.ift) (membershipsOf (udp.socketsByIdMap.remove sockId)) where
  ordered := (h.tables sockId sd hfind).1
  proper := (h.tables sockId sd hfind).2
  reflects := h.reflects.perm (membershipsOf_perm hfind)

theorem safe_searchEphemeralPort (udp : Udp) (searchUntil port : ℤ) (fuel : ℕ) :
    Safe (udp.searchEphemeralPort searchUntil fuel port) fun _ ↦ True := by
  induction fuel generalizing port with
  | zero => exact id
  | succ fuel ih =>
    rw [searchEphemeralPort]
    split
    · split
      · change ¬IsInconsistency _
        decide
      · exact ih _
    · trivial

/-- A command finds its socket or creates one without memberships. -/
theorem Filtered.getOrCreateSocket {filters : ℤ → Filters} (h : Filtered filters udp) :
    Safe (udp.getOrCreateSocket sockId) fun found ↦ Filtered filters found.1 ∧
      found.1.socketsByIdMap.find sockId = some found.2 ∧
        found.2.multicastMembershipTable = (udp.socket sockId).multicastMembershipTable := by
  rw [Udp.getOrCreateSocket]
  split
  · change ¬IsInconsistency _
    decide
  · split
    · rename_i sd hfind
      refine ⟨h, hfind, ?_⟩
      rw [socket, hfind]
      rfl
    · rename_i hfree
      have hport : Safe udp.getEphemeralPort fun _ ↦ True :=
        safe_searchEphemeralPort udp _ _ _
      rw [createSocket, choosePort, if_pos rfl]
      apply Safe.bind (P := fun chosen : Udp × ℤ ↦
        chosen.1.socketsByIdMap = udp.socketsByIdMap ∧ chosen.1.ift = udp.ift)
      · apply hport.bind
        intro port _
        exact ⟨rfl, rfl⟩
      · rintro ⟨chosen, port⟩ ⟨hsockets, hift⟩
        have hfindNext : ∀ id, ((chosen.setSocket sockId
            { sockId := sockId
              isBound := false
              localAddr := .NONE
              localPort := port
              onlyLocalPortIsSet := L3Address.NONE.isUnspecified }).setPortList port
                (chosen.portList port ++ [sockId])).socketsByIdMap.find id =
            if id = sockId then some
              { sockId := sockId
                isBound := false
                localAddr := .NONE
                localPort := port
                onlyLocalPortIsSet := L3Address.NONE.isUnspecified }
            else udp.socketsByIdMap.find id := by
          intro id
          rw [← hsockets]
          exact AssocMap.find_assign
        refine ⟨⟨?_, ?_, ?_⟩, ?_, ?_⟩
        · intro id sd hfind
          rw [hfindNext] at hfind
          split at hfind
          · cases hfind
            exact ⟨List.Pairwise.nil, fun m hm ↦ absurd hm not_mem_nil⟩
          · exact h.tables id sd hfind
        · change chosen.ift.Reflects (membershipsOf (chosen.socketsByIdMap.assign sockId _))
          rw [membershipsOf_assign, hsockets, hift, membershipsOf_remove_of_notMem hfree]
          exact h.reflects
        · intro id
          rw [← h.filters_eq id]
          simp only [Udp.filters, socket, hfindNext]
          split
          · rename_i hid
            rw [hid, hfree]
            rfl
          · rfl
        · dsimp only
          rw [hfindNext, if_pos rfl]
        · rw [socket, hfree]
          rfl

/-- A call that does not go wrong gives its socket the filters that it should. -/
theorem Filtered.setOption {filters : ℤ → Filters} (h : Filtered filters udp)
    {call : MulticastCall} (hheeds : call.Heeds (udp.socket sockId)) :
    Safe (udp.setOption sockId (.multicast call)) fun next ↦
      Filtered (Function.update filters sockId (call.effect (filters sockId))) next := by
  apply h.getOrCreateSocket.bind
  rintro ⟨middle, sd⟩ ⟨hmiddle, hfind, htable⟩
  dsimp only at hmiddle hfind htable
  have hheeds' : call.Heeds sd := by
    cases call <;> simp only [MulticastCall.Heeds, htable] at hheeds ⊢ <;> exact hheeds
  have hfilters : tableFilters sd.multicastMembershipTable = filters sockId := by
    rw [htable, ← h.filters_eq sockId, Udp.filters]
  apply ((hmiddle.sound hfind).apply hheeds').bind
  rintro ⟨sd', ift'⟩ hreaches
  have hsound := hreaches.sound
  refine ⟨?_, ?_, ?_⟩
  · intro id sd'' hfind'
    rw [setSocket] at hfind'
    rw [AssocMap.find_assign] at hfind'
    split at hfind'
    · cases hfind'
      exact ⟨hsound.ordered, hsound.proper⟩
    · exact hmiddle.tables id sd'' hfind'
  · exact hsound.reflects
  · intro id
    have hfindNext : ({ middle.setSocket sockId sd' with ift := ift' } : Udp).socketsByIdMap.find
        id = if id = sockId then some sd' else middle.socketsByIdMap.find id :=
      AssocMap.find_assign
    simp only [Udp.filters, socket, hfindNext]
    by_cases hid : id = sockId
    · rw [if_pos hid, hid, Function.update_self, ← hfilters]
      exact hreaches.filters_eq
    · rw [if_neg hid, Function.update_of_ne hid]
      exact hmiddle.filters_eq id

theorem Filtered.merged {filters : ℤ → Filters} (h : Filtered filters udp) {k : ℕ}
    {ie : InterfaceEntry} {data : Ipv4.Ipv4InterfaceData}
    (hie : udp.ift.idToInterface[k]? = some ie) (hdata : ie.ipv4Data = some data)
    (group : Ipv4.Ipv4Address) :
    Merges (data.sourceFilter group)
      (udp.socketFilters (InterfaceTable.INTERFACEIDS_START + k : ℕ) ie.isMulticast group) := by
  have hcounted := (h.reflects k ie hie data hdata).2 group
  have honce : Ipv4.ExcludesOnce (filtersFor (membershipsOf udp.socketsByIdMap)
      (InterfaceTable.INTERFACEIDS_START + k : ℕ) ie.isMulticast group) := by
    intro filter hfilter hmode
    obtain ⟨m, hm, rfl⟩ := mem_map.mp hfilter
    obtain ⟨sockId, sd, hfind, hmem⟩ := mem_membershipsOf.mp (mem_filter.mp hm).1
    apply ((h.tables sockId sd hfind).2 m hmem).sourceList
    cases hm' : m.filterMode with
    | UDP_INCLUDE_MCAST_SOURCES =>
      rw [MulticastMembership.mcastFilter, hm'] at hmode
      cases hmode
    | UDP_EXCLUDE_MCAST_SOURCES => rfl
  have hmerges := hcounted.merges honce
  have hset : {filter | filter ∈ filtersFor (membershipsOf udp.socketsByIdMap)
      (InterfaceTable.INTERFACEIDS_START + k : ℕ) ie.isMulticast group} =
      udp.socketFilters (InterfaceTable.INTERFACEIDS_START + k : ℕ) ie.isMulticast group := by
    ext filter
    constructor
    · intro hfilter
      obtain ⟨m, hm, rfl⟩ := mem_map.mp hfilter
      obtain ⟨hmem, htest⟩ := mem_filter.mp hm
      rw [decide_eq_true_eq] at htest
      obtain ⟨sockId, sd, hfind, hmem⟩ := mem_membershipsOf.mp hmem
      exact ⟨sockId, sd, m, hfind, hmem, htest.1, htest.2, rfl⟩
    · rintro ⟨sockId, sd, m, hfind, hmem, hgroup, happlies, rfl⟩
      apply mem_map_of_mem
      rw [mem_filter, decide_eq_true_eq]
      exact ⟨mem_membershipsOf.mpr ⟨sockId, sd, hfind, hmem⟩, hgroup, happlies⟩
  rwa [hset] at hmerges

theorem Filtered.meansCalls {calls : List (ℤ × MulticastCall)}
    (h : Filtered (filtersAfter calls) udp) : MeansCalls calls udp where
  filters := h.filters_eq
  found sockId sd hfind membership hmem := by
    obtain ⟨before, after, hsplit⟩ := append_of_mem hmem
    exact ⟨_, (h.tables sockId sd hfind).1.findMulticastMembership_of_split hsplit⟩
  merged _ _ _ hie hdata group := h.merged hie hdata group
  consistent sockId call hheeds error herror := by
    have hsafe := h.setOption hheeds
    rwa [herror] at hsafe

theorem filtered_initial {ift : InterfaceTable} (hunjoined : Unjoined ift) :
    Filtered (filtersAfter []) { ift := ift } where
  tables _ _ hfind := by cases hfind
  reflects := by
    intro k ie hie data hdata
    have hnone := hunjoined ie (mem_of_getElem? hie) data hdata
    constructor
    · rw [Ipv4.Ipv4InterfaceData.Distinct, hnone]
      exact nodup_nil
    · intro group
      rw [Ipv4.Ipv4InterfaceData.Counted, Ipv4.Ipv4InterfaceData.findHostGroupData, hnone]
      exact fun filter hfilter ↦ absurd hfilter not_mem_nil
  filters_eq _ := rfl

/-- In every run of calls that do not go wrong, the filters mean what the calls say. -/
theorem meansCalls_of_run {ift : InterfaceTable} (hunjoined : Unjoined ift)
    {calls : List (ℤ × MulticastCall)} {udp : Udp}
    (hrun : (callMachine.restrict HeedsFilters).Run { ift := ift } calls udp) :
    MeansCalls calls udp := by
  have hfiltered : Filtered (filtersAfter calls) udp := by
    refine hrun.invariant_history (P := fun calls udp ↦ Filtered (filtersAfter calls) udp) ?_
      (filtered_initial hunjoined)
    intro past s call t hs hstep
    obtain ⟨hstep, hheeds⟩ := Machine.step_restrict_iff.mp hstep
    rw [filtersAfter, foldl_append]
    exact (hs.setOption hheeds).ok hstep.2
  exact hfiltered.meansCalls

/-- An interface for multicast packets. -/
def oneInterface : InterfaceTable where
  idToInterface := [{ isMulticast := true }]

/-- A socket that joins a group on all interfaces, and another one that includes one source. -/
theorem meansCalls_of_run_twoSockets :
    ∃ udp, (callMachine.restrict HeedsFilters).Run { ift := oneInterface }
      [(1, .joinMulticastGroups [.IPv4 0xE0010101#32] []),
        (2, .setMulticastSourceFilter 100 (.IPv4 0xE0010101#32) UDP_INCLUDE_MCAST_SOURCES
          [.IPv4 0x0A000005#32])] udp ∧
      MeansCalls [(1, .joinMulticastGroups [.IPv4 0xE0010101#32] []),
        (2, .setMulticastSourceFilter 100 (.IPv4 0xE0010101#32) UDP_INCLUDE_MCAST_SOURCES
          [.IPv4 0x0A000005#32])] udp := by
  have hexec : ∃ udp, (callMachine.restrict HeedsFilters).Run { ift := oneInterface }
      [(1, .joinMulticastGroups [.IPv4 0xE0010101#32] []),
        (2, .setMulticastSourceFilter 100 (.IPv4 0xE0010101#32) UDP_INCLUDE_MCAST_SOURCES
          [.IPv4 0x0A000005#32])] udp := by
    refine ⟨_, .cons ⟨⟨trivial, ?_⟩, rfl⟩ (.cons ⟨⟨trivial, ?_, ?_⟩, rfl⟩ (.nil _))⟩
    · change Unmixed [(.IPv4 0xE0010101#32, -1)]
      intro key hkey key' hkey' _ _
      rw [mem_singleton.mp hkey']
    · change Unmixed [(.IPv4 0xE0010101#32, 100)]
      intro key hkey key' hkey' _ hall
      rw [mem_singleton.mp hkey] at hall
      cases hall
    · intro hmode
      cases hmode
  obtain ⟨udp, hrun⟩ := hexec
  refine ⟨udp, hrun, meansCalls_of_run ?_ hrun⟩
  intro ie hie data hdata
  rw [mem_singleton.mp hie] at hdata
  cases hdata
  rfl

/-- A socket asks for one source of a group. -/
def joinOneSource : List (ℤ × MulticastCall) :=
  [(1, .joinMulticastSources 100 (.IPv4 0xE0010101#32) [.IPv4 0x0A000005#32])]

/-- The source that is asked for is not included. -/
theorem not_meansCalls_joinOneSource :
    ∃ udp, callMachine.Run { ift := oneInterface } joinOneSource udp ∧
      ¬MeansCalls joinOneSource udp := by
  have hexec : ∃ udp, callMachine.Run { ift := oneInterface } joinOneSource udp ∧
      (udp.socket 1).multicastMembershipTable.all fun membership ↦ membership.sourceList = [] := by
    apply Machine.exists_run_of_exec
    decide +kernel
  obtain ⟨udp, hrun, hempty⟩ := hexec
  refine ⟨udp, hrun, ?_⟩
  intro hmeans
  have hfilter := congrFun (hmeans.filters 1) (.IPv4 0xE0010101#32, 100)
  have hasked : L3Address.IPv4 0x0A000005#32 ∈
      (filtersAfter joinOneSource 1 (.IPv4 0xE0010101#32, 100)).sources :=
    Or.inr (mem_singleton.mpr rfl)
  rw [← hfilter, Udp.filters, tableFilters] at hasked
  cases hfind : (udp.socket 1).multicastMembershipTable.find? fun membership ↦
      membership.key = (.IPv4 0xE0010101#32, 100) with
  | none =>
    rw [hfind] at hasked
    cases hasked
  | some membership =>
    have hnil := all_eq_true.mp hempty membership (mem_of_find?_eq_some hfind)
    rw [decide_eq_true_eq] at hnil
    rw [hfind] at hasked
    have hsource : L3Address.IPv4 0x0A000005#32 ∈ membership.sourceList := hasked
    rw [hnil] at hsource
    cases hsource

end Udp

end Inet4
