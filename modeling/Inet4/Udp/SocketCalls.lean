import Inet4.Udp.InterfaceFilters

/-!
# What a socket call does to the filters

A filter is a mode and a set of sources; a socket without a membership includes no source.  Each
call has an effect on the filters of its socket.  The code has this effect where it meets one of the
calls in which it does not go wrong, and then the interfaces have counted the filters it leaves.
-/

namespace Inet4.Udp

open List InterfaceTable MulticastCall MulticastMembership
open Ipv4 (Ipv4Address McastSourceFilterMode)
open UdpSourceFilterMode

/-! ## Filters -/

/-- What a socket has asked for: the sources it includes, or those it excludes. -/
@[ext]
structure SourceFilter where
  mode : UdpSourceFilterMode
  sources : Set L3Address

/-- The filter of a socket that is no member. -/
def SourceFilter.none : SourceFilter where
  mode := UDP_INCLUDE_MCAST_SOURCES
  sources := ∅

/-- The filter of a socket that has joined all sources. -/
def SourceFilter.all : SourceFilter where
  mode := UDP_EXCLUDE_MCAST_SOURCES
  sources := ∅

/-- The filters of a socket, by group and interface. -/
abbrev Filters := L3Address × ℤ → SourceFilter

/-- The groups of a join with the interfaces they are joined on. -/
def joinedKeys : List L3Address → List ℤ → List (L3Address × ℤ)
  | [], _ => []
  | multicastAddr :: multicastAddresses, interfaceIds =>
    (multicastAddr, interfaceIds.headD (-1)) :: joinedKeys multicastAddresses interfaceIds.tail

/-- The filters after a call: join adds sources and leave removes them, block adds to the excluded
sources and unblock removes from them. -/
def MulticastCall.effect : MulticastCall → Filters → Filters
  | .joinMulticastGroups multicastAddresses interfaceIds, filters => fun key ↦
    if key ∈ joinedKeys multicastAddresses interfaceIds then .all else filters key
  | .leaveMulticastGroups multicastAddresses, filters => fun key ↦
    if key.1 ∈ multicastAddresses then .none else filters key
  | .blockMulticastSources interfaceId multicastAddress sourceList, filters => fun key ↦
    if key = (multicastAddress, interfaceId) then
      { filters key with sources := (filters key).sources ∪ {source | source ∈ sourceList} }
    else filters key
  | .unblockMulticastSources interfaceId multicastAddress sourceList, filters => fun key ↦
    if key = (multicastAddress, interfaceId) then
      { filters key with sources := (filters key).sources \ {source | source ∈ sourceList} }
    else filters key
  | .leaveMulticastSources interfaceId multicastAddress sourceList, filters => fun key ↦
    if key = (multicastAddress, interfaceId) then
      { filters key with sources := (filters key).sources \ {source | source ∈ sourceList} }
    else filters key
  | .joinMulticastSources interfaceId multicastAddress sourceList, filters => fun key ↦
    if key = (multicastAddress, interfaceId) then
      { filters key with sources := (filters key).sources ∪ {source | source ∈ sourceList} }
    else filters key
  | .setMulticastSourceFilter interfaceId multicastAddress filterMode sourceList, filters =>
    fun key ↦
      if key = (multicastAddress, interfaceId) then
        { mode := filterMode
          sources := {source | source ∈ sourceList} }
      else filters key

/-- The filter of a membership. -/
def MulticastMembership.sourceFilter (membership : MulticastMembership) : SourceFilter where
  mode := membership.filterMode
  sources := {source | source ∈ membership.sourceList}

/-- The filters in a membership table. -/
def tableFilters (table : List MulticastMembership) : Filters := fun key ↦
  ((table.find? fun membership ↦ membership.key = key).map
    sourceFilter).getD .none

variable {table before after others : List MulticastMembership}
variable {membership membership' : MulticastMembership} {key : L3Address × ℤ}

theorem tableFilters_of_mem (h : Ordered table) (hmem : membership ∈ table) :
    tableFilters table membership.key = membership.sourceFilter := by
  have hfind : table.find? (fun m ↦ m.key = membership.key) = some membership := by
    induction table with
    | nil => cases hmem
    | cons head table ih =>
      rw [Ordered, pairwise_cons] at h
      rw [find?_cons]
      rcases mem_cons.mp hmem with rfl | hmem
      · simp
      · have hne : head.key ≠ membership.key := by
          intro heq
          have hbefore := h.1 membership hmem
          rw [heq] at hbefore
          rcases hbefore with hlt | ⟨-, -, -, hlt⟩
          · rw [L3Address.lessThan_irrefl] at hlt
            cases hlt
          · exact lt_irrefl _ hlt
        simp only [hne, decide_false]
        exact ih h.2 hmem
  rw [tableFilters, hfind]
  rfl

theorem tableFilters_of_notMem (h : ∀ membership ∈ table, membership.key ≠ key) :
    tableFilters table key = .none := by
  have hfind : table.find? (fun m ↦ decide (m.key = key)) = none := by
    rw [find?_eq_none]
    intro m hm
    rw [decide_eq_true_eq]
    exact h m hm
  rw [tableFilters, hfind]
  rfl

/-- Two tables with the same memberships of a key have the same filter for it. -/
theorem tableFilters_congr {table' : List MulticastMembership} (h : Ordered table)
    (h' : Ordered table')
    (hmem : ∀ membership, membership.key = key → (membership ∈ table ↔ membership ∈ table')) :
    tableFilters table key = tableFilters table' key := by
  by_cases hex : ∃ membership ∈ table, membership.key = key
  · obtain ⟨membership, hmembership, rfl⟩ := hex
    rw [tableFilters_of_mem h hmembership,
      tableFilters_of_mem h' ((hmem membership rfl).mp hmembership)]
  · rw [tableFilters_of_notMem, tableFilters_of_notMem]
    · intro membership hmembership hkey
      exact hex ⟨membership, (hmem membership hkey).mpr hmembership, hkey⟩
    · intro membership hmembership hkey
      exact hex ⟨membership, hmembership, hkey⟩

/-- One membership more, or another one in its place. -/
theorem tableFilters_insert (h : Ordered (before ++ membership :: after)) (key : L3Address × ℤ) :
    tableFilters (before ++ membership :: after) key =
      if key = membership.key then membership.sourceFilter
      else tableFilters (before ++ after) key := by
  split
  · rename_i hkey
    rw [hkey]
    exact tableFilters_of_mem h (mem_append_right before mem_cons_self)
  · rename_i hkey
    apply tableFilters_congr h h.delete
    intro m hm
    have hne : m ≠ membership := by
      rintro rfl
      exact hkey hm.symm
    simp [hne]

theorem tableFilters_delete (h : Ordered (before ++ membership :: after)) :
    tableFilters (before ++ after) membership.key = .none := by
  apply tableFilters_of_notMem
  intro m hm heq
  rw [Ordered, pairwise_append, pairwise_cons] at h
  have hne : ¬Before membership.key membership.key := by
    rintro (hlt | ⟨-, -, -, hlt⟩)
    · rw [L3Address.lessThan_irrefl] at hlt
      cases hlt
    · exact lt_irrefl _ hlt
  rcases mem_append.mp hm with hm | hm
  · have hbefore := h.2.2 m hm membership mem_cons_self
    rw [heq] at hbefore
    exact hne hbefore
  · have hbefore := h.2.1.1 m hm
    rw [heq] at hbefore
    exact hne hbefore

/-! ## Sound sockets -/

/-- A membership is for one interface or for all, and excludes no source twice. -/
structure MulticastMembership.Proper (membership : MulticastMembership) : Prop where
  interfaceId : -1 ≤ membership.interfaceId
  sourceList : membership.filterMode = UDP_EXCLUDE_MCAST_SOURCES →
    (membership.sourceList.map ipv4Of).Nodup

/-- The table of a socket can be searched, and the interfaces have counted it together with the
memberships of the other sockets. -/
structure Sound (state : Sockets) (others : List MulticastMembership) : Prop where
  ordered : Ordered state.1.multicastMembershipTable
  proper : ∀ membership ∈ state.1.multicastMembershipTable, membership.Proper
  reflects : state.2.Reflects (state.1.multicastMembershipTable ++ others)

/-- A state has got the filters that a call should give it. -/
structure Reaches (state : Sockets) (others : List MulticastMembership) (filters : Filters) :
    Prop where
  sound : Sound state others
  filters_eq : tableFilters state.1.multicastMembershipTable = filters

variable {state : Sockets} {sd : SockDesc} {ift : InterfaceTable}

theorem Sound.reaches (h : Sound state others) :
    Reaches state others (tableFilters state.1.multicastMembershipTable) := ⟨h, rfl⟩

theorem Reaches.congr {filters filters' : Filters} (h : Reaches state others filters)
    (heq : ∀ key, filters key = filters' key) : Reaches state others filters' := by
  rwa [← funext heq]

/-- A membership is put between the others, and the interfaces have heard of it. -/
theorem reaches_insert (htable : sd.multicastMembershipTable = before ++ membership :: after)
    (hordered : Ordered (before ++ membership :: after)) (hmembership : membership.Proper)
    (hproper : ∀ m ∈ before ++ after, m.Proper)
    (hreflects : ift.Reflects (membership :: (before ++ after ++ others))) :
    Reaches (sd, ift) others fun key ↦
      if key = membership.key then membership.sourceFilter
      else tableFilters (before ++ after) key := by
  constructor
  · constructor
    · rwa [htable]
    · rw [htable]
      intro m hm
      rcases mem_append.mp hm with hm | hm
      · exact hproper m (mem_append_left _ hm)
      · rcases mem_cons.mp hm with rfl | hm
        · exact hmembership
        · exact hproper m (mem_append_right _ hm)
    · apply hreflects.perm
      simp only [htable, append_assoc, cons_append]
      exact perm_middle.symm
  · rw [htable]
    exact funext (tableFilters_insert hordered)

/-- The memberships apart from one are proper. -/
theorem Sound.proper_rest (h : Sound (sd, ift) others)
    (hsplit : sd.multicastMembershipTable = before ++ membership :: after) :
    ∀ m ∈ before ++ after, m.Proper := by
  intro m hm
  apply h.proper
  rw [hsplit]
  rcases mem_append.mp hm with hm | hm
  · exact mem_append_left _ hm
  · exact mem_append_right _ (mem_cons_of_mem _ hm)

/-- A membership is replaced, and the interfaces have heard of it. -/
theorem Sound.replace (h : Sound (sd, ift) others)
    (hsplit : sd.multicastMembershipTable = before ++ membership :: after) {ift' : InterfaceTable}
    (hreflects : ift'.Reflects (membership' :: (before ++ after ++ others)))
    (hkey : membership'.key = membership.key)
    (hsourceList : membership'.filterMode = UDP_EXCLUDE_MCAST_SOURCES →
      (membership'.sourceList.map ipv4Of).Nodup) :
    Reaches (sd.setMulticastMembership before.length membership', ift') others fun key ↦
      if key = membership.key then membership'.sourceFilter
      else tableFilters sd.multicastMembershipTable key := by
  have hordered := h.ordered
  simp only [hsplit] at hordered
  have hmembership : membership'.Proper := by
    refine ⟨?_, hsourceList⟩
    have hid : membership'.interfaceId = membership.interfaceId := congrArg Prod.snd hkey
    rw [hid]
    exact (h.proper membership (by simp [hsplit])).interfaceId
  apply (reaches_insert (setMulticastMembership_of_split hsplit) (hordered.replace hkey)
    hmembership (h.proper_rest hsplit) hreflects).congr
  intro key
  rw [hkey, hsplit, tableFilters_insert hordered]
  split
  · rfl
  · rfl

/-- A membership is deleted, and the interfaces have heard of it. -/
theorem Sound.delete (h : Sound (sd, ift) others)
    (hsplit : sd.multicastMembershipTable = before ++ membership :: after) {ift' : InterfaceTable}
    (hreflects : ift'.Reflects (before ++ after ++ others)) :
    Reaches (sd.deleteMulticastMembership before.length, ift') others fun key ↦
      if key = membership.key then .none else tableFilters sd.multicastMembershipTable key := by
  have hordered := h.ordered
  simp only [hsplit] at hordered
  have htable := deleteMulticastMembership_of_split hsplit
  constructor
  · constructor
    · rw [htable]
      exact hordered.delete
    · rw [htable]
      exact h.proper_rest hsplit
    · rw [htable]
      exact hreflects
  · rw [htable]
    funext key
    rw [hsplit]
    split
    · rename_i hkey
      rw [hkey, tableFilters_delete hordered]
    · rename_i hne
      rw [tableFilters_insert hordered, if_neg hne]

/-- The interfaces have counted a membership of the table apart from the rest. -/
theorem Sound.reflects_split (h : Sound (sd, ift) others)
    (hsplit : sd.multicastMembershipTable = before ++ membership :: after) :
    ift.Reflects (membership :: (before ++ after ++ others)) := by
  apply h.reflects.perm
  simp only [hsplit, append_assoc, cons_append]
  exact perm_middle

/-! ## Lists of sources -/

theorem eraseSources_sublist (sources sourceList : List L3Address) :
    (eraseSources sources sourceList).1.Sublist sources := by
  induction sourceList generalizing sources with
  | nil => exact List.Sublist.refl sources
  | cons source sourceList ih =>
    rw [eraseSources]
    split
    · exact (ih _).trans erase_sublist
    · exact ih sources

/-- Without duplicates the sources that are erased are gone. -/
theorem mem_eraseSources {sources : List L3Address} (hnodup : sources.Nodup)
    (sourceList : List L3Address) (source : L3Address) :
    source ∈ (eraseSources sources sourceList).1 ↔ source ∈ sources ∧ source ∉ sourceList := by
  induction sourceList generalizing sources with
  | nil => simp [eraseSources]
  | cons head sourceList ih =>
    rw [eraseSources]
    split
    · simp only [ih (hnodup.erase head), hnodup.mem_erase_iff, mem_cons, not_or]
      tauto
    · rename_i hhead
      simp only [ih hnodup, mem_cons, not_or]
      constructor
      · rintro ⟨hsource, hnot⟩
        exact ⟨hsource, fun heq ↦ hhead (heq ▸ hsource), hnot⟩
      · rintro ⟨hsource, -, hnot⟩
        exact ⟨hsource, hnot⟩

theorem eraseSources_unchanged {sources sourceList : List L3Address}
    (h : (eraseSources sources sourceList).2 = false) :
    (eraseSources sources sourceList).1 = sources := by
  induction sourceList with
  | nil => rfl
  | cons source sourceList ih =>
    rw [eraseSources] at h ⊢
    split at h
    · cases h
    · rename_i hnot
      rw [if_neg hnot]
      exact ih h

theorem eraseSources_of_disjoint {sources sourceList : List L3Address}
    (h : ∀ source ∈ sourceList, source ∉ sources) :
    eraseSources sources sourceList = (sources, false) := by
  induction sourceList with
  | nil => rfl
  | cons source sourceList ih =>
    rw [forall_mem_cons] at h
    rw [eraseSources, if_neg h.1]
    exact ih h.2

/-- The loop appends no source that is not there. -/
theorem mem_appendSources (sources sourceList : List L3Address) (source : L3Address) :
    source ∈ (appendSources sources sourceList).1 ↔ source ∈ sources := by
  induction sourceList generalizing sources with
  | nil => rfl
  | cons head sourceList ih =>
    rw [appendSources]
    split
    · rename_i hhead
      rw [ih, mem_append, mem_singleton]
      constructor
      · rintro (hsource | rfl)
        · exact hsource
        · exact hhead
      · exact Or.inl
    · exact ih sources

theorem appendSources_unchanged {sources sourceList : List L3Address}
    (h : (appendSources sources sourceList).2 = false) :
    (appendSources sources sourceList).1 = sources := by
  induction sourceList with
  | nil => rfl
  | cons source sourceList ih =>
    rw [appendSources] at h ⊢
    split at h
    · cases h
    · rename_i hnot
      rw [if_neg hnot]
      exact ih h

/-! ## The calls -/

/-- Memberships on all interfaces and on one are not mixed in a group. -/
def Unmixed (keys : List (L3Address × ℤ)) : Prop :=
  ∀ key ∈ keys, ∀ key' ∈ keys, key.1 = key'.1 → key.2 = -1 → key'.2 = -1

/-- The call is none of those in which the code goes wrong. -/
def MulticastCall.Heeds (sd : SockDesc) : MulticastCall → Prop
  | .joinMulticastGroups multicastAddresses interfaceIds =>
    Unmixed (joinedKeys multicastAddresses interfaceIds ++
      sd.multicastMembershipTable.map MulticastMembership.key)
  | .leaveMulticastGroups _ => True
  | .blockMulticastSources _ _ sourceList => sourceList = []
  | .unblockMulticastSources _ _ _ => True
  | .leaveMulticastSources interfaceId multicastAddress sourceList =>
    ∀ source ∈ sourceList, source ∉
      (tableFilters sd.multicastMembershipTable (multicastAddress, interfaceId)).sources
  | .joinMulticastSources interfaceId multicastAddress sourceList =>
    Unmixed ((multicastAddress, interfaceId) ::
        sd.multicastMembershipTable.map MulticastMembership.key) ∧
      ∀ source ∈ sourceList, source ∈
        (tableFilters sd.multicastMembershipTable (multicastAddress, interfaceId)).sources
  | .setMulticastSourceFilter interfaceId multicastAddress filterMode sourceList =>
    Unmixed ((multicastAddress, interfaceId) ::
        sd.multicastMembershipTable.map MulticastMembership.key) ∧
      (filterMode = UDP_EXCLUDE_MCAST_SOURCES → (sourceList.map ipv4Of).Nodup)

/-- A key that is not found is fresh in an unmixed table. -/
theorem fresh_of_unmixed {keys : List (L3Address × ℤ)} (hunmixed : Unmixed keys)
    (hkey : key ∈ keys) (htable : ∀ membership ∈ table, membership.key ∈ keys)
    (hnone : ∀ membership ∈ table, membership.multicastAddress = key.1 →
      membership.interfaceId ≠ key.2) : Fresh table key := by
  intro m hm haddress
  have hne := hnone m hm haddress
  refine ⟨?_, ?_, hne⟩
  · intro hall
    have hall' := hunmixed m.key (htable m hm) key hkey haddress hall
    exact hne (hall.trans hall'.symm)
  · intro hall
    have hall' := hunmixed key hkey m.key (htable m hm) haddress.symm hall
    exact hne (Eq.trans hall' hall.symm)

theorem safe_checkMulticastCall (state : Sockets) (interfaceId : ℤ)
    (multicastAddress : L3Address) :
    Safe (checkMulticastCall state interfaceId multicastAddress) fun _ ↦ 0 ≤ interfaceId := by
  apply (safe_getInterfaceById state.2 interfaceId).bind
  rintro ie ⟨k, hid, -⟩
  apply (safe_throwIf (by decide)).bind
  intro _ _
  have hmulticast : Safe multicastAddress.isMulticast fun _ ↦ True := by
    cases multicastAddress with
    | NONE =>
      change ¬IsInconsistency _
      decide
    | _ => trivial
  apply hmulticast.bind
  intro _ _
  apply (safe_throwIf (by decide)).mono
  intro _ _
  omega

/-- The sources of a membership are written and reported. -/
theorem Sound.reportSources (h : Sound (sd, ift) others)
    (hsplit : sd.multicastMembershipTable = before ++ membership :: after)
    {sources : List L3Address × Bool} {oldMode newMode : McastSourceFilterMode}
    (hsame : sources.2 = false → sources.1 = membership.sourceList)
    (hmode : sources.2 = true → oldMode = membership.filterMode.toMcast ∧
      newMode = membership.filterMode.toMcast)
    (hall : membership.interfaceId ≠ -1)
    (hnodup : membership.filterMode = UDP_EXCLUDE_MCAST_SOURCES →
      (sources.1.map ipv4Of).Nodup) :
    Safe (Udp.reportSources (sd, ift) before.length membership sources oldMode newMode)
      fun state ↦ Reaches state others fun key ↦
        if key = membership.key then
          { mode := membership.filterMode
            sources := {source | source ∈ sources.1} }
        else tableFilters sd.multicastMembershipTable key := by
  rw [Udp.reportSources]
  split
  · rename_i hchanged
    obtain ⟨rfl, rfl⟩ := hmode hchanged
    have hright : RightFor membership { membership with sourceList := sources.1 }
        (before ++ after ++ others) _ := rightFor_change rfl
    have hupdate := (h.reflects_split hsplit).update hright rfl
    rw [update, if_pos hall] at hupdate
    apply hupdate.bind
    intro ift' hift'
    exact h.replace hsplit hift' rfl hnodup
  · rename_i hunchanged
    have heq := hsame (Bool.eq_false_iff.mpr hunchanged)
    have hsplit' := h.reflects_split hsplit
    have hself : ({ membership with sourceList := sources.1 } : MulticastMembership) =
        membership := by rw [heq]
    rw [← hself] at hsplit'
    exact h.replace hsplit hsplit' rfl hnodup

/-- A membership that a call requires stands in the table. -/
theorem safe_requireMembership {interfaceId : ℤ} {multicastAddress : L3Address}
    {filterMode : UdpSourceFilterMode} {notAMember wrongMode : String}
    (hnotAMember : ¬IsInconsistency (.runtimeError notAMember))
    (hwrongMode : ¬IsInconsistency (.runtimeError wrongMode)) :
    Safe (requireMembership state interfaceId multicastAddress filterMode notAMember wrongMode)
      fun found ↦ ∃ before after,
        state.1.multicastMembershipTable = before ++ found.2 :: after ∧
          before.length = found.1 ∧ found.2.key = (multicastAddress, interfaceId) ∧
            found.2.filterMode = filterMode := by
  rw [requireMembership]
  split
  · exact hnotAMember
  · rename_i position membership hfound
    split
    · exact hwrongMode
    · rename_i hmode
      rw [ne_eq, not_not] at hmode
      obtain ⟨before, after, hsplit, hlength, haddress, hid⟩ :=
        findMulticastMembership_eq_some hfound
      exact ⟨before, after, hsplit, hlength, Prod.ext haddress hid, hmode⟩

/-- A membership that is found or added stands in a table with the same filters. -/
theorem Sound.findOrAddMembership (h : Sound (sd, ift) others) {interfaceId : ℤ}
    {multicastAddress : L3Address} (hid : 0 ≤ interfaceId)
    (hunmixed : Unmixed ((multicastAddress, interfaceId) ::
      sd.multicastMembershipTable.map MulticastMembership.key)) :
    ∃ before after,
      (Udp.findOrAddMembership sd interfaceId multicastAddress).1.multicastMembershipTable =
          before ++ (Udp.findOrAddMembership sd interfaceId multicastAddress).2.2 :: after ∧
        before.length = (Udp.findOrAddMembership sd interfaceId multicastAddress).2.1 ∧
        (Udp.findOrAddMembership sd interfaceId multicastAddress).2.2.key =
          (multicastAddress, interfaceId) ∧
        Reaches ((Udp.findOrAddMembership sd interfaceId multicastAddress).1, ift) others
          (tableFilters sd.multicastMembershipTable) := by
  rw [Udp.findOrAddMembership]
  split
  · rename_i found hfound
    obtain ⟨before, after, hsplit, hlength, haddress, hid'⟩ :=
      findMulticastMembership_eq_some hfound
    exact ⟨before, after, hsplit, hlength, Prod.ext haddress hid', h.reaches⟩
  · rename_i hnone
    have hfresh : Fresh sd.multicastMembershipTable (multicastAddress, interfaceId) := by
      apply fresh_of_unmixed hunmixed mem_cons_self
      · intro m hm
        exact mem_cons_of_mem _ (mem_map_of_mem hm)
      · exact h.ordered.findMulticastMembership_eq_none hnone
    obtain ⟨before, after, hsplit, hadd, hordered⟩ := h.ordered.addMulticastMembership
      { interfaceId := interfaceId
        multicastAddress := multicastAddress
        filterMode := UDP_INCLUDE_MCAST_SOURCES } hfresh
    dsimp only
    rw [hadd]
    refine ⟨before, after, rfl, rfl, rfl, ?_⟩
    have hproper : ∀ m ∈ before ++ after, m.Proper := by
      rw [← hsplit]
      exact h.proper
    have hreflects : ift.Reflects (before ++ after ++ others) := by
      rw [← hsplit]
      exact h.reflects
    have hadded := (reflects_cons_empty
      { interfaceId := interfaceId
        multicastAddress := multicastAddress
        filterMode := UDP_INCLUDE_MCAST_SOURCES } rfl rfl).mpr hreflects
    have hid' : -1 ≤ interfaceId := by omega
    apply (reaches_insert rfl hordered ⟨hid', fun hmode ↦ nomatch hmode⟩ hproper hadded).congr
    intro key
    rw [hsplit]
    split
    · rename_i hkey
      rw [hkey, tableFilters_delete hordered]
      simp [sourceFilter, SourceFilter.none]
    · rfl

/-! ### Groups -/

/-- A group that is joined has the filter for all sources. -/
theorem Sound.joinMulticastGroup (h : Sound (sd, ift) others) {multicastAddr : L3Address}
    {interfaceId : ℤ} {keys : List (L3Address × ℤ)} (hunmixed : Unmixed keys)
    (hkey : (multicastAddr, interfaceId) ∈ keys)
    (htable : ∀ membership ∈ sd.multicastMembershipTable, membership.key ∈ keys) :
    Safe (Udp.joinMulticastGroup (sd, ift) multicastAddr interfaceId) fun state ↦
      Reaches state others (fun key ↦ if key = (multicastAddr, interfaceId) then .all
        else tableFilters sd.multicastMembershipTable key) ∧
      ∀ membership ∈ state.1.multicastMembershipTable, membership.key ∈ keys := by
  have hmulticast : Safe multicastAddr.isMulticast fun _ ↦ True := by
    cases multicastAddr with
    | NONE =>
      change ¬IsInconsistency _
      decide
    | _ => trivial
  apply hmulticast.bind
  intro _ _
  apply (safe_throwIf (by decide)).bind
  intro _ _
  apply (safe_throwIf (by decide)).bind
  intro _ hnone
  have hnone : sd.findMulticastMembership multicastAddr interfaceId = none := by
    simpa using hnone
  have hfresh : Fresh sd.multicastMembershipTable (multicastAddr, interfaceId) :=
    fresh_of_unmixed hunmixed hkey htable (h.ordered.findMulticastMembership_eq_none hnone)
  obtain ⟨before, after, hsplit, hadd, hordered⟩ := h.ordered.addMulticastMembership
    { interfaceId := interfaceId
      multicastAddress := multicastAddr
      filterMode := UDP_EXCLUDE_MCAST_SOURCES } hfresh
  have hid : Safe (checkInterface ift interfaceId) fun _ ↦ -1 ≤ interfaceId := by
    rw [checkInterface]
    split
    · apply (safe_getInterfaceById ift interfaceId).bind
      rintro ie ⟨k, hid, -⟩
      apply (safe_throwIf (by decide)).mono
      intro _ _
      omega
    · rename_i hall
      rw [not_not] at hall
      exact le_of_eq hall.symm
  apply hid.bind
  intro _ hid
  -- before the report the membership counts for nothing
  have hreflects : ift.Reflects (before ++ after ++ others) := by
    rw [← hsplit]
    exact h.reflects
  have hold := (reflects_cons_empty
    { interfaceId := interfaceId
      multicastAddress := multicastAddr
      filterMode := UDP_INCLUDE_MCAST_SOURCES } rfl rfl).mpr hreflects
  have hright : RightFor
      { interfaceId := interfaceId
        multicastAddress := multicastAddr
        filterMode := UDP_INCLUDE_MCAST_SOURCES }
      { interfaceId := interfaceId
        multicastAddress := multicastAddr
        filterMode := UDP_EXCLUDE_MCAST_SOURCES } (before ++ after ++ others) _ :=
    rightFor_addMulticastAddress rfl rfl rfl
  apply (hold.update hright rfl).bind
  intro ift' hift'
  rw [hadd]
  constructor
  · have hproper : ∀ m ∈ before ++ after, m.Proper := by
      rw [← hsplit]
      exact h.proper
    apply (reaches_insert rfl hordered ⟨hid, fun _ ↦ nodup_nil⟩ hproper hift').congr
    intro key
    rw [hsplit]
    by_cases hkey : key = (multicastAddr, interfaceId)
    · simp [hkey, MulticastMembership.key, MulticastMembership.sourceFilter, SourceFilter.all]
    · simp [hkey, MulticastMembership.key]
  · intro m hm
    rcases mem_append.mp hm with hm | hm
    · exact htable m (by rw [hsplit]; exact mem_append_left _ hm)
    · rcases mem_cons.mp hm with rfl | hm
      · exact hkey
      · exact htable m (by rw [hsplit]; exact mem_append_right _ hm)

theorem Sound.joinMulticastGroups (h : Sound (sd, ift) others)
    {multicastAddresses : List L3Address} {interfaceIds : List ℤ}
    {keys : List (L3Address × ℤ)} (hunmixed : Unmixed keys)
    (hkeys : ∀ key ∈ joinedKeys multicastAddresses interfaceIds, key ∈ keys)
    (htable : ∀ membership ∈ sd.multicastMembershipTable, membership.key ∈ keys) :
    Safe (Udp.joinMulticastGroups (sd, ift) multicastAddresses interfaceIds) fun state ↦
      Reaches state others fun key ↦
        if key ∈ joinedKeys multicastAddresses interfaceIds then .all
        else tableFilters sd.multicastMembershipTable key := by
  induction multicastAddresses generalizing sd ift interfaceIds with
  | nil => exact h.reaches
  | cons multicastAddr multicastAddresses ih =>
    rw [joinedKeys, forall_mem_cons] at hkeys
    apply (h.joinMulticastGroup hunmixed hkeys.1 htable).bind
    rintro ⟨sd', ift'⟩ ⟨hreaches, htable'⟩
    apply (ih hreaches.sound hkeys.2 htable').mono
    intro state hstate
    apply hstate.congr
    intro key
    rw [hreaches.filters_eq, joinedKeys]
    by_cases hrest : key ∈ joinedKeys multicastAddresses interfaceIds.tail
    · simp [hrest]
    · simp [hrest]

/-- The loop deletes the memberships of a group one by one. -/
theorem Sound.leaveMemberships {members : List MulticastMembership} (fuel : ℕ)
    {multicastAddress : L3Address} (h : Sound (sd, ift) others)
    (hsplit : sd.multicastMembershipTable = before ++ (members ++ after))
    (hmembers : ∀ membership ∈ members, membership.multicastAddress = multicastAddress)
    (hafter : ∀ membership ∈ after, membership.multicastAddress ≠ multicastAddress)
    (hfuel : members.length ≤ fuel) :
    Safe (Udp.leaveMemberships multicastAddress before.length fuel (sd, ift)) fun state ↦
      Reaches state others fun key ↦
        if ∃ membership ∈ members, membership.key = key then .none
        else tableFilters sd.multicastMembershipTable key := by
  induction members generalizing sd ift fuel with
  | nil =>
    have hdone : Udp.leaveMemberships multicastAddress before.length fuel (sd, ift) =
        .ok (sd, ift) := by
      cases fuel with
      | zero => rfl
      | succ fuel =>
        simp only [Udp.leaveMemberships, hsplit, nil_append,
          getElem?_append_right le_rfl, Nat.sub_self]
        cases after with
        | nil => rfl
        | cons membership after =>
          simp [hafter membership mem_cons_self]
    rw [hdone]
    apply h.reaches.congr
    intro key
    simp
  | cons membership members ih =>
    cases fuel with
    | zero => cases hfuel
    | succ fuel =>
      rw [forall_mem_cons] at hmembers
      have hget : sd.multicastMembershipTable[before.length]? = some membership := by
        rw [hsplit, getElem?_append_right le_rfl, Nat.sub_self]
        rfl
      have hsplit' : sd.multicastMembershipTable = before ++ membership :: (members ++ after) :=
        hsplit
      have hstep : Udp.leaveMemberships multicastAddress before.length (fuel + 1) (sd, ift) =
          (do
            let ift' ← ift.update membership.interfaceId fun ie ↦
              ie.changeMulticastGroupMembership membership.multicastAddress
                membership.filterMode.toMcast membership.sourceList .MCAST_INCLUDE_SOURCES []
            Udp.leaveMemberships multicastAddress before.length fuel
              (sd.deleteMulticastMembership before.length, ift')) := by
        simp only [Udp.leaveMemberships, hget]
        rw [if_neg (by simp [hmembers.1])]
      rw [hstep]
      have hright : RightFor membership
          { membership with
            filterMode := UDP_INCLUDE_MCAST_SOURCES
            sourceList := [] } (before ++ (members ++ after) ++ others) _ :=
        rightFor_change rfl
      apply ((h.reflects_split hsplit').update hright rfl).bind
      intro ift' hift'
      have hdeleted := h.delete hsplit' ((reflects_cons_empty _ rfl rfl).mp hift')
      apply (ih fuel hdeleted.sound (deleteMulticastMembership_of_split hsplit') hmembers.2
        (Nat.le_of_succ_le_succ hfuel)).mono
      intro state hstate
      apply hstate.congr
      intro key
      rw [hdeleted.filters_eq]
      by_cases hkey : membership.key = key
      · simp [hkey]
      · simp [hkey, Ne.symm hkey]

theorem Sound.leaveMulticastGroup (h : Sound (sd, ift) others) (multicastAddress : L3Address) :
    Safe (Udp.leaveMulticastGroup (sd, ift) multicastAddress) fun state ↦
      Reaches state others fun key ↦
        if key.1 = multicastAddress then .none
        else tableFilters sd.multicastMembershipTable key := by
  obtain ⟨before, members, after, hsplit, hposition, hbefore, hmembers, hafter⟩ :=
    h.ordered.exists_group (fun m hm ↦ (h.proper m hm).interfaceId) multicastAddress
  -- without the members of the group no membership of it is left
  have hgone : ∀ key, (∃ membership ∈ members, membership.key = key) →
      key.1 = multicastAddress := by
    rintro key ⟨m, hm, rfl⟩
    exact hmembers m hm
  have hnone : ∀ key : L3Address × ℤ, key.1 = multicastAddress →
      (¬∃ membership ∈ members, membership.key = key) →
        tableFilters sd.multicastMembershipTable key = .none := by
    intro key hkey hnot
    apply tableFilters_of_notMem
    intro m hm heq
    have haddress : m.multicastAddress = multicastAddress := by
      rw [← hkey, ← heq]
      rfl
    rw [hsplit] at hm
    rcases mem_append.mp hm with hm | hm
    · exact hbefore m hm haddress
    · rcases mem_append.mp hm with hm | hm
      · exact hnot ⟨m, hm, heq⟩
      · exact hafter m hm haddress
  have hloop := Sound.leaveMemberships sd.multicastMembershipTable.length h hsplit hmembers hafter
    (by
      rw [hsplit, length_append, length_append]
      omega)
  have heffect : ∀ state, Reaches state others (fun key ↦
      if ∃ membership ∈ members, membership.key = key then SourceFilter.none
      else tableFilters sd.multicastMembershipTable key) →
      Reaches state others fun key ↦ if key.1 = multicastAddress then .none
        else tableFilters sd.multicastMembershipTable key := by
    intro state hstate
    apply hstate.congr
    intro key
    by_cases hkey : key.1 = multicastAddress
    · rw [if_pos hkey]
      by_cases hex : ∃ membership ∈ members, membership.key = key
      · rw [if_pos hex]
      · rw [if_neg hex, hnone key hkey hex]
    · rw [if_neg hkey, if_neg fun hex ↦ hkey (hgone key hex)]
  rw [Udp.leaveMulticastGroup]
  simp only [SockDesc.findFirstMulticastMembership, hposition]
  have hempty (hget : ∀ membership ∈ sd.multicastMembershipTable[before.length]?,
      membership.multicastAddress ≠ multicastAddress) :
      Reaches (sd, ift) others fun key ↦ if key.1 = multicastAddress then .none
        else tableFilters sd.multicastMembershipTable key := by
    apply h.reaches.congr
    intro key
    by_cases hkey : key.1 = multicastAddress
    · rw [if_pos hkey, hnone key hkey]
      rintro ⟨m, hm, -⟩
      rw [hsplit, getElem?_append_right le_rfl, Nat.sub_self] at hget
      cases members with
      | nil => cases hm
      | cons head members => exact hget head rfl (hmembers head mem_cons_self)
    · rw [if_neg hkey]
  cases hget : sd.multicastMembershipTable[before.length]? with
  | none =>
    apply hempty
    simp [hget]
  | some membership =>
    dsimp only
    split
    · rename_i hfound
      split at hfound
      · cases hfound
      · rename_i haddress
        apply hempty
        rw [hget]
        rintro _ ⟨⟩
        exact haddress
    · rename_i position found hfound
      split at hfound
      · cases hfound
        exact hloop.mono heffect
      · cases hfound

theorem Sound.leaveMulticastGroups (h : Sound (sd, ift) others)
    (multicastAddresses : List L3Address) :
    Safe (Udp.leaveMulticastGroups (sd, ift) multicastAddresses) fun state ↦
      Reaches state others fun key ↦
        if key.1 ∈ multicastAddresses then .none
        else tableFilters sd.multicastMembershipTable key := by
  rw [Udp.leaveMulticastGroups]
  induction multicastAddresses generalizing sd ift with
  | nil => exact h.reaches.congr fun key ↦ by simp
  | cons multicastAddress multicastAddresses ih =>
    rw [foldlM_cons]
    apply (h.leaveMulticastGroup multicastAddress).bind
    rintro ⟨sd', ift'⟩ hreaches
    apply (ih hreaches.sound).mono
    intro state hstate
    apply hstate.congr
    intro key
    rw [hreaches.filters_eq]
    by_cases hrest : key.1 ∈ multicastAddresses
    · simp [hrest]
    · simp [hrest]

/-! ### Sources -/

theorem setMulticastMembership_self
    (hsplit : sd.multicastMembershipTable = before ++ membership :: after) :
    sd.setMulticastMembership before.length membership = sd := by
  have htable : sd.multicastMembershipTable.set before.length membership =
      sd.multicastMembershipTable := by
    rw [hsplit, set_append_right _ _ le_rfl, Nat.sub_self]
    rfl
  rw [SockDesc.setMulticastMembership, htable]

/-- The filter of the key of a membership, when its sources are rewritten. -/
theorem Sound.filter_of_split (h : Sound (sd, ift) others)
    (hsplit : sd.multicastMembershipTable = before ++ membership :: after)
    (hkey : membership.key = key) :
    tableFilters sd.multicastMembershipTable key = membership.sourceFilter := by
  have hordered := h.ordered
  simp only [hsplit] at hordered ⊢
  rw [tableFilters_insert hordered, if_pos hkey.symm]

variable {interfaceId : ℤ} {multicastAddress : L3Address} {sourceList : List L3Address}

theorem ne_all_of_key (hid : 0 ≤ interfaceId)
    (hkey : membership.key = (multicastAddress, interfaceId)) : membership.interfaceId ≠ -1 := by
  have heq : membership.interfaceId = interfaceId := congrArg Prod.snd hkey
  omega

theorem Sound.blockMulticastSources (h : Sound (sd, ift) others) :
    Safe (Udp.blockMulticastSources (sd, ift) interfaceId multicastAddress []) fun state ↦
      Reaches state others
        ((MulticastCall.blockMulticastSources interfaceId multicastAddress []).effect
          (tableFilters sd.multicastMembershipTable)) := by
  apply (safe_checkMulticastCall (sd, ift) interfaceId multicastAddress).bind
  intro _ hid
  apply (safe_requireMembership (by decide) (by decide)).bind
  rintro ⟨position, membership⟩ ⟨before, after, hsplit, rfl, hkey, hmode⟩
  dsimp only at hsplit hkey hmode
  apply (h.reportSources hsplit (fun _ ↦ rfl) (fun hchanged ↦ by cases hchanged)
    (ne_all_of_key hid hkey) fun hexclude ↦ ?_).mono
  · intro state hstate
    apply hstate.congr
    intro key
    rw [hkey]
    simp only [effect]
    split
    · rename_i heq
      rw [heq, h.filter_of_split hsplit hkey]
      simp [sourceFilter, appendSources]
    · rfl
  · exact (h.proper membership (by simp [hsplit])).sourceList hexclude

theorem Sound.unblockMulticastSources (h : Sound (sd, ift) others) :
    Safe (Udp.unblockMulticastSources (sd, ift) interfaceId multicastAddress sourceList)
      fun state ↦ Reaches state others
        ((MulticastCall.unblockMulticastSources interfaceId multicastAddress sourceList).effect
          (tableFilters sd.multicastMembershipTable)) := by
  apply (safe_checkMulticastCall (sd, ift) interfaceId multicastAddress).bind
  intro _ hid
  apply (safe_requireMembership (by decide) (by decide)).bind
  rintro ⟨position, membership⟩ ⟨before, after, hsplit, rfl, hkey, hmode⟩
  dsimp only at hsplit hkey hmode
  have honce := (h.proper membership (by simp [hsplit])).sourceList hmode
  have hsublist := eraseSources_sublist membership.sourceList sourceList
  apply (h.reportSources hsplit eraseSources_unchanged (fun _ ↦ by rw [hmode]; exact ⟨rfl, rfl⟩)
    (ne_all_of_key hid hkey) fun _ ↦ honce.sublist (hsublist.map ipv4Of)).mono
  intro state hstate
  apply hstate.congr
  intro key
  rw [hkey]
  simp only [effect]
  split
  · rename_i heq
    rw [heq, h.filter_of_split hsplit hkey]
    ext source
    · rfl
    · simp only [sourceFilter, Set.mem_ofPred_eq, Set.mem_sdiff]
      exact mem_eraseSources (List.Nodup.of_map ipv4Of honce) sourceList source
  · rfl

theorem Sound.leaveMulticastSources (h : Sound (sd, ift) others)
    (hdisjoint : ∀ source ∈ sourceList, source ∉
      (tableFilters sd.multicastMembershipTable (multicastAddress, interfaceId)).sources) :
    Safe (Udp.leaveMulticastSources (sd, ift) interfaceId multicastAddress sourceList)
      fun state ↦ Reaches state others
        ((MulticastCall.leaveMulticastSources interfaceId multicastAddress sourceList).effect
          (tableFilters sd.multicastMembershipTable)) := by
  apply (safe_checkMulticastCall (sd, ift) interfaceId multicastAddress).bind
  intro _ hid
  apply (safe_requireMembership (by decide) (by decide)).bind
  rintro ⟨position, membership⟩ ⟨before, after, hsplit, rfl, hkey, hmode⟩
  have hfilter := h.filter_of_split hsplit hkey
  rw [hfilter] at hdisjoint
  have heffect : ∀ key, tableFilters sd.multicastMembershipTable key =
      (MulticastCall.leaveMulticastSources interfaceId multicastAddress sourceList).effect
        (tableFilters sd.multicastMembershipTable) key := by
    intro key
    simp only [effect]
    split
    · rename_i heq
      rw [heq, hfilter]
      ext source
      · rfl
      · constructor
        · exact fun hsource ↦ ⟨hsource, fun hlisted ↦ hdisjoint source hlisted hsource⟩
        · exact fun hsource ↦ hsource.1
    · rfl
  -- nothing is erased, so that nothing is reported
  have herase : eraseSources membership.sourceList sourceList = (membership.sourceList, false) :=
    eraseSources_of_disjoint hdisjoint
  have hreport : Udp.reportSources (sd, ift) before.length membership
      (eraseSources membership.sourceList sourceList) .MCAST_EXCLUDE_SOURCES
        .MCAST_EXCLUDE_SOURCES = .ok (sd, ift) := by
    rw [herase, Udp.reportSources]
    rw [setMulticastMembership_self hsplit]
    rfl
  rw [bind_of_ok hreport, herase]
  split
  · rename_i hempty
    have hreflects := (reflects_cons_empty membership hmode hempty).mp
      (h.reflects_split hsplit)
    apply (h.delete hsplit hreflects).congr
    intro key
    rw [hkey, ← heffect]
    split
    · rename_i heq
      have hnil : membership.sourceList = [] := hempty
      rw [heq, hfilter, sourceFilter, hmode, hnil]
      simp [SourceFilter.none]
    · rfl
  · exact h.reaches.congr heffect

theorem Sound.joinMulticastSources (h : Sound (sd, ift) others)
    (hunmixed : Unmixed ((multicastAddress, interfaceId) ::
      sd.multicastMembershipTable.map MulticastMembership.key))
    (hthere : ∀ source ∈ sourceList, source ∈
      (tableFilters sd.multicastMembershipTable (multicastAddress, interfaceId)).sources) :
    Safe (Udp.joinMulticastSources (sd, ift) interfaceId multicastAddress sourceList)
      fun state ↦ Reaches state others
        ((MulticastCall.joinMulticastSources interfaceId multicastAddress sourceList).effect
          (tableFilters sd.multicastMembershipTable)) := by
  apply (safe_checkMulticastCall (sd, ift) interfaceId multicastAddress).bind
  intro _ hid
  obtain ⟨before, after, hsplit, hlength, hkey, hreaches⟩ := h.findOrAddMembership hid hunmixed
  generalize Udp.findOrAddMembership sd interfaceId multicastAddress = found at *
  obtain ⟨sd', position, membership⟩ := found
  subst hlength
  apply (safe_throwIf (by decide)).bind
  intro _ hinclude
  apply (hreaches.sound.reportSources hsplit appendSources_unchanged (fun _ ↦ ?_)
    (ne_all_of_key hid hkey) fun hexclude ↦ absurd hexclude hinclude).mono
  · intro state hstate
    apply hstate.congr
    intro key
    have hfilter := hreaches.sound.filter_of_split hsplit hkey
    rw [hreaches.filters_eq] at hfilter ⊢
    rw [hkey]
    simp only [effect]
    split
    · rename_i heq
      rw [hfilter] at hthere
      rw [heq, hfilter]
      ext source
      · rfl
      · simp only [sourceFilter, Set.mem_ofPred_eq, Set.mem_union,
          mem_appendSources]
        constructor
        · exact Or.inl
        · rintro (hsource | hlisted)
          · exact hsource
          · exact hthere source hlisted
    · rfl
  · cases hmode : membership.filterMode with
    | UDP_INCLUDE_MCAST_SOURCES => exact ⟨rfl, rfl⟩
    | UDP_EXCLUDE_MCAST_SOURCES => exact absurd hmode hinclude

theorem Sound.setMulticastSourceFilter (h : Sound (sd, ift) others)
    {filterMode : UdpSourceFilterMode}
    (hunmixed : Unmixed ((multicastAddress, interfaceId) ::
      sd.multicastMembershipTable.map MulticastMembership.key))
    (honce : filterMode = UDP_EXCLUDE_MCAST_SOURCES → (sourceList.map ipv4Of).Nodup) :
    Safe (Udp.setMulticastSourceFilter (sd, ift) interfaceId multicastAddress filterMode sourceList)
      fun state ↦ Reaches state others
        ((MulticastCall.setMulticastSourceFilter interfaceId multicastAddress filterMode
          sourceList).effect (tableFilters sd.multicastMembershipTable)) := by
  apply (safe_checkMulticastCall (sd, ift) interfaceId multicastAddress).bind
  intro _ hid
  obtain ⟨before, after, hsplit, hlength, hkey, hreaches⟩ := h.findOrAddMembership hid hunmixed
  generalize Udp.findOrAddMembership sd interfaceId multicastAddress = found at *
  obtain ⟨sd', position, membership⟩ := found
  subst hlength
  dsimp only at *
  have haddress : membership.multicastAddress = multicastAddress := congrArg Prod.fst hkey
  have hinterface : membership.interfaceId = interfaceId := congrArg Prod.snd hkey
  split
  · have hright : RightFor membership
        { membership with
          filterMode := filterMode
          sourceList := sourceList } (before ++ after ++ others) _ := rightFor_change rfl
    have hupdate := (hreaches.sound.reflects_split hsplit).update hright rfl
    rw [update, if_pos (ne_all_of_key hid hkey), haddress, hinterface] at hupdate
    apply hupdate.bind
    intro ift' hift'
    rw [← haddress, ← hinterface] at hift' ⊢
    apply (hreaches.sound.replace hsplit hift' rfl honce).congr
    intro key
    rw [hreaches.filters_eq]
    rfl
  · rename_i hsame
    rw [not_or, not_not, not_not] at hsame
    apply hreaches.congr
    intro key
    simp only [effect]
    split
    · rename_i heq
      have hfilter := hreaches.sound.filter_of_split hsplit hkey
      rw [hreaches.filters_eq] at hfilter
      rw [heq, hfilter, sourceFilter, hsame.1, hsame.2]
    · rfl

/-! ## All calls -/

/-- A call outside those that go wrong has its effect on the filters and leaves counts that are
right, or it ends in an error that is not about the counts. -/
theorem Sound.apply (h : Sound (sd, ift) others) {call : MulticastCall} (hheeds : call.Heeds sd) :
    Safe (call.apply (sd, ift)) fun state ↦
      Reaches state others (call.effect (tableFilters sd.multicastMembershipTable)) := by
  cases call with
  | joinMulticastGroups multicastAddresses interfaceIds =>
    apply h.joinMulticastGroups hheeds
    · exact fun key hkey ↦ mem_append_left _ hkey
    · exact fun m hm ↦ mem_append_right _ (mem_map_of_mem hm)
  | leaveMulticastGroups multicastAddresses => exact h.leaveMulticastGroups multicastAddresses
  | blockMulticastSources interfaceId multicastAddress sourceList =>
    obtain rfl : sourceList = [] := hheeds
    exact h.blockMulticastSources
  | unblockMulticastSources interfaceId multicastAddress sourceList =>
    exact h.unblockMulticastSources
  | leaveMulticastSources interfaceId multicastAddress sourceList =>
    exact h.leaveMulticastSources hheeds
  | joinMulticastSources interfaceId multicastAddress sourceList =>
    exact h.joinMulticastSources hheeds.1 hheeds.2
  | setMulticastSourceFilter interfaceId multicastAddress filterMode sourceList =>
    exact h.setMulticastSourceFilter hheeds.1 hheeds.2

end Inet4.Udp
