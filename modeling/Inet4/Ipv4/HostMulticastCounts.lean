import Inet4.Ipv4.HostMulticastGroups

/-!
# The counts of an interface and the filters of its sockets

The entry of a group counts the sources of the filters that sockets have for it.  A socket that
reports its old and its new filter moves the counts from one to the other, provided its old filter
has been counted.  From right counts the interface computes the merge of all the filters.
-/

namespace Inet4.Ipv4

open McastSourceFilterMode List AssocMap Nat

/-- The filter a socket has for a group, in the words of the interface. -/
abbrev McastFilter := Ipv4MulticastSourceList

namespace Counts

/-- The map has the sources that are counted at all, with their numbers. -/
def Counting (counts : Counts) (number : Ipv4Address → ℕ) : Prop :=
  ∀ source, counts.find source =
    if number source = 0 then none else some (number source : ℤ)

variable {counts : Counts} {number : Ipv4Address → ℕ} {source : Ipv4Address}

theorem Counting.congr {number' : Ipv4Address → ℕ} (h : counts.Counting number)
    (heq : ∀ source, number source = number' source) : counts.Counting number' := by
  rwa [← funext heq]

theorem Counting.mem_iff (h : counts.Counting number) : source ∈ counts ↔ number source ≠ 0 := by
  rw [mem_iff_find, h source]
  by_cases hzero : number source = 0 <;> simp [hzero]

theorem mem_keysInOrder : source ∈ counts.keysInOrder ↔ source ∈ counts := by
  rw [keysInOrder, mem_insertionSort]
  exact AList.mem_keys.symm

theorem Counting.acquire (h : counts.Counting number) (source : Ipv4Address) :
    (counts.acquire source).Counting fun other ↦
      number other + if other = source then 1 else 0 := by
  intro other
  rw [Counts.acquire, h source]
  by_cases hzero : number source = 0
  · simp only [hzero, if_pos, find_assign]
    by_cases heq : other = source
    · simp [heq, hzero]
    · simp [heq, h other]
  · simp only [hzero, if_neg, not_false_eq_true, find_assign]
    by_cases heq : other = source
    · simp [heq]
    · simp [heq, h other]

theorem Counting.acquireAll (h : counts.Counting number) (sources : List Ipv4Address) :
    (sources.foldl Counts.acquire counts).Counting fun source ↦
      number source + sources.count source := by
  induction sources generalizing counts number with
  | nil => exact h
  | cons head sources ih =>
    apply (ih (h.acquire head)).congr
    intro source
    simp only [count_cons, beq_iff_eq, eq_comm (a := head)]
    omega

theorem Counting.release (h : counts.Counting number) (hpos : number source ≠ 0) :
    ∃ counts', counts.release source = .ok counts' ∧ counts'.Counting fun other ↦
      number other - if other = source then 1 else 0 := by
  have hfind : counts.find source = some (number source : ℤ) := by
    rw [h source, if_neg hpos]
  refine ⟨_, by rw [Counts.release, hfind], ?_⟩
  intro other
  by_cases hone : number source = 1
  · simp only [hone, cast_one, if_pos, find_remove]
    by_cases heq : other = source
    · simp [heq, hone]
    · simp [heq, h other]
  · have hcast : (number source : ℤ) ≠ 1 := by omega
    simp only [hcast, if_neg, not_false_eq_true, find_assign]
    by_cases heq : other = source
    · have hrest : number source - 1 ≠ 0 := by omega
      simp only [heq, if_pos, hrest, if_neg, not_false_eq_true, Option.some.injEq]
      omega
    · simp [heq, h other]

/-- Sources that have all been counted are released without an error. -/
theorem Counting.releaseAll {sources : List Ipv4Address}
    (h : counts.Counting fun source ↦ number source + sources.count source) :
    ∃ counts', sources.foldlM Counts.release counts = .ok counts' ∧ counts'.Counting number := by
  induction sources generalizing counts with
  | nil => exact ⟨counts, rfl, h⟩
  | cons head sources ih =>
    have hpos : number head + (head :: sources).count head ≠ 0 := by
      rw [count_cons_self]
      omega
    obtain ⟨counts', hrelease, hcounting⟩ := h.release hpos
    have hnext : counts'.Counting fun source ↦ number source + sources.count source := by
      apply hcounting.congr
      intro source
      simp only [count_cons, beq_iff_eq, eq_comm (a := head)]
      split <;> omega
    obtain ⟨counts'', hrest, hcounting'⟩ := ih hnext
    refine ⟨counts'', ?_, hcounting'⟩
    rw [foldlM_cons, bind_of_ok hrelease, hrest]

end Counts

/-- The sources of the filters in a mode, each as often as it occurs. -/
def sourcesIn (filterMode : McastSourceFilterMode) (filters : List McastFilter) :
    List Ipv4Address :=
  filters.flatMap fun filter ↦ if filter.filterMode = filterMode then filter.sources else []

/-- The number of filters in EXCLUDE mode. -/
def excludeFilters (filters : List McastFilter) : ℕ :=
  filters.countP fun filter ↦ filter.filterMode = MCAST_EXCLUDE_SOURCES

/-- What a filter in a mode adds to the number of EXCLUDE mode filters. -/
def McastSourceFilterMode.excluding : McastSourceFilterMode → ℕ
  | MCAST_INCLUDE_SOURCES => 0
  | MCAST_EXCLUDE_SOURCES => 1

variable {filter old new : McastFilter} {filters filters' : List McastFilter}
variable {filterMode : McastSourceFilterMode} {source group : Ipv4Address}

theorem excludeFilters_cons (filter : McastFilter) (filters : List McastFilter) :
    excludeFilters (filter :: filters) = filter.filterMode.excluding + excludeFilters filters := by
  rw [excludeFilters, countP_cons, add_comm, excludeFilters]
  cases filter.filterMode <;> rfl

theorem count_sourcesIn_cons (filter : McastFilter) (filters : List McastFilter) :
    (sourcesIn filterMode (filter :: filters)).count source =
      (if filter.filterMode = filterMode then filter.sources.count source else 0) +
        (sourcesIn filterMode filters).count source := by
  simp only [sourcesIn, flatMap_cons, count_append]
  split <;> simp

theorem count_sourcesIn_perm (h : filters.Perm filters') :
    (sourcesIn filterMode filters).count source =
      (sourcesIn filterMode filters').count source :=
  (h.flatMap_right _).count_eq source

/-- The entry has the counts of the filters, and the list computed from them. -/
structure HostMulticastGroupData.Counted (entry : HostMulticastGroupData)
    (filters : List McastFilter) : Prop where
  counts : ∀ filterMode, (entry.counts filterMode).Counting fun source ↦
    (sourcesIn filterMode filters).count source
  numOfExcludeModeSockets : entry.numOfExcludeModeSockets = excludeFilters filters
  sourceList : entry.sourceList = entry.computedSourceList

namespace HostMulticastGroupData

variable {entry : HostMulticastGroupData}

theorem counts_setCounts (entry : HostMulticastGroupData) (counts : Counts)
    (mode : McastSourceFilterMode) :
    (entry.setCounts filterMode counts).counts mode =
      if mode = filterMode then counts else entry.counts mode := by
  cases filterMode <;> cases mode <;> rfl

@[simp]
theorem numOfExcludeModeSockets_setCounts (counts : Counts) :
    (entry.setCounts filterMode counts).numOfExcludeModeSockets =
      entry.numOfExcludeModeSockets := by
  cases filterMode <;> rfl

@[simp]
theorem multicastGroup_setCounts (counts : Counts) :
    (entry.setCounts filterMode counts).multicastGroup = entry.multicastGroup := by
  cases filterMode <;> rfl

@[simp]
theorem counts_changeMode (oldMode newMode mode : McastSourceFilterMode) :
    (entry.changeMode oldMode newMode).counts mode = entry.counts mode := by
  cases oldMode <;> cases newMode <;> cases mode <;> rfl

@[simp]
theorem multicastGroup_changeMode (oldMode newMode : McastSourceFilterMode) :
    (entry.changeMode oldMode newMode).multicastGroup = entry.multicastGroup := by
  cases oldMode <;> cases newMode <;> rfl

theorem numOfExcludeModeSockets_changeMode (oldMode newMode : McastSourceFilterMode) :
    (entry.changeMode oldMode newMode).numOfExcludeModeSockets =
      entry.numOfExcludeModeSockets - oldMode.excluding + newMode.excluding := by
  cases oldMode <;> cases newMode <;>
    simp [changeMode, McastSourceFilterMode.excluding]

theorem counts_updateSourceList (entry : HostMulticastGroupData) (mode : McastSourceFilterMode) :
    entry.updateSourceList.1.counts mode = entry.counts mode := by
  cases mode <;> rfl

theorem Counted.perm (h : entry.Counted filters) (hperm : filters.Perm filters') :
    entry.Counted filters' where
  counts filterMode := (h.counts filterMode).congr fun source ↦ count_sourcesIn_perm hperm
  numOfExcludeModeSockets := by
    rw [h.numOfExcludeModeSockets, excludeFilters, excludeFilters, hperm.countP_eq]
  sourceList := h.sourceList

/-- The filter that includes no source counts for nothing. -/
theorem counted_cons_empty_iff : entry.Counted ({} :: filters) ↔ entry.Counted filters := by
  have hcount : ∀ filterMode source, (sourcesIn filterMode ({} :: filters)).count source =
      (sourcesIn filterMode filters).count source := by
    intro filterMode source
    rw [count_sourcesIn_cons]
    simp
  have hexclude : excludeFilters ({} :: filters) = excludeFilters filters := by
    rw [excludeFilters_cons]
    exact zero_add _
  constructor
  · intro h
    exact ⟨fun mode ↦ (h.counts mode).congr (hcount mode),
      by rw [h.numOfExcludeModeSockets, hexclude], h.sourceList⟩
  · intro h
    exact ⟨fun mode ↦ (h.counts mode).congr fun source ↦ (hcount mode source).symm,
      by rw [h.numOfExcludeModeSockets, hexclude], h.sourceList⟩

/-- One filter takes the place of another in the counts. -/
theorem Counted.change (h : entry.Counted (old :: filters)) (new : McastFilter) :
    ∃ counts, old.sources.foldlM Counts.release (entry.counts old.filterMode) = .ok counts ∧
      ((((entry.setCounts old.filterMode counts).setCounts new.filterMode
        (new.sources.foldl Counts.acquire
          ((entry.setCounts old.filterMode counts).counts new.filterMode))).changeMode
            old.filterMode new.filterMode).updateSourceList.1).Counted (new :: filters) := by
  have hold := (h.counts old.filterMode).congr fun source ↦ count_sourcesIn_cons old filters
  simp only [if_pos] at hold
  obtain ⟨counts, hrelease, hcounting⟩ :=
    (hold.congr fun source ↦ add_comm _ _).releaseAll
  refine ⟨counts, hrelease, ?_, ?_, rfl⟩
  · intro mode
    rw [counts_updateSourceList, counts_changeMode, counts_setCounts]
    -- the counts of a mode without the old filter
    have hrest : ∀ mode, ((entry.setCounts old.filterMode counts).counts mode).Counting
        fun source ↦ (sourcesIn mode filters).count source := by
      intro mode
      rw [counts_setCounts]
      split
      · rename_i hmode
        rw [hmode]
        exact hcounting
      · rename_i hmode
        apply (h.counts mode).congr
        intro source
        rw [count_sourcesIn_cons, if_neg (Ne.symm hmode), zero_add]
    split
    · rename_i hmode
      rw [hmode]
      apply ((hrest new.filterMode).acquireAll new.sources).congr
      intro source
      rw [count_sourcesIn_cons, if_pos rfl, add_comm]
    · rename_i hmode
      apply (hrest mode).congr
      intro source
      rw [count_sourcesIn_cons, if_neg (Ne.symm hmode), zero_add]
  · have hnumber := h.numOfExcludeModeSockets
    rw [excludeFilters_cons] at hnumber ⊢
    rw [updateSourceList]
    simp only [numOfExcludeModeSockets_changeMode, numOfExcludeModeSockets_setCounts, hnumber]
    omega

end HostMulticastGroupData

namespace Ipv4InterfaceData

variable {data : Ipv4InterfaceData}

/-- The entry of a group has the counts of the filters; without an entry there is nothing to
count. -/
def Counted (data : Ipv4InterfaceData) (group : Ipv4Address) (filters : List McastFilter) : Prop :=
  match data.findHostGroupData group with
  | some entry => entry.Counted filters
  | none => ∀ filter ∈ filters, filter = {}

/-- No group has two entries. -/
def Distinct (data : Ipv4InterfaceData) : Prop :=
  (data.joinedMulticastGroups.map HostMulticastGroupData.multicastGroup).Nodup

theorem Counted.perm (h : data.Counted group filters) (hperm : filters.Perm filters') :
    data.Counted group filters' := by
  rw [Counted] at *
  split
  · rename_i entry hentry
    rw [hentry] at h
    exact HostMulticastGroupData.Counted.perm h hperm
  · rename_i hnone
    rw [hnone] at h
    exact fun filter hfilter ↦ h filter (hperm.mem_iff.mpr hfilter)

theorem counted_cons_empty_iff :
    data.Counted group ({} :: filters) ↔ data.Counted group filters := by
  rw [Counted, Counted]
  split
  · exact HostMulticastGroupData.counted_cons_empty_iff
  · simp

theorem counted_congr {data' : Ipv4InterfaceData}
    (h : data'.findHostGroupData group = data.findHostGroupData group) :
    data'.Counted group filters ↔ data.Counted group filters := by
  rw [Counted, Counted, h]

theorem findHostGroupData_eq_some {entry : HostMulticastGroupData}
    (h : data.findHostGroupData group = some entry) :
    entry ∈ data.joinedMulticastGroups ∧ entry.multicastGroup = group := by
  have hgroup := find?_some h
  rw [decide_eq_true_eq] at hgroup
  exact ⟨mem_of_find?_eq_some h, hgroup⟩

theorem findHostGroupData_eq_none :
    data.findHostGroupData group = none ↔
      group ∉ data.joinedMulticastGroups.map HostMulticastGroupData.multicastGroup := by
  rw [findHostGroupData, find?_eq_none, mem_map]
  simp

variable (entry : HostMulticastGroupData)

theorem findHostGroupData_append (g : Ipv4Address)
    (hnew : data.findHostGroupData entry.multicastGroup = none) :
    findHostGroupData ⟨data.joinedMulticastGroups ++ [entry]⟩ g =
      if g = entry.multicastGroup then some entry else data.findHostGroupData g := by
  rw [findHostGroupData] at hnew
  simp only [findHostGroupData, find?_append, find?_singleton, decide_eq_true_eq]
  by_cases hg : g = entry.multicastGroup
  · simp [hg, hnew]
  · simp [hg, Ne.symm hg]

theorem setHostGroupData_eq :
    (data.setHostGroupData entry).joinedMulticastGroups.map
        HostMulticastGroupData.multicastGroup =
      data.joinedMulticastGroups.map HostMulticastGroupData.multicastGroup := by
  simp only [setHostGroupData]
  induction data.joinedMulticastGroups with
  | nil => rfl
  | cons head entries ih =>
    by_cases hgroup : head.multicastGroup = entry.multicastGroup
    · simp [hgroup]
    · simp [hgroup, ih]

theorem findHostGroupData_setHostGroupData (g : Ipv4Address) :
    (data.setHostGroupData entry).findHostGroupData g =
      if g = entry.multicastGroup then (data.findHostGroupData g).map fun _ ↦ entry
      else data.findHostGroupData g := by
  simp only [setHostGroupData, findHostGroupData]
  induction data.joinedMulticastGroups with
  | nil => split <;> rfl
  | cons head entries ih =>
    rw [replaceF_cons]
    by_cases hgroup : head.multicastGroup = entry.multicastGroup
    · simp only [hgroup, if_pos, find?_cons]
      by_cases hg : g = entry.multicastGroup
      · simp [hg]
      · simp [hg, Ne.symm hg]
    · simp only [hgroup, if_neg, not_false_eq_true, find?_cons]
      by_cases hhead : head.multicastGroup = g
      · have hg : g ≠ entry.multicastGroup := fun h ↦ hgroup (hhead.trans h)
        simp [hhead, hg]
      · simp only [hhead, decide_false]
        exact ih

theorem findHostGroupData_removeHostGroupData (hdistinct : data.Distinct) (g : Ipv4Address) :
    (data.removeHostGroupData group).findHostGroupData g =
      if g = group then none else data.findHostGroupData g := by
  rw [Distinct] at hdistinct
  simp only [removeHostGroupData, findHostGroupData]
  generalize data.joinedMulticastGroups = entries at hdistinct
  induction entries with
  | nil => split <;> rfl
  | cons head entries ih =>
    rw [map_cons, nodup_cons] at hdistinct
    rw [eraseP_cons]
    by_cases hgroup : head.multicastGroup = group
    · simp only [hgroup, decide_true, cond_true]
      by_cases hg : g = group
      · rw [if_pos hg, find?_eq_none]
        intro entry hentry heq
        rw [decide_eq_true_eq] at heq
        apply hdistinct.1
        rw [hgroup, ← hg, ← heq]
        exact mem_map_of_mem hentry
      · simp [hg, hgroup, Ne.symm hg]
    · simp only [hgroup, decide_false, cond_false, find?_cons]
      by_cases hhead : head.multicastGroup = g
      · have hg : g ≠ group := fun h ↦ hgroup (hhead.trans h)
        simp [hhead, hg]
      · simp only [hhead, decide_false]
        exact ih hdistinct.2

theorem Distinct.removeHostGroupData (h : data.Distinct) (group : Ipv4Address) :
    (data.removeHostGroupData group).Distinct :=
  List.Nodup.sublist (List.Sublist.map _ eraseP_sublist) h

/-- What a counted change gives: counts with the new filter for the old one. -/
structure Changed (data data' : Ipv4InterfaceData) (group : Ipv4Address)
    (filters : List McastFilter) : Prop where
  distinct : data'.Distinct
  counted : data'.Counted group filters
  others : ∀ g, g ≠ group → data'.findHostGroupData g = data.findHostGroupData g

theorem eq_empty_of_counts {entry : HostMulticastGroupData} (h : entry.Counted filters)
    (hempty : entry.computedSourceList.isEmpty = true) : ∀ filter ∈ filters, filter = {} := by
  rw [Ipv4MulticastSourceList.isEmpty, decide_eq_true_eq,
    HostMulticastGroupData.computedSourceList] at hempty
  split at hempty
  · rename_i hzero
    rw [h.numOfExcludeModeSockets, cast_eq_zero, excludeFilters,
      countP_eq_zero] at hzero
    intro filter hfilter
    have hinclude : filter.filterMode = MCAST_INCLUDE_SOURCES := by
      have hnot := hzero filter hfilter
      rw [decide_eq_true_eq] at hnot
      cases hmode : filter.filterMode with
      | MCAST_INCLUDE_SOURCES => rfl
      | MCAST_EXCLUDE_SOURCES => exact absurd hmode hnot
    have hsources : filter.sources = [] := by
      rw [eq_nil_iff_forall_not_mem]
      intro source hsource
      have hmem : source ∈ sourcesIn MCAST_INCLUDE_SOURCES filters := by
        rw [sourcesIn, mem_flatMap]
        exact ⟨filter, hfilter, by rwa [if_pos hinclude]⟩
      have hcounted : source ∈ entry.includeCounts :=
        ((h.counts MCAST_INCLUDE_SOURCES).mem_iff).mpr (count_pos_iff.mpr hmem).ne'
      have hkey := Counts.mem_keysInOrder.mpr hcounted
      have hnil : entry.includeCounts.keysInOrder = [] := hempty.2
      rw [hnil] at hkey
      cases hkey
    calc
      filter = ⟨filter.filterMode, filter.sources⟩ := rfl
      _ = {} := by rw [hinclude, hsources]
  · cases hempty.1

/-- A change that starts from a counted filter is carried out. -/
theorem changeMulticastGroupMembership_spec (new : McastFilter) (hdistinct : data.Distinct)
    (hcounted : data.Counted group (old :: filters)) (hgroup : group.isMulticast = true) :
    ∃ data', data.changeMulticastGroupMembership group old.filterMode old.sources
        new.filterMode new.sources = .ok data' ∧ data.Changed data' group (new :: filters) := by
  -- the entry that is found or added, and that it has the counts with the old filter
  have hfound : ∃ data' entry, data.findOrAddHostGroupData group old.filterMode old.sources =
      .ok (data', entry) ∧ data'.Distinct ∧ data'.findHostGroupData group = some entry ∧
        entry.Counted (old :: filters) ∧
          ∀ g, g ≠ group → data'.findHostGroupData g = data.findHostGroupData g := by
    rw [findOrAddHostGroupData]
    rw [Counted] at hcounted
    cases hfind : data.findHostGroupData group with
    | some entry =>
      rw [hfind] at hcounted
      exact ⟨data, entry, rfl, hdistinct, hfind, hcounted, fun g _ ↦ rfl⟩
    | none =>
      rw [hfind] at hcounted
      have hold : old = {} := hcounted old mem_cons_self
      have hadded := fun g ↦ findHostGroupData_append { multicastGroup := group } g hfind
      refine ⟨_, _, by rw [hold]; rfl, ?_, ?_, ?_, ?_⟩
      · rw [findHostGroupData_eq_none] at hfind
        rw [Distinct, map_append, nodup_append]
        refine ⟨hdistinct, nodup_singleton _, ?_⟩
        intro g hg other hother heq
        rw [map_singleton, mem_singleton] at hother
        subst hother heq
        exact hfind hg
      · rw [hadded, if_pos rfl]
      · have hempty : HostMulticastGroupData.Counted { multicastGroup := group } [] := by
          refine ⟨?_, rfl, rfl⟩
          intro mode source
          cases mode <;> rfl
        have hall : ∀ filters : List McastFilter, (∀ filter ∈ filters, filter = {}) →
            HostMulticastGroupData.Counted { multicastGroup := group } filters := by
          intro filters
          induction filters with
          | nil => exact fun _ ↦ hempty
          | cons filter filters ih =>
            intro h
            rw [forall_mem_cons] at h
            rw [h.1]
            exact HostMulticastGroupData.counted_cons_empty_iff.mpr (ih h.2)
        exact hall _ hcounted
      · intro g hg
        rw [hadded, if_neg hg]
  obtain ⟨data', entry, hfind, hdistinct', hentry, hcounted', hothers⟩ := hfound
  obtain ⟨counts, hrelease, hchanged⟩ := hcounted'.change new
  have hname : entry.multicastGroup = group := (findHostGroupData_eq_some hentry).2
  have hrun := show data.changeMulticastGroupMembership group old.filterMode old.sources
      new.filterMode new.sources = _ by
    rw [changeMulticastGroupMembership, bind_of_ok (throwIf_of_not (by simp [hgroup])),
      bind_of_ok hfind, bind_of_ok hrelease]
  rw [hrun]
  dsimp only
  generalize hupdated : (((entry.setCounts old.filterMode counts).setCounts new.filterMode
      (new.sources.foldl Counts.acquire
        ((entry.setCounts old.filterMode counts).counts new.filterMode))).changeMode
          old.filterMode new.filterMode).updateSourceList = updated at hchanged ⊢
  have hname' : updated.1.multicastGroup = group := by
    rw [← hupdated, HostMulticastGroupData.updateSourceList]
    simp [hname]
  have hset : ∀ g, (data'.setHostGroupData updated.1).findHostGroupData g =
      if g = group then some updated.1 else data'.findHostGroupData g := by
    intro g
    rw [findHostGroupData_setHostGroupData, hname']
    split
    · rename_i hg
      rw [hg, hentry]
      rfl
    · rfl
  have hsetDistinct : (data'.setHostGroupData updated.1).Distinct := by
    rw [Distinct, setHostGroupData_eq]
    exact hdistinct'
  split
  · rename_i hempty
    refine ⟨_, rfl, hsetDistinct.removeHostGroupData group, ?_, ?_⟩
    · have hnone : ((data'.setHostGroupData updated.1).removeHostGroupData group).findHostGroupData
        group = none := by
        rw [findHostGroupData_removeHostGroupData hsetDistinct, if_pos rfl]
      rw [Counted, hnone]
      rw [hchanged.sourceList] at hempty
      exact eq_empty_of_counts hchanged hempty.2
    · intro g hg
      rw [findHostGroupData_removeHostGroupData hsetDistinct, if_neg hg, hset, if_neg hg,
        hothers g hg]
  · refine ⟨_, rfl, hsetDistinct, ?_, ?_⟩
    · rw [Counted, hset, if_pos rfl]
      exact hchanged
    · intro g hg
      rw [hset, if_neg hg, hothers g hg]

end Ipv4InterfaceData

/-- The merge of RFC 3376: with a filter in EXCLUDE mode, the sources that all of these exclude and
that no filter in INCLUDE mode includes are excluded; otherwise the sources that some filter
includes are included. -/
structure Merges (merged : McastFilter) (filters : Set McastFilter) : Prop where
  excludes : (∃ filter ∈ filters, filter.filterMode = MCAST_EXCLUDE_SOURCES) →
    merged.filterMode = MCAST_EXCLUDE_SOURCES ∧ ∀ source, source ∈ merged.sources ↔
      (∀ filter ∈ filters, filter.filterMode = MCAST_EXCLUDE_SOURCES → source ∈ filter.sources) ∧
        ∀ filter ∈ filters, filter.filterMode = MCAST_INCLUDE_SOURCES → source ∉ filter.sources
  includes : (∀ filter ∈ filters, filter.filterMode = MCAST_INCLUDE_SOURCES) →
    merged.filterMode = MCAST_INCLUDE_SOURCES ∧ ∀ source, source ∈ merged.sources ↔
      ∃ filter ∈ filters, source ∈ filter.sources

/-- The filter of the interface for a group. -/
def Ipv4InterfaceData.sourceFilter (data : Ipv4InterfaceData) (group : Ipv4Address) : McastFilter :=
  ((data.findHostGroupData group).map HostMulticastGroupData.sourceList).getD {}

/-- No filter in EXCLUDE mode names a source twice. -/
def ExcludesOnce (filters : List McastFilter) : Prop :=
  ∀ filter ∈ filters, filter.filterMode = MCAST_EXCLUDE_SOURCES → filter.sources.Nodup

theorem mem_sourcesIn : source ∈ sourcesIn filterMode filters ↔
    ∃ filter ∈ filters, filter.filterMode = filterMode ∧ source ∈ filter.sources := by
  rw [sourcesIn, mem_flatMap]
  constructor
  · rintro ⟨filter, hfilter, hsource⟩
    split at hsource
    · rename_i hmode
      exact ⟨filter, hfilter, hmode, hsource⟩
    · cases hsource
  · rintro ⟨filter, hfilter, hmode, hsource⟩
    exact ⟨filter, hfilter, by rwa [if_pos hmode]⟩

/-- A source is counted at most once for each filter in EXCLUDE mode, and that often exactly when
all of them exclude it. -/
theorem count_excluded (honce : ExcludesOnce filters) (source : Ipv4Address) :
    (sourcesIn MCAST_EXCLUDE_SOURCES filters).count source ≤ excludeFilters filters ∧
      ((sourcesIn MCAST_EXCLUDE_SOURCES filters).count source = excludeFilters filters ↔
        ∀ filter ∈ filters, filter.filterMode = MCAST_EXCLUDE_SOURCES →
          source ∈ filter.sources) := by
  induction filters with
  | nil => simp [sourcesIn, excludeFilters]
  | cons filter filters ih =>
    rw [ExcludesOnce, forall_mem_cons] at honce
    obtain ⟨hle, hiff⟩ := ih honce.2
    rw [count_sourcesIn_cons, excludeFilters_cons, forall_mem_cons, ← hiff]
    cases hmode : filter.filterMode with
    | MCAST_INCLUDE_SOURCES => simp [McastSourceFilterMode.excluding, hle]
    | MCAST_EXCLUDE_SOURCES =>
      have hcount := nodup_iff_count_le_one.mp (honce.1 hmode) source
      have hmem : source ∈ filter.sources ↔ filter.sources.count source = 1 := by
        rw [← count_pos_iff]
        omega
      simp only [McastSourceFilterMode.excluding, if_pos, forall_const, hmem]
      omega

theorem HostMulticastGroupData.Counted.mem_includeCounts_iff {entry : HostMulticastGroupData}
    (h : entry.Counted filters) : source ∈ entry.includeCounts ↔
      ∃ filter ∈ filters, filter.filterMode = MCAST_INCLUDE_SOURCES ∧
        source ∈ filter.sources := by
  rw [← mem_sourcesIn, ← count_pos_iff, pos_iff_ne_zero]
  exact (h.counts MCAST_INCLUDE_SOURCES).mem_iff

theorem HostMulticastGroupData.Counted.merges {entry : HostMulticastGroupData}
    (h : entry.Counted filters) (honce : ExcludesOnce filters) :
    Merges entry.sourceList {filter | filter ∈ filters} := by
  have hexcluding : excludeFilters filters ≠ 0 ↔
      ∃ filter ∈ filters, filter.filterMode = MCAST_EXCLUDE_SOURCES := by
    rw [← pos_iff_ne_zero, excludeFilters, countP_pos_iff]
    simp
  rw [h.sourceList, computedSourceList, h.numOfExcludeModeSockets]
  constructor
  · intro hsome
    have hnonzero : (excludeFilters filters : ℤ) ≠ 0 :=
      cast_ne_zero.mpr (hexcluding.mpr hsome)
    rw [if_neg hnonzero]
    refine ⟨rfl, ?_⟩
    intro source
    obtain ⟨-, hiff⟩ := count_excluded honce source
    have hcounting : entry.excludeCounts.find source =
        if (sourcesIn MCAST_EXCLUDE_SOURCES filters).count source = 0 then none
        else some ((sourcesIn MCAST_EXCLUDE_SOURCES filters).count source : ℤ) :=
      h.counts MCAST_EXCLUDE_SOURCES source
    have hnone : source ∉ entry.includeCounts ↔ ∀ filter ∈ filters,
        filter.filterMode = MCAST_INCLUDE_SOURCES → source ∉ filter.sources := by
      rw [h.mem_includeCounts_iff]
      simp
    have hall : entry.excludeCounts.find source = some (excludeFilters filters : ℤ) ↔
        ∀ filter ∈ filters, filter.filterMode = MCAST_EXCLUDE_SOURCES →
          source ∈ filter.sources := by
      rw [← hiff]
      rw [hcounting]
      split
      · rename_i hzero
        simp only [reduceCtorEq, false_iff]
        omega
      · simp
    have hkey : entry.excludeCounts.find source = some (excludeFilters filters : ℤ) →
        source ∈ entry.excludeCounts.keysInOrder := by
      intro hfind
      exact Counts.mem_keysInOrder.mpr (mem_iff_find.mpr ⟨_, hfind⟩)
    simp only [mem_filter, decide_eq_true_eq, hall, hnone] at hkey ⊢
    constructor
    · exact fun hmem ↦ hmem.2
    · exact fun hmem ↦ ⟨hkey hmem.1, hmem⟩
  · intro hinclude
    have hzero : (excludeFilters filters : ℤ) = 0 := by
      rw [cast_eq_zero]
      by_contra hne
      obtain ⟨filter, hfilter, hmode⟩ := hexcluding.mp hne
      rw [hinclude filter hfilter] at hmode
      cases hmode
    rw [if_pos hzero]
    refine ⟨rfl, ?_⟩
    intro source
    rw [Counts.mem_keysInOrder, h.mem_includeCounts_iff]
    constructor
    · rintro ⟨filter, hfilter, -, hsource⟩
      exact ⟨filter, hfilter, hsource⟩
    · rintro ⟨filter, hfilter, hsource⟩
      exact ⟨filter, hfilter, hinclude filter hfilter, hsource⟩

/-- The filter of an interface is the merge of the filters it has counted. -/
theorem Ipv4InterfaceData.Counted.merges {data : Ipv4InterfaceData}
    (h : data.Counted group filters) (honce : ExcludesOnce filters) :
    Merges (data.sourceFilter group) {filter | filter ∈ filters} := by
  rw [Ipv4InterfaceData.Counted] at h
  rw [Ipv4InterfaceData.sourceFilter]
  cases hfind : data.findHostGroupData group with
  | some entry =>
    rw [hfind] at h
    exact h.merges honce
  | none =>
    rw [hfind] at h
    constructor
    · rintro ⟨filter, hfilter, hmode⟩
      rw [h filter hfilter] at hmode
      cases hmode
    · intro _
      refine ⟨rfl, ?_⟩
      intro source
      constructor
      · exact fun hmem ↦ absurd hmem not_mem_nil
      · rintro ⟨filter, hfilter, hsource⟩
        rw [h filter hfilter] at hsource
        cases hsource

end Inet4.Ipv4
