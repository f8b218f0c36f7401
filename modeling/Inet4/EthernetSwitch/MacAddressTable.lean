import Inet4.AgeingMemory
import Inet4.Ieee8021d.Stp

/-!
# The address table of an Ethernet switch

For every VLAN the switch keeps a map from MAC addresses to the interfaces behind which they were
last seen.  Entries that have reached the ageing time are passed over and thrown out by a lookup,
and all of them are thrown out from time to time when a new address is added.
-/

namespace Inet4.EthernetSwitch

open AssocMap List Option

open Ieee8021d (MacAddress)

/-- `MacAddress::isBroadcast`. -/
def isBroadcast (address : MacAddress) : Bool := address = BitVec.allOnes 48

/-- `MacAddress::isMulticast`: the lowest bit of the first byte. -/
def isMulticast (address : MacAddress) : Bool := address.getLsbD 40

/-- `MacAddressTable::AddressEntry`. -/
structure AddressEntry where
  vid : ℕ := 0
  interfaceId : ℤ := -1
  insertionTime : SimTime
  deriving DecidableEq, Repr

/-- `MacAddressTable::AddressTable`. -/
abbrev AddressTable := AssocMap MacAddress AddressEntry

/-- `MacAddressTable`.  The table of VLAN 0 is one of the tables of `vlanAddressTable`, to which
`addressTable` points. -/
structure MacAddressTable where
  agingTime : SimTime
  lastPurge : SimTime := 0
  vlanAddressTable : AssocMap ℕ AddressTable := ∅

/-- A line of the address table file, with the interface found by its name. -/
structure FileLine where
  vlanId : ℕ
  macAddress : MacAddress
  interfaceId : ℤ
  deriving DecidableEq, Repr

namespace AddressEntry

variable (entry : AddressEntry)

def sighting : Sighting ℤ := ⟨entry.interfaceId, entry.insertionTime⟩

@[simp]
theorem place_sighting : entry.sighting.place = entry.interfaceId := rfl

/-- An entry that is not used any more. -/
def Aged (agingTime now : SimTime) : Prop :=
  entry.insertionTime + agingTime ≤ now

instance (entry : AddressEntry) (agingTime now : SimTime) : Decidable (entry.Aged agingTime now) :=
  inferInstanceAs (Decidable (_ ≤ _))

end AddressEntry

namespace MacAddressTable

variable (macTable : MacAddressTable)

def getTableForVid (vid : ℕ) : Option AddressTable :=
  macTable.vlanAddressTable.find vid

/-- The table of a VLAN is changed in place. -/
def setTableForVid (vid : ℕ) (table : AddressTable) : MacAddressTable :=
  { macTable with vlanAddressTable := macTable.vlanAddressTable.assign vid table }

/-- Every table is changed in place. -/
def mapTables (f : AddressTable → AddressTable) : MacAddressTable :=
  { macTable with
    vlanAddressTable := macTable.vlanAddressTable.updateAll fun _ table ↦ some (f table) }

variable (now : SimTime)

/-- `getInterfaceIdForAddress`; -1 when the address is not known. -/
def getInterfaceIdForAddress (address : MacAddress) (vid : ℕ)
    : ℤ × MacAddressTable :=
  match macTable.getTableForVid vid with
  | none => (-1, macTable)
  | some table =>
    match table.find address with
    | none => (-1, macTable)
    | some entry =>
      if entry.Aged macTable.agingTime now then
        (-1, macTable.setTableForVid vid (table.remove address))
      else (entry.interfaceId, macTable)

def removeAgedEntriesFromAllVlans : MacAddressTable :=
  macTable.mapTables fun table ↦
    table.removeIf fun entry ↦ decide (entry.Aged macTable.agingTime now)

/-- `removeAgedEntriesIfNeeded`: at most once in a second of steady additions. -/
def removeAgedEntriesIfNeeded : MacAddressTable :=
  if now ≥ macTable.lastPurge + SimTime.ofMillis 1000 then
    { macTable.removeAgedEntriesFromAllVlans now with lastPurge := now }
  else { macTable with lastPurge := now }

/-- The table of a VLAN, which is created when it does not exist. -/
def createTable (vid : ℕ) : MacAddressTable :=
  { macTable with vlanAddressTable := macTable.vlanAddressTable.emplace vid ∅ }

/-- `(*table)[address] = entry`. -/
def setEntry (vid : ℕ) (address : MacAddress) (entry : AddressEntry) : MacAddressTable :=
  macTable.setTableForVid vid
    (((macTable.getTableForVid vid).getD ∅).assign address entry)

def updateTableWithAddress (interfaceId : ℤ) (address : MacAddress) (vid : ℕ)
    : MacAddressTable :=
  if isMulticast address then macTable
  else
    let macTable := macTable.createTable vid
    match (macTable.getTableForVid vid).bind (·.find address) with
    | none => (macTable.removeAgedEntriesIfNeeded now).setEntry vid address ⟨vid, interfaceId, now⟩
    | some entry =>
      macTable.setEntry vid address
        { entry with interfaceId := interfaceId, insertionTime := now }

def flush (interfaceId : ℤ) : MacAddressTable :=
  macTable.mapTables fun table ↦ table.removeIf fun entry ↦ entry.interfaceId = interfaceId

def copyTable (interfaceIdA interfaceIdB : ℤ) : MacAddressTable :=
  macTable.mapTables fun table ↦ table.updateAll fun _ entry ↦
    some (if entry.interfaceId = interfaceIdA then { entry with interfaceId := interfaceIdB }
      else entry)

/-- `setAgingTime`; `resetDefaultAging` sets the value of the parameter. -/
def setAgingTime (agingTime : SimTime) : MacAddressTable :=
  { macTable with agingTime := agingTime }

def clearTable : MacAddressTable :=
  { macTable with vlanAddressTable := ∅ }

/-- `readAddressTable`: what is done with a line of the file. -/
def readLine (line : FileLine) : MacAddressTable :=
  (macTable.createTable line.vlanId).setEntry line.vlanId line.macAddress
    ⟨line.vlanId, line.interfaceId, 0⟩

def initializeTable (lines : List FileLine) : MacAddressTable :=
  lines.foldl readLine macTable.clearTable

/-! ## Entries -/

/-- The entry of an address. -/
def entry (vid : ℕ) (address : MacAddress) : Option AddressEntry :=
  (macTable.getTableForVid vid).bind (·.find address)

variable {macTable} {now} {vid vid' : ℕ} {address address' : MacAddress}

theorem entry_setTableForVid (table : AddressTable) :
    (macTable.setTableForVid vid table).entry vid' address =
      if vid' = vid then table.find address else macTable.entry vid' address := by
  unfold entry getTableForVid setTableForVid
  rw [find_assign]
  split <;> rfl

/-- What a change of the tables does to the entries it does to the entry of the address. -/
theorem entry_mapTables {f : AddressTable → AddressTable}
    {g : Option AddressEntry → Option AddressEntry} (hnone : g none = none)
    (h : ∀ table : AddressTable, (f table).find address = g (table.find address)) :
    (macTable.mapTables f).entry vid address = g (macTable.entry vid address) := by
  unfold entry getTableForVid mapTables
  rw [find_updateAll]
  cases macTable.vlanAddressTable.find vid with
  | none => exact hnone.symm
  | some table => exact h table

@[simp]
theorem entry_createTable : (macTable.createTable vid).entry vid' address =
    macTable.entry vid' address := by
  unfold entry getTableForVid createTable
  by_cases hmem : vid ∈ macTable.vlanAddressTable
  · rw [emplace_of_mem hmem]
  · rw [find_emplace_of_notMem hmem]
    split
    · rename_i hvid
      rw [hvid, find_eq_none.mpr hmem]
      rfl
    · rfl

theorem entry_setEntry (entry : AddressEntry) :
    (macTable.setEntry vid address entry).entry vid' address' =
      if vid' = vid ∧ address' = address then some entry else macTable.entry vid' address' := by
  rw [setEntry, entry_setTableForVid]
  by_cases hvid : vid' = vid
  · subst hvid
    rw [if_pos rfl, find_assign]
    by_cases haddress : address' = address
    · rw [if_pos haddress, if_pos ⟨rfl, haddress⟩]
    · rw [if_neg haddress, if_neg (mt And.right haddress)]
      unfold MacAddressTable.entry
      cases macTable.getTableForVid vid' with
      | none => exact find_empty address'
      | some table => rfl
  · rw [if_neg hvid, if_neg (mt And.left hvid)]

theorem entry_removeAgedEntriesFromAllVlans :
    (macTable.removeAgedEntriesFromAllVlans now).entry vid address =
      (macTable.entry vid address).filter fun entry ↦
        !decide (entry.Aged macTable.agingTime now) := by
  refine entry_mapTables (g := Option.filter _) rfl fun table ↦ ?_
  exact find_removeIf table _ address

theorem entry_flush (interfaceId : ℤ) : (macTable.flush interfaceId).entry vid address =
    (macTable.entry vid address).filter fun entry ↦ !decide (entry.interfaceId = interfaceId) := by
  refine entry_mapTables (g := Option.filter _) rfl fun table ↦ ?_
  exact find_removeIf table _ address

theorem entry_copyTable (interfaceIdA interfaceIdB : ℤ) :
    (macTable.copyTable interfaceIdA interfaceIdB).entry vid address =
      (macTable.entry vid address).map fun entry ↦
        if entry.interfaceId = interfaceIdA then { entry with interfaceId := interfaceIdB }
        else entry := by
  refine entry_mapTables (g := Option.map _) rfl fun table ↦ ?_
  rw [find_updateAll, map_eq_bind]
  rfl

/-! ## The table as a cache -/

/-- Where the addresses of a VLAN were last seen, as far as the table has it. -/
def sightings (macTable : MacAddressTable) (vid : ℕ) : Cache MacAddress ℤ := fun address ↦
  (macTable.entry vid address).map AddressEntry.sighting

/-- What the lines of the address table file teach about a VLAN. -/
def memoryOfLine (vid : ℕ) (now agingTime : SimTime) (memory : Memory MacAddress ℤ)
    (line : FileLine) : Memory MacAddress ℤ :=
  if line.vlanId = vid then memory.learn line.macAddress ⟨line.interfaceId, 0⟩ now agingTime
  else memory

def memoryOfLines (vid : ℕ) (now agingTime : SimTime) (lines : List FileLine) :
    Memory MacAddress ℤ :=
  lines.foldl (memoryOfLine vid now agingTime) fun _ ↦ none

theorem within_memoryOfLines {P : MacAddress → ℤ → Prop} {lines : List FileLine} (vid : ℕ)
    (now agingTime : SimTime) (h : ∀ line ∈ lines, P line.macAddress line.interfaceId) :
    (memoryOfLines vid now agingTime lines).Within P := by
  induction lines using reverseRecOn with
  | nil => exact Memory.within_nothing P
  | append_singleton lines line ih =>
    have hlines := ih fun other hother ↦ h other (mem_append_left _ hother)
    rw [memoryOfLines, foldl_concat, ← memoryOfLines, memoryOfLine]
    split
    · exact hlines.learn (h line mem_concat_self)
    · exact hlines

theorem definite_memoryOfLines (vid : ℕ) (now agingTime : SimTime) (lines : List FileLine) :
    (memoryOfLines vid now agingTime lines).Definite now agingTime := by
  induction lines using reverseRecOn with
  | nil => exact Memory.definite_nothing now agingTime
  | append_singleton lines line ih =>
    rw [memoryOfLines, foldl_concat, ← memoryOfLines, memoryOfLine]
    split
    · exact ih.learn
    · exact ih

theorem sightings_setEntry (entry : AddressEntry) :
    (macTable.setEntry vid address entry).sightings vid =
      Function.update (macTable.sightings vid) address (some entry.sighting) := by
  funext address'
  unfold sightings
  rw [entry_setEntry]
  by_cases haddress : address' = address
  · rw [if_pos ⟨rfl, haddress⟩, haddress, Function.update_self]
    rfl
  · rw [if_neg (mt And.right haddress), Function.update_of_ne haddress]

theorem sightings_setEntry_of_ne (entry : AddressEntry) (hvid : vid' ≠ vid) :
    (macTable.setEntry vid address entry).sightings vid' = macTable.sightings vid' := by
  funext address'
  unfold sightings
  rw [entry_setEntry, if_neg (mt And.left hvid)]

@[simp]
theorem sightings_createTable : (macTable.createTable vid).sightings vid' =
    macTable.sightings vid' := by
  funext address'
  unfold sightings
  rw [entry_createTable]

@[simp]
theorem agingTime_removeAgedEntriesIfNeeded :
    (macTable.removeAgedEntriesIfNeeded now).agingTime = macTable.agingTime := by
  unfold removeAgedEntriesIfNeeded
  split <;> rfl

@[simp]
theorem agingTime_updateTableWithAddress (macTable : MacAddressTable) (now : SimTime)
    (address : MacAddress) (vid : ℕ) (interfaceId : ℤ) :
    (macTable.updateTableWithAddress now interfaceId address vid).agingTime =
      macTable.agingTime := by
  unfold updateTableWithAddress
  split
  · rfl
  · dsimp only
    split
    · exact agingTime_removeAgedEntriesIfNeeded
    · rfl

@[simp]
theorem agingTime_getInterfaceIdForAddress :
    (macTable.getInterfaceIdForAddress now address vid).2.agingTime = macTable.agingTime := by
  unfold getInterfaceIdForAddress
  split
  · rfl
  · split
    · rfl
    · split <;> rfl

@[simp]
theorem agingTime_initializeTable (macTable : MacAddressTable) (lines : List FileLine) :
    (macTable.initializeTable lines).agingTime = macTable.agingTime := by
  unfold initializeTable
  induction lines using reverseRecOn with
  | nil => rfl
  | append_singleton lines line ih =>
    rw [foldl_concat]
    exact ih

/-- What the lookup returns is what the cache recalls. -/
theorem getInterfaceIdForAddress_fst :
    (macTable.getInterfaceIdForAddress now address vid).1 =
      ((macTable.sightings vid).retrieve now macTable.agingTime address).getD (-1) := by
  cases htable : macTable.getTableForVid vid with
  | none =>
    have hnone : macTable.sightings vid address = none := by
      rw [sightings, entry, htable]
      rfl
    rw [getInterfaceIdForAddress, htable, Cache.retrieve_of_none hnone]
    rfl
  | some table =>
    cases hentry : table.find address with
    | none =>
      have hnone : macTable.sightings vid address = none := by
        rw [sightings, entry, htable, bind_some, hentry]
        rfl
      rw [getInterfaceIdForAddress, htable, Cache.retrieve_of_none hnone]
      simp only [hentry, getD_none]
    | some found =>
      have hsome : macTable.sightings vid address = some found.sighting := by
        rw [sightings, entry, htable, bind_some, hentry]
        rfl
      rw [getInterfaceIdForAddress, htable]
      simp only [hentry]
      by_cases haged : found.Aged macTable.agingTime now
      · rw [if_pos haged, Cache.retrieve_of_old hsome haged]
        rfl
      · rw [if_neg haged, Cache.retrieve_of_young hsome (Int.not_le.mp haged)]
        rfl

section Reflecting

variable {memory : Memory MacAddress ℤ}

section

variable (h : Reflects (macTable.sightings vid) memory now macTable.agingTime)
include h

theorem reflects_getInterfaceIdForAddress :
    Reflects ((macTable.getInterfaceIdForAddress now address vid).2.sightings vid) memory now
      macTable.agingTime := by
  unfold getInterfaceIdForAddress
  split
  · exact h
  · rename_i table htable
    split
    · exact h
    · rename_i entry hentry
      split
      · rename_i haged
        have hfind : ∀ address', (macTable.setTableForVid vid (table.remove address)).entry vid
            address' = if address' = address then none else macTable.entry vid address' := by
          intro address'
          rw [entry_setTableForVid, if_pos rfl, find_remove, MacAddressTable.entry, htable]
          rfl
        refine h.prune ?_ ?_
        · intro address' sighting hstored
          unfold sightings at hstored ⊢
          rw [hfind] at hstored
          split at hstored
          · cases hstored
          · exact hstored
        · intro address' sighting hstored hyoung
          unfold sightings at hstored ⊢
          rw [hfind]
          split
          · rename_i haddress
            rw [haddress, MacAddressTable.entry, htable, bind_some, hentry] at hstored
            cases hstored
            exact absurd hyoung (Int.not_lt.mpr haged)
          · exact hstored
      · exact h

theorem reflects_removeAgedEntriesIfNeeded :
    Reflects ((macTable.removeAgedEntriesIfNeeded now).sightings vid) memory now
      macTable.agingTime := by
  have hpruned : Reflects ((macTable.removeAgedEntriesFromAllVlans now).sightings vid) memory now
      macTable.agingTime := by
    refine h.prune ?_ ?_
    · intro address sighting hstored
      obtain ⟨entry, hentry, rfl⟩ := map_eq_some_iff.mp hstored
      rw [entry_removeAgedEntriesFromAllVlans] at hentry
      exact congrArg (Option.map _) (Option.filter_eq_some_iff.mp hentry).1
    · intro address sighting hstored hyoung
      obtain ⟨entry, hentry, rfl⟩ := map_eq_some_iff.mp hstored
      have hkept : (macTable.removeAgedEntriesFromAllVlans now).entry vid address = some entry := by
        rw [entry_removeAgedEntriesFromAllVlans, filter_eq_some_iff]
        have hfresh : ¬entry.Aged macTable.agingTime now := Int.not_le.mpr hyoung
        exact ⟨hentry, by simpa using hfresh⟩
      exact congrArg (Option.map _) hkept
  unfold removeAgedEntriesIfNeeded
  split
  · exact hpruned
  · exact h

theorem reflects_updateTableWithAddress (interfaceId : ℤ) (hunicast : isMulticast address = false) :
    Reflects ((macTable.updateTableWithAddress now interfaceId address vid).sightings vid)
      (memory.learn address ⟨interfaceId, now⟩ now macTable.agingTime) now macTable.agingTime := by
  unfold updateTableWithAddress
  rw [if_neg (Bool.eq_false_iff.mp hunicast)]
  have hcreated : Reflects ((macTable.createTable vid).sightings vid) memory now
      (macTable.createTable vid).agingTime := by
    rw [sightings_createTable]
    exact h
  dsimp only
  split
  · rw [sightings_setEntry]
    exact (reflects_removeAgedEntriesIfNeeded hcreated).learn address ⟨interfaceId, now⟩
  · rw [sightings_setEntry]
    exact hcreated.learn address ⟨interfaceId, now⟩

theorem reflects_flush (interfaceId : ℤ) :
    Reflects ((macTable.flush interfaceId).sightings vid) (memory.forget interfaceId) now
      macTable.agingTime := by
  convert h.forget interfaceId using 1
  funext address
  unfold sightings
  rw [entry_flush]
  cases macTable.entry vid address with
  | none => rfl
  | some entry =>
    by_cases hid : entry.interfaceId = interfaceId <;> simp [Option.filter, hid]

theorem reflects_copyTable (interfaceIdA interfaceIdB : ℤ) :
    Reflects ((macTable.copyTable interfaceIdA interfaceIdB).sightings vid)
      (memory.redirect interfaceIdA interfaceIdB) now macTable.agingTime := by
  convert h.redirect interfaceIdA interfaceIdB using 1
  funext address
  unfold sightings
  rw [entry_copyTable]
  cases macTable.entry vid address with
  | none => rfl
  | some entry =>
    simp only [map_some, AddressEntry.sighting, Sighting.move]
    split <;> rfl

theorem reflects_readLine (line : FileLine) : Reflects ((macTable.readLine line).sightings vid)
      (memoryOfLine vid now macTable.agingTime memory line) now macTable.agingTime := by
  have hcreated : Reflects ((macTable.createTable line.vlanId).sightings vid) memory now
      macTable.agingTime := by
    rw [sightings_createTable]
    exact h
  unfold readLine memoryOfLine
  split
  · rename_i hvid
    subst hvid
    rw [sightings_setEntry]
    exact hcreated.learn line.macAddress ⟨line.interfaceId, 0⟩
  · rename_i hvid
    rw [sightings_setEntry_of_ne _ (Ne.symm hvid)]
    exact hcreated

end

/-- A table that was read from a file reflects what the file says. -/
theorem reflects_initializeTable (macTable : MacAddressTable) (vid : ℕ) (now : SimTime)
    (lines : List FileLine) :
    Reflects ((macTable.initializeTable lines).sightings vid)
      (memoryOfLines vid now macTable.agingTime lines) now macTable.agingTime := by
  induction lines using reverseRecOn with
  | nil => exact Reflects.empty now macTable.agingTime
  | append_singleton lines line ih =>
    have hstep := reflects_readLine (agingTime_initializeTable macTable lines ▸ ih) line
    rw [agingTime_initializeTable] at hstep
    unfold initializeTable memoryOfLines
    rw [foldl_concat, foldl_concat]
    exact hstep

end Reflecting

end MacAddressTable

end Inet4.EthernetSwitch
