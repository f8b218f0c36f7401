import Inet4.Ipv4.HostMulticastCounts
import Inet4.Udp.MembershipTable

/-!
# What the interfaces hear of a change

Each interface has counted the memberships that are for it: those with its id, and those on all
interfaces if it is a multicast interface.  A call that replaces one membership by another reports
the two filters to exactly these interfaces, and each of them has counted the first one.
-/

namespace Inet4.Udp

open Ipv4 (Ipv4Address Ipv4InterfaceData McastFilter McastSourceFilterMode)
open UdpSourceFilterMode

/-- The errors that report a wrong reference count. -/
def IsInconsistency : SimulationError → Prop
  | .runtimeError format => format = "Inconsistent reference counts in Ipv4InterfaceData."
  | .assertion condition =>
    condition = "oldFilterMode == MCAST_INCLUDE_SOURCES && oldSourceList.empty()"
  | .notReturned => False

instance : DecidablePred IsInconsistency
  | .runtimeError _ | .assertion _ => inferInstanceAs (Decidable (_ = _))
  | .notReturned => isFalse id

/-- A result has a property, or it is an error of another kind. -/
def Safe {α : Type} (result : Except SimulationError α) (post : α → Prop) : Prop :=
  match result with
  | .ok a => post a
  | .error error => ¬IsInconsistency error

section Safe

variable {α β : Type} {first : Except SimulationError α} {rest : α → Except SimulationError β}
variable {P : α → Prop} {Q : β → Prop}

theorem Safe.bind (h : Safe first P) (hrest : ∀ a, P a → Safe (rest a) Q) :
    Safe (first >>= rest) Q := by
  cases first with
  | error error => exact h
  | ok a => exact hrest a h

theorem Safe.mono (h : Safe first P) {P' : α → Prop} (himp : ∀ a, P a → P' a) :
    Safe first P' := by
  cases first with
  | error error => exact h
  | ok a => exact himp a h

theorem Safe.ok (h : Safe first P) {a : α} (hok : first = .ok a) : P a := by
  rw [hok] at h
  exact h

theorem safe_throwIf {condition : Prop} [Decidable condition] {error : SimulationError}
    (herror : ¬IsInconsistency error) : Safe (throwIf condition error) fun _ ↦ ¬condition := by
  rw [throwIf]
  split
  · exact herror
  · rename_i hcondition
    exact hcondition

/-- A step that is safe on every element of a list is safe on the list. -/
theorem safe_mapM {f : α → Except SimulationError β} {R : ℕ → β → Prop} {l : List α} {i : ℕ}
    (h : ∀ k a, l[k]? = some a → Safe (f a) (R (i + k))) :
    Safe (l.mapM f) fun l' ↦ ∀ k b, l'[k]? = some b → R (i + k) b := by
  induction l generalizing i with
  | nil =>
    intro k b hb
    cases hb
  | cons a l ih =>
    rw [List.mapM_cons]
    apply (h 0 a rfl).bind
    intro b hb
    have htail : ∀ k a', l[k]? = some a' → Safe (f a') (R (i + 1 + k)) := by
      intro k a' ha'
      have hstep := h (k + 1) a' ha'
      rwa [← Nat.add_assoc, Nat.add_right_comm] at hstep
    apply (ih htail).bind
    intro l' hl' k b' hb'
    cases k with
    | zero =>
      cases hb'
      exact hb
    | succ k =>
      have hrest := hl' k b' hb'
      rwa [Nat.add_right_comm, Nat.add_assoc] at hrest

end Safe

/-- The IPv4 address of a source. -/
def ipv4Of : L3Address → Ipv4Address
  | .IPv4 addr => addr
  | _ => 0#32

/-- The filter of a membership as it is reported. -/
def MulticastMembership.mcastFilter (membership : MulticastMembership) : McastFilter where
  filterMode := membership.filterMode.toMcast
  sources := membership.sourceList.map ipv4Of

/-- A membership is for an interface. -/
def MulticastMembership.AppliesTo (membership : MulticastMembership) (interfaceId : ℤ)
    (isMulticast : Bool) : Prop :=
  membership.interfaceId = interfaceId ∨ membership.interfaceId = -1 ∧ isMulticast = true

instance (membership : MulticastMembership) (interfaceId : ℤ) (isMulticast : Bool) :
    Decidable (membership.AppliesTo interfaceId isMulticast) :=
  inferInstanceAs (Decidable (_ ∨ _))

/-- The filters that an interface hears of for a group. -/
def filtersFor (memberships : List MulticastMembership) (interfaceId : ℤ) (isMulticast : Bool)
    (group : Ipv4Address) : List McastFilter :=
  (memberships.filter fun membership ↦
    membership.multicastAddress = .IPv4 group ∧
      membership.AppliesTo interfaceId isMulticast).map MulticastMembership.mcastFilter

variable {membership membership' : MulticastMembership}
variable {memberships memberships' : List MulticastMembership} {interfaceId : ℤ}
variable {isMulticast : Bool} {group : Ipv4Address} {ie : InterfaceEntry} {ift : InterfaceTable}

theorem filtersFor_cons (membership : MulticastMembership)
    (memberships : List MulticastMembership) :
    filtersFor (membership :: memberships) interfaceId isMulticast group =
      if membership.multicastAddress = .IPv4 group ∧ membership.AppliesTo interfaceId isMulticast
      then membership.mcastFilter :: filtersFor memberships interfaceId isMulticast group
      else filtersFor memberships interfaceId isMulticast group := by
  rw [filtersFor, List.filter_cons]
  split <;> simp_all [filtersFor]

theorem filtersFor_perm (h : memberships.Perm memberships') :
    (filtersFor memberships interfaceId isMulticast group).Perm
      (filtersFor memberships' interfaceId isMulticast group) :=
  (h.filter _).map _

/-- The interface has counted the memberships that are for it. -/
def InterfaceEntry.Reflects (ie : InterfaceEntry) (interfaceId : ℤ)
    (memberships : List MulticastMembership) : Prop :=
  ∀ data, ie.ipv4Data = some data → data.Distinct ∧
    ∀ group, data.Counted group (filtersFor memberships interfaceId ie.isMulticast group)

def InterfaceTable.Reflects (ift : InterfaceTable) (memberships : List MulticastMembership) :
    Prop :=
  ∀ (k : ℕ) (ie : InterfaceEntry), ift.idToInterface[k]? = some ie →
    ie.Reflects (InterfaceTable.INTERFACEIDS_START + k : ℕ) memberships

theorem InterfaceTable.Reflects.perm (h : ift.Reflects memberships)
    (hperm : memberships.Perm memberships') : ift.Reflects memberships' := by
  intro k ie hie data hdata
  obtain ⟨hdistinct, hcounted⟩ := h k ie hie data hdata
  exact ⟨hdistinct, fun group ↦ (hcounted group).perm (filtersFor_perm hperm)⟩

/-- A membership that includes no source counts for nothing. -/
theorem InterfaceTable.reflects_cons_empty (membership : MulticastMembership)
    (hmode : membership.filterMode = UDP_INCLUDE_MCAST_SOURCES)
    (hsources : membership.sourceList = []) :
    ift.Reflects (membership :: memberships) ↔ ift.Reflects memberships := by
  have hfilter : membership.mcastFilter = {} := by
    rw [MulticastMembership.mcastFilter, hmode, hsources]
    rfl
  have hcounted : ∀ (data : Ipv4InterfaceData) group interfaceId isMulticast,
      data.Counted group (filtersFor (membership :: memberships) interfaceId isMulticast group) ↔
        data.Counted group (filtersFor memberships interfaceId isMulticast group) := by
    intro data group interfaceId isMulticast
    rw [filtersFor_cons]
    split
    · rw [hfilter]
      exact Ipv4InterfaceData.counted_cons_empty_iff
    · rfl
  simp only [InterfaceTable.Reflects, InterfaceEntry.Reflects, hcounted]

theorem safe_toIpv4 (sources : List L3Address) :
    Safe (sources.mapM L3Address.toIpv4) fun list ↦ list = sources.map ipv4Of := by
  induction sources with
  | nil => rfl
  | cons source sources ih =>
    have hsource : Safe source.toIpv4 fun addr ↦ addr = ipv4Of source := by
      cases source with
      | NONE => rfl
      | IPv4 addr => rfl
      | _ =>
        change ¬IsInconsistency _
        decide
    rw [List.mapM_cons]
    apply hsource.bind
    rintro _ rfl
    apply ih.bind
    rintro _ rfl
    rfl

theorem safe_getProtocolData (ie : InterfaceEntry) :
    Safe ie.getProtocolData fun data ↦ ie.ipv4Data = some data := by
  rw [InterfaceEntry.getProtocolData]
  split
  · change ¬IsInconsistency _
    decide
  · rename_i data hdata
    exact hdata

/-- A counted change of the data of an interface leaves the counts of the new memberships. -/
theorem InterfaceEntry.Reflects.change (h : ie.Reflects interfaceId (membership :: memberships))
    (hkey : membership'.key = membership.key)
    (hgroup : membership.multicastAddress = .IPv4 group)
    (happlies : membership.AppliesTo interfaceId ie.isMulticast) {data : Ipv4InterfaceData}
    (hdata : ie.ipv4Data = some data) :
    Safe (data.changeMulticastGroupMembership group membership.mcastFilter.filterMode
        membership.mcastFilter.sources membership'.mcastFilter.filterMode
        membership'.mcastFilter.sources) fun data' ↦
      InterfaceEntry.Reflects { ie with ipv4Data := some data' } interfaceId
        (membership' :: memberships) := by
  obtain ⟨hdistinct, hcounted⟩ := h data hdata
  have hgroup' : membership'.multicastAddress = .IPv4 group := by
    rw [← hgroup]
    exact congrArg Prod.fst hkey
  have happlies' : membership'.AppliesTo interfaceId ie.isMulticast := by
    have hid : membership'.interfaceId = membership.interfaceId := congrArg Prod.snd hkey
    rw [MulticastMembership.AppliesTo, hid]
    exact happlies
  by_cases hmulticast : group.isMulticast = true
  · have hold := hcounted group
    rw [filtersFor_cons, if_pos ⟨hgroup, happlies⟩] at hold
    obtain ⟨data', hchange, hchanged⟩ := Ipv4InterfaceData.changeMulticastGroupMembership_spec
      membership'.mcastFilter hdistinct hold hmulticast
    rw [hchange]
    intro data'' hdata''
    cases hdata''
    refine ⟨hchanged.distinct, ?_⟩
    intro g
    rw [filtersFor_cons]
    by_cases hg : g = group
    · subst hg
      rw [if_pos ⟨hgroup', happlies'⟩]
      exact hchanged.counted
    · have hne : ¬(membership'.multicastAddress = .IPv4 g ∧
          membership'.AppliesTo interfaceId ie.isMulticast) := by
        rintro ⟨heq, -⟩
        rw [hgroup'] at heq
        exact hg (L3Address.IPv4.inj heq).symm
      have hne' : ¬(membership.multicastAddress = .IPv4 g ∧
          membership.AppliesTo interfaceId ie.isMulticast) := by
        rintro ⟨heq, -⟩
        rw [hgroup] at heq
        exact hg (L3Address.IPv4.inj heq).symm
      have hkept := hcounted g
      rw [filtersFor_cons, if_neg hne'] at hkept
      rw [if_neg hne]
      exact (Ipv4InterfaceData.counted_congr (hchanged.others g hg)).mpr hkept
  · rw [Ipv4InterfaceData.changeMulticastGroupMembership, throwIf, if_pos hmulticast]
    change ¬IsInconsistency _
    decide

/-- A change that is right for an interface a membership is for. -/
def RightFor (membership membership' : MulticastMembership)
    (memberships : List MulticastMembership)
    (change : InterfaceEntry → Except SimulationError InterfaceEntry) : Prop :=
  ∀ ie interfaceId, membership.AppliesTo interfaceId ie.isMulticast →
    ie.Reflects interfaceId (membership :: memberships) →
      Safe (change ie) fun ie' ↦ ie'.Reflects interfaceId (membership' :: memberships)

/-- The report of an old and a new filter is right. -/
theorem rightFor_change (hkey : membership'.key = membership.key) :
    RightFor membership membership' memberships fun ie ↦
      ie.changeMulticastGroupMembership membership.multicastAddress
        membership.filterMode.toMcast membership.sourceList membership'.filterMode.toMcast
        membership'.sourceList := by
  intro ie interfaceId happlies h
  cases hgroup : membership.multicastAddress with
  | IPv4 group =>
    apply (safe_toIpv4 membership.sourceList).bind
    rintro _ rfl
    apply (safe_toIpv4 membership'.sourceList).bind
    rintro _ rfl
    apply (safe_getProtocolData ie).bind
    intro data hdata
    apply (h.change hkey hgroup happlies hdata).bind
    intro data' hdata'
    exact hdata'
  | _ =>
    change ¬IsInconsistency _
    decide

/-- A group that is joined for all sources is reported right, or not at all if it is no IPv4
group. -/
theorem rightFor_addMulticastAddress (hkey : membership'.key = membership.key)
    (hold : membership.mcastFilter = {})
    (hnew : membership'.mcastFilter =
      { filterMode := .MCAST_EXCLUDE_SOURCES
        sources := [] }) :
    RightFor membership membership' memberships fun ie ↦
      ie.addMulticastAddress membership.multicastAddress := by
  intro ie interfaceId happlies h
  apply (safe_throwIf (by decide)).bind
  intro _ _
  have hmulticast : Safe membership.multicastAddress.isMulticast fun _ ↦ True := by
    cases membership.multicastAddress with
    | NONE =>
      change ¬IsInconsistency _
      decide
    | _ => trivial
  apply hmulticast.bind
  intro _ _
  apply (safe_throwIf (by decide)).bind
  intro _ _
  split
  · rename_i group hgroup
    apply (safe_getProtocolData ie).bind
    intro data hdata
    have hchange := h.change hkey hgroup happlies hdata
    rw [hold, hnew] at hchange
    exact hchange.bind fun data' hdata' ↦ hdata'
  · rename_i hnot
    -- an interface counts IPv4 groups only
    intro data hdata
    obtain ⟨hdistinct, hcounted⟩ := h data hdata
    refine ⟨hdistinct, ?_⟩
    intro group
    have haddress : membership'.multicastAddress = membership.multicastAddress :=
      congrArg Prod.fst hkey
    have hkept := hcounted group
    rw [filtersFor_cons, if_neg (fun hpos ↦ hnot group hpos.1)] at hkept
    rw [filtersFor_cons, haddress, if_neg (fun hpos ↦ hnot group hpos.1)]
    exact hkept

/-- An interface that a membership is not for sees no difference. -/
theorem InterfaceEntry.Reflects.of_not_applies
    (h : ie.Reflects interfaceId (membership :: memberships))
    (hkey : membership'.key = membership.key)
    (hnot : ¬membership.AppliesTo interfaceId ie.isMulticast) :
    ie.Reflects interfaceId (membership' :: memberships) := by
  have hid : membership'.interfaceId = membership.interfaceId := congrArg Prod.snd hkey
  have hnot' : ¬membership'.AppliesTo interfaceId ie.isMulticast := by
    rw [MulticastMembership.AppliesTo, hid]
    exact hnot
  intro data hdata
  obtain ⟨hdistinct, hcounted⟩ := h data hdata
  refine ⟨hdistinct, ?_⟩
  intro group
  have hkept := hcounted group
  rw [filtersFor_cons, if_neg (fun hpos ↦ hnot hpos.2)] at hkept
  rw [filtersFor_cons, if_neg (fun hpos ↦ hnot' hpos.2)]
  exact hkept

theorem safe_getInterfaceById (ift : InterfaceTable) (id : ℤ) :
    Safe (ift.getInterfaceById id) fun ie ↦
      ∃ k : ℕ, id = (InterfaceTable.INTERFACEIDS_START + k : ℕ) ∧
        ift.idToInterface[k]? = some ie := by
  rw [InterfaceTable.getInterfaceById]
  split
  · change ¬IsInconsistency _
    decide
  · rename_i ie hie
    rw [InterfaceTable.findInterfaceById] at hie
    split at hie
    · cases hie
    · rename_i hge
      refine ⟨(id - InterfaceTable.INTERFACEIDS_START).toNat, ?_, hie⟩
      omega

/-- A change that is right for each interface a membership is for is right for the table. -/
theorem InterfaceTable.Reflects.update
    {change : InterfaceEntry → Except SimulationError InterfaceEntry}
    (h : ift.Reflects (membership :: memberships))
    (hright : RightFor membership membership' memberships change)
    (hkey : membership'.key = membership.key) :
    Safe (ift.update membership.interfaceId change) fun ift' ↦
      ift'.Reflects (membership' :: memberships) := by
  rw [InterfaceTable.update]
  split
  · rename_i hone
    apply (safe_getInterfaceById ift membership.interfaceId).bind
    rintro ie ⟨k, hid, hie⟩
    have happlies : membership.AppliesTo (InterfaceTable.INTERFACEIDS_START + k : ℕ)
        ie.isMulticast := Or.inl hid
    apply (hright ie _ happlies (h k ie hie)).bind
    intro ie' hie' j other hother
    have hposition : (membership.interfaceId - InterfaceTable.INTERFACEIDS_START).toNat = k := by
      rw [hid]
      omega
    rw [hposition] at hother
    rw [List.getElem?_set] at hother
    split at hother
    · rename_i hj
      subst hj
      split at hother
      · cases hother
        exact hie'
      · cases hother
    · rename_i hj
      apply (h j other hother).of_not_applies hkey
      rintro (heq | ⟨hall, -⟩)
      · rw [hid] at heq
        omega
      · exact hone hall
  · rename_i hall
    rw [not_not] at hall
    rw [InterfaceTable.updateMulticastInterfaces]
    have hmap := safe_mapM (i := 0) (l := ift.idToInterface)
      (f := fun ie ↦ if ie.isMulticast then change ie else pure ie)
      (R := fun k ie' ↦ ie'.Reflects (InterfaceTable.INTERFACEIDS_START + k : ℕ)
        (membership' :: memberships)) (by
      intro k ie hie
      have hreflects := h k ie hie
      rw [Nat.zero_add]
      split
      · rename_i hmulticast
        exact hright ie _ (Or.inr ⟨hall, hmulticast⟩) hreflects
      · rename_i hnot
        apply hreflects.of_not_applies hkey
        rintro (heq | ⟨-, hmulticast⟩)
        · rw [hall] at heq
          omega
        · exact hnot hmulticast)
    apply hmap.bind
    intro entries hentries k ie hie
    have hentry := hentries k ie hie
    rwa [Nat.zero_add] at hentry

end Inet4.Udp
