import Inet4.EthernetSwitch.Relay

/-!
# Where the relay sends a frame

The ports a frame goes to are described for the answer that the address table gives: the one port of
the answer, or all ports that take part in flooding.  In both cases the port at which the frame has
arrived and the ports that are not forwarding are left out.  What the address table answers is
described by what the switch has learned.
-/

namespace Inet4.EthernetSwitch

open List
open Ieee8021d (MacAddress Ieee8021dInterfaceData)

namespace Switch

/-- The ids of the interfaces. -/
def ports (s : Switch) : List ℤ := s.ifTable.interfaces.map InterfaceEntry.interfaceId

/-- The protocol data that the relay reads exists. -/
def Prepared (s : Switch) : Prop :=
  s.isStpAware → ∀ ie ∈ s.ifTable.interfaces, ie.ieee8021dInterfaceData.isSome

/-- The interface is forwarding. -/
def forwardsOn (s : Switch) (ie : InterfaceEntry) : Bool :=
  !s.isStpAware || ie.ieee8021dInterfaceData.any isForwarding

/-- The interface takes part in flooding. -/
def floodsOn (s : Switch) (ie : InterfaceEntry) : Bool :=
  !ie.isLoopback && ie.isBroadcast && s.forwardsOn ie

/-- The port is forwarding. -/
def Forwards (s : Switch) (port : ℤ) : Prop :=
  ∃ ie ∈ s.ifTable.interfaces, ie.interfaceId = port ∧ s.forwardsOn ie

/-- The port takes part in flooding. -/
def Floods (s : Switch) (port : ℤ) : Prop :=
  ∃ ie ∈ s.ifTable.interfaces, ie.interfaceId = port ∧ s.floodsOn ie

/-- The ports to which a frame goes that arrived on a port, by what is known about its destination.
There is no port -1, on which frames from the upper layer arrive. -/
def PortsFor (s : Switch) (arrival : ℤ) (answer : Option ℤ) (port : ℤ) : Prop :=
  port ≠ arrival ∧ answer.elim (s.Floods port) fun place ↦ port = place ∧ s.Forwards port

/-- Between two states the frame is sent once on each of the ports, and nothing else is sent. -/
def SendsOn (s t : Switch) (frame : Frame) (ports : ℤ → Prop) : Prop :=
  ∃ outs, t.sent = s.sent ++ outs ∧ (∀ out ∈ outs, ∃ port, ports port ∧ out = .ifOut port frame) ∧
    ∀ port, ports port → outs.count (.ifOut port frame) = 1

/-- A frame is sent on each of the interfaces. -/
def dispatchAll (s : Switch) (frame : Frame) (interfaces : List InterfaceEntry) : Switch :=
  interfaces.foldl (fun s ie ↦ s.dispatch frame ie) s

/-- The two states agree on all that says where frames go. -/
structure Alike (s t : Switch) : Prop where
  isStpAware : t.isStpAware = s.isStpAware
  ifTable : t.ifTable = s.ifTable
  bridgeAddress : t.bridgeAddress = s.bridgeAddress
  registeredMacAddresses : t.registeredMacAddresses = s.registeredMacAddresses
  now : t.now = s.now
  agingTime : t.macTable.agingTime = s.macTable.agingTime

variable {s t u : Switch} {frame : Frame} {arrival port : ℤ} {ie : InterfaceEntry}
variable {answer : Option ℤ}

namespace Alike

theorem refl (s : Switch) : s.Alike s := ⟨rfl, rfl, rfl, rfl, rfl, rfl⟩

theorem trans (h : s.Alike t) (h' : t.Alike u) : s.Alike u where
  isStpAware             := h'.isStpAware.trans h.isStpAware
  ifTable                := h'.ifTable.trans h.ifTable
  bridgeAddress          := h'.bridgeAddress.trans h.bridgeAddress
  registeredMacAddresses := h'.registeredMacAddresses.trans h.registeredMacAddresses
  now                    := h'.now.trans h.now
  agingTime              := h'.agingTime.trans h.agingTime

theorem ports (h : s.Alike t) : t.ports = s.ports := by rw [Switch.ports, Switch.ports, h.ifTable]

theorem forwardsOn (h : s.Alike t) (ie : InterfaceEntry) : t.forwardsOn ie = s.forwardsOn ie := by
  rw [Switch.forwardsOn, Switch.forwardsOn, h.isStpAware]

theorem prepared (h : s.Alike t) (hs : s.Prepared) : t.Prepared := by
  unfold Prepared
  rw [h.isStpAware, h.ifTable]
  exact hs

theorem forwards (h : s.Alike t) : t.Forwards = s.Forwards := by
  funext port
  unfold Forwards
  rw [h.ifTable]
  simp only [h.forwardsOn]

theorem portsFor (h : s.Alike t) : t.PortsFor = s.PortsFor := by
  funext arrival answer port
  unfold PortsFor Floods floodsOn
  rw [h.forwards, h.ifTable]
  simp only [h.forwardsOn]

end Alike

theorem dispatch_alike (s : Switch) (frame : Frame) (ie : InterfaceEntry) :
    s.Alike (s.dispatch frame ie) := ⟨rfl, rfl, rfl, rfl, rfl, rfl⟩

theorem dispatchAll_alike (s : Switch) (frame : Frame) (interfaces : List InterfaceEntry) :
    s.Alike (s.dispatchAll frame interfaces) := by
  induction interfaces generalizing s with
  | nil => exact Alike.refl s
  | cons ie interfaces ih => exact (dispatch_alike s frame ie).trans (ih _)

theorem macTable_dispatchAll (s : Switch) (frame : Frame) (interfaces : List InterfaceEntry) :
    (s.dispatchAll frame interfaces).macTable = s.macTable := by
  induction interfaces generalizing s with
  | nil => rfl
  | cons ie interfaces ih => exact ih _

theorem sent_dispatchAll (s : Switch) (frame : Frame) (interfaces : List InterfaceEntry) :
    (s.dispatchAll frame interfaces).sent =
      s.sent ++ interfaces.map fun ie ↦ .ifOut ie.interfaceId frame := by
  induction interfaces generalizing s with
  | nil => exact (append_nil _).symm
  | cons ie interfaces ih =>
    have hrest := ih (s.dispatch frame ie)
    rw [dispatchAll, foldl_cons, ← dispatchAll, hrest, dispatch, append_assoc,
      map_cons]
    rfl

/-- The frame is sent on some of the interfaces, which have different ids. -/
theorem sendsOn_dispatchAll (s : Switch) (frame : Frame) (p : InterfaceEntry → Bool) :
    s.SendsOn (s.dispatchAll frame (s.ifTable.interfaces.filter p)) frame fun port ↦
      ∃ ie ∈ s.ifTable.interfaces, ie.interfaceId = port ∧ p ie := by
  refine ⟨_, sent_dispatchAll s frame _, ?_, ?_⟩
  · intro out hout
    obtain ⟨ie, hie, rfl⟩ := mem_map.mp hout
    obtain ⟨hie, hp⟩ := mem_filter.mp hie
    exact ⟨ie.interfaceId, ⟨ie, hie, rfl, hp⟩, rfl⟩
  · rintro port ⟨ie, hie, rfl, hp⟩
    have hids : ((s.ifTable.interfaces.filter p).map InterfaceEntry.interfaceId).Nodup :=
      s.ifTable.ids_nodup.sublist (filter_sublist.map _)
    have hnodup : ((s.ifTable.interfaces.filter p).map fun ie ↦
        Output.ifOut ie.interfaceId frame).Nodup := by
      have hmap := hids.map (f := fun id ↦ Output.ifOut id frame) fun id id' heq ↦
        (Output.ifOut.inj heq).1
      rwa [map_map] at hmap
    exact count_eq_one_of_mem hnodup
      (mem_map.mpr ⟨ie, mem_filter.mpr ⟨hie, hp⟩, rfl⟩)

theorem SendsOn.congr {ports ports' : ℤ → Prop} (h : s.SendsOn t frame ports)
    (hports : ∀ port, ports port ↔ ports' port) : s.SendsOn t frame ports' := by
  have heq : ports = ports' := funext fun port ↦ propext (hports port)
  exact heq ▸ h

/-- What happened before without anything being sent does not matter. -/
theorem SendsOn.of_sent_eq {ports : ℤ → Prop} (h : t.SendsOn u frame ports)
    (hsent : t.sent = s.sent) : s.SendsOn u frame ports := by
  unfold SendsOn
  rw [← hsent]
  exact h

theorem sendsOn_nothing {ports : ℤ → Prop} (hsent : t.sent = s.sent)
    (hports : ∀ port, ¬ports port) :
    s.SendsOn t frame ports := by
  refine ⟨[], by rw [hsent, append_nil], ?_, ?_⟩
  · intro out hout
    cases hout
  · intro port hport
    exact absurd hport (hports port)

theorem sendsOn_dispatch {ports : ℤ → Prop}
    (hports : ∀ port, ports port ↔ port = ie.interfaceId) :
    s.SendsOn (s.dispatch frame ie) frame ports := by
  refine ⟨_, rfl, ?_, ?_⟩
  · intro out hout
    exact ⟨ie.interfaceId, (hports _).mpr rfl, mem_singleton.mp hout⟩
  · intro port hport
    rw [(hports port).mp hport]
    exact count_singleton_self

theorem getInterfaceById_of_mem {ifTable : InterfaceTable} (h : ie ∈ ifTable.interfaces) :
    ifTable.getInterfaceById ie.interfaceId = .ok ie := by
  have hfind : ifTable.interfaces.find? (fun other ↦ other.interfaceId = ie.interfaceId) =
      some ie := by
    have hsome : (ifTable.interfaces.find? fun other ↦
        other.interfaceId = ie.interfaceId).isSome := by
      rw [find?_isSome]
      exact ⟨ie, h, decide_eq_true rfl⟩
    obtain ⟨found, hfound⟩ := Option.isSome_iff_exists.mp hsome
    have hid : found.interfaceId = ie.interfaceId := by simpa using find?_some hfound
    rw [hfound, inj_on_of_nodup_map ifTable.ids_nodup (mem_of_find?_eq_some hfound) h hid]
  rw [InterfaceTable.getInterfaceById, hfind]

theorem exists_interface_of_mem_ports (h : port ∈ s.ports) :
    ∃ ie ∈ s.ifTable.interfaces, ie.interfaceId = port ∧
      s.ifTable.getInterfaceById port = .ok ie := by
  obtain ⟨ie, hie, rfl⟩ := mem_map.mp h
  exact ⟨ie, hie, rfl, getInterfaceById_of_mem hie⟩

theorem ne_neg_one_of_mem_ports (h : port ∈ s.ports) : port ≠ -1 := by
  have hstart := s.ifTable.start_le port h
  simp only [interfaceIdsStart] at hstart
  omega

theorem forwards_interfaceId (h : ie ∈ s.ifTable.interfaces) :
    s.Forwards ie.interfaceId ↔ s.forwardsOn ie := by
  constructor
  · rintro ⟨other, hother, hid, hforwards⟩
    rwa [inj_on_of_nodup_map s.ifTable.ids_nodup hother h hid] at hforwards
  · intro hforwards
    exact ⟨ie, h, rfl, hforwards⟩

theorem isForwardingInterface_eq (hs : s.Prepared) (h : ie ∈ s.ifTable.interfaces) :
    s.isForwardingInterface ie = .ok (s.forwardsOn ie) := by
  unfold isForwardingInterface forwardsOn
  cases haware : s.isStpAware with
  | false => rfl
  | true =>
    obtain ⟨data, hdata⟩ := Option.isSome_iff_exists.mp (hs haware ie h)
    simp only [InterfaceEntry.getProtocolData, hdata]
    rfl

/-- The interfaces to which `broadcast` sends. -/
def receives (s : Switch) (arrival : ℤ) (ie : InterfaceEntry) : Bool :=
  s.floodsOn ie && decide (ie.interfaceId ≠ arrival)

theorem broadcastOn_eq (hs : s.Prepared) (h : ie ∈ s.ifTable.interfaces) :
    s.broadcastOn frame arrival ie =
      .ok (if s.receives arrival ie then s.dispatch frame ie else s) := by
  unfold broadcastOn receives floodsOn
  by_cases hkind : ie.isLoopback || !ie.isBroadcast
  · have hskip : (!ie.isLoopback && ie.isBroadcast) = false := by
      cases hl : ie.isLoopback <;> cases hb : ie.isBroadcast <;> simp_all
    simp only [hkind, hskip, if_true, Bool.false_and, Bool.false_eq_true, if_false]
    rfl
  · have htake : (!ie.isLoopback && ie.isBroadcast) = true := by
      cases hl : ie.isLoopback <;> cases hb : ie.isBroadcast <;> simp_all
    rw [if_neg hkind]
    by_cases hid : ie.interfaceId = arrival
    · simp only [hid, htake, if_true, ne_eq, not_true_eq_false, decide_false, Bool.and_false,
        Bool.false_eq_true, if_false]
      rfl
    · rw [if_neg hid, isForwardingInterface_eq hs h]
      simp only [htake, hid, Bool.true_and, ne_eq, not_false_eq_true, decide_true, Bool.and_true]
      rfl

/-- `broadcast` does not fail and sends to all interfaces that take part. -/
theorem broadcast_eq (hs : s.Prepared) : s.broadcast frame arrival =
    .ok (s.dispatchAll frame (s.ifTable.interfaces.filter (s.receives arrival))) := by
  suffices h : ∀ (interfaces : List InterfaceEntry) (t : Switch), s.Alike t →
      (∀ ie ∈ interfaces, ie ∈ s.ifTable.interfaces) →
      interfaces.foldlM (fun s ie ↦ s.broadcastOn frame arrival ie) t =
        .ok (t.dispatchAll frame (interfaces.filter (s.receives arrival))) from
    h _ s (Alike.refl s) fun _ hie ↦ hie
  intro interfaces
  induction interfaces with
  | nil =>
    intro t _ _
    rfl
  | cons ie interfaces ih =>
    intro t halike hmem
    have hie : ie ∈ t.ifTable.interfaces := halike.ifTable ▸ hmem ie mem_cons_self
    have hrest : ∀ other ∈ interfaces, other ∈ s.ifTable.interfaces := fun other hother ↦
      hmem other (mem_cons_of_mem ie hother)
    have hreceives : t.receives arrival ie = s.receives arrival ie := by
      simp only [receives, floodsOn, halike.forwardsOn]
    rw [foldlM_cons, bind_of_ok (broadcastOn_eq (halike.prepared hs) hie), hreceives]
    by_cases hsend : s.receives arrival ie
    · rw [if_pos hsend, filter_cons_of_pos hsend]
      exact ih _ (halike.trans (dispatch_alike t frame ie)) hrest
    · rw [if_neg hsend, filter_cons_of_neg hsend]
      exact ih t halike hrest

theorem sendsOn_broadcast : s.SendsOn
    (s.dispatchAll frame (s.ifTable.interfaces.filter (s.receives arrival))) frame
    (s.PortsFor arrival none) := by
  refine (sendsOn_dispatchAll s frame (s.receives arrival)).congr fun port ↦ ?_
  constructor
  · rintro ⟨ie, hie, rfl, hreceives⟩
    obtain ⟨hfloods, hid⟩ := Bool.and_eq_true_iff.mp hreceives
    exact ⟨of_decide_eq_true hid, ie, hie, rfl, hfloods⟩
  · rintro ⟨hid, ie, hie, rfl, hfloods⟩
    exact ⟨ie, hie, rfl, Bool.and_eq_true_iff.mpr ⟨hfloods, decide_eq_true hid⟩⟩

end Switch

end Inet4.EthernetSwitch
