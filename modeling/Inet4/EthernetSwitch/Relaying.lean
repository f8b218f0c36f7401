import Inet4.EthernetSwitch.Dispatching

/-!
# What becomes of a frame

What the relay has learned is kept beside the switch in a memory.  The address table reflects it,
and so the memory says which of its ports a frame is sent on: a frame that is neither kept by the
switch nor refused on its arrival port goes to the port where its destination was last seen, or to
all ports when the destination may be unknown.
-/

namespace Inet4.EthernetSwitch

open MacAddressTable

open Ieee8021d (MacAddress Ieee8021dInterfaceData)

namespace Switch

/-- The address table is changed. -/
def withTable (s : Switch) (macTable : MacAddressTable) : Switch := { s with macTable := macTable }

/-- The port on which a frame arrives is learning, and its source address is the address of one
station. -/
def learns (s : Switch) (frame : Frame) (arrivalInterfaceId : ℤ) : Bool :=
  !isMulticast frame.src && (!s.isStpAware || s.ifTable.interfaces.any fun ie ↦
    ie.interfaceId = arrivalInterfaceId && ie.ieee8021dInterfaceData.any isLearning)

/-- What has been learned when a frame has arrived. -/
def afterLearning (s : Switch) (memory : Memory MacAddress ℤ) (frame : Frame)
    (arrivalInterfaceId : ℤ) : Memory MacAddress ℤ :=
  if s.learns frame arrivalInterfaceId then
    memory.learn frame.src ⟨arrivalInterfaceId, s.now⟩ s.now s.macTable.agingTime
  else memory

variable {s t : Switch} {frame : Frame} {arrival : ℤ} {memory : Memory MacAddress ℤ}

/-- A lookup of the address may answer so. -/
def MayAnswer (s : Switch) (memory : Memory MacAddress ℤ) (address : MacAddress)
    (answer : Option ℤ) : Prop :=
  memory.MayRecall s.now s.macTable.agingTime address answer

/-- A frame is for the spanning tree module. -/
def TakesBpdu (s : Switch) (frame : Frame) (arrival : ℤ) : Prop :=
  ∃ ie ∈ s.ifTable.interfaces, ie.interfaceId = arrival ∧
    s.isBpduForStp frame ie.ieee8021dInterfaceData

/-- What becomes of a frame that arrives on a port. -/
structure LowerLaw (s t : Switch) (memory : Memory MacAddress ℤ) (frame : Frame) (arrival : ℤ) :
    Prop where
  /-- BPDUs and frames to registered addresses go up, and nowhere else. -/
  up : s.TakesBpdu frame arrival ∨
      s.Forwards arrival ∧ inRange s.registeredMacAddresses frame.dest →
    t.sent = s.sent ++ [.upperLayerOut frame]
  /-- Other frames that arrive on a port which is not forwarding are dropped. -/
  refused : ¬s.TakesBpdu frame arrival → ¬s.Forwards arrival → t.sent = s.sent
  /-- All other frames are relayed. -/
  relayed : ¬s.TakesBpdu frame arrival → s.Forwards arrival →
    inRange s.registeredMacAddresses frame.dest = false →
    if isBroadcast frame.dest then s.SendsOn t frame (s.PortsFor arrival none)
    else ∃ answer, s.MayAnswer memory frame.dest answer ∧
      s.SendsOn t frame (s.PortsFor arrival answer)

/-- What becomes of a frame from the upper layer, apart from the frames without a request whose
destination is known. -/
structure UpperLaw (s : Switch) (memory : Memory MacAddress ℤ) (frame : Frame) (interfaceId : ℤ) :
    Prop where
  /-- A frame with a request is sent on the interface of the request. -/
  requested : interfaceId ∈ s.ports → ∃ t, s.handleUpperPacket frame interfaceId = .ok t ∧
    t.sent = s.sent ++ [.ifOut interfaceId frame]
  /-- Another frame is flooded when it is a broadcast or its destination is not known. -/
  flooded : interfaceId = -1 → isBroadcast frame.dest ∨
      (∀ place, ¬s.MayAnswer memory frame.dest (some place)) →
    ∃ t, s.handleUpperPacket frame interfaceId = .ok t ∧
      s.SendsOn t frame (s.PortsFor (-1) none)

/-- The invariant of runs. -/
structure Sound (s : Switch) (memory : Memory MacAddress ℤ) : Prop where
  prepared : s.Prepared
  reflects : Reflects (s.macTable.sightings 0) memory s.now s.macTable.agingTime
  located : memory.Within fun _ place ↦ place ∈ s.ports

/-- What a state has to agree on with another one in order to be sound, too. -/
theorem Sound.of_alike (h : s.Sound memory) (halike : s.Alike t)
    (htable : t.macTable = s.macTable) :
    t.Sound memory where
  prepared := halike.prepared h.prepared
  reflects := by
    rw [htable, halike.now]
    exact h.reflects
  located := by
    rw [halike.ports]
    exact h.located

/-! ## Learning and looking up -/

theorem drop_alike (s : Switch) : s.Alike s.drop := ⟨rfl, rfl, rfl, rfl, rfl, rfl⟩

theorem sendUp_alike (s : Switch) (frame : Frame) : s.Alike (s.sendUp frame) :=
  ⟨rfl, rfl, rfl, rfl, rfl, rfl⟩

theorem received_alike (s : Switch) : s.Alike s.received := ⟨rfl, rfl, rfl, rfl, rfl, rfl⟩

theorem withTable_alike (s : Switch) {macTable : MacAddressTable}
    (hage : macTable.agingTime = s.macTable.agingTime) : s.Alike (s.withTable macTable) :=
  ⟨rfl, rfl, rfl, rfl, rfl, hage⟩

theorem getPortInterfaceData_eq (hs : s.Prepared) {ie : InterfaceEntry}
    (hie : ie ∈ s.ifTable.interfaces) :
    s.getPortInterfaceData ie.interfaceId =
      .ok (if s.isStpAware then ie.ieee8021dInterfaceData else none) := by
  unfold getPortInterfaceData
  by_cases haware : s.isStpAware
  · obtain ⟨data, hdata⟩ := Option.isSome_iff_exists.mp (hs haware ie hie)
    rw [if_pos haware, if_pos haware, bind_of_ok (getInterfaceById_of_mem hie)]
    simp only [InterfaceEntry.getProtocolData, hdata]
    rfl
  · rw [if_neg haware, if_neg haware]
    rfl

theorem learns_interfaceId {ie : InterfaceEntry} (hie : ie ∈ s.ifTable.interfaces) :
    s.learns frame ie.interfaceId = (!isMulticast frame.src &&
      (!s.isStpAware || ie.ieee8021dInterfaceData.any isLearning)) := by
  unfold learns
  congr 2
  rw [Bool.eq_iff_iff, List.any_eq_true]
  constructor
  · rintro ⟨other, hother, hlearning⟩
    obtain ⟨hid, hlearning⟩ := Bool.and_eq_true_iff.mp hlearning
    have hsame := List.inj_on_of_nodup_map s.ifTable.ids_nodup hother hie (of_decide_eq_true hid)
    rwa [hsame] at hlearning
  · intro hlearning
    exact ⟨ie, hie, Bool.and_eq_true_iff.mpr ⟨decide_eq_true rfl, hlearning⟩⟩

/-- The table is replaced by one that reflects another memory. -/
theorem Sound.withTable (h : s.Sound memory) {macTable : MacAddressTable}
    {memory' : Memory MacAddress ℤ}
    (hreflects : Reflects (macTable.sightings 0) memory' s.now macTable.agingTime)
    (hlocated : memory'.Within fun _ place ↦ place ∈ s.ports) :
    (s.withTable macTable).Sound memory' where
  prepared := h.prepared
  reflects := hreflects
  located  := hlocated

theorem learn_eq (hs : s.Prepared) {ie : InterfaceEntry} (hie : ie ∈ s.ifTable.interfaces) :
    s.learn frame.src ie.interfaceId =
      .ok (if !s.isStpAware || ie.ieee8021dInterfaceData.any isLearning then
        s.withTable (s.macTable.updateTableWithAddress s.now ie.interfaceId frame.src 0)
      else s) := by
  have hopen : (!s.isStpAware ||
      (if s.isStpAware then ie.ieee8021dInterfaceData else none).any isLearning) =
      (!s.isStpAware || ie.ieee8021dInterfaceData.any isLearning) := by
    cases s.isStpAware <;> rfl
  unfold learn
  rw [bind_of_ok (getPortInterfaceData_eq hs hie), hopen]
  rfl

/-- `learn` updates the table and nothing else, as the memory is updated. -/
theorem Sound.learn (h : s.Sound memory) (frame : Frame) {ie : InterfaceEntry}
    (hie : ie ∈ s.ifTable.interfaces) :
    ∃ t, s.learn frame.src ie.interfaceId = .ok t ∧ s.Alike t ∧ t.sent = s.sent ∧
      t.Sound (s.afterLearning memory frame ie.interfaceId) := by
  rw [learn_eq h.prepared hie, afterLearning, learns_interfaceId hie]
  by_cases hopen : !s.isStpAware || ie.ieee8021dInterfaceData.any isLearning
  · rw [if_pos hopen, hopen, Bool.and_true]
    have hage := s.macTable.agingTime_updateTableWithAddress s.now frame.src 0 ie.interfaceId
    refine ⟨_, rfl, withTable_alike s hage, rfl, ?_⟩
    by_cases hgroup : isMulticast frame.src
    · have hsame : s.macTable.updateTableWithAddress s.now ie.interfaceId frame.src 0 =
          s.macTable := if_pos hgroup
      rw [hsame, hgroup]
      exact h
    · have hunicast := Bool.eq_false_iff.mpr hgroup
      rw [hunicast]
      refine h.withTable ?_ (h.located.learn (List.mem_map_of_mem hie))
      rw [hage]
      exact reflects_updateTableWithAddress h.reflects ie.interfaceId hunicast
  · rw [if_neg hopen, Bool.eq_false_iff.mpr hopen, Bool.and_false]
    exact ⟨s, rfl, Alike.refl s, rfl, h⟩

/-- A lookup answers from the memory; it may throw out the entry. -/
theorem Sound.lookup (h : s.Sound memory) (address : MacAddress) :
    ∃ answer, s.MayAnswer memory address answer ∧ (s.lookup address).1 = answer.getD (-1) ∧
      s.Alike (s.lookup address).2 ∧ (s.lookup address).2.sent = s.sent ∧
      (s.lookup address).2.Sound memory := by
  refine ⟨_, h.reflects.mayRecall address, getInterfaceIdForAddress_fst,
    withTable_alike s agingTime_getInterfaceIdForAddress, rfl,
    h.withTable ?_ h.located⟩
  rw [agingTime_getInterfaceIdForAddress]
  exact reflects_getInterfaceIdForAddress h.reflects

theorem Sound.mem_ports (h : s.Sound memory) {address : MacAddress} {place : ℤ}
    (hanswer : s.MayAnswer memory address (some place)) : place ∈ s.ports := by
  obtain ⟨learned, hlearned, rfl, -⟩ := hanswer
  exact h.located address learned hlearned

/-! ## Handling a frame -/

/-- A frame is handled: some state results, which is sound and otherwise like the one before, and
the frame goes to the ports. -/
def Relays (s : Switch) (memory : Memory MacAddress ℤ) (frame : Frame) (ports : ℤ → Prop)
    (result : Except SimulationError Switch) : Prop :=
  ∃ t, result = .ok t ∧ s.Alike t ∧ t.Sound memory ∧ s.SendsOn t frame ports

theorem Sound.relays_broadcast (h : s.Sound memory) (frame : Frame) (arrival : ℤ) :
    s.Relays memory frame (s.PortsFor arrival none) (s.broadcast frame arrival) := by
  have halike := dispatchAll_alike s frame (s.ifTable.interfaces.filter (s.receives arrival))
  exact ⟨_, broadcast_eq h.prepared, halike, h.of_alike halike (macTable_dispatchAll s frame _),
    sendsOn_broadcast⟩

theorem Sound.relays_forward (h : s.Sound memory) (frame : Frame) (arrival : ℤ) :
    ∃ answer, s.MayAnswer memory frame.dest answer ∧
      s.Relays memory frame (s.PortsFor arrival answer) (s.forward frame arrival) := by
  obtain ⟨answer, hanswer, hid, halike, hsent, hsound⟩ := h.lookup frame.dest
  refine ⟨answer, hanswer, ?_⟩
  rw [forward, hid]
  cases answer with
  | none =>
    obtain ⟨t, hresult, ht, htsound, hsends⟩ :=
      hsound.relays_broadcast frame arrival
    exact ⟨t, hresult, halike.trans ht, htsound, hsends.of_sent_eq hsent⟩
  | some place =>
    obtain ⟨ie, hie, rfl, hget⟩ := exists_interface_of_mem_ports (h.mem_ports hanswer)
    simp only [Option.getD_some]
    rw [if_neg (ne_neg_one_of_mem_ports (h.mem_ports hanswer)), bind_of_ok hget]
    by_cases hback : ie.interfaceId = arrival
    · rw [if_neg (not_not_intro hback)]
      have hdrop := (s.lookup frame.dest).2.drop_alike
      refine ⟨_, rfl, halike.trans hdrop, hsound.of_alike hdrop rfl, sendsOn_nothing hsent ?_⟩
      rintro port ⟨hport, rfl, -⟩
      exact hport hback
    · have hie' : ie ∈ (s.lookup frame.dest).2.ifTable.interfaces := halike.ifTable ▸ hie
      rw [if_pos hback, bind_of_ok (isForwardingInterface_eq hsound.prepared hie'),
        halike.forwardsOn]
      by_cases hforwards : s.forwardsOn ie
      · rw [if_pos hforwards]
        have hdispatch := dispatch_alike (s.lookup frame.dest).2 frame ie
        refine ⟨_, rfl, halike.trans hdispatch, hsound.of_alike hdispatch rfl, ?_⟩
        refine SendsOn.of_sent_eq (sendsOn_dispatch fun port ↦ ?_) hsent
        constructor
        · intro hport
          exact hport.2.1
        · rintro rfl
          exact ⟨hback, rfl, (forwards_interfaceId hie).mpr hforwards⟩
      · rw [if_neg hforwards]
        have hdrop := (s.lookup frame.dest).2.drop_alike
        refine ⟨_, rfl, halike.trans hdrop, hsound.of_alike hdrop rfl, sendsOn_nothing hsent ?_⟩
        rintro port ⟨-, rfl, hport⟩
        exact hforwards ((forwards_interfaceId hie).mp hport)

theorem takesBpdu_interfaceId (frame : Frame) {ie : InterfaceEntry}
    (hie : ie ∈ s.ifTable.interfaces) :
    s.TakesBpdu frame ie.interfaceId ↔ s.isBpduForStp frame ie.ieee8021dInterfaceData := by
  constructor
  · rintro ⟨other, hother, hid, hbpdu⟩
    rwa [List.inj_on_of_nodup_map s.ifTable.ids_nodup hother hie hid] at hbpdu
  · intro hbpdu
    exact ⟨ie, hie, rfl, hbpdu⟩

/-- What `handleAndDispatchFrame` does after the source address has been learned. -/
theorem Sound.dispatchFrame (h : s.Sound memory) (frame : Frame) {ie : InterfaceEntry}
    (hie : ie ∈ s.ifTable.interfaces) :
    ∃ t, s.dispatchFrame frame ie = .ok t ∧ s.Alike t ∧ t.Sound memory ∧
      s.LowerLaw t memory frame ie.interfaceId := by
  have hbpdu := takesBpdu_interfaceId frame hie
  have hforwards := forwards_interfaceId hie
  have hopen : (s.isStpAware && !ie.ieee8021dInterfaceData.any isForwarding) =
    !s.forwardsOn ie := by
    rw [forwardsOn, Bool.not_or, Bool.not_not]
  unfold Switch.dispatchFrame
  dsimp only
  rw [hopen]
  by_cases hup : s.isBpduForStp frame ie.ieee8021dInterfaceData
  · rw [if_pos hup]
    have hsend := s.sendUp_alike frame
    refine ⟨_, rfl, hsend, h.of_alike hsend rfl, ?_, ?_, ?_⟩
    · intro _
      rfl
    · intro hnot
      exact absurd (hbpdu.mpr hup) hnot
    · intro hnot
      exact absurd (hbpdu.mpr hup) hnot
  · rw [if_neg hup]
    have hnot : ¬s.TakesBpdu frame ie.interfaceId := fun htakes ↦ hup (hbpdu.mp htakes)
    by_cases hport : s.forwardsOn ie
    · have hport' : s.Forwards ie.interfaceId := hforwards.mpr hport
      rw [if_neg (by simp [hport])]
      by_cases hregistered : inRange s.registeredMacAddresses frame.dest
      · rw [if_pos hregistered]
        have hsend := s.sendUp_alike frame
        refine ⟨_, rfl, hsend, h.of_alike hsend rfl, ?_, ?_, ?_⟩
        · intro _
          rfl
        · intro _ hblocked
          exact absurd hport' hblocked
        · intro _ _ hother
          rw [hregistered] at hother
          cases hother
      · rw [if_neg hregistered]
        have hlaw : ∀ t, (if isBroadcast frame.dest then
              s.SendsOn t frame (s.PortsFor ie.interfaceId none)
            else ∃ answer, s.MayAnswer memory frame.dest answer ∧
              s.SendsOn t frame (s.PortsFor ie.interfaceId answer)) →
            s.LowerLaw t memory frame ie.interfaceId := by
          intro t hrelayed
          refine ⟨?_, ?_, fun _ _ _ ↦ hrelayed⟩
          · rintro (htakes | ⟨-, hrange⟩)
            · exact absurd htakes hnot
            · exact absurd hrange hregistered
          · intro _ hblocked
            exact absurd hport' hblocked
        by_cases hbroadcast : isBroadcast frame.dest
        · obtain ⟨t, hresult, halike, ht, hsends⟩ :=
            h.relays_broadcast frame ie.interfaceId
          rw [if_pos hbroadcast]
          exact ⟨t, hresult, halike, ht, hlaw t (by rwa [if_pos hbroadcast])⟩
        · obtain ⟨answer, hanswer, t, hresult, halike, ht, hsends⟩ :=
            h.relays_forward frame ie.interfaceId
          rw [if_neg hbroadcast]
          refine ⟨t, hresult, halike, ht, hlaw t ?_⟩
          rw [if_neg hbroadcast]
          exact ⟨answer, hanswer, hsends⟩
    · have hport' : ¬s.Forwards ie.interfaceId := fun hf ↦ hport (hforwards.mp hf)
      rw [if_pos (by simp [hport])]
      have hdrop := s.drop_alike
      refine ⟨_, rfl, hdrop, h.of_alike hdrop rfl, ?_, ?_, ?_⟩
      · rintro (htakes | ⟨hblocked, -⟩)
        · exact absurd htakes hnot
        · exact absurd hblocked hport'
      · intro _ _
        rfl
      · intro _ hopen'
        exact absurd hopen' hport'

theorem Sound.handleAndDispatchFrame (h : s.Sound memory) (frame : Frame)
    (harrival : arrival ∈ s.ports) :
    ∃ t, s.handleAndDispatchFrame frame arrival = .ok t ∧ s.Alike t ∧
      t.Sound (s.afterLearning memory frame arrival) ∧
      s.LowerLaw t (s.afterLearning memory frame arrival) frame arrival := by
  obtain ⟨ie, hie, rfl, hget⟩ := exists_interface_of_mem_ports harrival
  obtain ⟨learned, hlearn, halike, hsent, hlearned⟩ := h.learn frame hie
  have hie' : ie ∈ learned.ifTable.interfaces := halike.ifTable ▸ hie
  obtain ⟨t, ht, halike', hsound, hlaw⟩ := hlearned.dispatchFrame frame hie'
  have hdata : ¬(s.isStpAware ∧ ie.ieee8021dInterfaceData = none) := by
    rintro ⟨haware, hnone⟩
    have hsome := h.prepared haware ie hie
    rw [hnone] at hsome
    cases hsome
  have hresult : s.handleAndDispatchFrame frame ie.interfaceId = .ok t := by
    unfold Switch.handleAndDispatchFrame
    rw [bind_of_ok hget, bind_of_ok (throwIf_of_not hdata), bind_of_ok hlearn]
    exact ht
  refine ⟨t, hresult, halike.trans halike', hsound, ?_⟩
  have hbpdu : learned.TakesBpdu frame ie.interfaceId ↔ s.TakesBpdu frame ie.interfaceId := by
    rw [takesBpdu_interfaceId frame hie', takesBpdu_interfaceId frame hie, isBpduForStp,
      isBpduForStp,
      halike.isStpAware, halike.bridgeAddress]
  have hforwards := halike.forwards
  have hranges := halike.registeredMacAddresses
  refine ⟨?_, ?_, ?_⟩
  · rintro (htakes | ⟨hopen, hrange⟩)
    · rw [hlaw.up (Or.inl (hbpdu.mpr htakes)), hsent]
    · rw [hlaw.up (Or.inr ⟨hforwards ▸ hopen, hranges ▸ hrange⟩), hsent]
  · intro htakes hblocked
    rw [hlaw.refused (mt hbpdu.mp htakes) (hforwards ▸ hblocked), hsent]
  · intro htakes hopen hrange
    have hrelayed := hlaw.relayed (mt hbpdu.mp htakes) (hforwards ▸ hopen) (hranges ▸ hrange)
    rw [halike.portsFor] at hrelayed
    split
    · rename_i hbroadcast
      rw [if_pos hbroadcast] at hrelayed
      exact hrelayed.of_sent_eq hsent
    · rename_i hbroadcast
      rw [if_neg hbroadcast] at hrelayed
      obtain ⟨answer, hanswer, hsends⟩ := hrelayed
      unfold MayAnswer at hanswer
      rw [halike.now, halike.agingTime] at hanswer
      exact ⟨answer, hanswer, hsends.of_sent_eq hsent⟩

/-- A frame that arrives on a port is handled without an error and according to the law, by what
has been learned when its own source address has been noted. -/
theorem Sound.handleLowerPacket (h : s.Sound memory) (frame : Frame)
    (harrival : arrival ∈ s.ports) :
    ∃ t, s.handleLowerPacket frame arrival = .ok t ∧ s.Alike t ∧
      t.Sound (s.afterLearning memory frame arrival) ∧
      s.LowerLaw t (s.afterLearning memory frame arrival) frame arrival := by
  have hcounted := s.received_alike
  obtain ⟨t, ht, halike, hsound, hlaw⟩ :=
    (h.of_alike hcounted rfl).handleAndDispatchFrame frame harrival
  exact ⟨t, ht, hcounted.trans halike, hsound, hlaw.up, hlaw.refused, hlaw.relayed⟩

theorem Sound.handleUpperPacket (h : s.Sound memory) {interfaceId : ℤ}
    (ht : s.handleUpperPacket frame interfaceId = .ok t) : s.Alike t ∧ t.Sound memory := by
  unfold Switch.handleUpperPacket at ht
  split at ht
  · obtain ⟨ie, -, rfl⟩ := bind_pure_eq_ok ht
    have hdispatch := dispatch_alike s frame ie
    exact ⟨hdispatch, h.of_alike hdispatch rfl⟩
  · split at ht
    · obtain ⟨u, hu, halike, hsound, -⟩ := h.relays_broadcast frame (-1)
      cases hu.symm.trans ht
      exact ⟨halike, hsound⟩
    · obtain ⟨answer, -, -, halike, -, hsound⟩ := h.lookup frame.dest
      dsimp only at ht
      split at ht
      · obtain ⟨u, hu, halike', husound, -⟩ :=
          hsound.relays_broadcast frame (-1)
        cases hu.symm.trans ht
        exact ⟨halike.trans halike', husound⟩
      · obtain ⟨ie, -, rfl⟩ := bind_pure_eq_ok ht
        have hdispatch := dispatch_alike (s.lookup frame.dest).2 frame ie
        exact ⟨halike.trans hdispatch, hsound.of_alike hdispatch rfl⟩

theorem Sound.upperLaw (h : s.Sound memory) (frame : Frame) (interfaceId : ℤ) :
    s.UpperLaw memory frame interfaceId where
  requested hmem := by
    obtain ⟨ie, hie, rfl, hget⟩ := exists_interface_of_mem_ports hmem
    refine ⟨s.dispatch frame ie, ?_, rfl⟩
    unfold Switch.handleUpperPacket
    rw [if_pos (ne_neg_one_of_mem_ports hmem), bind_of_ok hget]
    rfl
  flooded := by
    rintro rfl hunknown
    unfold Switch.handleUpperPacket
    by_cases hbroadcast : isBroadcast frame.dest
    · obtain ⟨t, hresult, -, -, hsends⟩ := h.relays_broadcast frame (-1)
      rw [if_pos hbroadcast]
      exact ⟨t, hresult, hsends⟩
    · obtain ⟨answer, hanswer, hid, halike, hsent, hsound⟩ := h.lookup frame.dest
      rw [if_neg hbroadcast]
      cases answer with
      | none =>
        obtain ⟨t, hresult, -, -, hsends⟩ :=
          hsound.relays_broadcast frame (-1)
        have hnone : (s.lookup frame.dest).1 = -1 := hid
        rw [if_pos hnone]
        exact ⟨t, hresult, hsends.of_sent_eq hsent⟩
      | some place => exact absurd hanswer (hunknown.resolve_left hbroadcast place)

end Switch

end Inet4.EthernetSwitch
