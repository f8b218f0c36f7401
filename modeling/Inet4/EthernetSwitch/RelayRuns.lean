import Inet4.EthernetSwitch.Relaying
import Inet4.Machine

/-!
# Runs of an Ethernet switch

Frames arrive on any port and from the upper layer, the spanning tree protocol changes the states of
the ports and flushes or moves the entries of the address table, and time passes.  What the switch
has learned is kept beside it in a memory that follows from the events alone.  In every state of a
run each frame that is relayed goes to the ports which the memory says it has to go to.
-/

namespace Inet4.EthernetSwitch

open List MacAddressTable
open Ieee8021d (MacAddress Ieee8021dInterfaceData)

/-- What happens to a switch. -/
inductive Event
  /-- A frame arrives on an interface. -/
  | lowerPacket (frame : Frame) (arrivalInterfaceId : ℤ)
  /-- A frame comes from the upper layer; -1 is the missing `InterfaceReq`. -/
  | upperPacket (frame : Frame) (interfaceId : ℤ)
  /-- The spanning tree protocol changes the state or the role of a port. -/
  | setData (interfaceId : ℤ) (data : Ieee8021dInterfaceData)
  | flush (interfaceId : ℤ)
  | copyTable (interfaceIdA interfaceIdB : ℤ)
  | setAgingTime (agingTime : SimTime)
  | initializeTable (lines : List FileLine)
  | registerAddresses (startMac endMac : MacAddress)
  | elapse (duration : SimTime)

namespace Switch

def handleEvent (s : Switch) : Event → Except SimulationError Switch
  | .lowerPacket frame arrivalInterfaceId => s.handleLowerPacket frame arrivalInterfaceId
  | .upperPacket frame interfaceId => s.handleUpperPacket frame interfaceId
  | .setData interfaceId data => .ok { s with ifTable := s.ifTable.setData interfaceId data }
  | .flush interfaceId => .ok (s.withTable (s.macTable.flush interfaceId))
  | .copyTable interfaceIdA interfaceIdB =>
    .ok (s.withTable (s.macTable.copyTable interfaceIdA interfaceIdB))
  | .setAgingTime agingTime => .ok (s.withTable (s.macTable.setAgingTime agingTime))
  | .initializeTable lines => .ok (s.withTable (s.macTable.initializeTable lines))
  | .registerAddresses startMac endMac => .ok (s.registerAddresses startMac endMac)
  | .elapse duration => .ok { s with now := s.now + duration }

/-- Frames arrive on interfaces that exist, entries are moved to interfaces that exist, the file of
the address table names interfaces that exist, and time does not run backwards. -/
def Enabled (s : Switch) : Event → Prop
  | .lowerPacket _ arrivalInterfaceId => arrivalInterfaceId ∈ s.ports
  | .copyTable _ interfaceIdB => interfaceIdB ∈ s.ports
  | .initializeTable lines => ∀ line ∈ lines, line.interfaceId ∈ s.ports
  | .elapse duration => 0 ≤ duration
  | .upperPacket .. | .setData .. | .flush _ | .setAgingTime _ | .registerAddresses .. => True

instance (s : Switch) (e : Event) : Decidable (s.Enabled e) :=
  match e with
  | .lowerPacket .. | .copyTable .. => inferInstanceAs (Decidable (_ ∈ _))
  | .initializeTable _ => inferInstanceAs (Decidable (∀ _ ∈ _, _))
  | .elapse _ => inferInstanceAs (Decidable (_ ≤ _))
  | .upperPacket .. | .setData .. | .flush _ | .setAgingTime _ | .registerAddresses .. =>
    isTrue trivial

/-- What has been learned after an event. -/
def remember (s : Switch) (memory : Memory MacAddress ℤ) : Event → Memory MacAddress ℤ
  | .lowerPacket frame arrivalInterfaceId => s.afterLearning memory frame arrivalInterfaceId
  | .flush interfaceId => memory.forget interfaceId
  | .copyTable interfaceIdA interfaceIdB => memory.redirect interfaceIdA interfaceIdB
  | .setAgingTime agingTime => memory.tick s.now agingTime
  | .initializeTable lines => memoryOfLines 0 s.now s.macTable.agingTime lines
  | .elapse duration => memory.tick (s.now + duration) s.macTable.agingTime
  | .upperPacket .. | .setData .. | .registerAddresses .. => memory

end Switch

/-- A switch, and what it has learned. -/
structure Observed where
  switch : Switch
  memory : Memory MacAddress ℤ

/-- The switch in its environment. -/
def machine : Machine Observed Event SimulationError where
  Enabled o e := o.switch.Enabled e
  handle  o e := do
    let switch ← o.switch.handleEvent e
    return ⟨switch, o.switch.remember o.memory e⟩

instance (o : Observed) (e : Event) : Decidable (machine.Enabled o e) :=
  inferInstanceAs (Decidable (o.switch.Enabled e))

/-- A switch that starts: nothing has been learned, and the protocol data of the interfaces exists
where the relay needs it. -/
structure Starts (o : Observed) : Prop where
  prepared : o.switch.Prepared
  empty : o.switch.macTable.vlanAddressTable = ∅
  nothing : o.memory = fun _ ↦ none

namespace Switch

variable {s t : Switch} {memory : Memory MacAddress ℤ} {e : Event}

theorem registerAddresses_alike (s : Switch) (startMac endMac : MacAddress) :
    (s.registerAddresses startMac endMac).isStpAware = s.isStpAware ∧
      (s.registerAddresses startMac endMac).ifTable = s.ifTable ∧
      (s.registerAddresses startMac endMac).macTable = s.macTable ∧
      (s.registerAddresses startMac endMac).now = s.now := by
  unfold registerAddresses
  split <;> exact ⟨rfl, rfl, rfl, rfl⟩

theorem Sound.setData (h : s.Sound memory) (interfaceId : ℤ) (data : Ieee8021dInterfaceData) :
    Sound { s with ifTable := s.ifTable.setData interfaceId data } memory where
  prepared := by
    intro haware ie hie
    obtain ⟨before, hbefore, rfl⟩ := mem_map.mp hie
    simp only [InterfaceEntry.withData]
    split
    · rfl
    · exact h.prepared haware before hbefore
  reflects := h.reflects
  located := by
    have hports : Switch.ports { s with ifTable := s.ifTable.setData interfaceId data } = s.ports :=
      InterfaceTable.map_interfaceId_withData ..
    rw [hports]
    exact h.located

/-- Every event keeps the invariant. -/
theorem Sound.handleEvent (h : s.Sound memory) (henabled : s.Enabled e)
    (ht : s.handleEvent e = .ok t) : t.Sound (s.remember memory e) := by
  cases e with
  | lowerPacket frame arrivalInterfaceId =>
    obtain ⟨u, hu, -, hsound, -⟩ := h.handleLowerPacket frame henabled
    cases hu.symm.trans ht
    exact hsound
  | upperPacket frame interfaceId => exact (h.handleUpperPacket ht).2
  | setData interfaceId data =>
    cases ht
    exact h.setData interfaceId data
  | flush interfaceId =>
    cases ht
    exact h.withTable (reflects_flush h.reflects interfaceId)
      (h.located.forget interfaceId)
  | copyTable interfaceIdA interfaceIdB =>
    cases ht
    exact h.withTable (reflects_copyTable h.reflects interfaceIdA interfaceIdB)
      (h.located.redirect fun _ _ ↦ henabled)
  | setAgingTime agingTime =>
    cases ht
    exact h.withTable (h.reflects.tick s.now agingTime) (h.located.tick s.now agingTime)
  | initializeTable lines =>
    cases ht
    refine h.withTable ?_ ?_
    · rw [agingTime_initializeTable]
      exact reflects_initializeTable s.macTable 0 s.now lines
    · exact within_memoryOfLines (P := fun _ place ↦ place ∈ s.ports) 0 s.now _
        henabled
  | registerAddresses startMac endMac =>
    cases ht
    obtain ⟨haware, hifTable, hmacTable, hnow⟩ := registerAddresses_alike s startMac endMac
    refine ⟨?_, ?_, ?_⟩
    · unfold Prepared
      rw [haware, hifTable]
      exact h.prepared
    · rw [hmacTable, hnow]
      exact h.reflects
    · unfold ports
      rw [hifTable]
      exact h.located
  | elapse duration =>
    cases ht
    exact ⟨h.prepared, h.reflects.tick _ _, h.located.tick _ _⟩

/-- A group address is not learned, unless it stands in the file. -/
theorem ungrouped_remember (hgroups : ∀ lines, e = .initializeTable lines →
      ∀ line ∈ lines, isMulticast line.macAddress = false)
    (h : memory.Within fun address _ ↦ isMulticast address = false) :
    (s.remember memory e).Within fun address _ ↦ isMulticast address = false := by
  cases e with
  | lowerPacket frame arrivalInterfaceId =>
    simp only [remember, afterLearning]
    split
    · rename_i hlearns
      exact h.learn (by simpa using (Bool.and_eq_true_iff.mp hlearns).1)
    · exact h
  | flush interfaceId => exact h.forget interfaceId
  | copyTable interfaceIdA interfaceIdB => exact h.redirect fun _ hunicast ↦ hunicast
  | setAgingTime agingTime => exact h.tick s.now agingTime
  | initializeTable lines =>
    exact within_memoryOfLines (P := fun address _ ↦ isMulticast address = false)
      0 s.now s.macTable.agingTime (hgroups lines rfl)
  | elapse duration => exact h.tick (s.now + duration) s.macTable.agingTime
  | upperPacket frame interfaceId | setData interfaceId data | registerAddresses startMac endMac =>
    exact h

/-- Other events than a change of the ageing time keep the memory definite. -/
theorem Sound.definite_handleEvent (h : s.Sound memory) (henabled : s.Enabled e)
    (ht : s.handleEvent e = .ok t) (he : ∀ agingTime, e ≠ .setAgingTime agingTime)
    (hdefinite : memory.Definite s.now s.macTable.agingTime) :
    (s.remember memory e).Definite t.now t.macTable.agingTime := by
  cases e with
  | lowerPacket frame arrivalInterfaceId =>
    obtain ⟨u, hu, halike, -⟩ := h.handleLowerPacket frame henabled
    cases hu.symm.trans ht
    rw [halike.now, halike.agingTime]
    simp only [remember, afterLearning]
    split
    · exact hdefinite.learn
    · exact hdefinite
  | upperPacket frame interfaceId =>
    have halike := (h.handleUpperPacket ht).1
    rw [halike.now, halike.agingTime]
    exact hdefinite
  | setData interfaceId data =>
    cases ht
    exact hdefinite
  | flush interfaceId =>
    cases ht
    exact hdefinite.forget interfaceId
  | copyTable interfaceIdA interfaceIdB =>
    cases ht
    exact hdefinite.redirect interfaceIdA interfaceIdB
  | setAgingTime agingTime => exact absurd rfl (he agingTime)
  | initializeTable lines =>
    cases ht
    change Memory.Definite _ s.now (s.macTable.initializeTable lines).agingTime
    rw [agingTime_initializeTable]
    exact definite_memoryOfLines 0 s.now s.macTable.agingTime lines
  | registerAddresses startMac endMac =>
    cases ht
    obtain ⟨-, -, hmacTable, hnow⟩ := registerAddresses_alike s startMac endMac
    rw [hmacTable, hnow]
    exact hdefinite
  | elapse duration =>
    cases ht
    exact hdefinite.tick (Int.le_add_of_nonneg_right henabled)

end Switch

variable {o o' : Observed} {events : List Event}

theorem Starts.sound (h : Starts o) : o.switch.Sound o.memory where
  prepared := h.prepared
  reflects := by
    have hsightings : o.switch.macTable.sightings 0 = fun _ ↦ none := by
      funext address
      unfold sightings entry getTableForVid
      rw [h.empty]
      rfl
    rw [hsightings, h.nothing]
    exact Reflects.empty _ _
  located := by
    rw [h.nothing]
    exact Memory.within_nothing _

/-- The invariant holds in every state of a run. -/
theorem sound_of_run (hstart : Starts o) (hrun : machine.Run o events o') :
    o'.switch.Sound o'.memory := by
  refine hrun.invariant (P := fun o ↦ o.switch.Sound o.memory) ?_ hstart.sound
  intro o e o' h hstep
  obtain ⟨t, ht, rfl⟩ := bind_pure_eq_ok hstep.2
  exact h.handleEvent hstep.1 ht

/-- Without a change of the ageing time the memory is definite in every state of a run. -/
theorem definite_of_run (hstart : Starts o) (hrun : machine.Run o events o')
    (hevents : ∀ agingTime, .setAgingTime agingTime ∉ events) :
    o'.memory.Definite o'.switch.now o'.switch.macTable.agingTime := by
  suffices h : o'.switch.Sound o'.memory ∧ ((∀ agingTime, .setAgingTime agingTime ∉ events) →
      o'.memory.Definite o'.switch.now o'.switch.macTable.agingTime) from h.2 hevents
  refine hrun.invariant_history (P := fun events o ↦ o.switch.Sound o.memory ∧
    ((∀ agingTime, .setAgingTime agingTime ∉ events) →
      o.memory.Definite o.switch.now o.switch.macTable.agingTime)) ?_ ⟨hstart.sound, ?_⟩
  · rintro past o e o' ⟨hsound, hdefinite⟩ hstep
    obtain ⟨t, ht, rfl⟩ := bind_pure_eq_ok hstep.2
    refine ⟨hsound.handleEvent hstep.1 ht, fun hpast ↦ ?_⟩
    exact hsound.definite_handleEvent hstep.1 ht
      (fun agingTime hmem ↦ hpast agingTime (hmem ▸ mem_append_right past mem_cons_self))
      (hdefinite fun agingTime hmem ↦ hpast agingTime (mem_append_left [e] hmem))
  · intro _
    rw [hstart.nothing]
    exact Memory.definite_nothing _ _

/-- Group addresses are not known in any state of a run, unless a file named them. -/
theorem ungrouped_of_run (hstart : Starts o) (hrun : machine.Run o events o')
    (hevents : ∀ lines, .initializeTable lines ∈ events →
      ∀ line ∈ lines, isMulticast line.macAddress = false) :
    o'.memory.Within fun address _ ↦ isMulticast address = false := by
  suffices h : (∀ lines, .initializeTable lines ∈ events →
      ∀ line ∈ lines, isMulticast line.macAddress = false) →
      o'.memory.Within fun address _ ↦ isMulticast address = false from h hevents
  refine hrun.invariant_history (P := fun events o ↦ (∀ lines, .initializeTable lines ∈ events →
      ∀ line ∈ lines, isMulticast line.macAddress = false) →
    o.memory.Within fun address _ ↦ isMulticast address = false) ?_ ?_
  · intro past o e o' hpast hstep hevents
    obtain ⟨t, -, rfl⟩ := bind_pure_eq_ok hstep.2
    exact Switch.ungrouped_remember
      (fun lines he ↦ hevents lines (he ▸ mem_append_right past mem_cons_self))
      (hpast fun lines hmem ↦ hevents lines (mem_append_left [e] hmem))
  · intro _
    rw [hstart.nothing]
    exact Memory.within_nothing _

/-! ## The law of the relay -/

/-- Each frame that arrives, on a port or from the upper layer, is handled according to the law. -/
structure Lawful (s : Switch) (memory : Memory MacAddress ℤ) : Prop where
  lowerPacket : ∀ frame, ∀ arrival ∈ s.ports, ∃ t, s.handleLowerPacket frame arrival = .ok t ∧
    s.LowerLaw t (s.afterLearning memory frame arrival) frame arrival
  upperPacket : ∀ frame interfaceId, s.UpperLaw memory frame interfaceId
  /-- Nothing goes back, and nothing goes to a port that is not forwarding. -/
  confined : ∀ frame, ∀ arrival ∈ s.ports, ∀ t outs, s.handleLowerPacket frame arrival = .ok t →
    t.sent = s.sent ++ outs → ∀ port frame', .ifOut port frame' ∈ outs →
      frame' = frame ∧ port ≠ arrival ∧ s.Forwards port

theorem Switch.Floods.forwards {s : Switch} {port : ℤ} (h : s.Floods port) : s.Forwards port := by
  obtain ⟨ie, hie, hid, hfloods⟩ := h
  exact ⟨ie, hie, hid, (Bool.and_eq_true_iff.mp hfloods).2⟩

theorem Switch.PortsFor.forwards {s : Switch} {arrival port : ℤ} {answer : Option ℤ}
    (h : s.PortsFor arrival answer port) : port ≠ arrival ∧ s.Forwards port := by
  refine ⟨h.1, ?_⟩
  cases answer with
  | none => exact Floods.forwards h.2
  | some place => exact h.2.2

theorem Switch.SendsOn.confined {s t : Switch} {frame frame' : Frame} {arrival port : ℤ}
    {answer : Option ℤ} {outs : List Output} (h : s.SendsOn t frame (s.PortsFor arrival answer))
    (houts : t.sent = s.sent ++ outs) (hmem : .ifOut port frame' ∈ outs) :
    frame' = frame ∧ port ≠ arrival ∧ s.Forwards port := by
  obtain ⟨outs', houts', hports, -⟩ := h
  obtain rfl := append_cancel_left (houts.symm.trans houts')
  obtain ⟨port', hport', heq⟩ := hports _ hmem
  obtain ⟨rfl, rfl⟩ := Output.ifOut.inj heq
  exact ⟨rfl, hport'.forwards⟩

theorem Switch.LowerLaw.confined {s t : Switch} {memory : Memory MacAddress ℤ}
    {frame frame' : Frame} {arrival port : ℤ} {outs : List Output}
    (h : s.LowerLaw t memory frame arrival) (houts : t.sent = s.sent ++ outs)
    (hmem : .ifOut port frame' ∈ outs) : frame' = frame ∧ port ≠ arrival ∧ s.Forwards port := by
  by_cases hup : s.TakesBpdu frame arrival ∨
      s.Forwards arrival ∧ inRange s.registeredMacAddresses frame.dest
  · obtain rfl := append_cancel_left (houts.symm.trans (h.up hup))
    cases mem_singleton.mp hmem
  · obtain ⟨hbpdu, hrange⟩ := not_or.mp hup
    by_cases hopen : s.Forwards arrival
    · have hfree := Bool.eq_false_iff.mpr fun hin ↦ hrange ⟨hopen, hin⟩
      have hrelayed := h.relayed hbpdu hopen hfree
      split at hrelayed
      · exact hrelayed.confined houts hmem
      · obtain ⟨answer, -, hsends⟩ := hrelayed
        exact hsends.confined houts hmem
    · have hnothing := houts.symm.trans (h.refused hbpdu hopen)
      have hempty : outs = [] := by simpa using hnothing
      rw [hempty] at hmem
      cases hmem

theorem Switch.Sound.lawful {s : Switch} {memory : Memory MacAddress ℤ} (h : s.Sound memory) :
    Lawful s memory where
  lowerPacket frame arrival harrival := by
    obtain ⟨t, ht, -, -, hlaw⟩ := h.handleLowerPacket frame harrival
    exact ⟨t, ht, hlaw⟩
  upperPacket frame interfaceId := h.upperLaw frame interfaceId
  confined frame arrival harrival t outs ht houts port frame' hmem := by
    obtain ⟨u, hu, -, -, hlaw⟩ := h.handleLowerPacket frame harrival
    cases hu.symm.trans ht
    exact hlaw.confined houts hmem

/-- In every state of every run each frame is handled according to the law.  While the ageing time
is not changed, what the address table answers is what was learned last, unless it has been flushed
or is too old; and groups are flooded, unless a file named them. -/
theorem relays_lawfully_of_run (hstart : Starts o) (hrun : machine.Run o events o') :
    Lawful o'.switch o'.memory ∧
      ((∀ agingTime, .setAgingTime agingTime ∉ events) → ∀ address answer,
        o'.switch.MayAnswer o'.memory address answer ↔
          answer = ((o'.memory address).filter fun learned ↦
            o'.switch.now < learned.since + o'.switch.macTable.agingTime).map
              fun learned ↦ learned.place) ∧
      ((∀ lines, .initializeTable lines ∈ events →
          ∀ line ∈ lines, isMulticast line.macAddress = false) →
        ∀ address answer, isMulticast address → o'.switch.MayAnswer o'.memory address answer →
          answer = none) := by
  have hsound := sound_of_run hstart hrun
  refine ⟨hsound.lawful, ?_, ?_⟩
  · intro hevents address answer
    exact (definite_of_run hstart hrun hevents).mayRecall_iff hsound.reflects.young_of_kept answer
  · intro hevents address answer hgroup hanswer
    cases answer with
    | none => rfl
    | some place =>
      obtain ⟨learned, hlearned, -⟩ := hanswer
      have hunicast : isMulticast address = false :=
        ungrouped_of_run hstart hrun hevents address learned hlearned
      rw [hgroup] at hunicast
      cases hunicast

/-- A switch with a spanning tree and three ports, the first of them in the given state. -/
def threePorts (state : Ieee8021d.PortState) : Switch where
  isStpAware := true
  bridgeAddress := 0x0A0000000064
  registeredMacAddresses := [(0x0A0000000064, 0x0A0000000064), (0x0180C2000000, 0x0180C2000000)]
  ifTable :=
    { interfaces := [⟨100, false, true, 0x0A0000000064, some { state := state }⟩,
        ⟨101, false, true, 0x0A0000000065, some {}⟩, ⟨102, false, true, 0x0A0000000066, some {}⟩]
      ids_nodup := by simp
      start_le := by simp [interfaceIdsStart] }
  macTable := { agingTime := SimTime.ofMillis 120000 }
  now := 0

theorem starts_threePorts (state : Ieee8021d.PortState) :
    Starts ⟨threePorts state, fun _ ↦ none⟩ where
  prepared := by
    intro _ ie hie
    simp only [threePorts, mem_cons, not_mem_nil, or_false] at hie
    obtain rfl | rfl | rfl := hie <;> rfl
  empty   := rfl
  nothing := rfl

/-- A frame from the station 2 to the station 1. -/
def sampleFrame : Frame := ⟨0x020000000001, 0x020000000002, 0x800, ⟨0, 0, 0⟩⟩

/-- The frame is flooded, and what comes back is sent on one port only. -/
theorem relays_lawfully_of_run_threePorts :
    ∃ o', machine.Run ⟨threePorts .FORWARDING, fun _ ↦ none⟩
        [.lowerPacket sampleFrame 100, .elapse 1] o' ∧
      Lawful o'.switch o'.memory ∧ o'.switch.MayAnswer o'.memory 0x020000000002 (some 100) := by
  have hexec : (machine.exec ⟨threePorts .FORWARDING, fun _ ↦ none⟩
      [.lowerPacket sampleFrame 100, .elapse 1]).any fun o ↦
        decide (some 100 = ((o.memory 0x020000000002).filter fun learned ↦
          o.switch.now < learned.since + o.switch.macTable.agingTime).map
            fun learned ↦ learned.place) := by decide
  obtain ⟨o', hrun, hplace⟩ := Machine.exists_run_of_exec hexec
  have hlaw := relays_lawfully_of_run (starts_threePorts .FORWARDING) hrun
  exact ⟨o', hrun, hlaw.1, (hlaw.2.1 (by simp) _ _).mpr hplace⟩

/-- The law without the frames that the switch keeps or refuses: whatever port it arrives on, a
broadcast or group frame goes to all other forwarding ports. -/
def FloodsGroups (s : Switch) : Prop :=
  ∀ frame, ∀ arrival ∈ s.ports, isMulticast frame.dest →
    ∃ t, s.handleLowerPacket frame arrival = .ok t ∧
      s.SendsOn t frame fun port ↦ port ≠ arrival ∧ s.Forwards port

/-- A frame from the station 2 to an address. -/
def frameTo (dest : MacAddress) : Frame := ⟨dest, 0x020000000002, 0x800, ⟨0, 0, 0⟩⟩

/-- All ports are forwarding, and the last one is no broadcast interface. -/
def pointToPoint : Switch where
  isStpAware := true
  bridgeAddress := 0x0A0000000064
  registeredMacAddresses := []
  ifTable :=
    { interfaces := [⟨100, false, true, 0x0A0000000064, some {}⟩,
        ⟨101, false, true, 0x0A0000000065, some {}⟩, ⟨102, false, false, 0x0A0000000066, some {}⟩]
      ids_nodup := by simp
      start_le := by simp [interfaceIdsStart] }
  macTable := { agingTime := SimTime.ofMillis 120000 }
  now := 0

/-- A broadcast that arrives on a port which is not forwarding is dropped, and one that is flooded
does not go to an interface without broadcasts.  A frame to a group that is registered goes up only.
From the upper layer a frame goes to the interface that it asks for, also when that is not
forwarding. -/
theorem not_floodsGroups :
    (¬∀ o o' events, Starts o → machine.Run o events o' → FloodsGroups o'.switch) ∧
      ((threePorts .DISCARDING).handleLowerPacket (frameTo (BitVec.allOnes 48)) 100).map
        Switch.sent = .ok [] ∧
      (pointToPoint.handleLowerPacket (frameTo (BitVec.allOnes 48)) 100).map Switch.sent =
        .ok [.ifOut 101 (frameTo (BitVec.allOnes 48))] ∧
      ((threePorts .FORWARDING).handleLowerPacket (frameTo stpMulticastAddress) 100).map
        Switch.sent = .ok [.upperLayerOut (frameTo stpMulticastAddress)] ∧
      ((threePorts .DISCARDING).handleUpperPacket (frameTo (BitVec.allOnes 48)) 100).map
        Switch.sent = .ok [.ifOut 100 (frameTo (BitVec.allOnes 48))] := by
  have hdropped : ((threePorts .DISCARDING).handleLowerPacket (frameTo (BitVec.allOnes 48)) 100).map
      Switch.sent = .ok [] := by decide
  refine ⟨?_, hdropped, by decide, by decide, by decide⟩
  intro hlaw
  have hfloods := hlaw _ _ [] (starts_threePorts .DISCARDING) (.nil _)
  obtain ⟨t, ht, outs, houts, -, hcount⟩ := hfloods (frameTo (BitVec.allOnes 48)) 100 (by decide)
    (by decide)
  rw [ht] at hdropped
  have hempty : outs = [] := by
    have hnil := Except.ok.inj hdropped
    rw [houts] at hnil
    exact (append_eq_nil_iff.mp hnil).2
  have hone := hcount 101 ⟨by decide, _, mem_cons_of_mem _ mem_cons_self, rfl, rfl⟩
  rw [hempty] at hone
  cases hone

end Inet4.EthernetSwitch
