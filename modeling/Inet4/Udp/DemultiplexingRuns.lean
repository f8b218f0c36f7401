import Inet4.Udp.Demultiplexing

/-!
# Socket commands and demultiplexing

Every socket command keeps the two socket maps in step.  A socket that exists before it is bound is
the exception: an option, a connect or a packet has given it an ephemeral port and, unless it is
connected, the flag for a socket without addresses.
-/

namespace Inet4

open List
open AssocMap (find_assign find_remove)

namespace Udp

/-- A bind of an open socket leaves the flag right and no empty list behind: it sets no local
address unless the socket is connected, and the socket keeps its port, or the port is not one of the
ephemeral ports, or another socket stays on it. -/
def BindsCleanly (udp : Udp) : Command → Prop
  | .bind sockId localAddr localPort =>
    ∀ sd, udp.socketsByIdMap.find sockId = some sd →
      (localAddr.isUnspecified = true ∨ sd.onlyLocalPortIsSet = false) ∧
        (localPort = -1 ∨ localPort = sd.localPort ∨ ¬InEphemeralRange sd.localPort ∨
          ∃ other ∈ udp.portList sd.localPort, other ≠ sockId)
  | _ => True

variable {udp next : Udp} {sockId port : ℤ} {sd : SockDesc}

/-- A new socket stands on the list of its port. -/
theorem Consistent.addSocket (h : udp.Consistent)
    (hfree : udp.socketsByIdMap.find sockId = none) (hsockId : sd.sockId = sockId)
    (hunaddressed : sd.onlyLocalPortIsSet = true → sd.Unaddressed) :
    ((udp.setSocket sockId sd).setPortList sd.localPort
      (udp.portList sd.localPort ++ [sockId])).Consistent where
  sockId id sd' hfind := by
    rw [socketsByIdMap_setPortList, find_setSocket] at hfind
    split at hfind
    · rename_i hid
      rw [← Option.some.inj hfind, hid, hsockId]
    · exact h.sockId id sd' hfind
  listed p := by
    have hnotListed : ∀ q, sockId ∉ udp.portList q := by
      intro q hmem
      obtain ⟨sd', hfind, -⟩ := ((h.listed q).2 sockId).mp hmem
      rw [hfree] at hfind
      cases hfind
    constructor
    · rw [portList_setPortList]
      split
      · rename_i hp
        rw [nodup_append]
        refine ⟨(h.listed sd.localPort).1, nodup_singleton sockId, ?_⟩
        intro id hid other hother heq
        rw [mem_singleton] at hother
        subst hother heq
        exact hnotListed _ hid
      · exact (h.listed p).1
    · intro id
      rw [portList_setPortList, socketsByIdMap_setPortList, find_setSocket]
      by_cases hid : id = sockId
      · subst hid
        split
        · rename_i hp
          simp [hp]
        · rename_i hp
          simp [hnotListed p, Ne.symm hp]
      · rw [if_neg hid]
        split
        · rename_i hp
          simp [hp, hid, (h.listed sd.localPort).2]
        · exact (h.listed p).2 id
  unaddressed id sd' hfind := by
    rw [socketsByIdMap_setPortList, find_setSocket] at hfind
    split at hfind
    · rw [← Option.some.inj hfind]
      exact hunaddressed
    · exact h.unaddressed id sd' hfind
  lastEphemeralPort := h.lastEphemeralPort
  occupied p hrange := by
    simp only [setPortList, socketsByPortMap_setSocket, find_assign]
    split
    · simp
    · exact h.occupied p hrange

/-- A socket is taken off the list of its port, which keeps its place only for other sockets. -/
theorem Consistent.removeSocket (h : udp.Consistent)
    (hfind : udp.socketsByIdMap.find sockId = some sd) : (udp.destroySocket sockId).Consistent := by
  have hportList : ∀ p, (udp.destroySocket sockId).portList p =
      if p = sd.localPort then (udp.portList p).erase sockId else udp.portList p := by
    intro p
    by_cases hempty : (udp.portList sd.localPort).erase sockId = []
    · simp only [portList, destroySocket, hfind] at hempty ⊢
      simp only [hempty, if_pos, find_remove]
      split
      · rename_i hp
        rw [hp, hempty]
        rfl
      · rfl
    · simp only [portList, destroySocket, hfind] at hempty ⊢
      simp only [hempty, if_neg, not_false_eq_true, find_assign]
      split
      · rename_i hp
        rw [hp]
        rfl
      · rfl
  have hfindNext : ∀ id, (udp.destroySocket sockId).socketsByIdMap.find id =
      if id = sockId then none else udp.socketsByIdMap.find id := by
    intro id
    simp only [destroySocket, hfind, find_remove]
  have hlast : (udp.destroySocket sockId).lastEphemeralPort = udp.lastEphemeralPort := by
    simp only [destroySocket, hfind]
  constructor
  · intro id sd' hfind'
    rw [hfindNext] at hfind'
    split at hfind'
    · cases hfind'
    · exact h.sockId id sd' hfind'
  · intro p
    have hlisted := h.listed p
    rw [hportList]
    constructor
    · split
      · exact hlisted.1.erase sockId
      · exact hlisted.1
    · intro id
      rw [hfindNext]
      by_cases hid : id = sockId
      · subst hid
        simp only [if_pos, reduceCtorEq, false_and, exists_false, iff_false]
        split
        · exact fun hmem ↦ (List.Nodup.mem_erase_iff hlisted.1).mp hmem |>.1 rfl
        · rename_i hp
          intro hmem
          obtain ⟨sd', hfind', hport⟩ := (hlisted.2 id).mp hmem
          rw [hfind] at hfind'
          cases hfind'
          exact hp hport.symm
      · rw [if_neg hid]
        split
        · rw [mem_erase_of_ne hid, hlisted.2]
        · exact hlisted.2 id
  · intro id sd' hfind'
    rw [hfindNext] at hfind'
    split at hfind'
    · cases hfind'
    · exact h.unaddressed id sd' hfind'
  · rw [hlast]
    exact h.lastEphemeralPort
  · intro p hrange
    simp only [destroySocket, hfind]
    split
    · rw [find_remove]
      split
      · simp
      · exact h.occupied p hrange
    · rename_i hrest
      rw [find_assign]
      split
      · intro heq
        exact hrest (Option.some.inj heq)
      · exact h.occupied p hrange

theorem Consistent.setLastEphemeralPort (h : udp.Consistent) (hrange : InEphemeralRange port) :
    ({ udp with lastEphemeralPort := port } : Udp).Consistent where
  sockId := h.sockId
  listed := h.listed
  unaddressed := h.unaddressed
  lastEphemeralPort := hrange
  occupied := h.occupied

theorem Consistent.setInterfaces (h : udp.Consistent) (ift : InterfaceTable) :
    ({ udp with ift := ift } : Udp).Consistent where
  sockId := h.sockId
  listed := h.listed
  unaddressed := h.unaddressed
  lastEphemeralPort := h.lastEphemeralPort
  occupied := h.occupied

/-- A socket that a command has found or created. -/
structure Found (udp : Udp) (sockId : ℤ) (sd : SockDesc) : Prop where
  consistent : udp.Consistent
  find : udp.socketsByIdMap.find sockId = some sd

theorem Found.sockId_eq (h : udp.Found sockId sd) : sd.sockId = sockId :=
  h.consistent.sockId sockId sd h.find

theorem Found.unaddressed (h : udp.Found sockId sd) (hflag : sd.onlyLocalPortIsSet = true) :
    sd.Unaddressed := h.consistent.unaddressed sockId sd h.find hflag

theorem Consistent.choosePort {localPort : ℤ} (h : udp.Consistent)
    (hchoose : udp.choosePort localPort = .ok (next, port)) :
    next.Consistent ∧ next.socketsByIdMap = udp.socketsByIdMap := by
  rw [Udp.choosePort] at hchoose
  split at hchoose
  · obtain ⟨p, hp, hchoose⟩ := bind_eq_ok hchoose
    cases hchoose
    rcases getEphemeralPort_spec h.lastEphemeralPort with ⟨p', hp', hrange, -⟩ | ⟨herror, -⟩
    · rw [hp] at hp'
      cases hp'
      exact ⟨h.setLastEphemeralPort hrange, rfl⟩
    · rw [hp] at herror
      cases herror
  · cases hchoose
    exact ⟨h, rfl⟩

theorem Consistent.createSocket {localAddr : L3Address} {localPort : ℤ} (h : udp.Consistent)
    (hfree : udp.socketsByIdMap.find sockId = none)
    (hcreate : udp.createSocket sockId localAddr localPort = .ok (next, sd)) :
    next.Found sockId sd := by
  rw [Udp.createSocket] at hcreate
  obtain ⟨⟨chosen, port⟩, hchosen, hcreate⟩ := bind_eq_ok hcreate
  obtain ⟨rfl, rfl⟩ := Prod.mk.inj (Except.ok.inj hcreate)
  obtain ⟨hconsistent, hsockets⟩ := h.choosePort hchosen
  constructor
  · apply Consistent.addSocket hconsistent
    · rw [hsockets]
      exact hfree
    · rfl
    · intro hflag
      exact ⟨hflag, rfl, rfl⟩
  · rw [socketsByIdMap_setPortList, find_setSocket, if_pos rfl]

theorem Consistent.getOrCreateSocket (h : udp.Consistent)
    (hget : udp.getOrCreateSocket sockId = .ok (next, sd)) : next.Found sockId sd := by
  rw [Udp.getOrCreateSocket] at hget
  split at hget
  · cases hget
  · split at hget
    · rename_i hfind
      obtain ⟨rfl, rfl⟩ := Prod.mk.inj (Except.ok.inj hget)
      exact ⟨h, hfind⟩
    · rename_i hfree
      exact h.createSocket hfree hget

/-- Two sockets that differ in their membership tables only. -/
def SameEndpoint (sd sd' : SockDesc) : Prop :=
  ∃ table, sd' = { sd with multicastMembershipTable := table }

theorem SameEndpoint.refl (sd : SockDesc) : SameEndpoint sd sd :=
  ⟨sd.multicastMembershipTable, rfl⟩

theorem SameEndpoint.trans {sd sd' sd'' : SockDesc} (h : SameEndpoint sd sd')
    (h' : SameEndpoint sd' sd'') : SameEndpoint sd sd'' := by
  obtain ⟨table, rfl⟩ := h
  obtain ⟨table', rfl⟩ := h'
  exact ⟨table', rfl⟩

variable {state result : Sockets} {interfaceId : ℤ} {multicastAddress : L3Address}
variable {sourceList : List L3Address}

theorem sameEndpoint_joinMulticastGroup
    (h : joinMulticastGroup state multicastAddress interfaceId = .ok result) :
    SameEndpoint state.1 result.1 := by
  rw [joinMulticastGroup] at h
  obtain ⟨_, -, h⟩ := bind_eq_ok h
  obtain ⟨_, -, h⟩ := bind_eq_ok h
  obtain ⟨_, -, h⟩ := bind_eq_ok h
  obtain ⟨_, -, h⟩ := bind_eq_ok h
  obtain ⟨_, -, rfl⟩ := bind_pure_eq_ok h
  exact ⟨_, rfl⟩

theorem sameEndpoint_joinMulticastGroups {addresses : List L3Address} {interfaceIds : List ℤ}
    (h : joinMulticastGroups state addresses interfaceIds = .ok result) :
    SameEndpoint state.1 result.1 := by
  induction addresses generalizing state interfaceIds with
  | nil =>
    cases h
    exact .refl _
  | cons address addresses ih =>
    rw [joinMulticastGroups] at h
    obtain ⟨middle, hmiddle, h⟩ := bind_eq_ok h
    exact (sameEndpoint_joinMulticastGroup hmiddle).trans (ih h)

theorem sameEndpoint_leaveMemberships {position fuel : ℕ}
    (h : leaveMemberships multicastAddress position fuel state = .ok result) :
    SameEndpoint state.1 result.1 := by
  induction fuel generalizing state with
  | zero =>
    cases h
    exact .refl _
  | succ fuel ih =>
    rw [leaveMemberships] at h
    split at h
    · cases h
      exact .refl _
    · split at h
      · cases h
        exact .refl _
      · obtain ⟨ift, -, h⟩ := bind_eq_ok h
        have hdelete : SameEndpoint state.1 (state.1.deleteMulticastMembership position) :=
          ⟨_, rfl⟩
        have hrest := ih h
        exact hdelete.trans hrest

theorem sameEndpoint_leaveMulticastGroups {addresses : List L3Address}
    (h : leaveMulticastGroups state addresses = .ok result) :
    SameEndpoint state.1 result.1 := by
  rw [leaveMulticastGroups] at h
  induction addresses generalizing state with
  | nil =>
    cases h
    exact .refl _
  | cons address addresses ih =>
    rw [foldlM_cons] at h
    obtain ⟨middle, hmiddle, h⟩ := bind_eq_ok h
    have hfirst : SameEndpoint state.1 middle.1 := by
      rw [leaveMulticastGroup] at hmiddle
      split at hmiddle
      · cases hmiddle
        exact .refl _
      · exact sameEndpoint_leaveMemberships hmiddle
    exact hfirst.trans (ih h)

theorem sameEndpoint_reportSources {position : ℕ} {membership : MulticastMembership}
    {sources : List L3Address × Bool} {oldMode newMode : Ipv4.McastSourceFilterMode}
    (h : reportSources state position membership sources oldMode newMode = .ok result) :
    SameEndpoint state.1 result.1 := by
  rw [reportSources] at h
  split at h
  · obtain ⟨ift, -, rfl⟩ := bind_pure_eq_ok h
    exact ⟨_, rfl⟩
  · cases h
    exact ⟨_, rfl⟩

theorem sameEndpoint_findOrAddMembership (sd : SockDesc) (interfaceId : ℤ)
    (multicastAddress : L3Address) :
    SameEndpoint sd (findOrAddMembership sd interfaceId multicastAddress).1 := by
  rw [findOrAddMembership]
  split
  · exact .refl _
  · exact ⟨_, rfl⟩

theorem sameEndpoint_apply {call : MulticastCall} (h : call.apply state = .ok result) :
    SameEndpoint state.1 result.1 := by
  cases call with
  | joinMulticastGroups addresses interfaceIds => exact sameEndpoint_joinMulticastGroups h
  | leaveMulticastGroups addresses => exact sameEndpoint_leaveMulticastGroups h
  | blockMulticastSources interfaceId multicastAddress sourceList =>
    rw [MulticastCall.apply, blockMulticastSources] at h
    obtain ⟨_, -, h⟩ := bind_eq_ok h
    obtain ⟨_, -, h⟩ := bind_eq_ok h
    exact sameEndpoint_reportSources h
  | unblockMulticastSources interfaceId multicastAddress sourceList =>
    rw [MulticastCall.apply, unblockMulticastSources] at h
    obtain ⟨_, -, h⟩ := bind_eq_ok h
    obtain ⟨_, -, h⟩ := bind_eq_ok h
    exact sameEndpoint_reportSources h
  | leaveMulticastSources interfaceId multicastAddress sourceList =>
    rw [MulticastCall.apply, leaveMulticastSources] at h
    obtain ⟨_, -, h⟩ := bind_eq_ok h
    obtain ⟨found, -, h⟩ := bind_eq_ok h
    obtain ⟨middle, hmiddle, h⟩ := bind_eq_ok h
    have hfirst := sameEndpoint_reportSources hmiddle
    split at h
    · cases h
      exact hfirst.trans ⟨_, rfl⟩
    · cases h
      exact hfirst
  | joinMulticastSources interfaceId multicastAddress sourceList =>
    rw [MulticastCall.apply, joinMulticastSources] at h
    obtain ⟨_, -, h⟩ := bind_eq_ok h
    obtain ⟨_, -, h⟩ := bind_eq_ok h
    exact (sameEndpoint_findOrAddMembership ..).trans (sameEndpoint_reportSources h)
  | setMulticastSourceFilter interfaceId multicastAddress filterMode sourceList =>
    rw [MulticastCall.apply, setMulticastSourceFilter] at h
    obtain ⟨_, -, h⟩ := bind_eq_ok h
    have hfound := sameEndpoint_findOrAddMembership state.1 interfaceId multicastAddress
    dsimp only at h
    split at h
    · obtain ⟨ift, -, rfl⟩ := bind_pure_eq_ok h
      exact hfound.trans ⟨_, rfl⟩
    · cases h
      exact hfound

theorem Consistent.connect {remoteAddr : L3Address} {remotePort : ℤ} (h : udp.Consistent)
    (hconnect : udp.connect sockId remoteAddr remotePort = .ok next) : next.Consistent := by
  rw [Udp.connect] at hconnect
  obtain ⟨_, -, hconnect⟩ := bind_eq_ok hconnect
  obtain ⟨_, -, hconnect⟩ := bind_eq_ok hconnect
  obtain ⟨⟨middle, sd⟩, hget, hconnect⟩ := bind_eq_ok hconnect
  cases hconnect
  have hfound := h.getOrCreateSocket hget
  apply hfound.consistent.setSocket hfound.find
  · exact hfound.sockId_eq
  · rfl
  · intro hflag
    cases hflag

theorem Consistent.setOption {option : SetOptionCommand} (h : udp.Consistent)
    (hoption : udp.setOption sockId option = .ok next) : next.Consistent := by
  rw [Udp.setOption] at hoption
  obtain ⟨⟨middle, sd⟩, hget, hoption⟩ := bind_eq_ok hoption
  obtain ⟨state, happly, rfl⟩ := bind_pure_eq_ok hoption
  have hfound := h.getOrCreateSocket hget
  have hkeeps : state.1.sockId = sd.sockId ∧ state.1.localPort = sd.localPort ∧
      (state.1.onlyLocalPortIsSet = true → state.1.Unaddressed) := by
    have hflag := hfound.unaddressed
    cases option with
    | multicast call =>
      obtain ⟨table, hstate⟩ := sameEndpoint_apply happly
      rw [hstate]
      exact ⟨rfl, rfl, hflag⟩
    | _ =>
      cases happly
      exact ⟨rfl, rfl, hflag⟩
  apply Consistent.setInterfaces
  apply hfound.consistent.setSocket hfound.find
  · rw [hkeeps.1, hfound.sockId_eq]
  · exact hkeeps.2.1
  · exact hkeeps.2.2

/-- A socket moves from the list of one port to that of another. -/
theorem Consistent.moveSocket {old : SockDesc} (h : udp.Consistent)
    (hold : udp.socketsByIdMap.find sockId = some old) (hsockId : sd.sockId = sockId)
    (hunaddressed : sd.onlyLocalPortIsSet = true → sd.Unaddressed)
    (hport : old.localPort ≠ sd.localPort)
    (hstays : InEphemeralRange old.localPort → ∃ other ∈ udp.portList old.localPort,
      other ≠ sockId) :
    (((udp.setPortList old.localPort
      ((udp.portList old.localPort).filter (· ≠ sockId))).setSocket sockId sd).setPortList
        sd.localPort (udp.portList sd.localPort ++ [sockId])).Consistent := by
  have hportList : ∀ p, (((udp.setPortList old.localPort
      ((udp.portList old.localPort).filter (· ≠ sockId))).setSocket sockId sd).setPortList
        sd.localPort (udp.portList sd.localPort ++ [sockId])).portList p =
      if p = sd.localPort then udp.portList p ++ [sockId]
      else (udp.portList p).filter (· ≠ sockId) := by
    intro p
    rw [portList_setPortList]
    split
    · rename_i hp
      rw [hp]
    · rw [portList_setSocket, portList_setPortList]
      split
      · rename_i hp
        rw [hp]
      · rename_i hne
        apply Eq.symm
        rw [filter_eq_self]
        intro id hid
        rw [decide_eq_true_eq]
        rintro rfl
        obtain ⟨sd', hfind, hlocal⟩ := ((h.listed p).2 id).mp hid
        rw [hold] at hfind
        cases hfind
        exact hne hlocal.symm
  have hnew : sockId ∉ udp.portList sd.localPort := by
    intro hmem
    obtain ⟨sd', hfind, hlocal⟩ := ((h.listed sd.localPort).2 sockId).mp hmem
    rw [hold] at hfind
    cases hfind
    exact hport hlocal
  constructor
  · intro id sd' hfind
    rw [socketsByIdMap_setPortList, find_setSocket] at hfind
    split at hfind
    · rename_i hid
      rw [← Option.some.inj hfind, hid, hsockId]
    · exact h.sockId id sd' hfind
  · intro p
    have hlisted := h.listed p
    rw [hportList, socketsByIdMap_setPortList]
    constructor
    · split
      · rename_i hp
        rw [nodup_append]
        refine ⟨hlisted.1, nodup_singleton sockId, ?_⟩
        intro id hid other hother heq
        rw [mem_singleton] at hother
        subst hother heq
        rw [hp] at hid
        exact hnew hid
      · exact hlisted.1.filter _
    · intro id
      rw [find_setSocket]
      by_cases hid : id = sockId
      · subst hid
        split
        · rename_i hp
          simp [hp]
        · rename_i hp
          simp [Ne.symm hp]
      · rw [if_neg hid, socketsByIdMap_setPortList]
        split
        · simp [hid, hlisted.2]
        · simp [hid, hlisted.2]
  · intro id sd' hfind
    rw [socketsByIdMap_setPortList, find_setSocket] at hfind
    split at hfind
    · rw [← Option.some.inj hfind]
      exact hunaddressed
    · exact h.unaddressed id sd' hfind
  · exact h.lastEphemeralPort
  · intro p hrange
    simp only [setPortList, socketsByPortMap_setSocket, find_assign]
    split
    · simp
    · split
      · rename_i hp
        rw [hp] at hrange
        obtain ⟨other, hmem, hne⟩ := hstays hrange
        intro hempty
        have hkept : other ∈ (udp.portList old.localPort).filter (· ≠ sockId) := by
          simp [hmem, hne]
        rw [Option.some.inj hempty] at hkept
        cases hkept
      · exact h.occupied p hrange

theorem Consistent.bindSocket {localAddr : L3Address} {localPort : ℤ} (h : udp.Found sockId sd)
    (hclean : udp.BindsCleanly (.bind sockId localAddr localPort)) :
    (udp.bindSocket sockId sd localAddr localPort).Consistent := by
  obtain ⟨haddr, hmove⟩ := hclean sd h.find
  have hunaddressed : ∀ port, sd.onlyLocalPortIsSet = true →
      SockDesc.Unaddressed
        { sd with
          isBound := true
          localAddr := localAddr
          localPort := port } := by
    intro port hflag
    obtain ⟨-, hremote, hremotePort⟩ := h.unaddressed hflag
    rcases haddr with hunspecified | hfalse
    · exact ⟨hunspecified, hremote, hremotePort⟩
    · rw [hfalse] at hflag
      cases hflag
  rw [Udp.bindSocket]
  dsimp only
  split
  · rename_i hmoves
    have hportList : (udp.setPortList sd.localPort
        ((udp.portList sd.localPort).filter (· ≠ sockId))).portList localPort =
          udp.portList localPort := by
      rw [portList_setPortList, if_neg (Ne.symm hmoves.2)]
    rw [hportList]
    refine h.consistent.moveSocket h.find h.sockId_eq (hunaddressed localPort) hmoves.2 ?_
    intro hrange
    rcases hmove with hephemeral | heq | hout | hstays
    · exact absurd hephemeral hmoves.1
    · exact absurd heq.symm hmoves.2
    · exact absurd hrange hout
    · exact hstays
  · exact h.consistent.setSocket h.find h.sockId_eq rfl (hunaddressed sd.localPort)

theorem Consistent.bind {localAddr : L3Address} {localPort : ℤ} (h : udp.Consistent)
    (hclean : udp.BindsCleanly (.bind sockId localAddr localPort))
    (hbind : udp.bind sockId localAddr localPort = .ok next) : next.Consistent := by
  rw [Udp.bind] at hbind
  obtain ⟨_, -, hbind⟩ := bind_eq_ok hbind
  obtain ⟨_, -, hbind⟩ := bind_eq_ok hbind
  obtain ⟨_, -, hbind⟩ := bind_eq_ok hbind
  split at hbind
  · rename_i sd hfind
    obtain ⟨_, -, rfl⟩ := bind_pure_eq_ok hbind
    exact Consistent.bindSocket ⟨h, hfind⟩ hclean
  · rename_i hfree
    obtain ⟨⟨middle, sd⟩, hcreate, hbind⟩ := bind_eq_ok hbind
    cases hbind
    have hfound := h.createSocket hfree hcreate
    exact hfound.consistent.setSocket hfound.find hfound.sockId_eq rfl hfound.unaddressed

theorem Consistent.destroySocket (h : udp.Consistent) (sockId : ℤ) :
    (udp.destroySocket sockId).Consistent := by
  cases hfind : udp.socketsByIdMap.find sockId with
  | none =>
    rw [Udp.destroySocket, hfind]
    exact h
  | some sd => exact h.removeSocket hfind

/-- The module under any commands of its sockets and any packets. -/
def machine : Machine Udp Command SimulationError where
  Enabled _ _ := True
  handle udp command := do
    let handled ← udp.handle command
    return handled.1

instance (udp : Udp) (command : Command) : Decidable (machine.Enabled udp command) :=
  isTrue trivial

/-- The module before the first command. -/
def initial (ift : InterfaceTable) : Udp where
  ift := ift

theorem consistent_initial (ift : InterfaceTable) : (initial ift).Consistent where
  sockId _ _ hfind := by cases hfind
  listed port := by
    constructor
    · exact nodup_nil
    · intro sockId
      constructor
      · exact fun hmem ↦ absurd hmem not_mem_nil
      · rintro ⟨sd, hfind, -⟩
        cases hfind
  unaddressed _ _ hfind := by cases hfind
  lastEphemeralPort := by
    change InEphemeralRange EPHEMERAL_PORTRANGE_START
    decide
  occupied _ _ hlist := by cases hlist

theorem Consistent.step {command : Command} (h : udp.Consistent)
    (hstep : machine.Step udp command next) (hclean : udp.BindsCleanly command) :
    next.Consistent := by
  obtain ⟨⟨udp', outputs⟩, hhandle, hnext⟩ := bind_eq_ok hstep.2
  cases hnext
  cases command with
  | bind sockId localAddr localPort =>
    obtain ⟨next, hbind, hhandle⟩ := bind_eq_ok hhandle
    cases hhandle
    exact h.bind hclean hbind
  | connect sockId remoteAddr remotePort =>
    obtain ⟨next, hconnect, hhandle⟩ := bind_eq_ok hhandle
    cases hhandle
    exact h.connect hconnect
  | setOption sockId option =>
    obtain ⟨next, hoption, hhandle⟩ := bind_eq_ok hhandle
    cases hhandle
    exact h.setOption hoption
  | close sockId | destroy sockId =>
    cases hhandle
    exact h.destroySocket sockId
  | send packet =>
    obtain ⟨⟨middle, sd⟩, hget, hhandle⟩ := bind_eq_ok hhandle
    obtain ⟨sent, -, hhandle⟩ := bind_eq_ok hhandle
    cases hhandle
    exact (h.getOrCreateSocket hget).consistent
  | receive packet =>
    obtain ⟨outputs, -, hhandle⟩ := bind_eq_ok hhandle
    cases hhandle
    exact h

/-- In every run whose binds of open sockets are clean, every unicast packet reaches the socket its
addresses and ports name, the lists have the open sockets, and ephemeral ports are free ones. -/
theorem lawful_of_run {ift : InterfaceTable} {commands : List Command} {udp : Udp}
    (hrun : (machine.restrict BindsCleanly).Run (initial ift) commands udp) : udp.Lawful := by
  have hconsistent : udp.Consistent := by
    refine hrun.invariant (P := Consistent) ?_ (consistent_initial ift)
    intro s command t hs hstep
    obtain ⟨hstep, hclean⟩ := Machine.step_restrict_iff.mp hstep
    exact hs.step hstep hclean
  exact hconsistent.lawful

/-- A socket that an option has created is bound to no address, another one is bound to an address
and connected. -/
theorem lawful_of_run_twoSockets :
    ∃ udp, (machine.restrict BindsCleanly).Run (initial ⟨[]⟩)
      [.setOption 1 (.setTimeToLive 5), .bind 1 .NONE (-1), .bind 2 (.IPv4 0x0A000001#32) 2000,
        .connect 2 (.IPv4 0x0A000002#32) 53] udp ∧ udp.Lawful := by
  have hexec : ∃ udp, (machine.restrict BindsCleanly).Run (initial ⟨[]⟩)
      [.setOption 1 (.setTimeToLive 5), .bind 1 .NONE (-1), .bind 2 (.IPv4 0x0A000001#32) 2000,
        .connect 2 (.IPv4 0x0A000002#32) 53] udp := by
    refine ⟨_, .cons ⟨⟨trivial, trivial⟩, rfl⟩ (.cons ⟨⟨trivial, ?_⟩, rfl⟩
      (.cons ⟨⟨trivial, ?_⟩, rfl⟩ (.cons ⟨⟨trivial, trivial⟩, rfl⟩ (.nil _))))⟩
    · intro sd _
      exact ⟨Or.inl rfl, Or.inl rfl⟩
    · intro sd hfind
      cases hfind
  obtain ⟨udp, hrun⟩ := hexec
  exact ⟨udp, hrun, lawful_of_run hrun⟩

/-- A socket that an option has created is bound to an address, and is handed a packet to another
address. -/
def lateBind : List Command :=
  [.setOption 1 (.setTimeToLive 5), .bind 1 (.IPv4 0x0A000001#32) 2000]

/-- A packet to an address that no socket has. -/
def strayPacket : UdpPacket where
  srcAddr := .IPv4 0x0A000003#32
  srcPort := 53
  destAddr := .IPv4 0x0A000002#32
  destPort := 2000

theorem not_lawful_lateBind :
    ∃ udp, machine.Run (initial ⟨[]⟩) lateBind udp ∧ ¬udp.Lawful := by
  have hexec : ∃ udp, machine.Run (initial ⟨[]⟩) lateBind udp ∧
      udp.processUDPPacket strayPacket = .ok [.sendUp 1 strayPacket] ∧
      udp.socketsByIdMap.entries.all fun entry ↦
        entry.2.localAddr = .IPv4 0x0A000001#32 := by
    apply Machine.exists_run_of_exec
    decide +kernel
  obtain ⟨udp, hrun, hup, hbound⟩ := hexec
  refine ⟨udp, hrun, ?_⟩
  intro hlawful
  obtain ⟨outputs, houtputs, hdemultiplexed⟩ := hlawful.demultiplexed strayPacket (by decide)
  rw [hup] at houtputs
  cases houtputs
  rcases hdemultiplexed with ⟨sd, ⟨sockId, hfind⟩, haccepts, -⟩ | ⟨-, heq⟩
  · have hentry := all_eq_true.mp hbound _ (AssocMap.find_eq_some_iff.mp hfind)
    have haddr : sd.localAddr = .IPv4 0x0A000001#32 := of_decide_eq_true hentry
    have hlocal := haccepts.localAddr
    rw [haddr] at hlocal
    revert hlocal
    decide
  · cases heq

end Udp

end Inet4
