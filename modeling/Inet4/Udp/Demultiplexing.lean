import Inet4.Udp.Sockets

/-!
# Unicast demultiplexing

The two socket maps list the same sockets, and the flag that shortens the search for a socket says
what the addresses of the socket say.  Both are kept by every command except a bind of a socket that
exists already: it sets the local address without the flag, and may leave the list of the old port
behind.  Without such a bind every datagram reaches the socket that its addresses and ports name.
-/

namespace Inet4

open List
open Or (inl inr)

namespace Udp

/-- The socket is open. -/
def Open (udp : Udp) (sd : SockDesc) : Prop := ∃ sockId, udp.socketsByIdMap.find sockId = some sd

/-- A socket may be handed a packet: each of its addresses and ports is unset or that of the
packet. -/
structure Accepts (sd : SockDesc) (packet : UdpPacket) : Prop where
  localPort : sd.localPort = packet.destPort
  localAddr : sd.localAddr.isUnspecified = true ∨ sd.localAddr = packet.destAddr
  remoteAddr : sd.remoteAddr.isUnspecified = true ∨ sd.remoteAddr = packet.srcAddr
  remotePort : sd.remotePort = -1 ∨ sd.remotePort = packet.srcPort

/-- The packet goes up to one socket that accepts it, bound to its destination address if there is
such a socket, and to none if no socket accepts it. -/
def Demultiplexed (udp : Udp) (packet : UdpPacket) (outputs : List Output) : Prop :=
  (∃ sd, udp.Open sd ∧ Accepts sd packet ∧
    (sd.localAddr.isUnspecified = true →
      ∀ other, udp.Open other → Accepts other packet → other.localAddr.isUnspecified = true) ∧
    outputs = [.sendUp sd.sockId packet]) ∨
  (∀ sd, udp.Open sd → ¬Accepts sd packet) ∧ outputs = [.portUnreachable packet]

/-- A packet without errors to an address that is neither multicast nor broadcast. -/
def IsUnicast (packet : UdpPacket) : Prop :=
  packet.hasIncorrectLength = false ∧ packet.crcCorrect = true ∧
    packet.destAddr.isMulticast = .ok false ∧ packet.destAddr.isBroadcast = .ok false

instance (packet : UdpPacket) : Decidable (IsUnicast packet) :=
  inferInstanceAs (Decidable (_ ∧ _))

/-- The list of every port has the open sockets with that local port, each once. -/
def Listed (udp : Udp) : Prop :=
  ∀ port, (udp.portList port).Nodup ∧ ∀ sockId, sockId ∈ udp.portList port ↔
    ∃ sd, udp.socketsByIdMap.find sockId = some sd ∧ sd.localPort = port

def InEphemeralRange (port : ℤ) : Prop :=
  EPHEMERAL_PORTRANGE_START ≤ port ∧ port < EPHEMERAL_PORTRANGE_END

instance (port : ℤ) : Decidable (InEphemeralRange port) := inferInstanceAs (Decidable (_ ∧ _))

/-- The search for an ephemeral port returns a port of the range that no open socket has, or it
reports that all are used and they are. -/
def Allocates (udp : Udp) : Prop :=
  (∃ port, udp.getEphemeralPort = .ok port ∧ InEphemeralRange port ∧
    ∀ sd, udp.Open sd → sd.localPort ≠ port) ∨
  udp.getEphemeralPort =
      .error (.runtimeError "Ephemeral port range %d..%d exhausted, all ports occupied") ∧
    ∀ port, InEphemeralRange port → ∃ sd, udp.Open sd ∧ sd.localPort = port

/-- What the module promises in a state. -/
structure Lawful (udp : Udp) : Prop where
  demultiplexed : ∀ packet, IsUnicast packet →
    ∃ outputs, udp.processUDPPacket packet = .ok outputs ∧ udp.Demultiplexed packet outputs
  listed : udp.Listed
  allocates : udp.Allocates

/-- What the flag `onlyLocalPortIsSet` says. -/
def SockDesc.Unaddressed (sd : SockDesc) : Prop :=
  sd.localAddr.isUnspecified = true ∧ sd.remoteAddr.isUnspecified = true ∧ sd.remotePort = -1

structure Consistent (udp : Udp) : Prop where
  sockId : ∀ sockId sd, udp.socketsByIdMap.find sockId = some sd → sd.sockId = sockId
  listed : udp.Listed
  unaddressed : ∀ sockId sd, udp.socketsByIdMap.find sockId = some sd →
    sd.onlyLocalPortIsSet = true → sd.Unaddressed
  lastEphemeralPort : InEphemeralRange udp.lastEphemeralPort
  /-- A port of the range that has a list has a socket. -/
  occupied : ∀ port, InEphemeralRange port → udp.socketsByPortMap.find port ≠ some []

variable {udp next : Udp} {sockId port : ℤ} {sd : SockDesc}

@[simp]
theorem socketsByPortMap_setSocket : (udp.setSocket sockId sd).socketsByPortMap =
    udp.socketsByPortMap := rfl

@[simp]
theorem socketsByIdMap_setPortList {list : List ℤ} :
    (udp.setPortList port list).socketsByIdMap = udp.socketsByIdMap := rfl

@[simp]
theorem find_setSocket (id : ℤ) : (udp.setSocket sockId sd).socketsByIdMap.find id =
    if id = sockId then some sd else udp.socketsByIdMap.find id := AssocMap.find_assign

@[simp]
theorem portList_setSocket (p : ℤ) : (udp.setSocket sockId sd).portList p = udp.portList p := rfl

@[simp]
theorem portList_setPortList (p : ℤ) (list : List ℤ) :
    (udp.setPortList port list).portList p = if p = port then list else udp.portList p := by
  simp only [portList, setPortList, AssocMap.find_assign]
  split <;> rfl

/-- A port of the range without a list has no socket, and one with a list has one. -/
theorem Consistent.mem_socketsByPortMap_iff (h : udp.Consistent) (hrange : InEphemeralRange port) :
    port ∈ udp.socketsByPortMap ↔ ∃ sd, udp.Open sd ∧ sd.localPort = port := by
  have hmem := (h.listed port).2
  constructor
  · intro hport
    obtain ⟨list, hlist⟩ := AssocMap.mem_iff_find.mp hport
    have hportList : udp.portList port = list := by simp [portList, hlist]
    cases list with
    | nil => exact absurd hlist (h.occupied port hrange)
    | cons sockId list =>
      have hsockId : sockId ∈ udp.portList port := by simp [hportList]
      obtain ⟨sd, hsd, hlocal⟩ := (hmem sockId).mp hsockId
      exact ⟨sd, ⟨sockId, hsd⟩, hlocal⟩
  · rintro ⟨sd, ⟨sockId, hsd⟩, hlocal⟩
    have hsockId := (hmem sockId).mpr ⟨sd, hsd, hlocal⟩
    by_contra hport
    rw [portList, AssocMap.find_eq_none.mpr hport] at hsockId
    cases hsockId

/-- The socket of an id is replaced by one with the same local port. -/
theorem Consistent.setSocket {old : SockDesc} (h : udp.Consistent)
    (hold : udp.socketsByIdMap.find sockId = some old) (hsockId : sd.sockId = sockId)
    (hport : sd.localPort = old.localPort)
    (hunaddressed : sd.onlyLocalPortIsSet = true → sd.Unaddressed) :
    (udp.setSocket sockId sd).Consistent where
  sockId id sd' hfind := by
    rw [find_setSocket] at hfind
    split at hfind
    · rename_i hid
      rw [← Option.some.inj hfind, hid, hsockId]
    · exact h.sockId id sd' hfind
  listed p := by
    apply And.intro (h.listed p).1
    intro id
    rw [portList_setSocket, (h.listed p).2, find_setSocket]
    split
    · rename_i hid
      simp [hid, hold, hport]
    · rfl
  unaddressed id sd' hfind := by
    rw [find_setSocket] at hfind
    split at hfind
    · rw [← Option.some.inj hfind]
      exact hunaddressed
    · exact h.unaddressed id sd' hfind
  lastEphemeralPort := h.lastEphemeralPort
  occupied := h.occupied

/-- Behind the last port of the range the first one follows. -/
theorem nextEphemeralPort_cases (h : InEphemeralRange port) :
    port = 4999 ∧ nextEphemeralPort port = 1024 ∨
      port < 4999 ∧ nextEphemeralPort port = port + 1 := by
  have hlt : port < 5000 := h.2
  have hge : 1024 ≤ port := h.1
  have hmod : (port + 1) % 65536 = port + 1 := by omega
  rw [nextEphemeralPort]
  simp only [hmod, EPHEMERAL_PORTRANGE_END, EPHEMERAL_PORTRANGE_START]
  by_cases hlast : port = 4999
  · exact inl ⟨hlast, if_pos (by omega)⟩
  · exact inr ⟨by omega, if_neg (by omega)⟩

theorem nextEphemeralPort_inRange (h : InEphemeralRange port) :
    InEphemeralRange (nextEphemeralPort port) := by
  have hnext := nextEphemeralPort_cases h
  simp only [InEphemeralRange, EPHEMERAL_PORTRANGE_START, EPHEMERAL_PORTRANGE_END] at *
  omega

/-- The number of ports from one to another along the search. -/
def distance (port searchUntil : ℤ) : ℤ := (searchUntil - port) % 3976

theorem distance_next {searchUntil : ℤ} (hport : InEphemeralRange port)
    (huntil : InEphemeralRange searchUntil) (hne : port ≠ searchUntil) :
    distance (nextEphemeralPort port) searchUntil + 1 = distance port searchUntil := by
  have hnext := nextEphemeralPort_cases hport
  simp only [InEphemeralRange, EPHEMERAL_PORTRANGE_START, EPHEMERAL_PORTRANGE_END,
    distance] at *
  omega

/-- The port after another is the only one whose distance is one less. -/
theorem eq_or_distance_lt {searchUntil p : ℤ} (hport : InEphemeralRange port)
    (huntil : InEphemeralRange searchUntil) (hp : InEphemeralRange p)
    (hle : distance p searchUntil ≤ distance port searchUntil) :
    p = port ∨ port ≠ searchUntil ∧
      distance p searchUntil ≤ distance (nextEphemeralPort port) searchUntil := by
  by_cases hne : port = searchUntil
  · subst hne
    simp only [InEphemeralRange, EPHEMERAL_PORTRANGE_START, EPHEMERAL_PORTRANGE_END,
      distance] at *
    omega
  · have hnext := distance_next hport huntil hne
    simp only [InEphemeralRange, EPHEMERAL_PORTRANGE_START, EPHEMERAL_PORTRANGE_END,
      distance] at *
    omega

/-- The search looks at the ports up to the last one, and returns before it runs out of rounds. -/
theorem searchEphemeralPort_spec (udp : Udp) {searchUntil : ℤ} {fuel : ℕ}
    (hport : InEphemeralRange port) (huntil : InEphemeralRange searchUntil)
    (hfuel : distance port searchUntil < fuel) :
    (∃ p, udp.searchEphemeralPort searchUntil fuel port = .ok p ∧ InEphemeralRange p ∧
      p ∉ udp.socketsByPortMap) ∨
    udp.searchEphemeralPort searchUntil fuel port =
        .error (.runtimeError "Ephemeral port range %d..%d exhausted, all ports occupied") ∧
      ∀ p, InEphemeralRange p → distance p searchUntil ≤ distance port searchUntil →
        p ∈ udp.socketsByPortMap := by
  induction fuel generalizing port with
  | zero =>
    have hpos : 0 ≤ distance port searchUntil := Int.emod_nonneg _ (by decide)
    omega
  | succ fuel ih =>
    rw [searchEphemeralPort]
    by_cases hmem : port ∈ udp.socketsByPortMap
    · rw [if_pos hmem]
      by_cases heq : port = searchUntil
      · rw [if_pos heq]
        refine inr ⟨rfl, ?_⟩
        intro p hp hle
        rcases eq_or_distance_lt hport huntil hp hle with rfl | ⟨hne, -⟩
        · exact hmem
        · exact absurd heq hne
      · rw [if_neg heq]
        have hnext := distance_next hport huntil heq
        rcases ih (nextEphemeralPort_inRange hport) (by omega) with hfound | ⟨herror, hall⟩
        · exact inl hfound
        · refine inr ⟨herror, ?_⟩
          intro p hp hle
          rcases eq_or_distance_lt hport huntil hp hle with rfl | ⟨-, hlt⟩
          · exact hmem
          · exact hall p hp hlt
    · rw [if_neg hmem]
      exact inl ⟨port, rfl, hport, hmem⟩

theorem distance_lt (port searchUntil : ℤ) : distance port searchUntil < 3976 :=
  Int.emod_lt_of_pos _ (by decide)

/-- The search starts at the port whose distance from the last one is the largest. -/
theorem distance_le_of_next {searchUntil p : ℤ} (huntil : InEphemeralRange searchUntil) :
    distance p searchUntil ≤ distance (nextEphemeralPort searchUntil) searchUntil := by
  have hlt := distance_lt p searchUntil
  have hnext := nextEphemeralPort_cases huntil
  simp only [InEphemeralRange, EPHEMERAL_PORTRANGE_START, EPHEMERAL_PORTRANGE_END,
    distance] at *
  omega

theorem getEphemeralPort_spec (h : InEphemeralRange udp.lastEphemeralPort) :
    (∃ port, udp.getEphemeralPort = .ok port ∧ InEphemeralRange port ∧
      port ∉ udp.socketsByPortMap) ∨
    udp.getEphemeralPort =
        .error (.runtimeError "Ephemeral port range %d..%d exhausted, all ports occupied") ∧
      ∀ port, InEphemeralRange port → port ∈ udp.socketsByPortMap := by
  have hlt := distance_lt (nextEphemeralPort udp.lastEphemeralPort) udp.lastEphemeralPort
  have hfuel : distance (nextEphemeralPort udp.lastEphemeralPort) udp.lastEphemeralPort <
      (65536 : ℕ) := by omega
  rcases searchEphemeralPort_spec udp (nextEphemeralPort_inRange h) h hfuel with
    hfound | ⟨herror, hall⟩
  · exact inl hfound
  · exact inr ⟨herror, fun p hp ↦ hall p hp (distance_le_of_next h)⟩

theorem Consistent.allocates (h : udp.Consistent) : udp.Allocates := by
  rcases getEphemeralPort_spec h.lastEphemeralPort with ⟨port, hport, hrange, hfree⟩ |
    ⟨herror, hall⟩
  · refine inl ⟨port, hport, hrange, ?_⟩
    intro sd hopen hlocal
    exact hfree ((h.mem_socketsByPortMap_iff hrange).mpr ⟨sd, hopen, hlocal⟩)
  · refine inr ⟨herror, ?_⟩
    intro port hrange
    exact (h.mem_socketsByPortMap_iff hrange).mp (hall port hrange)

/-- The loop prefers a socket with a local address to one without. -/
theorem selectSocket_eq_some {test : SockDesc → Bool} {list : List SockDesc}
    {any : Option SockDesc} (h : selectSocket test list any = some sd) :
    (sd ∈ list ∧ test sd = true ∨ any = some sd) ∧
      (sd.localAddr.isUnspecified = true →
        ∀ other ∈ list, test other = true → other.localAddr.isUnspecified = true) := by
  induction list generalizing any with
  | nil =>
    rw [selectSocket] at h
    exact ⟨inr h, fun _ other hother ↦ absurd hother not_mem_nil⟩
  | cons head list ih =>
    rw [selectSocket] at h
    split at h
    · rename_i htest
      split at h
      · rename_i hunspecified
        obtain ⟨hsource, hprefers⟩ := ih h
        constructor
        · rcases hsource with ⟨hmem, htest'⟩ | heq
          · exact inl ⟨mem_cons_of_mem head hmem, htest'⟩
          · cases heq
            exact inl ⟨mem_cons_self, htest⟩
        · intro hsd other hother htest'
          rcases mem_cons.mp hother with rfl | hother
          · exact hunspecified
          · exact hprefers hsd other hother htest'
      · rename_i hspecified
        cases h
        exact ⟨inl ⟨mem_cons_self, htest⟩, fun hsd ↦ absurd hsd hspecified⟩
    · rename_i htest
      obtain ⟨hsource, hprefers⟩ := ih h
      constructor
      · exact hsource.imp_left fun hmem ↦ ⟨mem_cons_of_mem head hmem.1, hmem.2⟩
      · intro hsd other hother htest'
        rcases mem_cons.mp hother with rfl | hother
        · exact absurd htest' htest
        · exact hprefers hsd other hother htest'

theorem selectSocket_eq_none {test : SockDesc → Bool} {list : List SockDesc}
    {any : Option SockDesc} (h : selectSocket test list any = none) :
    ∀ sd ∈ list, test sd = false := by
  induction list generalizing any with
  | nil => exact fun sd hsd ↦ absurd hsd not_mem_nil
  | cons head list ih =>
    rw [selectSocket] at h
    split at h
    · split at h
      · rename_i htest _
        -- a socket that was kept in hand would have been returned
        have hkept : ∀ (rest : List SockDesc) (kept : SockDesc),
            selectSocket test rest (some kept) ≠ none := by
          intro rest
          induction rest with
          | nil => exact fun kept hnone ↦ absurd hnone (Option.some_ne_none kept)
          | cons other rest ihrest =>
            intro kept
            rw [selectSocket]
            split
            · split
              · exact ihrest other
              · exact Option.some_ne_none other
            · exact ihrest kept
        exact absurd h (hkept list head)
      · cases h
    · rename_i htest
      intro sd hsd
      rcases mem_cons.mp hsd with rfl | hsd
      · exact Bool.eq_false_iff.mpr htest
      · exact ih h sd hsd

theorem Consistent.mem_socketsAt_iff (h : udp.Consistent) :
    sd ∈ udp.socketsAt port ↔ udp.Open sd ∧ sd.localPort = port := by
  rw [socketsAt, mem_filterMap]
  constructor
  · rintro ⟨sockId, hmem, hfind⟩
    obtain ⟨sd', hfind', hport⟩ := ((h.listed port).2 sockId).mp hmem
    rw [hfind] at hfind'
    cases hfind'
    exact ⟨⟨sockId, hfind⟩, hport⟩
  · rintro ⟨⟨sockId, hfind⟩, hport⟩
    exact ⟨sockId, ((h.listed port).2 sockId).mpr ⟨sd, hfind, hport⟩, hfind⟩

/-- With a flag that says what the addresses say, the test is on the addresses and ports. -/
theorem Consistent.matchesUnicast_iff (h : udp.Consistent) (hopen : udp.Open sd)
    {packet : UdpPacket} (hport : sd.localPort = packet.destPort) :
    matchesUnicast sd packet.destAddr packet.srcAddr packet.srcPort = true ↔
      Accepts sd packet := by
  obtain ⟨sockId, hfind⟩ := hopen
  rw [matchesUnicast, decide_eq_true_eq]
  constructor
  · rintro (hflag | ⟨hremotePort, hlocal, hremote⟩)
    · obtain ⟨hlocal, hremote, hremotePort⟩ := h.unaddressed sockId sd hfind hflag
      exact ⟨hport, inl hlocal, inl hremote, inl hremotePort⟩
    · exact ⟨hport, hlocal, hremote, hremotePort⟩
  · intro haccepts
    exact inr ⟨haccepts.remotePort, haccepts.localAddr, haccepts.remoteAddr⟩

theorem Consistent.demultiplexed (h : udp.Consistent) {packet : UdpPacket}
    (hunicast : IsUnicast packet) :
    ∃ outputs, udp.processUDPPacket packet = .ok outputs ∧
      udp.Demultiplexed packet outputs := by
  obtain ⟨hlength, hcrc, hmulticast, hbroadcast⟩ := hunicast
  have hcandidate : ∀ sd, sd ∈ (udp.socketsAt packet.destPort).reverse ↔
      udp.Open sd ∧ sd.localPort = packet.destPort := by
    intro sd
    rw [mem_reverse, h.mem_socketsAt_iff]
  have hprocess : udp.processUDPPacket packet =
      (udp.findSocketForUnicastPacket packet.destAddr packet.destPort packet.srcAddr
        packet.srcPort).elim (.ok [.portUnreachable packet])
          fun sd ↦ .ok [.sendUp sd.sockId packet] := by
    simp only [processUDPPacket, hlength, hcrc, hmulticast, hbroadcast]
    cases udp.findSocketForUnicastPacket packet.destAddr packet.destPort packet.srcAddr
      packet.srcPort <;> rfl
  rw [hprocess]
  cases hfound : udp.findSocketForUnicastPacket packet.destAddr packet.destPort packet.srcAddr
      packet.srcPort with
  | none =>
    refine ⟨_, rfl, inr ⟨?_, rfl⟩⟩
    intro sd hopen haccepts
    have hmem := (hcandidate sd).mpr ⟨hopen, haccepts.localPort⟩
    have hfalse := selectSocket_eq_none hfound sd hmem
    rw [(h.matchesUnicast_iff hopen haccepts.localPort).mpr haccepts] at hfalse
    cases hfalse
  | some sd =>
    obtain ⟨hsource, hprefers⟩ := selectSocket_eq_some hfound
    rcases hsource with ⟨hmem, htest⟩ | hnone
    · obtain ⟨hopen, hport⟩ := (hcandidate sd).mp hmem
      refine ⟨_, rfl, inl ⟨sd, hopen, ?_, ?_, rfl⟩⟩
      · exact (h.matchesUnicast_iff hopen hport).mp htest
      · intro hsd other hother haccepts
        exact hprefers hsd other ((hcandidate other).mpr ⟨hother, haccepts.localPort⟩)
          ((h.matchesUnicast_iff hother haccepts.localPort).mpr haccepts)
    · cases hnone

theorem Consistent.lawful (h : udp.Consistent) : udp.Lawful where
  demultiplexed _ hunicast := h.demultiplexed hunicast
  listed := h.listed
  allocates := h.allocates

end Udp

end Inet4
