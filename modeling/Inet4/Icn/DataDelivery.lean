import Inet4.Icn.NodeRuns

/-!
# Delivery of Data to the pending requesters

`handleDataPacket` goes through the entries of the SID and means to send a copy of the Data towards
each.  In the same loop it stores the packet, and the test whether the packet is stored already
guards the transmission, so that the first round turns the others off: however many entries there
are, one copy is sent.  The route is looked up for the identifier that the entry holds, which is a
hash of that of the node that asked; where no node bears that hash, the copy goes back the way the
GET came.

A packet is handled without a fault when the padding is not cut into its header and, if the node is
itself a consumer of the SID, when its `totalLength` describes a non-empty part of it.
-/

namespace Inet4.Icn.ColorNoCluster

open ColorPendingGetTable List

variable {node node' : ColorNoCluster} {now : SimTime} {packet newPacket : DataPacket}
variable {srcAddress : MacAddress} {iter : PITentry} {entries : List PITentry}
variable {nidOf : PITentry → NID}

/-- The address to which Data for a node is to be sent: that of the next hop on the route to it, or
else the one from which its GET came. -/
def nextHopTo (node : ColorNoCluster) (now : SimTime) (nid : NID) (mac : MacAddress) : MacAddress :=
  match (node.rt.findRoute now nid).1 with
  | some route => route.nextMac
  | none => mac

/-- The address to which Data for an entry is sent. -/
def nextHopOf (node : ColorNoCluster) (now : SimTime) (iter : PITentry) : MacAddress :=
  nextHopTo node now iter.nid iter.mac

/-- A datagram that carries a packet on: the same part of the same content, with the whole payload
but for the padding. -/
def IsCopy (packet : DataPacket) (datagram : Datagram) : Prop :=
  ∃ copy, datagram.packet = .data copy ∧ copy.head.sid = packet.head.sid ∧
    copy.head.offset = packet.head.offset ∧ copy.head.totalLength = packet.head.totalLength ∧
    copy.head.moreFragments = packet.head.moreFragments ∧
    removePadding packet.head.totalLength packet = .ok { packet with payload := copy.payload }

/-- Handling a packet sends one copy of it to the next hop of each pending entry, and nothing
else.  The routes are those known once the node has learned from the packet itself, and `nidOf` says
which node an entry stands for: the one that asked, or the one whose identifier the entry holds. -/
def DeliversToAll (nidOf : PITentry → NID) (node : ColorNoCluster) (now : SimTime)
    (packet : DataPacket) (srcAddress : MacAddress) : Prop :=
  ∃ node', node.handleDataPacket now packet srcAddress = .ok node' ∧
    ∃ copies, node'.queueOut = node.queueOut ++ copies ∧
      (∀ datagram ∈ copies, IsCopy packet datagram) ∧
      (copies.map Datagram.destAddress).Perm ((node.pit.findPITentry packet.head.sid).map fun iter ↦
        nextHopTo (node.learnRoutes now packet.head srcAddress) now (nidOf iter) iter.mac)

/-- Data for the node an entry stands for goes where Data for the entry goes, as it always does if
the entry stands for the node whose identifier it holds. -/
def RoutedAlike (nidOf : PITentry → NID) (node : ColorNoCluster) (now : SimTime)
    (packet : DataPacket) (srcAddress : MacAddress) : Prop :=
  ∀ iter ∈ node.pit.findPITentry packet.head.sid,
    nextHopTo (node.learnRoutes now packet.head srcAddress) now (nidOf iter) iter.mac =
      nextHopOf (node.learnRoutes now packet.head srcAddress) now iter

/-- The header lies within the part that `totalLength` describes. -/
def PaddingBehindHeader (packet : DataPacket) : Prop :=
  packet.dataLength ≤ packet.head.totalLength ∨ headerLength ≤ packet.head.totalLength

/-- The node has requested the SID and has a socket for it. -/
def Consumes (node : ColorNoCluster) (packet : DataPacket) : Prop :=
  packet.head.portNumber2 ∈ node.socketsByPortMap ∧ packet.head.sid ∈ node.sidToSockets

theorem removePadding_ok_iff : (∃ newPacket, removePadding packet.head.totalLength packet =
    .ok newPacket) ↔ PaddingBehindHeader packet := by
  unfold removePadding PaddingBehindHeader
  split
  · split
    · constructor
      · rintro ⟨newPacket, h⟩
        cases h
      · omega
    · constructor
      · omega
      · exact fun _ ↦ ⟨_, rfl⟩
  · constructor
    · omega
    · exact fun _ ↦ ⟨_, rfl⟩

/-- A node that is no consumer of the SID has nothing to collect. -/
theorem collect_ok_iff : (∃ node', node.collect packet = .ok node') ↔
    (Consumes node packet → ColorFragBuf.Collectable packet) := by
  unfold collect Consumes
  dsimp only
  split
  · rename_i socketId port hsocket hport
    have hconsumes : packet.head.portNumber2 ∈ node.socketsByPortMap ∧
        packet.head.sid ∈ node.sidToSockets :=
      ⟨AssocMap.mem_iff_find.mpr ⟨_, hsocket⟩, AssocMap.mem_iff_find.mpr ⟨_, hport⟩⟩
    rw [← ColorFragBuf.addFragment_ok_iff node.resemBuffer]
    constructor
    · rintro ⟨node', h⟩ -
      obtain ⟨result, hok, -⟩ := bind_eq_ok h
      exact ⟨result, hok⟩
    · intro h
      obtain ⟨⟨fullPacket, resemBuffer⟩, hok⟩ := h hconsumes
      simp only [hok, bind, Except.bind]
      cases fullPacket <;> exact ⟨_, rfl⟩
  · rename_i hnone
    constructor
    · rintro - ⟨hsocket, hport⟩
      obtain ⟨socketId, hsocket⟩ := AssocMap.mem_iff_find.mp hsocket
      obtain ⟨port, hport⟩ := AssocMap.mem_iff_find.mp hport
      exact absurd hport (hnone socketId port hsocket)
    · exact fun _ ↦ ⟨_, rfl⟩

/-- What the first two parts of the handler leave alone; collecting teaches no routes. -/
structure SameForwarding (node node' : ColorNoCluster) : Prop where
  ct : node'.ct = node.ct
  pit : node'.pit = node.pit
  queueOut : node'.queueOut = node.queueOut

theorem learnRoutes_spec (node : ColorNoCluster) (now : SimTime) (head : Data)
    (srcAddress : MacAddress) : SameForwarding node (node.learnRoutes now head srcAddress) := by
  obtain ⟨rt, hrt⟩ := learnRoutes_eq node now head srcAddress
  rw [hrt]
  exact ⟨rfl, rfl, rfl⟩

theorem collect_spec {mid : ColorNoCluster} (now : SimTime) (srcAddress : MacAddress)
    (h : node.collect packet = .ok mid) :
    SameForwarding node (mid.learnRoutes now packet.head srcAddress) ∧
      (mid.learnRoutes now packet.head srcAddress).rt =
        (node.learnRoutes now packet.head srcAddress).rt := by
  obtain ⟨resemBuffer, sidToSockets, transportOut, rfl⟩ := collect_eq h
  obtain ⟨hct, hpit, hqueueOut⟩ := learnRoutes_spec
    { node with resemBuffer, sidToSockets, transportOut } now packet.head srcAddress
  refine ⟨⟨hct, hpit, hqueueOut⟩, ?_⟩
  unfold learnRoutes createRoute
  split <;> split <;> rfl

/-- A stored packet is not sent again, whatever entries remain. -/
theorem forwardLoop_cached (now : SimTime) (entries : List PITentry) (newPacket : DataPacket)
    (h : node.ct.hasThisPacket packet packet.head.sid) :
    ∃ rt, forwardLoop now packet entries node newPacket = .ok { node with rt } := by
  induction entries generalizing node with
  | nil => exact ⟨node.rt, rfl⟩
  | cons iter rest ih =>
    have hcached : (node.findRoute now iter.nid).2.ct.hasThisPacket packet packet.head.sid = true :=
      h
    obtain ⟨rt, hrest⟩ := ih hcached
    refine ⟨rt, ?_⟩
    have hentry : forwardEntry now packet iter node newPacket =
        .ok ((node.findRoute now iter.nid).2, newPacket) := by
      simp only [forwardEntry, hcached, if_true]
      rfl
    simp only [forwardLoop, hentry, bind, Except.bind]
    exact hrest

/-- The packet that is sent for the first entry. -/
def copyFor (node : ColorNoCluster) (packet newPacket : DataPacket) : DataPacket :=
  { newPacket with head := node.forwardHead packet.head }

/-- The first round of the loop for a packet that is not stored: it is stored and sent on. -/
theorem forwardEntry_new (now : SimTime) (iter : PITentry)
    (h : node.ct.hasThisPacket packet packet.head.sid = false)
    (hpadding : removePadding packet.head.totalLength packet = .ok newPacket) :
    ∃ node', forwardEntry now packet iter node packet = .ok (node', copyFor node packet newPacket) ∧
      node'.pit = node.pit ∧ node'.ct.hasThisPacket packet packet.head.sid ∧
      ∃ datagram, node'.queueOut = node.queueOut ++ [datagram] ∧
        datagram.packet = .data (copyFor node packet newPacket) ∧
        datagram.destAddress = nextHopOf node now iter := by
  have hfresh : (node.findRoute now iter.nid).2.ct.hasThisPacket packet packet.head.sid = false := h
  have hhead : newPacket.head = packet.head := by
    rw [removePadding_head hpadding]
  have hstored : ∀ ct : ColorCacheTable, ∀ p : DataPacket, p.head.offset = packet.head.offset →
      p.head.totalLength = packet.head.totalLength →
      (ct.cachePacket packet.head.sid p).hasThisPacket packet packet.head.sid := by
    intro ct p hoffset hlength
    simp [ColorCacheTable.hasThisPacket, ColorCacheTable.getBlock_cachePacket,
      ContentBlock.hasThisPacket, hoffset, hlength]
  simp only [forwardEntry, hfresh, hpadding, bind, Except.bind, hhead]
  refine ⟨_, rfl, rfl, ?_, _, rfl, rfl, rfl⟩
  exact hstored _ _ rfl rfl

/-- However many entries there are, one copy is sent, to the next hop of the first. -/
theorem forwardLoop_new (now : SimTime) (iter : PITentry) (entries : List PITentry)
    (h : node.ct.hasThisPacket packet packet.head.sid = false)
    (hpadding : removePadding packet.head.totalLength packet = .ok newPacket) :
    ∃ node', forwardLoop now packet (iter :: entries) node packet = .ok node' ∧
      node'.pit = node.pit ∧
      ∃ datagram, node'.queueOut = node.queueOut ++ [datagram] ∧ IsCopy packet datagram ∧
        datagram.destAddress = nextHopOf node now iter := by
  obtain ⟨mid, hentry, hpit, hcached, datagram, hqueue, hpacket, hdest⟩ :=
    forwardEntry_new now iter h hpadding
  obtain ⟨rt, hrest⟩ := forwardLoop_cached now entries (copyFor node packet newPacket) hcached
  refine ⟨{ mid with rt }, ?_, hpit, datagram, hqueue, ?_, hdest⟩
  · simp only [forwardLoop, hentry, bind, Except.bind]
    exact hrest
  · refine ⟨_, hpacket, rfl, rfl, rfl, rfl, ?_⟩
    rw [hpadding]
    congr 1
    exact removePadding_head hpadding

/-- A packet whose padding cannot be removed stops the loop. -/
theorem removePadding_of_forwardLoop (h : node.ct.hasThisPacket packet packet.head.sid = false)
    (hok : forwardLoop now packet (iter :: entries) node packet = .ok node') :
    ∃ newPacket, removePadding packet.head.totalLength packet = .ok newPacket := by
  have hfresh : (node.findRoute now iter.nid).2.ct.hasThisPacket packet packet.head.sid = false := h
  obtain ⟨⟨mid, newPacket⟩, hentry, -⟩ := bind_eq_ok hok
  simp only [forwardEntry, hfresh, Bool.false_eq_true, if_false] at hentry
  obtain ⟨newPacket, hpadding, -⟩ := bind_eq_ok hentry
  exact ⟨newPacket, hpadding⟩

/-- The handler once the node has collected the packet, for a SID with pending entries. -/
theorem handleDataPacket_pending {mid : ColorNoCluster} (now : SimTime) (srcAddress : MacAddress)
    (hcollect : node.collect packet = .ok mid)
    (hpending : node.pit.findPITentry packet.head.sid = iter :: entries) :
    node.handleDataPacket now packet srcAddress = (do
      let last ← forwardLoop now packet (iter :: entries)
        (mid.learnRoutes now packet.head srcAddress) packet
      let pit ← last.pit.removeEntry packet.head.sid
      return { last with pit }) := by
  have hpit := (collect_spec now srcAddress hcollect).1.pit
  have hhave : node.pit.haveSID packet.head.sid := by
    rw [haveSID, MultiMap.contains_iff]
    rw [findPITentry] at hpending
    simp [hpending]
  simp only [handleDataPacket, hcollect, Except.bind, Bind.bind, hpit, hhave, if_true, hpending]

/-- For a packet that can be collected and carried on, one copy is sent, towards the first entry. -/
theorem handleDataPacket_new {mid : ColorNoCluster} (now : SimTime) (srcAddress : MacAddress)
    (hpit : node.pit.Coherent) (hcollect : node.collect packet = .ok mid)
    (hpending : node.pit.findPITentry packet.head.sid = iter :: entries)
    (hnew : node.ct.hasThisPacket packet packet.head.sid = false)
    (hpadding : removePadding packet.head.totalLength packet = .ok newPacket) :
    ∃ node', node.handleDataPacket now packet srcAddress = .ok node' ∧
      ∃ datagram, node'.queueOut = node.queueOut ++ [datagram] ∧ IsCopy packet datagram ∧
        datagram.destAddress = nextHopOf
          (node.learnRoutes now packet.head srcAddress) now iter := by
  obtain ⟨hsame, hrt⟩ := collect_spec now srcAddress hcollect
  have hnew' : (mid.learnRoutes now packet.head srcAddress).ct.hasThisPacket packet
      packet.head.sid = false := by
    rw [hsame.ct]
    exact hnew
  obtain ⟨last, hloop, hlastPit, datagram, hqueue, hcopy, hdest⟩ :=
    forwardLoop_new now iter entries hnew' hpadding
  have hhave : node.pit.haveSID packet.head.sid := by
    rw [haveSID, MultiMap.contains_iff]
    rw [findPITentry] at hpending
    simp [hpending]
  obtain ⟨pit, hremove⟩ := removeEntry_ok hpit hhave
  have hlastRemove : last.pit.removeEntry packet.head.sid = .ok pit := by
    rw [hlastPit, hsame.pit]
    exact hremove
  refine ⟨{ last with pit }, ?_, datagram, ?_, hcopy, ?_⟩
  · simp only [handleDataPacket_pending now srcAddress hcollect hpending, hloop, hlastRemove,
      Except.bind, Bind.bind]
    rfl
  · rw [hqueue, hsame.queueOut]
  · rw [hdest]
    simp only [nextHopOf, nextHopTo, hrt]

/-- Data that is not yet stored is carried to every pending requester exactly when there is one of
them, the padding leaves the header whole, the node, should it consume the SID itself, can collect
the packet, and the route of the entry leads to the requester. -/
theorem deliversToAll_iff_of_coherent (hpit : node.pit.Coherent)
    (hpending : node.pit.findPITentry packet.head.sid ≠ [])
    (hnew : node.ct.hasThisPacket packet packet.head.sid = false) :
    DeliversToAll nidOf node now packet srcAddress ↔
      (node.pit.findPITentry packet.head.sid).length = 1 ∧ PaddingBehindHeader packet ∧
        (Consumes node packet → ColorFragBuf.Collectable packet) ∧
        RoutedAlike nidOf node now packet srcAddress := by
  obtain ⟨iter, entries, hentries⟩ := exists_cons_of_ne_nil hpending
  constructor
  · rintro ⟨node', hok, copies, hqueue, -, hperm⟩
    obtain ⟨mid, hcollect, -⟩ := bind_eq_ok hok
    have hpadding : ∃ newPacket, removePadding packet.head.totalLength packet = .ok newPacket := by
      rw [handleDataPacket_pending now srcAddress hcollect hentries] at hok
      obtain ⟨last, hloop, -⟩ := bind_eq_ok hok
      refine removePadding_of_forwardLoop ?_ hloop
      rw [(collect_spec now srcAddress hcollect).1.ct]
      exact hnew
    obtain ⟨newPacket, hnewPacket⟩ := hpadding
    obtain ⟨last, hlast, datagram, hone, -, hdest⟩ := handleDataPacket_new now
      srcAddress hpit hcollect hentries hnew hnewPacket
    obtain rfl := Except.ok.inj (hok.symm.trans hlast)
    have hcopies : copies = [datagram] := append_cancel_left (hqueue.symm.trans hone)
    have hlength := hperm.length_eq
    rw [hcopies, length_map, length_map] at hlength
    have hnil : entries = [] := by
      rw [hentries] at hlength
      simpa using hlength.symm
    refine ⟨hlength.symm, removePadding_ok_iff.mp ⟨newPacket, hnewPacket⟩,
      collect_ok_iff.mp ⟨mid, hcollect⟩, ?_⟩
    intro other hother
    rw [hentries, hnil] at hother
    obtain rfl := mem_singleton.mp hother
    rw [hcopies, hentries, hnil] at hperm
    have haddress := singleton_perm_singleton.mp hperm
    exact haddress.symm.trans hdest
  · rintro ⟨hone, hpadding, hcollectable, halike⟩
    obtain ⟨mid, hcollect⟩ := collect_ok_iff.mpr hcollectable
    obtain ⟨newPacket, hnewPacket⟩ := removePadding_ok_iff.mpr hpadding
    obtain ⟨node', hok, datagram, hqueue, hcopy, hdest⟩ := handleDataPacket_new now
      srcAddress hpit hcollect hentries hnew hnewPacket
    have hnil : entries = [] := by
      rw [hentries] at hone
      simpa using hone
    have hiter : iter ∈ node.pit.findPITentry packet.head.sid := by
      rw [hentries]
      exact mem_cons_self
    refine ⟨node', hok, [datagram], hqueue, ?_, ?_⟩
    · intro other hother
      obtain rfl := mem_singleton.mp hother
      exact hcopy
    · rw [hentries, hnil]
      simp only [map_cons, map_nil, hdest, halike iter hiter]
      exact Perm.refl _

/-- In every state that a node reaches, Data that is pending and not yet stored is carried to every
pending requester exactly when there is one of them, the padding leaves the header whole, the node,
should it consume the SID itself, can collect the packet, and the route of the entry leads to the
requester. -/
theorem deliversToAll_iff {par : Parameters} {events : List NodeEvent}
    (hrun : machine.Run (initial par) events node)
    (hpending : node.pit.findPITentry packet.head.sid ≠ [])
    (hnew : node.ct.hasThisPacket packet packet.head.sid = false) :
    DeliversToAll nidOf node now packet srcAddress ↔
      (node.pit.findPITentry packet.head.sid).length = 1 ∧ PaddingBehindHeader packet ∧
        (Consumes node packet → ColorFragBuf.Collectable packet) ∧
        RoutedAlike nidOf node now packet srcAddress :=
  deliversToAll_iff_of_coherent (coherent_of_run hrun).2 hpending hnew

/-- The content, as node 9 sends it. -/
def contentOf9 : DataPacket where
  head := { sid := ⟨⟨9⟩, 1⟩, lastHop := ⟨9⟩, totalLength := 81 }
  payload := [1, 2, 3]

/-- Node 2 asks, and its GET comes straight from it. -/
theorem deliversToAll_askedOnce :
    ∃ node, machine.Run (initial relay) [getFrom 0 ⟨2⟩ 2 7] node ∧
      DeliversToAll (fun _ ↦ ⟨2⟩) node 10 contentOf9 4 := by
  have hexec : (machine.exec (initial relay) [getFrom 0 ⟨2⟩ 2 7]).any fun node ↦
      decide (node.pit.findPITentry contentOf9.head.sid = [⟨⟨~~~2⟩, 2, 7⟩] ∧
        node.ct.hasThisPacket contentOf9 contentOf9.head.sid = false ∧
        node.sidToSockets.find contentOf9.head.sid = none ∧
        nextHopTo (node.learnRoutes 10 contentOf9.head 4) 10 ⟨2⟩ 2 =
          nextHopTo (node.learnRoutes 10 contentOf9.head 4) 10 ⟨~~~2⟩ 2) := by
    decide +kernel
  obtain ⟨node, hrun, hentries, hnew, hsocket, halike⟩ := Machine.exists_run_of_exec hexec
  refine ⟨node, hrun, (deliversToAll_iff hrun ?_ hnew).mpr ⟨?_, .inl (by decide), ?_, ?_⟩⟩
  · rw [hentries]
    exact cons_ne_nil _ _
  · rw [hentries]
    rfl
  · intro hconsumes
    exact absurd hconsumes.2 (AssocMap.find_eq_none.mp hsocket)
  · intro iter hiter
    rw [hentries] at hiter
    obtain rfl := mem_singleton.mp hiter
    exact halike

/-- Two nodes wait for the content and one copy is sent. -/
theorem not_deliversToAll_askedTwice :
    ∃ node, machine.Run (initial relay) [getFrom 0 ⟨2⟩ 2 7, getFrom 1 ⟨3⟩ 3 8] node ∧
      node.pit.findPITentry contentOf9.head.sid ≠ [] ∧
      node.ct.hasThisPacket contentOf9 contentOf9.head.sid = false ∧
      ∀ nidOf, ¬DeliversToAll nidOf node 10 contentOf9 4 := by
  have hexec : (machine.exec (initial relay) [getFrom 0 ⟨2⟩ 2 7, getFrom 1 ⟨3⟩ 3 8]).any
      fun node ↦ decide ((node.pit.findPITentry contentOf9.head.sid).length = 2 ∧
        node.ct.hasThisPacket contentOf9 contentOf9.head.sid = false) := by
    decide +kernel
  obtain ⟨node, hrun, hentries, hnew⟩ := Machine.exists_run_of_exec hexec
  have hpending : node.pit.findPITentry contentOf9.head.sid ≠ [] := by
    intro hnil
    rw [hnil] at hentries
    cases hentries
  refine ⟨node, hrun, hpending, hnew, ?_⟩
  intro nidOf hdelivers
  obtain ⟨hone, -⟩ :=
    (deliversToAll_iff_of_coherent (coherent_of_run hrun).2 hpending hnew).mp hdelivers
  rw [hentries] at hone
  cases hone

/-- Node 2 has asked for other content over node 3, which is nearer to it, before it asks over
node 4. -/
def askedOverNode4 : List NodeEvent :=
  [⟨0, .receive (.get { head :=
      { sid := ⟨⟨9⟩, 2⟩, source := ⟨2⟩, lastHop := ⟨3⟩, timeToLive := 4, nonce := 6 } }) 3 1000⟩,
    ⟨1, .receive (.get { head :=
      { sid := ⟨⟨9⟩, 1⟩, source := ⟨2⟩, lastHop := ⟨4⟩, timeToLive := 3, nonce := 7 } }) 4 1000⟩]

/-- There is a route to the node that asked, but none to its hash. -/
theorem not_deliversToAll_hashed :
    ∃ node, machine.Run (initial relay) askedOverNode4 node ∧
      node.pit.findPITentry contentOf9.head.sid = [⟨⟨~~~2⟩, 4, 7⟩] ∧
      node.ct.hasThisPacket contentOf9 contentOf9.head.sid = false ∧
      ¬DeliversToAll (fun _ ↦ ⟨2⟩) node 10 contentOf9 4 := by
  have hexec : (machine.exec (initial relay) askedOverNode4).any fun node ↦
      decide (node.pit.findPITentry contentOf9.head.sid = [⟨⟨~~~2⟩, 4, 7⟩] ∧
        node.ct.hasThisPacket contentOf9 contentOf9.head.sid = false ∧
        nextHopTo (node.learnRoutes 10 contentOf9.head 4) 10 ⟨2⟩ 4 ≠
          nextHopTo (node.learnRoutes 10 contentOf9.head 4) 10 ⟨~~~2⟩ 4) := by
    decide +kernel
  obtain ⟨node, hrun, hentries, hnew, hother⟩ := Machine.exists_run_of_exec hexec
  have hpending : node.pit.findPITentry contentOf9.head.sid ≠ [] := by
    rw [hentries]
    exact cons_ne_nil _ _
  refine ⟨node, hrun, hentries, hnew, ?_⟩
  intro hdelivers
  obtain ⟨-, -, -, halike⟩ :=
    (deliversToAll_iff_of_coherent (coherent_of_run hrun).2 hpending hnew).mp hdelivers
  have hiter : (⟨⟨~~~2⟩, 4, 7⟩ : PITentry) ∈ node.pit.findPITentry contentOf9.head.sid := by
    rw [hentries]
    exact mem_singleton_self _
  exact hother (halike _ hiter)

end Inet4.Icn.ColorNoCluster
