import Inet4.Flooding
import Inet4.Ted.LinkStateRouting

/-!
# What a link state message does

Where no two links lead from one router to another one and every message id of a router stands for
one announcement, the scan of `checkLinkValidity` takes in a link as replicas of a flooded database
do.  A link that other modules have changed is taken in as it was announced.
-/

namespace Inet4.Ted

open List TeLinkStateInfo
open Flooding (Versioned)
open Ipv4 (Ipv4Address Ipv4RoutingTable)

/-- Links are told apart by their routers; of two announcements of a link the later one has the
later timestamp, or the greater id. -/
def linkRecord : Versioned TeLinkStateInfo (Ipv4Address × Ipv4Address) (SimTime ×ₗ ℕ) where
  key link := (link.advrouter, link.linkid)
  version link := toLex (link.timestamp, link.messageId.toNat)

theorem version_lt_iff {elem link : TeLinkStateInfo} :
    linkRecord.version elem < linkRecord.version link ↔
      elem.timestamp < link.timestamp ∨
        elem.timestamp = link.timestamp ∧ elem.messageId < link.messageId :=
  Prod.Lex.toLex_lt_toLex

theorem key_eq_iff {elem link : TeLinkStateInfo} :
    linkRecord.key elem = linkRecord.key link ↔
      elem.advrouter = link.advrouter ∧ elem.linkid = link.linkid := Prod.mk.injEq _ _ _ _ ▸ Iff.rfl

/-! ## What a rebuild reads -/

/-- What the routing table is computed from, and the address of the other end. -/
structure LinkView where
  advrouter : Ipv4Address
  linkid : Ipv4Address
  localAddr : Ipv4Address
  remote : Ipv4Address
  metric : ℚ
  state : Bool
  overReserved : Bool

def TeLinkStateInfo.view (link : TeLinkStateInfo) : LinkView where
  advrouter := link.advrouter
  linkid := link.linkid
  localAddr := link.localAddr
  remote := link.remote
  metric := link.metric
  state := link.state
  overReserved := link.unResvBandwidth[7] < 0

/-- `addEdge` by what is seen of the link. -/
def LinkView.addEdge (graph : List Vertex × List (BellmanFord.Edge ℕ ℚ)) (view : LinkView) :
    List Vertex × List (BellmanFord.Edge ℕ ℚ) :=
  let src := assignIndex graph.1 view.advrouter
  let dest := assignIndex src.2 view.linkid
  (dest.2, graph.2 ++ [{ src := src.1, dest := dest.1, weight := view.metric }])

theorem selectEdges_eq_views (links : List TeLinkStateInfo) :
    selectEdges links 0 7 =
      ((links.map view).filter fun view ↦ view.state && !view.overReserved).foldl
        LinkView.addEdge ([], []) := by
  have hselected : (fun elem : TeLinkStateInfo ↦ decide (elem.IsSelected 0 7)) =
      (fun view : LinkView ↦ view.state && !view.overReserved) ∘ view := by
    funext elem
    rw [Function.comp_apply, Bool.eq_iff_iff, decide_eq_true_iff, Bool.and_eq_true,
      Bool.not_eq_true']
    exact and_congr_right fun _ ↦ decide_eq_false_iff_not.symm
  rw [selectEdges, hselected, filter_map, foldl_map]
  rfl

theorem getInterfaceAddrByPeerAddress_eq_views (ted : Ted) (peerIP : Ipv4Address) :
    ted.getInterfaceAddrByPeerAddress peerIP =
      ((ted.ted.map view).find? fun view ↦
        view.linkid = peerIP ∧ view.advrouter = ted.routerId).elim (.error .runtimeError)
          (fun view ↦ .ok view.localAddr) := by
  have hsame : (fun view : LinkView ↦
      decide (view.linkid = peerIP ∧ view.advrouter = ted.routerId)) ∘ view =
        fun elem ↦ decide (ted.IsOwnLink peerIP elem) := rfl
  rw [find?_map, getInterfaceAddrByPeerAddress, hsame]
  cases ted.ted.find? fun elem ↦ ted.IsOwnLink peerIP elem <;> rfl

theorem getPeerByLocalAddress_eq_views (ted : Ted) (localInf : Ipv4Address) :
    ted.getPeerByLocalAddress localInf =
      ((ted.ted.map view).find? fun view ↦
        view.advrouter = ted.routerId ∧ view.localAddr = localInf).elim (.error .runtimeError)
          (fun view ↦ .ok view.linkid) := by
  have hsame : (fun view : LinkView ↦
      decide (view.advrouter = ted.routerId ∧ view.localAddr = localInf)) ∘ view =
        fun elem ↦ decide (elem.advrouter = ted.routerId ∧ elem.localAddr = localInf) := rfl
  rw [find?_map, getPeerByLocalAddress, hsame]
  cases ted.ted.find? fun elem ↦ elem.advrouter = ted.routerId ∧ elem.localAddr = localInf <;> rfl

theorem isLocalPeer_eq_views (ted : Ted) (addr : Ipv4Address) :
    ted.isLocalPeer addr = (ted.ted.map view).any fun view ↦
      view.linkid = addr ∧ view.advrouter = ted.routerId := by
  rw [any_map]
  rfl

/-- Databases of one router that look the same. -/
structure SameView (ted ted' : Ted) : Prop where
  routerId : ted.routerId = ted'.routerId
  ift : ted.ift = ted'.ift
  interfaceAddrs : ted.interfaceAddrs = ted'.interfaceAddrs
  links : ted.ted.map view = ted'.ted.map view

namespace SameView

variable {ted ted' : Ted}

section

variable (h : SameView ted ted')
include h

theorem calculateShortestPaths_eq :
    ted.calculateShortestPaths ted.ted 0 7 = ted'.calculateShortestPaths ted'.ted 0 7 := by
  unfold calculateShortestPaths
  rw [selectEdges_eq_views, selectEdges_eq_views, h.links, h.routerId]

theorem isLocalPeer_eq (addr : Ipv4Address) : ted.isLocalPeer addr = ted'.isLocalPeer addr := by
  rw [isLocalPeer_eq_views, isLocalPeer_eq_views, h.links, h.routerId]

theorem getInterfaceAddrByPeerAddress_eq (peerIP : Ipv4Address) :
    ted.getInterfaceAddrByPeerAddress peerIP = ted'.getInterfaceAddrByPeerAddress peerIP := by
  rw [getInterfaceAddrByPeerAddress_eq_views, getInterfaceAddrByPeerAddress_eq_views, h.links,
    h.routerId]

theorem getPeerByLocalAddress_eq (localInf : Ipv4Address) :
    ted.getPeerByLocalAddress localInf = ted'.getPeerByLocalAddress localInf := by
  rw [getPeerByLocalAddress_eq_views, getPeerByLocalAddress_eq_views, h.links, h.routerId]

theorem nextHopIndex_eq (vertices : List Vertex) (fuel nHop : ℕ) :
    ted.nextHopIndex vertices fuel nHop = ted'.nextHopIndex vertices fuel nHop := by
  induction fuel generalizing nHop with
  | zero => rfl
  | succ fuel ih => simp only [nextHopIndex, h.isLocalPeer_eq, ih]

theorem remoteRoute_eq (vertices : List Vertex) (entry : Vertex × ℕ) :
    ted.remoteRoute vertices entry = ted'.remoteRoute vertices entry := by
  simp only [remoteRoute, h.routerId, h.isLocalPeer_eq, h.nextHopIndex_eq,
    h.getInterfaceAddrByPeerAddress_eq, h.ift]

theorem peerRoute_eq (localInf : Ipv4Address) :
    ted.peerRoute localInf = ted'.peerRoute localInf := by
  simp only [peerRoute, h.getPeerByLocalAddress_eq, h.ift]

/-- The routing table depends on nothing else. -/
theorem rebuildRoutingTable_eq (rt : Ipv4RoutingTable) :
    ted.rebuildRoutingTable rt = ted'.rebuildRoutingTable rt := by
  have hremote : ted.addRemoteRoute = ted'.addRemoteRoute := by
    funext vertices table entry
    rw [addRemoteRoute, addRemoteRoute, h.remoteRoute_eq]
  have hpeer : ted.addPeerRoute = ted'.addPeerRoute := by
    funext table localInf
    rw [addPeerRoute, addPeerRoute, h.peerRoute_eq]
  unfold rebuildRoutingTable
  rw [h.calculateShortestPaths_eq, h.interfaceAddrs, hremote, hpeer]

end

end SameView

/-! ## Taking in a link -/

/-- Announcements that can be about: a message id of a router stands for one announcement, and those
of one link look the same. -/
structure Coherent (holds : TeLinkStateInfo → Prop) : Prop where
  source : ∀ link, holds link → link.sourceId = link.advrouter
  unique : ∀ link link', holds link → holds link' → link.advrouter = link'.advrouter →
    link.messageId = link'.messageId → link = link'
  view : ∀ link link', holds link → holds link' → linkRecord.key link = linkRecord.key link' →
    link.view = link'.view

namespace Coherent

variable {holds : TeLinkStateInfo → Prop} {elem link : TeLinkStateInfo}

theorem copyFrom_eq (h : Coherent holds) (helem : holds elem) (hlink : holds link)
    (hkey : linkRecord.key elem = linkRecord.key link) : elem.copyFrom link = link := by
  obtain ⟨hadv, hlinkid⟩ := key_eq_iff.mp hkey
  have hview := h.view elem link helem hlink hkey
  have hlocal : elem.localAddr = link.localAddr := congrArg LinkView.localAddr hview
  have hremote : elem.remote = link.remote := congrArg LinkView.remote hview
  rw [copyFrom, hadv, hlinkid, hlocal, hremote]

theorem determined (h : Coherent holds) : Flooding.Determined linkRecord holds := by
  intro link link' hlink hlink' hkey hversion
  obtain ⟨-, hid⟩ := Prod.mk.inj (toLex.injective hversion)
  exact h.unique link link' hlink hlink' (key_eq_iff.mp hkey).1 (BitVec.eq_of_toNat_eq hid)

end Coherent

/-- What the scan finds out, in terms of the database as a replica. -/
inductive Checked (ted : List TeLinkStateInfo) (link : TeLinkStateInfo) : Option (Option ℕ) → Prop
  | seen (hoffer : linkRecord.offer ted link = none) : Checked ted link none
  | new (hoffer : linkRecord.offer ted link = some (ted ++ [link])) : Checked ted link (some none)
  | newer {i : ℕ} (hoffer : linkRecord.offer ted link = some (ted.modify i (·.copyFrom link)))
      (hview : (ted.modify i (·.copyFrom link)).map view =
        ted.map view)
      (hstate : (ted[i]?.any fun elem ↦ elem.state ≠ link.state) = false) :
      Checked ted link (some (some i))

section Checked

variable {holds : TeLinkStateInfo → Prop} {ted rest : List TeLinkStateInfo}
variable {elem link : TeLinkStateInfo}

theorem Checked.cons {result : Option (Option ℕ)} (h : Checked rest link result)
    (hkey : linkRecord.key elem ≠ linkRecord.key link) :
    Checked (elem :: rest) link (result.map fun found ↦ found.map (· + 1)) := by
  have hoffer : linkRecord.offer (elem :: rest) link =
      (linkRecord.offer rest link).map (elem :: ·) := if_neg hkey
  cases h with
  | seen hseen =>
    refine .seen ?_
    rw [hoffer, hseen]
    rfl
  | new hnew =>
    refine .new ?_
    rw [hoffer, hnew]
    rfl
  | newer hnewer hview hstate =>
    refine .newer ?_ ?_ hstate
    · rw [hoffer, hnewer]
      rfl
    · exact congrArg (elem.view :: ·) hview

theorem checked_checkLinkValidity (h : Coherent holds) (hted : ∀ elem ∈ ted, holds elem)
    (hlink : holds link) : Checked ted link (checkLinkValidity link ted) := by
  induction ted with
  | nil => exact .new rfl
  | cons elem rest ih =>
    obtain ⟨helem, hrest⟩ := forall_mem_cons.mp hted
    rw [checkLinkValidity]
    split_ifs with htriple hrouters hnewer
    · -- the announcement itself is there
      obtain ⟨hsource, hid, -⟩ := htriple
      rw [h.source elem helem, h.source link hlink] at hsource
      have hsame := h.unique elem link helem hlink hsource hid
      refine .seen ?_
      rw [hsame]
      exact (if_pos rfl).trans (if_neg (lt_irrefl _))
    · have hkey := key_eq_iff.mpr hrouters
      have hcopy := h.copyFrom_eq helem hlink hkey
      have hview := h.view elem link helem hlink hkey
      have hmodify : (elem :: rest).modify 0 (·.copyFrom link) = link :: rest := by
        rw [modify_zero_cons, hcopy]
      refine .newer ?_ ?_ ?_
      · rw [hmodify]
        exact (if_pos hkey).trans (if_pos (version_lt_iff.mpr hnewer))
      · rw [hmodify, map_cons, map_cons, hview]
      · have hstate : elem.state = link.state := congrArg LinkView.state hview
        exact decide_eq_false (not_not.mpr hstate)
    · have hkey := key_eq_iff.mpr hrouters
      exact .seen ((if_pos hkey).trans (if_neg (mt version_lt_iff.mp hnewer)))
    · exact (ih hrest).cons (mt key_eq_iff.mp hrouters)

end Checked

namespace LinkStateRouting

variable {holds : TeLinkStateInfo → Prop} {received : Received} {link : TeLinkStateInfo}
variable {links : List TeLinkStateInfo}

/-- What `receiveLink` has done. -/
structure Takes (received : Received) (links : List TeLinkStateInfo) (received' : Received) :
    Prop where
  taken : (received'.ted, received'.forward) =
    links.foldl linkRecord.take (received.ted, received.forward)
  view : received'.change = false → received.change = false ∧
    received'.ted.map view = received.ted.map view

theorem takes_receiveLink (h : Coherent holds) (hted : ∀ elem ∈ received.ted, holds elem)
    (hlink : holds link) :
    ∃ received', receiveLink received link = .ok received' ∧ Takes received [link] received' := by
  have hchecked := checked_checkLinkValidity h hted hlink
  have hsource := assert_of (h.source link hlink)
  unfold receiveLink
  generalize checkLinkValidity link received.ted = result at hchecked
  cases hchecked with
  | seen hoffer =>
    refine ⟨received, rfl, ?_, fun hchange ↦ ⟨hchange, rfl⟩⟩
    simp only [foldl_cons, foldl_nil, Versioned.take, hoffer]
  | new hoffer =>
    refine ⟨_, bind_of_ok hsource, ?_, fun hchange ↦ by cases hchange⟩
    simp only [foldl_cons, foldl_nil, Versioned.take, hoffer]
  | newer hoffer hview hstate =>
    refine ⟨_, bind_of_ok hsource, ?_, ?_⟩
    · simp only [foldl_cons, foldl_nil, Versioned.take, hoffer]
    · intro hchange
      exact ⟨(Bool.or_eq_false_iff.mp hchange).1, hview⟩

theorem mem_of_takes {x : TeLinkStateInfo} {received' : Received}
    (h : Takes received [link] received')
    (hmem : x ∈ received'.ted) : x = link ∨ x ∈ received.ted := by
  have hted : received'.ted = (linkRecord.take (received.ted, received.forward) link).1 :=
    congrArg Prod.fst h.taken
  rw [hted, Versioned.take] at hmem
  split at hmem
  · exact .inr hmem
  · rename_i store' hoffer
    exact (Versioned.accepted_of_offer hoffer).of_mem x hmem

/-- The loop over the links of a message. -/
theorem takes_foldlM (h : Coherent holds) (hted : ∀ elem ∈ received.ted, holds elem)
    (hlinks : ∀ link ∈ links, holds link) :
    ∃ received', links.foldlM receiveLink received = .ok received' ∧
      Takes received links received' := by
  induction links generalizing received with
  | nil => exact ⟨received, rfl, rfl, fun hchange ↦ ⟨hchange, rfl⟩⟩
  | cons link rest ih =>
    obtain ⟨hlink, hrest⟩ := forall_mem_cons.mp hlinks
    obtain ⟨middle, hmiddle, hfirst⟩ := takes_receiveLink h hted hlink
    have hted' : ∀ elem ∈ middle.ted, holds elem := by
      intro elem hmem
      rcases mem_of_takes hfirst hmem with rfl | hold
      · exact hlink
      · exact hted elem hold
    obtain ⟨received', hfold, htakes⟩ := ih hted' hrest
    refine ⟨received', ?_, ?_, ?_⟩
    · rw [foldlM_cons, bind_of_ok hmiddle]
      exact hfold
    · rw [htakes.taken, hfirst.taken]
      rfl
    · intro hchange
      obtain ⟨hmiddleChange, hview⟩ := htakes.view hchange
      obtain ⟨hstart, hview'⟩ := hfirst.view hmiddleChange
      exact ⟨hstart, hview.trans hview'⟩

/-! ## Processing a message -/

/-- The routing table is one that `rebuildRoutingTable` computes from the present database. -/
def TableIsCurrent (router : LinkStateRouting) : Prop :=
  ∃ before, router.tedmod.rebuildRoutingTable before = .ok router.rt

/-- What is the case after a message, when `forward` has been sent on. -/
structure Processed (router : LinkStateRouting) (pk : LinkStatePacket)
    (forward : List TeLinkStateInfo) (result : LinkStateRouting × List LinkStatePacket) : Prop where
  tedmod_eq : result.1.tedmod = { router.tedmod with ted := result.1.tedmod.ted }
  peerIfAddrs_eq : result.1.peerIfAddrs = router.peerIfAddrs
  announceMsg_eq : result.1.announceMsg = router.announceMsg
  announced_eq : result.1.announced = router.announced
  taken : linkRecord.Taken router.tedmod.ted pk.linkInfo (result.1.tedmod.ted, forward)
  current : router.TableIsCurrent → result.1.TableIsCurrent
  sent : ∀ q ∈ result.2, q.srcAddress = router.tedmod.routerId ∧
    (q.linkInfo = result.1.tedmod.ted ∨ q.linkInfo = forward)
  sends : forward ≠ [] → ∀ elem ∈ result.1.tedmod.ted, result.1.SendsOver pk.srcAddress elem →
    ∃ q ∈ result.2, q.destAddress = elem.linkid ∧ q.linkInfo = forward

variable {router : LinkStateRouting}

theorem mem_sendToPeers {list : List TeLinkStateInfo} {req : Bool} {exceptPeer : Ipv4Address}
    {q : LinkStatePacket} :
    q ∈ router.sendToPeers list req exceptPeer ↔ ∃ elem ∈ router.tedmod.ted,
      router.SendsOver exceptPeer elem ∧ router.sendToPeer elem.linkid list req = q := by
  rw [sendToPeers, mem_map]
  constructor
  · rintro ⟨elem, hmem, heq⟩
    obtain ⟨hted, hover⟩ := mem_filter.mp hmem
    exact ⟨elem, hted, of_decide_eq_true hover, heq⟩
  · rintro ⟨elem, hted, hover, heq⟩
    exact ⟨elem, mem_filter.mpr ⟨hted, decide_eq_true hover⟩, heq⟩

theorem tableIsCurrent_rebuildIf {change : Bool} {tedmod : Ted} {rt : Ipv4RoutingTable}
    (hcurrent : router.TableIsCurrent)
    (hsame : change = false → SameView router.tedmod tedmod)
    (hok : rebuildIf change tedmod router.rt = .ok rt) :
    ∃ before, tedmod.rebuildRoutingTable before = .ok rt := by
  cases change with
  | true => exact ⟨_, hok⟩
  | false =>
    cases hok
    obtain ⟨before, hbefore⟩ := hcurrent
    exact ⟨before, ((hsame rfl).rebuildRoutingTable_eq before).symm.trans hbefore⟩

theorem exists_processed {pk : LinkStatePacket} {result : LinkStateRouting × List LinkStatePacket}
    (h : Coherent holds)
    (hted : ∀ elem ∈ router.tedmod.ted, holds elem) (hlinks : ∀ link ∈ pk.linkInfo, holds link)
    (hok : router.processLINK_STATE_MESSAGE pk = .ok result) :
    ∃ forward, Processed router pk forward result := by
  obtain ⟨received, hreceived, htakes⟩ : ∃ received,
      pk.linkInfo.foldlM receiveLink ⟨router.tedmod.ted, false, []⟩ = .ok received ∧
        Takes ⟨router.tedmod.ted, false, []⟩ pk.linkInfo received :=
    takes_foldlM h hted hlinks
  have htaken : linkRecord.Taken router.tedmod.ted pk.linkInfo
    (received.ted, received.forward) := by
    rw [htakes.taken]
    exact Versioned.taken_foldl _ _
  unfold processLINK_STATE_MESSAGE at hok
  rw [bind_of_ok hreceived] at hok
  obtain ⟨rt, hrt, rfl⟩ := bind_pure_eq_ok hok
  refine ⟨received.forward, rfl, rfl, rfl, rfl, htaken, ?_, ?_, ?_⟩
  · exact fun hcurrent ↦ tableIsCurrent_rebuildIf hcurrent
      (fun hchange ↦ ⟨rfl, rfl, rfl, (htakes.view hchange).2.symm⟩) hrt
  · intro q hmem
    rcases mem_append.mp hmem with hreply | hforward
    · split at hreply
      · rw [mem_singleton.mp hreply]
        exact ⟨rfl, .inl rfl⟩
      · cases hreply
    · split at hforward
      · cases hforward
      · obtain ⟨elem, -, -, rfl⟩ := mem_sendToPeers.mp hforward
        exact ⟨rfl, .inr rfl⟩
  · intro hne elem hmem hover
    rw [if_neg hne]
    exact ⟨_, mem_append_right _ (mem_sendToPeers.mpr ⟨elem, hmem, hover, rfl⟩), rfl, rfl⟩

/-! ## Announcing changes -/

/-- A link announced anew. -/
def Restamped (now : SimTime) (elem link : TeLinkStateInfo) : Prop :=
  link = { elem with timestamp := now, messageId := link.messageId }

/-- What the signal for some indices has done. -/
structure Signalled (now : SimTime) (ted : Ted) (indices : List ℕ)
    (result : Ted × List TeLinkStateInfo) : Prop where
  routerId_eq : result.1.routerId = ted.routerId
  ift_eq : result.1.ift = ted.ift
  interfaceAddrs_eq : result.1.interfaceAddrs = ted.interfaceAddrs
  length_eq : result.1.ted.length = ted.ted.length
  id_le : ted.maxMessageId.toNat ≤ result.1.maxMessageId.toNat
  id_lt : result.1.maxMessageId.toNat < 2 ^ 31
  kept : ∀ k, k ∉ indices → result.1.ted[k]? = ted.ted[k]?
  restamped : ∀ k ∈ indices, ∃ elem link, ted.ted[k]? = some elem ∧
    elem.advrouter = ted.routerId ∧ result.1.ted[k]? = some link ∧ link ∈ result.2 ∧
    Restamped now elem link
  announced : ∀ link ∈ result.2, ∃ k ∈ indices, ∃ elem last, ted.ted[k]? = some elem ∧
    Restamped now elem link ∧ result.1.ted[k]? = some last ∧
    link.messageId.toNat ≤ last.messageId.toNat ∧
    ted.maxMessageId.toNat < link.messageId.toNat ∧
    link.messageId.toNat ≤ result.1.maxMessageId.toNat
  ids : result.2.Pairwise fun link link' ↦ link.messageId.toNat < link'.messageId.toNat

variable {now : SimTime} {ted : Ted} {indices : List ℕ}
    {signalled result : Ted × List TeLinkStateInfo}

theorem signalled_nil (hbound : ted.maxMessageId.toNat < 2 ^ 31) :
    Signalled now ted [] (ted, []) where
  routerId_eq := rfl
  ift_eq := rfl
  interfaceAddrs_eq := rfl
  length_eq := rfl
  id_le := le_rfl
  id_lt := hbound
  kept := fun _ _ ↦ rfl
  restamped := fun k hmem ↦ by cases hmem
  announced := fun link hmem ↦ by cases hmem
  ids := .nil

/-- What one index of the signal does. -/
theorem announceLink_eq_ok {index : ℕ} (h : announceLink now signalled index = .ok result)
    (hbound : signalled.1.maxMessageId.toNat < 2 ^ 31) :
    ∃ elem link, signalled.1.ted[index]? = some elem ∧ elem.advrouter = signalled.1.routerId ∧
      Restamped now elem link ∧ link.messageId.toNat = signalled.1.maxMessageId.toNat + 1 ∧
      result.1.routerId = signalled.1.routerId ∧ result.1.ift = signalled.1.ift ∧
      result.1.interfaceAddrs = signalled.1.interfaceAddrs ∧
      result.1.ted = signalled.1.ted.set index link ∧
      result.1.maxMessageId.toNat = signalled.1.maxMessageId.toNat + 1 ∧
      result.1.maxMessageId.toNat < 2 ^ 31 ∧ result.2 = signalled.2 ++ [link] := by
  unfold announceLink at h
  split at h
  · cases h
  · rename_i elem helem
    obtain ⟨updated, hupdated, h⟩ := bind_eq_ok h
    obtain ⟨_, hown, hupdated⟩ := bind_eq_ok hupdated
    obtain ⟨_, hmax, hupdated⟩ := bind_eq_ok hupdated
    have hlast : signalled.1.maxMessageId.toNat ≠ 2147483647 := by
      intro heq
      exact of_throwIf hmax (BitVec.eq_of_toNat_eq heq)
    have hnext : (signalled.1.maxMessageId + 1).toNat = signalled.1.maxMessageId.toNat + 1 := by
      have hone : (1 : BitVec 32).toNat = 1 := rfl
      rw [BitVec.toNat_add, hone]
      exact Nat.mod_eq_of_lt (by omega)
    cases hupdated
    cases h
    refine ⟨elem, { elem with timestamp := now, messageId := signalled.1.maxMessageId + 1 }, helem,
      of_assert hown, rfl, hnext, rfl, rfl, rfl, rfl, hnext, ?_, rfl⟩
    change (signalled.1.maxMessageId + 1).toNat < 2 ^ 31
    omega

theorem Restamped.trans {elem link link' : TeLinkStateInfo} (h : Restamped now elem link)
    (h' : Restamped now link link') : Restamped now elem link' := by
  rw [Restamped, h] at h'
  exact h'

theorem Signalled.step {index : ℕ} (h : Signalled now ted indices signalled)
    (hstep : announceLink now signalled index = .ok result) :
    Signalled now ted (indices ++ [index]) result := by
  obtain ⟨elem, link, helem, hown, hrestamped, hid, hrouter, hift, haddrs, hted, hmax, hlt,
    hlinks⟩ :=
    announceLink_eq_ok hstep h.id_lt
  have hbound := (List.getElem?_eq_some_iff.mp helem).1
  have hself : result.1.ted[index]? = some link := by
    rw [hted, List.getElem?_set_self hbound]
  have hother : ∀ k, k ≠ index → result.1.ted[k]? = signalled.1.ted[k]? := by
    intro k hne
    rw [hted, List.getElem?_set_ne hne.symm]
  have hle := h.id_le
  -- the entry at the index as the signal has found it
  obtain ⟨first, hfirst, hfirstOwn, hfirstStamp⟩ : ∃ first, ted.ted[index]? = some first ∧
      first.advrouter = ted.routerId ∧ Restamped now first link := by
    by_cases hseen : index ∈ indices
    · obtain ⟨first, middle, hfirst, hfirstOwn, hmiddle, -, hstamp⟩ := h.restamped index hseen
      rw [helem] at hmiddle
      cases hmiddle
      exact ⟨first, hfirst, hfirstOwn, hstamp.trans hrestamped⟩
    · refine ⟨elem, ?_, ?_, hrestamped⟩
      · rw [← h.kept index hseen, helem]
      · rw [hown, h.routerId_eq]
  constructor
  · rw [hrouter, h.routerId_eq]
  · rw [hift, h.ift_eq]
  · rw [haddrs, h.interfaceAddrs_eq]
  · rw [hted, List.length_set, h.length_eq]
  · omega
  · exact hlt
  · intro k hnot
    obtain ⟨hold, hne⟩ : k ∉ indices ∧ k ≠ index := by
      simpa [not_or] using hnot
    rw [hother k hne, h.kept k hold]
  · intro k hmem
    rw [hlinks]
    by_cases hk : k = index
    · rw [hk]
      exact ⟨first, link, hfirst, hfirstOwn, hself, by simp, hfirstStamp⟩
    · have hold : k ∈ indices := by simpa [hk] using hmem
      obtain ⟨elem', link', helem', hown', hlink', hmem', hstamp'⟩ := h.restamped k hold
      rw [← hother k hk] at hlink'
      exact ⟨elem', link', helem', hown', hlink', List.mem_append_left _ hmem', hstamp'⟩
  · intro link' hmem
    rw [hlinks] at hmem
    rcases List.mem_append.mp hmem with hold | hnew
    · obtain ⟨k, hk, elem', last, helem', hstamp', hlast, hle', hgt', hmax'⟩ :=
        h.announced link' hold
      by_cases hindex : k = index
      · subst hindex
        exact ⟨k, List.mem_append_left _ hk, elem', link, helem', hstamp', hself, by omega, hgt',
          by omega⟩
      · rw [← hother k hindex] at hlast
        exact ⟨k, List.mem_append_left _ hk, elem', last, helem', hstamp', hlast, hle', hgt',
          by omega⟩
    · rw [List.mem_singleton.mp hnew]
      exact ⟨index, by simp, first, link, hfirst, hfirstStamp, hself, le_rfl, by omega, by omega⟩
  · rw [hlinks]
    refine List.pairwise_append.mpr ⟨h.ids, List.pairwise_singleton _ _, ?_⟩
    intro link' hold last hlast
    obtain ⟨-, -, -, -, -, -, -, -, -, hmax'⟩ := h.announced link' hold
    rw [List.mem_singleton.mp hlast, hid]
    omega

theorem Signalled.foldlM {more : List ℕ} (h : Signalled now ted indices signalled)
    (hfold : more.foldlM (announceLink now) signalled = .ok result) :
    Signalled now ted (indices ++ more) result := by
  induction more generalizing indices signalled with
  | nil =>
    cases hfold
    rw [append_nil]
    exact h
  | cons index rest ih =>
    rw [foldlM_cons] at hfold
    obtain ⟨middle, hmiddle, hrest⟩ := bind_eq_ok hfold
    have hnext := ih (h.step hmiddle) hrest
    rw [append_assoc] at hnext
    exact hnext

/-- A link announced anew that looks as before. -/
structure Renewed (now : SimTime) (elem link : TeLinkStateInfo) : Prop where
  key_eq : linkRecord.key link = linkRecord.key elem
  view_eq : link.view = elem.view
  sourceId_eq : link.sourceId = elem.sourceId
  timestamp_eq : link.timestamp = now

/-- Attributes of a link that the routing tables do not depend on: it is up, the metric is the same,
and it is reserved beyond its bandwidth or not as before. -/
def LooksTheSame (elem : TeLinkStateInfo) (attributes : LinkAttributes) : Prop :=
  attributes.state = elem.state ∧ attributes.metric = elem.metric ∧
    (attributes.unResvBandwidth[7] < 0 ↔ elem.unResvBandwidth[7] < 0)

instance (elem : TeLinkStateInfo) (attributes : LinkAttributes) :
    Decidable (LooksTheSame elem attributes) := inferInstanceAs (Decidable (_ ∧ _))

theorem view_withAttributes {elem : TeLinkStateInfo} {attributes : LinkAttributes}
    (h : LooksTheSame elem attributes) : (elem.withAttributes attributes).view = elem.view := by
  obtain ⟨hstate, hmetric, hreserved⟩ := h
  simp only [view, withAttributes, hstate, hmetric, hreserved]

/-- What is the case after a change of links, when `links` have been announced. -/
structure Changed (router : LinkStateRouting) (now : SimTime) (links : List TeLinkStateInfo)
    (result : LinkStateRouting × List LinkStatePacket) : Prop where
  routerId_eq : result.1.tedmod.routerId = router.tedmod.routerId
  peerIfAddrs_eq : result.1.peerIfAddrs = router.peerIfAddrs
  announceMsg_eq : result.1.announceMsg = router.announceMsg
  announced_eq : result.1.announced = router.announced ++ links
  keys_eq : result.1.tedmod.ted.map linkRecord.key = router.tedmod.ted.map linkRecord.key
  id_le : router.tedmod.maxMessageId.toNat ≤ result.1.tedmod.maxMessageId.toNat
  id_lt : result.1.tedmod.maxMessageId.toNat < 2 ^ 31
  of_mem : ∀ link ∈ result.1.tedmod.ted, link ∈ router.tedmod.ted ∨ link ∈ links
  kept : ∀ elem ∈ router.tedmod.ted, elem ∈ result.1.tedmod.ted ∨
    elem.advrouter = router.tedmod.routerId ∧ ∃ link ∈ result.1.tedmod.ted, Renewed now elem link ∧
      router.tedmod.maxMessageId.toNat < link.messageId.toNat
  renewed : ∀ link ∈ links, ∃ elem ∈ router.tedmod.ted, elem.advrouter = router.tedmod.routerId ∧
    Renewed now elem link ∧ router.tedmod.maxMessageId.toNat < link.messageId.toNat ∧
    link.messageId.toNat ≤ result.1.tedmod.maxMessageId.toNat
  last : ∀ link ∈ links, ∃ last ∈ result.1.tedmod.ted, last ∈ links ∧
    linkRecord.key last = linkRecord.key link ∧ link.messageId.toNat ≤ last.messageId.toNat
  ids : links.Pairwise fun link link' ↦ link.messageId.toNat < link'.messageId.toNat
  current : router.TableIsCurrent → result.1.TableIsCurrent
  sent : result.2 = result.1.sendToPeers links false 0#32

theorem getElem?_setLinks (links : List TeLinkStateInfo) (indices : List ℕ)
    (attributes : ℕ → LinkAttributes) (k : ℕ) :
    (setLinks links indices attributes)[k]? = links[k]?.map fun link ↦
      if k ∈ indices then link.withAttributes (attributes k) else link :=
  getElem?_mapIdx

/-- The entry at an index before and after other modules have written to it. -/
theorem exists_of_setLinks {links' : List TeLinkStateInfo} {attributes : ℕ → LinkAttributes} {k : ℕ}
    {written link : TeLinkStateInfo}
    (hsame : ∀ k ∈ indices, ∀ elem, links'[k]? = some elem → LooksTheSame elem (attributes k))
    (hwritten : (setLinks links' indices attributes)[k]? = some written) (hk : k ∈ indices)
    (hstamp : Restamped now written link) :
    ∃ elem, links'[k]? = some elem ∧ written.advrouter = elem.advrouter ∧
      Renewed now elem link := by
  rw [getElem?_setLinks] at hwritten
  obtain ⟨elem, helem, hattributes⟩ := Option.map_eq_some_iff.mp hwritten
  rw [if_pos hk] at hattributes
  subst hattributes
  refine ⟨elem, helem, rfl, ?_⟩
  have hview := view_withAttributes (hsame k hk elem helem)
  rw [hstamp]
  exact ⟨rfl, hview, rfl, rfl⟩

theorem getElem?_setLinks_of_notMem {links' : List TeLinkStateInfo}
    {attributes : ℕ → LinkAttributes}
    {k : ℕ} (hk : k ∉ indices) : (setLinks links' indices attributes)[k]? = links'[k]? := by
  rw [getElem?_setLinks]
  simp only [if_neg hk, Option.map_id']

theorem exists_changed {attributes : ℕ → LinkAttributes}
    {result : LinkStateRouting × List LinkStatePacket}
    (hbound : router.tedmod.maxMessageId.toNat < 2 ^ 31)
    (hsame : ∀ k ∈ indices, ∀ elem, router.tedmod.ted[k]? = some elem →
      LooksTheSame elem (attributes k))
    (hok : router.changeLinks now indices attributes = .ok result) :
    ∃ links, Changed router now links result := by
  obtain ⟨announced, hsignal, hok⟩ := bind_eq_ok hok
  obtain ⟨_, -, hsignal⟩ := bind_eq_ok hsignal
  obtain ⟨signalled, hfold, hsignal⟩ := bind_eq_ok hsignal
  obtain ⟨rt, hrt, hok⟩ := bind_eq_ok hok
  cases hsignal
  cases hok
  have hstart : Signalled now
      { router.tedmod with ted := setLinks router.tedmod.ted indices attributes } []
      ({ router.tedmod with ted := setLinks router.tedmod.ted indices attributes }, []) :=
    signalled_nil hbound
  have h := hstart.foldlM hfold
  rw [nil_append] at h
  -- the entries at the indices look as before
  have hrenewed : ∀ k ∈ indices, ∃ elem link, router.tedmod.ted[k]? = some elem ∧
      elem.advrouter = router.tedmod.routerId ∧ signalled.1.ted[k]? = some link ∧
      link ∈ signalled.2 ∧ Renewed now elem link := by
    intro k hk
    obtain ⟨written, link, hwritten, hown, hlink, hmem, hstamp⟩ := h.restamped k hk
    obtain ⟨elem, helem, hadv, hrenew⟩ := exists_of_setLinks hsame hwritten hk hstamp
    exact ⟨elem, link, helem, hadv.symm.trans hown, hlink, hmem, hrenew⟩
  have hkept : ∀ k, k ∉ indices → signalled.1.ted[k]? = router.tedmod.ted[k]? :=
    fun k hk ↦ (h.kept k hk).trans (getElem?_setLinks_of_notMem hk)
  have hmap : ∀ {β : Type} (f : TeLinkStateInfo → β),
      (∀ elem link, Renewed now elem link → f link = f elem) →
      signalled.1.ted.map f = router.tedmod.ted.map f := by
    intro β f hf
    apply ext_getElem?
    intro k
    rw [getElem?_map, getElem?_map]
    by_cases hk : k ∈ indices
    · obtain ⟨elem, link, helem, -, hlink, -, hrenew⟩ := hrenewed k hk
      rw [helem, hlink]
      exact congrArg some (hf elem link hrenew)
    · rw [hkept k hk]
  refine ⟨signalled.2, h.routerId_eq, rfl, rfl, rfl, ?_, h.id_le, h.id_lt, ?_, ?_, ?_, ?_, h.ids,
    ?_, rfl⟩
  · exact hmap linkRecord.key fun elem link hrenew ↦ hrenew.key_eq
  · intro link hmem
    obtain ⟨k, hk⟩ := mem_iff_getElem?.mp hmem
    by_cases hindex : k ∈ indices
    · obtain ⟨-, link', -, -, hlink', hmem', -⟩ := hrenewed k hindex
      rw [hk] at hlink'
      cases hlink'
      exact .inr hmem'
    · rw [hkept k hindex] at hk
      exact .inl (mem_of_getElem? hk)
  · intro elem hmem
    obtain ⟨k, hk⟩ := mem_iff_getElem?.mp hmem
    by_cases hindex : k ∈ indices
    · obtain ⟨elem', link, helem', hown, hlink, hlinks, hrenew⟩ := hrenewed k hindex
      rw [hk] at helem'
      cases helem'
      obtain ⟨-, -, -, -, -, -, -, -, hgt, -⟩ := h.announced link hlinks
      exact .inr ⟨hown, link, mem_of_getElem? hlink, hrenew, hgt⟩
    · rw [← hkept k hindex] at hk
      exact .inl (mem_of_getElem? hk)
  · intro link hmem
    obtain ⟨k, hk, written, last, hwritten, hstamp, -, -, hgt, hle⟩ := h.announced link hmem
    obtain ⟨elem, helem, hadv, hrenew⟩ := exists_of_setLinks hsame hwritten hk hstamp
    obtain ⟨elem', -, helem', hown, -⟩ := hrenewed k hk
    rw [helem] at helem'
    cases helem'
    exact ⟨elem, mem_of_getElem? helem, hown, hrenew, hgt, hle⟩
  · intro link hmem
    obtain ⟨k, hk, written, last, hwritten, hstamp, hlast, hle, -, -⟩ := h.announced link hmem
    obtain ⟨elem, helem, -, hrenew⟩ := exists_of_setLinks hsame hwritten hk hstamp
    obtain ⟨elem', link', helem', -, hlink', hmem', hrenew'⟩ := hrenewed k hk
    rw [hlast] at hlink'
    rw [helem] at helem'
    cases hlink'
    cases helem'
    exact ⟨last, mem_of_getElem? hlast, hmem', hrenew'.key_eq.trans hrenew.key_eq.symm, hle⟩
  · intro hcurrent
    refine tableIsCurrent_rebuildIf hcurrent (fun _ ↦ ⟨?_, ?_, ?_, ?_⟩) hrt
    · exact h.routerId_eq.symm
    · exact h.ift_eq.symm
    · exact h.interfaceAddrs_eq.symm
    · exact (hmap view fun elem link hrenew ↦ hrenew.view_eq).symm

end LinkStateRouting

end Inet4.Ted
