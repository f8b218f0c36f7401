import Inet4.Ted.HostRoutes
import Inet4.Ted.LinkStateSteps

/-!
# Link state flooding converges

In a connected network without parallel links, the databases agree on what was announced last as
soon as every router has made its announcement and no packet is on the way.
-/

namespace Inet4.Ted

open List Function InterfaceEntry LinkStateRouting
open Flooding (Spread Versioned)
open Ipv4 (Ipv4Address)

/-- What a router has announced last of a link. -/
def LinkStateRouting.lastAnnounced (router : LinkStateRouting) (key : Ipv4Address × Ipv4Address) :
    Option TeLinkStateInfo :=
  router.announced.reverse.find? fun link ↦ linkRecord.key link = key

namespace LinkStateNetwork

variable {ι : Type}

/-- The address of a router. -/
def addr (net : LinkStateNetwork ι) (i : ι) : Ipv4Address := (net.router i).tedmod.routerId

/-- The database of a router. -/
def links (net : LinkStateNetwork ι) (i : ι) : List TeLinkStateInfo := (net.router i).tedmod.ted

/-- The links a router advertises itself. -/
def IsOwn (net : LinkStateNetwork ι) (i : ι) (link : TeLinkStateInfo) : Prop :=
  link ∈ net.links i ∧ link.advrouter = net.addr i

/-- A link as it is about, in a database or in a packet. -/
def Holds (net : LinkStateNetwork ι) (link : TeLinkStateInfo) : Prop :=
  (∃ i, link ∈ net.links i) ∨ ∃ pk ∈ net.inFlight, link ∈ pk.linkInfo

/-- A router has a link to another one. -/
def Peer (net : LinkStateNetwork ι) (i j : ι) : Prop :=
  ∃ link, net.IsOwn i link ∧ link.linkid = net.addr j

/-- A link is on the way to a router. -/
def Arriving (net : LinkStateNetwork ι) (i : ι) (link : TeLinkStateInfo) : Prop :=
  ∃ pk ∈ net.inFlight, pk.destAddress = net.addr i ∧ link ∈ pk.linkInfo

/-- A router has made its announcement. -/
def Started (net : LinkStateNetwork ι) (i : ι) : Prop := (net.router i).announceMsg = false

/-- Every link is up for flooding and listed. -/
def IsUp (net : LinkStateNetwork ι) : Prop :=
  ∀ i link, net.IsOwn i link → link.state = true ∧ link.localAddr ∈ (net.router i).peerIfAddrs

def Connected (net : LinkStateNetwork ι) : Prop := ∀ i j, Relation.ReflTransGen net.Peer i j

/-- Routers before their announcements, as `initializeTED` leaves them. -/
structure Initial (net : LinkStateNetwork ι) : Prop where
  ids : Injective net.addr
  specified : ∀ i, net.addr i ≠ 0#32
  own : ∀ i, ∀ link ∈ net.links i, link.advrouter = net.addr i ∧ link.sourceId = net.addr i
  stamped : ∀ i, ∀ link ∈ net.links i,
    link.messageId.toNat ≤ (net.router i).tedmod.maxMessageId.toNat ∧ link.timestamp ≤ net.now
  messageIds : ∀ i, ((net.links i).map TeLinkStateInfo.messageId).Nodup
  bounded : ∀ i, (net.router i).tedmod.maxMessageId.toNat < 2 ^ 31
  up : net.IsUp
  connected : net.Connected
  pending : ∀ i, (net.router i).announceMsg = true
  quiet : net.inFlight = []
  current : ∀ i, (net.router i).TableIsCurrent

/-- No two links lead from one router to another one. -/
def HasNoParallelLinks (net : LinkStateNetwork ι) : Prop :=
  ∀ i, ((net.links i).map TeLinkStateInfo.linkid).Nodup

/-- Announcements that are about, and what the routers have of them. -/
structure Flooded (net : LinkStateNetwork ι) : Prop where
  ids : Injective net.addr
  specified : ∀ i, net.addr i ≠ 0#32
  coherent : Coherent net.Holds
  known : ∀ link, net.Holds link → ∃ i, link.advrouter = net.addr i
  stamped : ∀ link i, net.Holds link → link.advrouter = net.addr i →
    link.messageId.toNat ≤ (net.router i).tedmod.maxMessageId.toNat ∧ link.timestamp ≤ net.now
  bounded : ∀ i, (net.router i).tedmod.maxMessageId.toNat < 2 ^ 31
  up : net.IsUp
  connected : net.Connected
  latest : ∀ link i, net.Holds link → link.advrouter = net.addr i →
    linkRecord.Covers (net.links i) link
  nodup : ∀ i, ((net.links i).map linkRecord.key).Nodup
  sent : ∀ pk ∈ net.inFlight, ∃ i, pk.srcAddress = net.addr i ∧
    ∀ link ∈ pk.linkInfo, linkRecord.Covers (net.links i) link
  spread : Spread linkRecord net.links net.Arriving net.Started net.Peer
  logged : ∀ i, net.Started i → ∀ link, net.IsOwn i link →
    (net.router i).lastAnnounced (linkRecord.key link) = some link
  current : ∀ i, (net.router i).TableIsCurrent

variable {net net' : LinkStateNetwork ι} {i j : ι} {link elem : TeLinkStateInfo}

theorem holds_of_mem (h : link ∈ net.links i) : net.Holds link := .inl ⟨i, h⟩

/-- At the beginning every router has its own links, which nobody has heard of. -/
theorem Initial.flooded (h : net.Initial) (hparallel : net.HasNoParallelLinks) : net.Flooded := by
  have hholds : ∀ link, net.Holds link → ∃ i, link ∈ net.links i := by
    rintro link (hmem | ⟨pk, hpk, -⟩)
    · exact hmem
    · rw [h.quiet] at hpk
      cases hpk
  have hsame : ∀ {link i}, net.Holds link → link.advrouter = net.addr i → link ∈ net.links i := by
    intro link i hlink hadv
    obtain ⟨k, hmem⟩ := hholds link hlink
    rw [(h.own k link hmem).1] at hadv
    rw [← h.ids hadv]
    exact hmem
  have hnodup : ∀ i, ((net.links i).map linkRecord.key).Nodup := by
    intro i
    refine List.Nodup.of_map Prod.snd ?_
    rw [map_map]
    exact hparallel i
  refine ⟨h.ids, h.specified, ⟨?_, ?_, ?_⟩, ?_, ?_, h.bounded, h.up, h.connected, ?_, hnodup, ?_,
    ?_,
    ?_, h.current⟩
  · intro link hlink
    obtain ⟨i, hmem⟩ := hholds link hlink
    obtain ⟨hadv, hsource⟩ := h.own i link hmem
    rw [hadv, hsource]
  · intro link link' hlink hlink' hadv hid
    obtain ⟨i, hmem⟩ := hholds link hlink
    have hown := (h.own i link hmem).1
    have hmem' := hsame hlink' (hadv.symm.trans hown)
    exact inj_on_of_nodup_map (h.messageIds i) hmem hmem' hid
  · intro link link' hlink hlink' hkey
    obtain ⟨i, hmem⟩ := hholds link hlink
    have hown := (h.own i link hmem).1
    have hmem' := hsame hlink' ((key_eq_iff.mp hkey).1.symm.trans hown)
    rw [Versioned.eq_of_key_eq (hnodup i) hmem hmem' hkey]
  · intro link hlink
    obtain ⟨i, hmem⟩ := hholds link hlink
    exact ⟨i, (h.own i link hmem).1⟩
  · exact fun link i hlink hadv ↦ h.stamped i link (hsame hlink hadv)
  · exact fun link i hlink hadv ↦ Versioned.covers_of_mem (hsame hlink hadv)
  · intro pk hpk
    rw [h.quiet] at hpk
    cases hpk
  · intro i m _ hstarted
    rw [Started, h.pending i] at hstarted
    cases hstarted
  · intro i hstarted
    rw [Started, h.pending i] at hstarted
    cases hstarted

/-! ## What one step preserves -/

/-- A step in which router `i` has taken in what has arrived and has announced `fresh`. -/
structure Progress (net : LinkStateNetwork ι) (i : ι) (fresh : List TeLinkStateInfo)
    (net' : LinkStateNetwork ι) : Prop where
  now_eq : net'.now = net.now
  other : ∀ j, j ≠ i → net'.router j = net.router j
  routerId_eq : (net'.router i).tedmod.routerId = (net.router i).tedmod.routerId
  peerIfAddrs_eq : (net'.router i).peerIfAddrs = (net.router i).peerIfAddrs
  id_le : (net.router i).tedmod.maxMessageId.toNat ≤ (net'.router i).tedmod.maxMessageId.toNat
  id_lt : (net'.router i).tedmod.maxMessageId.toNat < 2 ^ 31
  holds : ∀ link, net'.Holds link → net.Holds link ∨ link ∈ fresh
  renewed : ∀ link ∈ fresh, ∃ elem, net.IsOwn i elem ∧ Renewed net.now elem link ∧
    (net.router i).tedmod.maxMessageId.toNat < link.messageId.toNat ∧
    link.messageId.toNat ≤ (net'.router i).tedmod.maxMessageId.toNat
  ids : fresh.Pairwise fun link link' ↦ link.messageId.toNat < link'.messageId.toNat
  grows : linkRecord.Grows (net.links i) (net'.links i)
  covers : ∀ link ∈ fresh, linkRecord.Covers (net'.links i) link
  nodup : ((net.links i).map linkRecord.key).Nodup → ((net'.links i).map linkRecord.key).Nodup
  sent : ∀ pk ∈ net'.inFlight, pk ∈ net.inFlight ∨
    pk.srcAddress = net.addr i ∧ ∀ link ∈ pk.linkInfo, linkRecord.Covers (net'.links i) link
  delivered : ∀ pk ∈ net.inFlight, pk ∈ net'.inFlight ∨
    pk.destAddress = net.addr i ∧ ∀ link ∈ pk.linkInfo, linkRecord.Covers (net'.links i) link
  spread : net'.Started i → ∀ link ∈ net'.links i, net.Started i ∧ link ∈ net.links i ∨
    ∀ m, net'.Peer i m → linkRecord.Covers (net'.links m) link ∨ net'.Arriving m link
  logged : net'.Started i → ∀ link, net'.IsOwn i link →
    (net'.router i).lastAnnounced (linkRecord.key link) = some link
  current : (net'.router i).TableIsCurrent

namespace Progress

variable {fresh : List TeLinkStateInfo}

section

variable (h : Progress net i fresh net')
include h

theorem addr_eq (j : ι) : net'.addr j = net.addr j := by
  by_cases hj : j = i
  · rw [hj]
    exact h.routerId_eq
  · rw [addr, addr, h.other j hj]

theorem links_eq (hj : j ≠ i) : net'.links j = net.links j := by
  rw [links, links, h.other j hj]

/-- No database loses a link or gets an older announcement of it. -/
theorem grows_links (j : ι) : linkRecord.Grows (net.links j) (net'.links j) := by
  by_cases hj : j = i
  · rw [hj]
    exact h.grows
  · rw [h.links_eq hj]
    exact .refl _

/-- New announcements are of own links of the router and have greater ids than all before. -/
theorem fresh_of_holds (hnet : net.Flooded) (hlink : net'.Holds link)
    (hadv : link.advrouter = net.addr j) :
    net.Holds link ∨ j = i ∧ link ∈ fresh := by
  rcases h.holds link hlink with hold | hfresh
  · exact .inl hold
  · obtain ⟨elem, hown, hrenew, -⟩ := h.renewed link hfresh
    have hsame := (key_eq_iff.mp hrenew.key_eq).1
    exact .inr ⟨hnet.ids (hadv.symm.trans (hsame.trans hown.2)), hfresh⟩

theorem id_lt_of_fresh (hnet : net.Flooded) (hold : net.Holds elem) (hfresh : link ∈ fresh)
    (hadv : elem.advrouter = link.advrouter) :
    elem.messageId.toNat < link.messageId.toNat := by
  obtain ⟨own, hown, hrenew, hgt, -⟩ := h.renewed link hfresh
  have hsame := (key_eq_iff.mp hrenew.key_eq).1
  have hle := (hnet.stamped elem i hold (hadv.trans (hsame.trans hown.2))).1
  exact hle.trans_lt hgt

theorem coherent (hnet : net.Flooded) : Coherent net'.Holds where
  source link hlink := by
    rcases h.holds link hlink with hold | hfresh
    · exact hnet.coherent.source link hold
    · obtain ⟨elem, hown, hrenew, -⟩ := h.renewed link hfresh
      rw [hrenew.sourceId_eq, hnet.coherent.source elem (holds_of_mem hown.1),
        (key_eq_iff.mp hrenew.key_eq).1]
  unique link link' hlink hlink' hadv hid := by
    rcases h.holds link hlink with hold | hfresh <;>
      rcases h.holds link' hlink' with hold' | hfresh'
    · exact hnet.coherent.unique link link' hold hold' hadv hid
    · exact absurd (h.id_lt_of_fresh hnet hold hfresh' hadv) (by rw [hid]; exact lt_irrefl _)
    · exact absurd (h.id_lt_of_fresh hnet hold' hfresh hadv.symm) (by rw [hid]; exact lt_irrefl _)
    · have hnodup : (fresh.map TeLinkStateInfo.messageId).Nodup :=
        pairwise_map.mpr (h.ids.imp fun hlt heq ↦ hlt.ne (congrArg BitVec.toNat heq))
      exact inj_on_of_nodup_map hnodup hfresh hfresh' hid
  view link link' hlink hlink' hkey := by
    have hback : ∀ x, net'.Holds x → ∃ y, net.Holds y ∧ linkRecord.key y = linkRecord.key x ∧
        y.view = x.view := by
      intro x hx
      rcases h.holds x hx with hold | hfresh
      · exact ⟨x, hold, rfl, rfl⟩
      · obtain ⟨elem, hown, hrenew, -⟩ := h.renewed x hfresh
        exact ⟨elem, holds_of_mem hown.1, hrenew.key_eq.symm, hrenew.view_eq.symm⟩
    obtain ⟨y, hy, hykey, hyview⟩ := hback link hlink
    obtain ⟨y', hy', hykey', hyview'⟩ := hback link' hlink'
    rw [← hyview, ← hyview']
    exact hnet.coherent.view y y' hy hy' (hykey.trans (hkey.trans hykey'.symm))

/-- The links of a router stay what they are. -/
theorem exists_own (hnet : net.Flooded) (hown : net'.IsOwn j link) :
    ∃ elem, net.IsOwn j elem ∧ linkRecord.key elem = linkRecord.key link ∧ elem.view =
      link.view := by
  obtain ⟨hmem, hadv⟩ := hown
  rw [h.addr_eq] at hadv
  rcases h.fresh_of_holds hnet (holds_of_mem hmem) hadv with hold | ⟨rfl, hfresh⟩
  · obtain ⟨elem, helem, hkey, -⟩ := hnet.latest link j hold hadv
    refine ⟨elem, ⟨helem, (key_eq_iff.mp hkey).1.trans hadv⟩, hkey, ?_⟩
    exact hnet.coherent.view elem link (holds_of_mem helem) hold hkey
  · obtain ⟨elem, helem, hrenew, -⟩ := h.renewed link hfresh
    exact ⟨elem, helem, hrenew.key_eq.symm, hrenew.view_eq.symm⟩

theorem peer_of_peer (hnet : net.Flooded) {m : ι} (hpeer : net'.Peer j m) : net.Peer j m := by
  obtain ⟨link, hown, hlink⟩ := hpeer
  obtain ⟨elem, helem, hkey, -⟩ := h.exists_own hnet hown
  refine ⟨elem, helem, ?_⟩
  rw [(key_eq_iff.mp hkey).2, hlink, h.addr_eq]

theorem connected (hnet : net.Flooded) : net'.Connected := by
  intro j m
  refine Relation.ReflTransGen.mono ?_ j m (hnet.connected j m)
  rintro a b ⟨link, ⟨hmem, hadv⟩, hlink⟩
  obtain ⟨link', hmem', hkey, -⟩ := h.grows_links a link hmem
  obtain ⟨hadv', hlink'⟩ := key_eq_iff.mp hkey
  refine ⟨link', ⟨hmem', ?_⟩, ?_⟩
  · rw [hadv', hadv, h.addr_eq]
  · rw [hlink', hlink, h.addr_eq]

theorem up (hnet : net.Flooded) : net'.IsUp := by
  intro j link hown
  obtain ⟨elem, helem, -, hview⟩ := h.exists_own hnet hown
  obtain ⟨hstate, hlisted⟩ := hnet.up j elem helem
  have hpeers : (net'.router j).peerIfAddrs = (net.router j).peerIfAddrs := by
    by_cases hj : j = i
    · rw [hj]
      exact h.peerIfAddrs_eq
    · rw [h.other j hj]
  constructor
  · exact (congrArg LinkView.state hview).symm.trans hstate
  · have hlocal : elem.localAddr = link.localAddr := congrArg LinkView.localAddr hview
    rw [hpeers, ← hlocal]
    exact hlisted

/-- What is spread stays spread. -/
theorem spread_of_old (hnet : net.Flooded) {m : ι} (hpeer : net'.Peer j m)
    (hstarted : net.Started j) (hmem : link ∈ net.links j) :
    linkRecord.Covers (net'.links m) link ∨
      ∃ link', net'.Arriving m link' ∧ linkRecord.key link' = linkRecord.key link ∧
        linkRecord.version link ≤ linkRecord.version link' := by
  rcases hnet.spread j m (h.peer_of_peer hnet hpeer) hstarted link hmem with
    hcovers | ⟨link', ⟨pk, hpk, hdest, hlink'⟩, hkey, hle⟩
  · exact .inl (hcovers.grows (h.grows_links m))
  · rcases h.delivered pk hpk with hstill | ⟨hhere, hcovers⟩
    · refine .inr ⟨link', ⟨pk, hstill, ?_, hlink'⟩, hkey, hle⟩
      rw [hdest, h.addr_eq]
    · have hm : m = i := hnet.ids (hdest.symm.trans hhere)
      obtain ⟨last, hlast, hkey', hle'⟩ := hcovers link' hlink'
      rw [hm]
      exact .inl ⟨last, hlast, hkey'.trans hkey, hle.trans hle'⟩

theorem flooded (hnet : net.Flooded) : net'.Flooded := by
  have haddr := funext h.addr_eq
  refine ⟨?_, ?_, h.coherent hnet, ?_, ?_, ?_, h.up hnet, h.connected hnet, ?_, ?_, ?_, ?_, ?_, ?_⟩
  · rw [haddr]
    exact hnet.ids
  · rw [haddr]
    exact hnet.specified
  · intro link hlink
    rw [haddr]
    rcases h.holds link hlink with hold | hfresh
    · exact hnet.known link hold
    · obtain ⟨elem, hown, hrenew, -⟩ := h.renewed link hfresh
      exact ⟨i, (key_eq_iff.mp hrenew.key_eq).1.trans hown.2⟩
  · intro link j hlink hadv
    rw [h.addr_eq] at hadv
    rw [h.now_eq]
    rcases h.fresh_of_holds hnet hlink hadv with hold | ⟨rfl, hfresh⟩
    · obtain ⟨hle, hnow⟩ := hnet.stamped link j hold hadv
      refine ⟨?_, hnow⟩
      by_cases hj : j = i
      · rw [hj] at hle ⊢
        exact hle.trans h.id_le
      · rw [h.other j hj]
        exact hle
    · obtain ⟨elem, -, hrenew, -, hle⟩ := h.renewed link hfresh
      exact ⟨hle, hrenew.timestamp_eq.le⟩
  · intro j
    by_cases hj : j = i
    · rw [hj]
      exact h.id_lt
    · rw [h.other j hj]
      exact hnet.bounded j
  · intro link j hlink hadv
    rw [h.addr_eq] at hadv
    rcases h.fresh_of_holds hnet hlink hadv with hold | ⟨rfl, hfresh⟩
    · exact (hnet.latest link j hold hadv).grows (h.grows_links j)
    · exact h.covers link hfresh
  · intro j
    by_cases hj : j = i
    · rw [hj]
      exact h.nodup (hnet.nodup i)
    · rw [h.links_eq hj]
      exact hnet.nodup j
  · intro pk hpk
    rw [haddr]
    rcases h.sent pk hpk with hold | ⟨hsrc, hcovers⟩
    · obtain ⟨j, hsrc, hcovers⟩ := hnet.sent pk hold
      exact ⟨j, hsrc, fun link hmem ↦ (hcovers link hmem).grows (h.grows_links j)⟩
    · exact ⟨i, hsrc, hcovers⟩
  · intro j m hpeer hstarted link hmem
    by_cases hj : j = i
    · subst hj
      rcases h.spread hstarted link hmem with ⟨hbefore, hold⟩ | hnew
      · exact h.spread_of_old hnet hpeer hbefore hold
      · exact (hnew m hpeer).imp_right fun harriving ↦ ⟨link, harriving, rfl, le_rfl⟩
    · rw [Started, h.other j hj] at hstarted
      rw [h.links_eq hj] at hmem
      exact h.spread_of_old hnet hpeer hstarted hmem
  · intro j hstarted link hown
    by_cases hj : j = i
    · subst hj
      exact h.logged hstarted link hown
    · obtain ⟨hmem, hadv⟩ := hown
      rw [h.links_eq hj] at hmem
      rw [h.addr_eq] at hadv
      rw [Started, h.other j hj] at hstarted
      rw [h.other j hj]
      exact hnet.logged j hstarted link ⟨hmem, hadv⟩
  · intro j
    by_cases hj : j = i
    · rw [hj]
      exact h.current
    · rw [h.other j hj]
      exact hnet.current j

end

end Progress

/-! ## The log of a router -/

section Log

variable {router router' : LinkStateRouting} {log before after : List TeLinkStateInfo}
variable {key : Ipv4Address × Ipv4Address}

theorem lastAnnounced_of_append (h : router.announced = log ++ (before ++ link :: after))
    (hafter : ∀ x ∈ after, linkRecord.key x ≠ linkRecord.key link) :
    router.lastAnnounced (linkRecord.key link) = some link := by
  have hnone : after.reverse.find? (fun x ↦ linkRecord.key x = linkRecord.key link) = none := by
    apply find?_eq_none.mpr
    intro x hmem
    simpa using hafter x (mem_reverse.mp hmem)
  rw [lastAnnounced, h, reverse_append, reverse_append,
    reverse_cons, find?_append, find?_append, find?_append, hnone]
  simp

theorem lastAnnounced_append_of_notMem (h : router'.announced = router.announced ++ after)
    (hafter : ∀ x ∈ after, linkRecord.key x ≠ key) :
    router'.lastAnnounced key = router.lastAnnounced key := by
  have hnone : after.reverse.find? (fun x ↦ linkRecord.key x = key) = none := by
    apply find?_eq_none.mpr
    intro x hmem
    simpa using hafter x (mem_reverse.mp hmem)
  rw [lastAnnounced, h, reverse_append, find?_append, hnone]
  rfl

end Log

/-! ## The kinds of steps -/

theorem mem_eraseIdx_of_ne {α : Type} {xs : List α} {k : ℕ} {x y : α} (hx : xs[k]? = some x)
    (hy : y ∈ xs) (hne : y ≠ x) : y ∈ xs.eraseIdx k := by
  obtain ⟨j, hj⟩ := mem_iff_getElem?.mp hy
  refine mem_eraseIdx_iff_getElem?.mpr ⟨j, ?_, hj⟩
  rintro rfl
  rw [hx] at hj
  exact hne (Option.some.inj hj).symm

theorem version_le_of_timestamp_eq (htime : elem.timestamp = link.timestamp)
    (hid : elem.messageId.toNat ≤ link.messageId.toNat) :
    linkRecord.version elem ≤ linkRecord.version link :=
  Prod.Lex.toLex_le_toLex.mpr (.inr ⟨htime, hid⟩)

/-- A router sends over its links to all peers but one. -/
theorem Flooded.sendsOver (h : net.Flooded) {router : LinkStateRouting} {exceptPeer : Ipv4Address}
    (hid : router.tedmod.routerId = net.addr i)
    (hpeers : router.peerIfAddrs = (net.router i).peerIfAddrs) (hown : net.IsOwn i elem)
    (hview : elem.view = link.view) (hexcept : link.linkid ≠ exceptPeer) :
    router.SendsOver exceptPeer link := by
  obtain ⟨hstate, hlisted⟩ := h.up i elem hown
  have hadv : elem.advrouter = link.advrouter := congrArg LinkView.advrouter hview
  have hlocal : elem.localAddr = link.localAddr := congrArg LinkView.localAddr hview
  have hup : elem.state = link.state := congrArg LinkView.state hview
  refine ⟨?_, hexcept, ?_, ?_⟩
  · rw [← hadv, hown.2, hid]
  · rw [← hup, hstate]
  · rw [hpeers, ← hlocal]
    exact hlisted

theorem Flooded.advance (h : net.Flooded) {time : SimTime} (hle : net.now ≤ time) :
    ({ net with now := time } : LinkStateNetwork ι).Flooded where
  ids := h.ids
  specified := h.specified
  coherent := h.coherent
  known := h.known
  stamped link i hlink hadv :=
    ⟨(h.stamped link i hlink hadv).1, (h.stamped link i hlink hadv).2.trans hle⟩
  bounded := h.bounded
  up := h.up
  connected := h.connected
  latest := h.latest
  nodup := h.nodup
  sent := h.sent
  spread := h.spread
  logged := h.logged
  current := h.current

/-- Links that other modules change stay up, and look the same to `rebuildRoutingTable`. -/
def Steady (net : LinkStateNetwork ι) : LinkStateEvent ι → Prop
  | .changeLinks i indices attributes => ∀ k ∈ indices, ∀ elem ∈ (net.links i)[k]?,
      LooksTheSame elem (attributes k)
  | _ => True

instance (net : LinkStateNetwork ι) (event : LinkStateEvent ι) : Decidable (net.Steady event) :=
  match event with
  | .announce _ | .deliver .. | .advance _ => isTrue trivial
  | .changeLinks .. => inferInstanceAs (Decidable (∀ _ ∈ _, _))

/-- Databases only get newer announcements. -/
def Improves (net net' : LinkStateNetwork ι) : Prop :=
  ∀ i, linkRecord.Grows (net.links i) (net'.links i)

section Steps

variable [DecidableEq ι] {result : LinkStateRouting × List LinkStatePacket}

theorem router_after_self (net : LinkStateNetwork ι) (i : ι)
    (result : LinkStateRouting × List LinkStatePacket) :
    (net.after i result).router i = result.1 := by
  change update net.router i result.1 i = result.1
  rw [update_self]

theorem router_after_of_ne (net : LinkStateNetwork ι)
    (result : LinkStateRouting × List LinkStatePacket) (hj : j ≠ i) :
    (net.after i result).router j = net.router j := by
  change update net.router i result.1 j = net.router j
  rw [update_of_ne hj]

/-- What is about after a router has handled an event. -/
theorem holds_after (h : (net.after i result).Holds link) :
    net.Holds link ∨ link ∈ result.1.tedmod.ted ∨ ∃ pk ∈ result.2, link ∈ pk.linkInfo := by
  rcases h with ⟨j, hmem⟩ | ⟨pk, hpk, hmem⟩
  · by_cases hj : j = i
    · subst hj
      rw [links, router_after_self] at hmem
      exact .inr (.inl hmem)
    · rw [links, router_after_of_ne net result hj] at hmem
      exact .inl (holds_of_mem hmem)
  · rcases mem_append.mp hpk with hold | hnew
    · exact .inl (.inr ⟨pk, hold, hmem⟩)
    · exact .inr (.inr ⟨pk, hnew, hmem⟩)

theorem Flooded.announce (h : net.Flooded) (i : ι) :
    Progress net i [] (net.after i (net.router i).announce) := by
  have hself := router_after_self net i (net.router i).announce
  have hlinks : (net.after i (net.router i).announce).links i = net.links i := by
    rw [links, hself]
    rfl
  have haddr : (net.after i (net.router i).announce).addr i = net.addr i := by
    rw [addr, hself]
    rfl
  have hnew : ∀ pk ∈ (net.router i).announce.2, ∃ elem ∈ net.links i,
      (net.router i).SendsOver 0#32 elem ∧
        pk = (net.router i).sendToPeer elem.linkid (net.links i) true := by
    intro pk hpk
    obtain ⟨elem, hmem, hover, heq⟩ := mem_sendToPeers.mp hpk
    exact ⟨elem, hmem, hover, heq.symm⟩
  constructor
  · rfl
  · exact fun j hj ↦ router_after_of_ne net _ hj
  · rw [hself]
    rfl
  · rw [hself]
    rfl
  · rw [hself]
    exact le_rfl
  · rw [hself]
    exact h.bounded i
  · intro link hlink
    rcases holds_after hlink with hold | hmem | ⟨pk, hpk, hmem⟩
    · exact .inl hold
    · exact .inl (holds_of_mem hmem)
    · obtain ⟨elem, -, -, rfl⟩ := hnew pk hpk
      exact .inl (holds_of_mem hmem)
  · exact fun link hmem ↦ by cases hmem
  · exact .nil
  · rw [hlinks]
    exact .refl _
  · exact fun link hmem ↦ by cases hmem
  · rw [hlinks]
    exact id
  · intro pk hpk
    rw [hlinks]
    rcases mem_append.mp hpk with hold | hadded
    · exact .inl hold
    · obtain ⟨elem, -, -, rfl⟩ := hnew pk hadded
      exact .inr ⟨rfl, fun link hmem ↦ Versioned.covers_of_mem hmem⟩
  · exact fun pk hpk ↦ .inl (mem_append_left _ hpk)
  · intro _ link hmem
    rw [hlinks] at hmem
    refine .inr fun m hpeer ↦ .inr ?_
    obtain ⟨elem, ⟨hmem', hadv⟩, hlink⟩ := hpeer
    rw [hlinks] at hmem'
    rw [haddr] at hadv
    have hm : (net.after i (net.router i).announce).addr m ≠ 0#32 := by
      by_cases heq : m = i
      · rw [heq, haddr]
        exact h.specified i
      · rw [addr, router_after_of_ne net _ heq]
        exact h.specified m
    have hover : (net.router i).SendsOver 0#32 elem :=
      h.sendsOver rfl rfl ⟨hmem', hadv⟩ rfl (by rw [hlink]; exact hm)
    refine ⟨_, mem_append_right _ (mem_sendToPeers.mpr
      ⟨elem, hmem', hover, rfl⟩), hlink, hmem⟩
  · intro _ link hown
    obtain ⟨hmem, -⟩ := hown
    rw [hlinks] at hmem
    obtain ⟨before, after, hsplit⟩ := append_of_mem hmem
    have hlog : (net.router i).announce.1.announced =
        (net.router i).announced ++ (before ++ link :: after) := by
      rw [← hsplit]
      rfl
    rw [hself]
    apply lastAnnounced_of_append hlog
    intro x hx hkey
    have hnodup := h.nodup i
    rw [hsplit, map_append] at hnodup
    refine (nodup_cons.mp (List.Nodup.of_append_right hnodup)).1 ?_
    rw [← hkey]
    exact mem_map_of_mem hx
  · rw [hself]
    exact h.current i

theorem Flooded.deliver (h : net.Flooded) {position : ℕ} {pk : LinkStatePacket}
    {forward : List TeLinkStateInfo} (hpk : net.inFlight[position]? = some pk)
    (hdest : pk.destAddress = net.addr i)
    (hprocessed : Processed (net.router i) pk forward result) :
    Progress net i []
      ({ net with inFlight := net.inFlight.eraseIdx position }.after i result) := by
  generalize hnet' :
    ({ net with inFlight := net.inFlight.eraseIdx position } : LinkStateNetwork ι).after i result =
    net'
  have hself : net'.router i = result.1 := by
    rw [← hnet', router_after_self]
  have hother : ∀ j, j ≠ i → net'.router j = net.router j := by
    intro j hj
    rw [← hnet', router_after_of_ne _ result hj]
  have hlinks : net'.links i = result.1.tedmod.ted := congrArg (fun r ↦ r.tedmod.ted) hself
  have hid : (net'.router i).tedmod.routerId = (net.router i).tedmod.routerId := by
    rw [hself, hprocessed.tedmod_eq]
  have hmax : (net'.router i).tedmod.maxMessageId = (net.router i).tedmod.maxMessageId := by
    rw [hself, hprocessed.tedmod_eq]
  have hinFlight : net'.inFlight = net.inFlight.eraseIdx position ++ result.2 := by
    rw [← hnet']
    rfl
  have hmem : pk ∈ net.inFlight := mem_of_getElem? hpk
  have hforward : ∀ link ∈ forward, net.Holds link :=
    fun link hlink ↦ .inr ⟨pk, hmem, hprocessed.taken.mem link hlink⟩
  have htaken : ∀ link ∈ net'.links i, link ∈ net.links i ∨ link ∈ forward := by
    rw [hlinks]
    exact hprocessed.taken.of_mem
  have hgrows : linkRecord.Grows (net.links i) (net'.links i) := by
    rw [hlinks]
    exact hprocessed.taken.grows
  have hcovers : ∀ link ∈ pk.linkInfo, linkRecord.Covers (net'.links i) link := by
    rw [hlinks]
    exact hprocessed.taken.covers
  have hholds : ∀ link, net'.Holds link → net.Holds link := by
    intro link hlink
    have hdb : ∀ link ∈ result.1.tedmod.ted, net.Holds link := by
      intro link hlink
      rw [← hlinks] at hlink
      rcases htaken link hlink with hold | hnew
      · exact holds_of_mem hold
      · exact hforward link hnew
    rw [← hnet'] at hlink
    rcases holds_after hlink with (hold | ⟨q, hq, hmemq⟩) | hin | ⟨q, hq, hmemq⟩
    · exact .inl hold
    · exact .inr ⟨q, mem_of_mem_eraseIdx hq, hmemq⟩
    · exact hdb link hin
    · rcases (hprocessed.sent q hq).2 with heq | heq
      · exact hdb link (heq ▸ hmemq)
      · exact hforward link (heq ▸ hmemq)
  have hnodup : ((net'.links i).map linkRecord.key).Nodup := by
    rw [hlinks]
    exact hprocessed.taken.nodup (h.nodup i)
  -- the router's own links are as they were
  have hown : ∀ link, net'.IsOwn i link → net.IsOwn i link := by
    rintro link ⟨hlink, hadv⟩
    have hadv' : link.advrouter = net.addr i := hadv.trans hid
    obtain ⟨own, hownMem, hkey, hle⟩ := h.latest link i (hholds link (holds_of_mem hlink)) hadv'
    obtain ⟨last, hlast, hkey', hle'⟩ := hgrows own hownMem
    have hsame := Versioned.eq_of_key_eq hnodup hlast hlink (hkey'.trans hkey)
    rw [hsame] at hle'
    have heq := h.coherent.determined own link (holds_of_mem hownMem)
      (hholds link (holds_of_mem hlink)) hkey (le_antisymm hle' hle)
    rw [← heq] at hadv' ⊢
    exact ⟨hownMem, hadv'⟩
  constructor
  · rw [← hnet']
    rfl
  · exact hother
  · exact hid
  · rw [hself, hprocessed.peerIfAddrs_eq]
  · rw [hmax]
  · rw [hmax]
    exact h.bounded i
  · exact fun link hlink ↦ .inl (hholds link hlink)
  · exact fun link hlink ↦ by cases hlink
  · exact .nil
  · exact hgrows
  · exact fun link hlink ↦ by cases hlink
  · exact fun _ ↦ hnodup
  · intro q hq
    rw [hinFlight] at hq
    rcases mem_append.mp hq with hold | hnew
    · exact .inl (mem_of_mem_eraseIdx hold)
    · obtain ⟨hsrc, heq⟩ := hprocessed.sent q hnew
      refine .inr ⟨hsrc, ?_⟩
      intro link hlink
      rcases heq with heq | heq
      · rw [heq, ← hlinks] at hlink
        exact Versioned.covers_of_mem hlink
      · rw [heq] at hlink
        exact hcovers link (hprocessed.taken.mem link hlink)
  · intro q hq
    by_cases hqpk : q = pk
    · rw [hqpk]
      exact .inr ⟨hdest, hcovers⟩
    · refine .inl ?_
      rw [hinFlight]
      exact mem_append_left _ (mem_eraseIdx_of_ne hpk hq hqpk)
  · intro hstarted link hlink
    rcases htaken link hlink with hold | hnew
    · refine .inl ⟨?_, hold⟩
      rw [Started, hself, hprocessed.announceMsg_eq] at hstarted
      exact hstarted
    · refine .inr fun m hpeer ↦ ?_
      obtain ⟨sender, hsrc, hsender⟩ := h.sent pk hmem
      obtain ⟨elem, helem, hto⟩ := hpeer
      by_cases hm : m = sender
      · -- the sender has what it has sent
        refine .inl ?_
        rw [hm]
        have hhas := hsender link (hprocessed.taken.mem link hnew)
        by_cases hi : sender = i
        · rw [hi] at hhas ⊢
          exact hhas.grows hgrows
        · rw [links, hother sender hi]
          exact hhas
      · have hne : elem.linkid ≠ pk.srcAddress := by
          rw [hto, hsrc]
          by_cases hi : m = i
          · intro heq
            rw [hi] at heq hm
            exact hm (h.ids (hid.symm.trans heq))
          · intro heq
            rw [addr, hother m hi] at heq
            exact hm (h.ids heq)
        have hadvance : forward ≠ [] := ne_nil_of_mem hnew
        have hover := h.sendsOver (hself ▸ hid) hprocessed.peerIfAddrs_eq (hown elem helem) rfl hne
        have hdb : elem ∈ result.1.tedmod.ted := hlinks ▸ helem.1
        obtain ⟨q, hq, hqdest, hqlinks⟩ := hprocessed.sends hadvance elem hdb hover
        refine .inr ⟨q, ?_, hqdest.trans hto, hqlinks ▸ hnew⟩
        rw [hinFlight]
        exact mem_append_right _ hq
  · intro hstarted link hlink
    rw [Started, hself, hprocessed.announceMsg_eq] at hstarted
    rw [hself, lastAnnounced, hprocessed.announced_eq]
    exact h.logged i hstarted link (hown link hlink)
  · rw [hself]
    exact hprocessed.current (h.current i)

theorem Flooded.changeLinks (h : net.Flooded) {fresh : List TeLinkStateInfo}
    (hchanged : Changed (net.router i) net.now fresh result) :
    Progress net i fresh (net.after i result) := by
  generalize hnet' : net.after i result = net'
  have hself : net'.router i = result.1 := by
    rw [← hnet', router_after_self]
  have hother : ∀ j, j ≠ i → net'.router j = net.router j := by
    intro j hj
    rw [← hnet', router_after_of_ne _ result hj]
  have hlinks : net'.links i = result.1.tedmod.ted := congrArg (fun r ↦ r.tedmod.ted) hself
  have hid : net'.addr i = net.addr i := by
    rw [addr, hself, hchanged.routerId_eq]
    rfl
  have hinFlight : net'.inFlight = net.inFlight ++ result.2 := by
    rw [← hnet']
    rfl
  have hnodup : ((net'.links i).map linkRecord.key).Nodup := by
    rw [hlinks, hchanged.keys_eq]
    exact h.nodup i
  have hof : ∀ link ∈ net'.links i, link ∈ net.links i ∨ link ∈ fresh := by
    rw [hlinks]
    exact hchanged.of_mem
  have htime : ∀ link ∈ fresh, link.timestamp = net.now := by
    intro link hlink
    obtain ⟨elem, -, -, hrenew, -⟩ := hchanged.renewed link hlink
    exact hrenew.timestamp_eq
  have hcovers : ∀ link ∈ fresh, linkRecord.Covers (net'.links i) link := by
    intro link hlink
    obtain ⟨last, hlast, hfresh, hkey, hle⟩ := hchanged.last link hlink
    rw [hlinks]
    refine ⟨last, hlast, hkey, version_le_of_timestamp_eq ?_ hle⟩
    rw [htime link hlink, htime last hfresh]
  have hsent : ∀ pk ∈ result.2, pk.srcAddress = net.addr i ∧ pk.linkInfo = fresh := by
    intro pk hpk
    rw [hchanged.sent] at hpk
    obtain ⟨elem, -, -, rfl⟩ := mem_sendToPeers.mp hpk
    exact ⟨hchanged.routerId_eq, rfl⟩
  constructor
  · rw [← hnet']
    rfl
  · exact hother
  · exact hid
  · rw [hself, hchanged.peerIfAddrs_eq]
  · rw [hself]
    exact hchanged.id_le
  · rw [hself]
    exact hchanged.id_lt
  · intro link hlink
    rw [← hnet'] at hlink
    rcases holds_after hlink with hold | hin | ⟨pk, hpk, hmem⟩
    · exact .inl hold
    · exact (hchanged.of_mem link hin).imp_left holds_of_mem
    · rw [(hsent pk hpk).2] at hmem
      exact .inr hmem
  · intro link hlink
    obtain ⟨elem, hmem, hadv, hrenew, hgt, hle⟩ := hchanged.renewed link hlink
    rw [hself]
    exact ⟨elem, ⟨hmem, hadv⟩, hrenew, hgt, hle⟩
  · exact hchanged.ids
  · intro elem hmem
    rw [hlinks]
    rcases hchanged.kept elem hmem with hkept | ⟨hadv, link, hlink, hrenew, hgt⟩
    · exact Versioned.covers_of_mem hkept
    · obtain ⟨hle, hnow⟩ := h.stamped elem i (holds_of_mem hmem) hadv
      refine ⟨link, hlink, hrenew.key_eq, Prod.Lex.toLex_le_toLex.mpr ?_⟩
      rw [← hrenew.timestamp_eq] at hnow
      exact hnow.lt_or_eq.imp_right fun heq ↦ ⟨heq, (hle.trans_lt hgt).le⟩
  · exact hcovers
  · exact fun _ ↦ hnodup
  · intro pk hpk
    rw [hinFlight] at hpk
    rcases mem_append.mp hpk with hold | hnew
    · exact .inl hold
    · obtain ⟨hsrc, heq⟩ := hsent pk hnew
      exact .inr ⟨hsrc, heq ▸ hcovers⟩
  · intro pk hpk
    rw [hinFlight]
    exact .inl (mem_append_left _ hpk)
  · intro hstarted link hlink
    rcases hof link hlink with hold | hnew
    · refine .inl ⟨?_, hold⟩
      rw [Started, hself, hchanged.announceMsg_eq] at hstarted
      exact hstarted
    · refine .inr fun m hpeer ↦ .inr ?_
      obtain ⟨elem, ⟨hmem, hadv⟩, hto⟩ := hpeer
      obtain ⟨own, hown, hview⟩ : ∃ own, net.IsOwn i own ∧ own.view = elem.view := by
        rcases hof elem hmem with hold | hfresh
        · exact ⟨elem, ⟨hold, hadv.trans hid⟩, rfl⟩
        · obtain ⟨own, hown, hadv', hrenew, -⟩ := hchanged.renewed elem hfresh
          exact ⟨own, ⟨hown, hadv'⟩, hrenew.view_eq.symm⟩
      have hne : elem.linkid ≠ 0#32 := by
        rw [hto]
        by_cases hm : m = i
        · rw [hm, hid]
          exact h.specified i
        · rw [addr, hother m hm]
          exact h.specified m
      have hover : result.1.SendsOver 0#32 elem :=
        h.sendsOver hchanged.routerId_eq hchanged.peerIfAddrs_eq hown hview hne
      refine ⟨result.1.sendToPeer elem.linkid fresh false, ?_, hto, hnew⟩
      rw [hinFlight, hchanged.sent]
      rw [hlinks] at hmem
      exact mem_append_right _ (mem_sendToPeers.mpr ⟨elem, hmem, hover, rfl⟩)
  · intro hstarted link hown
    rw [hself]
    have hlast : ∀ x ∈ fresh, linkRecord.key x = linkRecord.key link →
        link ∈ fresh ∧ x.messageId.toNat ≤ link.messageId.toNat := by
      intro x hx hkey
      obtain ⟨last, hmem, hfresh, hkey', hle⟩ := hchanged.last x hx
      rw [← hlinks] at hmem
      rw [← Versioned.eq_of_key_eq hnodup hmem hown.1 (hkey'.trans hkey)]
      exact ⟨hfresh, hle⟩
    by_cases hfresh : link ∈ fresh
    · obtain ⟨before, after, hsplit⟩ := append_of_mem hfresh
      have hlog : result.1.announced = (net.router i).announced ++ (before ++ link :: after) := by
        rw [hchanged.announced_eq, hsplit]
      apply lastAnnounced_of_append hlog
      intro x hx hkey
      have hids := hchanged.ids
      rw [hsplit] at hids
      have hlt := (pairwise_cons.mp (pairwise_append.mp hids).2.1).1 x hx
      have hxfresh : x ∈ fresh := by
        rw [hsplit]
        exact mem_append_right _ (mem_cons_of_mem link hx)
      exact absurd (hlast x hxfresh hkey).2 hlt.not_ge
    · rw [lastAnnounced_append_of_notMem hchanged.announced_eq
        fun x hx hkey ↦ hfresh (hlast x hx hkey).1]
      rw [Started, hself, hchanged.announceMsg_eq] at hstarted
      exact h.logged i hstarted link
        ⟨(hof link hown.1).resolve_right hfresh, hown.2.trans hid⟩
  · rw [hself]
    exact hchanged.current (h.current i)

/-! ## Runs -/

/-- One step. -/
theorem Flooded.step (h : net.Flooded) {event : LinkStateEvent ι}
    (hstep : (machine ι).Step net event net') (hsteady : net.Steady event) :
    net'.Flooded ∧ net.Improves net' := by
  obtain ⟨henabled, hhandle⟩ := hstep
  cases event with
  | announce i =>
    cases hhandle
    have hprogress := h.announce i
    exact ⟨hprogress.flooded h, hprogress.grows_links⟩
  | deliver i position =>
    change LinkStateNetwork.handle net (.deliver i position) = .ok net' at hhandle
    rw [LinkStateNetwork.handle] at hhandle
    split at hhandle
    · cases hhandle
    · rename_i pk hpk
      obtain ⟨result, hresult, rfl⟩ := bind_pure_eq_ok hhandle
      have hdest : net.inFlight[position]?.map LinkStatePacket.destAddress = some (net.addr i) :=
        henabled
      rw [hpk] at hdest
      obtain ⟨forward, hprocessed⟩ := exists_processed h.coherent
        (fun elem hmem ↦ holds_of_mem hmem)
        (fun link hmem ↦ .inr ⟨pk, mem_of_getElem? hpk, hmem⟩) hresult
      have hprogress := h.deliver hpk (Option.some.inj hdest) hprocessed
      exact ⟨hprogress.flooded h, hprogress.grows_links⟩
  | changeLinks i indices attributes =>
    obtain ⟨result, hresult, rfl⟩ := bind_pure_eq_ok hhandle
    obtain ⟨fresh, hchanged⟩ := exists_changed (h.bounded i) hsteady hresult
    have hprogress := h.changeLinks hchanged
    exact ⟨hprogress.flooded h, hprogress.grows_links⟩
  | advance time =>
    cases hhandle
    exact ⟨h.advance henabled, fun i ↦ .refl _⟩

/-- Whole runs. -/
theorem Flooded.run (h : net.Flooded) {events : List (LinkStateEvent ι)}
    (hrun : ((machine ι).restrict Steady).Run net events net') :
    net'.Flooded ∧ net.Improves net' := by
  induction hrun with
  | nil => exact ⟨h, fun i ↦ .refl _⟩
  | cons hstep _ ih =>
    obtain ⟨hstep, hsteady⟩ := Machine.step_restrict_iff.mp hstep
    obtain ⟨hmiddle, hfirst⟩ := h.step hstep hsteady
    obtain ⟨hlast, hrest⟩ := ih hmiddle
    exact ⟨hlast, fun i ↦ (hfirst i).trans (hrest i)⟩

end Steps

/-- No announcement is pending and no packet is on the way. -/
def Quiet (net : LinkStateNetwork ι) : Prop := (∀ i, net.Started i) ∧ net.inFlight = []

/-- All databases have the same links, each of them once and as it was announced last. -/
structure Agrees (net : LinkStateNetwork ι) : Prop where
  mem_iff : ∀ i j link, link ∈ net.links i ↔ link ∈ net.links j
  nodup : ∀ i, ((net.links i).map linkRecord.key).Nodup
  latest : ∀ i, ∀ link ∈ net.links i, ∃ k, link.advrouter = net.addr k ∧
    (net.router k).lastAnnounced (linkRecord.key link) = some link

theorem Flooded.agrees (h : net.Flooded) (hquiet : net.Quiet) : net.Agrees := by
  obtain ⟨hstarted, hempty⟩ := hquiet
  have hnone : ∀ m link, ¬net.Arriving m link := by
    rintro m link ⟨pk, hpk, -⟩
    rw [hempty] at hpk
    cases hpk
  have hsame : ∀ i j link, link ∈ net.links i ↔ link ∈ net.links j := fun i j link ↦
    h.spread.mem_iff h.coherent.determined (fun i link hmem ↦ holds_of_mem hmem) h.nodup hstarted
      hnone h.connected i j
  refine ⟨hsame, h.nodup, ?_⟩
  intro i link hmem
  obtain ⟨k, hadv⟩ := h.known link (holds_of_mem hmem)
  exact ⟨k, hadv, h.logged k (hstarted k) link ⟨(hsame i k link).mp hmem, hadv⟩⟩

/-- Flooding converges where no links are parallel and changes of links look the same. -/
theorem flooding_converges [DecidableEq ι] {start net net' : LinkStateNetwork ι}
    {events events' : List (LinkStateEvent ι)} (hinitial : start.Initial)
    (hparallel : start.HasNoParallelLinks)
    (hrun : ((machine ι).restrict Steady).Run start events net)
    (hrun' : ((machine ι).restrict Steady).Run net events' net') :
    (net.Quiet → net.Agrees) ∧ start.Improves net ∧ net.Improves net' ∧
      ∀ i, (net.router i).TableIsCurrent := by
  obtain ⟨hflooded, hgrown⟩ := (hinitial.flooded hparallel).run hrun
  exact ⟨hflooded.agrees, hgrown, (hflooded.run hrun').2, hflooded.current⟩

/-! ## Two routers -/

instance (net : LinkStateNetwork Bool) : Decidable net.Quiet :=
  inferInstanceAs (Decidable ((∀ i, (net.router i).announceMsg = false) ∧ _ = _))

/-- A router whose interfaces all lead to one other router. -/
def endpoint (own peer : Ipv4Address) (ift : InterfaceTable) : LinkStateRouting :=
  let addrs := ift.interfaces.map address
  let tedmod : Ted :=
    { ted := addrs.mapIdx fun i localAddr ↦
        { Ted.link own peer localAddr 0 with sourceId := own, messageId := BitVec.ofNat 32 (i + 1) }
      routerId := own
      ift := ift
      interfaceAddrs := addrs
      interfaceAddrs_sublist := List.Sublist.refl addrs
      maxMessageId := BitVec.ofNat 32 addrs.length }
  { tedmod := tedmod
    rt := (tedmod.rebuildRoutingTable {}).toOption.getD {}
    peerIfAddrs := addrs
    announceMsg := true
    announced := [] }

/-- Two routers with links between them, before their announcements. -/
def pair (ift ift' : InterfaceTable) : LinkStateNetwork Bool where
  router i := if i then endpoint 2 1 ift' else endpoint 1 2 ift
  inFlight := []
  now := 0

variable (localAddr : Ipv4Address)

theorem oneInterface_ids :
    ([⟨101, localAddr⟩] : List InterfaceEntry).map interfaceId |>.Nodup :=
  nodup_singleton 101

theorem oneInterface_addresses :
    ([⟨101, localAddr⟩] : List InterfaceEntry).map address |>.Nodup :=
  nodup_singleton localAddr

def oneInterface (hspecified : localAddr ≠ 0#32) : InterfaceTable where
  interfaces := [⟨101, localAddr⟩]
  ids_nodup := oneInterface_ids localAddr
  addresses_nodup := oneInterface_addresses localAddr
  specified := forall_mem_singleton.mpr hspecified

theorem tableIsCurrent_endpoint {own peer : Ipv4Address} {ift : InterfaceTable}
    (h : ((endpoint own peer ift).tedmod.rebuildRoutingTable {}).toOption.isSome) :
    (endpoint own peer ift).TableIsCurrent := by
  refine ⟨{}, ?_⟩
  change _ = Except.ok (((endpoint own peer ift).tedmod.rebuildRoutingTable {}).toOption.getD {})
  cases hrebuild : (endpoint own peer ift).tedmod.rebuildRoutingTable {} with
  | error fault =>
    rw [hrebuild] at h
    cases h
  | ok rt => rfl

theorem connected_pair {ift ift' : InterfaceTable} (hpeer : (pair ift ift').Peer false true)
    (hpeer' : (pair ift ift').Peer true false) : (pair ift ift').Connected := by
  intro i j
  cases i <;> cases j
  · exact .refl
  · exact .single hpeer
  · exact .single hpeer'
  · exact .refl

/-- Two routers with one link between them. -/
abbrev single : LinkStateNetwork Bool :=
    pair (oneInterface 12 (by decide)) (oneInterface 21 (by decide))

theorem single_initial : single.Initial where
  ids := by decide +kernel
  specified := by decide +kernel
  own := by decide +kernel
  stamped := by decide +kernel
  messageIds := by decide +kernel
  bounded := by decide +kernel
  up := by
    rintro i link ⟨hmem, -⟩
    revert link
    revert i
    decide +kernel
  connected := connected_pair ⟨_, ⟨mem_singleton_self _, rfl⟩, rfl⟩
    ⟨_, ⟨mem_singleton_self _, rfl⟩, rfl⟩
  pending := by decide +kernel
  quiet := rfl
  current := by
    intro i
    cases i
    · exact tableIsCurrent_endpoint (by decide +kernel)
    · exact tableIsCurrent_endpoint (by decide +kernel)

/-- Half of the bandwidth is reserved. -/
def halved : LinkAttributes where
  metric := (0 : ℕ) + 1
  metric_pos := link_pos 0
  maxBandwidth := 1
  unResvBandwidth := Vector.replicate 8 (1 / 2)
  state := true

/-- Both announcements, a link with less bandwidth left, and all deliveries. -/
def exchange : List (LinkStateEvent Bool) :=
  [.announce false, .announce true, .deliver true 0, .deliver false 0, .deliver false 0,
    .deliver true 0, .advance 5, .changeLinks false [0] fun _ ↦ halved, .deliver true 0]

theorem single_hasNoParallelLinks : single.HasNoParallelLinks := by
  intro i
  cases i <;> exact nodup_singleton _

theorem flooding_converges_single :
    ∃ net, ((machine Bool).restrict Steady).Run single exchange net ∧ net.Quiet ∧
      (net.Quiet → net.Agrees) ∧ single.Improves net ∧ net.Improves net ∧
      ∀ i, (net.router i).TableIsCurrent := by
  have hexec : (((machine Bool).restrict Steady).exec single exchange).any fun net ↦
      decide net.Quiet := by
    decide +kernel
  obtain ⟨net, hrun, hquiet⟩ := Machine.exists_run_of_exec hexec
  exact ⟨net, hrun, hquiet, 
    flooding_converges single_initial single_hasNoParallelLinks hrun (.nil net)⟩

theorem otherInterfaces_ids :
    ([⟨101, 21#32⟩, ⟨102, 31#32⟩] : List InterfaceEntry).map interfaceId |>.Nodup := by
  decide

theorem otherInterfaces_addresses :
    ([⟨101, 21#32⟩, ⟨102, 31#32⟩] : List InterfaceEntry).map address |>.Nodup := by
  decide

theorem otherInterfaces_specified :
    ∀ ie ∈ ([⟨101, 21#32⟩, ⟨102, 31#32⟩] : List InterfaceEntry), ie.address ≠ 0#32 := by
  decide

def otherInterfaces : InterfaceTable where
  interfaces := [⟨101, 21#32⟩, ⟨102, 31#32⟩]
  ids_nodup := otherInterfaces_ids
  addresses_nodup := otherInterfaces_addresses
  specified := otherInterfaces_specified

/-- Two routers with two links between them. -/
abbrev double : LinkStateNetwork Bool := pair twoInterfaces otherInterfaces

theorem double_initial : double.Initial where
  ids := by decide +kernel
  specified := by decide +kernel
  own := by decide +kernel
  stamped := by decide +kernel
  messageIds := by decide +kernel
  bounded := by decide +kernel
  up := by
    rintro i link ⟨hmem, -⟩
    revert link
    revert i
    decide +kernel
  connected := connected_pair ⟨_, ⟨mem_cons_self, rfl⟩, rfl⟩ ⟨_, ⟨mem_cons_self, rfl⟩, rfl⟩
  pending := by decide +kernel
  quiet := rfl
  current := by
    intro i
    cases i
    · exact tableIsCurrent_endpoint (by decide +kernel)
    · exact tableIsCurrent_endpoint (by decide +kernel)

/-- Both announcements over both links, and all deliveries. -/
def doubleExchange : List (LinkStateEvent Bool) :=
  [.announce false, .announce true, .deliver true 0, .deliver true 0, .deliver false 0,
    .deliver false 0, .deliver false 0, .deliver false 0, .deliver true 0, .deliver true 0]

/-- A router enters only the last one of the links from another router. -/
theorem not_agrees_double :
    double.Initial ∧ ∃ net, ((machine Bool).restrict Steady).Run double doubleExchange net ∧
      net.Quiet ∧ ¬net.Agrees := by
  refine ⟨double_initial, ?_⟩
  have hexec : (((machine Bool).restrict Steady).exec double doubleExchange).any fun net ↦
      decide (net.Quiet ∧ ∃ link ∈ net.links false, link ∉ net.links true) := by
    decide +kernel
  obtain ⟨net, hrun, hquiet, hdiffer⟩ := Machine.exists_run_of_exec hexec
  refine ⟨net, hrun, hquiet, ?_⟩
  intro hagrees
  obtain ⟨link, hmem, hnot⟩ := hdiffer
  exact hnot ((hagrees.mem_iff false true link).mp hmem)

end LinkStateNetwork

end Inet4.Ted
