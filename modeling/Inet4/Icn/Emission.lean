import Inet4.Icn.NodeRuns

/-!
# The congestion level of what a node sends

Data that a node sends on, and what it delivers to a consumer, bears the level of the packet that it
has received; Data that a node serves bears the level of the stored packet.  No other event sends
Data.
-/

namespace Inet4.Icn.ColorNoCluster

open List
open Except (ok)

variable {node node' mid : ColorNoCluster} {now delay : SimTime} {srcAddress : MacAddress}
variable {packet newPacket newPacket' : DataPacket} {getPacket : GetPacket} {level : ℤ}
    {delivers : Prop}

/-- All Data that an event sends, and all that it delivers, bears a level; the Data that it sends
has the tag for the congestion indicator; and it delivers only on a condition. -/
structure Emits (level : ℤ) (delivers : Prop) (node node' : ColorNoCluster) : Prop where
  sent : ∃ new, node'.queueOut = node.queueOut ++ new ∧ ∀ datagram ∈ new, ∀ packet,
    datagram.packet = .data packet → datagram.pitInd ≠ none ∧ packet.head.congestionLevel = level
  delivered : ∃ new, node'.transportOut = node.transportOut ++ new ∧
    ∀ delivery ∈ new, delivers ∧ delivery.congestionLevel = level

/-- An event that sends and delivers nothing. -/
theorem Emits.of_eq (hqueueOut : node'.queueOut = node.queueOut)
    (htransportOut : node'.transportOut = node.transportOut) : Emits level delivers node node' where
  sent := ⟨[], by rw [hqueueOut, append_nil], by simp⟩
  delivered := ⟨[], by rw [htransportOut, append_nil], by simp⟩

/-- What an event emits does not depend on the tables. -/
theorem Emits.congr {before after : ColorNoCluster} (h : Emits level delivers before after)
    (hqueueOut : before.queueOut = node.queueOut)
    (htransportOut : before.transportOut = node.transportOut)
    (hqueueOut' : node'.queueOut = after.queueOut)
    (htransportOut' : node'.transportOut = after.transportOut) :
    Emits level delivers node node' where
  sent := by
    rw [hqueueOut', ← hqueueOut]
    exact h.sent
  delivered := by
    rw [htransportOut', ← htransportOut]
    exact h.delivered

theorem Emits.trans (h : Emits level delivers node mid) (h' : Emits level delivers mid node') :
    Emits level delivers node node' := by
  obtain ⟨new, hnew, hlevel⟩ := h.sent
  obtain ⟨new', hnew', hlevel'⟩ := h'.sent
  obtain ⟨out, hout, hdelivered⟩ := h.delivered
  obtain ⟨out', hout', hdelivered'⟩ := h'.delivered
  constructor
  · refine ⟨new ++ new', by rw [hnew', hnew, append_assoc], ?_⟩
    intro datagram hmem
    exact (mem_append.mp hmem).elim (hlevel datagram) (hlevel' datagram)
  · refine ⟨out ++ out', by rw [hout', hout, append_assoc], ?_⟩
    intro delivery hmem
    exact (mem_append.mp hmem).elim (hdelivered delivery) (hdelivered' delivery)

theorem emits_sendDatagramToOutput (node : ColorNoCluster) (packet : Packet) (mac : MacAddress)
    (hlevel : ∀ p, packet = .data p → p.head.congestionLevel = level) :
    Emits level delivers node (node.sendDatagramToOutput packet mac) where
  sent := by
    refine ⟨_, rfl, ?_⟩
    intro datagram hmem p hp
    obtain rfl := mem_singleton.mp hmem
    obtain rfl : packet = .data p := hp
    exact ⟨by simp, hlevel p rfl⟩
  delivered := ⟨[], (append_nil _).symm, by simp⟩

theorem emits_collect (h : node.collect packet = .ok node') :
    Emits packet.head.congestionLevel True node node' := by
  unfold collect at h
  dsimp only at h
  split at h
  · obtain ⟨⟨fullPacket, resemBuffer⟩, -, h⟩ := bind_eq_ok h
    cases fullPacket with
    | none =>
      obtain rfl := ok.inj h
      exact .of_eq rfl rfl
    | some fullPacket =>
      obtain rfl := ok.inj h
      exact ⟨⟨[], (append_nil _).symm, by simp⟩, _, rfl, by simp⟩
  · obtain rfl := ok.inj h
    exact .of_eq rfl rfl

theorem emits_forwardEntry {iter : PITentry} (hlevel : newPacket.head.congestionLevel = level)
    (h : forwardEntry now packet iter node newPacket = .ok (node', newPacket')) :
    Emits level delivers node node' ∧ newPacket'.head.congestionLevel = level := by
  unfold forwardEntry at h
  dsimp only at h
  split at h
  · obtain ⟨rfl, rfl⟩ := Prod.mk.inj (ok.inj h)
    exact ⟨.of_eq rfl rfl, hlevel⟩
  · obtain ⟨stripped, hpadding, h⟩ := bind_eq_ok h
    obtain ⟨rfl, rfl⟩ := Prod.mk.inj (ok.inj h)
    have hstripped : stripped.head.congestionLevel = level := by
      rw [removePadding_head hpadding]
      exact hlevel
    refine ⟨?_, hstripped⟩
    refine (emits_sendDatagramToOutput _ _ _ ?_).congr rfl rfl rfl rfl
    intro p hp
    obtain rfl := Packet.data.inj hp
    exact hstripped

theorem emits_forwardLoop {entries : List PITentry}
    (hlevel : newPacket.head.congestionLevel = level)
    (h : forwardLoop now packet entries node newPacket = .ok node') :
    Emits level delivers node node' := by
  induction entries generalizing node newPacket with
  | nil =>
    obtain rfl := ok.inj h
    exact .of_eq rfl rfl
  | cons iter rest ih =>
    obtain ⟨⟨mid, newPacket'⟩, hentry, h⟩ := bind_eq_ok h
    obtain ⟨hemits, hlevel'⟩ := emits_forwardEntry hlevel hentry
    exact hemits.trans (ih hlevel' h)

/-- What is received is sent on and delivered with its level. -/
theorem emits_handleDataPacket (h : node.handleDataPacket now packet srcAddress = .ok node') :
    Emits packet.head.congestionLevel True node node' := by
  obtain ⟨collected, hcollect, h⟩ := bind_eq_ok h
  have hcollected := emits_collect hcollect
  obtain ⟨rt, hrt⟩ := learnRoutes_eq collected now packet.head srcAddress
  rw [hrt] at h
  dsimp only at h
  split at h
  · obtain ⟨mid, hloop, h⟩ := bind_eq_ok h
    obtain ⟨pit, -, rfl⟩ := bind_pure_eq_ok h
    exact hcollected.trans ((emits_forwardLoop rfl hloop).congr rfl rfl rfl rfl)
  · obtain rfl := ok.inj h
    exact hcollected.trans (.of_eq rfl rfl)

/-- The level of the packet with which a GET is served is 0. -/
def ServesFree (node : ColorNoCluster) (now : SimTime) (head : Get) : Prop :=
  ¬Misses node head → 0 ≤ head.timeToLive → node.servedRecently now head = false →
    ∀ block ∈ node.ct.getBlock head.sid, ∀ P ∈ block.head?, P.head.congestionLevel = 0

/-- Once it has served a GET the node does not serve it again at the same time. -/
theorem serveLoop_of_servedRecently {head : Get} {route : Option Croute} (block : List DataPacket)
    (h : node.servedRecently now head) : serveLoop now head route srcAddress block node = node := by
  cases block with
  | nil => rfl
  | cons P rest => simp only [serveLoop, h, if_true]

/-- A GET is served with the first stored packet and no other. -/
theorem emits_serveLoop {head : Get} {route : Option Croute} (block : List DataPacket)
    (hlevel : node.servedRecently now head = false →
      ∀ P ∈ block.head?, P.head.congestionLevel = level) :
    Emits level delivers node (serveLoop now head route srcAddress block node) := by
  cases block with
  | nil => exact .of_eq rfl rfl
  | cons P rest =>
    unfold serveLoop
    split
    · exact .of_eq rfl rfl
    · rename_i hserves
      rw [serveLoop_of_servedRecently]
      · refine (emits_sendDatagramToOutput _ _ _ ?_).congr rfl rfl rfl rfl
        intro p hp
        obtain rfl := Packet.data.inj hp
        have hstored := hlevel (Bool.eq_false_iff.mpr hserves) P rfl
        cases route with
        | none => exact hstored
        | some route => exact hstored
      · simp [servedRecently, sendDatagramToOutput, SimTime.ofMillis]

/-- A GET that is dropped or served. -/
theorem emits_handleGetPacket_served (hserved : ¬Misses node getPacket.head)
    (hfree : ServesFree node now getPacket.head)
    (h : node.handleGetPacket now getPacket srcAddress delay = .ok node') :
    Emits 0 False node node' := by
  unfold handleGetPacket at h
  dsimp only at h
  split at h
  · obtain rfl := ok.inj h
    exact .of_eq rfl rfl
  · rename_i hlive
    have hlive' : 0 ≤ getPacket.head.timeToLive := Int.not_lt.mp hlive
    split at h
    · rename_i hnone
      exact absurd ⟨hlive', .inl hnone⟩ hserved
    · rename_i block hblock
      split at h
      · rename_i hfresh
        exact absurd ⟨hlive', .inr hfresh⟩ hserved
      · obtain rfl := ok.inj h
        refine Emits.trans ?_ (emits_serveLoop block ?_)
        · exact .of_eq rfl rfl
        · exact fun hserves ↦ hfree hserved hlive' hserves block hblock

/-- A GET that is passed on. -/
theorem emits_handleGetPacket_missed (hmiss : Misses node getPacket.head)
    (h : node.handleGetPacket now getPacket srcAddress delay = .ok node') :
    Emits 0 False node node' := by
  obtain ⟨rt, mid, hpass, hremember⟩ := handleGetPacket_missed hmiss h
  obtain ⟨pit, rfl, -⟩ := remember_spec hremember
  rcases passOn_cases hpass with ⟨-, rfl⟩ | ⟨-, ⟨r, -, hforward⟩ | ⟨-, hflood⟩ | ⟨-, -, rfl⟩⟩
  · exact .of_eq rfl rfl
  · unfold forwardGet at hforward
    dsimp only at hforward
    split at hforward
    · obtain ⟨pit', -, rfl⟩ := bind_pure_eq_ok hforward
      exact (emits_sendDatagramToOutput _ _ _ (by simp)).congr rfl rfl rfl rfl
    · obtain rfl := ok.inj hforward
      exact .of_eq rfl rfl
  · obtain ⟨delayQueue, -, hflood⟩ := bind_eq_ok hflood
    obtain ⟨pit', -, rfl⟩ := bind_pure_eq_ok hflood
    exact .of_eq rfl rfl
  · exact .of_eq rfl rfl

/-- From a queue of GETs the timer takes a GET. -/
theorem emits_handleDelayer (hgets : node.delayQueue.OnlyGets)
    (h : node.handleDelayer now = .ok node') : Emits 0 False node node' := by
  unfold handleDelayer at h
  dsimp only at h
  split at h
  · cases h
  · rename_i first rest hqueue
    obtain ⟨⟨iter, mid⟩, hredirect, h⟩ := bind_eq_ok h
    obtain ⟨⟨packet, delayQueue⟩, hpop, h⟩ := bind_eq_ok h
    obtain ⟨hqueueOut, htransportOut, hget⟩ : mid.queueOut = node.queueOut ∧
        mid.transportOut = node.transportOut ∧ ∀ p, iter.pkt ≠ some (.data p) := by
      have hfirst := hgets first (by simp [hqueue])
      unfold redirect at hredirect
      split at hredirect
      · obtain ⟨rfl, rfl⟩ := Prod.mk.inj (ok.inj hredirect)
        exact ⟨rfl, rfl, by simp⟩
      · cases hredirect
      · obtain ⟨rfl, rfl⟩ := Prod.mk.inj (ok.inj hredirect)
        exact ⟨rfl, rfl, hfirst⟩
    obtain ⟨popped, hpopped, hpacket⟩ := DelayQueue.popAtFront_eq_ok hpop
    obtain ⟨rfl, -⟩ := cons.inj hpopped
    cases packet with
    | none =>
      obtain rfl := ok.inj h
      exact .of_eq hqueueOut htransportOut
    | some packet =>
      obtain rfl := ok.inj h
      refine (emits_sendDatagramToOutput _ _ _ ?_).congr hqueueOut htransportOut rfl rfl
      rintro p rfl
      split at hpacket
      · cases hpacket
      · exact absurd hpacket.symm (hget p)

/-- The level that is expected of what an event sends and delivers. -/
def expectedLevel : NodeAction → ℤ
  | .receive (.data packet) _ _ => packet.head.congestionLevel
  | _ => 0

/-- Data is received. -/
def ReceivesData : NodeAction → Prop
  | .receive (.data _) _ _ => True
  | _ => False

/-- A GET that is received is served with level 0. -/
def ServesFreely (node : ColorNoCluster) (event : NodeEvent) : Prop :=
  match event.action with
  | .receive (.get packet) _ _ => ServesFree node event.now packet.head
  | _ => True

instance (node : ColorNoCluster) (now : SimTime) (head : Get) :
    Decidable (ServesFree node now head) :=
  inferInstanceAs (Decidable (¬Misses node head → 0 ≤ head.timeToLive →
    node.servedRecently now head = false →
      ∀ block ∈ node.ct.getBlock head.sid, ∀ P ∈ block.head?, P.head.congestionLevel = 0))

instance (node : ColorNoCluster) (event : NodeEvent) : Decidable (ServesFreely node event) :=
  match event with
  | ⟨now, .receive (.get packet) _ _⟩ => inferInstanceAs
    (Decidable (ServesFree node now packet.head))
  | ⟨_, .receive (.data _) _ _⟩ | ⟨_, .delayer⟩ | ⟨_, .pitTimer ..⟩ | ⟨_, .bindPort ..⟩
  | ⟨_, .sendGET ..⟩ | ⟨_, .cacheData ..⟩ => isTrue trivial

theorem emits_handle {event : NodeEvent} (hgets : node.delayQueue.OnlyGets)
    (hfree : ServesFreely node event) (h : node.handle event = .ok node') :
    Emits (expectedLevel event.action) (ReceivesData event.action) node node' := by
  obtain ⟨now, action⟩ := event
  cases action with
  | receive packet srcAddress delay =>
    cases packet with
    | get packet =>
      by_cases hmiss : Misses node packet.head
      · exact emits_handleGetPacket_missed hmiss h
      · exact emits_handleGetPacket_served hmiss hfree h
    | data packet => exact emits_handleDataPacket h
  | delayer => exact emits_handleDelayer hgets h
  | pitTimer timer deleted =>
    obtain ⟨pit, -, rfl⟩ := bind_pure_eq_ok h
    exact .of_eq rfl rfl
  | bindPort port socketId =>
    obtain rfl := ok.inj h
    exact .of_eq rfl rfl
  | sendGET sid port nonce =>
    obtain rfl := ok.inj h
    refine (emits_sendDatagramToOutput (node.getHead now sid).2 _ _ ?_).congr ?_ ?_ rfl rfl
    · simp
    · unfold getHead
      dsimp only
      split <;> rfl
    · unfold getHead
      dsimp only
      split <;> rfl
  | cacheData sid payload =>
    obtain ⟨packets, -, rfl⟩ := bind_pure_eq_ok h
    exact .of_eq rfl rfl

/-- The delay queue of a node holds nothing but GETs. -/
theorem onlyGets_handle {event : NodeEvent} (hgets : node.delayQueue.OnlyGets)
    (h : machine.Step node event node') : node'.delayQueue.OnlyGets := by
  rcases handle_cases h with hquiet | ⟨-, hdelayer⟩ | ⟨packet, src, delay, -, hmiss, hget⟩
  · rw [hquiet.delayQueue]
    exact hgets
  · obtain ⟨-, -, first, -, hqueue, -⟩ := handleDelayer_spec hdelayer
    intro iter hiter
    apply hgets
    rw [hqueue]
    exact mem_cons_of_mem first hiter
  · obtain ⟨rt, mid, hpass, hremember⟩ := handleGetPacket_missed hmiss hget
    obtain ⟨pit, rfl, -⟩ := remember_spec hremember
    rcases passOn_cases hpass with ⟨-, rfl⟩ | ⟨hsid, ⟨r, -, hforward⟩ | ⟨-, hflood⟩ | ⟨-, -, rfl⟩⟩
    · exact hgets
    · rw [show mid.delayQueue = node.delayQueue from (forwardGet_spec hforward).2.1]
      exact hgets
    · obtain ⟨-, -, -, found, delayQueue, hfound, hinsert, hsame⟩ := floodGet_spec hsid hflood
      have hkept : delayQueue.OnlyGets := DelayQueue.OnlyGets.checkAndDecrease hgets hfound
      cases found with
      | false => exact hkept.insert (hinsert rfl)
      | true =>
        rw [hsame rfl]
        exact hkept
    · exact hgets

end Inet4.Icn.ColorNoCluster
