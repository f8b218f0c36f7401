import Inet4.Icn.NodeRuns

/-!
# Aggregation of requests

A node that has a record of a SID does not send further GETs for it.  This is sound as long as the
node itself has asked for the SID since the record came into existence, or is about to.  An observer
notes which SIDs the node has requested and which GETs it has put into its delay queue, and strikes
out what belongs to a record that is gone.

A record also comes into existence for a GET that the node merely overhears, and for one that the
delay queue has no place for; then nothing is asked, and later GETs are suppressed all the same.
`PassesOn` describes the GETs for which this does not happen.
-/

namespace Inet4.Icn.ColorNoCluster

open List DelayQueue

/-- The SID that a packet requests. -/
def requested : Packet → Option SID
  | .get packet => some packet.head.sid
  | .data _ => none

/-- The requests that a node has made since the records of their SIDs came into existence. -/
structure Issued where
  /-- The SIDs for which a GET was sent. -/
  transmitted : List SID := []
  /-- The GETs that were put into the delay queue and are still there. -/
  held : List Ticket := []

/-- What the observer notes after an event. -/
def Issued.update (issued : Issued) (node node' : ColorNoCluster) : Issued :=
  let sent := node'.queueOut.drop node.queueOut.length
  let arrived := node'.delayQueue.tickets.diff node.delayQueue.tickets
  let departed := node.delayQueue.tickets.diff node'.delayQueue.tickets
  { transmitted := (issued.transmitted ++ sent.filterMap fun datagram ↦
      requested datagram.packet).filter node'.pit.haveSID
    held := ((issued.held ++ arrived).diff departed).filter fun ticket ↦
      (ticket.pkt.bind requested).any node'.pit.haveSID }

/-- The node has sent a GET for the SID since its record came into existence, or holds one that it
has queued since then. -/
def Outstanding (node : ColorNoCluster) (issued : Issued) (sid : SID) : Prop :=
  sid ∈ issued.transmitted ∨ ∃ ticket ∈ node.delayQueue.tickets, ticket ∈ issued.held ∧
    ticket.pkt.bind requested = some sid

/-- A GET that is addressed to the node, for content that it does not have, is not sent on because
the SID has a record. -/
def Suppresses (node : ColorNoCluster) (head : Get) : Prop :=
  0 ≤ head.timeToLive ∧ Addressed node head ∧ node.ct.getBlock head.sid = none ∧
    node.pit.haveSID head.sid

/-- The node that is observed. -/
abbrev watched : Machine (ColorNoCluster × Issued) NodeEvent Fault :=
  machine.observed Issued.update

/-- A GET is sent on along the route, or it enters the delay queue with a positive counter. -/
def CanPassOn (node : ColorNoCluster) (now : SimTime) (head : Get) (delay : SimTime) :
    Option Croute → Prop
  | some _ => Addressed node head
  | none => head.nexthop.isDefault ∧ 1 ≤ node.par.TC ∧ node.delayQueue.holdsCopy head = false ∧
      node.delayQueue.HasPlaceFor (now + delay)

/-- A GET that opens a record is passed on. -/
def PassesOn (s : ColorNoCluster × Issued) (event : NodeEvent) : Prop :=
  match event.action with
  | .receive (.get packet) srcAddress delay =>
    Misses s.1 packet.head → s.1.pit.haveSID packet.head.sid = false →
      CanPassOn s.1 event.now packet.head delay (routeFor s.1 event.now packet.head srcAddress)
  | _ => True

instance (node : ColorNoCluster) (issued : Issued) (sid : SID) :
    Decidable (Outstanding node issued sid) :=
  inferInstanceAs (Decidable (_ ∨ _))

instance (node : ColorNoCluster) (head : Get) : Decidable (Suppresses node head) :=
  inferInstanceAs (Decidable (_ ∧ _))

instance (node : ColorNoCluster) (now : SimTime) (head : Get) (delay : SimTime) :
    (route : Option Croute) → Decidable (CanPassOn node now head delay route)
  | some _ => inferInstanceAs (Decidable (Addressed node head))
  | none => inferInstanceAs (Decidable (_ ∧ _))

instance (s : ColorNoCluster × Issued) (event : NodeEvent) : Decidable (PassesOn s event) :=
  match event with
  | ⟨_, .receive (.get _) _ _⟩ => inferInstanceAs (Decidable (_ → _))
  | ⟨_, .receive (.data _) _ _⟩ | ⟨_, .delayer⟩ | ⟨_, .pitTimer ..⟩ | ⟨_, .bindPort ..⟩
  | ⟨_, .sendGET ..⟩ | ⟨_, .cacheData ..⟩ => isTrue trivial

instance (s : ColorNoCluster × Issued) (event : NodeEvent) : Decidable (watched.Enabled s event) :=
  inferInstanceAs (Decidable (machine.Enabled s.1 event))

variable {node node' : ColorNoCluster} {issued : Issued} {sid : SID} {ticket : Ticket}
variable {packet : GetPacket} {now delay : SimTime} {srcAddress : MacAddress}

/-! ## The notes of the observer -/

theorem mem_transmitted_update : sid ∈ (issued.update node node').transmitted ↔
    (sid ∈ issued.transmitted ∨ ∃ datagram ∈ node'.queueOut.drop node.queueOut.length,
      requested datagram.packet = some sid) ∧ node'.pit.haveSID sid := by
  simp only [Issued.update, mem_filter, mem_append, mem_filterMap]

/-- A queued GET is noted when it has just been queued or was noted before. -/
theorem mem_held_update (hdistinct : node.delayQueue.tickets.Nodup)
    (hqueued : ticket ∈ node'.delayQueue.tickets)
    (hnoted : ticket ∈ issued.held ∨ node'.delayQueue.tickets.Nodup ∧
      ticket ∉ node.delayQueue.tickets)
    (hsid : ticket.pkt.bind requested = some sid) (hrecord : node'.pit.haveSID sid) :
    ticket ∈ (issued.update node node').held := by
  have hstays : ticket ∉ node.delayQueue.tickets.diff node'.delayQueue.tickets := by
    rw [hdistinct.mem_sdiff_iff]
    exact fun hgone ↦ hgone.2 hqueued
  have hnoted' : ticket ∈ issued.held ++
      node'.delayQueue.tickets.diff node.delayQueue.tickets := by
    rw [mem_append]
    rcases hnoted with hheld | ⟨hdistinct', hnew⟩
    · exact .inl hheld
    · exact .inr (hdistinct'.mem_sdiff_iff.mpr ⟨hqueued, hnew⟩)
  simp only [Issued.update, mem_filter]
  refine ⟨mem_diff_of_mem hnoted' hstays, ?_⟩
  rw [hsid]
  exact hrecord

/-! ## The invariant -/

/-- A GET for the SID is queued whose counter has not run out, and it was noted. -/
def Waiting (s : ColorNoCluster × Issued) (sid : SID) : Prop :=
  ∃ iter ∈ s.1.delayQueue.priQueue, iter.ticket ∈ s.2.held ∧
    iter.pkt.bind requested = some sid ∧ 1 ≤ iter.tc

/-- Every SID with a record was requested since, or a GET for it waits. -/
structure Invariant (s : ColorNoCluster × Issued) : Prop where
  flood : s.1.par.flood = false
  packets : ∀ iter ∈ s.1.delayQueue.priQueue, iter.pkt ≠ none
  distinct : s.1.delayQueue.tickets.Nodup
  asked : ∀ sid, s.1.pit.haveSID sid → sid ∈ s.2.transmitted ∨ Waiting s sid

theorem Invariant.outstanding {s : ColorNoCluster × Issued} (h : Invariant s)
    (hsid : s.1.pit.haveSID sid) : Outstanding s.1 s.2 sid := by
  rcases h.asked sid hsid with hsent | ⟨iter, hiter, hheld, hrequest, -⟩
  · exact .inl hsent
  · exact .inr ⟨iter.ticket, mem_map_of_mem hiter, hheld, hrequest⟩

theorem invariant_initial {par : Parameters} (hflood : par.flood = false) :
    Invariant (initial par, {}) where
  flood := hflood
  packets iter hiter := by cases hiter
  distinct := nodup_nil
  asked sid hsid := by
    simp [initial, ColorPendingGetTable.haveSID] at hsid

/-- A GET that waits goes on waiting as long as it is queued. -/
theorem Waiting.update (h : Waiting (node, issued) sid)
    (hdistinct : node.delayQueue.tickets.Nodup)
    (hqueue : ∀ iter ∈ node.delayQueue.priQueue, iter ∈ node'.delayQueue.priQueue)
    (hrecord : node'.pit.haveSID sid) : Waiting (node', issued.update node node') sid := by
  obtain ⟨iter, hiter, hheld, hrequest, hcounter⟩ := h
  have hqueued := hqueue iter hiter
  exact ⟨iter, hqueued, mem_held_update hdistinct (mem_map_of_mem hqueued) (.inl hheld)
    hrequest hrecord, hrequest, hcounter⟩

/-- An event that leaves the delay queue alone may add records whose SIDs it requests. -/
theorem Invariant.of_same_queue (h : Invariant (node, issued)) (hpar : node'.par = node.par)
    (hqueue : node'.delayQueue = node.delayQueue)
    (hasked : ∀ sid, node'.pit.haveSID sid → node.pit.haveSID sid ∨
      ∃ datagram ∈ node'.queueOut.drop node.queueOut.length,
        requested datagram.packet = some sid) :
    Invariant (node', issued.update node node') := by
  refine ⟨?_, ?_, ?_, ?_⟩
  · rw [hpar]
    exact h.flood
  · rw [hqueue]
    exact h.packets
  · rw [hqueue]
    exact h.distinct
  · intro sid hsid
    rcases hasked sid hsid with hold | hnew
    · rcases h.asked sid hold with hsent | hwaiting
      · exact .inl (mem_transmitted_update.mpr ⟨.inl hsent, hsid⟩)
      · refine .inr (hwaiting.update h.distinct ?_ hsid)
        rw [hqueue]
        exact fun iter hiter ↦ hiter
    · exact .inl (mem_transmitted_update.mpr ⟨.inr hnew, hsid⟩)

/-- The timer of the delay queue sends what it takes out. -/
theorem Invariant.delayer (h : Invariant (node, issued))
    (hdelayer : node.handleDelayer now = .ok node') :
    Invariant (node', issued.update node node') := by
  obtain ⟨hpar, hpit, first, new, hqueue, hout, hsent⟩ := handleDelayer_spec hdelayer
  have htickets : node.delayQueue.tickets = first.ticket :: node'.delayQueue.tickets := by
    rw [tickets, hqueue]
    rfl
  have hdistinct := h.distinct
  rw [htickets] at hdistinct
  refine ⟨?_, ?_, (nodup_cons.mp hdistinct).2, ?_⟩
  · rw [hpar]
    exact h.flood
  · intro iter hiter
    apply h.packets
    rw [hqueue]
    exact mem_cons_of_mem first hiter
  · intro sid hsid
    have hold : node.pit.haveSID sid := hpit ▸ hsid
    rcases h.asked sid hold with hnoted | ⟨iter, hiter, hheld, hrequest, hcounter⟩
    · exact .inl (mem_transmitted_update.mpr ⟨.inl hnoted, hsid⟩)
    · rw [hqueue] at hiter
      rcases mem_cons.mp hiter with rfl | hiter
      · -- the GET that waits is the one that is taken out
        left
        obtain ⟨packet, hpkt, hsame⟩ := Option.bind_eq_some_iff.mp hrequest
        cases packet with
        | data packet => cases hsame
        | get packet =>
          obtain ⟨datagram, hmem, newPacket, hget, hnewSid⟩ := hsent hcounter packet hpkt
          refine mem_transmitted_update.mpr ⟨.inr ⟨datagram, ?_, ?_⟩, hsid⟩
          · rw [hout, drop_left]
            exact hmem
          · rw [hget, requested, hnewSid]
            exact hsame
      · right
        have hqueued := mem_map_of_mem (f := PendPkt.ticket) hiter
        exact ⟨iter, hiter, mem_held_update h.distinct hqueued (.inl hheld) hrequest hsid, hrequest,
          hcounter⟩

/-- A GET that opens a record is itself the request that the record needs. -/
theorem Invariant.opened (h : Invariant (node, issued)) (hmiss : Misses node packet.head)
    (hsid : node.pit.haveSID packet.head.sid = false)
    (hpasses : PassesOn (node, issued) ⟨now, .receive (.get packet) srcAddress delay⟩)
    (hget : node.handleGetPacket now packet srcAddress delay = .ok node') :
    Invariant (node', issued.update node node') := by
  obtain ⟨hpar, -, hrecords⟩ := handleGetPacket_pit hmiss hget
  have hguard := hpasses hmiss hsid
  cases handleGetPacket_treatment h.flood hmiss hsid hget with
  | forwarded datagram newPacket hroute haddressed hout hpacket hnewSid hqueue =>
    refine h.of_same_queue hpar hqueue ?_
    intro sid hrecord
    rcases (hrecords sid).mp hrecord with rfl | hold
    · right
      refine ⟨datagram, ?_, ?_⟩
      · rw [hout, drop_left]
        exact mem_singleton_self _
      · rw [hpacket, requested, hnewSid]
    · exact .inl hold
  | flooded found delayQueue hroute hdefault hout hfound hinsert hsame =>
    rw [hroute] at hguard
    obtain ⟨-, hcounter, hcopy, hplace⟩ := hguard
    -- nothing is found, so that the packet is inserted
    have hcopy' : node.delayQueue.holdsCopy (node.floodedGet packet).head = false := hcopy
    obtain rfl := not_found hcopy' hfound
    obtain rfl := checkAndDecrease_false h.packets hfound
    have hperm := insert_perm hplace (hinsert rfl)
    have htickets : node'.delayQueue.tickets.Perm
        (⟨some (.get (node.floodedGet packet)), .GET, now + delay⟩ :: node.delayQueue.tickets) :=
      hperm.map PendPkt.ticket
    have hfresh : (⟨some (.get (node.floodedGet packet)), .GET, now + delay⟩ : Ticket) ∉
        node.delayQueue.tickets := not_mem_tickets hcopy'
    have hdistinct : node'.delayQueue.tickets.Nodup :=
      htickets.nodup_iff.mpr (nodup_cons.mpr ⟨hfresh, h.distinct⟩)
    refine ⟨?_, ?_, hdistinct, ?_⟩
    · rw [hpar]
      exact h.flood
    · intro iter hiter
      rcases mem_cons.mp (hperm.mem_iff.mp hiter) with rfl | hiter
      · simp
      · exact h.packets iter hiter
    · intro sid hrecord
      rcases (hrecords sid).mp hrecord with rfl | hold
      · right
        have hqueued := hperm.mem_iff.mpr mem_cons_self
        refine ⟨_, hqueued, ?_, rfl, hcounter⟩
        exact mem_held_update h.distinct (mem_map_of_mem hqueued) (.inr ⟨hdistinct, hfresh⟩) rfl
          hrecord
      · rcases h.asked sid hold with hsent | hwaiting
        · exact .inl (mem_transmitted_update.mpr ⟨.inl hsent, hrecord⟩)
        · refine .inr (hwaiting.update h.distinct ?_ hrecord)
          intro iter hiter
          exact hperm.mem_iff.mpr (mem_cons_of_mem _ hiter)
  | neglected hroute hdefault hout hqueue =>
    cases hfind : routeFor node now packet.head srcAddress with
    | none =>
      simp only [hfind] at hguard
      have hnot := hdefault hfind
      rw [hguard.1] at hnot
      cases hnot
    | some route =>
      simp only [hfind] at hguard
      exact absurd hguard (hroute (by simp [hfind]))

/-- One event keeps the invariant, provided that a GET that opens a record is passed on. -/
theorem Invariant.step {s s' : ColorNoCluster × Issued} {event : NodeEvent} (h : Invariant s)
    (hstep : (watched.restrict PassesOn).Step s event s') : Invariant s' := by
  obtain ⟨hstep, hpasses⟩ := Machine.step_restrict_iff.mp hstep
  obtain ⟨hstep, hissued⟩ := Machine.step_observed_iff.mp hstep
  obtain ⟨node, issued⟩ := s
  obtain ⟨node', issued'⟩ := s'
  obtain rfl : issued' = issued.update node node' := hissued
  rcases handle_cases hstep with hquiet | ⟨-, hdelayer⟩ | ⟨packet, src, delay, haction, hmiss, hget⟩
  · exact h.of_same_queue hquiet.par hquiet.delayQueue fun sid hsid ↦ .inl (hquiet.records sid hsid)
  · exact h.delayer hdelayer
  · obtain ⟨now, action⟩ := event
    obtain rfl : action = .receive (.get packet) src delay := haction
    cases hsid : node.pit.haveSID packet.head.sid with
    | false => exact h.opened hmiss hsid hpasses hget
    | true =>
      obtain ⟨hpar, -, hrecords⟩ := handleGetPacket_pit hmiss hget
      obtain ⟨-, hqueue⟩ := handleGetPacket_suppressed hmiss hsid hget
      refine h.of_same_queue hpar hqueue ?_
      intro sid hrecord
      rcases (hrecords sid).mp hrecord with rfl | hold
      · exact .inl hsid
      · exact .inl hold

/-- In every run without flooding in which each GET that opens a record is passed on, a GET is only
suppressed for a SID that the node has itself requested since the record of the SID came into
existence, or for which it holds a GET that it has queued since then. -/
theorem outstanding_of_suppresses {par : Parameters} {head : Get} (hflood : par.flood = false)
    {events : List NodeEvent} (hrun : (watched.restrict PassesOn).Run (initial par, {}) events
      (node, issued)) (hsuppress : Suppresses node head) :
    Outstanding node issued head.sid := by
  have hinvariant : Invariant (node, issued) :=
    hrun.invariant (fun _ _ _ h hstep ↦ h.step hstep) (invariant_initial hflood)
  exact hinvariant.outstanding hsuppress.2.2.2

/-- The header of a GET for the content of node 9 that node 3 has just sent. -/
def secondGet : Get := { sid := ⟨⟨9⟩, 1⟩, source := ⟨3⟩, lastHop := ⟨3⟩, nonce := 8 }

theorem outstanding_of_suppresses_flooded :
    ∃ s, (watched.restrict PassesOn).Run (initial relay, {}) [getFrom 0 ⟨2⟩ 2 7] s ∧
      Suppresses s.1 secondGet ∧ Outstanding s.1 s.2 secondGet.sid := by
  have hexec : ((watched.restrict PassesOn).exec (initial relay, {}) [getFrom 0 ⟨2⟩ 2 7]).any
      fun s ↦ decide (Suppresses s.1 secondGet) := by
    decide +kernel
  obtain ⟨⟨node, issued⟩, hrun, hsuppress⟩ := Machine.exists_run_of_exec hexec
  exact ⟨(node, issued), hrun, hsuppress,
    outstanding_of_suppresses rfl hrun hsuppress⟩

/-- A route to node 9 becomes known.  Then a GET that goes from node 2 to node 7 is overheard. -/
def overhearing : List NodeEvent :=
  [⟨0, .receive (.data { head := { sid := ⟨⟨9⟩, 2⟩, lastHop := ⟨9⟩, comeFromSource := true }
                         payload := [] }) 4 0⟩,
    ⟨1, .receive (.get { head := { secondGet with source := ⟨2⟩, nexthop := ⟨7⟩, nonce := 7 } }) 2
      1000⟩]

/-- The overheard GET opens a record.  A GET for the same SID that is addressed to the node is then
suppressed, though the node has asked for nothing. -/
theorem not_outstanding_overheard :
    ∃ s, watched.Run (initial relay, {}) overhearing s ∧
      s.1.par.flood = false ∧ Suppresses s.1 secondGet ∧
      ¬Outstanding s.1 s.2 secondGet.sid := by
  have hexec : (watched.exec (initial relay, {}) overhearing).any fun s ↦
      decide (s.1.par.flood = false ∧ Suppresses s.1 secondGet ∧
        ¬Outstanding s.1 s.2 secondGet.sid) := by
    decide +kernel
  exact Machine.exists_run_of_exec hexec

end Inet4.Icn.ColorNoCluster
