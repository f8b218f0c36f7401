import Inet4.Icn.DelayQueueCancellation
import Inet4.Icn.NodeRuns

/-!
# Overheard copies of a delayed GET

A GET that waits in the delay queue is not sent if enough copies of it are overheard in the
meantime. A copy counts when it would itself be flooded: the node misses its content, has no record
of its SID, and knows no route.  Putting the GET into the queue opens a record, so that a copy does
not count until the record is gone.
-/

namespace Inet4.Icn

open List Machine PendPkt SimTime
open Except (ok)

/-- What `have` compares of a GET. -/
structure GetId where
  sid : SID
  source : NID
  nonce : ℤ
  deriving DecidableEq

def Get.id (head : Get) : GetId := ⟨head.sid, head.source, head.nonce⟩

/-- The GET that an element of the delay queue holds. -/
def Ticket.id? (ticket : Ticket) : Option GetId :=
  match ticket.pkt with
  | some (.get packet) => some packet.head.id
  | _ => none

namespace DelayQueue

variable {q q' : DelayQueue} {now time : SimTime} {forwardTimes : ℤ} {packet : GetPacket}
variable {entry iter : PendPkt} {queue rest : List PendPkt} {found : Bool} {id id' : GetId}
variable {pkt : Packet} {type : TYPE}

/-- The counter of a GET that is queued. -/
def counterIn (queue : List PendPkt) (id : GetId) : Option ℤ :=
  (queue.find? fun iter ↦ iter.ticket.id? = some id).map tc

/-- The counter of a GET that is queued. -/
def counter (q : DelayQueue) (id : GetId) : Option ℤ := counterIn q.priQueue id

theorem counterIn_cons_of_eq (h : iter.ticket.id? = some id) :
    counterIn (iter :: rest) id = some iter.tc := by
  simp [counterIn, h]

theorem counterIn_cons_of_ne (h : iter.ticket.id? ≠ some id) :
    counterIn (iter :: rest) id = counterIn rest id := by
  simp [counterIn, h]

theorem counterIn_eq_none : counterIn queue id = none ↔
    ∀ iter ∈ queue, iter.ticket.id? ≠ some id := by
  simp [counterIn]

theorem counterIn_append_of_forall (h : ∀ iter ∈ queue, iter.ticket.id? ≠ some id) :
    counterIn (queue ++ rest) id = counterIn rest id := by
  induction queue with
  | nil => rfl
  | cons iter queue ih =>
    obtain ⟨hiter, hqueue⟩ := forall_mem_cons.mp h
    exact (counterIn_cons_of_ne hiter).trans (ih hqueue)

theorem counterIn_append_cons_of_ne (h : iter.ticket.id? ≠ some id) :
    counterIn (queue ++ iter :: rest) id = counterIn (queue ++ rest) id := by
  induction queue with
  | nil => exact counterIn_cons_of_ne h
  | cons first queue ih =>
    by_cases hfirst : first.ticket.id? = some id
    · exact (counterIn_cons_of_eq hfirst).trans (counterIn_cons_of_eq hfirst).symm
    · exact (counterIn_cons_of_ne hfirst).trans (ih.trans (counterIn_cons_of_ne hfirst).symm)

/-- Every element holds a GET, no GET twice, and the timer stands at the first send time. -/
structure HoldsGets (q : DelayQueue) : Prop where
  wellFormed : q.WellFormed
  gets : ∀ ticket ∈ q.tickets, ticket.type = .GET ∧ ∃ packet, ticket.pkt = some (.get packet)
  distinct : (q.tickets.map Ticket.id?).Nodup

theorem holdsGets_empty : HoldsGets {} where
  wellFormed := wellFormed_empty
  gets _ h := absurd h not_mem_nil
  distinct := nodup_nil

/-- The search for a GET compares what identifies it. -/
theorem HoldsGets.matches_iff (h : q.HoldsGets) (hiter : iter ∈ q.priQueue) :
    iter.Matches (.get packet) ↔ iter.ticket.id? = some packet.head.id := by
  obtain ⟨htype, queued, hqueued⟩ := h.gets iter.ticket (mem_map_of_mem hiter)
  have htype' : iter.type = .GET := htype
  have hqueued' : iter.pkt = some (.get queued) := hqueued
  simp only [Matches, Ticket.id?, hqueued, hqueued', htype', isSame, Packet.peekGet, bind,
    Except.bind, pure, Except.pure, Get.id, Option.some.injEq, exists_eq_left', ok.injEq,
    decide_eq_true_eq, GetId.mk.injEq]
  rw [eq_comm, @eq_comm _ packet.head.source, @eq_comm _ packet.head.nonce]

theorem modify_append_length (before : List PendPkt) :
    (before ++ iter :: rest).modify before.length decrease =
      before ++ iter.decrease :: rest := by
  induction before with
  | nil => rfl
  | cons first before ih => exact (modify_succ_cons ..).trans (congrArg (first :: ·) ih)

/-- In a queue without repetition one counter goes down by one. -/
theorem counterIn_decrease {before : List PendPkt} (hstop : iter.ticket.id? = some id)
    (hbefore : ∀ iter ∈ before, iter.ticket.id? ≠ some id) :
    counterIn (before ++ iter.decrease :: rest) id' =
      if id' = id then (counterIn (before ++ iter :: rest) id).map (· - 1)
      else counterIn (before ++ iter :: rest) id' := by
  by_cases heq : id' = id
  · subst heq
    rw [if_pos rfl, counterIn_append_of_forall hbefore, counterIn_append_of_forall hbefore,
      counterIn_cons_of_eq hstop, counterIn_cons_of_eq (by exact hstop)]
    rfl
  · have hother : iter.ticket.id? ≠ some id' := by
      rw [hstop]
      exact fun h ↦ heq (Option.some.inj h).symm
    rw [if_neg heq, counterIn_append_cons_of_ne hother,
      counterIn_append_cons_of_ne (by exact hother)]

/-- Whether a GET is found, and what becomes of the counters. -/
theorem HoldsGets.checkAndDecrease (h : q.HoldsGets)
    (hok : q.checkAndDecrease (.get packet) = .ok (found, q')) :
    q'.HoldsGets ∧ (found = true ↔ q.counter packet.head.id ≠ none) ∧
      ∀ id, q'.counter id =
        if id = packet.head.id then (q.counter packet.head.id).map (· - 1) else q.counter id := by
  obtain ⟨hwf, htickets⟩ := checkAndDecrease_spec h.wellFormed hok
  have hgets : q'.HoldsGets := by
    refine ⟨hwf, ?_, ?_⟩
    · rw [htickets]
      exact h.gets
    · rw [htickets]
      exact h.distinct
  refine ⟨hgets, ?_⟩
  have hpassed : ∀ iter ∈ q.priQueue, iter.pkt ≠ none ∧ ¬iter.Matches (.get packet) →
      iter.ticket.id? ≠ some packet.head.id :=
    fun iter hiter hpassed hid ↦ hpassed.2 ((h.matches_iff hiter).mpr hid)
  obtain ⟨⟨position, priQueue⟩, hfind, hok⟩ := bind_eq_ok hok
  rcases haveFrom_spec hfind with
    ⟨before, stop, behind, hqueue, hbefore, ⟨hmatches, rfl, rfl⟩ | ⟨hnone, -, -⟩⟩ | ⟨hall, rfl, rfl⟩
  · obtain ⟨rfl, rfl⟩ := Prod.mk.inj (ok.inj hok)
    have hmem : stop ∈ q.priQueue := by
      rw [hqueue]
      exact mem_append_right _ mem_cons_self
    have hstop := (h.matches_iff hmem).mp hmatches
    have hbefore' : ∀ iter ∈ before, iter.ticket.id? ≠ some packet.head.id := by
      intro iter hiter
      refine hpassed iter ?_ (hbefore iter hiter)
      rw [hqueue]
      exact mem_append_left _ hiter
    have hmodify : q.priQueue.modify before.length decrease =
        before ++ stop.decrease :: behind := by
      rw [hqueue]
      exact modify_append_length before
    constructor
    · refine iff_of_true rfl ?_
      rw [Ne, counter, counterIn_eq_none]
      exact fun hnone ↦ hnone stop hmem hstop
    · intro id
      rw [counter, counter, counter, hmodify, hqueue]
      exact counterIn_decrease hstop hbefore'
  · refine absurd hnone (h.wellFormed.held stop ?_)
    rw [hqueue]
    exact mem_append_right _ mem_cons_self
  · obtain ⟨rfl, rfl⟩ := Prod.mk.inj (ok.inj hok)
    have hnone : q.counter packet.head.id = none :=
      counterIn_eq_none.mpr fun iter hiter ↦ hpassed iter hiter (hall iter hiter)
    constructor
    · exact iff_of_false (by simp) (by simp [hnone])
    · intro id
      split
      · rename_i heq
        rw [heq, hnone]
        rfl
      · rfl

theorem counterIn_insertBefore_of_ne (h : entry.ticket.id? ≠ some id) :
    counterIn (insertBefore entry queue) id = counterIn queue id := by
  induction queue with
  | nil => rfl
  | cons iter rest ih =>
    unfold insertBefore
    split
    · by_cases hiter : iter.ticket.id? = some id
      · exact (counterIn_cons_of_eq hiter).trans (counterIn_cons_of_eq hiter).symm
      · exact (counterIn_cons_of_ne hiter).trans (ih.trans (counterIn_cons_of_ne hiter).symm)
    · exact counterIn_cons_of_ne h

theorem counter_eq_none_iff : q.counter id = none ↔ some id ∉ q.tickets.map Ticket.id? := by
  rw [counter, counterIn_eq_none, tickets, map_map, mem_map, not_exists]
  exact forall_congr' fun iter ↦ (not_and (a := iter ∈ q.priQueue)).symm

/-- What is inserted stands in the queue or is lost. -/
theorem insert_perm_or_lost (hok : q.insert now pkt type time forwardTimes = .ok q') :
    q'.priQueue.Perm (⟨some pkt, type, time, forwardTimes⟩ :: q.priQueue) ∨
      q'.priQueue = q.priQueue := by
  by_cases hplace : q.HasPlaceFor time
  · exact .inl (insert_perm hplace hok)
  · obtain ⟨hne, hearlier⟩ := not_or.mp hplace
    refine .inr ?_
    rw [priQueue_insert hok, if_neg hne]
    apply insertBefore_lost
    intro iter hiter
    by_contra hlater
    exact hearlier ⟨iter, hiter, Int.not_lt.mp hlater⟩

/-- A GET of which no copy is queued enters the queue with its counter, unless it is lost. -/
theorem HoldsGets.insert (h : q.HoldsGets) (hnew : q.counter packet.head.id = none)
    (hnow : now ≤ time) (hok : q.insert now (.get packet) .GET time forwardTimes = .ok q') :
    q'.HoldsGets ∧ (∀ c, q'.counter packet.head.id = some c → c = forwardTimes) ∧
      ∀ id, id ≠ packet.head.id → q'.counter id = q.counter id := by
  obtain ⟨q'', hok', hwf, hqueue⟩ := insert_spec (.get packet) .GET forwardTimes h.wellFormed hnow
  obtain rfl := ok.inj (hok'.symm.trans hok)
  have hcounter : ∀ id, id ≠ packet.head.id → q''.counter id = q.counter id := by
    intro id hid
    have hother : Ticket.id? ⟨some (.get packet), .GET, time⟩ ≠ some id :=
      fun heq ↦ hid (Option.some.inj heq).symm
    rw [counter, hqueue]
    split
    · rename_i hempty
      rw [counter, hempty]
      exact counterIn_cons_of_ne hother
    · exact counterIn_insertBefore_of_ne hother
  rcases insert_perm_or_lost hok' with hperm | hlost
  · have htickets : q''.tickets.Perm (⟨some (.get packet), .GET, time⟩ :: q.tickets) :=
      hperm.map ticket
    refine ⟨⟨hwf, ?_, ?_⟩, ?_, hcounter⟩
    · intro ticket hticket
      rcases mem_cons.mp (htickets.mem_iff.mp hticket) with rfl | hold
      · exact ⟨rfl, packet, rfl⟩
      · exact h.gets ticket hold
    · rw [(htickets.map Ticket.id?).nodup_iff]
      exact nodup_cons.mpr ⟨counter_eq_none_iff.mp hnew, h.distinct⟩
    · intro c hc
      obtain ⟨iter, hfind, rfl⟩ := Option.map_eq_some_iff.mp hc
      rcases mem_cons.mp (hperm.mem_iff.mp (mem_of_find?_eq_some hfind)) with rfl | hold
      · rfl
      · have hid : iter.ticket.id? = some packet.head.id := by simpa using find?_some hfind
        exact absurd hid (counterIn_eq_none.mp hnew iter hold)
  · have htickets : q''.tickets = q.tickets := congrArg (map ticket) hlost
    refine ⟨⟨hwf, ?_, ?_⟩, ?_, hcounter⟩
    · rw [htickets]
      exact h.gets
    · rw [htickets]
      exact h.distinct
    · intro c hc
      rw [counter, hlost] at hc
      rw [counter, hc] at hnew
      cases hnew

end DelayQueue

namespace ColorNoCluster

variable {node node' mid : ColorNoCluster} {now delay : SimTime} {srcAddress : MacAddress}
variable {packet : GetPacket} {id : GetId} {event : NodeEvent} {events : List NodeEvent}

/-- The event is the arrival of a copy of a GET. -/
def BringsCopy (id : GetId) (event : NodeEvent) : Prop :=
  match event.action with
  | .receive (.get packet) _ _ => packet.head.id = id
  | _ => False

/-- A GET that arrives is flooded: the content is missing, its SID has no record, and no route is
taken. -/
def Floods (node : ColorNoCluster) (now : SimTime) (head : Get) (srcAddress : MacAddress) : Prop :=
  Misses node head ∧ node.pit.haveSID head.sid = false ∧
    (node.par.flood = true ∨ head.nexthop.isDefault = true ∧
      routeFor node now head srcAddress = none)

/-- A copy of the GET arrives that counts. -/
def Counts (id : GetId) (node : ColorNoCluster) (event : NodeEvent) : Prop :=
  match event.action with
  | .receive (.get packet) srcAddress _ =>
    packet.head.id = id ∧ Floods node event.now packet.head srcAddress
  | _ => False

instance (id : GetId) (event : NodeEvent) : Decidable (BringsCopy id event) :=
  match event with
  | ⟨_, .receive (.get _) _ _⟩ => inferInstanceAs (Decidable (_ = _))
  | ⟨_, .receive (.data _) _ _⟩ | ⟨_, .delayer⟩ | ⟨_, .pitTimer ..⟩ | ⟨_, .bindPort ..⟩
  | ⟨_, .sendGET ..⟩ | ⟨_, .cacheData ..⟩ => isFalse fun h ↦ h

instance (node : ColorNoCluster) (now : SimTime) (head : Get) (srcAddress : MacAddress) :
    Decidable (Floods node now head srcAddress) :=
  inferInstanceAs (Decidable (_ ∧ _))

instance (id : GetId) (node : ColorNoCluster) (event : NodeEvent) :
    Decidable (Counts id node event) :=
  match event with
  | ⟨_, .receive (.get _) _ _⟩ => inferInstanceAs (Decidable (_ ∧ _))
  | ⟨_, .receive (.data _) _ _⟩ | ⟨_, .delayer⟩ | ⟨_, .pitTimer ..⟩ | ⟨_, .bindPort ..⟩
  | ⟨_, .sendGET ..⟩ | ⟨_, .cacheData ..⟩ => isFalse fun h ↦ h

/-- The number of copies that arrive. -/
def copiesHeard (id : GetId) (events : List NodeEvent) : ℕ :=
  events.countP fun event ↦ BringsCopy id event

/-- The number of copies that count. -/
def copiesCounted (id : GetId) : ColorNoCluster → List NodeEvent → ℕ
  | _, [] => 0
  | node, event :: events =>
    (if Counts id node event then 1 else 0) +
      match node.handle event with
      | .ok node' => copiesCounted id node' events
      | .error _ => 0

/-- The delay that is drawn for a GET is not negative. -/
def Timely (_ : ColorNoCluster) (event : NodeEvent) : Prop :=
  match event.action with
  | .receive _ _ delay => 0 ≤ delay
  | _ => True

/-- The GET waits in the delay queue. -/
def Holds (id : GetId) (node : ColorNoCluster) (_ : NodeEvent) : Prop :=
  node.delayQueue.counter id ≠ none

instance (node : ColorNoCluster) (event : NodeEvent) : Decidable (Timely node event) :=
  match event with
  | ⟨_, .receive ..⟩ => inferInstanceAs (Decidable (_ ≤ _))
  | ⟨_, .delayer⟩ | ⟨_, .pitTimer ..⟩ | ⟨_, .bindPort ..⟩ | ⟨_, .sendGET ..⟩ | ⟨_, .cacheData ..⟩ =>
    isTrue trivial

/-! ## What an event does to the counters -/

/-- A GET is flooded, or the delay queue is the same. -/
theorem passOn_flooded {route : Option Croute}
    (h : node.passOn now packet route srcAddress delay = .ok node') :
    node.pit.haveSID packet.head.sid = false ∧
        (node.par.flood = true ∨ packet.head.nexthop.isDefault = true ∧ route = none) ∧
        node.floodGet now packet srcAddress delay = .ok node' ∨
      ¬(node.pit.haveSID packet.head.sid = false ∧
          (node.par.flood = true ∨ packet.head.nexthop.isDefault = true ∧ route = none)) ∧
        node'.delayQueue = node.delayQueue := by
  unfold passOn at h
  split at h
  · rename_i hsid
    obtain rfl := ok.inj h
    refine .inr ⟨?_, rfl⟩
    rintro ⟨hnone, -⟩
    rw [hnone] at hsid
    cases hsid
  · rename_i hsid
    have hnone := Bool.eq_false_iff.mpr hsid
    cases hflood : node.par.flood with
    | true =>
      simp only [hflood, Bool.or_true, if_true] at h
      exact .inl ⟨hnone, .inl rfl, h⟩
    | false =>
      cases route with
      | some r =>
        simp only [hflood] at h
        exact .inr ⟨by simp, (forwardGet_spec h).2.1⟩
      | none =>
        simp only [hflood, Bool.or_false] at h
        split at h
        · rename_i hdefault
          exact .inl ⟨hnone, .inr ⟨hdefault, rfl⟩, h⟩
        · rename_i hdefault
          obtain rfl := ok.inj h
          exact .inr ⟨by simp [hdefault], rfl⟩

/-- A GET that is not flooded leaves the delay queue alone. -/
theorem handleGetPacket_not_flooded
    (h : node.handleGetPacket now packet srcAddress delay = .ok node')
    (hfloods : ¬Floods node now packet.head srcAddress) : node'.delayQueue = node.delayQueue := by
  by_cases hmiss : Misses node packet.head
  · obtain ⟨rt, mid, hpass, hremember⟩ := handleGetPacket_missed hmiss h
    obtain ⟨pit, rfl, -⟩ := remember_spec hremember
    rcases passOn_flooded hpass with ⟨hsid, hroute, -⟩ | ⟨-, hqueue⟩
    · exact absurd ⟨hmiss, hsid, hroute⟩ hfloods
    · exact hqueue
  · exact (handleGetPacket_served hmiss h).delayQueue

/-- A GET that is flooded is counted down or queued. -/
theorem handleGetPacket_flooded
    (h : node.handleGetPacket now packet srcAddress delay = .ok node')
    (hfloods : Floods node now packet.head srcAddress) :
    ∃ found delayQueue, node.delayQueue.checkAndDecrease (.get (node.floodedGet packet)) =
        .ok (found, delayQueue) ∧
      (found = false → delayQueue.insert now (.get (node.floodedGet packet)) .GET (now + delay)
        node.par.TC = .ok node'.delayQueue) ∧
      (found = true → node'.delayQueue = delayQueue) := by
  obtain ⟨hmiss, hsid, hroute⟩ := hfloods
  obtain ⟨rt, mid, hpass, hremember⟩ := handleGetPacket_missed hmiss h
  obtain ⟨pit, rfl, -⟩ := remember_spec hremember
  rcases passOn_flooded hpass with ⟨-, -, hflood⟩ | ⟨hnot, -⟩
  · obtain ⟨-, -, -, hqueue⟩ := floodGet_spec (by exact hsid) hflood
    exact hqueue
  · exact absurd ⟨hsid, hroute⟩ hnot

/-- What an event makes of the counter of a GET: a GET that waits loses as many as copies count, or
is gone, and a GET that enters the queue has the full counter. -/
structure Evolves (id : GetId) (counted TC : ℤ) (q q' : DelayQueue) : Prop where
  holdsGets : q'.HoldsGets
  waiting : ∀ c, q.counter id = some c → q'.counter id ≠ none → q'.counter id = some (c - counted)
  entering : q.counter id = none → ∀ c, q'.counter id = some c → c = TC

theorem evolves_refl {q : DelayQueue} (h : q.HoldsGets) (TC : ℤ) : Evolves id 0 TC q q where
  holdsGets := h
  waiting c hc _ := by rw [hc, Int.sub_zero]
  entering hnone c hc := by
    rw [hnone] at hc
    cases hc

theorem evolves_flooded (hgets : node.delayQueue.HoldsGets) (hdelay : 0 ≤ delay)
    (h : node.handleGetPacket now packet srcAddress delay = .ok node')
    (hfloods : Floods node now packet.head srcAddress) (id : GetId) :
    Evolves id (if packet.head.id = id then 1 else 0) node.par.TC node.delayQueue
      node'.delayQueue := by
  obtain ⟨found, delayQueue, hfound, hinsert, hsame⟩ := handleGetPacket_flooded h hfloods
  obtain ⟨hcounted, hfoundIff, hcounter⟩ := hgets.checkAndDecrease hfound
  have hid : (node.floodedGet packet).head.id = packet.head.id := rfl
  rw [hid] at hfoundIff hcounter
  cases found with
  | true =>
    rw [hsame rfl]
    refine ⟨hcounted, ?_, ?_⟩
    · intro c hc _
      rw [hcounter]
      by_cases heq : id = packet.head.id
      · rw [if_pos heq, if_pos heq.symm, ← heq, hc]
        rfl
      · rw [if_neg heq, if_neg (Ne.symm heq), hc, Int.sub_zero]
    · intro hnone c hc
      rw [hcounter] at hc
      by_cases heq : id = packet.head.id
      · rw [if_pos heq, ← heq, hnone] at hc
        cases hc
      · rw [if_neg heq, hnone] at hc
        cases hc
  | false =>
    have hnew : node.delayQueue.counter packet.head.id = none := by
      by_contra hsome
      exact absurd (hfoundIff.mpr hsome) Bool.false_ne_true
    have hunchanged : ∀ id, delayQueue.counter id = node.delayQueue.counter id := by
      intro id
      rw [hcounter]
      split
      · rename_i heq
        rw [heq, hnew]
        rfl
      · rfl
    have hnew' : delayQueue.counter (node.floodedGet packet).head.id = none := by
      rw [hid, hunchanged, hnew]
    obtain ⟨hentered, hfull, hothers⟩ :=
      hcounted.insert hnew' (Int.le_add_of_nonneg_right hdelay) (hinsert rfl)
    refine ⟨hentered, ?_, ?_⟩
    · intro c hc _
      have heq : id ≠ packet.head.id := by
        rintro rfl
        rw [hnew] at hc
        cases hc
      rw [hothers id heq, hunchanged, hc, if_neg (Ne.symm heq), Int.sub_zero]
    · intro hnone c hc
      by_cases heq : id = packet.head.id
      · subst heq
        exact hfull c hc
      · rw [hothers id heq, hunchanged, hnone] at hc
        cases hc

/-- An entry that holds a GET takes another route. -/
theorem exists_redirect {first : PendPkt} (htype : first.type = .GET)
    (hpkt : ∃ packet, first.pkt = some (.get packet)) :
    ∃ iter rt, node.redirect now first = .ok (iter, { node with rt }) ∧ iter.tc = first.tc ∧
      iter.sendtime = first.sendtime ∧ iter.pkt ≠ none := by
  obtain ⟨packet, hpacket⟩ := hpkt
  simp only [redirect, htype, hpacket]
  exact ⟨_, _, rfl, rfl, rfl, by simp⟩

/-- The timer of the delay queue takes out the first GET and sends it unless its counter has run
out. -/
theorem exists_handleDelayer (hgets : node.delayQueue.HoldsGets)
    (htimer : node.delayQueue.timer = some now) :
    ∃ first node', node.delayQueue.priQueue = first :: node'.delayQueue.priQueue ∧
      node.handleDelayer now = .ok node' ∧ node'.delayQueue.HoldsGets ∧
      (node'.queueOut = node.queueOut ↔ first.tc < 1) := by
  obtain ⟨hsorted, hheld, harmed⟩ := hgets.wellFormed
  have hdistinct := hgets.distinct
  cases hqueue : node.delayQueue.priQueue with
  | nil =>
    rw [htimer, DelayQueue.due, hqueue] at harmed
    cases harmed
  | cons first rest =>
    have hfirst : now = first.sendtime := by
      rw [htimer, DelayQueue.due, hqueue] at harmed
      exact Option.some.inj harmed
    have htickets : node.delayQueue.tickets = first.ticket :: rest.map ticket :=
      congrArg (map ticket) hqueue
    rw [hqueue] at hsorted hheld
    rw [htickets, map_cons] at hdistinct
    obtain ⟨htype, hpkt⟩ := hgets.gets first.ticket (htickets ▸ mem_cons_self)
    obtain ⟨iter, rt, hredirect, htc, hsendtime, hiter⟩ := exists_redirect htype hpkt
    have hrest := pairwise_cons.mp hsorted
    have hwf : DelayQueue.WellFormed ⟨iter :: rest, some now⟩ := by
      refine ⟨pairwise_cons.mpr ⟨?_, hrest.2⟩, ?_, ?_⟩
      · rw [hsendtime]
        exact hrest.1
      · exact forall_mem_cons.mpr ⟨hiter, (forall_mem_cons.mp hheld).2⟩
      · rw [hfirst, ← hsendtime]
        rfl
    obtain ⟨queue, hpop, hwf', hpriQueue⟩ :=
      DelayQueue.popAtFront_spec hwf rfl (hfirst.trans hsendtime.symm).le
    have hholds : queue.HoldsGets := by
      have htickets' : queue.tickets = rest.map ticket :=
        congrArg (map ticket) hpriQueue
      refine ⟨hwf', ?_, ?_⟩
      · rw [htickets']
        intro ticket hticket
        apply hgets.gets
        rw [htickets]
        exact mem_cons_of_mem _ hticket
      · rw [htickets']
        exact (nodup_cons.mp hdistinct).2
    by_cases hout : first.tc < 1
    · rw [htc, if_pos hout] at hpop
      refine ⟨first, { node with rt, delayQueue := queue }, by rw [hpriQueue], ?_, hholds,
        iff_of_true rfl hout⟩
      simp only [handleDelayer, hqueue]
      rw [bind_of_ok hredirect]
      rw [bind_of_ok hpop]
      rfl
    · obtain ⟨packet, hpacket⟩ := Option.ne_none_iff_exists'.mp hiter
      rw [htc, if_neg hout, hpacket] at hpop
      refine ⟨first, { node with rt, delayQueue := queue }.sendDatagramToOutput packet
        BROADCAST_ADDRESS, by rw [← hpriQueue]; rfl, ?_, hholds, iff_of_false ?_ hout⟩
      · simp only [handleDelayer, hqueue]
        rw [bind_of_ok hredirect]
        rw [bind_of_ok hpop]
        rfl
      · exact fun heq ↦ absurd (congrArg length heq) (by simp [sendDatagramToOutput])

/-- Every other event leaves the delay queue alone. -/
theorem delayQueue_eq_of_step (hstep : machine.Step node event node')
    (hdelayer : event.action ≠ .delayer)
    (hfloods : ∀ packet srcAddress delay, event.action = .receive (.get packet) srcAddress delay →
      ¬Floods node event.now packet.head srcAddress) :
    node'.delayQueue = node.delayQueue := by
  rcases handle_cases hstep with hquiet | ⟨haction, -⟩ | ⟨packet, src, delay, haction, -, hget⟩
  · exact hquiet.delayQueue
  · exact absurd haction hdelayer
  · exact handleGetPacket_not_flooded hget (hfloods packet src delay haction)

theorem evolves_step (hgets : node.delayQueue.HoldsGets) (hstep : machine.Step node event node')
    (htimely : Timely node event) (id : GetId) :
    Evolves id (if Counts id node event then 1 else 0) node.par.TC node.delayQueue
      node'.delayQueue := by
  have hother (hdelayer : event.action ≠ .delayer)
      (hfloods : ∀ packet srcAddress delay, event.action = .receive (.get packet) srcAddress delay →
        ¬Floods node event.now packet.head srcAddress) (hcounts : ¬Counts id node event) :
      Evolves id (if Counts id node event then 1 else 0) node.par.TC node.delayQueue
        node'.delayQueue := by
    rw [delayQueue_eq_of_step hstep hdelayer hfloods, if_neg hcounts]
    exact evolves_refl hgets _
  obtain ⟨now, action⟩ := event
  cases action with
  | receive received srcAddress delay =>
    cases received with
    | data packet => exact hother (by simp) (by simp) fun h ↦ h
    | get packet =>
      by_cases hfloods : Floods node now packet.head srcAddress
      · have hflooded := evolves_flooded hgets htimely hstep.2 hfloods id
        have hcounts : Counts id node ⟨now, .receive (.get packet) srcAddress delay⟩ ↔
            packet.head.id = id := and_iff_left hfloods
        simpa only [hcounts] using hflooded
      · refine hother (by simp) ?_ fun h ↦ hfloods h.2
        intro packet' src' delay' heq
        obtain ⟨rfl, rfl, rfl⟩ := heq
        exact hfloods
  | delayer =>
    obtain ⟨first, next, hqueue, hok, hholds, -⟩ := exists_handleDelayer hgets hstep.1
    obtain rfl := ok.inj (hok.symm.trans hstep.2)
    have hdistinct := hgets.distinct
    rw [DelayQueue.tickets, hqueue, map_cons, map_cons, map_map] at hdistinct
    obtain ⟨hnew, -⟩ := nodup_cons.mp hdistinct
    refine ⟨hholds, ?_, ?_⟩
    · intro c hc hwaits
      have hother : first.ticket.id? ≠ some id := by
        intro heq
        apply hwaits
        rw [DelayQueue.counter, DelayQueue.counterIn_eq_none]
        intro iter hiter hid
        exact hnew (mem_map.mpr ⟨iter, hiter, hid.trans heq.symm⟩)
      rw [DelayQueue.counter, hqueue, DelayQueue.counterIn_cons_of_ne hother] at hc
      rw [if_neg (by exact fun h ↦ h), Int.sub_zero]
      exact hc
    · intro hnone c hc
      rw [DelayQueue.counter, hqueue, DelayQueue.counterIn_eq_none] at hnone
      have hgone : next.delayQueue.counter id = none :=
        DelayQueue.counterIn_eq_none.mpr (forall_mem_cons.mp hnone).2
      rw [hgone] at hc
      cases hc
  | pitTimer timer deleted | bindPort port socketId | sendGET sid port nonce
  | cacheData sid payload =>
    exact hother (by simp) (by simp) fun h ↦ h

theorem par_of_step (hstep : machine.Step node event node') : node'.par = node.par := by
  rcases handle_cases hstep with hquiet | ⟨-, hdelayer⟩ | ⟨packet, src, delay, -, hmiss, hget⟩
  · exact hquiet.par
  · exact (handleDelayer_spec hdelayer).1
  · exact (handleGetPacket_pit hmiss hget).1

/-! ## Runs -/

/-- A node with the kernel, which draws no negative delays. -/
abbrev timely : Machine ColorNoCluster NodeEvent Fault := machine.restrict Timely

variable {par : Parameters}

theorem holdsGets_of_run (hrun : timely.Run (initial par) events node) :
    node.delayQueue.HoldsGets ∧ node.par = par := by
  refine hrun.invariant (P := fun node ↦ node.delayQueue.HoldsGets ∧ node.par = par) ?_
    ⟨DelayQueue.holdsGets_empty, rfl⟩
  rintro node event node' ⟨hgets, hpar⟩ hstep
  obtain ⟨hstep, htimely⟩ := step_restrict_iff.mp hstep
  exact ⟨(evolves_step hgets hstep htimely ⟨default, default, 0⟩).holdsGets,
    (par_of_step hstep).trans hpar⟩

/-- A GET that waits at the end of a run throughout which it waits also waits at its beginning. -/
theorem holds_of_run (hrun : (timely.restrict (Holds id)).Run node events node')
    (hholds : node'.delayQueue.counter id ≠ none) : node.delayQueue.counter id ≠ none := by
  cases hrun with
  | nil => exact hholds
  | cons hstep _ => exact (step_restrict_iff.mp hstep).2

/-- The counter of a GET that waits has gone down by the number of copies that count. -/
theorem counter_of_run {c : ℤ} (hrun : (timely.restrict (Holds id)).Run node events node')
    (hgets : node.delayQueue.HoldsGets) (hc : node.delayQueue.counter id = some c)
    (hholds : node'.delayQueue.counter id ≠ none) :
    node'.delayQueue.HoldsGets ∧
      node'.delayQueue.counter id = some (c - copiesCounted id node events) := by
  induction hrun generalizing c with
  | nil node => exact ⟨hgets, by simp [copiesCounted, hc]⟩
  | @cons node mid node' event events hfirst hrest ih =>
    obtain ⟨hstep, htimely⟩ := step_restrict_iff.mp (step_restrict_iff.mp hfirst).1
    have hevolves := evolves_step hgets hstep htimely id
    have hmid := hevolves.waiting c hc (holds_of_run hrest hholds)
    obtain ⟨hgets', hcounter⟩ := ih hevolves.holdsGets hmid hholds
    refine ⟨hgets', ?_⟩
    have hok : node.handle event = .ok mid := hstep.2
    have hcounted : copiesCounted id node (event :: events) =
        (if Counts id node event then 1 else 0) + copiesCounted id mid events := by
      rw [copiesCounted, hok]
    rw [hcounter, hcounted]
    push_cast
    rw [Int.sub_sub]

/-- A GET enters the delay queue of a node, and while it waits there the node handles events until
the timer is due for it. -/
structure Delays (par : Parameters) (id : GetId) (before during : List NodeEvent)
    (arrival : NodeEvent) (now : SimTime) (node node' : ColorNoCluster) : Prop where
  /-- The state after the arrival that puts the GET into the queue. -/
  queued : ∃ start, timely.Run (initial par) before start ∧ timely.Step start arrival node ∧
    start.delayQueue.counter id = none ∧ node.delayQueue.counter id ≠ none
  waits : (timely.restrict (Holds id)).Run node during node'
  due : node'.delayQueue.timer = some now
  first : ∃ iter ∈ node'.delayQueue.priQueue.head?, iter.ticket.id? = some id

/-- The timer takes the GET out of the delay queue and does not send it. -/
def DropsDelayed (node : ColorNoCluster) (now : SimTime) : Prop :=
  ∃ node', node.handleDelayer now = .ok node' ∧ node'.queueOut = node.queueOut

/-- A GET that was queued is dropped when it is due exactly when enough copies count; so enough
copies that merely arrive keep it from being sent exactly when enough of them count. -/
theorem suppressed_iff {before during : List NodeEvent} {arrival : NodeEvent}
    (h : Delays par id before during arrival now node node') :
    (DropsDelayed node' now ↔ par.TC ≤ copiesCounted id node during) ∧
    ((par.TC ≤ copiesHeard id during → DropsDelayed node' now) ↔
      (par.TC ≤ copiesHeard id during → par.TC ≤ copiesCounted id node during)) := by
  obtain ⟨start, hbefore, harrival, hnone, hsome⟩ := h.queued
  obtain ⟨hgets, hpar⟩ := holdsGets_of_run hbefore
  obtain ⟨hstep, htimely⟩ := step_restrict_iff.mp harrival
  have hevolves := evolves_step hgets hstep htimely id
  obtain ⟨c, hc⟩ := Option.ne_none_iff_exists'.mp hsome
  have hTC := hevolves.entering hnone c hc
  rw [hpar] at hTC
  obtain ⟨iter, hiter, hid⟩ := h.first
  have hhead : node'.delayQueue.priQueue.head? = some iter := hiter
  have hholds : node'.delayQueue.counter id = some iter.tc := by
    obtain ⟨rest, hrest⟩ := head?_eq_some_iff.mp hhead
    rw [DelayQueue.counter, hrest]
    exact DelayQueue.counterIn_cons_of_eq hid
  obtain ⟨hgets', hcounter⟩ := counter_of_run h.waits hevolves.holdsGets hc (by simp [hholds])
  obtain ⟨first, next, hqueue, hok, -, hsent⟩ := exists_handleDelayer hgets' h.due
  have hfirst : first = iter := by
    rw [hqueue] at hhead
    exact Option.some.inj hhead
  have htc : iter.tc = par.TC - copiesCounted id node during := by
    rw [hholds, hTC] at hcounter
    exact Option.some.inj hcounter
  have hdrops : DropsDelayed node' now ↔ par.TC ≤ copiesCounted id node during := by
    constructor
    · rintro ⟨next', hok', hout⟩
      obtain rfl := ok.inj (hok.symm.trans hok')
      have hlow := hsent.mp hout
      rw [hfirst, htc] at hlow
      omega
    · intro hle
      refine ⟨next, hok, hsent.mpr ?_⟩
      rw [hfirst, htc]
      omega
  exact ⟨hdrops, by rw [hdrops]⟩

instance (node : ColorNoCluster) (event : NodeEvent) : Decidable (timely.Enabled node event) :=
  inferInstanceAs (Decidable (_ ∧ _))

instance (id : GetId) (node : ColorNoCluster) (event : NodeEvent) :
    Decidable ((timely.restrict (Holds id)).Enabled node event) :=
  inferInstanceAs (Decidable (timely.Enabled node event ∧ node.delayQueue.counter id ≠ none))

/-- A GET of node 2, as a neighbour sends it on. -/
def copyFrom (now : SimTime) (neighbour : NID) (srcAddress : MacAddress) (delay : SimTime) :
    NodeEvent :=
  ⟨now, .receive (.get
    { head := { sid := ⟨⟨9⟩, 1⟩, source := ⟨2⟩, lastHop := neighbour, nonce := 7 } })
    srcAddress delay⟩

def copyId : GetId := ⟨⟨⟨9⟩, 1⟩, ⟨2⟩, 7⟩

/-- A relay to which the GET comes first, found by execution. -/
theorem exists_delays {during : List NodeEvent} {delay now : SimTime}
    {p : ColorNoCluster → ColorNoCluster → Prop} [∀ node node', Decidable (p node node')]
    (h : (timely.exec (initial relay) [copyFrom 0 ⟨2⟩ 2 delay]).any fun node ↦
      node.delayQueue.counter copyId ≠ none ∧
      ((timely.restrict (Holds copyId)).exec node during).any fun node' ↦
        node'.delayQueue.timer = some now ∧
        (node'.delayQueue.priQueue.head?.any fun iter ↦ iter.ticket.id? = some copyId) ∧
        p node node') :
    ∃ node node', Delays relay copyId [] during (copyFrom 0 ⟨2⟩ 2 delay) now node node' ∧
      p node node' := by
  obtain ⟨node, hrun, hcounter, hexec⟩ := exists_run_of_exec h
  obtain ⟨node', hrun', htimer, hfirst, hp⟩ := exists_run_of_exec hexec
  refine ⟨node, node', ⟨⟨initial relay, .nil _, run_singleton_iff.mp hrun, rfl, hcounter⟩,
    hrun', htimer, ?_⟩, hp⟩
  obtain ⟨iter, hiter, hid⟩ := (Option.any_eq_true _ _).mp hfirst
  exact ⟨iter, hiter, of_decide_eq_true hid⟩

/-- Twice the record of the SID expires before another copy arrives. -/
def afterRecords : List NodeEvent :=
  [⟨ofMillis 1000, .pitTimer 0 .intact⟩, copyFrom (ofMillis 1500) ⟨3⟩ 3 0,
    ⟨ofMillis 2500, .pitTimer 1 .intact⟩, copyFrom (ofMillis 2600) ⟨4⟩ 4 0]

theorem suppressed_iff_expired :
    ∃ node node', Delays relay copyId [] afterRecords (copyFrom 0 ⟨2⟩ 2 (ofMillis 3000))
        (ofMillis 3000) node node' ∧
      DropsDelayed node' (ofMillis 3000) := by
  obtain ⟨node, node', hdelays, hcounted⟩ : ∃ node node',
      Delays relay copyId [] afterRecords (copyFrom 0 ⟨2⟩ 2 (ofMillis 3000))
        (ofMillis 3000) node node' ∧
      relay.TC ≤ copiesCounted copyId node afterRecords :=
    exists_delays (by decide +kernel)
  exact ⟨node, node', hdelays, (suppressed_iff hdelays).1.mpr hcounted⟩

/-- Two copies arrive while the record of the SID stands. -/
def underRecord : List NodeEvent := [copyFrom 1 ⟨3⟩ 3 0, copyFrom 2 ⟨4⟩ 4 0]

/-- The relay drops a GET after two copies, and sends it all the same. -/
theorem not_suppressed_underRecord :
    ∃ node node', Delays relay copyId [] underRecord (copyFrom 0 ⟨2⟩ 2 1000) 1000 node node' ∧
      relay.TC ≤ copiesHeard copyId underRecord ∧ ¬DropsDelayed node' 1000 := by
  obtain ⟨node, node', hdelays, hsent⟩ : ∃ node node',
      Delays relay copyId [] underRecord (copyFrom 0 ⟨2⟩ 2 1000) 1000 node node' ∧
      (node'.handleDelayer 1000).map (fun next ↦ next.queueOut.length) ≠
        .ok node'.queueOut.length :=
    exists_delays (by decide +kernel)
  refine ⟨node, node', hdelays, by decide, ?_⟩
  rintro ⟨next, hok, hout⟩
  rw [hok] at hsent
  exact hsent (congrArg (fun out ↦ ok (length out)) hout)

end ColorNoCluster

end Inet4.Icn
