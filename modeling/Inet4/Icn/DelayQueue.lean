import Inet4.Icn.Packet

/-!
# The queue of delayed transmissions

`delayQueue` holds packets until their send times.  It shares one timer message with the module that
owns it and means the timer to stand at the send time of the first element.  An entry is identified
here by its `Ticket`, the part of it that does not change while it waits; `check_and_decrease` only
counts `tc` down.

The loop of `insert` places a packet before the first element that is not earlier.  It has no branch
for a packet that is later than every element, and such a packet is placed nowhere:
`insertBefore_perm` gives the exact condition.
-/

namespace Inet4.Icn

open List
open Except (ok)

/-- `delayQueue::pendPkt`.  No caller sets the field `nextHop`. -/
structure PendPkt where
  pkt : Option Packet
  type : TYPE
  sendtime : SimTime
  tc : ℤ

/-- What identifies an entry while it waits. -/
structure Ticket where
  pkt : Option Packet
  type : TYPE
  sendtime : SimTime
  deriving DecidableEq

namespace PendPkt

/-- The ticket of an entry. -/
def ticket (entry : PendPkt) : Ticket := ⟨entry.pkt, entry.type, entry.sendtime⟩

/-- `iter->tc--`. -/
def decrease (entry : PendPkt) : PendPkt := { entry with tc := entry.tc - 1 }

@[simp]
theorem ticket_decrease (entry : PendPkt) : entry.decrease.ticket = entry.ticket := rfl

end PendPkt

/-- `delayQueue`; `timer` is the time for which the owner's message `delayer` is scheduled. -/
structure DelayQueue where
  priQueue : List PendPkt := []
  timer : SelfMessage := none

namespace DelayQueue

/-- The loop of `insert`, which ends without an insertion when it reaches the end of the list. -/
def insertBefore (entry : PendPkt) : List PendPkt → List PendPkt
  | [] => []
  | iter :: rest =>
    if iter.sendtime < entry.sendtime then iter :: insertBefore entry rest
    else entry :: iter :: rest

def insert (q : DelayQueue) (now : SimTime) (pkt : Packet) (type : TYPE) (time : SimTime)
    (forwardTimes : ℤ) : Except Fault DelayQueue :=
  let entry : PendPkt := ⟨some pkt, type, time, forwardTimes⟩
  match q.priQueue with
  | [] => do
    let timer ← q.timer.cancelEvent.scheduleAt now time
    return { priQueue := [entry], timer }
  | first :: _ => do
    let timer ←
      if first.sendtime < time then pure q.timer
      else q.timer.cancelEvent.scheduleAt now time
    return { priQueue := insertBefore entry q.priQueue, timer }

/-- `popAtFront`.  A packet that was heard too often is released and not returned. -/
def popAtFront (q : DelayQueue) (now : SimTime) : Except Fault (Option Packet × DelayQueue) :=
  match q.priQueue with
  | [] => .error .undefinedBehaviour
  | first :: rest => do
    let packet := if first.tc < 1 then none else first.pkt
    let timer ←
      match rest with
      | [] => pure q.timer
      | next :: _ => q.timer.scheduleAt now next.sendtime
    return (packet, { priQueue := rest, timer })

/-- The comparison of `have` between a packet and an element that holds one. -/
def isSame (type : TYPE) (packet pkt : Packet) : Except Fault Bool :=
  match type, pkt with
  | .GET, .get getPkt => do
    let packetHead ← packet.peekGet
    return getPkt.head.sid = packetHead.sid ∧ getPkt.head.source = packetHead.source ∧
      getPkt.head.nonce = packetHead.nonce
  | .DATA, .data dataPkt => do
    let packetHead ← packet.peekData
    return dataPkt.head.sid = packetHead.sid
  | _, _ => return false

/-- `have`: the position of the packet, or `none` for the end iterator.  An element without a packet
is erased and ends the search. -/
def haveFrom (pkt : Packet) : List PendPkt → Except Fault (Option ℕ × List PendPkt)
  | [] => .ok (none, [])
  | iter :: rest =>
    match iter.pkt with
    | none => .ok (none, rest)
    | some packet => do
      let same ← isSame iter.type packet pkt
      if same then
        return (some 0, iter :: rest)
      else
        let (position, rest) ← haveFrom pkt rest
        return (position.map (· + 1), iter :: rest)

/-- `check_and_decrease`. -/
def checkAndDecrease (q : DelayQueue) (pkt : Packet) : Except Fault (Bool × DelayQueue) := do
  let (position, priQueue) ← haveFrom pkt q.priQueue
  match position with
  | none => return (false, { q with priQueue })
  | some i => return (true, { q with priQueue := priQueue.modify i PendPkt.decrease })

/-- The tickets in the queue, front first. -/
def tickets (q : DelayQueue) : List Ticket := q.priQueue.map PendPkt.ticket

variable {q q' : DelayQueue} {now time : SimTime} {pkt : Packet} {type : TYPE} {forwardTimes : ℤ}
variable {entry iter : PendPkt} {queue rest : List PendPkt}

/-- The loop finds a place exactly when some element is not earlier than the packet. -/
theorem insertBefore_perm (h : ∃ iter ∈ queue, entry.sendtime ≤ iter.sendtime) :
    (insertBefore entry queue).Perm (entry :: queue) := by
  induction queue with
  | nil =>
    obtain ⟨iter, hmem, -⟩ := h
    cases hmem
  | cons iter rest ih =>
    unfold insertBefore
    split
    · rename_i hearlier
      have hlater : ∃ later ∈ rest, entry.sendtime ≤ later.sendtime := by
        obtain ⟨later, hmem, hle⟩ := h
        rcases mem_cons.mp hmem with rfl | hmem
        · exact absurd hle (Int.not_le.mpr hearlier)
        · exact ⟨later, hmem, hle⟩
      exact ((ih hlater).cons iter).trans (List.Perm.swap entry iter rest)
    · exact List.Perm.refl _

/-- A packet that is later than every element is lost. -/
theorem insertBefore_lost (h : ∀ iter ∈ queue, iter.sendtime < entry.sendtime) :
    insertBefore entry queue = queue := by
  induction queue with
  | nil => rfl
  | cons iter rest ih =>
    have hrest := ih fun later hmem ↦ h later (mem_cons_of_mem iter hmem)
    simp only [insertBefore, h iter mem_cons_self, if_true, hrest]

/-- Sorted by send time. -/
def Sorted (queue : List PendPkt) : Prop :=
  queue.Pairwise fun first second ↦ first.sendtime ≤ second.sendtime

theorem mem_insertBefore (h : iter ∈ insertBefore entry queue) : iter = entry ∨ iter ∈ queue := by
  induction queue with
  | nil => cases h
  | cons first rest ih =>
    unfold insertBefore at h
    split at h
    · rcases mem_cons.mp h with rfl | h
      · exact .inr mem_cons_self
      · rcases ih h with heq | hmem
        · exact .inl heq
        · exact .inr (mem_cons_of_mem first hmem)
    · exact mem_cons.mp h

theorem sorted_insertBefore (entry : PendPkt) (h : Sorted queue) :
    Sorted (insertBefore entry queue) := by
  induction queue with
  | nil => exact List.Pairwise.nil
  | cons first rest ih =>
    have hfirst := pairwise_cons.mp h
    unfold insertBefore
    split
    · rename_i hearlier
      refine pairwise_cons.mpr ⟨?_, ih hfirst.2⟩
      intro iter hmem
      rcases mem_insertBefore hmem with rfl | hmem
      · exact Int.le_of_lt hearlier
      · exact hfirst.1 iter hmem
    · rename_i hplace
      have hle : entry.sendtime ≤ first.sendtime := Int.not_lt.mp hplace
      refine pairwise_cons.mpr ⟨?_, h⟩
      intro iter hmem
      rcases mem_cons.mp hmem with rfl | hmem
      · exact hle
      · exact hle.trans (hfirst.1 iter hmem)

/-- The time at which the first element is due. -/
def due (q : DelayQueue) : Option SimTime := q.priQueue.head?.map PendPkt.sendtime

/-- The queue is sorted, every element holds a packet, and the timer stands at the first send
time. -/
structure WellFormed (q : DelayQueue) : Prop where
  sorted : Sorted q.priQueue
  held : ∀ iter ∈ q.priQueue, iter.pkt ≠ none
  armed : q.timer = q.due

theorem wellFormed_empty : WellFormed {} where
  sorted := List.Pairwise.nil
  held iter h := by cases h
  armed := rfl

/-- `insert` succeeds for every send time that is not in the past.  It keeps the queue well formed
and changes it by its loop, apart from an empty queue. -/
theorem insert_spec (pkt : Packet) (type : TYPE) (forwardTimes : ℤ) (h : q.WellFormed)
    (hnow : now ≤ time) :
    ∃ q', q.insert now pkt type time forwardTimes = .ok q' ∧ q'.WellFormed ∧
      q'.priQueue = if q.priQueue = [] then [⟨some pkt, type, time, forwardTimes⟩]
        else insertBefore ⟨some pkt, type, time, forwardTimes⟩ q.priQueue := by
  unfold insert
  split
  · rename_i hempty
    simp only [SelfMessage.cancelEvent_eq, SelfMessage.scheduleAt_none hnow, bind, Except.bind,
      pure, Except.pure]
    refine ⟨_, rfl, ⟨pairwise_singleton _ _, ?_, rfl⟩, by simp [hempty]⟩
    intro iter hmem
    obtain rfl := mem_singleton.mp hmem
    simp
  · rename_i first rest hqueue
    have hheld : ∀ iter ∈ insertBefore ⟨some pkt, type, time, forwardTimes⟩ q.priQueue,
        iter.pkt ≠ none := by
      intro iter hmem
      rcases mem_insertBefore hmem with rfl | hmem
      · simp
      · exact h.held iter hmem
    have hsorted := sorted_insertBefore ⟨some pkt, type, time, forwardTimes⟩ h.sorted
    have hplace : q.priQueue ≠ [] := by simp [hqueue]
    by_cases hearlier : first.sendtime < time
    · simp only [if_pos hearlier, bind, Except.bind, pure, Except.pure]
      refine ⟨_, rfl, ⟨hsorted, hheld, ?_⟩, by simp [hplace]⟩
      rw [h.armed]
      simp [due, hqueue, insertBefore, hearlier]
    · simp only [if_neg hearlier, SelfMessage.cancelEvent_eq, SelfMessage.scheduleAt_none hnow,
        bind, Except.bind, pure, Except.pure]
      refine ⟨_, rfl, ⟨hsorted, hheld, ?_⟩, by simp [hplace]⟩
      simp [due, hqueue, insertBefore, hearlier]

/-- The timer event takes out the first element and moves the timer to the next one. -/
theorem popAtFront_spec (h : q.WellFormed) {first : PendPkt} (hqueue : q.priQueue = first :: rest)
    (hnow : now ≤ first.sendtime) :
    ∃ q', { q with timer := none }.popAtFront now =
        .ok (if first.tc < 1 then none else first.pkt, q') ∧
      q'.WellFormed ∧ q'.priQueue = rest := by
  have hsorted := h.sorted
  rw [hqueue] at hsorted
  have hfirst := pairwise_cons.mp hsorted
  have hheld : ∀ iter ∈ rest, iter.pkt ≠ none := by
    intro iter hmem
    apply h.held
    rw [hqueue]
    exact mem_cons_of_mem first hmem
  cases rest with
  | nil => exact ⟨⟨[], none⟩, by simp [popAtFront, hqueue]; rfl, ⟨hfirst.2, hheld, rfl⟩, rfl⟩
  | cons next rest =>
    have hnext : now ≤ next.sendtime := hnow.trans (hfirst.1 next mem_cons_self)
    refine ⟨⟨next :: rest, some next.sendtime⟩, ?_, ⟨hfirst.2, hheld, rfl⟩, rfl⟩
    simp [popAtFront, hqueue, hnext]

theorem popAtFront_eq_ok {packet : Option Packet} (h : q.popAtFront now = .ok (packet, q')) :
    ∃ first, q.priQueue = first :: q'.priQueue ∧
      packet = if first.tc < 1 then none else first.pkt := by
  unfold popAtFront at h
  split at h
  · cases h
  · rename_i first rest hqueue
    cases rest with
    | nil =>
      obtain ⟨rfl, rfl⟩ := Prod.mk.inj (ok.inj h)
      exact ⟨first, hqueue, rfl⟩
    | cons next rest =>
      obtain ⟨timer, -, h⟩ := bind_eq_ok h
      obtain ⟨rfl, rfl⟩ := Prod.mk.inj (ok.inj h)
      exact ⟨first, hqueue, rfl⟩

/-- In a queue whose elements all hold packets, `have` only searches. -/
theorem haveFrom_unchanged (hheld : ∀ iter ∈ queue, iter.pkt ≠ none) {position : Option ℕ}
    (h : haveFrom pkt queue = .ok (position, rest)) : rest = queue := by
  induction queue generalizing position rest with
  | nil =>
    simp only [haveFrom, ok.injEq, Prod.mk.injEq] at h
    exact h.2.symm
  | cons iter tail ih =>
    unfold haveFrom at h
    split at h
    · rename_i hnone
      exact absurd hnone (hheld iter mem_cons_self)
    · obtain ⟨same, -, h⟩ := bind_eq_ok h
      split at h
      · simp only [pure, Except.pure, ok.injEq, Prod.mk.injEq] at h
        exact h.2.symm
      · obtain ⟨⟨position', tail'⟩, htail, h⟩ := bind_eq_ok h
        have heq := ih (fun later hmem ↦ hheld later (mem_cons_of_mem iter hmem)) htail
        simp only [pure, Except.pure, ok.injEq, Prod.mk.injEq] at h
        rw [← h.2, heq]

theorem tickets_modify (queue : List PendPkt) (i : ℕ) :
    (queue.modify i PendPkt.decrease).map PendPkt.ticket = queue.map PendPkt.ticket := by
  induction queue generalizing i with
  | nil => simp
  | cons iter rest ih =>
    cases i with
    | zero => simp
    | succ i => simp [ih]

/-- Being well formed is a property of the tickets and the timer. -/
theorem WellFormed.of_tickets (h : q.WellFormed) (htickets : q'.tickets = q.tickets)
    (htimer : q'.timer = q.timer) : q'.WellFormed := by
  refine ⟨?_, ?_, ?_⟩
  · have hsorted : ∀ q : DelayQueue, Sorted q.priQueue ↔
        q.tickets.Pairwise fun first second ↦ first.sendtime ≤ second.sendtime := by
      intro q
      rw [tickets, pairwise_map]
      rfl
    rw [hsorted, htickets, ← hsorted]
    exact h.sorted
  · intro iter hmem
    have hticket : iter.ticket ∈ q.tickets := by
      rw [← htickets]
      exact mem_map_of_mem hmem
    obtain ⟨other, hother, heq⟩ := mem_map.mp hticket
    have hpkt : other.pkt = iter.pkt := congrArg Ticket.pkt heq
    rw [← hpkt]
    exact h.held other hother
  · have hdue : ∀ q : DelayQueue, q.due = q.tickets.head?.map Ticket.sendtime := by
      intro q
      simp only [due, tickets, head?_map, Option.map_map]
      rfl
    rw [htimer, h.armed, hdue, hdue, htickets]

/-- `check_and_decrease` changes no ticket and leaves the timer alone. -/
theorem checkAndDecrease_spec (h : q.WellFormed) {found : Bool}
    (hok : q.checkAndDecrease pkt = .ok (found, q')) : q'.WellFormed ∧ q'.tickets = q.tickets := by
  obtain ⟨⟨position, priQueue⟩, hfind, hok⟩ := bind_eq_ok hok
  obtain rfl := haveFrom_unchanged h.held hfind
  cases position with
  | none =>
    obtain ⟨-, rfl⟩ := hok
    exact ⟨h, rfl⟩
  | some i =>
    obtain ⟨-, rfl⟩ := hok
    have htickets := tickets_modify q.priQueue i
    exact ⟨h.of_tickets htickets rfl, htickets⟩

/-- A GET with the same SID, source and nonce is queued. -/
def holdsCopy (q : DelayQueue) (head : Get) : Bool :=
  q.priQueue.any fun iter ↦
    match iter.type, iter.pkt with
    | .GET, some (.get packet) => packet.head.sid = head.sid ∧ packet.head.source = head.source ∧
        packet.head.nonce = head.nonce
    | _, _ => false

/-- The queue is empty, or some queued packet is not earlier. -/
def HasPlaceFor (q : DelayQueue) (time : SimTime) : Prop :=
  q.priQueue = [] ∨ ∃ iter ∈ q.priQueue, time ≤ iter.sendtime

instance (q : DelayQueue) (time : SimTime) : Decidable (q.HasPlaceFor time) :=
  inferInstanceAs (Decidable (_ ∨ _))

theorem isSame_get {type : TYPE} {queued : Packet} {packet : GetPacket}
    (h : isSame type queued (.get packet) = .ok true) :
    type = .GET ∧ ∃ old, queued = .get old ∧ old.head.sid = packet.head.sid ∧
      old.head.source = packet.head.source ∧ old.head.nonce = packet.head.nonce := by
  cases type with
  | DATA => cases h
  | GET =>
    cases queued with
    | data old => cases h
    | get old =>
      simp only [isSame, Packet.peekGet, bind, Except.bind, pure, Except.pure, ok.injEq,
        decide_eq_true_eq] at h
      exact ⟨rfl, old, rfl, h.1.symm, h.2.1.symm, h.2.2.symm⟩

/-- What `have` finds is a copy. -/
theorem holdsCopy_of_haveFrom {packet : GetPacket} {i : ℕ}
    (h : haveFrom (.get packet) queue = .ok (some i, rest)) :
    holdsCopy { priQueue := queue } packet.head := by
  induction queue generalizing i rest with
  | nil => cases h
  | cons iter tail ih =>
    rw [holdsCopy, any_cons, Bool.or_eq_true]
    unfold haveFrom at h
    split at h
    · cases h
    · rename_i queued hpkt
      obtain ⟨same, hsame, h⟩ := bind_eq_ok h
      split at h
      · rename_i htrue
        subst htrue
        obtain ⟨htype, old, rfl, hold⟩ := isSame_get hsame
        left
        simp only [htype, hpkt]
        exact decide_eq_true hold
      · obtain ⟨⟨position, tail'⟩, htail, h⟩ := bind_eq_ok h
        cases position with
        | none => cases h
        | some j => exact .inr (ih htail)

/-- A packet of which no copy is queued is not found. -/
theorem not_found {packet : GetPacket} {found : Bool} (hcopy : q.holdsCopy packet.head = false)
    (h : q.checkAndDecrease (.get packet) = .ok (found, q')) : found = false := by
  obtain ⟨⟨position, priQueue⟩, hfind, h⟩ := bind_eq_ok h
  cases position with
  | none => exact (Prod.mk.inj (ok.inj h)).1.symm
  | some i =>
    have hholds : q.holdsCopy packet.head := holdsCopy_of_haveFrom hfind
    rw [hcopy] at hholds
    cases hholds

/-- A GET of which no copy is queued is not queued. -/
theorem not_mem_tickets {packet : GetPacket} (hcopy : q.holdsCopy packet.head = false) :
    (⟨some (.get packet), .GET, time⟩ : Ticket) ∉ q.tickets := by
  intro hmem
  obtain ⟨iter, hiter, hticket⟩ := mem_map.mp hmem
  have htype : iter.type = .GET := congrArg Ticket.type hticket
  have hpkt : iter.pkt = some (.get packet) := congrArg Ticket.pkt hticket
  have hnot := any_eq_false.mp hcopy iter hiter
  simp [htype, hpkt] at hnot

/-- A search in vain changes nothing. -/
theorem checkAndDecrease_false (hheld : ∀ iter ∈ q.priQueue, iter.pkt ≠ none)
    (h : q.checkAndDecrease pkt = .ok (false, q')) : q' = q := by
  obtain ⟨⟨position, priQueue⟩, hfind, h⟩ := bind_eq_ok h
  obtain rfl := haveFrom_unchanged hheld hfind
  cases position with
  | none => exact (Prod.mk.inj (ok.inj h)).2.symm
  | some i => cases h

theorem priQueue_insert (h : q.insert now pkt type time forwardTimes = .ok q') :
    q'.priQueue = if q.priQueue = [] then [⟨some pkt, type, time, forwardTimes⟩]
      else insertBefore ⟨some pkt, type, time, forwardTimes⟩ q.priQueue := by
  unfold insert at h
  split at h
  · rename_i hempty
    obtain ⟨timer, -, rfl⟩ := bind_pure_eq_ok h
    exact (if_pos hempty).symm
  · rename_i first rest hqueue
    rw [if_neg (by simp [hqueue])]
    split at h
    · obtain rfl := ok.inj h
      rfl
    · obtain ⟨timer, -, rfl⟩ := bind_pure_eq_ok h
      rfl

/-- A packet that finds a place is queued. -/
theorem insert_perm (hplace : q.HasPlaceFor time)
    (h : q.insert now pkt type time forwardTimes = .ok q') :
    q'.priQueue.Perm (⟨some pkt, type, time, forwardTimes⟩ :: q.priQueue) := by
  rw [priQueue_insert h]
  split
  · rename_i hempty
    rw [hempty]
  · rename_i hnonempty
    exact insertBefore_perm (hplace.resolve_left hnonempty)

theorem mem_of_insert (h : q.insert now pkt type time forwardTimes = .ok q')
    (hiter : iter ∈ q'.priQueue) :
    iter = ⟨some pkt, type, time, forwardTimes⟩ ∨ iter ∈ q.priQueue := by
  rw [priQueue_insert h] at hiter
  split at hiter
  · exact .inl (mem_singleton.mp hiter)
  · exact mem_insertBefore hiter

/-- No Data is queued. -/
def OnlyGets (q : DelayQueue) : Prop :=
  ∀ iter ∈ q.priQueue, ∀ packet, iter.pkt ≠ some (.data packet)

theorem mem_of_haveFrom {position : Option ℕ} (h : haveFrom pkt queue = .ok (position, rest))
    (hiter : iter ∈ rest) : iter ∈ queue := by
  induction queue generalizing position rest with
  | nil =>
    obtain ⟨-, rfl⟩ := Prod.mk.inj (ok.inj h)
    exact hiter
  | cons first tail ih =>
    unfold haveFrom at h
    split at h
    · obtain ⟨-, rfl⟩ := Prod.mk.inj (ok.inj h)
      exact mem_cons_of_mem first hiter
    · obtain ⟨same, -, h⟩ := bind_eq_ok h
      split at h
      · obtain ⟨-, rfl⟩ := Prod.mk.inj (ok.inj h)
        exact hiter
      · obtain ⟨⟨position', tail'⟩, htail, h⟩ := bind_eq_ok h
        obtain ⟨-, rfl⟩ := Prod.mk.inj (ok.inj h)
        rcases mem_cons.mp hiter with rfl | hiter
        · exact mem_cons_self
        · exact mem_cons_of_mem first (ih htail hiter)

theorem OnlyGets.checkAndDecrease {found : Bool} (h : q.OnlyGets)
    (hok : q.checkAndDecrease pkt = .ok (found, q')) : q'.OnlyGets := by
  obtain ⟨⟨position, priQueue⟩, hfind, hok⟩ := bind_eq_ok hok
  have hkept : ∀ iter ∈ priQueue, ∀ packet, iter.pkt ≠ some (.data packet) :=
    fun iter hiter ↦ h iter (mem_of_haveFrom hfind hiter)
  cases position with
  | none =>
    obtain ⟨-, rfl⟩ := Prod.mk.inj (ok.inj hok)
    exact hkept
  | some i =>
    obtain ⟨-, rfl⟩ := Prod.mk.inj (ok.inj hok)
    intro iter hiter
    have hticket : iter.ticket ∈ (priQueue.modify i PendPkt.decrease).map PendPkt.ticket :=
      mem_map_of_mem hiter
    rw [tickets_modify] at hticket
    obtain ⟨old, hold, heq⟩ := mem_map.mp hticket
    have hpkt : old.pkt = iter.pkt := congrArg Ticket.pkt heq
    rw [← hpkt]
    exact hkept old hold

theorem OnlyGets.insert {packet : GetPacket} (h : q.OnlyGets)
    (hok : q.insert now (.get packet) type time forwardTimes = .ok q') : q'.OnlyGets := by
  intro iter hiter
  rcases mem_of_insert hok hiter with rfl | hold
  · simp
  · exact h iter hold

end DelayQueue

end Inet4.Icn
