import Inet4.Icn.DelayQueue
import Inet4.Machine

/-!
# The life of a delayed packet

Runs of a delay queue under insertions, overheard packets and expirations of its timer.  A
`Simulation` carries the clock and, beside the queue, what has been inserted into it and what its
timer events have taken out.

While every packet finds a place, that is, while no packet is inserted that is later than all queued
ones, nothing is lost and everything is released at its own send time.
-/

namespace Inet4.Icn.DelayQueue

open List PendPkt

/-- A packet that a timer event has taken out of the queue. -/
structure Release where
  ticket : Ticket
  /-- The counter of the entry when it was taken out. -/
  tc : ℤ
  /-- The time of the timer event. -/
  time : SimTime
  /-- What `popAtFront` returned. -/
  packet : Option Packet

/-- A delay queue in the middle of a run. -/
structure Simulation where
  now : SimTime := 0
  queue : DelayQueue := {}
  /-- The packets that were handed to `insert`. -/
  inserted : List Ticket := []
  released : List Release := []

/-- What happens to a delay queue. -/
inductive Action
  | insert (pkt : Packet) (type : TYPE) (time : SimTime) (forwardTimes : ℤ)
  | checkAndDecrease (pkt : Packet)
  | expire

/-- An action and the clock reading at which it happens. -/
structure Event where
  now : SimTime
  action : Action

/-- The effect of an event.  The kernel takes the expiring timer out of the future event set before
`popAtFront` is called. -/
def handle (sim : Simulation) (event : Event) : Except Fault Simulation :=
  match event.action with
  | .insert pkt type time forwardTimes => do
    let queue ← sim.queue.insert event.now pkt type time forwardTimes
    return { sim with
      now := event.now, queue, inserted := sim.inserted ++ [⟨some pkt, type, time⟩] }
  | .checkAndDecrease pkt => do
    let (_, queue) ← sim.queue.checkAndDecrease pkt
    return { sim with now := event.now, queue }
  | .expire =>
    match sim.queue.priQueue with
    | [] => .error .undefinedBehaviour
    | first :: _ => do
      let (packet, queue) ← { sim.queue with timer := none }.popAtFront event.now
      return { sim with
        now := event.now, queue
        released := sim.released ++ [⟨first.ticket, first.tc, event.now, packet⟩] }

/-- The kernel delivers events in the order of their times, so that no event comes after the time
for which the timer is scheduled; send times are not in the past. -/
def Enabled (sim : Simulation) (event : Event) : Prop :=
  sim.now ≤ event.now ∧ (∀ t ∈ sim.queue.timer, event.now ≤ t) ∧
    match event.action with
    | .insert _ _ time _ => event.now ≤ time
    | .checkAndDecrease _ => True
    | .expire => sim.queue.timer = some event.now

/-- A delay queue with its owner's calls and the kernel. -/
def machine : Machine Simulation Event Fault where
  Enabled := Enabled
  handle := handle

/-- A packet to be inserted finds a place: the queue is empty, or some queued packet is not
earlier. -/
def FindsPlace (sim : Simulation) (event : Event) : Prop :=
  match event.action with
  | .insert _ _ time _ =>
    sim.queue.priQueue = [] ∨ ∃ iter ∈ sim.queue.priQueue, time ≤ iter.sendtime
  | _ => True

instance (sim : Simulation) (event : Event) : Decidable (machine.Enabled sim event) :=
  match event with
  | ⟨_, .insert ..⟩ | ⟨_, .checkAndDecrease _⟩ | ⟨_, .expire⟩ => inferInstanceAs (Decidable (_ ∧ _))

instance (sim : Simulation) (event : Event) : Decidable (FindsPlace sim event) :=
  match event with
  | ⟨_, .insert ..⟩ => inferInstanceAs (Decidable (_ ∨ _))
  | ⟨_, .checkAndDecrease _⟩ | ⟨_, .expire⟩ => isTrue trivial

/-- Nothing is lost and nothing is late. -/
structure Lawful (sim : Simulation) : Prop where
  queue : sim.queue.WellFormed
  /-- Every inserted packet is in the queue or was released, and as often as it was inserted. -/
  conserved : sim.inserted.Perm (sim.queue.tickets ++ sim.released.map Release.ticket)
  punctual : ∀ r ∈ sim.released, r.time = r.ticket.sendtime
  delivered : ∀ r ∈ sim.released, r.packet = if r.tc < 1 then none else r.ticket.pkt
  pending : ∀ iter ∈ sim.queue.priQueue, sim.now ≤ iter.sendtime

theorem lawful_empty : Lawful {} where
  queue := wellFormed_empty
  conserved := List.Perm.refl _
  punctual r hr := by cases hr
  delivered r hr := by cases hr
  pending iter hiter := by cases hiter

variable {sim sim' : Simulation} {event : Event} {events : List Event}

/-- As long as the timer has not expired nothing in the queue is overdue. -/
theorem Lawful.pending_until (h : Lawful sim) {now : SimTime}
    (htimer : ∀ t ∈ sim.queue.timer, now ≤ t) :
    ∀ iter ∈ sim.queue.priQueue, now ≤ iter.sendtime := by
  intro iter hiter
  have harmed := h.queue.armed
  have hsorted := h.queue.sorted
  cases hqueue : sim.queue.priQueue with
  | nil =>
    rw [hqueue] at hiter
    cases hiter
  | cons first rest =>
    rw [hqueue] at hiter hsorted
    have hfirst : now ≤ first.sendtime := by
      apply htimer
      simp [harmed, due, hqueue]
    rcases mem_cons.mp hiter with rfl | hiter
    · exact hfirst
    · exact hfirst.trans ((pairwise_cons.mp hsorted).1 iter hiter)

/-- The law is preserved by every event for which a packet to be inserted finds a place. -/
theorem Lawful.step (h : Lawful sim) (hstep : machine.Step sim event sim')
    (hplace : FindsPlace sim event) : Lawful sim' := by
  obtain ⟨⟨hclock, htimer, haction⟩, hok⟩ := hstep
  have hpending := h.pending_until htimer
  obtain ⟨now, action⟩ := event
  cases action with
  | insert pkt type time forwardTimes =>
    obtain ⟨queue, hinsert, hwf, hqueue⟩ :=
      insert_spec pkt type forwardTimes h.queue haction
    have hsim : sim' = { sim with
        now, queue, inserted := sim.inserted ++ [⟨some pkt, type, time⟩] } := by
      simp only [machine, handle, hinsert] at hok
      exact (Except.ok.inj hok).symm
    subst hsim
    have hperm : queue.priQueue.Perm
        (⟨some pkt, type, time, forwardTimes⟩ :: sim.queue.priQueue) := by
      rw [hqueue]
      rcases hplace with hempty | hlater
      · rw [if_pos hempty, hempty]
      · have hne : sim.queue.priQueue ≠ [] := by
          obtain ⟨iter, hmem, -⟩ := hlater
          exact ne_nil_of_mem hmem
        rw [if_neg hne]
        exact insertBefore_perm hlater
    refine ⟨hwf, ?_, h.punctual, h.delivered, ?_⟩
    · have htickets : queue.tickets.Perm (⟨some pkt, type, time⟩ :: sim.queue.tickets) :=
        hperm.map ticket
      calc
        List.Perm (sim.inserted ++ [⟨some pkt, type, time⟩])
            (⟨some pkt, type, time⟩ :: sim.inserted) := perm_append_singleton _ _
        List.Perm _ (⟨some pkt, type, time⟩ :: (sim.queue.tickets ++
            sim.released.map Release.ticket)) := h.conserved.cons _
        List.Perm _ (queue.tickets ++ sim.released.map Release.ticket) :=
          (htickets.append_right _).symm
    · intro iter hiter
      rcases mem_cons.mp (hperm.mem_iff.mp hiter) with rfl | hiter
      · exact haction
      · exact hpending iter hiter
  | checkAndDecrease pkt =>
    obtain ⟨⟨found, queue⟩, hcheck, hok⟩ := bind_eq_ok hok
    obtain rfl := Except.ok.inj hok
    obtain ⟨hwf, htickets⟩ := checkAndDecrease_spec h.queue hcheck
    refine ⟨hwf, ?_, h.punctual, h.delivered, ?_⟩
    · rw [htickets]
      exact h.conserved
    · intro iter hiter
      have hticket : iter.ticket ∈ sim.queue.tickets := by
        rw [← htickets]
        exact mem_map_of_mem hiter
      obtain ⟨other, hother, heq⟩ := mem_map.mp hticket
      have hsendtime : other.sendtime = iter.sendtime := congrArg Ticket.sendtime heq
      rw [← hsendtime]
      exact hpending other hother
  | expire =>
    have harmed := h.queue.armed
    cases hqueue : sim.queue.priQueue with
    | nil =>
      rw [haction] at harmed
      simp [due, hqueue] at harmed
    | cons first rest =>
      have hnow : now = first.sendtime := by
        rw [haction] at harmed
        simpa [due, hqueue] using harmed
      obtain ⟨queue, hpop, hwf, hrest⟩ := popAtFront_spec h.queue hqueue (le_of_eq hnow)
      have hsim : sim' = { sim with
          now, queue
          released := sim.released ++
            [⟨first.ticket, first.tc, now, if first.tc < 1 then none else first.pkt⟩] } := by
        simp only [hqueue] at hpop
        simp only [machine, handle, hqueue, hpop] at hok
        exact (Except.ok.inj hok).symm
      subst hsim
      have htickets : sim.queue.tickets = first.ticket :: queue.tickets := by
        simp only [tickets, hqueue, hrest, map_cons]
      refine ⟨hwf, ?_, ?_, ?_, ?_⟩
      · have hconserved := h.conserved
        rw [htickets] at hconserved
        refine hconserved.trans ?_
        simp only [map_append, map_cons, map_nil, cons_append]
        rw [← append_assoc]
        exact (perm_append_singleton _ _).symm
      · intro r hr
        rcases mem_append.mp hr with hr | hr
        · exact h.punctual r hr
        · obtain rfl := mem_singleton.mp hr
          exact hnow
      · intro r hr
        rcases mem_append.mp hr with hr | hr
        · exact h.delivered r hr
        · obtain rfl := mem_singleton.mp hr
          rfl
      · intro iter hiter
        apply hpending
        rw [hqueue]
        rw [hrest] at hiter
        exact mem_cons_of_mem first hiter

/-- In every run in which each inserted packet finds a place, the queue is sorted by send time;
every inserted packet is in the queue or was released, and as often as it was inserted; each was
released by the timer event at its own send time, which returned it unless its counter had fallen
below one; and the timer stands at the first send time, so that no packet stays beyond its own. -/
theorem delayQueue_lawful (hrun : (machine.restrict FindsPlace).Run {} events sim) :
    (sim.queue.priQueue.Pairwise fun first second ↦ first.sendtime ≤ second.sendtime) ∧
    sim.inserted.Perm
      (sim.queue.priQueue.map ticket ++ sim.released.map Release.ticket) ∧
    (∀ r ∈ sim.released, r.time = r.ticket.sendtime ∧
      r.packet = if r.tc < 1 then none else r.ticket.pkt) ∧
    sim.queue.timer = sim.queue.priQueue.head?.map sendtime ∧
    (∀ iter ∈ sim.queue.priQueue, sim.now ≤ iter.sendtime) := by
  have hlawful : Lawful sim := by
    refine hrun.invariant ?_ lawful_empty
    intro sim event sim' h hstep
    obtain ⟨hstep, hplace⟩ := Machine.step_restrict_iff.mp hstep
    exact h.step hstep hplace
  refine ⟨hlawful.queue.sorted, hlawful.conserved, ?_, hlawful.queue.armed, hlawful.pending⟩
  intro r hr
  exact ⟨hlawful.punctual r hr, hlawful.delivered r hr⟩

/-- A GET for a SID, without payload. -/
def plainGet (sid : SID) : Packet := .get { head := { sid } }

theorem delayQueue_lawful_earlier :
    ∃ sim, (machine.restrict FindsPlace).Run {}
      [⟨0, .insert (plainGet ⟨default, 1⟩) .GET 10 2⟩,
        ⟨0, .insert (plainGet ⟨default, 2⟩) .GET 5 2⟩,
        ⟨1, .checkAndDecrease (plainGet ⟨default, 1⟩)⟩, ⟨5, .expire⟩] sim ∧
      sim.released.length = 1 ∧
      sim.inserted.Perm
        (sim.queue.priQueue.map ticket ++ sim.released.map Release.ticket) := by
  have hexec : ((machine.restrict FindsPlace).exec {}
      [⟨0, .insert (plainGet ⟨default, 1⟩) .GET 10 2⟩,
        ⟨0, .insert (plainGet ⟨default, 2⟩) .GET 5 2⟩,
        ⟨1, .checkAndDecrease (plainGet ⟨default, 1⟩)⟩, ⟨5, .expire⟩]).any
      fun sim ↦ sim.released.length = 1 := by decide +kernel
  obtain ⟨sim, hrun, hreleased⟩ := Machine.exists_run_of_exec hexec
  exact ⟨sim, hrun, hreleased, (delayQueue_lawful hrun).2.1⟩

/-- A packet for time 10 is inserted behind one for time 5 and is gone. -/
theorem delayQueue_loses_latest :
    ∃ sim, machine.Run {}
      [⟨0, .insert (plainGet ⟨default, 1⟩) .GET 5 2⟩,
        ⟨0, .insert (plainGet ⟨default, 2⟩) .GET 10 2⟩] sim ∧
      (⟨some (plainGet ⟨default, 2⟩), .GET, 10⟩ : Ticket) ∈ sim.inserted ∧
      (⟨some (plainGet ⟨default, 2⟩), .GET, 10⟩ : Ticket) ∉ sim.queue.priQueue.map ticket ∧
      (⟨some (plainGet ⟨default, 2⟩), .GET, 10⟩ : Ticket) ∉ sim.released.map Release.ticket := by
  have hexec : (machine.exec {}
      [⟨0, .insert (plainGet ⟨default, 1⟩) .GET 5 2⟩,
        ⟨0, .insert (plainGet ⟨default, 2⟩) .GET 10 2⟩]).any fun sim ↦
      (⟨some (plainGet ⟨default, 2⟩), .GET, 10⟩ : Ticket) ∈ sim.inserted ∧
      (⟨some (plainGet ⟨default, 2⟩), .GET, 10⟩ : Ticket) ∉ sim.queue.priQueue.map ticket ∧
      (⟨some (plainGet ⟨default, 2⟩), .GET, 10⟩ : Ticket) ∉ sim.released.map Release.ticket := by
    decide +kernel
  exact Machine.exists_run_of_exec hexec

end Inet4.Icn.DelayQueue
