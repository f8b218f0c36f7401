import Inet4.Pccp.Indicator

/-!
# The idle time of the queue behind an indicator

The average length of the queue decays with the time for which the queue has been empty.  The
indicator sees packets only when they are pushed, so that `q_time` is the time of the last push that
left the queue empty; packets are popped from the queue without its knowledge.
-/

namespace Inet4.Pccp

open Icn SimTime

/-- An indicator with its queue.  The last three fields are the clock reading of the last event and
two records that the program does not keep: when the queue last became empty, and when the average
last decayed. -/
structure IndicatedQueue (W : Type) where
  indicator : PccpIndicator W
  numPackets : ℕ := 0
  maxNumPackets : ℤ
  clock : SimTime := 0
  emptied : SimTime := 0
  decayed : SimTime := 0

/-- What happens to a queue behind an indicator. -/
inductive QueueAction
  /-- `pushPacket`; the queue passes on or drops `taken` packets before it returns. -/
  | push (datagram : Datagram) (taken : ℕ)
  /-- A packet is popped from the queue. -/
  | pop

/-- An action and the clock reading at which it happens. -/
structure QueueEvent where
  now : SimTime
  action : QueueAction

namespace IndicatedQueue

variable {W : Type} [DoubleMath W]

/-- `IPacketCollection` of the queue. -/
def collection (queue : IndicatedQueue W) : Collection := ⟨queue.numPackets, queue.maxNumPackets⟩

/-- `pushPacket` lets every packet pass. -/
def push (queue : IndicatedQueue W) (now : SimTime) (datagram : Datagram) (taken : ℕ) :
    IndicatedQueue W :=
  let (_, indicator, _) := queue.indicator.matchesPacket now queue.collection datagram
  let decayed := if datagram.pitInd.isSome ∧ queue.numPackets = 0 then now else queue.decayed
  let numPackets := queue.numPackets + 1 - taken
  let emptied := if numPackets = 0 then now else queue.emptied
  let queue := { queue with numPackets, clock := now, emptied, decayed }
  { queue with indicator := indicator.pushOrSendPacket now queue.collection }

/-- A packet leaves the queue. -/
def pop (queue : IndicatedQueue W) (now : SimTime) : IndicatedQueue W :=
  let numPackets := queue.numPackets - 1
  let emptied := if numPackets = 0 then now else queue.emptied
  { queue with numPackets, clock := now, emptied }

/-- A queue behind an indicator; the clock does not go back. -/
def machine (W : Type) [DoubleMath W] : Machine (IndicatedQueue W) QueueEvent Fault where
  Enabled queue event := queue.clock ≤ event.now ∧
    match event.action with
    | .push _ taken => taken ≤ queue.numPackets + 1
    | .pop => 0 < queue.numPackets
  handle queue event :=
    match event.action with
    | .push datagram taken => .ok (queue.push event.now datagram taken)
    | .pop => .ok (queue.pop event.now)

instance (queue : IndicatedQueue W) (event : QueueEvent) :
    Decidable ((machine W).Enabled queue event) :=
  match event with
  | ⟨_, .push ..⟩ | ⟨_, .pop⟩ => inferInstanceAs (Decidable (_ ∧ _))

/-- The time from which on an empty queue has been idle without a decay. -/
def idleSince (queue : IndicatedQueue W) : SimTime := max queue.emptied queue.decayed

/-- A pop empties the queue only at the time at which a push has left it empty, too. -/
def EmptiedByPushes (queue : IndicatedQueue W) (event : QueueEvent) : Prop :=
  match event.action with
  | .push _ _ => True
  | .pop => queue.numPackets = 1 → event.now = queue.indicator.q_time

instance (queue : IndicatedQueue W) (event : QueueEvent) :
    Decidable (queue.EmptiedByPushes event) :=
  match event with
  | ⟨_, .push ..⟩ => isTrue trivial
  | ⟨_, .pop⟩ => inferInstanceAs (Decidable (_ → _))

open DoubleArith DoubleMath

/-- The average of the length after a decay over the time `idle`. -/
def decay (queue : IndicatedQueue W) (idle : SimTime) : W :=
  mul (pow (sub (ofRat 1) queue.indicator.wq) (div (simtimeDbl idle) (ofRat 0.0005)))
    queue.indicator.avgDataQueueLength

variable {queue queue' : IndicatedQueue W} {event : QueueEvent} {events : List QueueEvent}
variable {now : SimTime} {datagram : Datagram} {taken : ℕ}
variable (indicator : PccpIndicator W)

omit [DoubleMath W] in
theorem q_time_pushOrSendPacket (collection : Collection) :
    (indicator.pushOrSendPacket now collection).q_time =
      if collection.numPackets = 0 then now else indicator.q_time := by
  unfold PccpIndicator.pushOrSendPacket
  split <;> rfl

theorem q_time_matchesPacket (collection : Collection) :
    (indicator.matchesPacket now collection datagram).2.1.q_time = indicator.q_time := by
  unfold PccpIndicator.matchesPacket
  split <;> rfl

omit [DoubleMath W] in
theorem avgDataQueueLength_pushOrSendPacket
    (collection : Collection) :
    (indicator.pushOrSendPacket now collection).avgDataQueueLength =
      indicator.avgDataQueueLength := by
  unfold PccpIndicator.pushOrSendPacket
  split <;> rfl

theorem emptied_push : (queue.push now datagram taken).emptied =
    if queue.numPackets + 1 - taken = 0 then now else queue.emptied := rfl

theorem decayed_push : (queue.push now datagram taken).decayed =
    if datagram.pitInd.isSome ∧ queue.numPackets = 0 then now else queue.decayed := rfl

omit [DoubleMath W] in
theorem emptied_pop : (queue.pop now).emptied =
    if queue.numPackets - 1 = 0 then now else queue.emptied := rfl

/-- A push sets `q_time` when it leaves the queue empty. -/
theorem q_time_push : (queue.push now datagram taken).indicator.q_time =
    if queue.numPackets + 1 - taken = 0 then now else queue.indicator.q_time := by
  simp only [push, q_time_pushOrSendPacket, q_time_matchesPacket, collection, Int.natCast_eq_zero]

/-- A Data packet that finds the queue empty lets the average decay since `q_time`. -/
theorem avgDataQueueLength_push (hdata : datagram.pitInd.isSome) (hempty : queue.numPackets = 0) :
    (queue.push now datagram taken).indicator.avgDataQueueLength =
      queue.decay (now - queue.indicator.q_time) := by
  obtain ⟨pitInd, hpitInd⟩ := Option.isSome_iff_exists.mp hdata
  have hmatches : (queue.indicator.matchesPacket now queue.collection
    datagram).2.1.avgDataQueueLength
      = queue.decay (now - queue.indicator.q_time) := by
    simp [PccpIndicator.matchesPacket, hpitInd, PccpIndicator.updateAverageQueueLengthAndCI,
      collection, hempty, decay]
  simp only [push, avgDataQueueLength_pushOrSendPacket, hmatches]

/-- The records of the events; an empty queue has been emptied when `q_time` says so, and has not
decayed since. -/
structure Accurate (queue : IndicatedQueue W) : Prop where
  emptied_le : queue.emptied ≤ queue.clock
  decayed_le : queue.decayed ≤ queue.clock
  decayed_le_emptied : queue.numPackets = 0 → queue.decayed ≤ queue.emptied
  q_time : queue.numPackets = 0 → queue.indicator.q_time = queue.emptied

theorem Accurate.push (h : queue.Accurate) (hclock : queue.clock ≤ now) :
    (queue.push now datagram taken).Accurate := by
  have hemptied : queue.emptied ≤ now := h.emptied_le.trans hclock
  have hdecayed : queue.decayed ≤ now := h.decayed_le.trans hclock
  have hdecayed' : (queue.push now datagram taken).decayed ≤ now := by
    rw [decayed_push]
    split
    · exact le_rfl
    · exact hdecayed
  refine ⟨?_, hdecayed', ?_, ?_⟩
  · rw [emptied_push]
    split
    · exact le_rfl
    · exact hemptied
  · intro (hempty : queue.numPackets + 1 - taken = 0)
    rw [emptied_push, if_pos hempty]
    exact hdecayed'
  · intro (hempty : queue.numPackets + 1 - taken = 0)
    rw [q_time_push, emptied_push, if_pos hempty, if_pos hempty]

omit [DoubleMath W] in
theorem Accurate.pop (h : queue.Accurate) (hclock : queue.clock ≤ now)
    (hbusy : 0 < queue.numPackets)
    (hguard : queue.numPackets = 1 → now = queue.indicator.q_time) :
    (queue.pop now).Accurate := by
  have hdecayed : queue.decayed ≤ now := h.decayed_le.trans hclock
  refine ⟨?_, hdecayed, ?_, ?_⟩
  · rw [emptied_pop]
    split
    · exact le_rfl
    · exact h.emptied_le.trans hclock
  · intro (hempty : queue.numPackets - 1 = 0)
    rw [emptied_pop, if_pos hempty]
    exact hdecayed
  · intro (hempty : queue.numPackets - 1 = 0)
    rw [emptied_pop, if_pos hempty]
    exact (hguard (by omega)).symm

theorem Accurate.step (h : queue.Accurate)
    (hstep : ((machine W).restrict EmptiedByPushes).Step queue event queue') :
    queue'.Accurate := by
  obtain ⟨⟨⟨hclock, henabled⟩, hok⟩, hguard⟩ := Machine.step_restrict_iff.mp hstep
  obtain ⟨now, action⟩ := event
  cases action with
  | push datagram taken =>
    obtain rfl := Except.ok.inj hok
    exact h.push hclock
  | pop =>
    obtain rfl := Except.ok.inj hok
    exact h.pop hclock henabled hguard

/-- The queue at the start, behind an indicator with the initial `q_time`. -/
structure Initial (queue : IndicatedQueue W) : Prop where
  numPackets : queue.numPackets = 0
  clock : queue.clock = 0
  emptied : queue.emptied = 0
  decayed : queue.decayed = 0
  q_time : queue.indicator.q_time = 0

omit [DoubleMath W] in
theorem Initial.accurate (h : queue.Initial) : queue.Accurate where
  emptied_le := by rw [h.emptied, h.clock]
  decayed_le := by rw [h.decayed, h.clock]
  decayed_le_emptied _ := by rw [h.decayed, h.emptied]
  q_time _ := by rw [h.q_time, h.emptied]

theorem accurate_of_run (hinitial : queue.Initial)
    (hrun : ((machine W).restrict EmptiedByPushes).Run queue events queue') : queue'.Accurate :=
  hrun.invariant (fun _ _ _ h hstep ↦ h.step hstep) hinitial.accurate

/-- In every run in which no pop empties the queue, except at the time of the last push that has
left it empty, a Data packet that finds the queue empty lets the average decay over the time since
the queue became empty or since the last decay. -/
theorem decays_idle_time_of_run {start : IndicatedQueue W} (hinitial : start.Initial)
    (hrun : ((machine W).restrict EmptiedByPushes).Run start events queue)
    (hdata : datagram.pitInd.isSome) (hempty : queue.numPackets = 0)
    (hstep : (machine W).Step queue ⟨now, .push datagram taken⟩ queue') :
    queue'.indicator.avgDataQueueLength = queue.decay (now - queue.idleSince) := by
  have h := accurate_of_run hinitial hrun
  obtain rfl := Except.ok.inj hstep.2
  rw [avgDataQueueLength_push hdata hempty, h.q_time hempty, idleSince,
    max_eq_left (h.decayed_le_emptied hempty)]

/-- The queue of an idle station; its average follows the length at once by half. -/
def idleQueue : IndicatedQueue ℚ where
  indicator :=
    { wq := 1 / 2
      g := 1 / 5
      CI_FREE := 1 / 20
      CI_BUSY := 3 / 10
      CI_CONG := 3 / 5
      algorithm := .CCS
      avgDataQueueLength := 0
      avgPitLength := 0
      ci := 0 }
  maxNumPackets := 100

theorem initial_idleQueue : idleQueue.Initial := ⟨rfl, rfl, rfl, rfl, rfl⟩

/-- A Data packet with an empty payload, as `sendDATA` hands it down. -/
def dataDatagram : Datagram :=
  ⟨.data ⟨{ sid := default }, []⟩, 1, 2, some ⟨1, 100⟩⟩

/-- A Data packet waits until another one arrives, with which it is passed on. -/
theorem decays_idle_time_of_run_passed :
    ∃ queue queue' : IndicatedQueue ℚ,
      ((machine ℚ).restrict EmptiedByPushes).Run idleQueue
        [⟨ofMillis 1, .push dataDatagram 0⟩, ⟨ofMillis 2, .push dataDatagram 2⟩]
        queue ∧
      (machine ℚ).Step queue ⟨ofMillis 3, .push dataDatagram 0⟩ queue' ∧
      queue'.indicator.avgDataQueueLength =
        queue.decay (ofMillis 3 - queue.idleSince) := by
  obtain ⟨queue, hrun, hempty, hclock⟩ : ∃ queue,
      ((machine ℚ).restrict EmptiedByPushes).Run idleQueue
        [⟨ofMillis 1, .push dataDatagram 0⟩, ⟨ofMillis 2, .push dataDatagram 2⟩]
        queue ∧ queue.numPackets = 0 ∧ queue.clock = ofMillis 2 :=
    Machine.exists_run_of_exec (by decide +kernel)
  have hstep : (machine ℚ).Step queue ⟨ofMillis 3, .push dataDatagram 0⟩
      (queue.push (ofMillis 3) dataDatagram 0) := by
    refine ⟨⟨?_, Nat.zero_le _⟩, rfl⟩
    rw [hclock]
    decide
  exact ⟨queue, _, hrun, hstep, decays_idle_time_of_run initial_idleQueue hrun rfl hempty hstep⟩

/-- Two Data packets are pushed at one millisecond and popped at two.  A third one at three
milliseconds finds the queue idle for one millisecond, but the average decays over three. -/
theorem decays_longer_than_idle :
    ∃ queue queue' : IndicatedQueue ℚ,
      (machine ℚ).Run idleQueue
        [⟨ofMillis 1, .push dataDatagram 0⟩, ⟨ofMillis 1, .push dataDatagram 0⟩,
          ⟨ofMillis 2, .pop⟩, ⟨ofMillis 2, .pop⟩] queue ∧
      queue.numPackets = 0 ∧
      (machine ℚ).Step queue ⟨ofMillis 3, .push dataDatagram 0⟩ queue' ∧
      ofMillis 3 - queue.idleSince = ofMillis 1 ∧
      queue'.indicator.avgDataQueueLength = queue.decay (ofMillis 3) ∧
      queue.decay (ofMillis 3) ≠ queue.decay (ofMillis 1) := by
  obtain ⟨queue, hrun, hqueue⟩ : ∃ queue, (machine ℚ).Run idleQueue
      [⟨ofMillis 1, .push dataDatagram 0⟩, ⟨ofMillis 1, .push dataDatagram 0⟩,
        ⟨ofMillis 2, .pop⟩, ⟨ofMillis 2, .pop⟩] queue ∧
      (queue.numPackets = 0 ∧ queue.clock = ofMillis 2 ∧
        ofMillis 3 - queue.idleSince = ofMillis 1 ∧
        (queue.push (ofMillis 3) dataDatagram 0).indicator.avgDataQueueLength =
          queue.decay (ofMillis 3) ∧
        queue.decay (ofMillis 3) ≠ queue.decay (ofMillis 1)) :=
    Machine.exists_run_of_exec (by decide +kernel)
  obtain ⟨hempty, hclock, hidle, havg, hne⟩ := hqueue
  refine ⟨queue, _, hrun, hempty, ⟨⟨?_, ?_⟩, rfl⟩, hidle, havg, hne⟩
  · rw [hclock]
    decide
  · exact Nat.zero_le _

end IndicatedQueue

end Inet4.Pccp
