import Inet4.Aodv.Discovery
import Mathlib.Tactic.Linarith
import Mathlib.Tactic.Positivity

/-!
# Discoveries along a run

A node handles datagrams, control packets and timers in any order.  As long as it originates RREQs
below the rate limit only, every datagram that waits has a discovery with a scheduled timer, and
each time that the timer expires fewer repetitions are left, until the datagram is dropped.
-/

namespace Inet4.Aodv

variable {A : Type} [DecidableEq A]

/-! ## Runs -/

/-- A node and the time of its last event. -/
structure Station (A : Type) where
  node : AodvCluster A
  clock : SimTime

/-- A timer arrives at the time for which it is scheduled. -/
def AodvCluster.Due (node : AodvCluster A) (now : SimTime) : Event A → Prop
  | .waitForRREP _ target => ∃ timer ∈ node.waitForRREPTimers.find target, timer.timer = some now
  | .rrepAckTimer => node.rrepAckTimer = some now
  | .blacklistTimer => node.blacklistTimer = some now
  | _ => True

/-- Events come in the order of their times, and no timer for a Route Reply is left behind. -/
def Station.Enabled (station : Station A) (event : SimTime × Event A) : Prop :=
  station.clock ≤ event.1 ∧
    (∀ target, ∀ timer ∈ station.node.waitForRREPTimers.find target, ∀ time ∈ timer.timer,
      event.1 ≤ time) ∧
    station.node.Due event.1 event.2

def station (A : Type) [DecidableEq A] : Machine (Station A) (SimTime × Event A) Fault where
  Enabled := Station.Enabled
  handle station event := do
    let node ← station.node.handle event.1 event.2
    return ⟨node, event.1⟩

/-- A node that has just started. -/
def Station.started (self : A) (params : Parameters A) (start : SimTime) : Station A where
  node := { self := self, params := params, rebootTime := start }
  clock := start

/-- A RREQ is originated below the rate limit. -/
def Station.WithinLimit (station : Station A) (event : SimTime × Event A) : Prop :=
  station.node.OriginatesRREQ event.2 → station.node.rreqCount < station.node.params.rreqRatelimit

/-- The timer of a target expires. -/
def Event.expires (target : A) : Event A → Bool
  | .waitForRREP _ target' => target' = target
  | _ => false

/-! ## Repetitions -/

namespace Parameters

variable (params : Parameters A) {lastTTL retries : ℕ}

/-- The greatest TTL of an own RREQ. -/
def maxTTL : ℕ := max params.ttlStart (max params.ttlThreshold params.netDiameter)

/-- A bound on the repetitions until a RREQ has the greatest TTL. -/
def rounds (lastTTL : ℕ) : ℕ :=
  if lastTTL = params.netDiameter then 0
  else if params.ttlThreshold ≤ lastTTL then 1
  else params.ttlThreshold - lastTTL + 1

/-- A bound on the repetitions until the retries are exhausted. -/
def remaining (lastTTL retries : ℕ) : ℕ :=
  (params.rreqRetries - retries) * (params.ttlThreshold + 2) + params.rounds lastTTL

/-- A bound on the repetitions of a discovery. -/
def maxRemaining : ℕ := params.rreqRetries * (params.ttlThreshold + 2) + (params.ttlThreshold + 1)

variable {params}

omit [DecidableEq A] in
theorem rounds_le (lastTTL : ℕ) : params.rounds lastTTL ≤ params.ttlThreshold + 1 := by
  unfold rounds
  split
  · exact Nat.zero_le _
  · split <;> omega

omit [DecidableEq A] in
theorem remaining_le (lastTTL retries : ℕ) :
    params.remaining lastTTL retries ≤ params.maxRemaining :=
  Nat.add_le_add (Nat.mul_le_mul_right _ (Nat.sub_le _ _)) (rounds_le lastTTL)

omit [DecidableEq A] in
theorem rounds_nextTTL (hincrement : 0 < params.ttlIncrement) (h : lastTTL ≠ params.netDiameter) :
    params.rounds (AodvCluster.nextTTL params lastTTL) < params.rounds lastTTL := by
  unfold AodvCluster.nextTTL rounds
  split
  · rename_i hlt
    have hbelow : ¬params.ttlThreshold ≤ lastTTL := by omega
    rw [if_neg hbelow]
    split
    · omega
    · split <;> omega
  · rw [if_pos rfl]
    split <;> omega

omit [DecidableEq A] in
/-- With each repetition fewer of them are left. -/
theorem remaining_nextTTL (hincrement : 0 < params.ttlIncrement)
    (hretries : retries < params.rreqRetries) :
    params.remaining (AodvCluster.nextTTL params lastTTL)
      (if lastTTL = params.netDiameter then retries + 1 else retries) <
        params.remaining lastTTL retries := by
  unfold remaining
  split
  · rename_i hlast
    have hrounds : params.rounds (AodvCluster.nextTTL params lastTTL) ≤ params.ttlThreshold + 1 :=
      rounds_le _
    have hleft : params.rreqRetries - retries = params.rreqRetries - (retries + 1) + 1 := by omega
    rw [hleft, Nat.add_mul]
    omega
  · rename_i hlast
    exact Nat.add_lt_add_left (rounds_nextTTL hincrement hlast) _

omit [DecidableEq A] in
theorem nextTTL_le (lastTTL : ℕ) : AodvCluster.nextTTL params lastTTL ≤ params.maxTTL := by
  unfold AodvCluster.nextTTL maxTTL
  split <;> omega

omit [DecidableEq A] in
theorem ringTraversalTime_mono (h : 0 ≤ params.nodeTraversalTime) {ttl ttl' : ℕ}
    (hle : ttl ≤ ttl') :
    AodvCluster.ringTraversalTime params ttl ≤ AodvCluster.ringTraversalTime params ttl' := by
  have hsum : (ttl + params.timeoutBuffer : ℤ) ≤ ttl' + params.timeoutBuffer := by omega
  exact mul_le_mul_of_nonneg_left hsum (mul_nonneg (by decide) h)

/-- The longest time for which a timer is scheduled. -/
def maxRing (params : Parameters A) : SimTime :=
  AodvCluster.ringTraversalTime params params.maxTTL

omit [DecidableEq A] in
theorem maxRing_nonneg (htraversal : 0 ≤ params.nodeTraversalTime) : 0 ≤ params.maxRing := by
  unfold maxRing AodvCluster.ringTraversalTime
  positivity

/-- The retries of a target after its timer expired. -/
def nextRetries (params : Parameters A) (lastTTL retries : ℕ) : ℕ :=
  if lastTTL = params.netDiameter then retries + 1 else retries

omit [DecidableEq A] in
/-- What a repetition takes from the repetitions that are left and from the time that they take. -/
theorem repeat_le (lastTTL : ℕ) (hincrement : 0 < params.ttlIncrement)
    (htraversal : 0 ≤ params.nodeTraversalTime) (hretries : retries < params.rreqRetries) :
    params.remaining (AodvCluster.nextTTL params lastTTL)
        (params.nextRetries lastTTL retries) + 1 ≤ params.remaining lastTTL retries ∧
      AodvCluster.ringTraversalTime params (AodvCluster.nextTTL params lastTTL) +
          params.maxRing * params.remaining (AodvCluster.nextTTL params lastTTL)
            (params.nextRetries lastTTL retries) ≤
        params.maxRing * params.remaining lastTTL retries := by
  have hfewer : params.remaining (AodvCluster.nextTTL params lastTTL)
      (params.nextRetries lastTTL retries) + 1 ≤ params.remaining lastTTL retries :=
    remaining_nextTTL hincrement hretries
  refine ⟨hfewer, ?_⟩
  have hring : AodvCluster.ringTraversalTime params (AodvCluster.nextTTL params lastTTL) ≤
      params.maxRing := ringTraversalTime_mono htraversal (nextTTL_le lastTTL)
  have hnonneg := maxRing_nonneg htraversal
  have hfewer' : (params.remaining (AodvCluster.nextTTL params lastTTL)
      (params.nextRetries lastTTL retries) : ℤ) + 1 ≤ params.remaining lastTTL retries := by
    exact_mod_cast hfewer
  calc
    _ ≤ params.maxRing + params.maxRing * params.remaining
        (AodvCluster.nextTTL params lastTTL) (params.nextRetries lastTTL retries) :=
      add_le_add_left hring _
    _ = params.maxRing * (params.remaining (AodvCluster.nextTTL params lastTTL)
        (params.nextRetries lastTTL retries) + 1) := by ring
    _ ≤ params.maxRing * params.remaining lastTTL retries :=
      mul_le_mul_of_nonneg_left hfewer' hnonneg

omit [DecidableEq A] in
/-- A repetition keeps a bound on the expirations and a deadline. -/
theorem repeat_le_of_le {expirations bound : ℕ} {time deadline : SimTime}
    (hincrement : 0 < params.ttlIncrement) (htraversal : 0 ≤ params.nodeTraversalTime)
    (hretries : retries < params.rreqRetries)
    (hbound : expirations + params.remaining lastTTL retries ≤ bound)
    (hdeadline : time + params.maxRing * params.remaining lastTTL retries ≤ deadline) :
    expirations + 1 + params.remaining (AodvCluster.nextTTL params lastTTL)
        (params.nextRetries lastTTL retries) ≤ bound ∧
      time + AodvCluster.ringTraversalTime params (AodvCluster.nextTTL params lastTTL) +
          params.maxRing * params.remaining (AodvCluster.nextTTL params lastTTL)
            (params.nextRetries lastTTL retries) ≤ deadline := by
  obtain ⟨hfewer, hsooner⟩ := repeat_le lastTTL hincrement htraversal hretries
  refine ⟨by omega, ?_⟩
  rw [add_assoc]
  exact (add_le_add_right hsooner time).trans hdeadline

end Parameters

/-! ## Invariants -/

namespace Discovery

/-- Each datagram that waits has an entry whose timer is scheduled, and every entry is scheduled. -/
structure Waiting (d : Discovery A) : Prop where
  held : ∀ target, d.held.contains target = true →
    ∃ timer, d.timers.find target = some timer ∧ timer.timer ≠ none
  scheduled : ∀ target, ∀ timer ∈ d.timers.find target, timer.timer ≠ none

/-- An entry is scheduled for a time that has not passed, and its retries are not exceeded. -/
structure Armed (d : Discovery A) (clock : SimTime) (target : A) (timer : WaitForRrep A)
    (time : SimTime) (retries : ℕ) : Prop where
  find : d.timers.find target = some timer
  scheduled : timer.timer = some time
  named : timer.destAddr = target
  counted : d.retries.find target = some retries
  retries_le : retries ≤ d.params.rreqRetries
  clock_le : clock ≤ time
  time_le : 0 ≤ d.params.nodeTraversalTime → time ≤ clock + d.params.maxRing

/-- Every entry is armed, and only targets with an entry have datagrams that wait. -/
structure Tidy (d : Discovery A) (clock : SimTime) : Prop where
  armed : ∀ target ∈ d.timers, ∃ timer time retries, d.Armed clock target timer time retries
  held : ∀ target, d.held.contains target = true → target ∈ d.timers

variable {d : Discovery A} {clock : SimTime} {target : A}

theorem Tidy.waiting (h : d.Tidy clock) : d.Waiting := by
  constructor
  · intro target hheld
    obtain ⟨timer, time, retries, harmed⟩ := h.armed target (h.held target hheld)
    exact ⟨timer, harmed.find, by rw [harmed.scheduled]; nofun⟩
  · intro target timer hfind
    obtain ⟨timer', time, retries, harmed⟩ := h.armed target (AssocMap.mem_iff_find.mpr ⟨_, hfind⟩)
    obtain rfl : timer' = timer := Option.some.inj (harmed.find.symm.trans hfind)
    rw [harmed.scheduled]
    nofun

end Discovery

variable {before after : Station A} {now : SimTime} {event : Event A}

open AodvCluster Discovery AssocMap List MultiMap Option

/-- The step of a station is the one of its node. -/
theorem station_step_iff : (station A).Step before (now, event) after ↔
    before.Enabled (now, event) ∧ before.node.handle now event = .ok after.node ∧
      after.clock = now := by
  constructor
  · rintro ⟨henabled, hhandle⟩
    obtain ⟨node, hnode, hpure⟩ := bind_eq_ok hhandle
    cases Except.ok.inj hpure
    exact ⟨henabled, hnode, rfl⟩
  · rintro ⟨henabled, hnode, rfl⟩
    exact ⟨henabled, bind_of_ok hnode⟩

section Tidy

variable {d d' : Discovery A} {ttl : ℕ} {clock : SimTime} {target target' : A}
    {timer : WaitForRrep A}
variable {time : SimTime} {retries : ℕ}

/-- An entry that is left alone stays armed as long as its time has not passed. -/
theorem Discovery.Armed.mono (h : d.Armed clock target timer time retries)
    (hparams : d'.params = d.params) (htimers : d'.timers.find target = d.timers.find target)
    (hretries : d'.retries.find target = d.retries.find target) (hclock : clock ≤ now)
    (htime : now ≤ time) : d'.Armed now target timer time retries where
  find := htimers.trans h.find
  scheduled := h.scheduled
  named := h.named
  counted := hretries.trans h.counted
  retries_le := hparams ▸ h.retries_le
  clock_le := htime
  time_le := by
    intro htraversal
    rw [hparams] at htraversal ⊢
    have hle := h.time_le htraversal
    linarith

/-- The entry that is armed for a RREQ. -/
theorem armed_arm (hle : ttl ≤ d.params.maxTTL)
    (hnow : now ≤ now + AodvCluster.ringTraversalTime d.params ttl)
    (hnamed : timer.destAddr = target) (hretries : d.retries.find target = some retries)
    (hbound : retries ≤ d.params.rreqRetries) :
    (arm d now target timer ttl).Armed now target
      { timer with timer := some (now + AodvCluster.ringTraversalTime d.params ttl) }
      (now + AodvCluster.ringTraversalTime d.params ttl) retries where
  find := by
    simp only [arm, find_assign, if_true]
  scheduled := rfl
  named := hnamed
  counted := hretries
  retries_le := hbound
  clock_le := hnow
  time_le htraversal := add_le_add_right (Parameters.ringTraversalTime_mono htraversal hle) now

theorem find_nextRetries {params : Parameters A} {counts : AssocMap A ℕ} {lastTTL : ℕ}
    (h : counts.find target = some retries) :
    (if lastTTL = params.netDiameter then counts.assign target (retries + 1) else counts).find
      target = some (params.nextRetries lastTTL retries) := by
  unfold Parameters.nextRetries
  split
  · rw [find_assign, if_pos rfl]
  · exact h

theorem find_nextRetries_of_ne {params : Parameters A} {counts : AssocMap A ℕ} {lastTTL : ℕ}
    (hne : target' ≠ target) :
    (if lastTTL = params.netDiameter then counts.assign target (retries + 1) else counts).find
      target' = counts.find target' := by
  split
  · rw [find_assign, if_neg hne]
  · rfl

/-- An armed entry belongs to a target that has retries when its timer makes the node originate a
RREQ. -/
theorem Discovery.Armed.retries_lt {node : AodvCluster A}
    (h : node.discovery.Armed clock target timer time retries) (hretries : node.HasRetries target) :
    retries < node.params.rreqRetries := by
  refine lt_of_le_of_ne h.retries_le ?_
  rintro rfl
  exact hretries h.counted

/-- What is armed before an event has a time that has not passed. -/
theorem Discovery.Armed.le_time
    (h : before.node.discovery.Armed clock target timer time retries)
    (henabled : before.Enabled (now, event)) : now ≤ time :=
  henabled.2.1 target timer h.find time h.scheduled

/-- An event below the rate limit keeps the discoveries tidy. -/
theorem Discovery.Tidy.step (h : before.node.discovery.Tidy before.clock)
    (henabled : before.Enabled (now, event)) (hwithin : before.WithinLimit (now, event))
    (hchange : before.node.Change now event d) : d.Tidy now := by
  have hmono : ∀ (d : Discovery A) (target : A), target ∈ before.node.discovery.timers →
      d.params = before.node.params →
      d.timers.find target = before.node.discovery.timers.find target →
      d.retries.find target = before.node.discovery.retries.find target →
      ∃ timer time retries, d.Armed now target timer time retries := by
    intro d target hmem hparams htimers hretries
    obtain ⟨timer, time, retries, harmed⟩ := h.armed target hmem
    exact ⟨timer, time, retries,
      harmed.mono hparams htimers hretries henabled.1 (harmed.le_time henabled)⟩
  cases hchange with
  | same hnot hexpires =>
    exact ⟨fun target hmem ↦ hmono _ target hmem rfl rfl rfl, h.held⟩
  | @join role datagram hongoing =>
    refine ⟨fun target hmem ↦ hmono _ target hmem rfl rfl rfl, ?_⟩
    intro target hheld
    rcases contains_insert.mp hheld with rfl | hheld
    · exact mem_iff_find.mpr (isSome_iff_exists.mp hongoing)
    · exact h.held target hheld
  | @start role datagram hstarts hlimit hnow =>
    constructor
    · intro target hmem
      by_cases htarget : target = datagram.destinationAddress
      · subst htarget
        refine ⟨_, _, 0, armed_arm (le_max_left _ _) hnow rfl ?_ (Nat.zero_le _)⟩
        simp only [find_assign, if_true]
      · rcases mem_assign.mp hmem with heq | hmem
        · exact absurd heq htarget
        · refine hmono _ target hmem rfl ?_ ?_
          · simp only [arm, hold, find_assign, if_neg htarget]
          · simp only [arm, find_assign, if_neg htarget]
    · intro target hheld
      rcases contains_insert.mp hheld with rfl | hheld
      · exact mem_assign.mpr (.inl rfl)
      · exact mem_assign.mpr (.inr (h.held target hheld))
  | strand hstarts hlimit => exact absurd (hwithin hstarts) (not_lt.mpr hlimit)
  | complete target' =>
    constructor
    · intro target hmem
      obtain ⟨hne, hmem⟩ := mem_remove.mp hmem
      refine hmono _ target hmem rfl ?_ rfl
      simp only [find_remove, if_neg hne]
    · intro target hheld
      obtain ⟨hne, hheld⟩ := contains_erase.mp hheld
      exact mem_remove.mpr ⟨hne, h.held target hheld⟩
  | @cancel role target' timer hfind hretries =>
    constructor
    · intro target hmem
      obtain ⟨hne, hmem⟩ := mem_remove.mp hmem
      rcases mem_assign.mp hmem with heq | hmem
      · exact absurd heq hne
      · refine hmono _ target hmem rfl ?_ rfl
        simp only [find_remove, find_assign, if_neg hne]
    · intro target hheld
      obtain ⟨hne, hheld⟩ := contains_erase.mp hheld
      exact mem_remove.mpr ⟨hne, mem_assign.mpr (.inr (h.held target hheld))⟩
  | stall hfind hretries hlimit =>
    have hmem := mem_iff_find.mpr ⟨_, hfind⟩
    exact absurd (hwithin ⟨hmem, hretries⟩) (not_lt.mpr hlimit)
  | @again role target' timer retries hfind hretries hcount hlimit hnow =>
    have hmem' : target' ∈ before.node.discovery.timers := mem_iff_find.mpr ⟨_, hfind⟩
    constructor
    · intro target hmem
      by_cases htarget : target = target'
      · subst htarget
        obtain ⟨timer', time', retries', harmed⟩ := h.armed target hmem'
        obtain rfl : timer' = timer := some.inj (harmed.find.symm.trans hfind)
        obtain rfl : retries' = retries := some.inj (harmed.counted.symm.trans hcount)
        have hlt := harmed.retries_lt hretries
        refine ⟨_, _, _, armed_arm (Parameters.nextTTL_le _) hnow harmed.named
          (find_nextRetries hcount) ?_⟩
        unfold Parameters.nextRetries
        split
        · exact hlt
        · exact harmed.retries_le
      · rcases mem_assign.mp hmem with heq | hmem
        · exact absurd heq htarget
        · rcases mem_assign.mp hmem with heq | hmem
          · exact absurd heq htarget
          · refine hmono _ target hmem rfl ?_ (find_nextRetries_of_ne htarget)
            simp only [arm, find_assign, if_neg htarget]
    · intro target hheld
      have hmem := h.held target hheld
      exact mem_assign.mpr (.inr (mem_assign.mpr (.inr hmem)))

/-- At the rate limit a RREQ that would have to be originated leaves a datagram without an entry, or
an entry that is not scheduled. -/
theorem AodvCluster.Change.not_waiting
    (hwithin : ¬before.WithinLimit (now, event)) (hchange : before.node.Change now event d) :
    ¬d.Waiting := by
  obtain ⟨horiginates, hlimit⟩ := Classical.not_imp.mp hwithin
  intro hwaiting
  cases hchange with
  | same hnot => exact hnot horiginates
  | @join role datagram hongoing =>
    have hfree : before.node.hasOngoingRouteDiscovery datagram.destinationAddress = false :=
      horiginates.2.2
    rw [hongoing] at hfree
    cases hfree
  | start hstarts hbelow | again hfind hretries hcount hbelow => exact hlimit hbelow
  | @strand role datagram d hstarts hatLimit htimers hheld =>
    have hwaits : d.held.contains datagram.destinationAddress = true := by
      rw [hheld]
      exact contains_insert.mpr (.inl rfl)
    obtain ⟨timer, hfind, -⟩ := hwaiting.held _ hwaits
    have hfree : before.node.hasOngoingRouteDiscovery datagram.destinationAddress = false :=
      hstarts.2.2
    have hfind' : before.node.waitForRREPTimers.find datagram.destinationAddress = some timer := by
      rw [htimers] at hfind
      exact hfind
    unfold hasOngoingRouteDiscovery at hfree
    rw [hfind'] at hfree
    cases hfree
  | complete target => exact horiginates
  | cancel hfind hretries => exact hretries horiginates.2
  | @stall role target timer d hfind hretries hatLimit htimers =>
    refine hwaiting.scheduled target { timer with timer := none } ?_ rfl
    rw [htimers, mem_def, find_assign, if_pos rfl]

end Tidy

/-! ## Datagrams that wait -/

namespace Discovery

/-- A datagram has been reinjected or dropped. -/
def Resolved (d : Discovery A) (datagram : Datagram A) : Prop :=
  datagram ∈ d.reinjected ∨ datagram ∈ d.dropped

/-- A datagram waits, with a bound on the expirations of its timer and a deadline. -/
def Pending (d : Discovery A) (clock : SimTime) (target : A) (datagram : Datagram A)
    (expirations bound : ℕ) (deadline : SimTime) : Prop :=
  datagram ∈ d.held.equalRange target ∧ ∃ timer time retries,
    d.Armed clock target timer time retries ∧
    expirations + d.params.remaining timer.lastTTL retries ≤ bound ∧
    time + d.params.maxRing * d.params.remaining timer.lastTTL retries ≤ deadline

variable {d : Discovery A} {target : A} {datagram : Datagram A} {expirations bound : ℕ}
variable {deadline : SimTime}

/-- A datagram that waits begins with all the expirations and the time that its entry has left. -/
theorem Tidy.exists_pending {clock : SimTime} (h : d.Tidy clock)
    (hheld : datagram ∈ d.held.equalRange target) (htraversal : 0 ≤ d.params.nodeTraversalTime) :
    ∃ bound deadline, d.Pending clock target datagram 0 bound deadline ∧
      bound ≤ d.params.maxRemaining ∧
      deadline ≤ clock + d.params.maxRing * (d.params.maxRemaining + 1) := by
  have hmem : target ∈ d.timers := by
    refine h.held target (contains_iff.mpr ?_)
    exact ne_nil_of_mem hheld
  obtain ⟨timer, time, retries, harmed⟩ := h.armed target hmem
  have hremaining : d.params.remaining timer.lastTTL retries ≤ d.params.maxRemaining :=
    Parameters.remaining_le ..
  have hsofar : (d.params.remaining timer.lastTTL retries : ℤ) ≤ d.params.maxRemaining := by
    exact_mod_cast hremaining
  refine ⟨_, _, ⟨hheld, timer, time, retries, harmed, (Nat.zero_add _).le, le_rfl⟩,
    hremaining, ?_⟩
  calc
    _ ≤ clock + d.params.maxRing + d.params.maxRing * d.params.maxRemaining :=
      add_le_add (harmed.time_le htraversal)
        (mul_le_mul_of_nonneg_left hsofar (Parameters.maxRing_nonneg htraversal))
    _ = clock + d.params.maxRing * (d.params.maxRemaining + 1) := by ring

/-- The bound and the deadline of a datagram that waits hold. -/
theorem Pending.within {clock : SimTime}
    (h : d.Pending clock target datagram expirations bound deadline)
    (htraversal : 0 ≤ d.params.nodeTraversalTime) : expirations ≤ bound ∧ clock ≤ deadline := by
  obtain ⟨-, timer, time, retries, harmed, hbound, hdeadline⟩ := h
  refine ⟨Nat.le_of_add_right_le hbound, ?_⟩
  calc
    clock ≤ time := harmed.clock_le
    _ ≤ time + d.params.maxRing * d.params.remaining timer.lastTTL retries :=
      le_add_of_nonneg_right
        (mul_nonneg (Parameters.maxRing_nonneg htraversal) (Int.natCast_nonneg _))
    _ ≤ deadline := hdeadline

theorem Resolved.step (h : before.node.discovery.Resolved datagram)
    (hwithin : before.WithinLimit (now, event))
    (hchange : before.node.Change now event d) : d.Resolved datagram := by
  cases hchange with
  | same | join | start | again => exact h
  | strand hstarts hlimit => exact absurd (hwithin hstarts) (not_lt.mpr hlimit)
  | complete target => exact h.imp_left (mem_append_left _)
  | cancel hfind hretries => exact h.imp_right (mem_append_left _)
  | stall hfind hretries hlimit =>
    have hmem := mem_iff_find.mpr ⟨_, hfind⟩
    exact absurd (hwithin ⟨hmem, hretries⟩) (not_lt.mpr hlimit)

/-- A datagram that waits goes on waiting, with fewer expirations of its timer left when it is this
timer that expires, or it is reinjected or dropped. -/
theorem Pending.step
    (h : before.node.discovery.Pending before.clock target datagram expirations bound deadline)
    (hincrement : 0 < before.node.params.ttlIncrement)
    (htraversal : 0 ≤ before.node.params.nodeTraversalTime)
    (henabled : before.Enabled (now, event)) (hwithin : before.WithinLimit (now, event))
    (hchange : before.node.Change now event d) :
    d.Resolved datagram ∨ d.Pending now target datagram
      (expirations + if event.expires target then 1 else 0) bound deadline := by
  obtain ⟨hheld, timer, time, retries, harmed, hbound, hdeadline⟩ := h
  have hmem : target ∈ before.node.discovery.timers := mem_iff_find.mpr ⟨_, harmed.find⟩
  have hle := harmed.le_time henabled
  -- the entry of the target is left alone, and its timer does not expire
  have hmono : ∀ d : Discovery A, d.params = before.node.params →
      d.timers.find target = before.node.discovery.timers.find target →
      d.retries.find target = before.node.discovery.retries.find target →
      datagram ∈ d.held.equalRange target → event.expires target = false →
      d.Pending now target datagram (expirations + if event.expires target then 1 else 0) bound
        deadline := by
    intro d hparams htimers hretries hheld hexpires
    refine ⟨hheld, timer, time, retries,
      harmed.mono hparams htimers hretries henabled.1 hle, ?_, ?_⟩
    · rw [hexpires, if_neg Bool.false_ne_true, hparams]
      exact hbound
    · rw [hparams]
      exact hdeadline
  cases hchange with
  | same hnot hexpires =>
    refine .inr (hmono _ rfl rfl rfl hheld ?_)
    cases event with
    | waitForRREP role target' =>
      refine decide_eq_false ?_
      rintro rfl
      exact hexpires role target' rfl hmem
    | _ => rfl
  | @join role datagram' hongoing =>
    refine .inr (hmono _ rfl rfl rfl ?_ rfl)
    simp only [hold, MultiMap.insert, MultiMap.equalRange_setRange]
    split
    · rename_i heq
      rw [← heq]
      exact mem_append_left _ hheld
    · exact hheld
  | @start role datagram' hstarts hlimit hnow =>
    have hne : target ≠ datagram'.destinationAddress := by
      rintro rfl
      have hfree : before.node.hasOngoingRouteDiscovery datagram'.destinationAddress = false :=
        hstarts.2.2
      have hfind : before.node.waitForRREPTimers.find datagram'.destinationAddress = some timer :=
        harmed.find
      unfold hasOngoingRouteDiscovery at hfree
      rw [hfind] at hfree
      cases hfree
    refine .inr (hmono _ rfl ?_ ?_ ?_ rfl)
    · simp only [arm, hold, find_assign, if_neg hne]
    · simp only [arm, find_assign, if_neg hne]
    · simp only [arm, hold, MultiMap.insert, MultiMap.equalRange_setRange, if_neg hne]
      exact hheld
  | strand hstarts hlimit => exact absurd (hwithin hstarts) (not_lt.mpr hlimit)
  | complete target' =>
    by_cases htarget : target = target'
    · subst htarget
      exact .inl (.inl (mem_append_right _ hheld))
    · refine .inr (hmono _ rfl ?_ rfl ?_ rfl)
      · simp only [find_remove, if_neg htarget]
      · simp only [erase, equalRange_setRange, if_neg htarget]
        exact hheld
  | @cancel role target' timer' hfind hretries =>
    by_cases htarget : target = target'
    · subst htarget
      exact .inl (.inr (mem_append_right _ hheld))
    · refine .inr (hmono _ rfl ?_ rfl ?_ (decide_eq_false (Ne.symm htarget)))
      · simp only [find_remove, find_assign, if_neg htarget]
      · simp only [erase, equalRange_setRange, if_neg htarget]
        exact hheld
  | stall hfind hretries hlimit =>
    have hmem := mem_iff_find.mpr ⟨_, hfind⟩
    exact absurd (hwithin ⟨hmem, hretries⟩) (not_lt.mpr hlimit)
  | @again role target' timer' retries' hfind hretries hcount hlimit hnow =>
    by_cases htarget : target = target'
    · subst htarget
      obtain rfl : timer = timer' := some.inj (harmed.find.symm.trans hfind)
      obtain rfl : retries = retries' := some.inj (harmed.counted.symm.trans hcount)
      obtain ⟨timer', hfind', htimer⟩ := henabled.2.2
      obtain rfl : timer' = timer := some.inj (hfind'.symm.trans hfind)
      obtain rfl : time = now := some.inj (harmed.scheduled.symm.trans htimer)
      have hlt := harmed.retries_lt hretries
      obtain ⟨hbound', hdeadline'⟩ :=
        Parameters.repeat_le_of_le hincrement htraversal hlt hbound hdeadline
      right
      refine ⟨hheld, _, _, _, armed_arm (Parameters.nextTTL_le timer'.lastTTL) hnow harmed.named
        (find_nextRetries hcount) ?_, ?_, ?_⟩
      · unfold Parameters.nextRetries
        split
        · exact hlt
        · exact harmed.retries_le
      · have hone : (if (Event.waitForRREP (A := A) role target).expires target then 1 else 0) =
            1 := if_pos (decide_eq_true rfl)
        rw [hone]
        exact hbound'
      · exact hdeadline'
    · refine .inr (hmono _ rfl ?_ (find_nextRetries_of_ne htarget) hheld
        (decide_eq_false (Ne.symm htarget)))
      simp only [arm, find_assign, if_neg htarget]

end Discovery

/-! ## Runs below the rate limit -/

variable {self : A} {params : Parameters A} {start : SimTime} {station : Station A}
variable {events : List (SimTime × Event A)}

theorem tidy_started (self : A) (params : Parameters A) (start : SimTime) :
    (Station.started self params start).node.discovery.Tidy start :=
  ⟨nofun, nofun⟩

theorem AodvCluster.Change.params_eq {d : Discovery A}
    (h : before.node.Change now event d) (hwithin : before.WithinLimit (now, event)) :
    d.params = before.node.params := by
  cases h with
  | same | join | start | complete | cancel | again => rfl
  | strand hstarts hlimit => exact absurd (hwithin hstarts) (not_lt.mpr hlimit)
  | stall hfind hretries hlimit =>
    have hmem := mem_iff_find.mpr ⟨_, hfind⟩
    exact absurd (hwithin ⟨hmem, hretries⟩) (not_lt.mpr hlimit)

theorem Discovery.Tidy.named (h : before.node.discovery.Tidy before.clock) :
    before.node.TimersNamed := by
  intro target timer hfind
  obtain ⟨timer', time, retries, harmed⟩ := h.armed target (mem_iff_find.mpr ⟨_, hfind⟩)
  obtain rfl : timer' = timer := some.inj (harmed.find.symm.trans hfind)
  exact harmed.named

/-- A step below the rate limit keeps the parameters and the discoveries tidy. -/
theorem tidy_step
    (h : before.node.params = params ∧ before.node.discovery.Tidy before.clock)
    {event : SimTime × Event A}
    (hstep : ((Aodv.station A).restrict Station.WithinLimit).Step before event after) :
    after.node.params = params ∧ after.node.discovery.Tidy after.clock := by
  obtain ⟨hparams, htidy⟩ := h
  obtain ⟨hstep, hwithin⟩ := Machine.step_restrict_iff.mp hstep
  obtain ⟨henabled, hhandle, hclock⟩ := station_step_iff.mp hstep
  have hchange := change_of_handle htidy.named hhandle
  refine ⟨(hchange.params_eq hwithin).trans hparams, ?_⟩
  rw [hclock]
  exact htidy.step henabled hwithin hchange

/-- In a run below the rate limit, a datagram that waits is reinjected or dropped, or its timer has
expired a bounded number of times. -/
theorem pending_of_run {station' : Station A} {later : List (SimTime × Event A)} {target : A}
    {datagram : Datagram A} {bound : ℕ} {deadline : SimTime}
    (hincrement : 0 < params.ttlIncrement) (htraversal : 0 ≤ params.nodeTraversalTime)
    (htidy : station.node.params = params ∧ station.node.discovery.Tidy station.clock)
    (hpending : station.node.discovery.Pending station.clock target datagram 0 bound deadline)
    (hrun : ((Aodv.station A).restrict Station.WithinLimit).Run station later station') :
    station'.node.discovery.params = params ∧
      (station'.node.discovery.Resolved datagram ∨
        station'.node.discovery.Pending station'.clock target datagram
          (later.filter fun event ↦ event.2.expires target).length bound deadline) := by
  have hkept := hrun.invariant_history (P := fun past station' ↦
    (station'.node.params = params ∧ station'.node.discovery.Tidy station'.clock) ∧
      (station'.node.discovery.Resolved datagram ∨
        station'.node.discovery.Pending station'.clock target datagram
          (past.filter fun event ↦ event.2.expires target).length bound deadline)) ?_
    ⟨htidy, .inr hpending⟩
  · exact ⟨hkept.1.1, hkept.2⟩
  · rintro past before event after ⟨htidy, hpending⟩ hstep
    refine ⟨tidy_step htidy hstep, ?_⟩
    obtain ⟨hbefore, htidy⟩ := htidy
    obtain ⟨hstep, hwithin⟩ := Machine.step_restrict_iff.mp hstep
    obtain ⟨henabled, hhandle, hclock⟩ := station_step_iff.mp hstep
    have hchange := change_of_handle htidy.named hhandle
    rcases hpending with hresolved | hpending
    · exact .inl (hresolved.step hwithin hchange)
    · have hnext := hpending.step (hbefore ▸ hincrement) (hbefore ▸ htraversal) henabled hwithin
        hchange
      have hlength : ((past ++ [event]).filter fun event ↦ event.2.expires target).length =
          (past.filter fun event ↦ event.2.expires target).length +
            if event.2.expires target then 1 else 0 := by
        cases hexpires : event.2.expires target <;> simp [hexpires]
      rw [hclock, hlength]
      exact hnext

/-- In a run below the rate limit, every datagram that waits has an entry with a scheduled timer,
and every entry is scheduled.  From each state on, such a datagram is reinjected or dropped, or its
timer has expired a bounded number of times and a deadline has not passed.  The next event leaves
the state so exactly when it is below the rate limit, too. -/
theorem waiting_of_run
    (hrun : ((Aodv.station A).restrict Station.WithinLimit).Run (.started self params start)
      events station) :
    station.node.discovery.Waiting ∧
      (0 < params.ttlIncrement → 0 ≤ params.nodeTraversalTime →
        ∀ target, ∀ datagram ∈ station.node.discovery.held.equalRange target, ∀ later station',
        ((Aodv.station A).restrict Station.WithinLimit).Run station later station' →
        station'.node.discovery.Resolved datagram ∨
          datagram ∈ station'.node.discovery.held.equalRange target ∧
          (later.filter fun event ↦ event.2.expires target).length ≤ params.maxRemaining ∧
          station'.clock ≤ station.clock + params.maxRing * (params.maxRemaining + 1)) ∧
      ∀ event station', (Aodv.station A).Step station event station' →
        (station'.node.discovery.Waiting ↔ station.WithinLimit event) := by
  have hinvariant : station.node.params = params ∧
      station.node.discovery.Tidy station.clock :=
    hrun.invariant (P := fun station ↦ station.node.params = params ∧
      station.node.discovery.Tidy station.clock) (fun _ _ _ h hstep ↦ tidy_step h hstep)
      ⟨rfl, tidy_started self params start⟩
  obtain ⟨hparams, htidy⟩ := hinvariant
  refine ⟨htidy.waiting, ?_, ?_⟩
  · intro hincrement htraversal target datagram hheld later station' hlater
    have hsame : station.node.discovery.params = params := hparams
    obtain ⟨bound, deadline, hpending, hbound, hdeadline⟩ := htidy.exists_pending hheld
      (hsame ▸ htraversal)
    rw [hsame] at hbound hdeadline
    obtain ⟨hsame', hresolved | hpending'⟩ :=
      pending_of_run hincrement htraversal ⟨hparams, htidy⟩ hpending hlater
    · exact .inl hresolved
    · obtain ⟨hexpirations, hclock⟩ := hpending'.within (hsame' ▸ htraversal)
      exact .inr ⟨hpending'.1, hexpirations.trans hbound, hclock.trans hdeadline⟩
  · intro event station' hstep
    obtain ⟨henabled, hhandle, hclock⟩ := station_step_iff.mp hstep
    have hchange := change_of_handle htidy.named hhandle
    constructor
    · intro hwaiting
      by_contra hwithin
      exact hchange.not_waiting hwithin hwaiting
    · intro hwithin
      exact (htidy.step henabled hwithin hchange).waiting

instance (node : AodvCluster A) (now : SimTime) : DecidablePred (node.Due now)
  | .waitForRREP .. => inferInstanceAs (Decidable (∃ _ ∈ _, _))
  | .rrepAckTimer | .blacklistTimer => inferInstanceAs (Decidable (_ = _))
  | .datagram .. | .datagramForward _ | .packet .. | .linkBroken _ | .helloMsgTimer
  | .expungeTimer _ | .counterTimer => isTrue trivial

instance (station : Station A) : DecidablePred station.Enabled := fun event ↦
  decidable_of_iff
    (station.clock ≤ event.1 ∧
      (∀ entry ∈ station.node.waitForRREPTimers.entries, entry.2.timer.all (event.1 ≤ ·) = true) ∧
      station.node.Due event.1 event.2) (by
    have hiff : (∀ entry ∈ station.node.waitForRREPTimers.entries,
        entry.2.timer.all (event.1 ≤ ·) = true) ↔ ∀ target,
        ∀ timer ∈ station.node.waitForRREPTimers.find target, ∀ time ∈ timer.timer,
          event.1 ≤ time := by
      simp only [Option.mem_def, AssocMap.find_eq_some_iff, Option.all_eq_true, Sigma.forall,
        decide_eq_true_eq]
    rw [hiff]
    rfl)

instance (station : Station A) : DecidablePred station.WithinLimit := fun _ ↦
  inferInstanceAs (Decidable (_ → _))

instance (station : Station A) : DecidablePred ((Aodv.station A).Enabled station) :=
  inferInstanceAs (DecidablePred station.Enabled)

/-- The default values. -/
def defaults : Parameters ℕ where
  isGroup _ := false
  isLocalAddress address := address = 0
  askGratuitousRREP := false
  destinationOnlyFlag := false
  activeRouteTimeout := .ofMillis 3000
  helloInterval := .ofMillis 1000
  allowedHelloLoss := 2
  netDiameter := 35
  nodeTraversalTime := .ofMillis 40
  rerrRatelimit := 10
  rreqRetries := 2
  rreqRatelimit := 10
  timeoutBuffer := 2
  ttlStart := 2
  ttlIncrement := 2
  ttlThreshold := 7
  myRouteTimeout := .ofMillis 6000
  deletePeriod := .ofMillis 15000
  blacklistTimeout := .ofMillis 5600
  netTraversalTime := .ofMillis 2800
  nextHopWait := .ofMillis 50
  pathDiscoveryTime := .ofMillis 5600

/-- A datagram from the node to a destination. -/
def datagramTo (destination : ℕ) : SimTime × Event ℕ :=
  (0, .datagram ⟨false, false⟩ ⟨0, destination, 0⟩)

/-- A datagram waits, and its timer expires once. -/
theorem waiting_of_run_expired :
    ∃ station, ((Aodv.station ℕ).restrict Station.WithinLimit).Run (.started 0 defaults 0)
        [datagramTo 1, (.ofMillis 320, .waitForRREP ⟨false, false⟩ 1)] station ∧
      station.node.discovery.held.equalRange 1 = [⟨0, 1, 0⟩] ∧ station.node.discovery.Waiting := by
  refine Machine.exists_run_and (by decide +kernel) fun station hrun hheld ↦ ?_
  exact (waiting_of_run hrun).1

/-- Eleven discoveries within a second: the last datagram waits without an entry. -/
theorem stranded_at_limit :
    ∃ station, (Aodv.station ℕ).Run (.started 0 defaults 0)
        ((range 11).map fun n ↦ datagramTo (n + 1)) station ∧
      ¬station.node.discovery.Waiting := by
  refine Machine.exists_run_imp (fun station ↦ station.node.discovery.held.contains 11 = true ∧
    (station.node.discovery.timers.find 11).isNone = true) (by decide +kernel) ?_
  rintro station hrun ⟨hheld, hfind⟩
  intro hwaiting
  obtain ⟨timer, hsome, -⟩ := hwaiting.held 11 hheld
  rw [hsome] at hfind
  cases hfind

end Inet4.Aodv
