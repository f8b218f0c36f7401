import Inet4.Fap.Handlers

/-!
# The timers of a host

Most timers are cancelled before they are scheduled.  `AreqTimer` and `timerTL` are not, and
`initialConfigure` schedules `AreqTimer` whether or not it runs already: when `timerTL` expires at a
host that an earlier message has configured, or when a PARTITION message makes a host give way.
These are the only occasions on which a message is scheduled twice.
-/

namespace Inet4.Fap

open AssocMap

variable {node node' : Fap} {now delay interval : SimTime} {timer : Timer} {head : FAPhead}
variable {draws : List RandNum} {addr : Ipv4Address} {event : FapEvent}

/-! ## Discipline of the parts -/

theorem disciplined_schedule :
    Disciplined (node.schedule now timer delay) ↔ timer ∉ node.timers := by
  rw [← SelfMessages.disciplined_scheduleAt node.timers now timer (now + delay)]
  constructor
  · intro h hfault
    apply h
    simp [schedule, hfault, bind, Except.bind]
  · exact fun h ↦ h.bind fun _ _ ↦ disciplined_ok _

theorem disciplined_reschedule : Disciplined (node.reschedule now timer delay) := by
  apply disciplined_schedule.mpr
  simp [cancelEvent]

theorem BloomFilter.disciplined_position (f : BloomFilter) (item : Ipv4Address) (i : ℕ) :
    Disciplined (f.position item i) := by
  unfold BloomFilter.position
  dsimp only
  split <;> simp

theorem BloomFilter.disciplined_insert (f : BloomFilter) (item : Ipv4Address) :
    Disciplined (f.insert item) := by
  suffices h : ∀ (rounds i : ℕ) (f : BloomFilter), Disciplined (f.insertFrom item rounds i) from
    h f.k.toNat 0 f
  intro rounds
  induction rounds with
  | zero => exact fun _ _ ↦ disciplined_ok _
  | succ rounds ih => exact fun i f ↦ (f.disciplined_position item i).bind fun _ _ ↦ ih _ _

theorem BloomFilter.disciplined_check (f : BloomFilter) (item : Ipv4Address) :
    Disciplined (f.check item) := by
  suffices h : ∀ rounds i : ℕ, Disciplined (f.checkFrom item rounds i) from h f.k.toNat 0
  intro rounds
  induction rounds with
  | zero => exact fun _ ↦ disciplined_ok _
  | succ rounds ih =>
    intro i
    refine (f.disciplined_position item i).bind fun index _ ↦ ?_
    split
    · exact ih (i + 1)
    · exact disciplined_ok _

theorem disciplined_insertADDR : Disciplined (node.insertADDR addr) :=
  (node.filter.disciplined_insert addr).bind fun _ _ ↦ disciplined_ok _

theorem disciplined_insertAll (addrs : List Ipv4Address) : Disciplined (node.insertAll addrs) := by
  induction addrs generalizing node with
  | nil => exact disciplined_ok _
  | cons addr addrs ih => exact disciplined_insertADDR.bind fun _ _ ↦ ih

theorem disciplined_updateFilter (m k : BitVec 32) (f : CString) :
    Disciplined (node.updateFilter m k f) := by
  unfold updateFilter BloomFilter.resizeFilter BloomFilter.convert
  refine Disciplined.bind ?_ fun _ _ ↦ Disciplined.bind ?_ fun _ _ ↦ disciplined_ok _
  · split <;> simp
  · split <;> simp

theorem disciplined_carriedFilter (head : FAPhead) : Disciplined (carriedFilter head) := by
  unfold carriedFilter BloomFilter.convert
  split <;> simp

theorem disciplined_mergeFilter (f2 : BloomFilter) : Disciplined (node.mergeFilter f2) := by
  refine Disciplined.bind ?_ fun _ _ ↦ disciplined_ok _
  unfold BloomFilter.add
  dsimp only
  split
  · exact disciplined_ok _
  · split <;> simp

theorem disciplined_freeAddr (ipAddrRecord : AssocMap Ipv4Address (BitVec 32))
    (filter : BloomFilter) (draws : List RandNum) :
    Disciplined (freeAddr ipAddrRecord filter draws) := by
  induction draws with
  | nil => exact disciplined_error.mpr nofun
  | cons randNum draws ih =>
    refine Disciplined.bind ?_ fun taken _ ↦ ?_
    · unfold isTaken
      split
      · exact disciplined_ok _
      · exact filter.disciplined_check _
    · split
      · exact ih
      · exact disciplined_ok _

/-- `InitialConfigure2` schedules `AreqTimer` once it has found an address. -/
theorem disciplined_initialConfigure2 (node : Fap) (now : SimTime) (draws : List RandNum) :
    Disciplined (node.initialConfigure2 now draws) ↔
      ((∃ addr, freeAddr node.ipAddrRecord node.filter draws = .ok addr) →
        .AreqTimer ∉ node.timers) := by
  have hchoose : Disciplined (node.chooseIpAddr draws) :=
    (disciplined_freeAddr _ _ draws).bind fun _ _ ↦ disciplined_ok _
  unfold initialConfigure2
  rw [disciplined_bind_iff hchoose]
  constructor
  · rintro h ⟨addr, hfree⟩
    have hrest := h _ (chooseIpAddr_ok hfree)
    rw [disciplined_schedule] at hrest
    exact hrest
  · intro h mid hmid
    obtain ⟨addr, hfree, rfl⟩ := chooseIpAddr_eq_ok hmid
    exact disciplined_schedule.mpr (h ⟨addr, hfree⟩)

theorem disciplined_initialConfigure (node : Fap) (now : SimTime) (draws : List RandNum) :
    Disciplined (node.initialConfigure now draws) ↔
      ((∃ addr, freeAddr node.ipAddrRecord node.filter draws = .ok addr) →
        .AreqTimer ∉ node.timers) := by
  rw [← disciplined_initialConfigure2 node now draws]
  unfold initialConfigure
  constructor
  · intro h hfault
    rw [hfault] at h
    exact h rfl
  · exact fun h ↦ h.bind fun _ _ ↦ disciplined_reschedule

/-! ## Discipline of the handlers -/

/-- The message makes the host choose a new address while it merges: the host belongs to the
partition that gives way, and the other one has its address. -/
def GivesWay (node : Fap) (head : FAPhead) (draws : List RandNum) : Prop :=
  node.acceptsPartition head ∧ head.M = false ∧
    ∃ f2 merged, carriedFilter head = .ok f2 ∧ node.filter.add f2 = .ok merged ∧
      f2.check node.selectedAddr = .ok true ∧
      ∃ addr, freeAddr node.ipAddrRecord merged draws = .ok addr

/-- The event schedules `AreqTimer` without cancelling it. -/
def Reconfigures (node : Fap) (event : FapEvent) : Prop :=
  match event.action with
  | .expire .timerTL => ∃ addr, freeAddr node.ipAddrRecord node.filter event.draws = .ok addr
  | .receive head => head.fapType = .PARTITION ∧ GivesWay node head event.draws
  | _ => False

theorem disciplined_prossesHELLO : Disciplined (node.prossesHELLO now head) := by
  unfold prossesHELLO
  split
  · exact disciplined_ok _
  · split
    · split
      · refine disciplined_reschedule.bind fun mid _ ↦ ?_
        dsimp only
        split <;> exact disciplined_ok _
      · exact disciplined_ok _
    · exact disciplined_ok _

theorem disciplined_prossesAREQ (hwait : node.hostState = .WAIT → .AreqTimer ∉ node.timers) :
    Disciplined (node.prossesAREQ now head draws) := by
  unfold prossesAREQ
  split
  · rename_i hstate
    exact (disciplined_initialConfigure _ now draws).mpr fun _ ↦ hwait hstate
  · unfold prossesAREQ_INI
    dsimp only
    split
    · exact disciplined_reschedule.bind fun _ _ ↦ disciplined_ok _
    · exact disciplined_ok _
  · refine disciplined_reschedule.bind fun _ _ ↦ ?_
    split
    · exact disciplined_ok _
    · exact disciplined_reschedule.bind fun _ _ ↦ disciplined_ok _
  · unfold prossesAREQ_MERGE
    split
    · exact disciplined_ok _
    · exact disciplined_reschedule.bind fun _ _ ↦ disciplined_ok _
  · exact disciplined_ok _

theorem disciplined_mergePartition (m : Bool) : Disciplined (node.mergePartition now head m) :=
  (disciplined_carriedFilter head).bind fun f2 _ ↦ (disciplined_mergeFilter f2).bind fun _ _ ↦
    disciplined_reschedule.bind fun _ _ ↦ disciplined_ok _

theorem disciplined_prossesAF (hwait : node.hostState = .WAIT → .AreqTimer ∉ node.timers) :
    Disciplined (node.prossesAF now head draws) := by
  unfold prossesAF
  split
  · rename_i haccept
    refine Disciplined.bind ?_ fun counter _ ↦
      (disciplined_updateFilter _ _ _).bind fun mid hmid ↦ ?_
    · unfold addInt
      split <;> simp
    · obtain ⟨filter, rfl⟩ := updateFilter_eq_ok hmid
      exact (disciplined_initialConfigure _ now draws).mpr fun _ ↦ hwait haccept.1
  · split
    · exact disciplined_ok _
    · split
      · dsimp only
        split
        · exact disciplined_mergePartition _
        · exact disciplined_mergePartition _
      · exact disciplined_ok _

theorem disciplined_giveWay (node : Fap) (now : SimTime) (f2 : BloomFilter)
    (draws : List RandNum) : Disciplined (node.giveWay now f2 draws) ↔
      (f2.check node.selectedAddr = .ok true →
        (∃ addr, freeAddr node.ipAddrRecord node.filter draws = .ok addr) →
          .AreqTimer ∉ node.timers) := by
  unfold giveWay
  rw [disciplined_bind_iff (f2.disciplined_check node.selectedAddr)]
  constructor
  · intro h hfound
    have hrest := h true hfound
    rw [if_pos rfl, disciplined_initialConfigure2] at hrest
    exact hrest
  · intro h found hfound
    cases found with
    | false => exact disciplined_ok _
    | true => exact (disciplined_initialConfigure2 _ now draws).mpr (h hfound)

/-- The parts of the host that decide whether it can give way are the same when it does. -/
theorem prossesPARTITION_of_accepts (now : SimTime) (draws : List RandNum)
    (haccepts : node.acceptsPartition head) :
    ∃ mid : Fap, mid.ipAddrRecord = node.ipAddrRecord ∧ mid.filter = node.filter ∧
      mid.selectedAddr = node.selectedAddr ∧ (.AreqTimer ∈ mid.timers ↔ .AreqTimer ∈ node.timers) ∧
      node.prossesPARTITION now head draws = (do
        let f2 ← carriedFilter head
        let node ← mid.mergeFilter f2
        if head.M = false then node.giveWay now f2 draws else return node) := by
  unfold prossesPARTITION scheduleTP scheduleTM
  rw [if_pos haccepts]
  rw [bind_of_ok (reschedule_ok _ _ _ (by decide)), bind_of_ok (reschedule_ok _ _ _ (by decide))]
  refine ⟨_, ?_, ?_, ?_, ?_, rfl⟩
  · rfl
  · rfl
  · rfl
  · simp [cancelEvent]

/-- A PARTITION message is handled without a conflict of timers unless it makes the host give way
while `AreqTimer` is running. -/
theorem disciplined_prossesPARTITION (node : Fap) (now : SimTime) (head : FAPhead)
    (draws : List RandNum) : Disciplined (node.prossesPARTITION now head draws) ↔
      (GivesWay node head draws → .AreqTimer ∉ node.timers) := by
  by_cases haccepts : node.acceptsPartition head
  swap
  · unfold prossesPARTITION
    simp [GivesWay, haccepts]
  obtain ⟨mid, hrecord, hfilter, haddr, htimer, heq⟩ :=
    prossesPARTITION_of_accepts now draws haccepts
  rw [heq, ← htimer, disciplined_bind_iff (disciplined_carriedFilter head)]
  simp only [GivesWay, haccepts, true_and, ← hrecord, ← hfilter, ← haddr]
  constructor
  · rintro h ⟨hM, f2, merged, hf2, hmerged, hfound, hfree⟩
    have hrest := h f2 hf2
    rw [bind_of_ok (mergeFilter_ok hmerged), if_pos hM, disciplined_giveWay] at hrest
    exact hrest hfound hfree
  · intro h f2 hf2
    refine (disciplined_mergeFilter f2).bind fun merging hmerging ↦ ?_
    obtain ⟨merged, hmerged, rfl⟩ := mergeFilter_eq_ok hmerging
    split
    · rename_i hM
      apply (disciplined_giveWay _ now f2 draws).mpr
      exact fun hfound hfree ↦ h ⟨hM, f2, merged, hf2, hmerged, hfound, hfree⟩
    · exact disciplined_ok _

/-- Timers that expire are handled without a conflict, but for `timerTL`. -/
theorem disciplined_handleTimer (hTL : timer ≠ .timerTL)
    (hstart : timer = .startTimer → .timerTL ∉ node.timers) :
    Disciplined (node.handleTimer now timer draws interval) := by
  cases timer with
  | timerTL => exact absurd rfl hTL
  | timerTP | timerts | Random => exact disciplined_ok _
  | timerTW =>
    exact disciplined_insertADDR.bind fun _ _ ↦ (disciplined_insertAll _).bind fun _ _ ↦
      disciplined_reschedule
  | timerTH =>
    unfold handleTimer handleTH
    dsimp only
    split
    · exact disciplined_reschedule.bind fun _ _ ↦ disciplined_ok _
    · exact disciplined_ok _
  | timerTC =>
    apply (disciplined_initialConfigure _ now draws).mpr
    simp [cancelEvent]
  | timerTS => exact (disciplined_insertAll _).bind fun _ _ ↦ disciplined_ok _
  | timerTM => exact (disciplined_insertAll _).bind fun _ _ ↦ disciplined_reschedule
  | timerTF =>
    apply disciplined_schedule.mpr
    simp [cancelEvent]
  | startTimer =>
    refine Disciplined.bind ?_ fun _ _ ↦ disciplined_ok _
    apply disciplined_schedule.mpr
    simpa [cancelEvent] using hstart rfl
  | AreqTimer =>
    refine Disciplined.bind ?_ fun NF _ ↦ ?_
    · unfold addInt
      split <;> simp
    · dsimp only
      split
      · refine Disciplined.bind ?_ fun _ _ ↦ disciplined_ok _
        apply disciplined_schedule.mpr
        simp [cancelEvent]
      · exact disciplined_ok _

/-! ## The phases of a host -/

/-- Before it is configured a host has one timer: `startTimer`, and then `timerTL`. -/
structure Phased (node : Fap) : Prop where
  idle : node.hostState = .IDLE → node.bound = false ∧ ∀ timer ∈ node.timers, timer = .startTimer
  wait : node.hostState = .WAIT → ∀ timer ∈ node.timers, timer = .timerTL
  started : .startTimer ∈ node.timers → node.hostState = .IDLE

theorem phased_initial {xID : BitVec 32} {hashfunc1 : CString → BitVec 64} {ipAddress : Ipv4Address}
    {start : SimTime} : Phased (initial xID hashfunc1 ipAddress start) where
  idle _ := by
    refine ⟨rfl, fun timer hmem ↦ ?_⟩
    rcases mem_assign.mp hmem with hstart | hnone
    · exact hstart
    · cases hnone
  wait := nofun
  started _ := rfl

/-- The host is configured, and goes on being so. -/
structure Advances (node node' : Fap) : Prop where
  hostState : node'.hostState = node.hostState ∨ node'.hostState = .INI ∨
    node'.hostState = .STEADY ∨ node'.hostState = .MERGE
  startTimer : .startTimer ∈ node'.timers → .startTimer ∈ node.timers

theorem Advances.refl (node : Fap) : Advances node node := ⟨.inl rfl, id⟩

theorem Advances.of_eq (hhostState : node'.hostState = node.hostState)
    (htimers : node'.timers = node.timers) : Advances node node' where
  hostState := .inl hhostState
  startTimer hmem := htimers ▸ hmem

theorem Advances.trans {mid : Fap} (h : Advances node mid) (h' : Advances mid node') :
    Advances node node' where
  hostState := by
    rcases h'.hostState with hsame | hnew
    · rw [hsame]
      exact h.hostState
    · exact .inr hnew
  startTimer := fun hmem ↦ h.startTimer (h'.startTimer hmem)

/-- What came before may be a host that enters a state of its own. -/
theorem Advances.of_before {before : Fap} (h : Advances before node')
    (hhostState : before.hostState = node.hostState ∨ before.hostState = .INI ∨
      before.hostState = .STEADY ∨ before.hostState = .MERGE)
    (htimers : before.timers = node.timers) : Advances node node' :=
  Advances.trans ⟨hhostState, fun hmem ↦ htimers ▸ hmem⟩ h

theorem Advances.ne_wait (h : Advances node node') (hwait : node.hostState ≠ .WAIT) :
    node'.hostState ≠ .WAIT := by
  rcases h.hostState with hstate | hstate | hstate | hstate
  · rw [hstate]
    exact hwait
  all_goals
    rw [hstate]
    decide

theorem Advances.ne_idle (h : Advances node node') (hidle : node.hostState ≠ .IDLE) :
    node'.hostState ≠ .IDLE := by
  rcases h.hostState with hstate | hstate | hstate | hstate
  · rw [hstate]
    exact hidle
  all_goals
    rw [hstate]
    decide

/-- A host that no longer waits is configured. -/
theorem Advances.phased (h : Advances node node') (hidle : node.hostState ≠ .IDLE)
    (hstart : .startTimer ∉ node.timers) (hwait : node'.hostState ≠ .WAIT) : Phased node' where
  idle hstate := absurd hstate (h.ne_idle hidle)
  wait hstate := absurd hstate hwait
  started hmem := absurd (h.startTimer hmem) hstart

theorem advances_cancelEvent (node : Fap) (timer : Timer) :
    Advances node (node.cancelEvent timer) where
  hostState := .inl rfl
  startTimer hmem := (SelfMessages.mem_cancelEvent.mp hmem).2

theorem advances_schedule (h : node.schedule now timer delay = .ok node')
    (hother : timer ≠ .startTimer) : Advances node node' := by
  obtain ⟨-, rfl⟩ := schedule_eq_ok h
  refine ⟨.inl rfl, fun hmem ↦ ?_⟩
  rcases mem_assign.mp hmem with hsame | hmem
  · exact absurd hsame.symm hother
  · exact hmem

theorem advances_reschedule (h : node.reschedule now timer delay = .ok node')
    (hother : timer ≠ .startTimer) : Advances node node' :=
  (advances_cancelEvent node timer).trans (advances_schedule h hother)

theorem advances_initialConfigure2 (h : node.initialConfigure2 now draws = .ok node') :
    Advances node node' := by
  obtain ⟨mid, hchoose, h⟩ := bind_eq_ok h
  obtain ⟨addr, -, rfl⟩ := chooseIpAddr_eq_ok hchoose
  exact (advances_schedule h (by decide)).of_before (.inl rfl) rfl

theorem advances_initialConfigure (h : node.initialConfigure now draws = .ok node') :
    Advances node node' := by
  obtain ⟨mid, hmid, h⟩ := bind_eq_ok h
  exact (advances_initialConfigure2 hmid).trans (advances_reschedule h (by decide))

theorem advances_changeToIni (h : node.changeToIni now draws = .ok node') :
    Advances node node' ∧ node'.hostState ≠ .IDLE ∧ node'.hostState ≠ .WAIT := by
  have hadvances := advances_initialConfigure h
  refine ⟨hadvances.of_before (.inr (.inl rfl)) rfl, ?_⟩
  rcases hadvances.hostState with hstate | hstate | hstate | hstate <;> simp [hstate]

theorem SameHost.advances (h : SameHost node node') : Advances node node' :=
  ⟨h.hostState, fun hmem ↦ h.timers ▸ hmem⟩

theorem advances_foldl_cancelEvent (canceled : List Timer) :
    Advances node (canceled.foldl cancelEvent node) := by
  induction canceled generalizing node with
  | nil => exact .refl node
  | cons timer canceled ih => exact (advances_cancelEvent node timer).trans ih

theorem composes_advances (draws : List RandNum) : Composes draws Advances where
  trans := Advances.trans
  same := SameHost.advances
  cancels node timer _ := advances_cancelEvent node timer
  schedules hstart _ h := advances_schedule h hstart
  configures2 := advances_initialConfigure2
  configures node _ _ canceled h :=
    (advances_foldl_cancelEvent canceled).trans (advances_initialConfigure h)
  yields node _ _ h := by
    have hcancelled : Advances node ((node.cancelEvent .timerTC).cancelEvent .AreqTimer) :=
      advances_foldl_cancelEvent [.timerTC, .AreqTimer]
    exact (hcancelled.trans (advances_reschedule h (by decide))).trans (.of_eq rfl rfl)

theorem advances_prossesFAPmessage (h : node.prossesFAPmessage now head draws = .ok node') :
    Advances node node' :=
  (composes_advances draws).prossesFAPmessage h

theorem advances_handleTimer (h : node.handleTimer now timer draws interval = .ok node')
    (hother : timer ≠ .startTimer) : Advances node node' := by
  by_cases hTW : timer = .timerTW
  · subst hTW
    obtain ⟨first, hfirst, h⟩ := bind_eq_ok h
    obtain ⟨second, hsecond, h⟩ := bind_eq_ok h
    obtain ⟨filter, rfl⟩ := setIpAddr_eq_ok hfirst
    obtain ⟨filter', rfl⟩ := insertAll_eq_ok hsecond
    have hsteady := advances_reschedule h (by decide)
    exact (advances_cancelEvent node .timerTW).trans
      (hsteady.of_before (.inr (.inr (.inl rfl))) rfl)
  · exact (composes_advances draws).handleTimer hother hTW h

/-- A message that does not configure a waiting host sets no timer. -/
theorem waits_prossesFAPmessage (hstate : node.hostState = .WAIT)
    (hstate' : node'.hostState = .WAIT)
    (h : node.prossesFAPmessage now head draws = .ok node') :
    ∀ timer ∈ node'.timers, timer ∈ node.timers := by
  unfold prossesFAPmessage at h
  split at h
  · unfold prossesHELLO at h
    split at h
    · obtain rfl := Except.ok.inj h
      exact fun timer hmem ↦ (SelfMessages.mem_cancelEvent.mp hmem).2
    · rw [if_neg (by simp [hstate])] at h
      obtain rfl := Except.ok.inj h
      exact fun _ ↦ id
  · unfold prossesAREQ at h
    rw [hstate] at h
    exact absurd hstate' (advances_changeToIni h).2.2
  · unfold prossesAF at h
    split at h
    · obtain ⟨counter, -, h⟩ := bind_eq_ok h
      obtain ⟨mid, -, h⟩ := bind_eq_ok h
      exact absurd hstate' (advances_changeToIni h).2.2
    · split at h
      · obtain rfl := Except.ok.inj h
        exact fun _ ↦ id
      · rw [if_neg (by simp [hstate])] at h
        obtain rfl := Except.ok.inj h
        exact fun _ ↦ id
  · unfold prossesPARTITION at h
    rw [if_neg (by simp [acceptsPartition, hstate])] at h
    obtain rfl := Except.ok.inj h
    exact fun _ ↦ id

/-- `startTimer` makes a host wait. -/
theorem phased_handleStart (htimers : ∀ timer ∈ node.timers, timer = .startTimer)
    (h : node.handleStart now = .ok node') : Phased node' := by
  obtain ⟨mid, hmid, rfl⟩ := bind_pure_eq_ok h
  obtain ⟨-, rfl⟩ := schedule_eq_ok hmid
  have hwait : ∀ timer ∈ (node.timers.cancelEvent .startTimer).assign .timerTL (now + TL),
      timer = .timerTL := by
    intro timer hmem
    rcases mem_assign.mp hmem with hTL | hmem
    · exact hTL
    · obtain ⟨hother, hmem⟩ := SelfMessages.mem_cancelEvent.mp hmem
      exact absurd (htimers timer hmem) hother
  exact ⟨nofun, fun _ ↦ hwait, fun hmem ↦ absurd (hwait _ hmem) (by decide)⟩

/-- Every event keeps the phases. -/
theorem Phased.step (h : Phased node) (hstep : machine.Step node event node') : Phased node' := by
  obtain ⟨⟨-, henabled⟩, hhandle⟩ := hstep
  obtain ⟨now, action, draws, interval⟩ := event
  by_cases hidle : node.hostState = .IDLE
  · obtain ⟨hbound, htimers⟩ := h.idle hidle
    cases action with
    | receive head =>
      rw [hbound] at henabled
      cases henabled
    | expire timer =>
      obtain rfl := htimers timer (mem_iff_find.mpr ⟨_, henabled.1⟩)
      refine phased_handleStart ?_ hhandle
      exact fun timer hmem ↦ htimers timer (SelfMessages.mem_cancelEvent.mp hmem).2
  · have hstart : .startTimer ∉ node.timers := fun hmem ↦ hidle (h.started hmem)
    cases action with
    | receive head =>
      have hadvances := advances_prossesFAPmessage hhandle
      by_cases hwait' : node'.hostState = .WAIT
      · have hwait : node.hostState = .WAIT := by
          by_contra hwait
          exact hadvances.ne_wait hwait hwait'
        have htimers := waits_prossesFAPmessage hwait hwait' hhandle
        exact ⟨fun hidle' ↦ absurd hidle' (hadvances.ne_idle hidle),
          fun _ timer hmem ↦ h.wait hwait timer (htimers timer hmem),
          fun hmem ↦ absurd (hadvances.startTimer hmem) hstart⟩
      · exact hadvances.phased hidle hstart hwait'
    | expire timer =>
      have hmem : timer ∈ node.timers := mem_iff_find.mpr ⟨_, henabled.1⟩
      have hadvances : Advances node node' :=
        advances_handleTimer hhandle fun hsame ↦ hstart (hsame ▸ hmem)
      refine hadvances.phased hidle hstart ?_
      by_cases hwait : node.hostState = .WAIT
      · obtain rfl := h.wait hwait timer hmem
        exact (advances_changeToIni hhandle).2.2
      · exact hadvances.ne_wait hwait

/-! ## Runs -/

/-- At a host in any of its phases an event schedules no timer twice unless it makes the host choose
an address while `AreqTimer` is running. -/
theorem Phased.disciplined_iff (h : Phased node) (henabled : machine.Enabled node event) :
    Disciplined (node.handle event) ↔ (Reconfigures node event → .AreqTimer ∉ node.timers) := by
  obtain ⟨-, henabled⟩ := henabled
  obtain ⟨now, action, draws, interval⟩ := event
  have hwait : node.hostState = .WAIT → .AreqTimer ∉ node.timers :=
    fun hstate hmem ↦ nomatch h.wait hstate _ hmem
  cases action with
  | receive head =>
    unfold handle prossesFAPmessage Reconfigures
    dsimp only
    cases hkind : head.fapType with
    | HELLO => simpa using disciplined_prossesHELLO
    | AREQ => simpa using disciplined_prossesAREQ hwait
    | AF => simpa using disciplined_prossesAF hwait
    | PARTITION => simpa using disciplined_prossesPARTITION node now head draws
  | expire timer =>
    by_cases hTL : timer = .timerTL
    · subst hTL
      have hchange := disciplined_initialConfigure
        { node.cancelEvent .timerTL with hostState := .INI } now draws
      refine hchange.trans ?_
      simp [cancelEvent, Reconfigures]
    · have hdisciplined : Disciplined (node.handleTimer now timer draws interval) := by
        refine disciplined_handleTimer hTL ?_
        rintro rfl hmem
        have hstart : .startTimer ∈ node.timers := mem_iff_find.mpr ⟨_, henabled.1⟩
        exact nomatch (h.idle (h.started hstart)).2 _ hmem
      have hother : ¬Reconfigures node ⟨now, .expire timer, draws, interval⟩ := by
        cases timer <;> first | exact absurd rfl hTL | exact id
      exact iff_of_true hdisciplined fun hreconfigures ↦ absurd hreconfigures hother

/-- In every run, an event schedules no timer that is already scheduled exactly when it does not
make the host choose an address while `AreqTimer` is running. -/
theorem disciplined_handle_iff {xID : BitVec 32} {hashfunc1 : CString → BitVec 64}
    {ipAddress : Ipv4Address} {start : SimTime} {events : List FapEvent}
    (hrun : machine.Run (initial xID hashfunc1 ipAddress start) events node)
    (henabled : machine.Enabled node event) :
    Disciplined (node.handle event) ↔ (Reconfigures node event → .AreqTimer ∉ node.timers) := by
  have hphased : Phased node := hrun.invariant (fun _ _ _ h hstep ↦ h.step hstep) phased_initial
  exact hphased.disciplined_iff henabled

/-- A host that has listened for the time `TL`. -/
def listened : FapEvent where
  now := TL
  action := .expire .timerTL
  draws := [⟨7, by decide⟩]

theorem disciplined_handle_iff_alone :
    ∃ node, machine.Run (initial 0 (fun _ ↦ 0) 0 0) [⟨0, .expire .startTimer, [], 0⟩] node ∧
      machine.Enabled node listened ∧ (Disciplined (node.handle listened) ↔
        (Reconfigures node listened → .AreqTimer ∉ node.timers)) := by
  have hexec : (machine.exec (initial 0 (fun _ ↦ 0) 0 0) [⟨0, .expire .startTimer, [], 0⟩]).any
      fun node ↦ decide (machine.Enabled node listened) := by
    decide +kernel
  obtain ⟨node, hrun, henabled⟩ := Machine.exists_run_of_exec hexec
  exact ⟨node, hrun, henabled, disciplined_handle_iff hrun henabled⟩

/-- Within the time `TL` an AREQ of another host arrives, and the host announces an address. -/
def overheard : List FapEvent :=
  [⟨0, .expire .startTimer, [], 0⟩,
    ⟨SimTime.ofMillis 900, .receive { fapType := .AREQ, source := 0xc0a80009, idNumber := 1 },
      [⟨5, by decide⟩], 0⟩,
    ⟨SimTime.ofMillis 900, .expire .AreqTimer, [], SimTime.ofMillis 300⟩]

/-- `timerTL` still runs, and when it expires `AreqTimer` is scheduled twice. -/
theorem not_disciplined_overheard :
    ∃ node, machine.Run (initial 0 (fun _ ↦ 0) 0 0) overheard node ∧
      machine.Enabled node listened ∧ ¬Disciplined (node.handle listened) := by
  have hexec : (machine.exec (initial 0 (fun _ ↦ 0) 0 0) overheard).any fun node ↦
      decide (machine.Enabled node listened ∧ ¬Disciplined (node.handle listened)) := by
    decide +kernel
  exact Machine.exists_run_of_exec hexec

end Inet4.Fap
