import Inet4.Fap.Handlers

/-!
# The addresses that a host assigns

A host assigns the address that it has selected when `timerTW` expires.  It is one of the pool, but
`generateIPADDR` can draw the broadcast address of the pool, and after a conflict the placeholder
`0.0.0.1` is selected until `timerTC` expires, which does not keep `timerTW` from expiring.
-/

namespace Inet4.Fap

/-- `ADDRPool.prefixLength`. -/
def poolPrefixLength : ℕ := 24

/-- The network mask of the pool. -/
def poolNetmask : Ipv4Address := BitVec.allOnes 32 <<< (32 - poolPrefixLength)

/-- An address of the pool that a host can have. -/
structure Usable (addr : Ipv4Address) : Prop where
  pool : addr &&& poolNetmask = poolPrefix
  ne_network : addr ≠ poolPrefix
  ne_broadcast : addr ≠ poolPrefix ||| ~~~poolNetmask
  ne_placeholder : addr ≠ 1

instance (addr : Ipv4Address) : Decidable (Usable addr) :=
  decidable_of_iff
    (addr &&& poolNetmask = poolPrefix ∧ addr ≠ poolPrefix ∧ addr ≠ poolPrefix ||| ~~~poolNetmask ∧
      addr ≠ 1)
    ⟨fun ⟨h, h', h'', h'''⟩ ↦ ⟨h, h', h'', h'''⟩,
      fun h ↦ ⟨h.pool, h.ne_network, h.ne_broadcast, h.ne_placeholder⟩⟩

/-- Every number but the largest one yields a usable address. -/
theorem usable_generateIPADDR_iff (randNum : RandNum) :
    Usable (generateIPADDR randNum) ↔ randNum.val ≠ 255 := by
  obtain ⟨randNum, hpos, hlt⟩ := randNum
  have hall : ∀ n < 256, 1 ≤ n →
      (Usable (poolPrefix + BitVec.ofNat 32 n) ↔ BitVec.ofNat 32 n ≠ 255) := by
    decide +kernel
  have hrandNum := hall randNum.toNat hlt hpos
  rwa [BitVec.ofNat_toNat, BitVec.setWidth_eq] at hrandNum

variable {node node' : Fap} {now interval : SimTime} {draws : List RandNum} {addr : Ipv4Address}
variable {event : FapEvent} {events : List FapEvent}

theorem freeAddr_eq_ok {ipAddrRecord : AssocMap Ipv4Address (BitVec 32)} {filter : BloomFilter}
    (h : freeAddr ipAddrRecord filter draws = .ok addr) :
    ∃ randNum ∈ draws, addr = generateIPADDR randNum := by
  induction draws with
  | nil => cases h
  | cons randNum draws ih =>
    obtain ⟨taken, -, h⟩ := bind_eq_ok h
    split at h
    · obtain ⟨chosen, hmem, haddr⟩ := ih h
      exact ⟨chosen, List.mem_cons_of_mem _ hmem, haddr⟩
    · exact ⟨randNum, List.mem_cons_self, (Except.ok.inj h).symm⟩

/-- The selected address is usable, or it is the placeholder and is not about to be assigned; every
assigned address is usable. -/
structure AssignsUsable (node : Fap) : Prop where
  selected : Usable node.selectedAddr ∨
    node.selectedAddr = 1 ∧ (.timerTC ∈ node.timers ∨ .timerTW ∉ node.timers)
  assigned : ∀ addr, .assigns addr ∈ node.log → Usable addr

theorem assignsUsable_initial {xID : BitVec 32} {hashfunc1 : CString → BitVec 64}
    {ipAddress : Ipv4Address} {start : SimTime} :
    AssignsUsable (initial xID hashfunc1 ipAddress start) where
  selected := .inr ⟨rfl, .inr fun hmem ↦ by
    rcases AssocMap.mem_assign.mp hmem with hsame | hnone
    · cases hsame
    · cases hnone⟩
  assigned addr hmem := absurd hmem List.not_mem_nil

theorem log_foldl_cancelEvent (canceled : List Timer) :
    (canceled.foldl cancelEvent node).log = node.log := by
  induction canceled generalizing node with
  | nil => rfl
  | cons timer canceled ih => exact ih

/-- A new choice is usable. -/
theorem usable_of_initialConfigure2 (h : ∀ addr, .assigns addr ∈ node.log → Usable addr)
    (hdraws : ∀ randNum ∈ draws, randNum.val ≠ 255)
    (hok : node.initialConfigure2 now draws = .ok node') :
    Usable node'.selectedAddr ∧ ∀ addr, .assigns addr ∈ node'.log → Usable addr := by
  obtain ⟨mid, hmid, hok⟩ := bind_eq_ok hok
  obtain ⟨addr, haddr, rfl⟩ := chooseIpAddr_eq_ok hmid
  obtain ⟨-, rfl⟩ := schedule_eq_ok hok
  obtain ⟨randNum, hmem, rfl⟩ := freeAddr_eq_ok haddr
  refine ⟨(usable_generateIPADDR_iff randNum).mpr (hdraws randNum hmem), ?_⟩
  simpa using h

/-- The handlers assign nothing, and they select usable addresses. -/
theorem composes_assignsUsable (hdraws : ∀ randNum ∈ draws, randNum.val ≠ 255) :
    Composes draws fun node node' ↦ node.AssignsUsable → node'.AssignsUsable where
  trans first second h := second (first h)
  same hsame h := by
    refine ⟨?_, fun addr hmem ↦ h.assigned addr (hsame.assigns addr hmem)⟩
    rw [hsame.selectedAddr, hsame.timers]
    exact h.selected
  cancels node timer hTC h := by
    refine ⟨h.selected.imp_right (And.imp_right ?_), h.assigned⟩
    rintro (hmem | hmem)
    · exact .inl (SelfMessages.mem_cancelEvent.mpr ⟨hTC.symm, hmem⟩)
    · exact .inr fun hcancelled ↦ hmem (SelfMessages.mem_cancelEvent.mp hcancelled).2
  schedules _ hTW hok h := by
    obtain ⟨-, rfl⟩ := schedule_eq_ok hok
    refine ⟨h.selected.imp_right (And.imp_right ?_), h.assigned⟩
    rintro (hmem | hmem)
    · exact .inl (AssocMap.mem_assign.mpr (.inr hmem))
    · exact .inr (AssocMap.mem_assign.not.mpr (not_or.mpr ⟨hTW.symm, hmem⟩))
  configures2 hok h := by
    obtain ⟨hselected, hassigned⟩ := usable_of_initialConfigure2 h.assigned hdraws hok
    exact ⟨.inl hselected, hassigned⟩
  configures node _ _ canceled hok h := by
    obtain ⟨mid, hmid, hok⟩ := bind_eq_ok hok
    obtain rfl := reschedule_eq_ok hok
    have hlog : ∀ addr, .assigns addr ∈ (canceled.foldl cancelEvent node).log → Usable addr := by
      rw [log_foldl_cancelEvent]
      exact h.assigned
    obtain ⟨hselected, hassigned⟩ := usable_of_initialConfigure2 hlog hdraws hmid
    exact ⟨.inl hselected, hassigned⟩
  yields node _ _ hok h := by
    obtain rfl := reschedule_eq_ok hok
    exact ⟨.inr ⟨rfl, .inl (by simp)⟩, h.assigned⟩

/-- Without a conflict that waits for `timerTC`, the assigned address is the usable one that is
selected. -/
theorem AssignsUsable.handleTW (h : node.AssignsUsable) (hTW : .timerTW ∈ node.timers)
    (hTC : .timerTC ∉ node.timers)
    (hok : (node.cancelEvent .timerTW).handleTW now interval = .ok node') :
    node'.AssignsUsable := by
  have hselected : Usable node.selectedAddr := by
    rcases h.selected with hselected | ⟨-, hmem | hmem⟩
    · exact hselected
    · exact absurd hmem hTC
    · exact absurd hTW hmem
  obtain ⟨first, hfirst, hok⟩ := bind_eq_ok hok
  obtain ⟨second, hsecond, hok⟩ := bind_eq_ok hok
  obtain ⟨filter, rfl⟩ := setIpAddr_eq_ok hfirst
  obtain ⟨filter', rfl⟩ := insertAll_eq_ok hsecond
  obtain rfl := reschedule_eq_ok hok
  refine ⟨.inl hselected, fun addr hmem ↦ ?_⟩
  rcases List.mem_cons.mp hmem with hsame | hmem
  · rw [Deed.assigns.inj hsame]
    exact hselected
  · exact h.assigned addr hmem

/-- The largest number is not drawn, and the address is not assigned while a conflict waits for
`timerTC`. -/
def AvoidsConflicts (node : Fap) (event : FapEvent) : Prop :=
  (∀ randNum ∈ event.draws, randNum.val ≠ 255) ∧
    match event.action with
    | .expire .timerTW => .timerTC ∉ node.timers
    | _ => True

theorem AssignsUsable.step (h : node.AssignsUsable)
    (hstep : (machine.restrict AvoidsConflicts).Step node event node') : node'.AssignsUsable := by
  obtain ⟨⟨⟨-, henabled⟩, hok⟩, hdraws, hguard⟩ := Machine.step_restrict_iff.mp hstep
  obtain ⟨now, action, draws, interval⟩ := event
  cases action with
  | receive head => exact (composes_assignsUsable hdraws).prossesFAPmessage hok h
  | expire timer =>
    by_cases hTW : timer = .timerTW
    · subst hTW
      exact h.handleTW (AssocMap.mem_iff_find.mpr ⟨now, henabled.1⟩) hguard hok
    by_cases hstart : timer = .startTimer
    · subst hstart
      obtain ⟨mid, hmid, rfl⟩ := bind_pure_eq_ok hok
      have hcomposes := composes_assignsUsable hdraws
      have hcancelled := hcomposes.cancels _ .startTimer (by decide)
        (hcomposes.cancels node .startTimer (by decide) h)
      have hmid := hcomposes.schedules (by decide) (by decide) hmid
        ⟨hcancelled.selected, hcancelled.assigned⟩
      exact ⟨hmid.selected, hmid.assigned⟩
    · exact (composes_assignsUsable hdraws).handleTimer hstart hTW hok h

/-- In every run of a host that does not draw the largest number, and in which `timerTW` does not
expire while `timerTC` runs, every assigned address lies in the pool and is neither the network nor
the broadcast address nor the placeholder. -/
theorem usable_of_assigns {xID : BitVec 32} {hashfunc1 : CString → BitVec 64}
    {ipAddress : Ipv4Address} {start : SimTime}
    (hrun : (machine.restrict AvoidsConflicts).Run (initial xID hashfunc1 ipAddress start) events
      node) : ∀ addr, .assigns addr ∈ node.log → Usable addr := by
  have h : node.AssignsUsable :=
    hrun.invariant (fun _ _ _ h hstep ↦ h.step hstep) assignsUsable_initial
  exact h.assigned

-- The draws are few, the numbers are not.
instance (draws : List RandNum) : Decidable (∀ randNum ∈ draws, randNum.val ≠ 255) :=
  List.decidableBAll _ draws

instance (node : Fap) (event : FapEvent) : Decidable (AvoidsConflicts node event) :=
  match event with
  | ⟨_, .receive _, _, _⟩ => inferInstanceAs (Decidable (_ ∧ _))
  | ⟨_, .expire timer, draws, _⟩ =>
    decidable_of_iff ((∀ randNum ∈ draws, randNum.val ≠ 255) ∧
      (timer = .timerTW → .timerTC ∉ node.timers)) (by cases timer <;> simp [AvoidsConflicts])

/-- A timer expires at a time in milliseconds; later ones are set with intervals of 300 ms, or of
one second after `timerTW`. -/
def expiry (now : ℤ) (timer : Timer) (draws : List RandNum) : FapEvent where
  now := SimTime.ofMillis now
  action := .expire timer
  draws
  interval := match timer with
    | .AreqTimer => SimTime.ofMillis 300
    | _ => SimTime.ofMillis 1000

/-- A host hears nobody, draws a number and announces its address until it can assign it. -/
def alone (randNum : RandNum) : List FapEvent :=
  [expiry 0 .startTimer [], expiry 1000 .timerTL [randNum], expiry 1000 .AreqTimer [],
    expiry 1300 .AreqTimer [], expiry 1600 .AreqTimer [], expiry 1900 .AreqTimer []]

/-- A host with the identifier 1, started at time 0. -/
def host : Fap := initial 1 (fun _ ↦ 0) 0 0

theorem usable_of_assigns_alone :
    ∃ node, (machine.restrict AvoidsConflicts).Run host
      (alone ⟨7, by decide⟩ ++ [expiry 2200 .timerTW []]) node ∧
      .assigns 0xc0a80007 ∈ node.log ∧ Usable 0xc0a80007 := by
  have hexec : ∃ node, (machine.restrict AvoidsConflicts).Run host
      (alone ⟨7, by decide⟩ ++ [expiry 2200 .timerTW []]) node ∧ .assigns 0xc0a80007 ∈ node.log :=
    Machine.exists_run_of_exec (by decide +kernel)
  obtain ⟨node, hrun, hassigned⟩ := hexec
  exact ⟨node, hrun, hassigned, usable_of_assigns hrun _ hassigned⟩

/-- A host that draws the largest number assigns the broadcast address of the pool, and one that
hears of a conflict 100 ms before `timerTW` expires assigns the placeholder. -/
theorem assigns_broadcast_and_placeholder :
    (∃ node, machine.Run host (alone ⟨255, by decide⟩ ++ [expiry 2200 .timerTW []]) node ∧
      .assigns (poolPrefix ||| ~~~poolNetmask) ∈ node.log) ∧
    ∃ node, machine.Run host (alone ⟨7, by decide⟩ ++
      [⟨SimTime.ofMillis 2100, .receive { fapType := .AREQ, source := 0xc0a80007, idNumber := 2 },
          [], 0⟩,
        expiry 2200 .timerTW []]) node ∧ .assigns 1 ∈ node.log := by
  constructor
  · exact Machine.exists_run_of_exec (by decide +kernel)
  · exact Machine.exists_run_of_exec (by decide +kernel)

end Inet4.Fap
