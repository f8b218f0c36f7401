import Inet4.Fap.Host

/-!
# Hosts that choose their addresses at the same time

A set of hosts that have just entered the state `INI`, each of which receives every AREQ of every
other one, after any delay and in any order.  Hosts keep their addresses apart by listening: a host
that hears its own address from another host gives it up.  This works as long as a host announces
what it has chosen and remembers what it has heard.  The code guarantees neither: the budget `NF` of
announcements is not renewed for a new choice, the address of a conflict is not recorded, and the
conflict does not stop `timerTW`.
-/

namespace Inet4.Fap

open List AssocMap Function

/-! ## What a host has announced -/

/-- Since its last choice the host has announced an address in an AREQ of its own. -/
def Announced (ID : BitVec 32) (addr : Ipv4Address) : List Deed → Prop
  | [] => False
  | .sends head :: earlier =>
    head.fapType = .AREQ ∧ head.idNumber = ID ∧ head.source = addr ∨ Announced ID addr earlier
  | .chooses _ :: _ => False
  | .assigns _ :: earlier => Announced ID addr earlier

/-- Every address that the host has assigned was announced after the host had last chosen one. -/
def AssignsAnnounced (ID : BitVec 32) : List Deed → Prop
  | [] => True
  | .sends _ :: earlier => AssignsAnnounced ID earlier
  | .chooses _ :: earlier => AssignsAnnounced ID earlier
  | .assigns addr :: earlier => Announced ID addr earlier ∧ AssignsAnnounced ID earlier

/-! ## The network -/

/-- Hosts and the messages on their way to them. -/
structure Network (ι : Type) where
  nodes : ι → Fap
  inbox : ι → List FAPhead
  /-- The addresses that each host has heard in the AREQs of other hosts.  No handler reads it. -/
  heard : ι → List Ipv4Address

/-- What happens in a network. -/
inductive NetworkAction (ι : Type)
  /-- A message arrives. -/
  | receive (i : ι) (k : ℕ)
  | expire (i : ι) (timer : Timer)

/-- An action, the clock reading at which it happens, and what the handler draws. -/
structure NetworkEvent (ι : Type) where
  now : SimTime
  action : NetworkAction ι
  draws : List RandNum := []
  interval : SimTime := 0

/-- The timers by which hosts contend for addresses. -/
def contending : List Timer := [.AreqTimer, .timerTC, .timerTW]

namespace Network

variable {ι : Type} [DecidableEq ι]

/-- The messages among the deeds. -/
def sentIn (deeds : List Deed) : List FAPhead :=
  deeds.filterMap fun
    | .sends head => some head
    | _ => none

variable (net : Network ι)

/-- A host has handled an event: what it has sent is on its way to all others. -/
def nodeDone (i : ι) (node' : Fap) : Network ι :=
  let deeds := node'.log.take (node'.log.length - (net.nodes i).log.length)
  { net with
    nodes := update net.nodes i node'
    inbox := fun j ↦ if j = i then net.inbox j else net.inbox j ++ sentIn deeds }

/-- A message leaves the inbox of a host, which hears its address if it comes from another host. -/
def hear (i : ι) (k : ℕ) (head : FAPhead) : Network ι :=
  { net with
    inbox := update net.inbox i ((net.inbox i).eraseIdx k)
    heard := update net.heard i
      (if head.idNumber = (net.nodes i).xID then net.heard i else head.source :: net.heard i) }

/-- The effect of an event. -/
def handle (net : Network ι) (event : NetworkEvent ι) : Except Fault (Network ι) :=
  match event.action with
  | .receive i k =>
    match (net.inbox i)[k]? with
    | none => .ok net
    | some head => do
      let node' ← (net.nodes i).handle ⟨event.now, .receive head, event.draws, event.interval⟩
      return (net.hear i k head).nodeDone i node'
  | .expire i timer => do
    let node' ← (net.nodes i).handle ⟨event.now, .expire timer, event.draws, event.interval⟩
    return net.nodeDone i node'

/-- Messages arrive at any time, and the timers by which hosts contend expire when they are due. -/
def Enabled (event : NetworkEvent ι) : Prop :=
  (∀ i, ∀ timer ∈ contending, ∀ due ∈ (net.nodes i).timers.find timer, event.now ≤ due) ∧
    match event.action with
    | .receive i k => k < (net.inbox i).length
    | .expire i timer => timer ∈ contending ∧
        (net.nodes i).timers.find timer = some event.now ∧ CanDraw timer event.interval

/-- A network in its environment. -/
def machine : Machine (Network ι) (NetworkEvent ι) Fault where
  Enabled := Enabled
  handle := handle

/-- The hosts have just entered the state `INI`: `ChangeToIni` has chosen an address and scheduled
`AreqTimer` and `timerTW`, and nothing is announced or assigned. -/
structure Starts (net : Network ι) : Prop where
  distinct : Injective fun i ↦ (net.nodes i).xID
  hostState : ∀ i, (net.nodes i).hostState = .INI
  NF : ∀ i, (net.nodes i).NF = 3
  log : ∀ i, ∃ earlier, (net.nodes i).log = .chooses (net.nodes i).selectedAddr :: earlier ∧
    ∀ addr, .assigns addr ∉ earlier
  entered : ∀ i, ∃ now, (net.nodes i).timers.find .AreqTimer = some now ∧
    (net.nodes i).timers.find .timerTW = some (now + TW)
  timerTC : ∀ i, .timerTC ∉ (net.nodes i).timers
  inbox : ∀ i, net.inbox i = []
  heard : ∀ i, net.heard i = []

/-- No two hosts have assigned the same address, and every host has announced what it has
assigned. -/
def Unique : Prop :=
  (∀ i j, i ≠ j → ∀ addr, .assigns addr ∈ (net.nodes i).log → .assigns addr ∉ (net.nodes j).log) ∧
    ∀ i, AssignsAnnounced (net.nodes i).xID (net.nodes i).log

/-- The host can still announce its choice, and what it chooses it has not heard from another
host. -/
def CanChoose (node : Fap) (draws : List RandNum) (heard : List Ipv4Address) : Prop :=
  0 < node.NF ∧ ∀ addr, freeAddr node.ipAddrRecord node.filter draws = .ok addr → addr ∉ heard

/-- When `timerTW` expires, the host is not about to change its address and the others have heard
the address if it is on its way to them; when `timerTC` expires, the host has a choice. -/
def Heeds (event : NetworkEvent ι) : Prop :=
  match event.action with
  | .expire i .timerTW =>
    .timerTC ∉ (net.nodes i).timers ∧ ∀ j, j ≠ i → ∀ head ∈ net.inbox j,
      head.idNumber = (net.nodes i).xID → head.source = (net.nodes i).selectedAddr →
        (net.nodes i).selectedAddr ∈ net.heard j
  | .expire i .timerTC => CanChoose (net.nodes i) event.draws (net.heard i)
  | _ => True

end Network

/-! ## What a contending host does -/

variable {node node' : Fap} {now interval : SimTime} {head : FAPhead} {draws : List RandNum}
variable {heard : List Ipv4Address} {ID : BitVec 32} {addr : Ipv4Address} {log : List Deed}

/-- The host goes on with its address, and has sent some messages. -/
structure Listens (node node' : Fap) (sent : List FAPhead) : Prop where
  xID : node'.xID = node.xID
  hostState : node'.hostState = node.hostState
  selectedAddr : node'.selectedAddr = node.selectedAddr
  NF : node'.NF = node.NF
  log : node'.log = sent.map .sends ++ node.log
  timers : ∀ timer ∈ contending, node'.timers.find timer = node.timers.find timer

/-- The host gives up its address. -/
structure Yields (node node' : Fap) : Prop where
  xID : node'.xID = node.xID
  hostState : node'.hostState = node.hostState
  log : node'.log = node.log
  timerTC : .timerTC ∈ node'.timers

/-- An AREQ of another host for the address of this one. -/
def Conflicts (node : Fap) (head : FAPhead) : Prop :=
  head.source = node.selectedAddr ∧ head.idNumber ≠ node.xID

theorem listens_recordAREQ (node : Fap) (head : FAPhead) :
    Listens node (node.recordAREQ head) [] := by
  obtain ⟨ipAddrRecord, hrecord⟩ := recordAREQ_eq node head
  rw [hrecord]
  exact ⟨rfl, rfl, rfl, rfl, rfl, fun _ _ ↦ rfl⟩

theorem Listens.trans {mid : Fap} {sent sent' : List FAPhead} (h : Listens node mid sent)
    (h' : Listens mid node' sent') : Listens node node' (sent' ++ sent) where
  xID := h'.xID.trans h.xID
  hostState := h'.hostState.trans h.hostState
  selectedAddr := h'.selectedAddr.trans h.selectedAddr
  NF := h'.NF.trans h.NF
  log := by rw [h'.log, h.log, map_append, append_assoc]
  timers timer hmem := (h'.timers timer hmem).trans (h.timers timer hmem)

theorem listens_cancelEvent {timer : Timer} (hother : timer ∉ contending) :
    Listens node (node.cancelEvent timer) [] := by
  refine ⟨rfl, rfl, rfl, rfl, rfl, fun timer' hmem ↦ ?_⟩
  have hne : timer' ≠ timer := fun hsame ↦ hother (hsame ▸ hmem)
  simp [cancelEvent, hne]

theorem listens_scheduleTS (h : node.scheduleTS now = .ok node') : Listens node node' [] := by
  obtain rfl := reschedule_eq_ok h
  refine ⟨rfl, rfl, rfl, rfl, rfl, fun timer hmem ↦ ?_⟩
  have hne : timer ≠ .timerTS := by
    rintro rfl
    revert hmem
    decide
  simp [hne]

theorem prossesAREQ_INI_cases (h : node.prossesAREQ_INI now head = .ok node') :
    Conflicts node head ∧ Yields node node' ∨ ¬Conflicts node head ∧ Listens node node' [] := by
  unfold prossesAREQ_INI at h
  dsimp only at h
  split at h
  · rename_i hconflict
    obtain ⟨mid, hmid, rfl⟩ := bind_pure_eq_ok h
    obtain rfl := reschedule_eq_ok hmid
    exact .inl ⟨hconflict, rfl, rfl, rfl, by simp⟩
  · rename_i hpeace
    obtain rfl := Except.ok.inj h
    exact .inr ⟨hpeace, (listens_cancelEvent (by decide)).trans (listens_recordAREQ _ head)⟩

theorem prossesAREQ_STEADY_spec (h : node.prossesAREQ_STEADY now head = .ok node') :
    ∃ sent, Listens node node' sent ∧ ∀ areq ∈ sent, areq.fapType = .AREQ := by
  obtain ⟨mid, hmid, h⟩ := bind_eq_ok h
  have hfirst := listens_scheduleTS hmid
  split at h
  · obtain rfl := Except.ok.inj h
    exact ⟨[], hfirst.trans (listens_recordAREQ _ head), by simp⟩
  · obtain ⟨last, hlast, rfl⟩ := bind_pure_eq_ok h
    have hrecorded := (hfirst.trans (listens_scheduleTS hlast)).trans (listens_recordAREQ _ head)
    refine ⟨[{ fapType := .AREQ, source := head.source, idNumber := head.idNumber }], ?_, by simp⟩
    exact ⟨hrecorded.xID, hrecorded.hostState, hrecorded.selectedAddr, hrecorded.NF,
      congrArg (_ :: ·) hrecorded.log, hrecorded.timers⟩

/-- A host that receives an AREQ gives up its address, or goes on with it. -/
theorem receive_cases (hstate : node.hostState = .INI ∨ node.hostState = .STEADY)
    (hareq : head.fapType = .AREQ)
    (h : node.handle ⟨now, .receive head, draws, interval⟩ = .ok node') :
    node.hostState = .INI ∧ Conflicts node head ∧ Yields node node' ∨
      (node.hostState = .INI → ¬Conflicts node head) ∧
        ∃ sent, Listens node node' sent ∧ ∀ areq ∈ sent, areq.fapType = .AREQ := by
  unfold handle prossesFAPmessage prossesAREQ at h
  simp only [hareq] at h
  rcases hstate with hstate | hstate
  · simp only [hstate] at h
    rcases prossesAREQ_INI_cases h with ⟨hconflict, hyields⟩ | ⟨hpeace, hlistens⟩
    · exact .inl ⟨hstate, hconflict, hyields⟩
    · exact .inr ⟨fun _ ↦ hpeace, [], hlistens, by simp⟩
  · simp only [hstate] at h
    refine .inr ⟨?_, prossesAREQ_STEADY_spec h⟩
    rw [hstate]
    exact nofun

/-- `AreqTimer` announces the address as long as the budget lasts. -/
theorem areqTimer_cases (h : node.handle ⟨now, .expire .AreqTimer, draws, interval⟩ = .ok node') :
    node'.xID = node.xID ∧ node'.hostState = node.hostState ∧
      node'.selectedAddr = node.selectedAddr ∧
      (∀ timer ∈ contending, timer ≠ .AreqTimer →
        node'.timers.find timer = node.timers.find timer) ∧
      (0 < node.NF ∧ node'.log = .sends
        { fapType := .AREQ, source := node.selectedAddr, idNumber := node.xID } :: node.log ∨
        node.NF ≤ 0 ∧ node'.log = node.log) := by
  obtain ⟨NF, hNF, h⟩ := bind_eq_ok h
  have hless : NF = node.NF - 1 := (addInt_eq_ok hNF).1
  split at h
  · rename_i hlasts
    obtain ⟨mid, hmid, rfl⟩ := bind_pure_eq_ok h
    obtain ⟨-, rfl⟩ := schedule_eq_ok hmid
    refine ⟨rfl, rfl, rfl, ?_, .inl ⟨by omega, rfl⟩⟩
    intro timer _ hne
    simp [sendAREQ, sendToUdp, cancelEvent, hne]
  · rename_i hspent
    obtain rfl := Except.ok.inj h
    refine ⟨rfl, rfl, rfl, ?_, .inr ⟨by omega, rfl⟩⟩
    intro timer _ hne
    simp [cancelEvent, hne]

/-- `timerTC` lets the host choose again, and starts its timers afresh. -/
theorem timerTC_spec (h : node.handle ⟨now, .expire .timerTC, draws, interval⟩ = .ok node') :
    node'.xID = node.xID ∧ node'.hostState = node.hostState ∧ node'.NF = node.NF ∧
      freeAddr node.ipAddrRecord node.filter draws = .ok node'.selectedAddr ∧
      node'.log = .chooses node'.selectedAddr :: node.log ∧ .timerTC ∉ node'.timers ∧
      node'.timers.find .AreqTimer = some now ∧ node'.timers.find .timerTW = some (now + TW) := by
  obtain ⟨mid, hmid, h⟩ := bind_eq_ok h
  obtain ⟨chosen, hchosen, hmid⟩ := bind_eq_ok hmid
  obtain ⟨addr, hfree, rfl⟩ := chooseIpAddr_eq_ok hchosen
  obtain ⟨-, rfl⟩ := schedule_eq_ok hmid
  obtain rfl := reschedule_eq_ok h
  refine ⟨rfl, rfl, rfl, hfree, rfl, ?_, ?_, ?_⟩
  · simp [cancelEvent]
  · simp
  · simp

/-- `timerTW` lets the host assign its address. -/
theorem timerTW_spec (h : node.handle ⟨now, .expire .timerTW, draws, interval⟩ = .ok node') :
    node'.xID = node.xID ∧ node'.hostState = .STEADY ∧ node'.selectedAddr = node.selectedAddr ∧
      node'.log = .assigns node.selectedAddr :: node.log ∧ .timerTW ∉ node'.timers ∧
      (.timerTC ∈ node'.timers → .timerTC ∈ node.timers) := by
  obtain ⟨first, hfirst, h⟩ := bind_eq_ok h
  obtain ⟨second, hsecond, h⟩ := bind_eq_ok h
  obtain ⟨filter, rfl⟩ := setIpAddr_eq_ok hfirst
  obtain ⟨filter', rfl⟩ := insertAll_eq_ok hsecond
  obtain rfl := reschedule_eq_ok h
  refine ⟨rfl, rfl, rfl, rfl, ?_, ?_⟩
  · simp [cancelEvent]
  · simp [cancelEvent]

/-! ## The invariant of a host -/

/-- A host that contends for an address or has assigned it, and what it has heard from others. -/
structure Contends (node : Fap) (heard : List Ipv4Address) : Prop where
  hostState : node.hostState = .INI ∨ node.hostState = .STEADY
  /-- Unless it is about to choose again, the host has not heard its address from another one. -/
  fresh : node.hostState = .INI → .timerTC ∉ node.timers → node.selectedAddr ∉ heard
  /-- The host has announced its address, or will do so before `timerTW` expires. -/
  announced : node.hostState = .INI → .timerTC ∉ node.timers →
    Announced node.xID node.selectedAddr node.log ∨
      0 < node.NF ∧ ∃ due last, node.timers.find .AreqTimer = some due ∧
        node.timers.find .timerTW = some last ∧ due < last
  settled : node.hostState = .STEADY → .timerTC ∉ node.timers ∧ .timerTW ∉ node.timers
  assigned : ∀ addr, .assigns addr ∈ node.log →
    node.hostState = .STEADY ∧ addr = node.selectedAddr
  assignsAnnounced : AssignsAnnounced node.xID node.log

variable {sent : List FAPhead}

theorem announced_sends_append :
    Announced ID addr (sent.map .sends ++ log) ↔
      (∃ head ∈ sent, head.fapType = .AREQ ∧ head.idNumber = ID ∧ head.source = addr) ∨
        Announced ID addr log := by
  induction sent with
  | nil => simp
  | cons head sent ih =>
    simp only [map_cons, cons_append, Announced, ih, exists_mem_cons_iff, or_assoc]

theorem assignsAnnounced_sends_append :
    AssignsAnnounced ID (sent.map .sends ++ log) ↔ AssignsAnnounced ID log := by
  induction sent with
  | nil => rfl
  | cons head sent ih => exact ih

theorem assignsAnnounced_of_none (h : ∀ addr, .assigns addr ∉ log) : AssignsAnnounced ID log := by
  induction log with
  | nil => trivial
  | cons deed earlier ih =>
    have hearlier := ih fun addr hmem ↦ h addr (mem_cons_of_mem _ hmem)
    cases deed with
    | assigns addr => exact absurd mem_cons_self (h addr)
    | sends head => exact hearlier
    | chooses addr => exact hearlier

theorem mem_sends_append :
    .assigns addr ∈ sent.map .sends ++ log ↔ .assigns addr ∈ log := by
  simp

theorem mem_timers_of_listens (h : Listens node node' sent) (timer : Timer)
    (htimer : timer ∈ contending) : timer ∈ node'.timers ↔ timer ∈ node.timers := by
  simp only [mem_iff_find, h.timers timer htimer]

/-- A host that goes on with its address, which no other host has announced to it. -/
theorem Contends.listens {heard' : List Ipv4Address} {sent : List FAPhead} (h : Contends node heard)
    (hlistens : Listens node node' sent)
    (hheard : node.hostState = .INI → node.selectedAddr ∉ heard → node.selectedAddr ∉ heard') :
    Contends node' heard' := by
  have htimerTC := mem_timers_of_listens hlistens .timerTC (by decide)
  have htimerTW := mem_timers_of_listens hlistens .timerTW (by decide)
  constructor
  · rw [hlistens.hostState]
    exact h.hostState
  · rw [hlistens.hostState, hlistens.selectedAddr, htimerTC]
    exact fun hstate hTC ↦ hheard hstate (h.fresh hstate hTC)
  · rw [hlistens.hostState, hlistens.selectedAddr, htimerTC, hlistens.xID, hlistens.log,
      hlistens.NF,
      hlistens.timers .AreqTimer (by decide), hlistens.timers .timerTW (by decide),
      announced_sends_append]
    intro hstate hTC
    rcases h.announced hstate hTC with hannounced | hwill
    · exact .inl (.inr hannounced)
    · exact .inr hwill
  · rw [hlistens.hostState, htimerTC, htimerTW]
    exact h.settled
  · intro addr hmem
    rw [hlistens.log, mem_sends_append] at hmem
    rw [hlistens.hostState, hlistens.selectedAddr]
    exact h.assigned addr hmem
  · rw [hlistens.xID, hlistens.log, assignsAnnounced_sends_append]
    exact h.assignsAnnounced

/-- A host that gives up its address. -/
theorem Contends.yields (h : Contends node heard) (hstate : node.hostState = .INI)
    (hyields : Yields node node') (heard' : List Ipv4Address) : Contends node' heard' := by
  have hstate' : node'.hostState = .INI := hyields.hostState.trans hstate
  constructor
  · exact .inl hstate'
  · exact fun _ hTC ↦ absurd hyields.timerTC hTC
  · exact fun _ hTC ↦ absurd hyields.timerTC hTC
  · rw [hstate']
    exact nofun
  · intro addr hmem
    rw [hyields.log] at hmem
    cases hstate.symm.trans (h.assigned addr hmem).1
  · rw [hyields.xID, hyields.log]
    exact h.assignsAnnounced

/-- A host that announces its address, or has spent its budget. -/
theorem Contends.areqTimer (h : Contends node heard)
    (hhandle : node.handle ⟨now, .expire .AreqTimer, draws, interval⟩ = .ok node') :
    Contends node' heard := by
  obtain ⟨hID, hstate, haddr, htimers, hlog⟩ := areqTimer_cases hhandle
  have hTC : .timerTC ∈ node'.timers ↔ .timerTC ∈ node.timers := by
    simp only [mem_iff_find, htimers .timerTC (by decide) (by decide)]
  have hTW : .timerTW ∈ node'.timers ↔ .timerTW ∈ node.timers := by
    simp only [mem_iff_find, htimers .timerTW (by decide) (by decide)]
  have hassigned : ∀ addr, .assigns addr ∈ node'.log ↔ .assigns addr ∈ node.log := by
    rcases hlog with ⟨-, hlog⟩ | ⟨-, hlog⟩ <;> simp [hlog]
  constructor
  · rw [hstate]
    exact h.hostState
  · rw [hstate, haddr, hTC]
    exact h.fresh
  · rw [hstate, haddr, hTC, hID]
    intro hini hpending
    left
    rcases hlog with ⟨-, hlog⟩ | ⟨hspent, hlog⟩
    · rw [hlog]
      exact .inl ⟨rfl, rfl, rfl⟩
    · rw [hlog]
      rcases h.announced hini hpending with hannounced | ⟨hbudget, -⟩
      · exact hannounced
      · omega
  · rw [hstate, hTC, hTW]
    exact h.settled
  · intro addr hmem
    rw [hstate, haddr]
    exact h.assigned addr ((hassigned addr).mp hmem)
  · rw [hID]
    rcases hlog with ⟨-, hlog⟩ | ⟨-, hlog⟩
    · rw [hlog]
      exact h.assignsAnnounced
    · rw [hlog]
      exact h.assignsAnnounced

/-- A host that chooses an address that it has not heard, with some budget left. -/
theorem Contends.timerTC (h : Contends node heard) (hpending : .timerTC ∈ node.timers)
    (hbudget : 0 < node.NF)
    (hchoice : ∀ addr, freeAddr node.ipAddrRecord node.filter draws = .ok addr → addr ∉ heard)
    (hhandle : node.handle ⟨now, .expire .timerTC, draws, interval⟩ = .ok node') :
    Contends node' heard := by
  obtain ⟨hID, hstate, hNF, hfree, hlog, hTC, hareq, hTW⟩ := timerTC_spec hhandle
  have hini : node.hostState = .INI := by
    rcases h.hostState with hini | hsteady
    · exact hini
    · exact absurd hpending (h.settled hsteady).1
  constructor
  · rw [hstate]
    exact h.hostState
  · exact fun _ _ ↦ hchoice _ hfree
  · rw [hNF, hareq, hTW]
    have hlater : now < now + TW := Int.lt_add_of_pos_right now (by decide)
    exact fun _ _ ↦ .inr ⟨hbudget, now, now + TW, rfl, rfl, hlater⟩
  · rw [hstate, hini]
    exact nofun
  · intro addr hmem
    rw [hlog] at hmem
    have hold : .assigns addr ∈ node.log := by simpa using hmem
    cases hini.symm.trans (h.assigned addr hold).1
  · rw [hID, hlog]
    exact h.assignsAnnounced

/-- When `timerTW` expires in time, the address is announced. -/
theorem Contends.announced_of_due (h : Contends node heard) (hpending : .timerTC ∉ node.timers)
    (hdue : node.timers.find .timerTW = some now)
    (htimely : ∀ due ∈ node.timers.find .AreqTimer, now ≤ due) :
    node.hostState = .INI ∧ Announced node.xID node.selectedAddr node.log := by
  have hini : node.hostState = .INI := by
    rcases h.hostState with hini | hsteady
    · exact hini
    · exact absurd (mem_iff_find.mpr ⟨_, hdue⟩) (h.settled hsteady).2
  refine ⟨hini, ?_⟩
  rcases h.announced hini hpending with hannounced | ⟨-, due, last, hareq, hTW, hlater⟩
  · exact hannounced
  · obtain rfl := Option.some.inj (hdue.symm.trans hTW)
    exact absurd hlater (Int.not_lt.mpr (htimely due hareq))

/-- A host that assigns the address that it has announced. -/
theorem Contends.timerTW (h : Contends node heard) (hpending : .timerTC ∉ node.timers)
    (hini : node.hostState = .INI)
    (hannounced : Announced node.xID node.selectedAddr node.log)
    (hhandle : node.handle ⟨now, .expire .timerTW, draws, interval⟩ = .ok node') :
    Contends node' heard := by
  obtain ⟨hID, hstate, haddr, hlog, hTW, hTC⟩ := timerTW_spec hhandle
  constructor
  · exact .inr hstate
  · rw [hstate]
    exact nofun
  · rw [hstate]
    exact nofun
  · exact fun _ ↦ ⟨fun hmem ↦ hpending (hTC hmem), hTW⟩
  · intro addr hmem
    rw [hlog] at hmem
    refine ⟨hstate, ?_⟩
    rcases mem_cons.mp hmem with hnew | hold
    · rw [haddr]
      exact Deed.assigns.inj hnew
    · cases hini.symm.trans (h.assigned addr hold).1
  · rw [hID, hlog]
    exact ⟨hannounced, h.assignsAnnounced⟩

/-! ## The invariant of the network -/

namespace Network

variable {ι : Type} [DecidableEq ι] {net base net' : Network ι} {i j : ι} {deeds : List Deed}
variable {event : NetworkEvent ι}

/-- Every host knows the addresses that the others have assigned, and knows of those that they have
announced, or is going to. -/
structure Apart (net : Network ι) : Prop where
  distinct : Injective fun i ↦ (net.nodes i).xID
  contends : ∀ i, Contends (net.nodes i) (net.heard i)
  areq : ∀ i, ∀ head ∈ net.inbox i, head.fapType = .AREQ
  reached : ∀ i j, j ≠ i → .timerTC ∉ (net.nodes i).timers →
    Announced (net.nodes i).xID (net.nodes i).selectedAddr (net.nodes i).log →
      (net.nodes i).selectedAddr ∈ net.heard j ∨ ∃ head ∈ net.inbox j,
        head.idNumber = (net.nodes i).xID ∧ head.source = (net.nodes i).selectedAddr
  settled : ∀ i j, j ≠ i → (net.nodes i).hostState = .STEADY →
    (net.nodes i).selectedAddr ∈ net.heard j
  apart : ∀ i j, i ≠ j → (net.nodes i).hostState = .STEADY → (net.nodes j).hostState = .STEADY →
    (net.nodes i).selectedAddr ≠ (net.nodes j).selectedAddr

omit [DecidableEq ι] in
theorem apart_of_starts (h : Starts net) : Apart net where
  distinct := h.distinct
  contends i := by
    obtain ⟨earlier, hlog, hnone⟩ := h.log i
    obtain ⟨now, hareq, hTW⟩ := h.entered i
    have hlater : now < now + TW := Int.lt_add_of_pos_right now (by decide)
    refine ⟨.inl (h.hostState i), ?_, ?_, ?_, ?_, ?_⟩
    · simp [h.heard i]
    · rw [h.NF i]
      exact fun _ _ ↦ .inr ⟨by decide, now, now + TW, hareq, hTW, hlater⟩
    · rw [h.hostState i]
      exact nofun
    · intro addr hmem
      rw [hlog] at hmem
      exact absurd (by simpa using hmem) (hnone addr)
    · rw [hlog]
      have hearlier : AssignsAnnounced (net.nodes i).xID earlier := assignsAnnounced_of_none hnone
      exact hearlier
  areq i head hmem := by
    rw [h.inbox i] at hmem
    cases hmem
  reached i j _ _ hannounced := by
    obtain ⟨earlier, hlog, -⟩ := h.log i
    rw [hlog] at hannounced
    exact hannounced.elim
  settled i j _ hsteady := by cases (h.hostState i).symm.trans hsteady
  apart i j _ hsteady := by cases (h.hostState i).symm.trans hsteady

/-- A network in which a host has heard something more. -/
structure Hears (net base : Network ι) (i : ι) : Prop where
  nodes : base.nodes = net.nodes
  inbox : ∀ j, j ≠ i → base.inbox j = net.inbox j
  heard : ∀ j, j ≠ i → base.heard j = net.heard j
  inbox_self : ∀ head ∈ base.inbox i, head ∈ net.inbox i
  heard_self : ∀ addr ∈ net.heard i, addr ∈ base.heard i
  kept : ∀ head ∈ net.inbox i, head.idNumber ≠ (net.nodes i).xID →
    head ∈ base.inbox i ∨ head.source ∈ base.heard i

omit [DecidableEq ι] in
theorem Hears.refl (net : Network ι) (i : ι) : Hears net net i :=
  ⟨rfl, fun _ _ ↦ rfl, fun _ _ ↦ rfl, fun _ ↦ id, fun _ ↦ id, fun _ hmem _ ↦ .inl hmem⟩

theorem hears_hear {k : ℕ} {head : FAPhead} (hhead : (net.inbox i)[k]? = some head) :
    Hears net (net.hear i k head) i where
  nodes := rfl
  inbox j hj := by simp [hear, hj]
  heard j hj := by simp [hear, hj]
  inbox_self other hmem := by
    simp only [hear, update_self] at hmem
    exact mem_of_mem_eraseIdx hmem
  heard_self addr hmem := by
    simp only [hear, update_self]
    split
    · exact hmem
    · exact mem_cons_of_mem _ hmem
  kept other hmem hother := by
    simp only [hear, update_self]
    obtain ⟨n, hn⟩ := mem_iff_getElem?.mp hmem
    by_cases hsame : n = k
    · subst hsame
      obtain rfl := Option.some.inj (hhead.symm.trans hn)
      right
      rw [if_neg hother]
      exact mem_cons_self
    · left
      exact mem_eraseIdx_iff_getElem?.mpr ⟨n, hsame, hn⟩

/-- What a host does in a network, with what it has heard by then. -/
structure Acts (net : Network ι) (i : ι) (heard : List Ipv4Address) (node' : Fap)
    (deeds : List Deed) : Prop where
  xID : node'.xID = (net.nodes i).xID
  log : node'.log = deeds ++ (net.nodes i).log
  areq : ∀ head ∈ sentIn deeds, head.fapType = .AREQ
  contends : Contends node' heard
  /-- The host has announced its address just now, or had done so before. -/
  reached : .timerTC ∉ node'.timers → Announced node'.xID node'.selectedAddr node'.log →
    (∃ head ∈ sentIn deeds,
      head.idNumber = node'.xID ∧ head.source = node'.selectedAddr) ∨
    node'.selectedAddr = (net.nodes i).selectedAddr ∧ .timerTC ∉ (net.nodes i).timers ∧
      Announced (net.nodes i).xID (net.nodes i).selectedAddr (net.nodes i).log
  /-- The host has assigned its address before, or all others know it and have another one. -/
  settled : node'.hostState = .STEADY →
    (net.nodes i).hostState = .STEADY ∧ node'.selectedAddr = (net.nodes i).selectedAddr ∨
      ∀ j, j ≠ i → node'.selectedAddr ∈ net.heard j ∧
        ((net.nodes j).hostState = .STEADY → (net.nodes j).selectedAddr ≠ node'.selectedAddr)

section Act

variable (hbase : Hears net base i) (hacts : Acts net i (base.heard i) node' deeds)

include hbase

theorem heard_of_heard {addr : Ipv4Address} (hmem : addr ∈ net.heard j) :
    addr ∈ (base.nodeDone i node').heard j := by
  by_cases hj : j = i
  · subst hj
    exact hbase.heard_self addr hmem
  · show addr ∈ base.heard j
    rw [hbase.heard j hj]
    exact hmem

theorem nodes_of_ne (hj : j ≠ i) : (base.nodeDone i node').nodes j = net.nodes j := by
  simp [nodeDone, hj, hbase.nodes]

include hacts

theorem inbox_of_ne (hj : j ≠ i) :
    (base.nodeDone i node').inbox j = net.inbox j ++ sentIn deeds := by
  simp [nodeDone, hj, hbase.inbox j hj, hbase.nodes, hacts.log]

theorem xID_nodeDone : ((base.nodeDone i node').nodes j).xID = (net.nodes j).xID := by
  by_cases hj : j = i
  · subst hj
    simpa [nodeDone] using hacts.xID
  · rw [nodes_of_ne hbase hj]

/-- What a host has announced goes on being known, or on its way. -/
theorem reached_of_reached {ID : BitVec 32} {addr : Ipv4Address}
    (hID : j = i → ID ≠ (net.nodes i).xID)
    (hreached : addr ∈ net.heard j ∨
      ∃ head ∈ net.inbox j, head.idNumber = ID ∧ head.source = addr) :
    addr ∈ (base.nodeDone i node').heard j ∨
      ∃ head ∈ (base.nodeDone i node').inbox j, head.idNumber = ID ∧ head.source = addr := by
  rcases hreached with hheard | ⟨head, hmem, hsame, haddr⟩
  · exact .inl (heard_of_heard hbase hheard)
  · by_cases hj : j = i
    · subst hj
      rcases hbase.kept head hmem (hsame ▸ hID rfl) with hkept | hheard
      · right
        refine ⟨head, ?_, hsame, haddr⟩
        simpa [nodeDone] using hkept
      · exact .inl (haddr ▸ hheard)
    · right
      refine ⟨head, ?_, hsame, haddr⟩
      rw [inbox_of_ne hbase hacts hj]
      exact mem_append_left _ hmem

/-- An action of one host keeps the invariant. -/
theorem Apart.act (h : Apart net) : Apart (base.nodeDone i node') where
  distinct a b hab := by
    simp only [xID_nodeDone hbase hacts] at hab
    exact h.distinct hab
  contends a := by
    by_cases ha : a = i
    · subst ha
      simpa [nodeDone] using hacts.contends
    · rw [nodes_of_ne hbase ha]
      show Contends (net.nodes a) (base.heard a)
      rw [hbase.heard a ha]
      exact h.contends a
  areq a head hmem := by
    by_cases ha : a = i
    · subst ha
      simp only [nodeDone, if_true] at hmem
      exact h.areq a head (hbase.inbox_self head hmem)
    · rw [inbox_of_ne hbase hacts ha] at hmem
      exact (mem_append.mp hmem).elim (h.areq a head) (hacts.areq head)
  reached a b hba hTC hannounced := by
    by_cases ha : a = i
    · subst ha
      have hself : (base.nodeDone a node').nodes a = node' := by simp [nodeDone]
      rw [hself] at hTC hannounced ⊢
      rcases hacts.reached hTC hannounced with ⟨head, hmem, hmatch⟩ | ⟨haddr, hTC', hannounced'⟩
      · right
        refine ⟨head, ?_, hmatch⟩
        rw [inbox_of_ne hbase hacts hba]
        exact mem_append_right _ hmem
      · rw [haddr, hacts.xID]
        exact reached_of_reached hbase hacts (fun hsame ↦ absurd hsame hba)
          (h.reached a b hba hTC' hannounced')
    · rw [nodes_of_ne hbase ha] at hTC hannounced ⊢
      refine reached_of_reached hbase hacts ?_ (h.reached a b hba hTC hannounced)
      exact fun _ hsame ↦ ha (h.distinct hsame)
  settled a b hba hsteady := by
    apply heard_of_heard hbase
    by_cases ha : a = i
    · subst ha
      have hself : (base.nodeDone a node').nodes a = node' := by simp [nodeDone]
      rw [hself] at hsteady ⊢
      rcases hacts.settled hsteady with ⟨hsteady', haddr⟩ | hknown
      · rw [haddr]
        exact h.settled a b hba hsteady'
      · exact (hknown b hba).1
    · rw [nodes_of_ne hbase ha] at hsteady ⊢
      exact h.settled a b hba hsteady
  apart a b hab hsteady hsteady' := by
    have hself : (base.nodeDone i node').nodes i = node' := by simp [nodeDone]
    have hother : ∀ c, c ≠ i → node'.hostState = .STEADY → (net.nodes c).hostState = .STEADY →
        (net.nodes c).selectedAddr ≠ node'.selectedAddr := by
      intro c hc hnew hold
      rcases hacts.settled hnew with ⟨hbefore, haddr⟩ | hknown
      · rw [haddr]
        exact h.apart c i hc hold hbefore
      · exact (hknown c hc).2 hold
    by_cases ha : a = i
    · subst ha
      rw [hself] at hsteady ⊢
      rw [nodes_of_ne hbase (Ne.symm hab)] at hsteady' ⊢
      exact (hother b (Ne.symm hab) hsteady hsteady').symm
    · rw [nodes_of_ne hbase ha] at hsteady ⊢
      by_cases hb : b = i
      · subst hb
        rw [hself] at hsteady' ⊢
        exact hother a ha hsteady' hsteady
      · rw [nodes_of_ne hbase hb] at hsteady' ⊢
        exact h.apart a b hab hsteady hsteady'

end Act

/-! ## The actions -/

theorem sentIn_map_sends (sent : List FAPhead) : sentIn (sent.map .sends) = sent := by
  simp [sentIn, filterMap_map]

omit [DecidableEq ι] in
/-- A host goes on with its address. -/
theorem acts_listens {sent : List FAPhead} {heard : List Ipv4Address}
    (hlistens : Listens (net.nodes i) node' sent) (hareq : ∀ areq ∈ sent, areq.fapType = .AREQ)
    (hcontends : Contends node' heard) : Acts net i heard node' (sent.map .sends) where
  xID := hlistens.xID
  log := hlistens.log
  areq := by
    rw [sentIn_map_sends]
    exact hareq
  contends := hcontends
  reached hTC hannounced := by
    rw [mem_timers_of_listens hlistens .timerTC (by decide)] at hTC
    rw [hlistens.log, announced_sends_append, hlistens.xID, hlistens.selectedAddr] at hannounced
    rw [sentIn_map_sends, hlistens.xID, hlistens.selectedAddr]
    rcases hannounced with ⟨head, hmem, -, hmatch⟩ | hold
    · exact .inl ⟨head, hmem, hmatch⟩
    · exact .inr ⟨rfl, hTC, hold⟩
  settled hsteady := .inl ⟨hlistens.hostState.symm.trans hsteady, hlistens.selectedAddr⟩

/-- A message arrives. -/
theorem Apart.receive {k : ℕ} {head : FAPhead} (h : Apart net)
    (hhead : (net.inbox i)[k]? = some head)
    (hhandle : (net.nodes i).handle ⟨now, .receive head, draws, interval⟩ = .ok node') :
    Apart ((net.hear i k head).nodeDone i node') := by
  have hbase := hears_hear hhead
  have hareq := h.areq i head (mem_of_getElem? hhead)
  have hcontends := h.contends i
  rcases receive_cases hcontends.hostState hareq hhandle with
    ⟨hini, -, hyields⟩ | ⟨hpeace, sent, hlistens, hsent⟩
  · have hacts : Acts net i ((net.hear i k head).heard i) node' [] := by
      refine ⟨hyields.xID, hyields.log, ?_, hcontends.yields hini hyields _, ?_, ?_⟩
      · simp [sentIn]
      · exact fun hTC ↦ absurd hyields.timerTC hTC
      · intro hsteady
        cases (hyields.hostState.trans hini).symm.trans hsteady
    exact h.act hbase hacts
  · refine h.act hbase (acts_listens hlistens hsent (hcontends.listens hlistens ?_))
    intro hini hfresh
    simp only [hear, update_self]
    split
    · exact hfresh
    · rename_i hother
      rw [mem_cons, not_or]
      exact ⟨fun hsame ↦ hpeace hini ⟨hsame.symm, hother⟩, hfresh⟩

/-- A host announces its address. -/
theorem Apart.areqTimer (h : Apart net)
    (hhandle : (net.nodes i).handle ⟨now, .expire .AreqTimer, draws, interval⟩ = .ok node') :
    Apart (net.nodeDone i node') := by
  have hcontends := (h.contends i).areqTimer hhandle
  obtain ⟨hID, hstate, haddr, htimers, hlog⟩ := areqTimer_cases hhandle
  have hTC : .timerTC ∈ node'.timers ↔ .timerTC ∈ (net.nodes i).timers := by
    simp only [mem_iff_find, htimers .timerTC (by decide) (by decide)]
  have hsettled : node'.hostState = .STEADY → (net.nodes i).hostState = .STEADY ∧
      node'.selectedAddr = (net.nodes i).selectedAddr :=
    fun hsteady ↦ ⟨hstate.symm.trans hsteady, haddr⟩
  rcases hlog with ⟨-, hlog⟩ | ⟨-, hlog⟩
  · have hacts : Acts net i (net.heard i) node' [.sends { fapType := .AREQ
                                                          source := (net.nodes i).selectedAddr
                                                          idNumber := (net.nodes i).xID }] := by
      refine ⟨hID, hlog, ?_, hcontends, ?_, fun hsteady ↦ .inl (hsettled hsteady)⟩
      · simp [sentIn]
      · exact fun _ _ ↦ .inl ⟨_, mem_singleton_self _, hID.symm, haddr.symm⟩
    exact h.act (.refl net i) hacts
  · have hacts : Acts net i (net.heard i) node' [] := by
      refine ⟨hID, hlog, ?_, hcontends, ?_, fun hsteady ↦ .inl (hsettled hsteady)⟩
      · simp [sentIn]
      · intro hpending hannounced
        rw [hlog, hID, haddr] at hannounced
        exact .inr ⟨haddr, fun hmem ↦ hpending (hTC.mpr hmem), hannounced⟩
    exact h.act (.refl net i) hacts

/-- A host chooses another address. -/
theorem Apart.timerTC (h : Apart net) (hpending : .timerTC ∈ (net.nodes i).timers)
    (hbudget : 0 < (net.nodes i).NF)
    (hchoice : ∀ addr, freeAddr (net.nodes i).ipAddrRecord (net.nodes i).filter draws = .ok addr →
      addr ∉ net.heard i)
    (hhandle : (net.nodes i).handle ⟨now, .expire .timerTC, draws, interval⟩ = .ok node') :
    Apart (net.nodeDone i node') := by
  have hcontends := (h.contends i).timerTC hpending hbudget hchoice hhandle
  obtain ⟨hID, hstate, -, -, hlog, -⟩ := timerTC_spec hhandle
  have hacts : Acts net i (net.heard i) node' [.chooses node'.selectedAddr] := by
    refine ⟨hID, hlog, ?_, hcontends, ?_, ?_⟩
    · simp [sentIn]
    · intro _ hannounced
      rw [hlog] at hannounced
      exact hannounced.elim
    · intro hsteady
      exact absurd hpending ((h.contends i).settled (hstate.symm.trans hsteady)).1
  exact h.act (.refl net i) hacts

/-- A host assigns its address. -/
theorem Apart.timerTW (h : Apart net) (hpending : .timerTC ∉ (net.nodes i).timers)
    (hdue : (net.nodes i).timers.find .timerTW = some now)
    (htimely : ∀ due ∈ (net.nodes i).timers.find .AreqTimer, now ≤ due)
    (harrived : ∀ j, j ≠ i → ∀ head ∈ net.inbox j, head.idNumber = (net.nodes i).xID →
      head.source = (net.nodes i).selectedAddr → (net.nodes i).selectedAddr ∈ net.heard j)
    (hhandle : (net.nodes i).handle ⟨now, .expire .timerTW, draws, interval⟩ = .ok node') :
    Apart (net.nodeDone i node') := by
  obtain ⟨hini, hannounced⟩ := (h.contends i).announced_of_due hpending hdue htimely
  have hcontends := (h.contends i).timerTW hpending hini hannounced hhandle
  obtain ⟨hID, -, haddr, hlog, -⟩ := timerTW_spec hhandle
  have hacts : Acts net i (net.heard i) node' [.assigns (net.nodes i).selectedAddr] := by
    refine ⟨hID, hlog, ?_, hcontends, fun _ _ ↦ .inr ⟨haddr, hpending, hannounced⟩, fun _ ↦ .inr ?_⟩
    · simp [sentIn]
    · intro j hj
      rw [haddr]
      constructor
      · rcases h.reached i j hj hpending hannounced with hheard | ⟨head, hmem, hsame, hsource⟩
        · exact hheard
        · exact harrived j hj head hmem hsame hsource
      · -- a host that had assigned the same address would have been heard
        intro hsteady hsame
        have hheard := h.settled j i (Ne.symm hj) hsteady
        rw [hsame] at hheard
        exact (h.contends i).fresh hini hpending hheard
  exact h.act (.refl net i) hacts

/-- Every event that heeds the conditions keeps the invariant. -/
theorem Apart.step (h : Apart net) (hstep : (machine.restrict Heeds).Step net event net') :
    Apart net' := by
  obtain ⟨⟨⟨htimely, henabled⟩, hhandle⟩, hheeds⟩ := Machine.step_restrict_iff.mp hstep
  obtain ⟨now, action, draws, interval⟩ := event
  cases action with
  | receive i k =>
    simp only [machine, handle] at hhandle
    cases hhead : (net.inbox i)[k]? with
    | none =>
      simp only [hhead] at hhandle
      obtain rfl := Except.ok.inj hhandle
      exact h
    | some head =>
      simp only [hhead] at hhandle
      obtain ⟨node', hnode, rfl⟩ := bind_pure_eq_ok hhandle
      exact h.receive hhead hnode
  | expire i timer =>
    obtain ⟨hcontending, hdue, -⟩ := henabled
    obtain ⟨node', hnode, rfl⟩ := bind_pure_eq_ok hhandle
    simp only [contending, mem_cons, not_mem_nil, or_false] at hcontending
    rcases hcontending with rfl | rfl | rfl
    · exact h.areqTimer hnode
    · exact h.timerTC (mem_iff_find.mpr ⟨_, hdue⟩) hheeds.1 hheeds.2 hnode
    · exact h.timerTW hheeds.1 hdue (htimely i .AreqTimer (by decide)) hheeds.2 hnode

omit [DecidableEq ι] in
theorem Apart.unique (h : Apart net) : Unique net := by
  refine ⟨?_, fun i ↦ (h.contends i).assignsAnnounced⟩
  intro i j hij addr hi hj
  obtain ⟨hsteady, haddr⟩ := (h.contends i).assigned addr hi
  obtain ⟨hsteady', haddr'⟩ := (h.contends j).assigned addr hj
  exact h.apart i j hij hsteady hsteady' (haddr.symm.trans haddr')

/-- In every run that heeds the conditions no two hosts assign the same address, and every host has
announced what it assigns. -/
theorem unique_of_heeds {start : Network ι} {events : List (NetworkEvent ι)} (hstart : Starts start)
    (hrun : (machine.restrict Heeds).Run start events net) : Unique net := by
  have hapart : Apart net :=
    hrun.invariant (fun _ _ _ h hstep ↦ h.step hstep) (apart_of_starts hstart)
  exact hapart.unique

/-! ## Two hosts with one address -/

instance [Fintype ι] (net : Network ι) (event : NetworkEvent ι) :
    Decidable (machine.Enabled net event) :=
  match event with
  | ⟨_, .receive .., _, _⟩ | ⟨_, .expire .., _, _⟩ => inferInstanceAs (Decidable (_ ∧ _))

instance (node : Fap) (draws : List RandNum) (heard : List Ipv4Address) :
    Decidable (CanChoose node draws heard) :=
  match h : freeAddr node.ipAddrRecord node.filter draws with
  | .ok addr => decidable_of_iff (0 < node.NF ∧ addr ∉ heard) (by simp [CanChoose, h])
  | .error _ => decidable_of_iff (0 < node.NF) (by simp [CanChoose, h])

instance [Fintype ι] (net : Network ι) (event : NetworkEvent ι) :
    Decidable ((machine.restrict Heeds).Enabled net event) :=
  match event with
  | ⟨now, .receive i k, draws, interval⟩ =>
    inferInstanceAs (Decidable (machine.Enabled net ⟨now, .receive i k, draws, interval⟩ ∧ True))
  | ⟨now, .expire i timer, draws, interval⟩ =>
    decidable_of_iff (machine.Enabled net ⟨now, .expire i timer, draws, interval⟩ ∧
        (timer = .timerTW → .timerTC ∉ (net.nodes i).timers ∧ ∀ j, j ≠ i → ∀ head ∈ net.inbox j,
          head.idNumber = (net.nodes i).xID → head.source = (net.nodes i).selectedAddr →
            (net.nodes i).selectedAddr ∈ net.heard j) ∧
        (timer = .timerTC → CanChoose (net.nodes i) draws (net.heard i)))
      (by cases timer <;> simp [Machine.restrict, Heeds])

/-- Two hosts that have chosen 192.168.0.1 at time 0. -/
def twoHosts : Network (Fin 2) where
  nodes i :=
    { xID := BitVec.ofNat 32 i
      hashfunc1 := fun _ ↦ 0
      hostState := .INI
      selectedAddr := 0xc0a80001
      timers := (assign ∅ .AreqTimer 0).assign .timerTW TW
      bound := true
      log := [.chooses 0xc0a80001] }
  inbox _ := []
  heard _ := []

theorem starts_twoHosts : Starts twoHosts where
  distinct := by decide
  hostState _ := rfl
  NF _ := rfl
  log _ := ⟨[], rfl, nofun⟩
  entered i := ⟨0, by revert i; decide +kernel⟩
  timerTC _ := by
    show Timer.timerTC ∉ (assign ∅ .AreqTimer 0).assign .timerTW TW
    decide +kernel
  inbox _ := rfl
  heard _ := rfl

/-- A timer expires at a time in milliseconds, and the next AREQ follows after 100 ms. -/
def expireAt (now : ℤ) (i : Fin 2) (timer : Timer) : NetworkEvent (Fin 2) where
  now := SimTime.ofMillis now
  action := .expire i timer
  draws := [⟨1, by decide⟩, ⟨2, by decide⟩]
  interval := match timer with
    | .AreqTimer => SimTime.ofMillis 100
    | _ => SimTime.ofMillis 1000

/-- The first message on its way to a host arrives. -/
def receiveAt (now : ℤ) (i : Fin 2) : NetworkEvent (Fin 2) where
  now := SimTime.ofMillis now
  action := .receive i 0

/-- Messages arrive at once: host 1 hears host 0 before it has announced anything. -/
def prompt : List (NetworkEvent (Fin 2)) :=
  [expireAt 0 0 .AreqTimer, receiveAt 0 1, expireAt 100 0 .AreqTimer, receiveAt 100 1,
    expireAt 200 0 .AreqTimer, receiveAt 200 1, expireAt 300 0 .AreqTimer,
    expireAt 300 1 .timerTC, expireAt 300 1 .AreqTimer, receiveAt 300 0,
    expireAt 400 1 .AreqTimer, receiveAt 400 0, expireAt 500 1 .AreqTimer, receiveAt 500 0,
    expireAt 600 1 .AreqTimer, expireAt 1200 0 .timerTW, expireAt 1500 1 .timerTW]

theorem unique_of_heeds_prompt :
    ∃ net, (machine.restrict Heeds).Run twoHosts prompt net ∧
      .assigns 0xc0a80001 ∈ (net.nodes 0).log ∧ .assigns 0xc0a80002 ∈ (net.nodes 1).log ∧
      Unique net := by
  have hexec : ((machine.restrict Heeds).exec twoHosts prompt).any fun net ↦
      decide (.assigns 0xc0a80001 ∈ (net.nodes 0).log ∧
        .assigns 0xc0a80002 ∈ (net.nodes 1).log) := by
    decide +kernel
  obtain ⟨net, hrun, hfirst, hsecond⟩ := Machine.exists_run_of_exec hexec
  exact ⟨net, hrun, hfirst, hsecond, unique_of_heeds starts_twoHosts hrun⟩

/-- Each host makes all its announcements before those of the other arrive.  Both then choose
192.168.0.2, and neither announces it. -/
def delayed : List (NetworkEvent (Fin 2)) :=
  [expireAt 0 0 .AreqTimer, expireAt 0 1 .AreqTimer, expireAt 100 0 .AreqTimer,
    expireAt 100 1 .AreqTimer, expireAt 200 0 .AreqTimer, expireAt 200 1 .AreqTimer,
    receiveAt 250 0, receiveAt 250 1, receiveAt 250 0, receiveAt 250 1, receiveAt 250 0,
    receiveAt 250 1, expireAt 550 0 .timerTC, expireAt 550 1 .timerTC, expireAt 550 0 .AreqTimer,
    expireAt 550 1 .AreqTimer, expireAt 1750 0 .timerTW, expireAt 1750 1 .timerTW]

theorem not_unique_delayed :
    ∃ net, Starts twoHosts ∧ machine.Run twoHosts delayed net ∧
      (∀ i, .assigns 0xc0a80002 ∈ (net.nodes i).log) ∧ ¬Unique net := by
  have hexec : (machine.exec twoHosts delayed).any fun net ↦
      decide (∀ i, .assigns 0xc0a80002 ∈ (net.nodes i).log) := by
    decide +kernel
  obtain ⟨net, hrun, hassigned⟩ := Machine.exists_run_of_exec hexec
  refine ⟨net, starts_twoHosts, hrun, hassigned, ?_⟩
  intro hunique
  exact hunique.1 0 1 (by decide) 0xc0a80002 (hassigned 0) (hassigned 1)

end Network

end Inet4.Fap
