import Inet4.Icn.DelayQueue
import Inet4.Machine

/-!
# Cancelled packets in the delay queue

`check_and_delete` releases a packet and leaves its entry in the queue, `have` erases the first
cancelled entry that it meets and gives up the search, and neither of them touches the timer.  The
timer stays with the first element, and no queued packet is overlooked, as long as every search is
undisturbed: it finds its packet before it meets a cancelled entry, or there is nothing to find and
the first element does not change.
-/

namespace Inet4.Icn

open List PendPkt

/-- An element holds a packet that `have` recognises as the one it looks for. -/
def PendPkt.Matches (pkt : Packet) (iter : PendPkt) : Prop :=
  ∃ queued, iter.pkt = some queued ∧ DelayQueue.isSame iter.type queued pkt = .ok true

instance (pkt : Packet) (iter : PendPkt) : Decidable (iter.Matches pkt) :=
  inferInstanceAs (Decidable (∃ queued ∈ iter.pkt, DelayQueue.isSame iter.type queued pkt =
    .ok true))

theorem PendPkt.Matches.ne_none {pkt : Packet} {iter : PendPkt} (h : iter.Matches pkt) :
    iter.pkt ≠ none := by
  obtain ⟨queued, hqueued, -⟩ := h
  simp [hqueued]

namespace DelayQueue

/-- The comparison of `check_and_delete`. -/
def isGetFor (sid : SID) (iter : PendPkt) : Except Fault Bool :=
  match iter.type, iter.pkt with
  | .GET, some packet => do
    let packetHead ← packet.peekGet
    return sid = packetHead.sid
  | _, _ => .ok false

/-- The loop of `check_and_delete`, which releases the packet of the first queued GET for the
SID. -/
def deleteFrom (sid : SID) : List PendPkt → Except Fault (Bool × List PendPkt)
  | [] => .ok (false, [])
  | iter :: rest => do
    let same ← isGetFor sid iter
    if same then
      return (true, { iter with pkt := none } :: rest)
    else
      let (found, rest) ← deleteFrom sid rest
      return (found, iter :: rest)

/-- `check_and_delete`. -/
def checkAndDelete (q : DelayQueue) (sid : SID) : Except Fault (Bool × DelayQueue) := do
  let (found, priQueue) ← deleteFrom sid q.priQueue
  return (found, { q with priQueue })

variable {q q' : DelayQueue} {now time : SimTime} {pkt : Packet} {type : TYPE} {forwardTimes : ℤ}
variable {entry iter : PendPkt} {queue rest : List PendPkt} {sid : SID} {found : Bool}

/-! ## The timer and the first element -/

/-- The queue is sorted and the timer stands at the send time of the first element. -/
structure Synchronised (q : DelayQueue) : Prop where
  sorted : Sorted q.priQueue
  armed : q.timer = q.due

theorem synchronised_empty : Synchronised {} := ⟨List.Pairwise.nil, rfl⟩

/-- The send times, front first. -/
def sendtimes (queue : List PendPkt) : List SimTime := queue.map sendtime

theorem sorted_iff_sendtimes : Sorted queue ↔ (sendtimes queue).Pairwise (· ≤ ·) :=
  pairwise_map.symm

theorem due_eq_sendtimes (q : DelayQueue) : q.due = (sendtimes q.priQueue).head? := by
  rw [due, sendtimes, head?_map]

/-- The timer is at the first element whatever else the elements hold. -/
theorem Synchronised.of_sendtimes (h : q.Synchronised) (htimer : q'.timer = q.timer)
    (hsendtimes : sendtimes q'.priQueue = sendtimes q.priQueue) : q'.Synchronised where
  sorted := by
    rw [sorted_iff_sendtimes, hsendtimes]
    exact sorted_iff_sendtimes.mp h.sorted
  armed := by
    rw [htimer, due_eq_sendtimes, hsendtimes, h.armed, due_eq_sendtimes]

theorem Synchronised.insert (h : q.Synchronised)
    (hok : q.insert now pkt type time forwardTimes = .ok q') : q'.Synchronised := by
  have hqueue := priQueue_insert hok
  unfold DelayQueue.insert at hok
  split at hok
  · rename_i hempty
    obtain ⟨timer, htimer, rfl⟩ := bind_pure_eq_ok hok
    obtain ⟨-, -, rfl⟩ := SelfMessage.scheduleAt_eq_ok htimer
    exact ⟨pairwise_singleton _ _, rfl⟩
  · rename_i first rest hfirst
    rw [if_neg (by simp [hfirst])] at hqueue
    have hsorted : Sorted q'.priQueue := by
      rw [hqueue]
      exact sorted_insertBefore _ h.sorted
    refine ⟨hsorted, ?_⟩
    rw [due, hqueue, hfirst]
    by_cases hearlier : first.sendtime < time
    · rw [if_pos hearlier] at hok
      obtain rfl := Except.ok.inj hok
      simp only [h.armed, due, hfirst, insertBefore, if_pos hearlier, head?_cons]
    · rw [if_neg hearlier] at hok
      obtain ⟨timer, htimer, rfl⟩ := bind_pure_eq_ok hok
      obtain ⟨-, -, rfl⟩ := SelfMessage.scheduleAt_eq_ok htimer
      simp only [insertBefore, if_neg hearlier, head?_cons, Option.map_some]

/-- The timer event takes out the first element and moves the timer to the next one. -/
theorem Synchronised.popAtFront (h : q.Synchronised) (htimer : q.timer = some now) :
    ∃ first packet q', q.priQueue = first :: q'.priQueue ∧
      { q with timer := none }.popAtFront now = .ok (packet, q') ∧ q'.Synchronised := by
  have hsorted := h.sorted
  have harmed := h.armed
  rw [htimer] at harmed
  cases hqueue : q.priQueue with
  | nil =>
    rw [due, hqueue] at harmed
    cases harmed
  | cons first rest =>
    rw [hqueue] at hsorted
    obtain ⟨hfirst, hrest⟩ := pairwise_cons.mp hsorted
    have hnow : now = first.sendtime := by simpa [due, hqueue] using harmed
    cases rest with
    | nil =>
      refine ⟨first, if first.tc < 1 then none else first.pkt, ⟨[], none⟩, rfl, ?_,
        ⟨List.Pairwise.nil, rfl⟩⟩
      rfl
    | cons next rest =>
      have hnext : now ≤ next.sendtime := hnow ▸ hfirst next mem_cons_self
      refine ⟨first, if first.tc < 1 then none else first.pkt, ⟨next :: rest, some next.sendtime⟩,
        rfl, ?_, ⟨hrest, rfl⟩⟩
      simp only [DelayQueue.popAtFront, SelfMessage.scheduleAt_none hnext]
      rfl

theorem sendtimes_deleteFrom (h : deleteFrom sid queue = .ok (found, rest)) :
    sendtimes rest = sendtimes queue := by
  induction queue generalizing found rest with
  | nil =>
    obtain ⟨-, rfl⟩ := Prod.mk.inj (Except.ok.inj h)
    rfl
  | cons iter tail ih =>
    obtain ⟨same, -, h⟩ := bind_eq_ok h
    split at h
    · obtain ⟨-, rfl⟩ := Prod.mk.inj (Except.ok.inj h)
      rfl
    · obtain ⟨⟨found', tail'⟩, htail, h⟩ := bind_eq_ok h
      obtain ⟨-, rfl⟩ := Prod.mk.inj (Except.ok.inj h)
      exact congrArg (iter.sendtime :: ·) (ih htail)

theorem Synchronised.checkAndDelete (h : q.Synchronised)
    (hok : q.checkAndDelete sid = .ok (found, q')) : q'.Synchronised := by
  obtain ⟨⟨found', priQueue⟩, hdelete, hok⟩ := bind_eq_ok hok
  obtain ⟨-, rfl⟩ := Prod.mk.inj (Except.ok.inj hok)
  exact h.of_sendtimes rfl (sendtimes_deleteFrom hdelete)

/-! ## Searches -/

/-- The elements that `have` passes over: they hold packets, of which none is the one it looks
for. -/
def passed (pkt : Packet) (queue : List PendPkt) : List PendPkt :=
  queue.takeWhile fun iter ↦ iter.pkt ≠ none ∧ ¬iter.Matches pkt

/-- A search for a packet meets no cancelled entry before it finds the packet; or there is nothing
to find, and what is behind the entry comes to the front with the same send time if the entry is in
front. -/
def Undisturbed (q : DelayQueue) (pkt : Packet) : Prop :=
  ∀ cancelled behind, q.priQueue = passed pkt q.priQueue ++ cancelled :: behind →
    cancelled.pkt = none →
      (∀ iter ∈ behind, ¬iter.Matches pkt) ∧
      (passed pkt q.priQueue = [] → behind.head?.map sendtime = some cancelled.sendtime)

/-- The elements from the one that `have` does not pass over. -/
def unpassed (pkt : Packet) (queue : List PendPkt) : List PendPkt :=
  queue.dropWhile fun iter ↦ iter.pkt ≠ none ∧ ¬iter.Matches pkt

theorem eq_passed_append_iff : queue = passed pkt queue ++ rest ↔ unpassed pkt queue = rest := by
  have hsplit : passed pkt queue ++ unpassed pkt queue = queue := takeWhile_append_dropWhile
  constructor
  · intro h
    exact append_cancel_left (hsplit.trans h)
  · rintro rfl
    exact hsplit.symm

instance (q : DelayQueue) (pkt : Packet) : Decidable (q.Undisturbed pkt) :=
  match h : unpassed pkt q.priQueue with
  | [] => isTrue (by simp [Undisturbed, eq_passed_append_iff, h])
  | cancelled :: behind =>
    decidable_of_iff (cancelled.pkt = none → (∀ iter ∈ behind, ¬iter.Matches pkt) ∧
        (passed pkt q.priQueue = [] →
          behind.head?.map sendtime = some cancelled.sendtime)) (by
      simp only [Undisturbed, eq_passed_append_iff, h, cons.injEq]
      constructor
      · rintro hspares _ _ ⟨rfl, rfl⟩
        exact hspares
      · exact fun hall ↦ hall cancelled behind ⟨rfl, rfl⟩)

theorem passed_eq_of_append {before behind : List PendPkt}
    (hbefore : ∀ iter ∈ before, iter.pkt ≠ none ∧ ¬iter.Matches pkt)
    (hstop : iter.pkt = none ∨ iter.Matches pkt) :
    passed pkt (before ++ iter :: behind) = before := by
  unfold passed
  rw [takeWhile_append_of_pos (by simpa using hbefore), takeWhile_cons_of_neg]
  · simp
  · rcases hstop with hnone | hmatches
    · simp [hnone]
    · simp [hmatches]

/-- How a search can end: at the packet it looks for, at a cancelled entry, which is erased, or at
the end of the queue. -/
theorem haveFrom_spec {position : Option ℕ} (h : haveFrom pkt queue = .ok (position, rest)) :
    (∃ before stop behind, queue = before ++ stop :: behind ∧
      (∀ iter ∈ before, iter.pkt ≠ none ∧ ¬iter.Matches pkt) ∧
      ((stop.Matches pkt ∧ position = some before.length ∧ rest = queue) ∨
        stop.pkt = none ∧ position = none ∧ rest = before ++ behind)) ∨
    (∀ iter ∈ queue, iter.pkt ≠ none ∧ ¬iter.Matches pkt) ∧ position = none ∧ rest = queue := by
  induction queue generalizing position rest with
  | nil =>
    obtain ⟨rfl, rfl⟩ := Prod.mk.inj (Except.ok.inj h)
    exact .inr ⟨by simp, rfl, rfl⟩
  | cons iter tail ih =>
    unfold haveFrom at h
    split at h
    · rename_i hnone
      obtain ⟨rfl, rfl⟩ := Prod.mk.inj (Except.ok.inj h)
      exact .inl ⟨[], iter, tail, rfl, by simp, .inr ⟨hnone, rfl, rfl⟩⟩
    · rename_i queued hqueued
      obtain ⟨same, hsame, h⟩ := bind_eq_ok h
      split at h
      · rename_i htrue
        subst htrue
        obtain ⟨rfl, rfl⟩ := Prod.mk.inj (Except.ok.inj h)
        exact .inl ⟨[], iter, tail, rfl, by simp, .inl ⟨⟨queued, hqueued, hsame⟩, rfl, rfl⟩⟩
      · rename_i hfalse
        obtain ⟨⟨position', tail'⟩, htail, h⟩ := bind_eq_ok h
        obtain ⟨rfl, rfl⟩ := Prod.mk.inj (Except.ok.inj h)
        have hpassed : iter.pkt ≠ none ∧ ¬iter.Matches pkt := by
          refine ⟨by simp [hqueued], ?_⟩
          rintro ⟨other, hother, htrue⟩
          obtain rfl := Option.some.inj (hqueued.symm.trans hother)
          exact hfalse (Except.ok.inj (hsame.symm.trans htrue))
        rcases ih htail with ⟨before, stop, behind, rfl, hbefore, hend⟩ | ⟨hall, rfl, rfl⟩
        · refine .inl ⟨iter :: before, stop, behind, rfl,
            forall_mem_cons.mpr ⟨hpassed, hbefore⟩, ?_⟩
          rcases hend with ⟨hmatches, rfl, rfl⟩ | ⟨hnone, rfl, rfl⟩
          · exact .inl ⟨hmatches, rfl, rfl⟩
          · exact .inr ⟨hnone, rfl, rfl⟩
        · exact .inr ⟨forall_mem_cons.mpr ⟨hpassed, hall⟩, rfl, rfl⟩

theorem undisturbed_iff {before behind : List PendPkt}
    (hqueue : q.priQueue = before ++ iter :: behind)
    (hbefore : ∀ iter ∈ before, iter.pkt ≠ none ∧ ¬iter.Matches pkt)
    (hstop : iter.pkt = none ∨ iter.Matches pkt) :
    q.Undisturbed pkt ↔ (iter.pkt = none → (∀ iter ∈ behind, ¬iter.Matches pkt) ∧
      (before = [] → behind.head?.map sendtime = some iter.sendtime)) := by
  unfold Undisturbed
  rw [hqueue, passed_eq_of_append hbefore hstop]
  constructor
  · intro h
    exact h iter behind rfl
  · intro h cancelled behind' heq
    obtain ⟨rfl, rfl⟩ := cons.inj (append_cancel_left heq)
    exact h

theorem undisturbed_of_forall (h : ∀ iter ∈ q.priQueue, iter.pkt ≠ none ∧ ¬iter.Matches pkt) :
    q.Undisturbed pkt := by
  intro cancelled behind hqueue hnone
  have hmem : cancelled ∈ q.priQueue := by
    rw [hqueue]
    exact mem_append_right _ mem_cons_self
  exact absurd hnone (h cancelled hmem).1

theorem sendtimes_modify (queue : List PendPkt) (i : ℕ) :
    sendtimes (queue.modify i PendPkt.decrease) = sendtimes queue := by
  have htickets := congrArg (map Ticket.sendtime) (tickets_modify queue i)
  rw [map_map, map_map] at htickets
  exact htickets

/-- A search leaves the timer with the first element and finds what is there exactly when it is
undisturbed. -/
theorem checkAndDecrease_iff (h : q.Synchronised)
    (hok : q.checkAndDecrease pkt = .ok (found, q')) :
    q'.timer = q'.due ∧ (found = true ↔ ∃ iter ∈ q.priQueue, iter.Matches pkt) ↔
      q.Undisturbed pkt := by
  obtain ⟨⟨position, priQueue⟩, hfind, hok⟩ := bind_eq_ok hok
  rcases haveFrom_spec hfind with
    ⟨before, stop, behind, hqueue, hbefore, ⟨hmatches, rfl, rfl⟩ | ⟨hnone, rfl, rfl⟩⟩ |
      ⟨hall, rfl, rfl⟩
  · obtain ⟨rfl, rfl⟩ := Prod.mk.inj (Except.ok.inj hok)
    have hkept : Synchronised { q with
        priQueue := q.priQueue.modify before.length decrease } :=
      h.of_sendtimes rfl (sendtimes_modify _ _)
    have hfound : ∃ iter ∈ q.priQueue, iter.Matches pkt := by
      refine ⟨stop, ?_, hmatches⟩
      rw [hqueue]
      exact mem_append_right _ mem_cons_self
    refine iff_of_true ⟨hkept.armed, iff_of_true rfl hfound⟩ ?_
    rw [undisturbed_iff hqueue hbefore (.inr hmatches)]
    intro hnone
    exact absurd hnone hmatches.ne_none
  · obtain ⟨rfl, rfl⟩ := Prod.mk.inj (Except.ok.inj hok)
    rw [undisturbed_iff hqueue hbefore (.inl hnone)]
    have hmatch : (∃ iter ∈ q.priQueue, iter.Matches pkt) ↔ ∃ iter ∈ behind, iter.Matches pkt := by
      constructor
      · rintro ⟨iter, hiter, hmatches⟩
        rw [hqueue] at hiter
        rcases mem_append.mp hiter with hiter | hiter
        · exact absurd hmatches (hbefore iter hiter).2
        · rcases mem_cons.mp hiter with rfl | hiter
          · exact absurd hnone hmatches.ne_none
          · exact ⟨iter, hiter, hmatches⟩
      · rintro ⟨iter, hiter, hmatches⟩
        refine ⟨iter, ?_, hmatches⟩
        rw [hqueue]
        exact mem_append_right _ (mem_cons_of_mem _ hiter)
    have hdue : q.timer = (before ++ behind).head?.map sendtime ↔
        (before = [] → behind.head?.map sendtime = some stop.sendtime) := by
      rw [h.armed, due, hqueue]
      cases before with
      | nil =>
        simp only [nil_append, head?_cons, Option.map_some, true_implies]
        exact eq_comm
      | cons first before => simp
    have hlost : (false = true ↔ ∃ iter ∈ q.priQueue, iter.Matches pkt) ↔
        ∀ iter ∈ behind, ¬iter.Matches pkt := by
      rw [hmatch]
      simp
    rw [hlost]
    constructor
    · rintro ⟨harmed, hrest⟩ -
      exact ⟨hrest, hdue.mp harmed⟩
    · intro hundisturbed
      obtain ⟨hrest, hfirst⟩ := hundisturbed hnone
      exact ⟨hdue.mpr hfirst, hrest⟩
  · obtain ⟨rfl, rfl⟩ := Prod.mk.inj (Except.ok.inj hok)
    refine iff_of_true ⟨h.armed, iff_of_false (by simp) ?_⟩ (undisturbed_of_forall hall)
    rintro ⟨iter, hiter, hmatches⟩
    exact (hall iter hiter).2 hmatches

/-- However a search ends, the queue stays sorted. -/
theorem sorted_checkAndDecrease (h : Sorted q.priQueue)
    (hok : q.checkAndDecrease pkt = .ok (found, q')) : Sorted q'.priQueue := by
  obtain ⟨⟨position, priQueue⟩, hfind, hok⟩ := bind_eq_ok hok
  rcases haveFrom_spec hfind with
    ⟨before, stop, behind, hqueue, -, ⟨-, rfl, rfl⟩ | ⟨-, rfl, rfl⟩⟩ | ⟨-, rfl, rfl⟩
  · obtain ⟨-, rfl⟩ := Prod.mk.inj (Except.ok.inj hok)
    rw [sorted_iff_sendtimes, sendtimes_modify]
    exact sorted_iff_sendtimes.mp h
  · obtain ⟨-, rfl⟩ := Prod.mk.inj (Except.ok.inj hok)
    rw [hqueue] at h
    exact h.sublist ((sublist_cons_self stop behind).append_left before)
  · obtain ⟨-, rfl⟩ := Prod.mk.inj (Except.ok.inj hok)
    exact h

/-! ## Runs -/

/-- What happens to a queue from which packets are cancelled. -/
inductive CancelAction
  | insert (pkt : Packet) (type : TYPE) (time : SimTime) (forwardTimes : ℤ)
  | checkAndDelete (sid : SID)
  | checkAndDecrease (pkt : Packet)
  | expire

/-- An action and the clock reading at which it happens. -/
structure CancelEvent where
  now : SimTime
  action : CancelAction

/-- The effect of an event.  The kernel takes the expiring timer out of the future event set before
`popAtFront` is called. -/
def handleCancel (q : DelayQueue) (event : CancelEvent) : Except Fault DelayQueue :=
  match event.action with
  | .insert pkt type time forwardTimes => q.insert event.now pkt type time forwardTimes
  | .checkAndDelete sid => do
    let (_, q) ← q.checkAndDelete sid
    return q
  | .checkAndDecrease pkt => do
    let (_, q) ← q.checkAndDecrease pkt
    return q
  | .expire => do
    let (_, q) ← { q with timer := none }.popAtFront event.now
    return q

/-- The timer expires at the time for which it is scheduled. -/
def EnabledCancel (q : DelayQueue) (event : CancelEvent) : Prop :=
  match event.action with
  | .expire => q.timer = some event.now
  | _ => True

/-- A queue with all its calls and the kernel. -/
def cancelMachine : Machine DelayQueue CancelEvent Fault where
  Enabled := EnabledCancel
  handle := handleCancel

/-- A search is undisturbed. -/
def Spares (q : DelayQueue) (event : CancelEvent) : Prop :=
  match event.action with
  | .checkAndDecrease pkt => q.Undisturbed pkt
  | _ => True

instance (q : DelayQueue) (event : CancelEvent) : Decidable (cancelMachine.Enabled q event) :=
  match event with
  | ⟨_, .insert ..⟩ | ⟨_, .checkAndDelete _⟩ | ⟨_, .checkAndDecrease _⟩ => isTrue trivial
  | ⟨_, .expire⟩ => inferInstanceAs (Decidable (_ = _))

instance (q : DelayQueue) (event : CancelEvent) : Decidable (q.Spares event) :=
  match event with
  | ⟨_, .insert ..⟩ | ⟨_, .checkAndDelete _⟩ | ⟨_, .expire⟩ => isTrue trivial
  | ⟨_, .checkAndDecrease pkt⟩ => inferInstanceAs (Decidable (q.Undisturbed pkt))

theorem Synchronised.step {event : CancelEvent} (h : q.Synchronised)
    (hstep : cancelMachine.Step q event q') (hspares : q.Spares event) : q'.Synchronised := by
  obtain ⟨henabled, hok⟩ := hstep
  obtain ⟨now, action⟩ := event
  cases action with
  | insert pkt type time forwardTimes => exact h.insert hok
  | checkAndDelete sid =>
    obtain ⟨⟨found, next⟩, hdelete, hok⟩ := bind_eq_ok hok
    obtain rfl := Except.ok.inj hok
    exact h.checkAndDelete hdelete
  | checkAndDecrease pkt =>
    obtain ⟨⟨found, next⟩, hsearch, hok⟩ := bind_eq_ok hok
    obtain rfl := Except.ok.inj hok
    exact ⟨sorted_checkAndDecrease h.sorted hsearch,
      ((checkAndDecrease_iff h hsearch).mpr hspares).1⟩
  | expire =>
    obtain ⟨⟨packet, next⟩, hpop, hok⟩ := bind_eq_ok hok
    obtain rfl := Except.ok.inj hok
    obtain ⟨first, packet', next', -, hpop', hnext⟩ := h.popAtFront henabled
    obtain ⟨-, rfl⟩ := Prod.mk.inj (Except.ok.inj (hpop'.symm.trans hpop))
    exact hnext

/-- In every run whose searches are undisturbed, the timer is scheduled exactly when the queue is
not empty, and then at the send time of the first element; the timer event finds an element; and a
search finds its packet exactly when it is queued. -/
theorem synchronised_of_run {events : List CancelEvent}
    (hrun : (cancelMachine.restrict Spares).Run {} events q) :
    q.timer = q.priQueue.head?.map sendtime ∧
    (∀ now, q.timer = some now → q.priQueue ≠ [] ∧
      ∃ packet q', { q with timer := none }.popAtFront now = .ok (packet, q')) ∧
    ∀ pkt found q', q.checkAndDecrease pkt = .ok (found, q') →
      (q'.timer = q'.priQueue.head?.map sendtime ∧
        (found = true ↔ ∃ iter ∈ q.priQueue, iter.Matches pkt) ↔ q.Undisturbed pkt) := by
  have h : q.Synchronised := by
    refine hrun.invariant ?_ synchronised_empty
    intro q event q' h hstep
    obtain ⟨hstep, hspares⟩ := Machine.step_restrict_iff.mp hstep
    exact h.step hstep hspares
  refine ⟨h.armed, ?_, ?_⟩
  · intro now htimer
    obtain ⟨first, packet, q', hqueue, hpop, -⟩ := h.popAtFront htimer
    exact ⟨by simp [hqueue], packet, q', hpop⟩
  · exact fun pkt found q' hok ↦ checkAndDecrease_iff h hok

/-- A GET for one of the content items of node 9. -/
def getOf (tail : BitVec 160) : Packet := .get { head := { sid := ⟨⟨9⟩, tail⟩ } }

theorem synchronised_of_run_cancelled :
    ∃ q, (cancelMachine.restrict Spares).Run {}
      [⟨0, .insert (getOf 2) .GET 10 2⟩, ⟨0, .insert (getOf 1) .GET 5 2⟩,
        ⟨1, .checkAndDelete ⟨⟨9⟩, 2⟩⟩, ⟨2, .checkAndDecrease (getOf 1)⟩, ⟨5, .expire⟩] q ∧
      q.priQueue ≠ [] ∧ q.timer = q.priQueue.head?.map sendtime := by
  refine Machine.exists_run_imp (fun q ↦ q.priQueue.isEmpty = false) (by decide +kernel) ?_
  intro q hrun hqueue
  exact ⟨by simpa using hqueue, (synchronised_of_run hrun).1⟩

/-- A search erases the only, cancelled entry, and the timer expires on an empty queue; another
search stops at a cancelled entry and overlooks the packet behind it. -/
theorem not_synchronised_cancelled :
    (∃ q, cancelMachine.Run {}
        [⟨0, .insert (getOf 1) .GET 5 2⟩, ⟨1, .checkAndDelete ⟨⟨9⟩, 1⟩⟩,
          ⟨2, .checkAndDecrease (getOf 2)⟩] q ∧
      q.priQueue = [] ∧ q.timer = some 5 ∧
      { q with timer := none }.popAtFront 5 = .error .undefinedBehaviour) ∧
    ∃ q, cancelMachine.Run {}
        [⟨0, .insert (getOf 2) .GET 10 2⟩, ⟨0, .insert (getOf 1) .GET 5 2⟩,
          ⟨1, .checkAndDelete ⟨⟨9⟩, 1⟩⟩] q ∧
      (∃ iter ∈ q.priQueue, iter.Matches (getOf 2)) ∧
      ∃ q', q.checkAndDecrease (getOf 2) = .ok (false, q') := by
  constructor
  · refine Machine.exists_run_imp (fun q ↦ q.priQueue.isEmpty = true ∧ q.timer = some 5)
      (by decide +kernel) ?_
    rintro q hrun ⟨hempty, htimer⟩
    have hnil : q.priQueue = [] := isEmpty_iff.mp hempty
    refine ⟨hnil, htimer, ?_⟩
    simp only [popAtFront, hnil]
  · refine Machine.exists_run_imp (fun q ↦ (∃ iter ∈ q.priQueue, iter.Matches (getOf 2)) ∧
      (q.checkAndDecrease (getOf 2)).map Prod.fst = .ok false) (by decide +kernel) ?_
    rintro q hrun ⟨hmatch, hmissed⟩
    refine ⟨hmatch, ?_⟩
    cases hok : q.checkAndDecrease (getOf 2) with
    | error fault =>
      rw [hok] at hmissed
      cases hmissed
    | ok result =>
      rw [hok] at hmissed
      exact ⟨result.2, congrArg (fun found ↦ Except.ok (found, result.2)) (Except.ok.inj hmissed)⟩

end DelayQueue

end Inet4.Icn
