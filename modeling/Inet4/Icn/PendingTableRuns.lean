import Inet4.Icn.PendingTable
import Inet4.Machine

/-!
# The books of the table of pending GETs

Runs of the table under the calls of its owner and the expirations of its timers.  The multimap of
the entries, the two maps between SIDs and timers and the future event set are kept by different
functions; `Bookkept` says how they agree, and every call and every expiration preserves it.
-/

namespace Inet4.Icn

open AssocMap List

namespace ColorPendingGetTable

/-- The two maps of the table and the future event set agree about the timers. -/
structure TimersAgree (pit : ColorPendingGetTable) : Prop where
  /-- `timers` and `sids` are inverse to each other. -/
  inverse : ∀ timer sid, pit.timers.find timer = some sid ↔ pit.sids.find sid = some timer
  /-- Exactly the recorded timers are scheduled. -/
  armed : ∀ timer, timer ∈ pit.scheduled ↔ timer ∈ pit.timers
  /-- The messages that exist have been allocated. -/
  allocated : ∀ timer ∈ pit.timers, timer < pit.nextTimer

theorem timersAgree_empty (hash : NID → NID) : TimersAgree { hash } where
  inverse timer sid := by simp
  armed timer := Iff.rfl
  allocated timer h := absurd h (mem_iff_find.not.mpr (by simp))

variable {pit pit' : ColorPendingGetTable} {now t : SimTime} {sid sid' : SID} {nid : NID}
variable {mac : MacAddress} {nonce : ℤ} {timer msg : PitTimer} {deleted : DeletedMessage}

/-- What `createEntry` does: nothing for a known nonce, else it adds an entry and starts the timer
of the SID, an old one or a new one, with the lifetime of that entry. -/
theorem createEntry_eq_ok (h : pit.createEntry now sid nid mac t nonce = .ok pit') :
    ((∃ iter ∈ pit.findPITentry sid, iter.nonce = nonce) ∧ pit' = pit) ∨
    ((∀ iter ∈ pit.findPITentry sid, iter.nonce ≠ nonce) ∧
      ∃ timer, pit.sids.find sid = some timer ∧
        pit' = { pit with
          table := pit.table.insert sid ⟨pit.hash nid, mac, nonce⟩
          scheduled := (pit.scheduled.cancelEvent timer).assign timer (now + t) }) ∨
    ((∀ iter ∈ pit.findPITentry sid, iter.nonce ≠ nonce) ∧
      pit.sids.find sid = none ∧
        pit' = { pit with
          table := pit.table.insert sid ⟨pit.hash nid, mac, nonce⟩
          scheduled := pit.scheduled.assign pit.nextTimer (now + t)
          timers := pit.timers.assign pit.nextTimer sid
          sids := pit.sids.assign sid pit.nextTimer
          nextTimer := pit.nextTimer + 1 }) := by
  unfold ColorPendingGetTable.createEntry at h
  split at h
  · rename_i hknown
    refine .inl ⟨?_, (Except.ok.inj h).symm⟩
    simpa [findPITentry] using hknown
  · rename_i hnew
    have hnew : ∀ iter ∈ pit.findPITentry sid, iter.nonce ≠ nonce := by
      simpa [findPITentry] using hnew
    split at h
    · rename_i timer hfind
      obtain ⟨scheduled, hschedule, h⟩ := bind_eq_ok h
      obtain ⟨-, -, rfl⟩ := SelfMessages.scheduleAt_eq_ok hschedule
      exact .inr (.inl ⟨hnew, timer, hfind, (Except.ok.inj h).symm⟩)
    · rename_i hfind
      obtain ⟨scheduled, hschedule, h⟩ := bind_eq_ok h
      obtain ⟨-, -, rfl⟩ := SelfMessages.scheduleAt_eq_ok hschedule
      exact .inr (.inr ⟨hnew, hfind, (Except.ok.inj h).symm⟩)

theorem removeEntry_eq_ok (h : pit.removeEntry sid = .ok pit') :
    ∃ pointer, pit.sids.find sid = some pointer ∧
      pit' = { pit with
        timers := pit.timers.remove pointer
        scheduled := pit.scheduled.cancelEvent pointer
        table := pit.table.erase sid
        sids := pit.sids.remove sid } := by
  unfold ColorPendingGetTable.removeEntry at h
  split at h
  · cases h
  · rename_i pointer hfind
    exact ⟨pointer, hfind, (Except.ok.inj h).symm⟩

theorem TimersAgree.mem_timers (h : pit.TimersAgree) (hfind : pit.sids.find sid = some timer) :
    timer ∈ pit.timers :=
  mem_iff_find.mpr ⟨sid, (h.inverse timer sid).mpr hfind⟩

/-- A new message is not scheduled yet. -/
theorem TimersAgree.nextTimer_notMem (h : pit.TimersAgree) : pit.nextTimer ∉ pit.timers :=
  fun hmem ↦ absurd (h.allocated pit.nextTimer hmem) (Nat.lt_irrefl _)

/-- A GET is recorded; the timer of its SID starts again, or a new one is allocated. -/
theorem TimersAgree.createEntry (h : pit.TimersAgree)
    (hok : pit.createEntry now sid nid mac t nonce = .ok pit') : pit'.TimersAgree := by
  obtain ⟨-, rfl⟩ | ⟨-, timer, hfind, rfl⟩ | ⟨-, hfind, rfl⟩ := createEntry_eq_ok hok
  · exact h
  · refine ⟨h.inverse, ?_, h.allocated⟩
    intro timer'
    rw [mem_assign, SelfMessages.mem_cancelEvent, h.armed]
    constructor
    · rintro (rfl | ⟨-, hmem⟩)
      · exact h.mem_timers hfind
      · exact hmem
    · intro hmem
      by_cases heq : timer' = timer
      · exact .inl heq
      · exact .inr ⟨heq, hmem⟩
  · have hnone := find_eq_none.mpr h.nextTimer_notMem
    refine ⟨?_, ?_, ?_⟩
    · intro timer sid'
      rw [find_assign, find_assign]
      by_cases htimer : timer = pit.nextTimer
      · subst htimer
        rw [if_pos rfl, Option.some.injEq]
        by_cases hsid : sid' = sid
        · rw [if_pos hsid]
          exact iff_of_true hsid.symm rfl
        · rw [if_neg hsid, ← h.inverse, hnone]
          exact iff_of_false (Ne.symm hsid) (by simp)
      · rw [if_neg htimer, h.inverse]
        by_cases hsid : sid' = sid
        · rw [if_pos hsid, hsid, hfind, Option.some.injEq]
          exact iff_of_false (by simp) (Ne.symm htimer)
        · rw [if_neg hsid]
    · intro timer
      rw [mem_assign, mem_assign, h.armed]
    · intro timer hmem
      rcases mem_assign.mp hmem with rfl | hmem
      · exact Nat.lt_succ_self _
      · exact Nat.lt_succ_of_lt (h.allocated timer hmem)

/-- What `RemoveEntry` leaves of a table whose future event set may lack the timer of the SID. -/
theorem TimersAgree.removeEntry (h : pit.TimersAgree) {scheduled : SelfMessages PitTimer}
    (hscheduled : ∀ timer, pit.sids.find sid ≠ some timer →
      scheduled.find timer = pit.scheduled.find timer)
    (hok : { pit with scheduled }.removeEntry sid = .ok pit') : pit'.TimersAgree := by
  obtain ⟨pointer, hfind, rfl⟩ := removeEntry_eq_ok hok
  have hpointer := (h.inverse pointer sid).mpr hfind
  refine ⟨?_, ?_, ?_⟩
  · intro timer sid'
    rw [find_remove, find_remove]
    by_cases htimer : timer = pointer
    · subst htimer
      by_cases hsid : sid' = sid
      · rw [if_pos hsid]
        exact iff_of_false (by simp) (by simp)
      · rw [if_neg hsid, ← h.inverse, hpointer, Option.some.injEq]
        exact iff_of_false (by simp) (Ne.symm hsid)
    · rw [if_neg htimer, h.inverse]
      by_cases hsid : sid' = sid
      · rw [if_pos hsid, hsid, hfind, Option.some.injEq]
        exact iff_of_false (Ne.symm htimer) (by simp)
      · rw [if_neg hsid]
  · intro timer
    rw [SelfMessages.mem_cancelEvent, mem_remove]
    refine and_congr_right fun htimer ↦ ?_
    rw [mem_iff_find, hscheduled timer (by simpa [hfind] using Ne.symm htimer),
      ← mem_iff_find, h.armed]
  · intro timer hmem
    exact h.allocated timer (mem_remove.mp hmem).2

/-- A removal that finds its record succeeds. -/
theorem exists_removeEntry {pointer : PitTimer} (hfind : pit.sids.find sid = some pointer) :
    ∃ pit', pit.removeEntry sid = .ok pit' := by
  unfold ColorPendingGetTable.removeEntry
  rw [hfind]
  exact ⟨_, rfl⟩

/-- An expiring timer finds its record, so that all depends on the message that is deleted with
it. -/
theorem TimersAgree.handleMessage_of_mem (h : pit.TimersAgree) (hmsg : msg ∈ pit.scheduled) :
    (∃ pit', pit.handleMessage msg .intact = .ok pit') ∧
      pit.handleMessage msg .overwritten = .error .undefinedBehaviour := by
  obtain ⟨sid, hsid⟩ := mem_iff_find.mp ((h.armed msg).mp hmsg)
  have hfind := (h.inverse msg sid).mp hsid
  obtain ⟨removed, hremove⟩ : ∃ removed,
      { pit with scheduled := pit.scheduled.remove msg }.removeEntry sid = .ok removed := by
    apply exists_removeEntry
    exact hfind
  unfold ColorPendingGetTable.handleMessage
  rw [hsid]
  dsimp only
  rw [bind_of_ok hremove, bind_of_ok hremove]
  exact ⟨⟨_, rfl⟩, rfl⟩

theorem TimersAgree.handleMessage (h : pit.TimersAgree)
    (hok : pit.handleMessage msg deleted = .ok pit') : pit'.TimersAgree := by
  obtain ⟨-, sid, scheduled, hsid, hscheduled, hremove⟩ := handleMessage_eq_ok hok
  refine h.removeEntry ?_ hremove
  intro timer htimer
  apply hscheduled
  rintro rfl
  exact htimer ((h.inverse timer sid).mp hsid)

/-- The containers of the table agree with each other and with the future event set. -/
structure Bookkept (pit : ColorPendingGetTable) : Prop where
  /-- `timers` and `sids` are inverse to each other. -/
  inverse : ∀ timer sid, pit.timers.find timer = some sid ↔ pit.sids.find sid = some timer
  /-- Exactly the recorded timers are scheduled. -/
  armed : ∀ timer, timer ∈ pit.scheduled ↔ timer ∈ pit.timers
  records : ∀ sid, pit.haveSID sid ↔ sid ∈ pit.sids
  nonces : ∀ sid, ((pit.findPITentry sid).map PITentry.nonce).Nodup
  /-- The messages that exist have been allocated. -/
  allocated : ∀ timer ∈ pit.timers, timer < pit.nextTimer

theorem Bookkept.timersAgree (h : pit.Bookkept) : pit.TimersAgree :=
  ⟨h.inverse, h.armed, h.allocated⟩

theorem TimersAgree.bookkept (h : pit.TimersAgree)
    (hrecords : ∀ sid, pit.haveSID sid ↔ sid ∈ pit.sids)
    (hnonces : ∀ sid, ((pit.findPITentry sid).map PITentry.nonce).Nodup) : pit.Bookkept :=
  ⟨h.inverse, h.armed, hrecords, hnonces, h.allocated⟩

theorem bookkept_empty (hash : NID → NID) : Bookkept { hash } :=
  (timersAgree_empty hash).bookkept (fun sid ↦ by simp [haveSID]) fun _ ↦ nodup_nil

/-- The table has an entry with one more nonce. -/
theorem nodup_insert (h : ∀ sid, ((pit.findPITentry sid).map PITentry.nonce).Nodup)
    (hnew : ∀ iter ∈ pit.findPITentry sid, iter.nonce ≠ nonce) (sid' : SID) :
    (((pit.table.insert sid ⟨nid, mac, nonce⟩).equalRange sid').map PITentry.nonce).Nodup := by
  rw [MultiMap.insert, MultiMap.equalRange_setRange]
  split
  · rw [map_append]
    refine nodup_append.mpr ⟨h sid, nodup_singleton _, ?_⟩
    intro other hother fresh hfresh heq
    obtain ⟨iter, hiter, rfl⟩ := mem_map.mp hother
    obtain rfl := mem_singleton.mp hfresh
    exact hnew iter hiter heq
  · exact h sid'

theorem Bookkept.createEntry (h : pit.Bookkept)
    (hok : pit.createEntry now sid nid mac t nonce = .ok pit') : pit'.Bookkept := by
  have hagree := h.timersAgree.createEntry hok
  obtain ⟨-, rfl⟩ | ⟨hnew, timer, hfind, rfl⟩ | ⟨hnew, -, rfl⟩ := createEntry_eq_ok hok
  · exact h
  · refine hagree.bookkept ?_ (nodup_insert h.nonces hnew)
    intro sid'
    rw [haveSID, MultiMap.contains_insert]
    constructor
    · rintro (rfl | hhave)
      · exact mem_iff_find.mpr ⟨timer, hfind⟩
      · exact (h.records sid').mp hhave
    · exact fun hmem ↦ .inr ((h.records sid').mpr hmem)
  · refine hagree.bookkept ?_ (nodup_insert h.nonces hnew)
    intro sid'
    rw [haveSID, MultiMap.contains_insert, AssocMap.mem_assign]
    exact or_congr_right (h.records sid')

/-- What `RemoveEntry` leaves of a table whose future event set may lack the timer of the SID. -/
theorem Bookkept.removeEntry (h : pit.Bookkept) {scheduled : SelfMessages PitTimer}
    (hscheduled : ∀ timer, pit.sids.find sid ≠ some timer →
      scheduled.find timer = pit.scheduled.find timer)
    (hok : { pit with scheduled }.removeEntry sid = .ok pit') : pit'.Bookkept := by
  have hagree := h.timersAgree.removeEntry hscheduled hok
  obtain ⟨pointer, -, rfl⟩ := removeEntry_eq_ok hok
  refine hagree.bookkept ?_ ?_
  · intro sid'
    rw [haveSID, MultiMap.contains_erase, mem_remove]
    exact and_congr_right fun _ ↦ h.records sid'
  · intro sid'
    have hnonces := h.nonces sid'
    rw [findPITentry, MultiMap.erase, MultiMap.equalRange_setRange]
    split
    · exact nodup_nil
    · exact hnonces

theorem Bookkept.handleMessage (h : pit.Bookkept)
    (hok : pit.handleMessage msg deleted = .ok pit') : pit'.Bookkept := by
  obtain ⟨-, sid, scheduled, hsid, hscheduled, hremove⟩ := handleMessage_eq_ok hok
  refine h.removeEntry ?_ hremove
  intro timer htimer
  apply hscheduled
  rintro rfl
  exact htimer ((h.inverse timer sid).mp hsid)

/-- What happens to a table. -/
inductive PitAction
  | createEntry (sid : SID) (nid : NID) (mac : MacAddress) (t : SimTime) (nonce : ℤ)
  | removeEntry (sid : SID)
  /-- A timer expires, and the message is deleted. -/
  | expire (msg : PitTimer) (deleted : DeletedMessage)

/-- An action and the clock reading at which it happens. -/
structure PitEvent where
  now : SimTime
  action : PitAction

/-- The effect of an event. -/
def handle (pit : ColorPendingGetTable) (event : PitEvent) : Except Fault ColorPendingGetTable :=
  match event.action with
  | .createEntry sid nid mac t nonce => pit.createEntry event.now sid nid mac t nonce
  | .removeEntry sid => pit.removeEntry sid
  | .expire msg deleted => pit.handleMessage msg deleted

/-- The owner removes only what is in the table, and a timer expires at the time for which it is
scheduled. -/
def Enabled (pit : ColorPendingGetTable) (event : PitEvent) : Prop :=
  match event.action with
  | .createEntry .. => True
  | .removeEntry sid => pit.haveSID sid
  | .expire msg _ => pit.scheduled.find msg = some event.now

/-- A table with its owner and the kernel. -/
def machine : Machine ColorPendingGetTable PitEvent Fault where
  Enabled := Enabled
  handle := handle

instance (pit : ColorPendingGetTable) (event : PitEvent) : Decidable (machine.Enabled pit event) :=
  match event with
  | ⟨_, .createEntry ..⟩ => isTrue trivial
  | ⟨_, .removeEntry _⟩ | ⟨_, .expire ..⟩ => inferInstanceAs (Decidable (_ = _))

variable {events : List PitEvent}

theorem Bookkept.step {event : PitEvent} (h : pit.Bookkept) (hstep : machine.Step pit event pit') :
    pit'.Bookkept := by
  obtain ⟨-, hok⟩ := hstep
  obtain ⟨now, action⟩ := event
  cases action with
  | createEntry sid nid mac t nonce => exact h.createEntry hok
  | removeEntry sid => exact h.removeEntry (fun _ _ ↦ rfl) hok
  | expire msg deleted => exact h.handleMessage hok

theorem bookkept_of_run {hash : NID → NID} (hrun : machine.Run { hash } events pit) :
    pit.Bookkept :=
  hrun.invariant (fun _ _ _ h hstep ↦ h.step hstep) (bookkept_empty hash)

/-- The number of SIDs with a timer is the number of SIDs with an entry. -/
theorem Bookkept.card_eq_getLength (h : pit.Bookkept) :
    ∃ pending : Finset SID, (∀ sid, sid ∈ pending ↔ pit.haveSID sid) ∧
      pending.card = pit.getLength := by
  refine ⟨pit.sids.keys.toFinset, ?_, toFinset_card_of_nodup pit.sids.keys_nodup⟩
  intro sid
  rw [mem_toFinset, h.records]
  rfl

/-- A timer expires. -/
def PitEvent.Expires (event : PitEvent) : Prop :=
  ∃ msg deleted, event.action = .expire msg deleted

/-- The same event, where the message that it deletes reads as given. -/
def PitEvent.reading (event : PitEvent) (deleted : DeletedMessage) : PitEvent :=
  match event.action with
  | .expire msg _ => { event with action := .expire msg deleted }
  | _ => event

/-- Handling the event has a meaning, for it does not depend on what a deleted message reads as. -/
def WellDefined (pit : ColorPendingGetTable) (event : PitEvent) : Prop :=
  ∀ deleted, pit.handle (event.reading deleted) ≠ .error .undefinedBehaviour

/-- `createEntry` follows no pointer of its own; its one fault is that of `scheduleAt`. -/
theorem createEntry_ne_undefinedBehaviour :
    pit.createEntry now sid nid mac t nonce ≠ .error .undefinedBehaviour := by
  have hschedule (scheduled : SelfMessages PitTimer) (timer : PitTimer) (at_ : SimTime) :
      scheduled.scheduleAt now timer at_ ≠ .error .undefinedBehaviour := by
    unfold SelfMessages.scheduleAt
    split
    · simp
    · split <;> simp
  intro h
  unfold ColorPendingGetTable.createEntry at h
  split at h
  · cases h
  · split at h
    · exact hschedule _ _ _ (error_of_bind_pure h)
    · exact hschedule _ _ _ (error_of_bind_pure h)

/-- Exactly the expirations read a deleted message. -/
theorem Bookkept.wellDefined_iff {event : PitEvent} (h : pit.Bookkept)
    (henabled : machine.Enabled pit event) : WellDefined pit event ↔ ¬event.Expires := by
  obtain ⟨now, action⟩ := event
  cases action with
  | createEntry sid nid mac t nonce =>
    refine iff_of_true ?_ ?_
    · exact fun _ ↦ createEntry_ne_undefinedBehaviour
    · rintro ⟨msg, deleted, haction⟩
      cases haction
  | removeEntry sid =>
    refine iff_of_true ?_ ?_
    · intro deleted hfault
      obtain ⟨timer, hfind⟩ := mem_iff_find.mp ((h.records sid).mp henabled)
      obtain ⟨pit', hok⟩ := exists_removeEntry hfind
      have hfault' : pit.removeEntry sid = .error .undefinedBehaviour := hfault
      rw [hok] at hfault'
      cases hfault'
    · rintro ⟨msg, deleted, haction⟩
      cases haction
  | expire msg deleted =>
    refine iff_of_false ?_ ?_
    · intro hdefined
      have hmsg : msg ∈ pit.scheduled := mem_iff_find.mpr ⟨now, henabled⟩
      exact hdefined .overwritten (h.timersAgree.handleMessage_of_mem hmsg).2
    · exact not_not_intro ⟨msg, deleted, rfl⟩

/-- In every state of every run `timers` and `sids` are inverse to each other, exactly the recorded
timers are scheduled, the SIDs with an entry are the keys of `sids`, `getLength` is their number, no
two entries of a SID share a nonce, and what the next event does has a meaning exactly if no timer
expires. -/
theorem books_of_run {hash : NID → NID} (hrun : machine.Run { hash } events pit) :
    (∀ timer sid, pit.timers.find timer = some sid ↔ pit.sids.find sid = some timer) ∧
    (∀ timer, timer ∈ pit.scheduled ↔ timer ∈ pit.timers) ∧
    (∀ sid, pit.haveSID sid ↔ sid ∈ pit.sids) ∧
    (∃ pending : Finset SID, (∀ sid, sid ∈ pending ↔ pit.haveSID sid) ∧
      pending.card = pit.getLength) ∧
    (∀ sid, ((pit.findPITentry sid).map PITentry.nonce).Nodup) ∧
    ∀ event, machine.Enabled pit event → (WellDefined pit event ↔ ¬event.Expires) := by
  have h := bookkept_of_run hrun
  exact ⟨h.inverse, h.armed, h.records, h.card_eq_getLength, h.nonces,
    fun _ henabled ↦ h.wellDefined_iff henabled⟩

/-- Two nodes ask for a content item, and another item is asked for and served. -/
theorem books_of_run_served :
    ∃ pit, machine.Run { hash := fun nid ↦ ⟨~~~nid.value⟩ }
      [⟨0, .createEntry ⟨⟨9⟩, 1⟩ ⟨2⟩ 2 10 7⟩, ⟨4, .createEntry ⟨⟨9⟩, 1⟩ ⟨3⟩ 3 10 8⟩,
        ⟨5, .createEntry ⟨⟨9⟩, 2⟩ ⟨3⟩ 3 10 9⟩, ⟨9, .removeEntry ⟨⟨9⟩, 2⟩⟩] pit ∧
      pit.getLength = 1 ∧ ∀ timer, timer ∈ pit.scheduled ↔ timer ∈ pit.timers := by
  refine Machine.exists_run_and (by decide +kernel) fun pit hrun hpending ↦ ?_
  exact (books_of_run hrun).2.1

/-- The first timer that expires: the message is deleted and then looked into. -/
theorem not_wellDefined_expiry :
    ∃ pit, machine.Run { hash := fun nid ↦ ⟨~~~nid.value⟩ }
        [⟨0, .createEntry ⟨⟨9⟩, 1⟩ ⟨2⟩ 2 10 7⟩] pit ∧
      machine.Enabled pit ⟨10, .expire 0 .overwritten⟩ ∧
      pit.handle ⟨10, .expire 0 .overwritten⟩ = .error .undefinedBehaviour := by
  obtain ⟨pit, hrun, henabled⟩ : ∃ pit, machine.Run { hash := fun nid ↦ ⟨~~~nid.value⟩ }
      [⟨0, .createEntry ⟨⟨9⟩, 1⟩ ⟨2⟩ 2 10 7⟩] pit ∧
      machine.Enabled pit ⟨10, .expire 0 .overwritten⟩ :=
        Machine.exists_run_of_exec (by decide +kernel)
  have hmsg : 0 ∈ pit.scheduled := mem_iff_find.mpr ⟨10, henabled⟩
  exact ⟨pit, hrun, henabled, ((bookkept_of_run hrun).timersAgree.handleMessage_of_mem hmsg).2⟩

end ColorPendingGetTable

end Inet4.Icn
