import Inet4.Icn.PendingTableRuns

/-!
# How long a pending GET stays in the table

All entries of a SID share one timer message, and every new entry starts it again with its own
lifetime.  The owner removes a whole SID or, through an iterator, one entry; the second kind of
removal can leave a timer behind whose SID has no entry.
-/

namespace Inet4.Icn

open Machine SimTime

namespace ColorPendingGetTable

/-- `RemoveEntry` of an iterator, which is the position of an entry among those of its SID. -/
def removeEntryAt (pit : ColorPendingGetTable) (sid : SID) (position : ℕ) :
    Except Fault ColorPendingGetTable :=
  if position < (pit.findPITentry sid).length then
    .ok { pit with table := pit.table.setRange sid ((pit.findPITentry sid).eraseIdx position) }
  else .error .undefinedBehaviour

/-- What the owner and the kernel do with a table. -/
inductive TableAction
  | createEntry (sid : SID) (nid : NID) (mac : MacAddress) (t : SimTime) (nonce : ℤ)
  | removeEntry (sid : SID)
  | removeEntryAt (sid : SID) (position : ℕ)
  /-- A timer expires, and the message is deleted. -/
  | expire (msg : PitTimer) (deleted : DeletedMessage)

/-- An action and the clock reading at which it happens. -/
structure TableEvent where
  now : SimTime
  action : TableAction

/-- A table under both kinds of removal.  A timer expires at the time for which it is scheduled. -/
def tableMachine : Machine ColorPendingGetTable TableEvent Fault where
  Enabled pit event :=
    match event.action with
    | .expire msg _ => pit.scheduled.find msg = some event.now
    | _ => True
  handle pit event :=
    match event.action with
    | .createEntry sid nid mac t nonce => pit.createEntry event.now sid nid mac t nonce
    | .removeEntry sid => pit.removeEntry sid
    | .removeEntryAt sid position => pit.removeEntryAt sid position
    | .expire msg deleted => pit.handleMessage msg deleted

instance (pit : ColorPendingGetTable) (event : TableEvent) :
    Decidable (tableMachine.Enabled pit event) :=
  match event with
  | ⟨_, .createEntry ..⟩ | ⟨_, .removeEntry _⟩ | ⟨_, .removeEntryAt ..⟩ => isTrue trivial
  | ⟨_, .expire ..⟩ => inferInstanceAs (Decidable (_ = _))

/-- The event is no call of `RemoveEntry` for the SID or for the entry. -/
def NotRemoved (sid : SID) (entry : PITentry) (pit : ColorPendingGetTable) (event : TableEvent) :
    Prop :=
  match event.action with
  | .removeEntry sid' => sid' ≠ sid
  | .removeEntryAt sid' position =>
    sid' = sid → (pit.findPITentry sid)[position]? ≠ some entry
  | _ => True

/-- The event adds no entry of the SID whose lifetime ends before `deadline`. -/
def NotShortened (sid : SID) (deadline : SimTime) (pit : ColorPendingGetTable)
    (event : TableEvent) : Prop :=
  match event.action with
  | .createEntry sid' _ _ t nonce =>
    sid' = sid → (∀ iter ∈ pit.findPITentry sid, iter.nonce ≠ nonce) → deadline ≤ event.now + t
  | _ => True

variable {pit pit' : ColorPendingGetTable} {now t deadline : SimTime} {sid sid' : SID} {nid : NID}
variable {mac : MacAddress} {nonce : ℤ} {timer msg : PitTimer} {entry : PITentry} {position : ℕ}
variable {event : TableEvent} {events before after : List TableEvent} {deleted : DeletedMessage}

theorem removeEntryAt_eq_ok (h : pit.removeEntryAt sid position = .ok pit') :
    pit' = { pit with
      table := pit.table.setRange sid ((pit.findPITentry sid).eraseIdx position) } := by
  unfold removeEntryAt at h
  split at h
  · exact (Except.ok.inj h).symm
  · cases h

theorem TimersAgree.removeEntryAt (h : pit.TimersAgree)
    (hok : pit.removeEntryAt sid position = .ok pit') : pit'.TimersAgree := by
  obtain rfl := removeEntryAt_eq_ok hok
  exact ⟨h.inverse, h.armed, h.allocated⟩

theorem TimersAgree.step (h : pit.TimersAgree) (hstep : tableMachine.Step pit event pit') :
    pit'.TimersAgree := by
  obtain ⟨-, hok⟩ := hstep
  obtain ⟨now, action⟩ := event
  cases action with
  | createEntry sid nid mac t nonce => exact h.createEntry hok
  | removeEntry sid => exact h.removeEntry (fun _ _ ↦ rfl) hok
  | removeEntryAt sid position => exact h.removeEntryAt hok
  | expire msg deleted => exact h.handleMessage hok

theorem timersAgree_of_run {hash : NID → NID} (hrun : tableMachine.Run { hash } events pit) :
    pit.TimersAgree :=
  hrun.invariant (fun _ _ _ h hstep ↦ h.step hstep) (timersAgree_empty hash)

/-! ## An entry and its timer -/

/-- The entry is in the table, and the timer of its SID does not expire before `deadline`. -/
structure HeldUntil (pit : ColorPendingGetTable) (sid : SID) (entry : PITentry)
    (deadline : SimTime) : Prop where
  agree : pit.TimersAgree
  held : entry ∈ pit.findPITentry sid
  due : ∃ timer time, pit.sids.find sid = some timer ∧ pit.scheduled.find timer = some time ∧
    deadline ≤ time

/-- `createEntry` keeps all entries. -/
theorem mem_findPITentry_createEntry (h : pit.createEntry now sid nid mac t nonce = .ok pit')
    (hentry : entry ∈ pit.findPITentry sid') : entry ∈ pit'.findPITentry sid' := by
  have hinsert : entry ∈ (pit.table.insert sid ⟨pit.hash nid, mac, nonce⟩).equalRange sid' := by
    rw [MultiMap.insert, MultiMap.equalRange_setRange]
    split
    · rename_i hsid
      exact List.mem_append_left _ (hsid ▸ hentry)
    · exact hentry
  obtain ⟨-, rfl⟩ | ⟨-, timer, -, rfl⟩ | ⟨-, -, rfl⟩ := createEntry_eq_ok h
  · exact hentry
  · exact hinsert
  · exact hinsert

/-- After the insertion of an entry the timer of its SID is scheduled for the end of its
lifetime. -/
theorem scheduled_createEntry (h : pit.createEntry now sid nid mac t nonce = .ok pit')
    (hnew : ∀ iter ∈ pit.findPITentry sid, iter.nonce ≠ nonce) :
    ∃ timer, pit'.sids.find sid = some timer ∧ pit'.scheduled.find timer = some (now + t) := by
  obtain ⟨⟨iter, hiter, heq⟩, -⟩ | ⟨-, timer, hfind, rfl⟩ | ⟨-, -, rfl⟩ := createEntry_eq_ok h
  · exact absurd heq (hnew iter hiter)
  · exact ⟨timer, hfind, by simp⟩
  · exact ⟨pit.nextTimer, by simp, by simp⟩

/-- A new entry is held for its lifetime. -/
theorem heldUntil_createEntry (hagree : pit.TimersAgree)
    (h : pit.createEntry now sid nid mac t nonce = .ok pit')
    (hnew : ∀ iter ∈ pit.findPITentry sid, iter.nonce ≠ nonce) :
    pit'.HeldUntil sid ⟨pit.hash nid, mac, nonce⟩ (now + t) := by
  obtain ⟨timer, hfind, hdue⟩ := scheduled_createEntry h hnew
  refine ⟨hagree.createEntry h, ?_, timer, now + t, hfind, hdue, le_rfl⟩
  have hheld : (⟨pit.hash nid, mac, nonce⟩ : PITentry) ∈
      (pit.table.insert sid ⟨pit.hash nid, mac, nonce⟩).equalRange sid := by
    rw [MultiMap.insert, MultiMap.equalRange_setRange, if_pos rfl]
    exact List.mem_append_right _ (List.mem_singleton_self _)
  obtain ⟨⟨iter, hiter, heq⟩, -⟩ | ⟨-, timer, -, rfl⟩ | ⟨-, -, rfl⟩ := createEntry_eq_ok h
  · exact absurd heq (hnew iter hiter)
  · exact hheld
  · exact hheld

theorem HeldUntil.createEntry (h : pit.HeldUntil sid entry deadline)
    (hok : pit.createEntry now sid' nid mac t nonce = .ok pit')
    (hlong : sid' = sid → (∀ iter ∈ pit.findPITentry sid, iter.nonce ≠ nonce) →
      deadline ≤ now + t) : pit'.HeldUntil sid entry deadline := by
  refine ⟨h.agree.createEntry hok, mem_findPITentry_createEntry hok h.held, ?_⟩
  obtain ⟨timer, time, hsid, htime, hdeadline⟩ := h.due
  obtain ⟨-, rfl⟩ | ⟨hnew, timer', hfind, rfl⟩ | ⟨-, hfind, rfl⟩ := createEntry_eq_ok hok
  · exact h.due
  · refine ⟨timer, ?_⟩
    by_cases heq : timer = timer'
    · -- The timers of two SIDs differ, so that the entry is one more of this SID.
      subst heq
      have hsame : sid' = sid := by
        have htimer := (h.agree.inverse timer sid).mpr hsid
        rw [(h.agree.inverse timer sid').mpr hfind] at htimer
        exact Option.some.inj htimer
      exact ⟨now + t, hsid, by simp, hlong hsame (hsame ▸ hnew)⟩
    · exact ⟨time, hsid, by simp [heq, htime], hdeadline⟩
  · have hother : sid ≠ sid' := by
      rintro rfl
      rw [hfind] at hsid
      cases hsid
    have hknown : timer ≠ pit.nextTimer := by
      rintro rfl
      exact h.agree.nextTimer_notMem (h.agree.mem_timers hsid)
    exact ⟨timer, time, by simp [hother, hsid], by simp [hknown, htime], hdeadline⟩

/-- Removing another SID leaves the entry and its timer. -/
theorem HeldUntil.removeEntry (h : pit.HeldUntil sid entry deadline)
    {scheduled : SelfMessages PitTimer}
    (hscheduled : ∀ timer, pit.sids.find sid' ≠ some timer →
      scheduled.find timer = pit.scheduled.find timer)
    (hok : { pit with scheduled }.removeEntry sid' = .ok pit') (hsid' : sid' ≠ sid) :
    pit'.HeldUntil sid entry deadline := by
  have hagree := h.agree.removeEntry hscheduled hok
  obtain ⟨timer, time, hsid, htime, hdeadline⟩ := h.due
  obtain ⟨pointer, hfind, rfl⟩ := removeEntry_eq_ok hok
  have hpointer : timer ≠ pointer := by
    rintro rfl
    have htimer := (h.agree.inverse timer sid).mpr hsid
    rw [(h.agree.inverse timer sid').mpr hfind] at htimer
    exact hsid' (Option.some.inj htimer)
  refine ⟨hagree, ?_, timer, time, ?_, ?_, hdeadline⟩
  · rw [findPITentry, MultiMap.erase, MultiMap.equalRange_setRange, if_neg hsid'.symm]
    exact h.held
  · rw [AssocMap.find_remove, if_neg hsid'.symm, hsid]
  · rw [SelfMessages.find_cancelEvent, if_neg hpointer,
      hscheduled timer (by simpa [hfind] using hpointer.symm), htime]

theorem HeldUntil.removeEntryAt (h : pit.HeldUntil sid entry deadline)
    (hok : pit.removeEntryAt sid' position = .ok pit')
    (hother : sid' = sid → (pit.findPITentry sid)[position]? ≠ some entry) :
    pit'.HeldUntil sid entry deadline := by
  have hagree := h.agree.removeEntryAt hok
  obtain rfl := removeEntryAt_eq_ok hok
  refine ⟨hagree, ?_, h.due⟩
  rw [findPITentry, MultiMap.equalRange_setRange]
  split
  · rename_i hsid
    subst hsid
    obtain ⟨i, hi⟩ := List.mem_iff_getElem?.mp h.held
    refine List.mem_eraseIdx_iff_getElem?.mpr ⟨i, ?_, hi⟩
    rintro rfl
    exact hother rfl hi
  · exact h.held

/-- Before the deadline only timers of other SIDs expire. -/
theorem HeldUntil.handleMessage (h : pit.HeldUntil sid entry deadline)
    (hmsg : pit.scheduled.find msg = some now) (hnow : now < deadline)
    (hok : pit.handleMessage msg deleted = .ok pit') : pit'.HeldUntil sid entry deadline := by
  obtain ⟨-, sid', scheduled, hsid', hscheduled, hremove⟩ := handleMessage_eq_ok hok
  refine h.removeEntry ?_ hremove ?_
  · intro timer htimer
    apply hscheduled
    rintro rfl
    exact htimer ((h.agree.inverse timer sid').mp hsid')
  · rintro rfl
    obtain ⟨timer, time, hsid, htime, hdeadline⟩ := h.due
    rw [(h.agree.inverse msg sid').mp hsid', Option.some.injEq] at hsid
    subst hsid
    rw [hmsg, Option.some.injEq] at htime
    exact absurd (htime ▸ hdeadline) (not_le.mpr hnow)

instance (pit : ColorPendingGetTable) (event : TableEvent) :
    Decidable (NotRemoved sid entry pit event) :=
  match event with
  | ⟨_, .createEntry ..⟩ | ⟨_, .expire ..⟩ => isTrue trivial
  | ⟨_, .removeEntry _⟩ => inferInstanceAs (Decidable (_ ≠ _))
  | ⟨_, .removeEntryAt ..⟩ => inferInstanceAs (Decidable (_ → _))

instance (pit : ColorPendingGetTable) (event : TableEvent) :
    Decidable (NotShortened sid deadline pit event) :=
  match event with
  | ⟨_, .createEntry ..⟩ => inferInstanceAs (Decidable (_ → _))
  | ⟨_, .removeEntry _⟩ | ⟨_, .removeEntryAt ..⟩ | ⟨_, .expire ..⟩ => isTrue trivial

/-- The events before the deadline of an entry that remove neither its SID nor the entry. -/
def Waiting (sid : SID) (entry : PITentry) (deadline : SimTime) (pit : ColorPendingGetTable)
    (event : TableEvent) : Prop :=
  event.now < deadline ∧ NotRemoved sid entry pit event

/-- Those among them that add no entry of the SID which would be dropped earlier. -/
def Undisturbed (sid : SID) (entry : PITentry) (deadline : SimTime) (pit : ColorPendingGetTable)
    (event : TableEvent) : Prop :=
  Waiting sid entry deadline pit event ∧ NotShortened sid deadline pit event

instance (pit : ColorPendingGetTable) (event : TableEvent) :
    Decidable (Waiting sid entry deadline pit event) :=
  inferInstanceAs (Decidable (_ ∧ _))

instance (pit : ColorPendingGetTable) (event : TableEvent) :
    Decidable (Undisturbed sid entry deadline pit event) :=
  inferInstanceAs (Decidable (_ ∧ _))

theorem HeldUntil.step (h : pit.HeldUntil sid entry deadline)
    (hstep : (tableMachine.restrict (Undisturbed sid entry deadline)).Step pit event pit') :
    pit'.HeldUntil sid entry deadline := by
  obtain ⟨⟨henabled, hok⟩, ⟨hnow, hremoved⟩, hshortened⟩ := step_restrict_iff.mp hstep
  obtain ⟨now, action⟩ := event
  cases action with
  | createEntry sid' nid mac t nonce => exact h.createEntry hok hshortened
  | removeEntry sid' => exact h.removeEntry (fun _ _ ↦ rfl) hok hremoved
  | removeEntryAt sid' position => exact h.removeEntryAt hok hremoved
  | expire msg deleted => exact h.handleMessage henabled hnow hok

/-- An entry that `createEntry` adds at time `now` with lifetime `t` is in the table after every run
of events before `now + t` that removes neither its SID nor the entry, provided that no entry added
to its SID during the run has a lifetime that ends before `now + t`. -/
theorem mem_findPITentry_of_undisturbed {hash : NID → NID}
    (hbefore : tableMachine.Run { hash } before pit)
    (hnew : ∀ iter ∈ pit.findPITentry sid, iter.nonce ≠ nonce)
    (hcreate : tableMachine.Step pit ⟨now, .createEntry sid nid mac t nonce⟩ pit')
    {last : ColorPendingGetTable}
    (hafter : (tableMachine.restrict (Undisturbed sid ⟨pit.hash nid, mac, nonce⟩ (now + t))).Run
      pit' after last) : ⟨pit.hash nid, mac, nonce⟩ ∈ last.findPITentry sid := by
  have hheld := heldUntil_createEntry (timersAgree_of_run hbefore) hcreate.2 hnew
  have hlast := hafter.invariant
    (P := fun pit' ↦ pit'.HeldUntil sid ⟨pit.hash nid, mac, nonce⟩ (now + t))
    (fun _ _ _ h hstep ↦ h.step hstep) hheld
  exact hlast.held

/-- A table before the first request, with a stand-in for the hash. -/
def hashing : ColorPendingGetTable where
  hash nid := ⟨~~~nid.value⟩

/-- A request waits five seconds, another node's six, and an entry of another SID comes to its
end. -/
theorem mem_findPITentry_of_undisturbed_request :
    ∃ pit' last, tableMachine.Step hashing ⟨1, .createEntry ⟨⟨9⟩, 1⟩ ⟨2⟩ 2 5 7⟩ pit' ∧
      (tableMachine.restrict (Undisturbed ⟨⟨9⟩, 1⟩ ⟨⟨~~~2⟩, 2, 7⟩ 6)).Run pit'
        [⟨2, .createEntry ⟨⟨9⟩, 1⟩ ⟨3⟩ 3 6 8⟩, ⟨3, .createEntry ⟨⟨9⟩, 2⟩ ⟨3⟩ 3 1 9⟩,
          ⟨4, .expire 1 .intact⟩] last ∧
      ⟨⟨~~~2⟩, 2, 7⟩ ∈ last.findPITentry ⟨⟨9⟩, 1⟩ := by
  obtain ⟨pit', hcreate, hexec⟩ : ∃ pit',
      tableMachine.Run hashing [⟨1, .createEntry ⟨⟨9⟩, 1⟩ ⟨2⟩ 2 5 7⟩] pit' ∧
      ((tableMachine.restrict (Undisturbed ⟨⟨9⟩, 1⟩ ⟨⟨~~~2⟩, 2, 7⟩ 6)).exec pit'
        [⟨2, .createEntry ⟨⟨9⟩, 1⟩ ⟨3⟩ 3 6 8⟩, ⟨3, .createEntry ⟨⟨9⟩, 2⟩ ⟨3⟩ 3 1 9⟩,
          ⟨4, .expire 1 .intact⟩]).isSome := exists_run_of_exec (by decide +kernel)
  obtain ⟨last, hlast⟩ := Option.isSome_iff_exists.mp hexec
  have hstep := run_singleton_iff.mp hcreate
  have hafter := run_of_exec hlast
  exact ⟨pit', last, hstep, hafter,
    mem_findPITentry_of_undisturbed (.nil _) (List.forall_mem_nil _) hstep hafter⟩

/-- An entry that should wait five seconds is gone after two, although nobody has called
`RemoveEntry`: one second after it another node has asked for the same content for one second. -/
theorem dropped_before_deadline :
    ∃ pit' last,
      tableMachine.Step hashing ⟨0, .createEntry ⟨⟨9⟩, 1⟩ ⟨2⟩ 2 (ofMillis 5000) 7⟩ pit' ∧
      (tableMachine.restrict (Waiting ⟨⟨9⟩, 1⟩ ⟨⟨~~~2⟩, 2, 7⟩ (ofMillis 5000))).Run pit'
        [⟨ofMillis 1000, .createEntry ⟨⟨9⟩, 1⟩ ⟨3⟩ 3 (ofMillis 1000) 8⟩,
          ⟨ofMillis 2000, .expire 0 .intact⟩] last ∧
      last.findPITentry ⟨⟨9⟩, 1⟩ = [] := by
  obtain ⟨pit', hcreate, hexec⟩ : ∃ pit',
      tableMachine.Run hashing [⟨0, .createEntry ⟨⟨9⟩, 1⟩ ⟨2⟩ 2 (ofMillis 5000) 7⟩] pit' ∧
      ((tableMachine.restrict (Waiting ⟨⟨9⟩, 1⟩ ⟨⟨~~~2⟩, 2, 7⟩ (ofMillis 5000))).exec pit'
        [⟨ofMillis 1000, .createEntry ⟨⟨9⟩, 1⟩ ⟨3⟩ 3 (ofMillis 1000) 8⟩,
          ⟨ofMillis 2000, .expire 0 .intact⟩]).map (findPITentry · ⟨⟨9⟩, 1⟩) = some [] :=
    exists_run_of_exec (by decide +kernel)
  obtain ⟨last, hlast, hempty⟩ := Option.map_eq_some_iff.mp hexec
  exact ⟨pit', last, run_singleton_iff.mp hcreate, run_of_exec hlast, hempty⟩

end ColorPendingGetTable

end Inet4.Icn
