import Inet4.Ieee80211.ReorderingRuns

/-!
# What a BlockAckReq frees

The MPDUs before the starting sequence number of a BlockAckReq are dropped when an MSDU behind them
is passed up, and only then.  Those behind the last complete MSDU before the starting sequence
number stay in the buffer, unless the MSDU with the starting sequence number itself is complete.
-/

namespace Inet4.Ieee80211

open OrderedMap (Ascending)
open SequenceNumber

namespace BlockAckReordering

open ReceiveBuffer

/-- Every MPDU before the starting sequence number is dropped with an MSDU: the MSDU that has this
number is complete, or each MPDU before it is not behind all the complete ones there. -/
def DropsPreceding (receiveBuffer : ReceiveBuffer) (start : SequenceNumber) : Prop :=
  (∃ it ∈ receiveBuffer.buffer, it.1 = start ∧ it.2.isComplete = true) ∨
    ∀ it ∈ receiveBuffer.buffer, less it.1 start = true →
      ∃ complete ∈ receiveBuffer.buffer, less complete.1 start = true ∧
        complete.2.isComplete = true ∧ less complete.1 it.1 = false

instance (receiveBuffer : ReceiveBuffer) (start : SequenceNumber) :
    Decidable (DropsPreceding receiveBuffer start) :=
  inferInstanceAs (Decidable (_ ∨ _))

variable {receiveBuffer after : ReceiveBuffer} {start : SequenceNumber} {released : ReorderBuffer}
variable {agreement agreement' : RecipientBlockAckAgreement}

theorem DropsPreceding.leavesNone (h : DropsPreceding receiveBuffer start) :
    LeavesNone receiveBuffer start := by
  intro hnone it hit
  rw [← Bool.not_eq_true]
  intro hless
  rcases h with ⟨complete, hmem, heq, hcomplete⟩ | hdrops
  · exact (hnone complete hmem hcomplete).2 heq
  · obtain ⟨complete, hmem, hbefore, hcomplete, -⟩ := hdrops it hit hless
    rw [(hnone complete hmem hcomplete).1] at hbefore
    cases hbefore

/-- The entries that stay are those behind all that is released. -/
theorem Releases.mem_iff (h : receiveBuffer.InWindow)
    (hreleases : Releases agreement receiveBuffer start released agreement' after)
    {it : SequenceNumber × Fragments} :
    it ∈ after.buffer ↔ it ∈ receiveBuffer.buffer ∧ ∀ e ∈ released,
      offset receiveBuffer.nextExpectedSequenceNumber e.1 <
        offset receiveBuffer.nextExpectedSequenceNumber it.1 := by
  rcases hreleases.after_eq with ⟨rfl, rfl⟩ | ⟨-, hrelease⟩
  · have hsame : (moveWindow receiveBuffer start 0).buffer = receiveBuffer.buffer := by
      unfold moveWindow
      split <;> rfl
    rw [hsame]
    exact (and_iff_left nofun).symm
  · obtain ⟨_, _, hrelease', -, -, -, -, hsub, hkept⟩ :=
      releaseReceiveBuffer_of_subset agreement h hreleases.subset hreleases.ascending
    obtain ⟨rfl, rfl⟩ := Prod.mk.inj (Except.ok.inj (hrelease'.symm.trans hrelease))
    constructor
    · intro hit
      refine ⟨hsub.subset (List.mem_append_right _ hit), ?_⟩
      intro e he
      have hpairs : Ascending (offset receiveBuffer.nextExpectedSequenceNumber) (released ++ _) :=
        List.Pairwise.sublist hsub h.ascending
      exact (List.pairwise_append.mp hpairs).2.2 e he it hit
    · exact fun hit ↦ hkept it hit.1 hit.2

theorem Releases.counted (h : receiveBuffer.InWindow)
    (hreleases : Releases agreement receiveBuffer start released agreement' after) :
    after.length = (mpdus after.buffer).length := by
  rw [length_mpdus]
  rcases hreleases.after_eq with ⟨rfl, rfl⟩ | ⟨-, hrelease⟩
  · unfold moveWindow
    split
    · exact h.counted
    · exact h.counted
  · obtain ⟨_, _, hrelease', hwindow, -⟩ :=
      releaseReceiveBuffer_of_subset agreement h hreleases.subset hreleases.ascending
    obtain ⟨rfl, rfl⟩ := Prod.mk.inj (Except.ok.inj (hrelease'.symm.trans hrelease))
    exact hwindow.counted

/-- No MPDU before the starting sequence number stays if and only if each is dropped with an
MSDU. -/
theorem Releases.freed_iff (h : receiveBuffer.InWindow)
    (hstart : offset receiveBuffer.nextExpectedSequenceNumber start < 2048)
    (hreleases : Releases agreement receiveBuffer start released agreement' after) :
    (∀ it ∈ after.buffer, less it.1 start = false) ↔ DropsPreceding receiveBuffer start := by
  constructor
  · intro hfreed
    by_cases hfollowing : ∃ it ∈ released, less it.1 start = false
    · obtain ⟨it, hit, hnot⟩ := hfollowing
      exact .inl (hreleases.following it hit hnot)
    · right
      intro it hit hless
      -- what is before the start and does not stay is before a released MSDU
      have hgone : it ∉ after.buffer := by
        intro hstays
        rw [hfreed it hstays] at hless
        cases hless
      rw [hreleases.mem_iff h, not_and, not_forall] at hgone
      obtain ⟨complete, hgone⟩ := hgone hit
      rw [Classical.not_imp] at hgone
      obtain ⟨hmem, hnot⟩ := hgone
      have hentry := hreleases.subset hmem
      refine ⟨complete, hentry, ?_, hreleases.complete complete hmem, ?_⟩
      · by_contra hnotBefore
        exact hfollowing ⟨complete, hmem, Bool.eq_false_iff.mpr hnotBefore⟩
      · rw [← Bool.not_eq_true, (h.less_iff (h.key_lt hit) hentry).1]
        exact hnot
  · intro hdrops it hit
    obtain ⟨hentry, hbehind⟩ := (hreleases.mem_iff h).mp hit
    rw [← Bool.not_eq_true]
    intro hless
    have hlt := (h.less_iff hstart hentry).1.mp hless
    rcases hdrops with ⟨first, hfirst, rfl, hcomplete⟩ | hdrops
    · have hafter := hbehind first (hreleases.mem first hfirst hcomplete (.inr rfl))
      omega
    · obtain ⟨complete, hmem, hbefore, hcomplete, hnot⟩ := hdrops it hentry hless
      have hafter := hbehind complete (hreleases.mem complete hmem hcomplete (.inl hbefore))
      rw [← Bool.not_eq_true, (h.less_iff (h.key_lt hentry) hmem).1] at hnot
      exact hnot hafter

end BlockAckReordering

namespace History

open BlockAckReordering

/-- The buffer holds no MPDU before a sequence number, and its length counts the MPDUs that it
holds. -/
structure FreedBefore (history : History) (start : SequenceNumber) : Prop where
  freed : ∀ it ∈ history.recipient.buffer, less it.1 start = false
  counted : (createReceiveBufferIfNecessary history.recipient).length =
    (mpdus history.recipient.buffer).length

/-- The condition on events: each BlockAckReq starts less than half of the ring ahead and finds
every MPDU before it dropped with an MSDU, and an MPDU fits the fragments of its sequence number
that are in the buffer. -/
def Frees (history : History) : Event → Prop
  | .qosFrame mpdu => (createReceiveBufferIfNecessary history.recipient).FitsIn mpdu
  | .blockAckReq start =>
    offset history.recipient.nextExpectedSequenceNumber start < 2048 ∧
      DropsPreceding (createReceiveBufferIfNecessary history.recipient) start

instance (history : History) (event : Event) :
    Decidable ((machine.restrict Frees).Enabled history event) :=
  match event with
  | .qosFrame mpdu => inferInstanceAs
      (Decidable (True ∧ (createReceiveBufferIfNecessary history.recipient).FitsIn mpdu))
  | .blockAckReq _ => inferInstanceAs (Decidable (True ∧ _ < 2048 ∧ DropsPreceding _ _))

variable {history : History} {start next : SequenceNumber} {bufferSize : BitVec 10}
variable {events : List Event}

theorem Frees.admissible {event : Event} (h : history.Frees event) : history.Admissible event := by
  cases event with
  | qosFrame mpdu => exact h
  | blockAckReq start => exact ⟨h.1, h.2.leavesNone⟩

/-- In every state that a run reaches whose steps meet the condition, a BlockAckReq frees the buffer
of what is before its starting sequence number if and only if it meets the condition, too. -/
theorem freedBefore_iff_of_run
    (hrun : (machine.restrict Frees).Run (initial start bufferSize) events history)
    (hahead : offset history.recipient.nextExpectedSequenceNumber next < 2048) :
    (∃ after, machine.handle history (.blockAckReq next) = .ok after ∧ after.FreedBefore next) ↔
      DropsPreceding (createReceiveBufferIfNecessary history.recipient) next := by
  have hwindow := (invariant_of_run (hrun.restrict_mono fun _ _ ↦ Frees.admissible)).inWindow
  obtain ⟨⟨agreement, receiveBuffer⟩, received, accepted, position, passed⟩ := history
  cases receiveBuffer with
  | none => exact iff_of_true ⟨_, rfl, nofun, rfl⟩ (.inr nofun)
  | some receiveBuffer =>
    change receiveBuffer.InWindow at hwindow
    obtain ⟨released, agreement', after, hprocess, hreleases⟩ :=
      exists_released hwindow agreement hahead
    have hhandle : machine.handle
          ⟨⟨agreement, some receiveBuffer⟩, received, accepted, position, passed⟩
            (.blockAckReq next) =
        .ok (passUp ⟨⟨agreement, some receiveBuffer⟩, received, accepted, position, passed⟩ released
          ⟨agreement', some after⟩) := by
      change (processReceivedBlockAckReq ⟨agreement, some receiveBuffer⟩ next >>= _) = _
      rw [bind_of_ok hprocess]
      rfl
    rw [show createReceiveBufferIfNecessary _ = receiveBuffer from rfl,
      ← hreleases.freed_iff hwindow hahead]
    constructor
    · rintro ⟨history, hok, hfreed⟩
      obtain rfl := Except.ok.inj (hhandle.symm.trans hok)
      exact hfreed.freed
    · intro hfreed
      exact ⟨_, hhandle, hfreed, hreleases.counted hwindow⟩

/-- A request that finds a complete MSDU behind the fragments of another one. -/
theorem freedBefore_iff_of_run_dropped :
    ∃ history, (machine.restrict Frees).Run (initial 0 8)
        [.qosFrame (fragment 1 0 true), .qosFrame (fragment 2 0 false)] history ∧
      ((∃ after, machine.handle history (.blockAckReq 4) = .ok after ∧ after.FreedBefore 4) ↔
        DropsPreceding (createReceiveBufferIfNecessary history.recipient) 4) := by
  refine Machine.exists_run_imp (fun history ↦ offset history.recipient.nextExpectedSequenceNumber 4
    < 2048) (by decide +kernel) ?_
  intro history hrun hahead
  exact freedBefore_iff_of_run hrun hahead

/-- A fragment stays in the buffer when nothing is passed up, and one behind the last complete MSDU
stays when this one is. -/
theorem not_freedBefore_fragment :
    (∃ history, machine.Run (initial 0 8) [.qosFrame (fragment 1 0 true), .blockAckReq 4] history ∧
      ¬history.FreedBefore 4) ∧
    ∃ history, machine.Run (initial 0 8) [.qosFrame (fragment 1 0 false),
      .qosFrame (fragment 2 0 true), .blockAckReq 4] history ∧ ¬history.FreedBefore 4 := by
  obtain ⟨first, hfirst, it, hit, hbefore⟩ : ∃ history,
      machine.Run (initial 0 8) [.qosFrame (fragment 1 0 true), .blockAckReq 4] history ∧
        ∃ it ∈ history.recipient.buffer, ¬less it.1 4 = false :=
    Machine.exists_run_of_exec (by decide +kernel)
  obtain ⟨second, hsecond, other, hother, hbefore'⟩ : ∃ history, machine.Run (initial 0 8)
      [.qosFrame (fragment 1 0 false), .qosFrame (fragment 2 0 true), .blockAckReq 4] history ∧
        ∃ it ∈ history.recipient.buffer, ¬less it.1 4 = false :=
    Machine.exists_run_of_exec (by decide +kernel)
  exact ⟨⟨first, hfirst, fun h ↦ hbefore (h.freed it hit)⟩,
    second, hsecond, fun h ↦ hbefore' (h.freed other hother)⟩

end History

end Inet4.Ieee80211
