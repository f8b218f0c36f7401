import Inet4.Fap.Host

/-!
# What the handlers of a host are made of

The handlers change the state of a host, set and cancel timers, send messages and choose addresses.
A relation between hosts that contains each of these changes (`Composes`) contains the handlers as
well, apart from the start of a host and the assignment of its address.
-/

namespace Inet4.Fap

open Except (ok)

/-- The host may enter one of the states of a configured host; its address and its timers are the
same, and nothing is assigned. -/
structure SameHost (node node' : Fap) : Prop where
  hostState : node'.hostState = node.hostState ∨ node'.hostState = .INI ∨
    node'.hostState = .STEADY ∨ node'.hostState = .MERGE
  selectedAddr : node'.selectedAddr = node.selectedAddr
  timers : node'.timers = node.timers
  assigns : ∀ addr, .assigns addr ∈ node'.log → .assigns addr ∈ node.log

/-- The relation contains what the handlers do, with the numbers that they draw. -/
structure Composes (draws : List RandNum) (R : Fap → Fap → Prop) : Prop where
  trans {node mid node' : Fap} : R node mid → R mid node' → R node node'
  same {node node' : Fap} : SameHost node node' → R node node'
  cancels (node : Fap) (timer : Timer) : timer ≠ .timerTC → R node (node.cancelEvent timer)
  schedules {node node' : Fap} {now delay : SimTime} {timer : Timer} :
    timer ≠ .startTimer → timer ≠ .timerTW → node.schedule now timer delay = .ok node' →
      R node node'
  configures2 {node node' : Fap} {now : SimTime} :
    node.initialConfigure2 now draws = .ok node' → R node node'
  configures (node : Fap) {node' : Fap} {now : SimTime} (canceled : List Timer) :
    (canceled.foldl cancelEvent node).initialConfigure now draws = .ok node' → R node node'
  yields (node : Fap) {node' : Fap} {now : SimTime} :
    ((node.cancelEvent .timerTC).cancelEvent .AreqTimer).scheduleTC now = .ok node' →
      R node { node' with selectedAddr := 1 }

variable {node node' : Fap} {now delay interval : SimTime} {timer : Timer} {head : FAPhead}
variable {draws : List RandNum} {R : Fap → Fap → Prop}

theorem SameHost.refl (node : Fap) : SameHost node node := ⟨.inl rfl, rfl, rfl, fun _ ↦ id⟩

theorem sameHost_sendToUdp (node : Fap) (head : FAPhead) : SameHost node (node.sendToUdp head) :=
  ⟨.inl rfl, rfl, rfl, fun addr hmem ↦ by simpa [sendToUdp] using hmem⟩

theorem sameHost_sendAF (node : Fap) (dest : Ipv4Address) (I R : Bool) :
    SameHost node (node.sendAF dest I R) := by
  unfold sendAF
  split <;> exact sameHost_sendToUdp node _

theorem sameHost_recordAREQ (node : Fap) (head : FAPhead) :
    SameHost node (node.recordAREQ head) := by
  obtain ⟨ipAddrRecord, hrecord⟩ := recordAREQ_eq node head
  rw [hrecord]
  exact ⟨.inl rfl, rfl, rfl, fun _ ↦ id⟩

namespace Composes

variable (hR : Composes draws R)

include hR

theorem refl (node : Fap) : R node node := hR.same (.refl node)

/-- The first change may be one that no relation sees. -/
theorem of_same (before : Fap) (h : R before node') (hsame : SameHost node before) : R node node' :=
  hR.trans (hR.same hsame) h

theorem reschedules (hTC : timer ≠ .timerTC) (hstart : timer ≠ .startTimer) (hTW : timer ≠ .timerTW)
    (h : node.reschedule now timer delay = .ok node') : R node node' :=
  hR.trans (hR.cancels node timer hTC) (hR.schedules hstart hTW h)

theorem changeToIni (h : node.changeToIni now draws = .ok node') : R node node' :=
  hR.of_same _ (hR.configures { node with hostState := .INI } [] h)
    ⟨.inr (.inl rfl), rfl, rfl, fun _ ↦ id⟩

theorem prossesHELLO (h : node.prossesHELLO now head = .ok node') : R node node' := by
  unfold Fap.prossesHELLO at h
  split at h
  · obtain rfl := ok.inj h
    refine hR.trans (hR.cancels node .timerTL (by decide)) ?_
    exact hR.of_same _ (hR.same (sameHost_sendAF { node.cancelEvent .timerTL with waitLock := true }
      _ _ _)) ⟨.inl rfl, rfl, rfl, fun _ ↦ id⟩
  split at h
  · split at h
    · obtain ⟨mid, hmid, h⟩ := bind_eq_ok h
      refine hR.trans (hR.reschedules (by decide) (by decide) (by decide) hmid) ?_
      refine hR.of_same { mid with mergeLock := true } ?_
        ⟨.inl rfl, rfl, rfl, fun _ ↦ id⟩
      dsimp only at h
      split at h
      · obtain rfl := ok.inj h
        exact hR.same (sameHost_sendAF _ _ _ _)
      · obtain rfl := ok.inj h
        exact hR.refl _
    · obtain rfl := ok.inj h
      exact hR.refl node
  · obtain rfl := ok.inj h
    exact hR.refl node

theorem prossesAREQ (h : node.prossesAREQ now head draws = .ok node') : R node node' := by
  unfold Fap.prossesAREQ at h
  split at h
  · exact hR.changeToIni h
  · unfold prossesAREQ_INI at h
    dsimp only at h
    refine hR.trans (hR.cancels node .timerTL (by decide)) ?_
    split at h
    · obtain ⟨mid, hmid, rfl⟩ := bind_pure_eq_ok h
      exact hR.yields _ hmid
    · obtain rfl := ok.inj h
      exact hR.same (sameHost_recordAREQ _ head)
  · obtain ⟨mid, hmid, h⟩ := bind_eq_ok h
    refine hR.trans (hR.reschedules (by decide) (by decide) (by decide) hmid) ?_
    split at h
    · obtain rfl := ok.inj h
      exact hR.same (sameHost_recordAREQ _ head)
    · obtain ⟨last, hlast, rfl⟩ := bind_pure_eq_ok h
      refine hR.trans (hR.reschedules (by decide) (by decide) (by decide) hlast) ?_
      exact hR.of_same _ (hR.same (sameHost_sendToUdp _ _)) (sameHost_recordAREQ _ head)
  · unfold prossesAREQ_MERGE at h
    split at h
    · obtain rfl := ok.inj h
      exact hR.same (sameHost_recordAREQ _ head)
    · obtain ⟨mid, hmid, rfl⟩ := bind_pure_eq_ok h
      refine hR.trans (hR.reschedules (by decide) (by decide) (by decide) hmid) ?_
      exact hR.of_same _ (hR.same (sameHost_sendToUdp _ _)) (sameHost_recordAREQ _ head)
  · obtain rfl := ok.inj h
    exact hR.refl node

theorem mergePartition {m : Bool} (h : node.mergePartition now head m = .ok node') :
    R node node' := by
  obtain ⟨f2, -, h⟩ := bind_eq_ok h
  obtain ⟨merging, hmerging, h⟩ := bind_eq_ok h
  obtain ⟨last, hlast, rfl⟩ := bind_pure_eq_ok h
  obtain ⟨filter, -, rfl⟩ := mergeFilter_eq_ok hmerging
  have hmerge : R { node.sendPartition m head with filter } last :=
    hR.reschedules (by decide) (by decide) (by decide) hlast
  have hsend : SameHost node { node.sendPartition m head with filter } :=
    ⟨.inl rfl, rfl, rfl, (sameHost_sendToUdp node _).assigns⟩
  exact hR.trans (hR.of_same _ hmerge hsend) (hR.same ⟨.inl rfl, rfl, rfl, fun _ ↦ id⟩)

theorem prossesAF (h : node.prossesAF now head draws = .ok node') : R node node' := by
  unfold Fap.prossesAF at h
  split at h
  · obtain ⟨counter, -, h⟩ := bind_eq_ok h
    obtain ⟨mid, hmid, h⟩ := bind_eq_ok h
    obtain ⟨filter, rfl⟩ := updateFilter_eq_ok hmid
    exact hR.of_same _ (hR.changeToIni h) ⟨.inr (.inl rfl), rfl, rfl, fun _ ↦ id⟩
  split at h
  · obtain rfl := ok.inj h
    exact hR.same (sameHost_sendAF _ _ _ _)
  split at h
  · have hmerge : R node ({ node with hostState := .MERGE }.cancelEvent .timerTH) :=
      hR.of_same _ (hR.cancels { node with hostState := .MERGE } .timerTH (by decide))
        ⟨.inr (.inr (.inr rfl)), rfl, rfl, fun _ ↦ id⟩
    split at h
    · exact hR.trans hmerge (hR.of_same _ (hR.mergePartition h) (sameHost_sendAF _ _ _ _))
    · exact hR.trans hmerge (hR.mergePartition h)
  · obtain rfl := ok.inj h
    exact hR.refl node

theorem prossesPARTITION (h : node.prossesPARTITION now head draws = .ok node') : R node node' := by
  unfold Fap.prossesPARTITION at h
  split at h
  · obtain ⟨first, hfirst, h⟩ := bind_eq_ok h
    obtain ⟨second, hsecond, h⟩ := bind_eq_ok h
    obtain ⟨f2, -, h⟩ := bind_eq_ok h
    obtain ⟨merging, hmerging, h⟩ := bind_eq_ok h
    obtain ⟨filter, -, rfl⟩ := mergeFilter_eq_ok hmerging
    have hmerge : R node first := hR.of_same _
      (hR.reschedules (by decide) (by decide) (by decide) hfirst)
      ⟨.inr (.inr (.inr rfl)), rfl, rfl, fun _ ↦ id⟩
    have hlocked : R first second := by
      refine hR.of_same { first with filterLock := true } ?_
        ⟨.inl rfl, rfl, rfl, fun _ ↦ id⟩
      exact hR.trans (hR.cancels _ .timerTH (by decide))
        (hR.reschedules (by decide) (by decide) (by decide) hsecond)
    refine hR.trans (hR.trans hmerge hlocked) ?_
    split at h
    · obtain ⟨found, -, h⟩ := bind_eq_ok h
      split at h
      · exact hR.of_same _ (hR.configures2 h) ⟨.inr (.inl rfl), rfl, rfl, fun _ ↦ id⟩
      · obtain rfl := ok.inj h
        exact hR.same ⟨.inl rfl, rfl, rfl, fun _ ↦ id⟩
    · obtain rfl := ok.inj h
      exact hR.same ⟨.inl rfl, rfl, rfl, fun _ ↦ id⟩
  · obtain rfl := ok.inj h
    exact hR.refl node

theorem prossesFAPmessage (h : node.prossesFAPmessage now head draws = .ok node') :
    R node node' := by
  unfold Fap.prossesFAPmessage at h
  split at h
  · exact hR.prossesHELLO h
  · exact hR.prossesAREQ h
  · exact hR.prossesAF h
  · exact hR.prossesPARTITION h

theorem handleTimer (hstart : timer ≠ .startTimer) (hTW : timer ≠ .timerTW)
    (h : node.handleTimer now timer draws interval = .ok node') : R node node' := by
  cases timer with
  | timerTL => exact hR.trans (hR.cancels node .timerTL (by decide)) (hR.changeToIni h)
  | timerTP =>
    obtain rfl := ok.inj h
    exact hR.trans (hR.cancels node .timerTP (by decide)) (hR.same ⟨.inl rfl, rfl, rfl, fun _ ↦ id⟩)
  | timerTW => exact absurd rfl hTW
  | timerTH =>
    refine hR.trans (hR.cancels node .timerTH (by decide)) ?_
    change (node.cancelEvent .timerTH).handleTH now interval = _ at h
    unfold handleTH at h
    split at h
    · obtain ⟨mid, hmid, rfl⟩ := bind_pure_eq_ok h
      exact hR.trans (hR.reschedules (by decide) (by decide) (by decide) hmid)
        (hR.same (sameHost_sendToUdp _ _))
    · obtain rfl := ok.inj h
      exact hR.cancels _ .timerTH (by decide)
  | timerTC => exact hR.configures node [.timerTC, .timerTC, .AreqTimer, .timerTW] h
  | timerTS =>
    refine hR.trans (hR.cancels node .timerTS (by decide)) ?_
    obtain ⟨mid, hmid, h⟩ := bind_eq_ok h
    obtain ⟨filter, rfl⟩ := insertAll_eq_ok hmid
    obtain rfl := ok.inj h
    exact hR.same ⟨.inl rfl, rfl, rfl, fun _ ↦ id⟩
  | timerTM =>
    refine hR.trans (hR.cancels node .timerTM (by decide)) ?_
    obtain ⟨mid, hmid, h⟩ := bind_eq_ok h
    obtain ⟨filter, rfl⟩ := insertAll_eq_ok hmid
    exact hR.of_same _ (hR.reschedules (by decide) (by decide) (by decide) h)
      ⟨.inr (.inr (.inl rfl)), rfl, rfl, fun _ ↦ id⟩
  | timerTF =>
    exact hR.trans (hR.cancels node .timerTF (by decide))
      (hR.of_same _ (hR.schedules (by decide) (by decide) h) ⟨.inl rfl, rfl, rfl, fun _ ↦ id⟩)
  | startTimer => exact absurd rfl hstart
  | AreqTimer =>
    refine hR.trans (hR.cancels node .AreqTimer (by decide)) ?_
    obtain ⟨NF, -, h⟩ := bind_eq_ok h
    refine hR.of_same { node.cancelEvent .AreqTimer with NF } ?_
      ⟨.inl rfl, rfl, rfl, fun _ ↦ id⟩
    split at h
    · obtain ⟨mid, hmid, rfl⟩ := bind_pure_eq_ok h
      exact hR.trans (hR.schedules (by decide) (by decide) hmid)
        (hR.same (sameHost_sendToUdp _ _))
    · obtain rfl := ok.inj h
      exact hR.refl _
  | timerts =>
    obtain rfl := ok.inj h
    exact hR.cancels node .timerts (by decide)
  | Random =>
    obtain rfl := ok.inj h
    exact hR.cancels node .Random (by decide)

end Composes

end Inet4.Fap
