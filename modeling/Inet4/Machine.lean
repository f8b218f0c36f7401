import Mathlib.Data.List.Basic

/-!
# Event-driven machines

A component of an event-driven program owns its state and is driven by an environment that
delivers one event at a time.  Handling an event either produces the next state or faults, and a
fault ends the program.  This file supplies finite runs of such components, the induction rules
that carry an invariant from one step to a whole run, and the restriction of a component to the
events that satisfy a side condition.
-/

namespace Inet4

/-- A deterministic component.  Every choice the environment makes (arrival order, clock reading,
random draw) is part of the event. -/
structure Machine (State Event Fault : Type*) where
  /-- The events the environment may deliver in a state. -/
  Enabled : State → Event → Prop
  /-- What the component does with one event. -/
  handle : State → Event → Except Fault State

namespace Machine

variable {State Event Fault : Type*} (M : Machine State Event Fault)

/-- One delivered event, handled without a fault. -/
def Step (s : State) (e : Event) (t : State) : Prop :=
  M.Enabled s e ∧ M.handle s e = .ok t

/-- A finite run: the listed events are delivered in order and none of them faults. -/
inductive Run : State → List Event → State → Prop
  | nil (s : State) : Run s [] s
  | cons {s t u : State} {e : Event} {es : List Event} :
      M.Step s e t → Run t es u → Run s (e :: es) u

variable {M}
variable {s t u : State} {e : Event} {es fs : List Event}

theorem Step.unique (h₁ : M.Step s e t) (h₂ : M.Step s e u) : t = u := by
  have h := h₁.2.symm.trans h₂.2
  exact Except.ok.inj h

@[simp]
theorem run_nil_iff : M.Run s [] t ↔ s = t := by
  constructor
  · intro h
    cases h
    rfl
  · rintro rfl
    exact .nil s

theorem run_cons_iff : M.Run s (e :: es) u ↔ ∃ t, M.Step s e t ∧ M.Run t es u := by
  constructor
  · intro h
    cases h with
    | cons hstep hrest => exact ⟨_, hstep, hrest⟩
  · rintro ⟨t, hstep, hrest⟩
    exact .cons hstep hrest

/-- A run over a concatenation passes through a unique middle state. -/
theorem run_append_iff : M.Run s (es ++ fs) u ↔ ∃ t, M.Run s es t ∧ M.Run t fs u := by
  induction es generalizing s with
  | nil => simp
  | cons e es ih =>
    simp only [List.cons_append, run_cons_iff, ih]
    constructor
    · rintro ⟨m, hstep, t, hfirst, hsecond⟩
      exact ⟨t, ⟨m, hstep, hfirst⟩, hsecond⟩
    · rintro ⟨t, ⟨m, hstep, hfirst⟩, hsecond⟩
      exact ⟨m, hstep, t, hfirst, hsecond⟩

theorem run_singleton_iff : M.Run s [e] t ↔ M.Step s e t := by
  simp [run_cons_iff]

theorem Run.snoc (h : M.Run s es t) (hstep : M.Step t e u) : M.Run s (es ++ [e]) u :=
  run_append_iff.mpr ⟨t, h, run_singleton_iff.mpr hstep⟩

theorem Run.unique (h₁ : M.Run s es t) (h₂ : M.Run s es u) : t = u := by
  induction h₁ with
  | nil s => exact run_nil_iff.mp h₂
  | cons hstep _ ih =>
    obtain ⟨m, hstep', hrest⟩ := run_cons_iff.mp h₂
    obtain rfl := hstep.unique hstep'
    exact ih hrest

/-- A property that every step preserves holds at the end of every run. -/
theorem Run.invariant {P : State → Prop}
    (hstep : ∀ s e t, P s → M.Step s e t → P t) (hrun : M.Run s es t) (hs : P s) : P t := by
  induction hrun with
  | nil s => exact hs
  | cons hfirst _ ih => exact ih (hstep _ _ _ hs hfirst)

/-- The same rule for a property that also mentions the events delivered so far. -/
theorem Run.invariant_history {P : List Event → State → Prop}
    (hstep : ∀ es s e t, P es s → M.Step s e t → P (es ++ [e]) t)
    (hrun : M.Run s es t) (hs : P [] s) : P es t := by
  suffices h : ∀ past, P past s → P (past ++ es) t by simpa using h [] hs
  clear hs
  induction hrun with
  | nil s => intro past hpast; simpa using hpast
  | cons hfirst _ ih =>
    intro past hpast
    have hnext := ih _ (hstep _ _ _ _ hpast hfirst)
    simpa using hnext

/-- The same component, offered only the events that meet a side condition. -/
def restrict (M : Machine State Event Fault) (guard : State → Event → Prop) :
    Machine State Event Fault where
  Enabled s e := M.Enabled s e ∧ guard s e
  handle := M.handle

variable {guard : State → Event → Prop}

instance restrict.decidableEnabled [Decidable (M.Enabled s e)] [Decidable (guard s e)] :
    Decidable ((M.restrict guard).Enabled s e) :=
  inferInstanceAs (Decidable (_ ∧ _))

theorem step_restrict_iff : (M.restrict guard).Step s e t ↔ M.Step s e t ∧ guard s e := by
  simp only [Step, restrict]
  tauto

/-- A run under a side condition is one under a weaker one. -/
theorem Run.restrict_mono {guard' : State → Event → Prop}
    (hguard : ∀ s e, guard s e → guard' s e) (h : (M.restrict guard).Run s es t) :
    (M.restrict guard').Run s es t := by
  induction h with
  | nil s => exact .nil s
  | cons hstep _ ih =>
    obtain ⟨hstep, hcondition⟩ := step_restrict_iff.mp hstep
    exact .cons (step_restrict_iff.mpr ⟨hstep, hguard _ _ hcondition⟩) ih

/-- A run under a side condition is one under another that an invariant makes it imply. -/
theorem Run.restrict_of_invariant {guard' : State → Event → Prop} {P : State → Prop}
    (hguard : ∀ s e, P s → guard s e → guard' s e)
    (hstep : ∀ s e t, P s → guard s e → M.Step s e t → P t)
    (hrun : (M.restrict guard).Run s es t) (hs : P s) : (M.restrict guard').Run s es t ∧ P t := by
  induction hrun with
  | nil s => exact ⟨.nil s, hs⟩
  | cons hfirst _ ih =>
    obtain ⟨hfirst, hcondition⟩ := step_restrict_iff.mp hfirst
    obtain ⟨hrest, ht⟩ := ih (hstep _ _ _ hs hcondition hfirst)
    exact ⟨.cons (step_restrict_iff.mpr ⟨hfirst, hguard _ _ hs hcondition⟩) hrest, ht⟩

/-- The component under an observer, who keeps a record of its steps and does not influence them. -/
def observed {State Record Event Fault : Type} (M : Machine State Event Fault)
    (update : Record → State → State → Record) : Machine (State × Record) Event Fault where
  Enabled s e := M.Enabled s.1 e
  handle s e := do
    let t ← M.handle s.1 e
    return (t, update s.2 s.1 t)

section Observed

variable {State Record Event Fault : Type} {M : Machine State Event Fault}
variable {update : Record → State → State → Record} {s t : State × Record} {e : Event}
variable {es : List Event}

theorem step_observed_iff :
    (M.observed update).Step s e t ↔ M.Step s.1 e t.1 ∧ t.2 = update s.2 s.1 t.1 := by
  obtain ⟨t, record⟩ := t
  simp only [Step, observed, bind, Except.bind]
  cases M.handle s.1 e with
  | error fault => simp
  | ok next =>
    simp only [pure, Except.pure, Except.ok.injEq, Prod.mk.injEq]
    constructor
    · rintro ⟨henabled, rfl, rfl⟩
      exact ⟨⟨henabled, rfl⟩, rfl⟩
    · rintro ⟨⟨henabled, rfl⟩, rfl⟩
      exact ⟨henabled, rfl, rfl⟩

end Observed

section Exec

variable (M) [∀ s e, Decidable (M.Enabled s e)]

/-- Deliver the listed events; `none` when one of them is not enabled or faults. -/
def exec : State → List Event → Option State
  | s, [] => some s
  | s, e :: es =>
    if M.Enabled s e then
      match M.handle s e with
      | .ok t => exec t es
      | .error _ => none
    else none

variable {M}

theorem run_of_exec (h : M.exec s es = some t) : M.Run s es t := by
  induction es generalizing s with
  | nil =>
    obtain rfl := Option.some.inj h
    exact .nil s
  | cons e es ih =>
    simp only [exec] at h
    split at h
    · rename_i henabled
      split at h
      · rename_i next hnext
        exact .cons ⟨henabled, hnext⟩ (ih h)
      · cases h
    · cases h

theorem exec_of_run (h : M.Run s es t) : M.exec s es = some t := by
  induction h with
  | nil s => rfl
  | cons hstep _ ih => simp only [exec, if_pos hstep.1, hstep.2, ih]

/-- A run and a fact about its last state, both found by execution. -/
theorem exists_run_of_exec {p : State → Prop} [DecidablePred p]
    (h : (M.exec s es).any fun t ↦ decide (p t)) : ∃ t, M.Run s es t ∧ p t := by
  cases hexec : M.exec s es with
  | none =>
    rw [hexec] at h
    cases h
  | some t =>
    rw [hexec] at h
    exact ⟨t, run_of_exec hexec, of_decide_eq_true h⟩

theorem exists_run_imp (p : State → Prop) [DecidablePred p] {Q : State → Prop}
    (h : (M.exec s es).any fun t ↦ decide (p t)) (hQ : ∀ t, M.Run s es t → p t → Q t) :
    ∃ t, M.Run s es t ∧ Q t := by
  obtain ⟨t, hrun, hp⟩ := exists_run_of_exec h
  exact ⟨t, hrun, hQ t hrun hp⟩

theorem exists_run_and {p : State → Prop} [DecidablePred p] {Q : State → Prop}
    (h : (M.exec s es).any fun t ↦ decide (p t)) (hQ : ∀ t, M.Run s es t → p t → Q t) :
    ∃ t, M.Run s es t ∧ p t ∧ Q t :=
  exists_run_imp p h fun t hrun hp ↦ ⟨hp, hQ t hrun hp⟩

end Exec

end Machine

end Inet4
