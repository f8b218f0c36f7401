import Inet4.AssocMap
import Mathlib.Tactic.Ring

/-!
# The simulation kernel as the modules see it

Simulation time and the self-messages of one module.  `SimTime` is the raw 64-bit count of
picoseconds behind `simtime_t`; sums and differences of times are exact.  A module owns its timer
messages: `scheduleAt` puts one into the future event set and fails when the message is already
there or when the requested time has passed, and `cancelEvent` takes it out.
-/

namespace Inet4

/-- `simtime_t`, in picoseconds. -/
abbrev SimTime := ℤ

namespace SimTime

def ofMillis (n : ℤ) : SimTime := n * 1000000000

end SimTime

/-- The ways in which handling an event ends the simulation. -/
inductive Fault
  /-- `scheduleAt` on a message that is already scheduled. -/
  | alreadyScheduled
  /-- `scheduleAt` with a time before `simTime()`. -/
  | scheduledInPast
  /-- A pointer or iterator without a target is dereferenced, or an index is out of range. -/
  | undefinedBehaviour
  /-- A `cRuntimeError`. -/
  | runtimeError
  /-- The handler is still in a loop and has not returned. -/
  | notReturned
  deriving DecidableEq, Repr

/-- The same, where it matters what the error reports: the format of a `cRuntimeError`, or the
condition of an `ASSERT`. -/
inductive SimulationError
  | runtimeError (format : String)
  | assertion (condition : String)
  | notReturned
  deriving DecidableEq, Repr

/-- The value of a wider integer converted to `int`. -/
def wrapInt (x : ℤ) : ℤ := x.bmod (2 ^ 32)

theorem wrapInt_of_lt {x : ℤ} (hx : 0 ≤ x) (hlt : x < 2 ^ 31) : wrapInt x = x := by
  have hmodulus : ((2 ^ 32 : ℕ) : ℤ) = 4294967296 := rfl
  simp only [wrapInt, Int.bmod, hmodulus]
  split <;> omega

theorem wrapInt_le {x : ℤ} (hx : 0 ≤ x) : wrapInt x ≤ x := by
  have hmodulus : ((2 ^ 32 : ℕ) : ℤ) = 4294967296 := rfl
  simp only [wrapInt, Int.bmod, hmodulus]
  split <;> omega

/-- The sum of two `int`s; an overflow is undefined. -/
def addInt (a b : ℤ) : Except Fault ℤ :=
  if -2 ^ 31 ≤ a + b ∧ a + b < 2 ^ 31 then .ok (a + b) else .error .undefinedBehaviour

theorem addInt_eq_ok {a b c : ℤ} (h : addInt a b = .ok c) : c = a + b ∧ a + b < 2 ^ 31 := by
  unfold addInt at h
  split at h
  · rename_i hbounds
    exact ⟨(Except.ok.inj h).symm, hbounds.2⟩
  · cases h

theorem addInt_of_nonneg {a b : ℤ} (ha : 0 ≤ a) (hb : 0 ≤ b) (hlt : a + b < 2 ^ 31) :
    addInt a b = .ok (a + b) :=
  if_pos ⟨by omega, hlt⟩

/-- A handler that succeeds has succeeded in its first step and in the rest of it. -/
theorem bind_eq_ok {ε α β : Type} {first : Except ε α} {rest : α → Except ε β} {b : β}
    (h : first >>= rest = .ok b) : ∃ a, first = .ok a ∧ rest a = .ok b := by
  cases first with
  | error fault => cases h
  | ok a => exact ⟨a, rfl, h⟩

/-- A handler whose last step only returns has succeeded in the step before it. -/
theorem bind_pure_eq_ok {ε α β : Type} {first : Except ε α} {result : α → β} {b : β}
    (h : (do let a ← first; pure (result a)) = .ok b) : ∃ a, first = .ok a ∧ result a = b := by
  obtain ⟨a, hfirst, hresult⟩ := bind_eq_ok h
  exact ⟨a, hfirst, Except.ok.inj hresult⟩

/-- A handler whose last step only returns fails in the step before it. -/
theorem error_of_bind_pure {ε α β : Type} {first : Except ε α} {result : α → β} {fault : ε}
    (h : (do let a ← first; pure (result a)) = .error fault) : first = .error fault := by
  cases first with
  | error fault' => exact congrArg Except.error (Except.error.inj h)
  | ok a => cases h

/-- A first step that succeeds leaves the rest of the handler. -/
theorem bind_of_ok {ε α β : Type} {first : Except ε α} {rest : α → Except ε β} {a : α}
    (h : first = .ok a) : first >>= rest = rest a := by
  rw [h]
  rfl

def assert (condition : Prop) [Decidable condition] : Except Fault Unit :=
  if condition then .ok () else .error .runtimeError

theorem assert_of {condition : Prop} [Decidable condition] (h : condition) :
    assert condition = .ok () := if_pos h

theorem of_assert {condition : Prop} [Decidable condition] {u : Unit}
    (h : assert condition = .ok u) : condition := by
  by_contra hnot
  rw [assert, if_neg hnot] at h
  cases h

/-- `if (condition) throw error;` -/
def throwIf {ε : Type} (condition : Prop) [Decidable condition] (error : ε) : Except ε Unit :=
  if condition then .error error else .ok ()

theorem of_throwIf {ε : Type} {condition : Prop} [Decidable condition] {error : ε} {u : Unit}
    (h : throwIf condition error = .ok u) : ¬condition := by
  intro hcondition
  rw [throwIf, if_pos hcondition] at h
  cases h

theorem throwIf_of_not {ε : Type} {condition : Prop} [Decidable condition] {error : ε}
    (h : ¬condition) : throwIf condition error = .ok () := if_neg h

/-- No timer message is scheduled that is already in the future event set. -/
def Disciplined {α : Type*} (result : Except Fault α) : Prop := result ≠ .error .alreadyScheduled

instance {α : Type*} (result : Except Fault α) : Decidable (Disciplined result) :=
  match result with
  | .ok _ => isTrue nofun
  | .error fault => decidable_of_iff (fault ≠ .alreadyScheduled) (by simp [Disciplined])

@[simp]
theorem disciplined_ok {α : Type*} (a : α) : Disciplined (.ok a : Except Fault α) := nofun

@[simp]
theorem disciplined_error {α : Type*} {fault : Fault} :
    Disciplined (.error fault : Except Fault α) ↔ fault ≠ .alreadyScheduled := by
  simp [Disciplined]

/-- With a disciplined first step a handler is disciplined exactly when the rest of it is. -/
theorem disciplined_bind_iff {α β : Type} {first : Except Fault α} {rest : α → Except Fault β}
    (h : Disciplined first) :
    Disciplined (first >>= rest) ↔ ∀ a, first = .ok a → Disciplined (rest a) := by
  cases first with
  | error fault =>
    simp only [reduceCtorEq, false_implies, implies_true, iff_true]
    exact disciplined_error.mpr (disciplined_error.mp h)
  | ok a =>
    simp only [Except.ok.injEq, forall_eq']
    rfl

theorem Disciplined.bind {α β : Type} {first : Except Fault α} {rest : α → Except Fault β}
    (h : Disciplined first) (hrest : ∀ a, first = .ok a → Disciplined (rest a)) :
    Disciplined (first >>= rest) :=
  (disciplined_bind_iff h).mpr hrest

/-- The timer messages of a module that are in the future event set, with their arrival times. -/
abbrev SelfMessages (Timer : Type*) := AssocMap Timer SimTime

namespace SelfMessages

variable {Timer : Type*} [DecidableEq Timer]

/-- `cSimpleModule::scheduleAt`. -/
def scheduleAt (msgs : SelfMessages Timer) (now : SimTime) (timer : Timer) (at_ : SimTime) :
    Except Fault (SelfMessages Timer) :=
  if timer ∈ msgs then .error .alreadyScheduled
  else if at_ < now then .error .scheduledInPast
  else .ok (msgs.assign timer at_)

/-- `cSimpleModule::cancelEvent`; a message that is not scheduled is left alone. -/
def cancelEvent (msgs : SelfMessages Timer) (timer : Timer) : SelfMessages Timer :=
  msgs.remove timer

variable {msgs msgs' : SelfMessages Timer} {now at_ : SimTime} {timer timer' : Timer}

theorem scheduleAt_of_notMem (h : timer ∉ msgs) (hnow : now ≤ at_) :
    msgs.scheduleAt now timer at_ = .ok (msgs.assign timer at_) := by
  simp [scheduleAt, h, Int.not_lt.mpr hnow]

theorem scheduleAt_eq_ok (h : msgs.scheduleAt now timer at_ = .ok msgs') :
    timer ∉ msgs ∧ now ≤ at_ ∧ msgs' = msgs.assign timer at_ := by
  unfold scheduleAt at h
  split at h
  · cases h
  · rename_i hfree
    split at h
    · cases h
    · rename_i hnow
      exact ⟨hfree, Int.not_lt.mp hnow, (Except.ok.inj h).symm⟩

/-- `scheduleAt` aborts the simulation exactly on a timer that is already scheduled. -/
theorem disciplined_scheduleAt (msgs : SelfMessages Timer) (now : SimTime) (timer : Timer)
    (at_ : SimTime) : Disciplined (msgs.scheduleAt now timer at_) ↔ timer ∉ msgs := by
  unfold scheduleAt
  split
  · rename_i hmem
    simp [hmem]
  · rename_i hfree
    split <;> simp [hfree]

@[simp]
theorem mem_cancelEvent : timer' ∈ msgs.cancelEvent timer ↔ timer' ≠ timer ∧ timer' ∈ msgs :=
  AssocMap.mem_remove

@[simp]
theorem find_cancelEvent :
    (msgs.cancelEvent timer).find timer' = if timer' = timer then none else msgs.find timer' :=
  AssocMap.find_remove

/-- Cancelling first is what makes rescheduling a timer safe. -/
theorem scheduleAt_cancelEvent (hnow : now ≤ at_) :
    (msgs.cancelEvent timer).scheduleAt now timer at_ =
      .ok ((msgs.cancelEvent timer).assign timer at_) :=
  scheduleAt_of_notMem (by simp) hnow

end SelfMessages

/-- A single timer message: its arrival time when it is in the future event set. -/
abbrev SelfMessage := Option SimTime

namespace SelfMessage

/-- `cSimpleModule::scheduleAt`. -/
def scheduleAt (msg : SelfMessage) (now at_ : SimTime) : Except Fault SelfMessage :=
  if msg.isSome then .error .alreadyScheduled
  else if at_ < now then .error .scheduledInPast
  else .ok (some at_)

/-- `cSimpleModule::cancelEvent`. -/
def cancelEvent (_ : SelfMessage) : SelfMessage := none

variable {msg msg' : SelfMessage} {now at_ : SimTime}

theorem scheduleAt_eq_ok (h : msg.scheduleAt now at_ = .ok msg') :
    msg = none ∧ now ≤ at_ ∧ msg' = some at_ := by
  unfold scheduleAt at h
  split at h
  · cases h
  · rename_i hfree
    split at h
    · cases h
    · rename_i hnow
      exact ⟨by simpa using hfree, Int.not_lt.mp hnow, (Except.ok.inj h).symm⟩

@[simp]
theorem scheduleAt_none (hnow : now ≤ at_) :
    SelfMessage.scheduleAt none now at_ = .ok (some at_) := by
  simp [scheduleAt, Int.not_lt.mpr hnow]

@[simp]
theorem cancelEvent_eq (msg : SelfMessage) : msg.cancelEvent = none := rfl

end SelfMessage

end Inet4
