import Inet4.Kernel
import Inet4.Machine
import Mathlib.Data.List.FinRange

/-!
# The weighted round robin scheduler

Each input has a bucket with tokens, and the first input with a packet and a token is served.  When
no input with a packet has a token, the buckets are filled again, each with the weight of its input,
and the first input with a packet is served out of its new tokens.
-/

namespace Inet4.Queueing

open List Function

structure WrrScheduler (Packet : Type) (n : ℕ) where
  weights : Fin n → ℤ
  buckets : Fin n → ℤ
  /-- The packets that the providers hold, the next one first. -/
  providers : Fin n → List Packet

namespace WrrScheduler

variable {Packet : Type} {n : ℕ} (scheduler : WrrScheduler Packet n) (i : Fin n)

/-- `canPopSomePacket` of a provider. -/
def canPop : Bool := !(scheduler.providers i).isEmpty

/-- `PacketSchedulerBase::canPopSomePacket`. -/
def canPopSomePacket : Bool := (finRange n).any scheduler.canPop

/-- The first loop of `schedulePacket`: the input that is served, and `isEmpty`. -/
def findToken : List (Fin n) → (isEmpty : Bool) → Option (Fin n) × Bool
  | [], isEmpty => (none, isEmpty)
  | i :: rest, isEmpty =>
    if scheduler.canPop i then
      if scheduler.buckets i > 0 then (some i, false) else findToken rest false
    else findToken rest isEmpty

/-- The second loop of `schedulePacket`: `result` and the buckets. -/
def refill : List (Fin n) → Option (Fin n) → (Fin n → ℤ) → Option (Fin n) × (Fin n → ℤ)
  | [], result, buckets => (result, buckets)
  | i :: rest, result, buckets =>
    let buckets := update buckets i (scheduler.weights i)
    if result = none ∧ buckets i > 0 ∧ scheduler.canPop i then
      refill rest (some i) (update buckets i (buckets i - 1))
    else refill rest result buckets

def schedulePacket : Option (Fin n) × WrrScheduler Packet n :=
  match scheduler.findToken (finRange n) true with
  | (some i, _) =>
    (some i, { scheduler with buckets := update scheduler.buckets i (scheduler.buckets i - 1) })
  | (none, true) => (none, scheduler)
  | (none, false) =>
    match scheduler.refill (finRange n) none scheduler.buckets with
    | (result, buckets) => (result, { scheduler with buckets := buckets })

/-- `PacketSchedulerBase::popPacket`: the input that is served and its packet. -/
def popPacket : Except Fault ((Fin n × Packet) × WrrScheduler Packet n) :=
  match scheduler.schedulePacket with
  | (none, _) => .error .runtimeError
  | (some i, scheduler) =>
    match scheduler.providers i with
    | [] => .error .undefinedBehaviour
    | packet :: rest =>
      .ok ((i, packet), { scheduler with providers := update scheduler.providers i rest })

variable {scheduler} {i} {l : List (Fin n)} {isEmpty : Bool} {buckets : Fin n → ℤ}

theorem findToken_cases (l : List (Fin n)) (isEmpty : Bool) :
    (∃ i, scheduler.findToken l isEmpty = (some i, false) ∧ scheduler.canPop i ∧
        scheduler.buckets i > 0) ∨
      scheduler.findToken l isEmpty = (none, isEmpty && !l.any scheduler.canPop) ∧
        ∀ i ∈ l, scheduler.canPop i → scheduler.buckets i ≤ 0 := by
  induction l generalizing isEmpty with
  | nil => exact .inr ⟨by simp [findToken], nofun⟩
  | cons j rest ih =>
    rw [findToken]
    by_cases hcan : scheduler.canPop j
    · rw [if_pos hcan]
      split
      · rename_i htoken
        exact .inl ⟨j, rfl, hcan, htoken⟩
      · rename_i htoken
        refine (ih false).imp_right fun ⟨hrest, hnone⟩ ↦ ⟨by simp [hrest, hcan], ?_⟩
        exact forall_mem_cons.mpr ⟨fun _ ↦ not_lt.mp htoken, hnone⟩
    · rw [if_neg hcan]
      refine (ih isEmpty).imp_right fun ⟨hrest, hnone⟩ ↦ ⟨by simp [hrest, hcan], ?_⟩
      exact forall_mem_cons.mpr ⟨fun hpop ↦ absurd hpop hcan, hnone⟩

theorem refill_some (l : List (Fin n)) (buckets : Fin n → ℤ) :
    scheduler.refill l (some i) buckets =
      (some i, fun j ↦ if j ∈ l then scheduler.weights j else buckets j) := by
  induction l generalizing buckets with
  | nil => simp [refill]
  | cons k rest ih =>
    rw [refill, if_neg (by simp), ih]
    congr 1
    funext j
    by_cases hj : j = k <;> simp [hj]

/-- With positive weights the refill serves an input with a packet, if there is one, and leaves its
bucket with one token less than its weight. -/
theorem refill_none (hweights : ∀ i, 0 < scheduler.weights i) (hnodup : l.Nodup)
    (hany : l.any scheduler.canPop) (buckets : Fin n → ℤ) :
    ∃ i, scheduler.canPop i ∧ scheduler.refill l none buckets =
      (some i, fun j ↦ if j ∈ l then update scheduler.weights i (scheduler.weights i - 1) j
        else buckets j) := by
  induction l generalizing buckets with
  | nil => cases hany
  | cons k rest ih =>
    obtain ⟨hk, hnodup⟩ := nodup_cons.mp hnodup
    rw [refill]
    by_cases hcan : scheduler.canPop k
    · refine ⟨k, hcan, ?_⟩
      rw [if_pos ⟨rfl, by simpa using hweights k, hcan⟩, refill_some]
      congr 1
      funext j
      by_cases hj : j = k
      · simp [hj, hk]
      · simp [hj]
    · obtain ⟨i, hi, hrest⟩ := ih hnodup (by simpa [hcan] using hany)
        (update buckets k (scheduler.weights k))
      refine ⟨i, hi, ?_⟩
      rw [if_neg fun h ↦ hcan h.2.2, hrest]
      congr 1
      funext j
      by_cases hj : j = k
      · have hne : k ≠ i := by
          rintro rfl
          exact hcan hi
        simp [hj, hk, hne]
      · simp [hj]

/-- A popped packet was the next one of its input, and the other inputs keep theirs. -/
def Takes (scheduler : WrrScheduler Packet n) (popped : Fin n × Packet)
    (after : WrrScheduler Packet n) : Prop :=
  ∃ rest, scheduler.providers popped.1 = popped.2 :: rest ∧
    after.providers = update scheduler.providers popped.1 rest

/-- With a packet in some input one is popped: out of a bucket with a token, or else, when no input
with a packet has a token, out of a bucket that is filled again. -/
theorem popPacket_spec (hweights : ∀ i, 0 < scheduler.weights i)
    (hcan : scheduler.canPopSomePacket) :
    ∃ i packet after, scheduler.popPacket = .ok ((i, packet), after) ∧
      scheduler.Takes (i, packet) after ∧ after.weights = scheduler.weights ∧
      ((scheduler.findToken (finRange n) true).1.isSome ∧ scheduler.buckets i > 0 ∧
          after.buckets = update scheduler.buckets i (scheduler.buckets i - 1) ∨
        (scheduler.findToken (finRange n) true).1.isSome = false ∧
          (∀ j, scheduler.canPop j → scheduler.buckets j ≤ 0) ∧
          after.buckets = update scheduler.weights i (scheduler.weights i - 1)) := by
  have hpop : ∀ i after, scheduler.schedulePacket = (some i, after) →
      after.providers = scheduler.providers → scheduler.canPop i →
      ∃ packet rest, scheduler.providers i = packet :: rest ∧ scheduler.popPacket =
        .ok ((i, packet), { after with providers := update after.providers i rest }) := by
    intro i after hschedule hproviders hi
    obtain ⟨packet, rest, hpackets⟩ : ∃ packet rest, scheduler.providers i = packet :: rest := by
      apply exists_cons_of_ne_nil
      simpa [canPop] using hi
    refine ⟨packet, rest, hpackets, ?_⟩
    simp only [popPacket, hschedule, hproviders, hpackets]
  rcases scheduler.findToken_cases (finRange n) true with ⟨i, hfind, hi, htoken⟩ | ⟨hfind, hnone⟩
  · have hschedule : scheduler.schedulePacket = (some i, { scheduler with
        buckets := update scheduler.buckets i (scheduler.buckets i - 1) }) := by
      rw [schedulePacket, hfind]
    obtain ⟨packet, rest, hpackets, hpopped⟩ := hpop i _ hschedule rfl hi
    exact ⟨i, packet, _, hpopped, ⟨rest, hpackets, rfl⟩, rfl,
      .inl ⟨by simp [hfind], htoken, rfl⟩⟩
  · have hany : (finRange n).any scheduler.canPop = true := hcan
    obtain ⟨i, hi, hrefill⟩ := refill_none hweights (nodup_finRange n) hany scheduler.buckets
    simp only [mem_finRange, if_true] at hrefill
    have hschedule : scheduler.schedulePacket = (some i, { scheduler with
        buckets := update scheduler.weights i (scheduler.weights i - 1) }) := by
      rw [schedulePacket, hfind, hany]
      simp only [Bool.not_true, Bool.and_false, hrefill]
    obtain ⟨packet, rest, hpackets, hpopped⟩ := hpop i _ hschedule rfl hi
    refine ⟨i, packet, _, hpopped, ⟨rest, hpackets, rfl⟩, rfl, .inr ⟨by simp [hfind], ?_, rfl⟩⟩
    intro j hj
    exact hnone j (mem_finRange j) hj

/-- The scheduler, the inputs that were served since the buckets were filled, and the rounds before:
the inputs that were served, and those that had packets when the buckets were filled again. -/
structure History (Packet : Type) (n : ℕ) where
  scheduler : WrrScheduler Packet n
  round : List (Fin n) := []
  rounds : List (List (Fin n) × (Fin n → Bool)) := []

inductive Event (Packet : Type) (n : ℕ)
  | arrive (i : Fin n) (packet : Packet)
  | popPacket

def Enabled (history : History Packet n) : Event Packet n → Prop
  | .arrive _ _ => True
  | .popPacket => history.scheduler.canPopSomePacket

def handle (history : History Packet n) : Event Packet n → Except Fault (History Packet n)
  | .arrive i packet =>
    let providers := history.scheduler.providers
    .ok { history with scheduler := { history.scheduler with
      providers := update providers i (providers i ++ [packet]) } }
  | .popPacket => do
    let ((i, _), scheduler) ← history.scheduler.popPacket
    if (history.scheduler.findToken (finRange n) true).1.isSome then
      return { history with scheduler := scheduler, round := history.round ++ [i] }
    else return {
      scheduler := scheduler
      round := [i]
      rounds := history.rounds ++ [(history.round, history.scheduler.canPop)] }

def machine (Packet : Type) (n : ℕ) : Machine (History Packet n) (Event Packet n) Fault where
  Enabled := Enabled
  handle := handle

/-- After `initialize`. -/
def initial (Packet : Type) (weights : Fin n → ℤ) : History Packet n where
  scheduler := { weights := weights, buckets := weights, providers := fun _ ↦ [] }

/-- No input is served more often than its weight in a round, and an input that has a packet at the
end of the round is served exactly that often. -/
def Fair (weights : Fin n → ℤ) (round : List (Fin n) × (Fin n → Bool)) : Prop :=
  ∀ i, round.1.count i ≤ weights i ∧ (round.2 i → round.1.count i = weights i)

/-- The tokens that are left in a round are those that its pops did not take. -/
structure Balanced (weights : Fin n → ℤ) (history : History Packet n) : Prop where
  weights_eq : history.scheduler.weights = weights
  bucket : ∀ i, history.scheduler.buckets i = weights i - history.round.count i
  nonneg : ∀ i, 0 ≤ history.scheduler.buckets i
  fair : ∀ round ∈ history.rounds, Fair weights round

variable {weights : Fin n → ℤ} {history after : History Packet n} {event : Event Packet n}

theorem Balanced.step (hweights : ∀ i, 0 < weights i) (h : Balanced weights history)
    (henabled : Enabled history event) :
    ∃ after, (machine Packet n).Step history event after ∧ Balanced weights after := by
  cases event with
  | arrive i packet => exact ⟨_, ⟨trivial, rfl⟩, h.weights_eq, h.bucket, h.nonneg, h.fair⟩
  | popPacket =>
    have hpositive : ∀ i, 0 < history.scheduler.weights i := by
      rw [h.weights_eq]
      exact hweights
    obtain ⟨i, packet, scheduler, hpop, -, hsame, hcases⟩ := popPacket_spec hpositive henabled
    rw [h.weights_eq] at hsame hcases
    rcases hcases with ⟨hfound, htoken, hbuckets⟩ | ⟨hfound, hnone, hbuckets⟩
    · refine ⟨{ history with scheduler := scheduler, round := history.round ++ [i] },
        ⟨henabled, ?_⟩, hsame, ?_, ?_, h.fair⟩
      · change handle history .popPacket = _
        rw [handle, bind_of_ok hpop]
        exact if_pos hfound
      · intro j
        have hbucket := h.bucket j
        simp only [hbuckets, update_apply, count_append, count_singleton]
        by_cases hj : j = i
        · subst hj
          simp
          omega
        · simp [hj, Ne.symm hj, hbucket]
      · intro j
        have hbucket := h.nonneg j
        simp only [hbuckets, update_apply]
        split
        · omega
        · exact hbucket
    · refine ⟨⟨scheduler, [i], history.rounds ++ [(history.round, history.scheduler.canPop)]⟩,
        ⟨henabled, ?_⟩, hsame, ?_, ?_, ?_⟩
      · change handle history .popPacket = _
        rw [handle, bind_of_ok hpop]
        exact if_neg (by simp [hfound])
      · intro j
        simp only [hbuckets, update_apply, count_singleton]
        by_cases hj : j = i
        · subst hj
          simp
        · simp [hj, Ne.symm hj]
      · intro j
        have hweight := hweights j
        simp only [hbuckets, update_apply]
        split
        · rename_i hj
          subst hj
          omega
        · omega
      · intro round hround
        rcases mem_append.mp hround with hround | hround
        · exact h.fair round hround
        · obtain rfl := mem_singleton.mp hround
          intro j
          have hbucket := h.bucket j
          have hleft := h.nonneg j
          constructor
          · simp only
            omega
          · intro hj
            have hempty := hnone j hj
            simp only
            omega

/-- In every run with positive weights, the next packet of an input is popped whenever there is one,
no input is served more often than its weight between two refills, and one that still has a packet
at the second refill is served exactly that often. -/
theorem fair_of_run (hweights : ∀ i, 0 < weights i) {events : List (Event Packet n)}
    (hrun : (machine Packet n).Run (initial Packet weights) events history) :
    (history.scheduler.canPopSomePacket →
        ∃ popped after, history.scheduler.popPacket = .ok (popped, after) ∧
          history.scheduler.Takes popped after) ∧
      (∀ i, history.round.count i ≤ weights i) ∧ ∀ round ∈ history.rounds, Fair weights round := by
  have hbalanced : Balanced weights history := by
    refine hrun.invariant (P := Balanced weights) ?_ ?_
    · intro before event after hbefore hstep
      obtain ⟨after', hstep', hafter⟩ := hbefore.step hweights hstep.1
      exact hstep.unique hstep' ▸ hafter
    · exact ⟨rfl, by simp [initial], fun i ↦ (hweights i).le, nofun⟩
  refine ⟨?_, ?_, hbalanced.fair⟩
  · intro hcan
    have hpositive : ∀ i, 0 < history.scheduler.weights i := by
      rw [hbalanced.weights_eq]
      exact hweights
    obtain ⟨i, packet, after, hpop, htakes, -⟩ := popPacket_spec hpositive hcan
    exact ⟨_, after, hpop, htakes⟩
  · intro i
    have hbucket := hbalanced.bucket i
    have hleft := hbalanced.nonneg i
    omega

instance (history : History Packet n) : DecidablePred ((machine Packet n).Enabled history)
  | .arrive .. => isTrue trivial
  | .popPacket => inferInstanceAs (Decidable (_ = _))

/-- The first input weighs twice as much as the second one. -/
def twoToOne (i : Fin 2) : ℤ := if i.val = 0 then 2 else 1

theorem fair_of_run_two :
    ∃ history, (machine ℕ 2).Run (initial ℕ twoToOne)
        ((range 4).flatMap (fun k ↦ [.arrive 0 k, .arrive 1 k]) ++ replicate 4 .popPacket) history ∧
      history.rounds.map Prod.fst = [[0, 0, 1]] ∧
      (∃ popped after, history.scheduler.popPacket = .ok (popped, after) ∧
        history.scheduler.Takes popped after) ∧
      ∀ round ∈ history.rounds, Fair twoToOne round := by
  obtain ⟨history, hrun, hrounds, hcan⟩ : ∃ history, (machine ℕ 2).Run (initial ℕ twoToOne)
      ((range 4).flatMap (fun k ↦ [.arrive 0 k, .arrive 1 k]) ++ replicate 4 .popPacket) history ∧
      history.rounds.map Prod.fst = [[0, 0, 1]] ∧ history.scheduler.canPopSomePacket :=
    Machine.exists_run_of_exec (by decide +kernel)
  obtain ⟨hpops, -, hfair⟩ := fair_of_run (by decide) hrun
  exact ⟨history, hrun, hrounds, hpops hcan, hfair⟩

end WrrScheduler

end Inet4.Queueing
