import Mathlib.Data.Int.Notation
import Mathlib.Data.Option.Basic
import Mathlib.Tactic.Common

/-!
# Caches that forget by age

A learning cache stores under each key the place where the key was last seen, with the time of the
sighting.  Sightings that have reached the ageing time are no longer used, but the cache may keep
them until it comes across them.  What has been learned is described by a memory, which never
drops a sighting because of its age and notes instead whether the sighting has been young at every
moment since it was made.  A cache reflects the memory when all it stores is the last sighting of
its key, and when nothing is missing that has been young all the time.
-/

namespace Inet4

open Function Option

/-- Where a key was seen, and when. -/
structure Sighting (Place : Type*) where
  place : Place
  since : ℤ
  deriving DecidableEq, Repr

/-- A sighting at one place becomes a sighting at another one. -/
def Sighting.move {Place : Type*} [DecidableEq Place] (sighting : Sighting Place)
    (source target : Place) : Sighting Place :=
  { sighting with place := if sighting.place = source then target else sighting.place }

/-- The last sighting of a key; `kept` while it has not yet reached the ageing time. -/
structure Learned (Place : Type*) extends Sighting Place where
  kept : Bool
  deriving DecidableEq, Repr

/-- What has been learned about each key. -/
abbrev Memory (Key Place : Type*) := Key → Option (Learned Place)

namespace Memory

variable {Key Place : Type*}

/-- There is a new sighting of the key. -/
def learn [DecidableEq Key] (memory : Memory Key Place) (key : Key) (sighting : Sighting Place)
    (now ageingTime : ℤ) : Memory Key Place :=
  update memory key (some ⟨sighting, decide (now < sighting.since + ageingTime)⟩)

variable (memory : Memory Key Place)

/-- The time or the ageing time has changed. -/
def tick (now ageingTime : ℤ) : Memory Key Place := fun key ↦
  (memory key).map fun learned ↦
    { learned with kept := learned.kept && decide (now < learned.since + ageingTime) }

/-- All keys of a place are forgotten. -/
def forget [DecidableEq Place] (memory : Memory Key Place) (place : Place) : Memory Key Place :=
  fun key ↦ (memory key).filter fun learned ↦ learned.place ≠ place

/-- The keys of a place are moved to another place. -/
def redirect [DecidableEq Place] (memory : Memory Key Place) (source target : Place) :
    Memory Key Place := fun key ↦
  (memory key).map fun learned ↦
    { learned with toSighting := learned.toSighting.move source target }

/-- What a lookup may return: a place where the key was last seen and not longer ago than the
ageing time; and nothing, unless the last sighting has been young ever since. -/
def MayRecall (now ageingTime : ℤ) (key : Key) (answer : Option Place) : Prop :=
  match answer with
  | some place => ∃ learned, memory key = some learned ∧ learned.place = place ∧
      now < learned.since + ageingTime
  | none => ∀ learned, memory key = some learned → learned.kept = false

/-- Every sighting that is remembered has a property. -/
def Within (P : Key → Place → Prop) : Prop :=
  ∀ key learned, memory key = some learned → P key learned.place

/-- Sightings have been young all the time when they are young now. -/
def Definite (now ageingTime : ℤ) : Prop :=
  ∀ key learned, memory key = some learned → now < learned.since + ageingTime → learned.kept

variable {memory} {P : Key → Place → Prop} {key : Key} {place : Place}
variable {sighting : Sighting Place} {now now' ageingTime : ℤ}

/-- What is remembered of a key after a new sighting. -/
theorem learn_eq_some [DecidableEq Key] {key' : Key} {learned : Learned Place}
    (h : memory.learn key sighting now ageingTime key' = some learned) :
    (key' = key ∧ learned = ⟨sighting, decide (now < sighting.since + ageingTime)⟩) ∨
      memory key' = some learned := by
  by_cases hkey : key' = key
  · subst hkey
    rw [learn, update_self] at h
    exact Or.inl ⟨rfl, (some.inj h).symm⟩
  · rw [learn, update_of_ne hkey] at h
    exact Or.inr h

theorem within_nothing (P : Key → Place → Prop) :
    Within (fun _ ↦ none : Memory Key Place) P := by
  intro key learned hlearned
  cases hlearned

theorem Within.learn [DecidableEq Key] (h : memory.Within P) (hP : P key sighting.place) :
    (memory.learn key sighting now ageingTime).Within P := by
  intro key' learned hlearned
  obtain ⟨rfl, rfl⟩ | hbefore := learn_eq_some hlearned
  · exact hP
  · exact h key' learned hbefore

theorem Within.tick (h : memory.Within P) (now ageingTime : ℤ) :
    (memory.tick now ageingTime).Within P := by
  intro key learned hlearned
  obtain ⟨before, hbefore, rfl⟩ := map_eq_some_iff.mp hlearned
  exact h key before hbefore

theorem Within.forget [DecidableEq Place] (h : memory.Within P) (place : Place) :
    (memory.forget place).Within P := by
  intro key learned hlearned
  exact h key learned (filter_eq_some_iff.mp hlearned).1

theorem Within.redirect [DecidableEq Place] {source target : Place} (h : memory.Within P)
    (hP : ∀ key, P key source → P key target) : (memory.redirect source target).Within P := by
  intro key learned hlearned
  obtain ⟨before, hbefore, rfl⟩ := map_eq_some_iff.mp hlearned
  have hplace := h key before hbefore
  simp only [Sighting.move]
  split
  · rename_i hsource
    exact hP key (hsource ▸ hplace)
  · exact hplace

theorem definite_nothing (now ageingTime : ℤ) :
    Definite (fun _ ↦ none : Memory Key Place) now ageingTime := by
  intro key learned hlearned
  cases hlearned

theorem Definite.learn [DecidableEq Key] (h : memory.Definite now ageingTime) :
    (memory.learn key sighting now ageingTime).Definite now ageingTime := by
  intro key' learned hlearned hyoung
  obtain ⟨rfl, rfl⟩ | hbefore := learn_eq_some hlearned
  · exact decide_eq_true hyoung
  · exact h key' learned hbefore hyoung

/-- Time passes under the same ageing time. -/
theorem Definite.tick (h : memory.Definite now ageingTime) (hnow : now ≤ now') :
    (memory.tick now' ageingTime).Definite now' ageingTime := by
  intro key learned hlearned hyoung
  obtain ⟨before, hbefore, rfl⟩ := map_eq_some_iff.mp hlearned
  have hkept := h key before hbefore (Int.lt_of_le_of_lt hnow hyoung)
  exact Bool.and_eq_true_iff.mpr ⟨hkept, decide_eq_true hyoung⟩

theorem Definite.forget [DecidableEq Place] (h : memory.Definite now ageingTime) (place : Place) :
    (memory.forget place).Definite now ageingTime := by
  intro key learned hlearned
  exact h key learned (filter_eq_some_iff.mp hlearned).1

theorem Definite.redirect [DecidableEq Place] (h : memory.Definite now ageingTime)
    (source target : Place) : (memory.redirect source target).Definite now ageingTime := by
  intro key learned hlearned
  obtain ⟨before, hbefore, rfl⟩ := map_eq_some_iff.mp hlearned
  exact h key before hbefore

/-- A definite memory leaves a lookup no choice. -/
theorem Definite.mayRecall_iff (h : memory.Definite now ageingTime) (hyoung : ∀ key learned,
    memory key = some learned → learned.kept → now < learned.since + ageingTime)
    (answer : Option Place) :
    memory.MayRecall now ageingTime key answer ↔ answer = ((memory key).filter fun learned ↦
      now < learned.since + ageingTime).map fun learned ↦ learned.place := by
  cases hlearned : memory key with
  | none =>
    cases answer with
    | none =>
      simp only [filter_none, map_none, iff_true]
      intro learned hother
      rw [hlearned] at hother
      cases hother
    | some place =>
      simp only [filter_none, map_none, reduceCtorEq, iff_false]
      rintro ⟨learned, hother, -⟩
      rw [hlearned] at hother
      cases hother
  | some learned =>
    rw [filter_some]
    by_cases hnow : now < learned.since + ageingTime
    · rw [if_pos (decide_eq_true hnow), map_some]
      cases answer with
      | none =>
        simp only [reduceCtorEq, iff_false]
        intro hnone
        exact Bool.eq_false_iff.mp (hnone learned hlearned) (h key learned hlearned hnow)
      | some place =>
        rw [some.injEq]
        constructor
        · rintro ⟨other, hother, rfl, -⟩
          rw [some.inj (hlearned.symm.trans hother)]
        · rintro rfl
          exact ⟨learned, hlearned, rfl, hnow⟩
    · rw [if_neg (by simpa using hnow), map_none]
      cases answer with
      | none =>
        simp only [iff_true]
        intro other hother
        obtain rfl := some.inj (hlearned.symm.trans hother)
        rw [Bool.eq_false_iff]
        intro hkept
        exact hnow (hyoung key learned hlearned hkept)
      | some place =>
        simp only [reduceCtorEq, iff_false]
        rintro ⟨other, hother, -, hother'⟩
        obtain rfl := some.inj (hlearned.symm.trans hother)
        exact hnow hother'

end Memory

/-- What a cache stores. -/
abbrev Cache (Key Place : Type*) := Key → Option (Sighting Place)

/-- A lookup, which passes over what has reached the ageing time. -/
def Cache.retrieve {Key Place : Type*} (cache : Cache Key Place) (now ageingTime : ℤ) (key : Key) :
    Option Place :=
  ((cache key).filter fun sighting ↦ now < sighting.since + ageingTime).map Sighting.place

namespace Cache

variable {Key Place : Type*} {cache : Cache Key Place} {now ageingTime : ℤ} {key : Key}
variable {sighting : Sighting Place}

theorem retrieve_of_young (h : cache key = some sighting)
    (hyoung : now < sighting.since + ageingTime) :
    cache.retrieve now ageingTime key = some sighting.place := by
  rw [retrieve, h, filter_some, if_pos (decide_eq_true hyoung)]
  rfl

theorem retrieve_of_old (h : cache key = some sighting) (hold : sighting.since + ageingTime ≤ now) :
    cache.retrieve now ageingTime key = none := by
  rw [retrieve, h, filter_some, if_neg (by simpa using hold)]
  rfl

theorem retrieve_of_none (h : cache key = none) : cache.retrieve now ageingTime key = none := by
  rw [retrieve, h]
  rfl

end Cache

/-- The cache stores last sightings only, and all that have been young ever since. -/
structure Reflects {Key Place : Type*} (cache : Cache Key Place) (memory : Memory Key Place)
    (now ageingTime : ℤ) : Prop where
  learned_of_stored : ∀ key sighting, cache key = some sighting →
    ∃ learned, memory key = some learned ∧ learned.toSighting = sighting
  stored_of_kept : ∀ key learned, memory key = some learned → learned.kept →
    cache key = some learned.toSighting
  young_of_kept : ∀ key learned, memory key = some learned → learned.kept →
    now < learned.since + ageingTime

namespace Reflects

variable {Key Place : Type*}
variable {cache cache' : Cache Key Place} {memory : Memory Key Place}
variable {now now' ageingTime ageingTime' : ℤ}

/-- Two empty stores. -/
theorem empty (now ageingTime : ℤ) :
    Reflects (fun _ : Key ↦ none) (fun _ ↦ (none : Option (Learned Place))) now ageingTime where
  learned_of_stored _ _ h    := by cases h
  stored_of_kept    _ _ h _  := by cases h
  young_of_kept     _ _ h _  := by cases h

/-- A lookup in the cache answers from the memory. -/
theorem mayRecall (h : Reflects cache memory now ageingTime) (key : Key) :
    memory.MayRecall now ageingTime key (cache.retrieve now ageingTime key) := by
  cases hstored : cache key with
  | none =>
    rw [Cache.retrieve_of_none hstored]
    intro learned hlearned
    by_contra hkept
    have hentry := h.stored_of_kept key learned hlearned (Bool.not_eq_false _ ▸ hkept)
    rw [hstored] at hentry
    cases hentry
  | some sighting =>
    obtain ⟨learned, hlearned, rfl⟩ := h.learned_of_stored key sighting hstored
    by_cases hyoung : now < learned.since + ageingTime
    · rw [Cache.retrieve_of_young hstored hyoung]
      exact ⟨learned, hlearned, rfl, hyoung⟩
    · rw [Cache.retrieve_of_old hstored (Int.not_lt.mp hyoung)]
      intro other hother
      obtain rfl := some.inj (hlearned.symm.trans hother)
      by_contra hkept
      exact hyoung (h.young_of_kept key learned hlearned (Bool.not_eq_false _ ▸ hkept))

/-- The cache may drop what has reached the ageing time. -/
theorem prune (h : Reflects cache memory now ageingTime)
    (hsub : ∀ key sighting, cache' key = some sighting → cache key = some sighting)
    (hyoung : ∀ key sighting, cache key = some sighting → now < sighting.since + ageingTime →
      cache' key = some sighting) :
    Reflects cache' memory now ageingTime where
  learned_of_stored key sighting hstored :=
    h.learned_of_stored key sighting (hsub key sighting hstored)
  stored_of_kept key learned hlearned hkept :=
    hyoung key learned.toSighting (h.stored_of_kept key learned hlearned hkept)
      (h.young_of_kept key learned hlearned hkept)
  young_of_kept := h.young_of_kept

/-- Time passes, or the ageing time is changed. -/
theorem tick (h : Reflects cache memory now ageingTime) (now' ageingTime' : ℤ) :
    Reflects cache (memory.tick now' ageingTime') now' ageingTime' where
  learned_of_stored key sighting hstored := by
    obtain ⟨learned, hlearned, rfl⟩ := h.learned_of_stored key sighting hstored
    exact ⟨_, congrArg (Option.map _) hlearned, rfl⟩
  stored_of_kept key learned hlearned hkept := by
    obtain ⟨before, hbefore, rfl⟩ := map_eq_some_iff.mp hlearned
    exact h.stored_of_kept key before hbefore (Bool.and_eq_true_iff.mp hkept).1
  young_of_kept key learned hlearned hkept := by
    obtain ⟨before, hbefore, rfl⟩ := map_eq_some_iff.mp hlearned
    exact of_decide_eq_true (Bool.and_eq_true_iff.mp hkept).2

/-- There is a new sighting of a key. -/
theorem learn [DecidableEq Key] (h : Reflects cache memory now ageingTime) (key : Key)
    (sighting : Sighting Place) :
    Reflects (update cache key (some sighting)) (memory.learn key sighting now ageingTime)
      now ageingTime where
  learned_of_stored key' stored hstored := by
    by_cases hkey : key' = key
    · subst hkey
      rw [update_self] at hstored
      cases hstored
      exact ⟨_, update_self .., rfl⟩
    · rw [update_of_ne hkey] at hstored
      obtain ⟨learned, hlearned, hsighting⟩ := h.learned_of_stored key' stored hstored
      exact ⟨learned, (update_of_ne hkey ..).trans hlearned, hsighting⟩
  stored_of_kept key' learned hlearned hkept := by
    by_cases hkey : key' = key
    · subst hkey
      rw [Memory.learn, update_self] at hlearned
      cases hlearned
      exact update_self ..
    · rw [Memory.learn, update_of_ne hkey] at hlearned
      rw [update_of_ne hkey]
      exact h.stored_of_kept key' learned hlearned hkept
  young_of_kept key' learned hlearned hkept := by
    obtain ⟨rfl, rfl⟩ | hbefore := Memory.learn_eq_some hlearned
    · exact of_decide_eq_true hkept
    · exact h.young_of_kept key' learned hbefore hkept

variable [DecidableEq Place]

/-- The keys of a place are forgotten. -/
theorem forget (h : Reflects cache memory now ageingTime) (place : Place) :
    Reflects (fun key ↦ (cache key).filter fun sighting ↦ sighting.place ≠ place)
      (memory.forget place) now ageingTime where
  learned_of_stored key sighting hstored := by
    obtain ⟨hstored, hplace⟩ := filter_eq_some_iff.mp hstored
    obtain ⟨learned, hlearned, rfl⟩ := h.learned_of_stored key sighting hstored
    exact ⟨learned, filter_eq_some_iff.mpr ⟨hlearned, hplace⟩, rfl⟩
  stored_of_kept key learned hlearned hkept := by
    obtain ⟨hlearned, hplace⟩ := filter_eq_some_iff.mp hlearned
    exact filter_eq_some_iff.mpr ⟨h.stored_of_kept key learned hlearned hkept, hplace⟩
  young_of_kept key learned hlearned hkept :=
    h.young_of_kept key learned (filter_eq_some_iff.mp hlearned).1 hkept

/-- The keys of a place are moved to another one. -/
theorem redirect (h : Reflects cache memory now ageingTime) (source target : Place) :
    Reflects (fun key ↦ (cache key).map fun sighting ↦ sighting.move source target)
      (memory.redirect source target) now ageingTime where
  learned_of_stored key sighting hstored := by
    obtain ⟨before, hbefore, rfl⟩ := map_eq_some_iff.mp hstored
    obtain ⟨learned, hlearned, rfl⟩ := h.learned_of_stored key before hbefore
    exact ⟨_, congrArg (Option.map _) hlearned, rfl⟩
  stored_of_kept key learned hlearned hkept := by
    obtain ⟨before, hbefore, rfl⟩ := map_eq_some_iff.mp hlearned
    exact congrArg (Option.map _) (h.stored_of_kept key before hbefore hkept)
  young_of_kept key learned hlearned hkept := by
    obtain ⟨before, hbefore, rfl⟩ := map_eq_some_iff.mp hlearned
    exact h.young_of_kept key before hbefore hkept

end Reflects

end Inet4
