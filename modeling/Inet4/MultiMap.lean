import Mathlib.Logic.Function.Basic

/-!
# Associative containers with equivalent keys

A container that may hold several values under one key, in the order of their insertion, as a
function from keys to the values stored under them.
-/

namespace Inet4

/-- The values stored under each key, oldest first. -/
abbrev MultiMap (K V : Type*) := K → List V

namespace MultiMap

variable {K V : Type*} [DecidableEq K]

def empty : MultiMap K V := fun _ ↦ []

variable (m : MultiMap K V)

/-- The values of a key. -/
def equalRange (k : K) : List V := m k

/-- Replace the values of a key. -/
def setRange (k : K) (values : List V) : MultiMap K V :=
  Function.update m k values

/-- Add a value behind those already stored under its key. -/
def insert (k : K) (v : V) : MultiMap K V :=
  m.setRange k (m.equalRange k ++ [v])

/-- Remove all values of a key. -/
def erase (k : K) : MultiMap K V := m.setRange k []

/-- Whether a key has a value. -/
def contains (k : K) : Bool := !(m.equalRange k).isEmpty

variable {m} {k k' : K} {v : V} {values : List V}

@[simp]
theorem equalRange_setRange :
    (m.setRange k values).equalRange k' = if k' = k then values else m.equalRange k' := by
  by_cases h : k' = k
  · subst h
    simp [equalRange, setRange]
  · simp [equalRange, setRange, h]

omit [DecidableEq K] in
theorem contains_iff : m.contains k ↔ m.equalRange k ≠ [] := by
  simp [contains]

@[simp]
theorem contains_insert : (m.insert k v).contains k' ↔ k' = k ∨ m.contains k' := by
  by_cases h : k' = k
  · simp [contains_iff, insert, h]
  · simp [contains_iff, insert, h]

@[simp]
theorem contains_erase : (m.erase k).contains k' ↔ k' ≠ k ∧ m.contains k' := by
  by_cases h : k' = k
  · simp [contains_iff, erase, h]
  · simp [contains_iff, erase, h]

omit [DecidableEq K] in
@[simp]
theorem contains_empty : (empty : MultiMap K V).contains k = false := rfl

end MultiMap

end Inet4
