import Mathlib.Data.List.Basic

/-!
# Binary search

`std::lower_bound` halves the range of positions in which the first element that fails a test can
be.  On a vector whose elements meet the test up to one position and fail it from there on it
returns that position; on any other vector the result depends on the positions that were looked at.
-/

namespace Inet4.BinarySearch

variable {α : Type*} (test : α → Bool) (v : List α)

/-- The loop of `std::lower_bound` on the `length` positions from `first` on, for at most `fuel`
rounds. -/
def halve : ℕ → ℕ → ℕ → ℕ
  | 0, first, _ => first
  | fuel + 1, first, length =>
    if length = 0 then first
    else
      let half := length / 2
      match v[first + half]? with
      | none => first
      | some middle =>
        if test middle then halve fuel (first + half + 1) (length - half - 1)
        else halve fuel first half

/-- `std::lower_bound`. -/
def lowerBound : ℕ := halve test v v.length 0 v.length

/-- The elements that meet the test are those in front of a position. -/
def SplitsAt (position : ℕ) : Prop :=
  position ≤ v.length ∧ ∀ i x, v[i]? = some x → (test x = true ↔ i < position)

variable {test v} {position first length fuel : ℕ}

theorem halve_eq (hsplits : SplitsAt test v position) (hfuel : length ≤ fuel)
    (hfirst : first ≤ position) (hlast : position ≤ first + length)
    (hbound : first + length ≤ v.length) : halve test v fuel first length = position := by
  induction fuel generalizing first length with
  | zero =>
    rw [halve]
    omega
  | succ fuel ih =>
    rw [halve]
    split
    · omega
    · have hmiddle : first + length / 2 < v.length := by omega
      simp only [List.getElem?_eq_getElem hmiddle]
      have htest := hsplits.2 _ _ (List.getElem?_eq_getElem hmiddle)
      split
      · rename_i hmeets
        have hlt := htest.mp hmeets
        apply ih <;> omega
      · rename_i hfails
        have hge : ¬ first + length / 2 < position := fun hlt ↦ hfails (htest.mpr hlt)
        apply ih <;> omega

/-- On a vector that the test splits, the search returns the place of the split. -/
theorem lowerBound_eq (hsplits : SplitsAt test v position) : lowerBound test v = position := by
  apply halve_eq hsplits (Nat.le_refl _) (Nat.zero_le position)
  · rw [Nat.zero_add]
    exact hsplits.1
  · exact Nat.le_of_eq (Nat.zero_add v.length)

theorem splitsAt_append {before after : List α} (hbefore : ∀ x ∈ before, test x = true)
    (hafter : ∀ x ∈ after, test x = false) : SplitsAt test (before ++ after) before.length := by
  constructor
  · simp
  · intro i x hx
    rcases Nat.lt_or_ge i before.length with hi | hi
    · rw [List.getElem?_append_left hi] at hx
      simp [hbefore x (List.mem_of_getElem? hx), hi]
    · rw [List.getElem?_append_right hi] at hx
      simp [hafter x (List.mem_of_getElem? hx), hi]

end Inet4.BinarySearch
