import Mathlib.Data.List.Basic
import Mathlib.Order.Lattice

/-!
# Vectors kept in order

A vector whose elements are compared by a rank in a linear order, with the least rank in front.
`std::upper_bound` finds the place behind all elements that do not come after a new one, so that an
insertion there keeps the order, and the first element that meets a test is one of the least.
-/

namespace Inet4.SortedVector

open List

variable {α β : Type*}

/-- Insertion at the position that `std::upper_bound` returns for a vector partitioned by
`lessThan x`. -/
def insertUpper (lessThan : α → α → Bool) (x : α) (v : List α) : List α :=
  v.takeWhile (fun y ↦ !lessThan x y) ++ x :: v.dropWhile (fun y ↦ !lessThan x y)

theorem insertUpper_perm (lessThan : α → α → Bool) (x : α) (v : List α) :
    (insertUpper lessThan x v).Perm (x :: v) := by
  have hsplit := takeWhile_append_dropWhile (p := fun y ↦ !lessThan x y) (l := v)
  have hmiddle : (insertUpper lessThan x v).Perm
      (x :: (v.takeWhile (fun y ↦ !lessThan x y) ++ v.dropWhile (fun y ↦ !lessThan x y))) :=
    perm_middle
  rwa [hsplit] at hmiddle

@[simp]
theorem mem_insertUpper {lessThan : α → α → Bool} {x y : α} {v : List α} :
    y ∈ insertUpper lessThan x v ↔ y = x ∨ y ∈ v := by
  rw [(insertUpper_perm lessThan x v).mem_iff, mem_cons]

section Rank

variable [LinearOrder β] (rank : α → β)

/-- The elements stand in the order of their ranks. -/
def InOrder (v : List α) : Prop := v.Pairwise fun x y ↦ rank x ≤ rank y

variable {rank} {v w : List α}

/-- An insertion at the upper bound keeps the order. -/
theorem InOrder.insertUpper {lessThan : α → α → Bool}
    (hrank : ∀ x y, lessThan x y = true ↔ rank x < rank y) (h : InOrder rank v) (x : α) :
    InOrder rank (insertUpper lessThan x v) := by
  induction v with
  | nil => exact pairwise_singleton _ _
  | cons y v ih =>
    have hcons := pairwise_cons.mp h
    by_cases hlt : lessThan x y = true
    · have heq : SortedVector.insertUpper lessThan x (y :: v) = x :: y :: v := by
        simp [SortedVector.insertUpper, hlt]
      rw [heq]
      have hxy := (hrank x y).mp hlt
      apply pairwise_cons.mpr ⟨_, h⟩
      intro z hz
      rcases mem_cons.mp hz with rfl | hz
      · exact hxy.le
      · exact hxy.le.trans (hcons.1 z hz)
    · have heq : SortedVector.insertUpper lessThan x (y :: v) =
          y :: SortedVector.insertUpper lessThan x v := by
        simp [SortedVector.insertUpper, hlt]
      rw [heq]
      have hyx : rank y ≤ rank x := not_lt.mp fun hxy ↦ hlt ((hrank x y).mpr hxy)
      apply pairwise_cons.mpr ⟨_, ih hcons.2⟩
      intro z hz
      rcases mem_insertUpper.mp hz with rfl | hz
      · exact hyx
      · exact hcons.1 z hz

/-- The first element that meets a test has the least rank of those that do. -/
theorem InOrder.rank_le_of_find? {p : α → Bool} {x y : α} (h : InOrder rank v)
    (hfind : v.find? p = some x) (hy : y ∈ v) (hp : p y = true) : rank x ≤ rank y := by
  induction v with
  | nil => cases hy
  | cons z v ih =>
    have hcons := pairwise_cons.mp h
    rw [find?_cons] at hfind
    split at hfind
    · obtain rfl := Option.some.inj hfind
      rcases mem_cons.mp hy with rfl | hy
      · exact le_rfl
      · exact hcons.1 y hy
    · rename_i hz
      rcases mem_cons.mp hy with rfl | hy
      · simp [hp] at hz
      · exact ih hcons.2 hfind hy

end Rank

end Inet4.SortedVector
