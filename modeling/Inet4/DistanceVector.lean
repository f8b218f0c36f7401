import Mathlib.Data.ENat.Lattice

/-!
# Distances over receiving costs

Some nodes reach a destination themselves, at a cost, and a node that hears another one reaches the
destination through it: what it pays is the cost of the other one and the cost of receiving from it.
The distance of a node is the least cost of such a path; it is infinite when there is no path.
-/

namespace Inet4

/-- The nodes that reach a destination themselves, and the nodes that hear each other. -/
structure CostNetwork (N : Type*) where
  attached : N → ℕ → Prop
  /-- The second node hears the first one. -/
  hears : N → N → ℕ → Prop

namespace CostNetwork

variable {N : Type*} (network : CostNetwork N)

/-- The costs of the paths from a node to the destination. -/
inductive PathCost : N → ℕ → Prop
  | attached {n : N} {c : ℕ} : network.attached n c → PathCost n c
  | hears {m n : N} {c d : ℕ} : PathCost m c → network.hears m n d → PathCost n (c + d)

/-- The least cost of a path. -/
noncomputable def distance (n : N) : ℕ∞ :=
  sInf ((fun c : ℕ ↦ (c : ℕ∞)) '' {c | network.PathCost n c})

variable {network} {m n : N} {c d : ℕ}

theorem distance_le_of_pathCost (h : network.PathCost n c) : network.distance n ≤ c :=
  sInf_le ⟨c, h, rfl⟩

theorem distance_le_of_attached (h : network.attached n c) : network.distance n ≤ c :=
  distance_le_of_pathCost (.attached h)

/-- A finite distance is the cost of a path. -/
theorem exists_pathCost_of_distance_le (h : network.distance n ≤ c) :
    ∃ d ≤ c, network.PathCost n d := by
  have hnonempty : ((fun c : ℕ ↦ (c : ℕ∞)) '' {c | network.PathCost n c}).Nonempty := by
    by_contra hempty
    rw [distance, Set.not_nonempty_iff_eq_empty.mp hempty, sInf_empty] at h
    exact absurd h (by simp)
  obtain ⟨d, hd, hdist⟩ := csInf_mem hnonempty
  rw [distance, ← hdist] at h
  have hle : (d : ℕ∞) ≤ c := h
  exact ⟨d, by exact_mod_cast hle, hd⟩

/-- The triangle inequality. -/
theorem distance_le_add (h : network.distance m ≤ c) (hhears : network.hears m n d) :
    network.distance n ≤ (c + d : ℕ) := by
  obtain ⟨c', hle, hpath⟩ := exists_pathCost_of_distance_le h
  calc
    network.distance n ≤ (c' + d : ℕ) := distance_le_of_pathCost (.hears hpath hhears)
    _ ≤ (c + d : ℕ) := by exact_mod_cast Nat.add_le_add_right hle d

/-- Labels that no node undercuts bound the distances from below. -/
theorem le_distance {label : N → ℕ} (hattached : ∀ n c, network.attached n c → label n ≤ c)
    (hhears : ∀ m n d, network.hears m n d → label n ≤ label m + d) (n : N) :
    (label n : ℕ∞) ≤ network.distance n := by
  have hpath (c : ℕ) (h : network.PathCost n c) : label n ≤ c := by
    induction h with
    | attached h => exact hattached _ _ h
    | hears _ h ih => exact (hhears _ _ _ h).trans (Nat.add_le_add_right ih _)
  refine le_sInf ?_
  rintro _ ⟨c, hc, rfl⟩
  exact Nat.cast_le.mpr (hpath c hc)

end CostNetwork

end Inet4
