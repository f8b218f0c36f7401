import Mathlib.Combinatorics.SimpleGraph.Acyclic

/-!
# Trees given by parents

Every node of a finite set has a parent, some nodes are tops, and a node that is not a top carries
the label of its parent increased by a cost, modulo some number.  When all the costs together stay
below that number the labels cannot have wrapped around: no node is its own ancestor, every node
climbs to a top, and its label is the sum of the costs on the way.  With a single top the nodes and
their parents are a tree.
-/

namespace Inet4

namespace ParentTree

open Finset Function Nat

variable {V : Type*} {top : V → Prop} {parent : V → V} {label cost : V → ℕ} {modulus : ℕ}

/-- The label of a node that is not a top is the one of its parent increased by its cost. -/
def Labelled (top : V → Prop) (parent : V → V) (label cost : V → ℕ) (modulus : ℕ) : Prop :=
  ∀ v, ¬top v → label v = (label (parent v) + cost v) % modulus

theorem Labelled.modEq_iterate (h : Labelled top parent label cost modulus) {v : V} {n : ℕ}
    (hclimb : ∀ i < n, ¬top (parent^[i] v)) :
    label v ≡ label (parent^[n] v) + ∑ i ∈ range n, cost (parent^[i] v) [MOD modulus] := by
  induction n with
  | zero => exact ModEq.refl _
  | succ n ih =>
    have hstep : label (parent^[n] v) ≡
        label (parent^[n + 1] v) + cost (parent^[n] v) [MOD modulus] := by
      rw [h _ (hclimb n n.lt_succ_self), iterate_succ_apply']
      exact mod_modEq _ _
    calc
      label v ≡ label (parent^[n] v) + ∑ i ∈ range n, cost (parent^[i] v) [MOD modulus] :=
        ih fun i hi ↦ hclimb i (lt_succ_of_lt hi)
      _ ≡ label (parent^[n + 1] v) + cost (parent^[n] v) +
          ∑ i ∈ range n, cost (parent^[i] v) [MOD modulus] := hstep.add_right _
      _ = label (parent^[n + 1] v) + ∑ i ∈ range (n + 1), cost (parent^[i] v) := by
        rw [sum_range_succ, add_assoc, add_comm (cost _)]

variable [Fintype V]

/-- Without a top among the ancestors one of them is its own ancestor. -/
theorem exists_isPeriodicPt (parent : V → V) (v : V) :
    ∃ n k, 0 < k ∧ IsPeriodicPt parent k (parent^[n] v) := by
  obtain ⟨i, j, hne, heq⟩ := Finite.exists_ne_map_eq_of_infinite fun n : ℕ ↦ parent^[n] v
  wlog hlt : i < j generalizing i j
  · exact this j i hne.symm heq.symm (by omega)
  have hperiod : parent^[j - i] (parent^[i] v) = parent^[i] v := by
    rw [← iterate_add_apply, Nat.sub_add_cancel hlt.le]
    exact heq.symm
  exact ⟨i, j - i, Nat.sub_pos_of_lt hlt, hperiod⟩

/-- Every node climbs to a top. -/
theorem Labelled.exists_top (h : Labelled top parent label cost modulus)
    (hpos : ∀ v, ¬top v → 0 < cost v) (hsum : ∑ v, cost v < modulus) (v : V) :
    ∃ n, top (parent^[n] v) := by
  classical
  by_contra hnone
  have hclimb (n : ℕ) : ¬top (parent^[n] v) := fun htop ↦ hnone ⟨n, htop⟩
  obtain ⟨n, k, hk, hperiod⟩ := exists_isPeriodicPt parent v
  generalize hw : parent^[n] v = w at hperiod
  have hw' (i : ℕ) : ¬top (parent^[i] w) := by
    rw [← hw, ← iterate_add_apply]
    exact hclimb _
  have hcycle : 0 < minimalPeriod parent w := hperiod.minimalPeriod_pos hk
  have hmod := h.modEq_iterate (v := w) (n := minimalPeriod parent w) fun i _ ↦ hw' i
  rw [iterate_minimalPeriod] at hmod
  have hzero : 0 ≡ ∑ i ∈ range (minimalPeriod parent w), cost (parent^[i] w) [MOD modulus] :=
    ModEq.add_left_cancel' (label w) hmod
  have hinj : Set.InjOn (fun i ↦ parent^[i] w) (range (minimalPeriod parent w)) := by
    rw [coe_range]
    exact iterate_injOn_Iio_minimalPeriod
  have hbelow : ∑ i ∈ range (minimalPeriod parent w), cost (parent^[i] w) < modulus := by
    calc
      ∑ i ∈ range (minimalPeriod parent w), cost (parent^[i] w) =
          ∑ u ∈ (range (minimalPeriod parent w)).image fun i ↦ parent^[i] w, cost u :=
        (sum_image hinj).symm
      _ ≤ ∑ u, cost u := sum_le_sum_of_subset (subset_univ _)
      _ < modulus := hsum
  have habove : 0 < ∑ i ∈ range (minimalPeriod parent w), cost (parent^[i] w) :=
    sum_pos (fun i _ ↦ hpos _ (hw' i)) (nonempty_range_iff.mpr hcycle.ne')
  have heq := ModEq.eq_of_lt_of_lt hzero (habove.trans hbelow) hbelow
  omega

omit [Fintype V] in
open Classical in
/-- The number of steps from a node to the nearest top among its ancestors. -/
noncomputable def depth (hclimb : ∀ v, ∃ n, top (parent^[n] v)) (v : V) : ℕ :=
  Nat.find (hclimb v)

section depth

variable (hclimb : ∀ v, ∃ n, top (parent^[n] v)) {v : V}

omit [Fintype V]

theorem depth_eq_zero_iff : depth hclimb v = 0 ↔ top v := by
  classical
  exact Nat.find_eq_zero (hclimb v)

theorem depth_of_not_top (h : ¬top v) : depth hclimb v = depth hclimb (parent v) + 1 := by
  classical
  exact Nat.find_comp_succ (hclimb v) (hclimb (parent v)) h

end depth

/-- The label of a node is the sum of the costs of the nodes on its way to the top. -/
theorem Labelled.exists_path (h : Labelled top parent label cost modulus)
    (hzero : ∀ v, top v → label v = 0) (hsum : ∑ v, cost v < modulus)
    (hclimb : ∀ v, ∃ n, top (parent^[n] v)) (v : V) :
    ∃ path : Finset V, (∀ u ∈ path, ¬top u ∧ depth hclimb u ≤ depth hclimb v) ∧
      label v = ∑ u ∈ path, cost u := by
  classical
  induction hdepth : depth hclimb v generalizing v with
  | zero =>
    have htop : top v := (depth_eq_zero_iff hclimb).mp hdepth
    exact ⟨∅, fun u hu ↦ absurd hu (notMem_empty u), hzero v htop⟩
  | succ n ih =>
    have htop : ¬top v := by
      rw [← depth_eq_zero_iff hclimb, hdepth]
      exact n.succ_ne_zero
    have hparent : depth hclimb (parent v) = n := by
      rw [depth_of_not_top hclimb htop] at hdepth
      exact succ.inj hdepth
    obtain ⟨path, hpath, hlabel⟩ := ih (parent v) hparent
    have hnotMem : v ∉ path := by
      intro hv
      have hle := (hpath v hv).2
      omega
    have htotal : label (parent v) + cost v = ∑ u ∈ insert v path, cost u := by
      rw [sum_insert hnotMem, hlabel, add_comm]
    have hbelow : label (parent v) + cost v < modulus := by
      rw [htotal]
      exact (sum_le_sum_of_subset (subset_univ _)).trans_lt hsum
    refine ⟨insert v path, ?_, ?_⟩
    · intro u hu
      rcases mem_insert.mp hu with rfl | hu
      · exact ⟨htop, hdepth.le⟩
      · exact ⟨(hpath u hu).1, (hpath u hu).2.trans n.le_succ⟩
    · rw [h v htop, mod_eq_of_lt hbelow, htotal]

/-- Below the modulus the labels add up. -/
theorem Labelled.label_eq_add (h : Labelled top parent label cost modulus)
    (hzero : ∀ v, top v → label v = 0) (hpos : ∀ v, ¬top v → 0 < cost v)
    (hsum : ∑ v, cost v < modulus) {v : V} (hv : ¬top v) :
    label v = label (parent v) + cost v := by
  classical
  have hclimb := h.exists_top hpos hsum
  obtain ⟨path, hpath, hlabel⟩ := h.exists_path hzero hsum hclimb (parent v)
  have hnotMem : v ∉ path := by
    intro hmem
    have hle := (hpath v hmem).2
    have hdepth := depth_of_not_top hclimb hv
    omega
  have hbelow : label (parent v) + cost v < modulus := by
    calc
      label (parent v) + cost v = ∑ u ∈ insert v path, cost u := by
        rw [sum_insert hnotMem, hlabel, add_comm]
      _ ≤ ∑ u, cost u := sum_le_sum_of_subset (subset_univ _)
      _ < modulus := hsum
  rw [h v hv, mod_eq_of_lt hbelow]

omit [Fintype V]

/-- The nodes that are not the top, each joined to its parent. -/
def graph (root : V) (parent : V → V) : SimpleGraph V :=
  SimpleGraph.fromRel fun v w ↦ v ≠ root ∧ w = parent v

variable {root : V}

theorem graph_adj_parent (hne : ∀ v, v ≠ root → parent v ≠ v) {v : V} (hv : v ≠ root) :
    (graph root parent).Adj v (parent v) := by
  exact ⟨(hne v hv).symm, .inl ⟨hv, rfl⟩⟩

/-- When the labels decrease towards the root, the nodes and their parents are a tree. -/
theorem graph_isTree [Finite V] (hlabel : ∀ v, v ≠ root → label (parent v) < label v) :
    (graph root parent).IsTree := by
  have hne (v : V) (hv : v ≠ root) : parent v ≠ v := fun h ↦ (hlabel v hv).ne (congrArg label h)
  have hreach (v : V) : (graph root parent).Reachable v root := by
    induction hn : label v using Nat.strong_induction_on generalizing v with
    | _ n ih =>
      by_cases hv : v = root
      · rw [hv]
      · exact (graph_adj_parent hne hv).reachable.trans
          (ih _ (hn ▸ hlabel v hv) (parent v) rfl)
  have hconnected : (graph root parent).Connected :=
    { preconnected := fun v w ↦ (hreach v).trans (hreach w).symm
      nonempty := ⟨root⟩ }
  -- the edge of a node other than the root leads to its parent, and it is the edge of no other node
  let edge : {v // v ≠ root} → (graph root parent).edgeSet :=
    fun v ↦ ⟨s(v.1, parent v.1), graph_adj_parent hne v.2⟩
  have hinjective : Injective edge := by
    intro v w heq
    have hpair : s(v.1, parent v.1) = s(w.1, parent w.1) := congrArg Subtype.val heq
    rcases Sym2.eq_iff.mp hpair with ⟨hvw, -⟩ | ⟨hvw, hwv⟩
    · exact Subtype.ext hvw
    · have hv := hlabel v.1 v.2
      have hw := hlabel w.1 w.2
      rw [hwv] at hv
      rw [← hvw] at hw
      exact absurd hw hv.not_gt
  have hsurjective : Surjective edge := by
    intro ⟨e, he⟩
    induction e using Sym2.ind with
    | _ v w =>
      have hadj : (graph root parent).Adj v w := he
      rcases hadj.2 with ⟨hv, hw⟩ | ⟨hw, hv⟩
      · have heq : s(v, parent v) = s(v, w) := congrArg (s(v, ·)) hw.symm
        exact ⟨⟨v, hv⟩, Subtype.ext heq⟩
      · have heq : s(w, parent w) = s(v, w) := hv ▸ Sym2.eq_swap
        exact ⟨⟨w, hw⟩, Subtype.ext heq⟩
  have hedges : Nat.card (graph root parent).edgeSet = Nat.card {v // v ≠ root} :=
    (card_congr (Equiv.ofBijective edge ⟨hinjective, hsurjective⟩)).symm
  rw [SimpleGraph.isTree_iff_connected_and_card]
  refine ⟨hconnected, ?_⟩
  classical
  have := Fintype.ofFinite V
  rw [hedges, card_eq_fintype_card, card_eq_fintype_card, Fintype.card_subtype_compl,
    Fintype.card_subtype_eq]
  have hcard : 0 < Fintype.card V := Fintype.card_pos_iff.mpr ⟨root⟩
  omega

end ParentTree

end Inet4
