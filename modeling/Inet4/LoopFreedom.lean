import Mathlib.Data.Prod.Lex

/-!
# Loop freedom by labels

The next hops of the nodes of a network towards one destination form a relation between nodes.  They
form no cycle when every node has at most one label and the labels get smaller along each next hop
that leads on.  Distance vector protocols with destination sequence numbers label a route by its
number, of which a greater one is fresher, and by its length.
-/

namespace Inet4

variable {α L : Type*}

/-- The next hops form no cycle. -/
def LoopFree (next : α → α → Prop) : Prop := ∀ a, ¬ Relation.TransGen next a a

section Labelled

variable [Preorder L] {next : α → α → Prop} {Labelled : α → L → Prop} {a b c : α}

/-- Where the labels of the nodes get smaller along next hops that lead on, they get smaller along
paths that lead on. -/
theorem exists_label_lt_of_transGen (hunique : ∀ a k l, Labelled a k → Labelled a l → k = l)
    (hlabel : ∀ a b c, next a b → next b c → ∃ k l, Labelled a k ∧ Labelled b l ∧ l < k)
    (hpath : Relation.TransGen next a b) (hnext : next b c) :
    ∃ k l, Labelled a k ∧ Labelled b l ∧ l < k := by
  induction hpath generalizing c with
  | single hstep => exact hlabel _ _ _ hstep hnext
  | tail _ hstep ih =>
    obtain ⟨k, l, hk, hl, hlt⟩ := ih hstep
    obtain ⟨l', m, hl', hm, hlt'⟩ := hlabel _ _ _ hstep hnext
    rw [hunique _ l' l hl' hl] at hlt'
    exact ⟨k, m, hk, hm, hlt'.trans hlt⟩

/-- Labels that get smaller along the next hops exclude cycles. -/
theorem loopFree_of_label (hunique : ∀ a k l, Labelled a k → Labelled a l → k = l)
    (hlabel : ∀ a b c, next a b → next b c → ∃ k l, Labelled a k ∧ Labelled b l ∧ l < k) :
    LoopFree next := by
  intro a hcycle
  obtain ⟨b, hnext, -⟩ := Relation.TransGen.head'_iff.mp hcycle
  obtain ⟨k, l, hk, hl, hlt⟩ := exists_label_lt_of_transGen hunique hlabel hcycle hnext
  rw [hunique a k l hk hl] at hlt
  exact lt_irrefl l hlt

end Labelled

/-- The label of a route: first its sequence number, then its length. -/
abbrev RouteLabel (D : Type*) := ℕᵒᵈ ×ₗ D

section RouteLabel

variable {D : Type*} [LinearOrder D] {m n : ℕ} {k l : D}

/-- Routes with greater sequence numbers come first, among them the shorter ones. -/
def routeLabel (sequenceNumber : ℕ) (length : D) : RouteLabel D :=
  toLex (OrderDual.toDual sequenceNumber, length)

theorem routeLabel_lt_iff : routeLabel m k < routeLabel n l ↔ n < m ∨ m = n ∧ k < l := by
  simp [routeLabel, Prod.Lex.toLex_lt_toLex]

end RouteLabel

end Inet4
