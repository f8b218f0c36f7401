import Mathlib.Algebra.Order.Group.Defs
import Mathlib.Data.Finset.Card

/-!
# Shortest paths by relaxation

The edges of a graph with positive weights are relaxed in rounds, in any fixed order.  A label is a
limit that stands for infinity until it becomes the weight of some walk from the source.  As many
rounds as the graph has vertices, less one, make every label the least weight of a walk to its
vertex, and the recorded parents then lead back to the source along a walk of that weight.
-/

namespace Inet4.BellmanFord

open List

variable {V V' W : Type}

structure Edge (V W : Type) where
  src : V
  dest : V
  weight : W
deriving DecidableEq

/-- The same edge between renamed vertices. -/
def Edge.map (f : V → V') (e : Edge V W) : Edge V' W := ⟨f e.src, f e.dest, e.weight⟩

/-- A walk from `s`: its vertices, the last one first, and its weight. -/
inductive Walk [Zero W] [Add W] (edges : List (Edge V W)) (s : V) : List V → W → Prop
  | start : Walk edges s [s] 0
  | step {e : Edge V W} {path : List V} {w : W} (walk : Walk edges s (e.src :: path) w)
      (hmem : e ∈ edges) : Walk edges s (e.dest :: e.src :: path) (w + e.weight)

namespace Walk

section General

variable [AddCommGroup W] {edges : List (Edge V W)} {s u v : V} {path : List V} {w : W}

theorem map (f : V → V') (h : Walk edges s path w) :
    Walk (edges.map (Edge.map f)) (f s) (path.map f) w := by
  induction h with
  | start => exact .start
  | step _ hmem ih => exact .step (e := Edge.map f _) ih (mem_map_of_mem hmem)

theorem mem_of_closed {S : Finset V} (hs : s ∈ S) (hclosed : ∀ e ∈ edges, e.dest ∈ S)
    (h : Walk edges s path w) : ∀ x ∈ path, x ∈ S := by
  induction h with
  | start =>
    intro x hx
    rw [mem_singleton.mp hx]
    exact hs
  | step _ hmem ih =>
    intro x hx
    cases hx with
    | head => exact hclosed _ hmem
    | tail _ hrest => exact ih x hrest

end General

section Ordered

variable [AddCommGroup W] [LinearOrder W] [IsOrderedAddMonoid W] {edges : List (Edge V W)}
variable {s u v : V} {path : List V} {w : W} (hpos : ∀ e ∈ edges, 0 < e.weight)
include hpos

theorem nonneg (h : Walk edges s path w) : 0 ≤ w := by
  induction h with
  | start => exact le_rfl
  | step _ hmem ih => exact add_nonneg ih (hpos _ hmem).le

/-- A walk up to a vertex it comes through is not heavier. -/
theorem exists_suffix (h : Walk edges s path w) (hu : u ∈ path) :
    ∃ rest w', Walk edges s (u :: rest) w' ∧ (u :: rest) <:+ path ∧ w' ≤ w := by
  induction h with
  | start =>
    rw [mem_singleton.mp hu]
    exact ⟨[], 0, .start, suffix_rfl, le_rfl⟩
  | @step e path w hwalk hmem ih =>
    cases hu with
    | head => exact ⟨_, _, hwalk.step hmem, suffix_rfl, le_rfl⟩
    | tail _ hrest =>
      obtain ⟨rest, w', hwalk', hsuffix, hle⟩ := ih hrest
      refine ⟨rest, w', hwalk', hsuffix.trans (suffix_cons _ _), ?_⟩
      exact hle.trans (le_add_of_nonneg_right (hpos e hmem).le)

/-- Leaving out circles makes no walk heavier. -/
theorem exists_nodup (h : Walk edges s (v :: path) w) :
    ∃ rest w', Walk edges s (v :: rest) w' ∧ (v :: rest).Nodup ∧ w' ≤ w := by
  generalize hfull : v :: path = full at h
  induction h generalizing v path with
  | start =>
    cases hfull
    exact ⟨[], 0, .start, nodup_singleton s, le_rfl⟩
  | @step e path w hwalk hmem ih =>
    cases hfull
    obtain ⟨rest, w', hwalk', hnodup, hle⟩ := ih rfl
    have hweight := (hpos e hmem).le
    by_cases hcircle : e.dest ∈ e.src :: rest
    · obtain ⟨rest', w'', hwalk'', hsuffix, hle'⟩ := exists_suffix hpos hwalk' hcircle
      refine ⟨rest', w'', hwalk'', hsuffix.sublist.nodup hnodup, ?_⟩
      exact (hle'.trans hle).trans (le_add_of_nonneg_right hweight)
    · refine ⟨_, _, hwalk'.step hmem, nodup_cons.mpr ⟨hcircle, hnodup⟩, ?_⟩
      exact add_le_add_left hle e.weight

end Ordered

end Walk

structure Labels (V W : Type) where
  dist : V → W
  parent : V → Option V

namespace Labels

section Initial

variable [DecidableEq V] [AddCommGroup W] {s v : V}

/-- The label of the source is zero, every other one is the limit. -/
def initial (s : V) (limit : W) : Labels V W where
  dist v := if v = s then 0 else limit
  parent _ := none

theorem initial_dist_self (s : V) (limit : W) : (initial s limit).dist s = 0 := if_pos rfl

theorem initial_dist_of_ne (hv : v ≠ s) (limit : W) : (initial s limit).dist v = limit := if_neg hv

end Initial

section Rank

variable [LinearOrder W] {l : Labels V W} {S : Finset V} {v : V}

/-- How many vertices have smaller labels. -/
def rank (l : Labels V W) (S : Finset V) (v : V) : ℕ := (S.filter fun x ↦ l.dist x < l.dist v).card

theorem rank_lt_card (hv : v ∈ S) : l.rank S v < S.card := by
  refine Finset.card_lt_card (Finset.filter_ssubset.mpr ⟨v, hv, ?_⟩)
  exact lt_irrefl _

end Rank

variable [AddCommGroup W] [LinearOrder W]

/-- What holds of the labels before and after every relaxation. -/
structure Sound (edges : List (Edge V W)) (s : V) (limit : W)
    (l : Labels V W) : Prop where
  source_dist : l.dist s = 0
  source_parent : l.parent s = none
  le_limit : ∀ v, l.dist v ≤ limit
  attained : ∀ v, l.dist v < limit → ∃ path, Walk edges s (v :: path) (l.dist v)
  has_parent : ∀ v, v ≠ s → l.dist v < limit → ∃ u, l.parent v = some u
  parent_edge : ∀ v u, l.parent v = some u →
    ∃ e ∈ edges, e.src = u ∧ e.dest = v ∧ l.dist u + e.weight ≤ l.dist v ∧ l.dist v < limit

/-- Sound labels that no walk undercuts. -/
structure Shortest (edges : List (Edge V W)) (s : V) (limit : W) (l : Labels V W) : Prop extends
    Sound edges s limit l where
  dist_le : ∀ v path w, Walk edges s (v :: path) w → l.dist v ≤ w

variable {edges part : List (Edge V W)} {s u v : V} {limit w : W} {l : Labels V W} {e : Edge V W}

section Operations

variable [DecidableEq V]

def relax (l : Labels V W) (e : Edge V W) : Labels V W :=
  if l.dist e.src + e.weight < l.dist e.dest then
    { dist := fun v ↦ if v = e.dest then l.dist e.src + e.weight else l.dist v
      parent := fun v ↦ if v = e.dest then some e.src else l.parent v }
  else l

def round (edges : List (Edge V W)) (l : Labels V W) : Labels V W := edges.foldl relax l

def rounds (edges : List (Edge V W)) : ℕ → Labels V W → Labels V W
  | 0, l => l
  | k + 1, l => rounds edges k (round edges l)

theorem sound_initial (edges : List (Edge V W)) (s : V) (hlimit : 0 < limit) :
    (initial s limit).Sound edges s limit where
  source_dist := initial_dist_self s limit
  source_parent := rfl
  le_limit v := by
    by_cases hv : v = s
    · rw [hv, initial_dist_self]
      exact hlimit.le
    · rw [initial_dist_of_ne hv]
  attained v hlt := by
    by_cases hv : v = s
    · rw [hv, initial_dist_self]
      exact ⟨[], .start⟩
    · exact absurd hlt (initial_dist_of_ne hv limit).not_lt
  has_parent v hv hlt := absurd hlt (initial_dist_of_ne hv limit).not_lt
  parent_edge v u hparent := by cases hparent

theorem relax_of_not (h : ¬l.dist e.src + e.weight < l.dist e.dest) : l.relax e = l := if_neg h

theorem relax_dest (h : l.dist e.src + e.weight < l.dist e.dest) :
    (l.relax e).dist e.dest = l.dist e.src + e.weight ∧
      (l.relax e).parent e.dest = some e.src := by
  rw [relax, if_pos h]
  exact ⟨if_pos rfl, if_pos rfl⟩

theorem relax_of_ne (l : Labels V W) (hv : v ≠ e.dest) :
    (l.relax e).dist v = l.dist v ∧ (l.relax e).parent v = l.parent v := by
  unfold relax
  split
  · exact ⟨if_neg hv, if_neg hv⟩
  · exact ⟨rfl, rfl⟩

theorem relax_dist_le (l : Labels V W) (e : Edge V W) (v : V) : (l.relax e).dist v ≤ l.dist v := by
  by_cases hlt : l.dist e.src + e.weight < l.dist e.dest
  · by_cases hv : v = e.dest
    · rw [hv, (relax_dest hlt).1]
      exact hlt.le
    · exact (relax_of_ne l hv).1.le
  · rw [relax_of_not hlt]

theorem relax_relaxed (l : Labels V W) (e : Edge V W) :
    (l.relax e).dist e.dest ≤ l.dist e.src + e.weight := by
  by_cases hlt : l.dist e.src + e.weight < l.dist e.dest
  · exact (relax_dest hlt).1.le
  · rw [relax_of_not hlt]
    exact not_lt.mp hlt

theorem foldl_dist_le (part : List (Edge V W)) (l : Labels V W) (v : V) :
    (part.foldl relax l).dist v ≤ l.dist v := by
  induction part generalizing l with
  | nil => exact le_rfl
  | cons e rest ih => exact (ih (l.relax e)).trans (relax_dist_le l e v)

theorem rounds_succ (edges : List (Edge V W)) (k : ℕ) (l : Labels V W) :
    l.rounds edges (k + 1) = (l.rounds edges k).round edges := by
  induction k generalizing l with
  | zero => rfl
  | succ k ih => exact ih (l.round edges)

/-- A round that changes nothing is the last one that matters. -/
theorem rounds_of_fixed (hfixed : l.round edges = l) (k : ℕ) : l.rounds edges k = l := by
  induction k with
  | zero => rfl
  | succ k ih => exact (congrArg (rounds edges k) hfixed).trans ih

end Operations

variable [IsOrderedAddMonoid W]

theorem Sound.dist_nonneg (h : l.Sound edges s limit) (hpos : ∀ e ∈ edges, 0 < e.weight)
    (hlimit : 0 < limit) (v : V) : 0 ≤ l.dist v := by
  by_cases hlt : l.dist v < limit
  · obtain ⟨path, hwalk⟩ := h.attained v hlt
    exact hwalk.nonneg hpos
  · exact hlimit.le.trans (not_lt.mp hlt)

section Rounds

variable [DecidableEq V]

/-- One relaxation. -/
theorem Sound.relax (h : l.Sound edges s limit) (hpos : ∀ e ∈ edges, 0 < e.weight)
    (hlimit : 0 < limit) (hmem : e ∈ edges) : (l.relax e).Sound edges s limit := by
  by_cases hlt : l.dist e.src + e.weight < l.dist e.dest
  swap
  · rw [relax_of_not hlt]
    exact h
  have hweight := hpos e hmem
  have hsrc : l.dist e.src < l.dist e.dest := (lt_add_of_pos_right _ hweight).trans hlt
  have hloop : e.src ≠ e.dest := fun heq ↦ hsrc.ne (congrArg l.dist heq)
  have hreached : l.dist e.src < limit := hsrc.trans_le (h.le_limit e.dest)
  have hnew : l.dist e.src + e.weight < limit := hlt.trans_le (h.le_limit e.dest)
  -- the source has the least label and is never the head of such an edge
  have hsource : s ≠ e.dest := by
    intro heq
    rw [← heq, h.source_dist] at hsrc
    exact hsrc.not_ge (h.dist_nonneg hpos hlimit e.src)
  have hsame : ∀ v, v ≠ e.dest → (l.relax e).dist v = l.dist v ∧ (l.relax e).parent v =
    l.parent v :=
    fun v hv ↦ relax_of_ne l hv
  have hdest := relax_dest hlt
  constructor
  · exact (hsame s hsource).1.trans h.source_dist
  · exact (hsame s hsource).2.trans h.source_parent
  · exact fun v ↦ (relax_dist_le l e v).trans (h.le_limit v)
  · intro v hv
    by_cases hve : v = e.dest
    · obtain ⟨path, hwalk⟩ := h.attained e.src hreached
      rw [hve, hdest.1]
      exact ⟨_, hwalk.step hmem⟩
    · rw [(hsame v hve).1] at hv ⊢
      exact h.attained v hv
  · intro v hvs hv
    by_cases hve : v = e.dest
    · rw [hve]
      exact ⟨e.src, hdest.2⟩
    · rw [(hsame v hve).1] at hv
      rw [(hsame v hve).2]
      exact h.has_parent v hvs hv
  · intro v u hparent
    by_cases hve : v = e.dest
    · rw [hve, hdest.2] at hparent
      cases hparent
      rw [hve, hdest.1, (hsame e.src hloop).1]
      exact ⟨e, hmem, rfl, rfl, le_rfl, hnew⟩
    · rw [(hsame v hve).2] at hparent
      obtain ⟨e', hmem', hsrc', hdest', hle, hv⟩ := h.parent_edge v u hparent
      rw [(hsame v hve).1]
      exact ⟨e', hmem', hsrc', hdest', (add_le_add_left (relax_dist_le l e u) _).trans hle, hv⟩

theorem Sound.foldl (h : l.Sound edges s limit)
    (hpos : ∀ e ∈ edges, 0 < e.weight) (hlimit : 0 < limit) (hsub : part ⊆ edges) :
    (part.foldl Labels.relax l).Sound edges s limit := by
  induction part generalizing l with
  | nil => exact h
  | cons e rest ih =>
    obtain ⟨hmem, hrest⟩ := cons_subset.mp hsub
    exact ih (h.relax hpos hlimit hmem) hrest

theorem Sound.rounds (h : l.Sound edges s limit) (hpos : ∀ e ∈ edges, 0 < e.weight)
    (hlimit : 0 < limit) (k : ℕ) : (l.rounds edges k).Sound edges s limit := by
  induction k generalizing l with
  | zero => exact h
  | succ k ih => exact ih (h.foldl hpos hlimit (List.Subset.refl edges))

/-- After a round every edge is relaxed with respect to the labels before it. -/
theorem foldl_relaxed (part : List (Edge V W)) (l : Labels V W) (hmem : e ∈ part) :
    (part.foldl relax l).dist e.dest ≤ l.dist e.src + e.weight := by
  induction part generalizing l with
  | nil => cases hmem
  | cons first rest ih =>
    cases hmem with
    | head => exact (foldl_dist_le rest (l.relax e) e.dest).trans (relax_relaxed l e)
    | tail _ hrest =>
      exact (ih (l.relax first) hrest).trans (add_le_add_left (relax_dist_le l first e.src) _)

/-- After `k` rounds no walk of at most `k` edges is lighter than the label of its last vertex. -/
theorem rounds_dist_le {path : List V} (hsource : l.dist s ≤ 0)
    (h : Walk edges s (v :: path) w) {k : ℕ} (hlength : path.length ≤ k) :
    (l.rounds edges k).dist v ≤ w := by
  induction k generalizing v path w with
  | zero =>
    cases h with
    | start => exact hsource
    | step _ _ => cases hlength
  | succ k ih =>
    rw [rounds_succ]
    cases h with
    | start =>
      have hstart : (l.rounds edges k).dist s ≤ 0 := ih .start (Nat.zero_le k)
      exact (foldl_dist_le edges _ s).trans hstart
    | step hwalk hmem =>
      have hbefore := ih hwalk (Nat.le_of_succ_le_succ hlength)
      exact (foldl_relaxed edges _ hmem).trans (add_le_add_left hbefore _)

/-- One round less than there are vertices is enough. -/
theorem shortest_rounds {S : Finset V} (hpos : ∀ e ∈ edges, 0 < e.weight) (hlimit : 0 < limit)
    (hs : s ∈ S) (hclosed : ∀ e ∈ edges, e.dest ∈ S) :
    ((initial s limit).rounds edges (S.card - 1)).Shortest edges s limit where
  toSound := (sound_initial edges s hlimit).rounds hpos hlimit _
  dist_le v path w hwalk := by
    obtain ⟨rest, w', hwalk', hnodup, hle⟩ := hwalk.exists_nodup hpos
    have hsub : (v :: rest).toFinset ⊆ S := by
      intro x hx
      exact hwalk'.mem_of_closed hs hclosed x (mem_toFinset.mp hx)
    have hcard := Finset.card_le_card hsub
    rw [toFinset_card_of_nodup hnodup, length_cons] at hcard
    have hsource : (initial s limit).dist s ≤ 0 := (initial_dist_self s limit).le
    exact (rounds_dist_le hsource hwalk' (by omega)).trans hle

end Rounds

/-- The label of a vertex is the one of its parent and the weight of an edge between them. -/
theorem Shortest.parent_edge_eq (h : l.Shortest edges s limit) (hpos : ∀ e ∈ edges, 0 < e.weight)
    (hparent : l.parent v = some u) :
    ∃ e ∈ edges, e.src = u ∧ e.dest = v ∧ l.dist v = l.dist u + e.weight := by
  obtain ⟨e, hmem, hsrc, hdest, hle, hlt⟩ := h.parent_edge v u hparent
  have hreached : l.dist u < limit :=
    ((le_add_of_nonneg_right (hpos e hmem).le).trans hle).trans_lt hlt
  obtain ⟨path, hwalk⟩ := h.attained u hreached
  rw [← hsrc] at hwalk hle
  have hge := h.dist_le _ _ _ (hwalk.step hmem)
  rw [hdest] at hge
  rw [← hsrc]
  exact ⟨e, hmem, rfl, hdest, le_antisymm hge hle⟩

/-- A path along the parents from `v`, which stands first, to `u`. -/
inductive TreePath (l : Labels V W) (u : V) : List V → Prop
  | refl : TreePath l u [u]
  | step {v x : V} {path : List V} (hparent : l.parent v = some x)
      (rest : TreePath l u (x :: path)) : TreePath l u (v :: x :: path)

/-- A path along the parents is a walk that is as long as the labels differ. -/
theorem Shortest.walk_of_treePath {path : List V} (h : l.Shortest edges s limit)
    (hpos : ∀ e ∈ edges, 0 < e.weight) (hpath : TreePath l u (v :: path)) :
    ∃ w, Walk edges u (v :: path) w ∧ l.dist v = l.dist u + w := by
  generalize hfull : v :: path = full at hpath
  induction hpath generalizing v path with
  | refl =>
    cases hfull
    exact ⟨0, .start, (add_zero _).symm⟩
  | step hparent _ ih =>
    cases hfull
    obtain ⟨w, hwalk, hdist⟩ := ih rfl
    obtain ⟨e, hmem, hsrc, hdest, heq⟩ := h.parent_edge_eq hpos hparent
    rw [← hsrc] at hwalk heq hdist
    refine ⟨w + e.weight, ?_, ?_⟩
    · rw [← hdest, ← hsrc]
      exact hwalk.step hmem
    · rw [heq, hdist, add_assoc]

/-- The way to the source comes through ever smaller labels. -/
theorem Shortest.rank_lt {S : Finset V} (h : l.Shortest edges s limit)
    (hpos : ∀ e ∈ edges, 0 < e.weight) (hu : u ∈ S) (hparent : l.parent v = some u) :
    l.rank S u < l.rank S v := by
  obtain ⟨e, hmem, -, -, heq⟩ := h.parent_edge_eq hpos hparent
  have hlt : l.dist u < l.dist v := by
    rw [heq]
    exact lt_add_of_pos_right _ (hpos e hmem)
  apply Finset.card_lt_card
  rw [Finset.ssubset_iff_of_subset]
  · refine ⟨u, Finset.mem_filter.mpr ⟨hu, hlt⟩, ?_⟩
    exact fun hself ↦ lt_irrefl _ (Finset.mem_filter.mp hself).2
  · intro x hx
    obtain ⟨hmem, hsmall⟩ := Finset.mem_filter.mp hx
    exact Finset.mem_filter.mpr ⟨hmem, hsmall.trans hlt⟩

end Labels

end Inet4.BellmanFord
