import Inet4.DistanceVector
import Inet4.ParentTree

/-!
# The election of a root among bridges

Bridges own ports, and links join ports of different bridges.  A bridge takes the best of what its
ports have heard for its own view of the root, except the bridges that consider themselves the root,
and a port is designated when what its bridge offers is better than what the port has heard.  When
every port that is not designated has heard the present offer of the other end of its link, and no
designated port has to learn a better offer of another designated port, the roles are those of a
spanning tree of least-cost paths.

Identifiers are compared first, then the costs, then the identifiers of the offering bridge and
port.
-/

namespace Inet4

open Finset
open SimpleGraph (fromRel_adj fromRel)

/-- Bridges, their ports, and the links between ports. -/
structure BridgeNetwork (B P : Type*) where
  owner : P → B
  peer : P → Option P
  linkCost : P → ℕ
  peer_symm : ∀ {p q}, peer p = some q → peer q = some p
  owner_ne : ∀ {p q}, peer p = some q → owner p ≠ owner q
  linkCost_pos : ∀ p, 0 < linkCost p

namespace BridgeNetwork

variable {B P : Type*} (network : BridgeNetwork B P)

/-- The bridges, joined by their links. -/
def graph : SimpleGraph B :=
  fromRel fun a b ↦ ∃ p q, network.peer p = some q ∧ network.owner p = a ∧
    network.owner q = b

/-- The costs of the paths to a bridge: every port on the way adds the cost of its link. -/
def costsTo (root : B) : CostNetwork B where
  attached b c := b = root ∧ c = 0
  hears a b c := ∃ p q, network.peer p = some q ∧ network.owner p = b ∧ network.owner q = a ∧
    network.linkCost p = c

/-- A link from a root port to a designated port. -/
def TreeLink (isRootPort designated : P → Prop) (p q : P) : Prop :=
  network.peer p = some q ∧ isRootPort p ∧ designated q

/-- The bridges, joined by the links from root ports to designated ports. -/
def treeGraph (isRootPort designated : P → Prop) : SimpleGraph B :=
  fromRel fun a b ↦ ∃ p q, network.TreeLink isRootPort designated p q ∧
    network.owner p = a ∧ network.owner q = b

/-- The roles of a spanning tree of least-cost paths to the bridge with the lowest identifier. -/
structure IsSpanningTree {ι : Type*} [LE ι] (id : B → ι) (isRoot : B → Prop)
    (isRootPort designated : P → Prop) : Prop where
  existsUnique_isRoot : ∃! b, isRoot b
  isRoot_iff : ∀ b, isRoot b ↔ ∀ b', id b ≤ id b'
  existsUnique_isRootPort : ∀ b, ¬isRoot b → ∃! p, network.owner p = b ∧ isRootPort p
  not_isRootPort : ∀ p, isRoot (network.owner p) → ¬isRootPort p
  leastCost : ∀ root, isRoot root → ∀ p, isRootPort p → ∃ q c, network.peer p = some q ∧
    (network.costsTo root).PathCost (network.owner q) c ∧
      ∀ d, (network.costsTo root).PathCost (network.owner p) d → c + network.linkCost p ≤ d
  designated_xor : ∀ p q, network.peer p = some q → Xor (designated p) (designated q)
  isTree : (network.treeGraph isRootPort designated).IsTree
  /-- Two bridges are joined by one link of the tree. -/
  treeLink_unique : ∀ p q p' q', network.TreeLink isRootPort designated p q →
    network.TreeLink isRootPort designated p' q' →
      s(network.owner p, network.owner q) = s(network.owner p', network.owner q') →
        p = p' ∧ q = q'

/-- Without ports there is only one bridge. -/
theorem isSpanningTree_of_isEmpty [IsEmpty P] [Fintype B] {ι : Type*} [Preorder ι] {id : B → ι}
    {isRoot : B → Prop} (isRootPort designated : P → Prop) (hconnected : network.graph.Connected)
    (hroot : ∀ b, isRoot b) : network.IsSpanningTree id isRoot isRootPort designated := by
  have hbot : network.graph = ⊥ := by
    ext a b
    simp [graph, fromRel_adj]
  have hsubsingleton : Subsingleton B := by
    rw [hbot] at hconnected
    exact SimpleGraph.preconnected_bot_iff_subsingleton.mp hconnected.preconnected
  have hnonempty := hconnected.nonempty
  let b : B := Classical.arbitrary B
  exact
    { existsUnique_isRoot := ⟨b, hroot b, fun b' _ ↦ Subsingleton.elim b' b⟩
      isRoot_iff := fun a ↦ ⟨fun _ b' ↦ (congrArg id (Subsingleton.elim a b')).le, fun _ ↦ hroot a⟩
      existsUnique_isRootPort := fun a ha ↦ absurd (hroot a) ha
      not_isRootPort := fun p ↦ isEmptyElim p
      leastCost := fun _ _ p ↦ isEmptyElim p
      designated_xor := fun p ↦ isEmptyElim p
      isTree := SimpleGraph.IsTree.of_subsingleton
      treeLink_unique := fun p ↦ isEmptyElim p }

end BridgeNetwork

/-- What a bridge says on a port: the root it knows of, the cost of its path to it, itself and the
port. -/
abbrev Offer (ι κ : Type*) := ι ×ₗ ℕ ×ₗ ι ×ₗ κ

namespace Offer

variable {ι κ : Type*}

def mk (root : ι) (cost : ℕ) (bridge : ι) (port : κ) : Offer ι κ :=
  toLex (root, toLex (cost, toLex (bridge, port)))

def root (offer : Offer ι κ) : ι := (ofLex offer).1

def cost (offer : Offer ι κ) : ℕ := (ofLex (ofLex offer).2).1

@[simp]
theorem root_mk (root : ι) (cost : ℕ) (bridge : ι) (port : κ) :
    (mk root cost bridge port).root = root := rfl

@[simp]
theorem cost_mk (root : ι) (cost : ℕ) (bridge : ι) (port : κ) :
    (mk root cost bridge port).cost = cost := rfl

variable [LinearOrder ι] [LinearOrder κ]

theorem root_le_of_le {a b : Offer ι κ} (h : a ≤ b) : a.root ≤ b.root := by
  rcases Prod.Lex.le_iff.mp h with hlt | ⟨heq, -⟩
  · exact hlt.le
  · exact heq.le

theorem cost_le_of_le {a b : Offer ι κ} (h : a ≤ b) (hroot : a.root = b.root) :
    a.cost ≤ b.cost := by
  rcases Prod.Lex.le_iff.mp h with hlt | ⟨-, hle⟩
  · exact absurd hroot hlt.ne
  · rcases Prod.Lex.le_iff.mp hle with hlt | ⟨heq, -⟩
    · exact hlt.le
    · exact heq.le

/-- An additional cost on both sides does not matter. -/
theorem mk_add_lt_mk_add {root root' bridge bridge' : ι} {cost cost' : ℕ} {port port' : κ} (c : ℕ) :
    mk root (cost + c) bridge port < mk root' (cost' + c) bridge' port' ↔
      mk root cost bridge port < mk root' cost' bridge' port' := by
  simp only [mk, Prod.Lex.toLex_lt_toLex, Nat.add_lt_add_iff_right, Nat.add_right_cancel_iff]

theorem mk_lt_mk_iff_of_ne {root root' bridge bridge' : ι} {cost cost' : ℕ} {port port' : κ}
    (hne : bridge ≠ bridge') :
    mk root cost bridge port < mk root' cost' bridge' port' ↔
      mk root cost bridge port ≤ mk root' cost' bridge' port' := by
  have hmk : mk root cost bridge port ≠ mk root' cost' bridge' port' := by
    intro heq
    exact hne (congrArg (fun offer : Offer ι κ ↦ (ofLex (ofLex (ofLex offer).2).2).1) heq)
  exact ⟨le_of_lt, fun hle ↦ lt_of_le_of_ne hle hmk⟩

end Offer

/-- The views and the roles of the bridges; path costs are kept modulo a number. -/
structure Election {B P : Type*} (network : BridgeNetwork B P) (ι κ : Type*) where
  id : B → ι
  portId : P → κ
  modulus : ℕ
  root : B → ι
  rootPathCost : B → ℕ
  isRoot : B → Prop
  rootPort : B → P
  designated : P → Prop
  heard : P → Offer ι κ

namespace Election

variable {B P ι κ : Type*} {network : BridgeNetwork B P} (election : Election network ι κ)

/-- What the bridge of a port offers on it, before the cost of the link. -/
def offer (p : P) : Offer ι κ :=
  .mk (election.root (network.owner p)) (election.rootPathCost (network.owner p))
    (election.id (network.owner p)) (election.portId p)

/-- What the bridge of a port offers on it, the cost of a link added. -/
def offerAt (p : P) (c : ℕ) : Offer ι κ :=
  .mk (election.root (network.owner p))
    ((election.rootPathCost (network.owner p) + c) % election.modulus)
    (election.id (network.owner p)) (election.portId p)

/-- The bridge at the other end of the root port. -/
noncomputable def parent (b : B) : B :=
  open Classical in
  if election.isRoot b then b
  else match network.peer (election.rootPort b) with
    | some q => network.owner q
    | none => b

/-- The cost of the link of the root port. -/
noncomputable def stepCost (b : B) : ℕ :=
  open Classical in
  if election.isRoot b then 0 else network.linkCost (election.rootPort b)

variable {election} in
theorem stepCost_pos {b : B} (hb : ¬election.isRoot b) : 0 < election.stepCost b := by
  rw [stepCost, if_neg hb]
  exact network.linkCost_pos _

variable [LinearOrder ι] [LinearOrder κ]

/-- The roles follow from what the ports have heard, and what they have heard is up to date. -/
structure Converged [Fintype P] : Prop where
  id_injective : Function.Injective election.id
  sum_linkCost : ∑ p, network.linkCost p < election.modulus
  root_of_isRoot : ∀ b, election.isRoot b → election.root b = election.id b
  rootPathCost_of_isRoot : ∀ b, election.isRoot b → election.rootPathCost b = 0
  designated_of_isRoot : ∀ p, election.isRoot (network.owner p) → election.designated p
  id_le_of_isRoot : ∀ p, election.isRoot (network.owner p) →
    election.id (network.owner p) ≤ (election.heard p).root
  owner_rootPort : ∀ b, ¬election.isRoot b → network.owner (election.rootPort b) = b
  not_designated_rootPort : ∀ b, ¬election.isRoot b → ¬election.designated (election.rootPort b)
  heard_rootPort_le : ∀ p, ¬election.isRoot (network.owner p) →
    election.heard (election.rootPort (network.owner p)) ≤ election.heard p
  root_eq_heard : ∀ b, ¬election.isRoot b →
    election.root b = (election.heard (election.rootPort b)).root
  rootPathCost_eq_heard : ∀ b, ¬election.isRoot b →
    election.rootPathCost b = (election.heard (election.rootPort b)).cost
  root_lt_id : ∀ b, ¬election.isRoot b → election.root b < election.id b
  designated_iff : ∀ p, ¬election.isRoot (network.owner p) →
    p ≠ election.rootPort (network.owner p) →
      (election.designated p ↔ election.offerAt p (network.linkCost p) < election.heard p)
  heard_eq : ∀ p, ¬election.designated p → ∃ q, network.peer p = some q ∧
    election.heard p = election.offerAt q (network.linkCost p)
  settled : ∀ p q, network.peer p = some q → election.designated p → election.designated q →
    ¬election.offerAt q (network.linkCost p) < election.heard p

namespace Converged

variable {election} [Fintype P] (h : election.Converged) {b : B} {p q : P}

include h

/-- The root port has heard the bridge at the other end of its link. -/
theorem exists_peer_rootPort (hb : ¬election.isRoot b) :
    ∃ q, network.peer (election.rootPort b) = some q ∧ network.owner q = election.parent b ∧
      election.heard (election.rootPort b) = election.offerAt q (election.stepCost b) := by
  obtain ⟨q, hpeer, hheard⟩ := h.heard_eq _ (h.not_designated_rootPort b hb)
  refine ⟨q, hpeer, ?_, ?_⟩
  · rw [parent, if_neg hb, hpeer]
  · rw [stepCost, if_neg hb, hheard]

theorem root_parent (hb : ¬election.isRoot b) :
    election.root (election.parent b) = election.root b := by
  obtain ⟨q, -, howner, hheard⟩ := h.exists_peer_rootPort hb
  rw [h.root_eq_heard b hb, hheard, offerAt, Offer.root_mk, howner]

theorem labelled : ParentTree.Labelled election.isRoot election.parent election.rootPathCost
    election.stepCost election.modulus := by
  intro b hb
  obtain ⟨q, -, howner, hheard⟩ := h.exists_peer_rootPort hb
  rw [h.rootPathCost_eq_heard b hb, hheard, offerAt, Offer.cost_mk, howner]

theorem injOn_rootPort : Set.InjOn election.rootPort {b | ¬election.isRoot b} := by
  intro b hb b' hb' heq
  calc
    b = network.owner (election.rootPort b) := (h.owner_rootPort b hb).symm
    _ = network.owner (election.rootPort b') := by rw [heq]
    _ = b' := h.owner_rootPort b' hb'

/-- The costs of different root ports and of one more port are below the modulus. -/
theorem sum_stepCost_add_lt {path : Finset B} (hpath : ∀ b ∈ path, ¬election.isRoot b)
    (hp : ∀ b ∈ path, p ≠ election.rootPort b) :
    ∑ b ∈ path, election.stepCost b + network.linkCost p < election.modulus := by
  classical
  have hnotMem : p ∉ path.image election.rootPort := by
    intro hmem
    obtain ⟨b, hb, heq⟩ := mem_image.mp hmem
    exact hp b hb heq.symm
  have hsum : ∑ b ∈ path, election.stepCost b =
      ∑ p ∈ path.image election.rootPort, network.linkCost p := by
    rw [sum_image fun b hb b' hb' heq ↦ h.injOn_rootPort (hpath b hb) (hpath b' hb') heq]
    apply sum_congr rfl
    intro b hb
    rw [stepCost, if_neg (hpath b hb)]
  calc
    ∑ b ∈ path, election.stepCost b + network.linkCost p =
        ∑ p ∈ insert p (path.image election.rootPort), network.linkCost p := by
      rw [sum_insert hnotMem, hsum, Nat.add_comm]
    _ ≤ ∑ p, network.linkCost p := sum_le_sum_of_subset (subset_univ _)
    _ < election.modulus := h.sum_linkCost

variable [Fintype B]

theorem sum_stepCost_lt : ∑ b, election.stepCost b < election.modulus := by
  classical
  have hsum : ∑ b, election.stepCost b =
      ∑ p ∈ (univ.filter fun b ↦ ¬election.isRoot b).image election.rootPort,
        network.linkCost p := by
    have hinj : Set.InjOn election.rootPort (univ.filter fun b ↦ ¬election.isRoot b : Finset B) :=
      fun b hb b' hb' heq ↦ h.injOn_rootPort (mem_filter.mp hb).2 (mem_filter.mp hb').2 heq
    rw [sum_image hinj, sum_filter]
    apply sum_congr rfl
    intro b _
    rw [stepCost]
    by_cases hb : election.isRoot b
    · rw [if_pos hb, if_neg (not_not.mpr hb)]
    · rw [if_neg hb, if_pos hb]
  calc
    ∑ b, election.stepCost b = _ := hsum
    _ ≤ ∑ p, network.linkCost p := sum_le_sum_of_subset (subset_univ _)
    _ < election.modulus := h.sum_linkCost

theorem rootPathCost_eq (hb : ¬election.isRoot b) :
    election.rootPathCost b = election.rootPathCost (election.parent b) + election.stepCost b :=
  h.labelled.label_eq_add h.rootPathCost_of_isRoot (fun _ ↦ stepCost_pos) h.sum_stepCost_lt hb

theorem rootPathCost_parent_lt (hb : ¬election.isRoot b) :
    election.rootPathCost (election.parent b) < election.rootPathCost b := by
  rw [h.rootPathCost_eq hb]
  exact Nat.lt_add_of_pos_right (stepCost_pos hb)

theorem exists_isRoot (b : B) : ∃ n, election.isRoot (election.parent^[n] b) :=
  h.labelled.exists_top (fun _ ↦ stepCost_pos) h.sum_stepCost_lt b

/-- The cost of a link that is not the one of a root port adds to every path cost. -/
theorem rootPathCost_add_lt (b : B) (hp : ∀ b, ¬election.isRoot b → p ≠ election.rootPort b) :
    election.rootPathCost b + network.linkCost p < election.modulus := by
  obtain ⟨path, hpath, hcost⟩ := h.labelled.exists_path h.rootPathCost_of_isRoot h.sum_stepCost_lt
    h.exists_isRoot b
  rw [hcost]
  exact h.sum_stepCost_add_lt (fun b hb ↦ (hpath b hb).1) fun b hb ↦ hp b (hpath b hb).1

omit [Fintype B] in
theorem ne_rootPort (hp : election.isRoot (network.owner p) ∨
    p ≠ election.rootPort (network.owner p))
    {b : B} (hb : ¬election.isRoot b) : p ≠ election.rootPort b := by
  intro heq
  have howner : network.owner p = b := by rw [heq, h.owner_rootPort b hb]
  rw [howner] at hp
  exact hp.elim hb fun hne ↦ hne heq

theorem offerAt_eq (hp : election.isRoot (network.owner p) ∨
    p ≠ election.rootPort (network.owner p))
    (q : P) : election.offerAt q (network.linkCost p) =
      .mk (election.root (network.owner q))
        (election.rootPathCost (network.owner q) + network.linkCost p)
        (election.id (network.owner q)) (election.portId q) := by
  rw [offerAt, Nat.mod_eq_of_lt (h.rootPathCost_add_lt _ fun _ ↦ h.ne_rootPort hp)]

/-- Offers compare as they do before the cost of a link is added. -/
theorem offerAt_lt_offerAt
    (hp : election.isRoot (network.owner p) ∨ p ≠ election.rootPort (network.owner p)) {q q' : P} :
    election.offerAt q (network.linkCost p) < election.offerAt q' (network.linkCost p) ↔
      election.offer q < election.offer q' := by
  rw [h.offerAt_eq hp, h.offerAt_eq hp, Offer.mk_add_lt_mk_add]
  rfl

omit [Fintype B] in
theorem offer_lt_iff (hpeer : network.peer p = some q) :
    election.offer q < election.offer p ↔ election.offer q ≤ election.offer p :=
  Offer.mk_lt_mk_iff_of_ne fun heq ↦ network.owner_ne hpeer (h.id_injective heq).symm

/-- The other end of the link of a port that is not designated makes the better offer. -/
theorem offer_lt_of_not_designated (hp : ¬election.designated p) (hpeer : network.peer p = some q) :
    election.offer q < election.offer p := by
  have hb : ¬election.isRoot (network.owner p) := fun hroot ↦ hp (h.designated_of_isRoot p hroot)
  by_cases hport : p = election.rootPort (network.owner p)
  · obtain ⟨q', hpeer', howner, -⟩ := h.exists_peer_rootPort hb
    obtain rfl : q = q' := Option.some.inj ((hport ▸ hpeer).symm.trans hpeer')
    have hroot := h.root_parent hb
    have hcost := h.rootPathCost_parent_lt hb
    rw [← howner] at hroot hcost
    rw [offer, offer, Offer.mk, Offer.mk, Prod.Lex.toLex_lt_toLex]
    exact .inr ⟨hroot, Prod.Lex.toLex_lt_toLex.mpr (.inl hcost)⟩
  · obtain ⟨q', hpeer', hheard⟩ := h.heard_eq p hp
    obtain rfl : q = q' := Option.some.inj (hpeer.symm.trans hpeer')
    have hnot := mt (h.designated_iff p hb hport).mpr hp
    rw [hheard, h.offerAt_lt_offerAt (.inr hport), not_lt] at hnot
    exact (h.offer_lt_iff hpeer).mpr hnot

/-- A designated port of a bridge that is not the root makes a better offer than another designated
port on its link. -/
theorem offer_lt_of_designated (hb : ¬election.isRoot (network.owner p))
    (hp : election.designated p)
    (hq : election.designated q) (hpeer : network.peer p = some q) :
    election.offer p < election.offer q := by
  have hport : p ≠ election.rootPort (network.owner p) :=
    fun heq ↦ h.not_designated_rootPort _ hb (heq ▸ hp)
  have hlt := (h.designated_iff p hb hport).mp hp
  have hle := not_lt.mp (h.settled p q hpeer hp hq)
  exact (h.offerAt_lt_offerAt (.inr hport)).mp (hlt.trans_le hle)

omit [Fintype B] in
/-- A root has heard of no better root from a designated port. -/
theorem id_le_of_isRoot_of_designated (hb : election.isRoot (network.owner p))
    (hq : election.designated q) (hpeer : network.peer p = some q) :
    election.id (network.owner p) ≤ election.root (network.owner q) := by
  have hsettled := not_lt.mp (h.settled p q hpeer (h.designated_of_isRoot p hb) hq)
  calc
    election.id (network.owner p) ≤ (election.heard p).root := h.id_le_of_isRoot p hb
    _ ≤ (election.offerAt q (network.linkCost p)).root := Offer.root_le_of_le hsettled
    _ = election.root (network.owner q) := rfl

theorem not_designated_of_isRoot (hb : election.isRoot (network.owner p))
    (hpeer : network.peer p = some q) : ¬election.designated q := by
  intro hq
  have hle := h.id_le_of_isRoot_of_designated hb hq hpeer
  have hpeer' := network.peer_symm hpeer
  by_cases hb' : election.isRoot (network.owner q)
  · have hle' := h.id_le_of_isRoot_of_designated hb' (h.designated_of_isRoot p hb) hpeer'
    rw [h.root_of_isRoot _ hb'] at hle
    rw [h.root_of_isRoot _ hb] at hle'
    exact network.owner_ne hpeer (h.id_injective (le_antisymm hle hle'))
  · have hlt := (h.offer_lt_of_designated hb' hq (h.designated_of_isRoot p hb) hpeer').le
    have hroot : election.root (network.owner q) ≤ election.root (network.owner p) :=
      Offer.root_le_of_le hlt
    have heq : election.root (network.owner q) = election.root (network.owner p) :=
      le_antisymm hroot ((h.root_of_isRoot _ hb).le.trans hle)
    have hcost : election.rootPathCost (network.owner q) ≤ election.rootPathCost
      (network.owner p) :=
      Offer.cost_le_of_le hlt heq
    have hpos := h.rootPathCost_parent_lt hb'
    rw [h.rootPathCost_of_isRoot _ hb] at hcost
    omega

theorem designated_xor (hpeer : network.peer p = some q) :
    Xor (election.designated p) (election.designated q) := by
  have hpeer' := network.peer_symm hpeer
  by_cases hp : election.designated p
  · refine .inl ⟨hp, fun hq ↦ ?_⟩
    have hb : ¬election.isRoot (network.owner p) :=
      fun hroot ↦ h.not_designated_of_isRoot hroot hpeer hq
    have hb' : ¬election.isRoot (network.owner q) :=
      fun hroot ↦ h.not_designated_of_isRoot hroot hpeer' hp
    exact lt_asymm (h.offer_lt_of_designated hb hp hq hpeer)
      (h.offer_lt_of_designated hb' hq hp hpeer')
  · refine .inr ⟨by_contra fun hq ↦ ?_, hp⟩
    exact lt_asymm (h.offer_lt_of_not_designated hp hpeer)
      (h.offer_lt_of_not_designated hq hpeer')

omit [Fintype B] in
/-- A port that is not designated has heard nothing better than the root port of its bridge. -/
theorem heard_rootPort_le_offerAt (hq : ¬election.designated q) (hpeer : network.peer q = some p) :
    election.heard (election.rootPort (network.owner q)) ≤
      election.offerAt p (network.linkCost q) := by
  have hb : ¬election.isRoot (network.owner q) := fun hroot ↦ hq (h.designated_of_isRoot q hroot)
  obtain ⟨p', hpeer', hheard⟩ := h.heard_eq q hq
  obtain rfl : p = p' := Option.some.inj (hpeer.symm.trans hpeer')
  exact (h.heard_rootPort_le q hb).trans_eq hheard

theorem root_eq_of_not_designated (hq : ¬election.designated q) (hpeer : network.peer q = some p) :
    election.root (network.owner q) = election.root (network.owner p) := by
  have hb : ¬election.isRoot (network.owner q) := fun hroot ↦ hq (h.designated_of_isRoot q hroot)
  apply le_antisymm
  · rw [h.root_eq_heard _ hb]
    exact Offer.root_le_of_le (h.heard_rootPort_le_offerAt hq hpeer)
  · exact Offer.root_le_of_le (h.offer_lt_of_not_designated hq hpeer).le

theorem root_eq_of_peer (hpeer : network.peer p = some q) :
    election.root (network.owner p) = election.root (network.owner q) := by
  rcases h.designated_xor hpeer with ⟨-, hq⟩ | ⟨-, hp⟩
  · exact (h.root_eq_of_not_designated hq (network.peer_symm hpeer)).symm
  · exact h.root_eq_of_not_designated hp hpeer

theorem root_eq_root (hconnected : network.graph.Connected) (b b' : B) :
    election.root b = election.root b' := by
  obtain ⟨walk⟩ := hconnected.preconnected b b'
  induction walk with
  | nil => rfl
  | cons hadj walk ih =>
    rcases hadj.2 with ⟨p, q, hpeer, rfl, rfl⟩ | ⟨p, q, hpeer, rfl, rfl⟩
    · exact (h.root_eq_of_peer hpeer).trans ih
    · exact (h.root_eq_of_peer hpeer).symm.trans ih

theorem eq_of_isRoot (hconnected : network.graph.Connected) {b b' : B} (hb : election.isRoot b)
    (hb' : election.isRoot b') : b = b' := by
  apply h.id_injective
  rw [← h.root_of_isRoot b hb, ← h.root_of_isRoot b' hb', h.root_eq_root hconnected b b']

theorem existsUnique_isRoot (hconnected : network.graph.Connected) : ∃! b, election.isRoot b := by
  have := hconnected.nonempty
  obtain ⟨n, hroot⟩ := h.exists_isRoot (Classical.arbitrary B)
  exact ⟨_, hroot, fun b hb ↦ h.eq_of_isRoot hconnected hb hroot⟩

theorem isRoot_iff (hconnected : network.graph.Connected) (b : B) :
    election.isRoot b ↔ ∀ b', election.id b ≤ election.id b' := by
  constructor
  · intro hb b'
    by_cases hb' : election.isRoot b'
    · rw [h.eq_of_isRoot hconnected hb hb']
    · calc
        election.id b = election.root b := (h.root_of_isRoot b hb).symm
        _ = election.root b' := h.root_eq_root hconnected b b'
        _ ≤ election.id b' := (h.root_lt_id b' hb').le
  · intro hle
    by_contra hb
    obtain ⟨top, htop, -⟩ := h.existsUnique_isRoot hconnected
    have hlt : election.id top < election.id b := by
      calc
        election.id top = election.root top := (h.root_of_isRoot top htop).symm
        _ = election.root b := h.root_eq_root hconnected top b
        _ < election.id b := h.root_lt_id b hb
    exact hlt.not_ge (hle top)

theorem rootPathCost_le_of_peer (hpeer : network.peer p = some q) :
    election.rootPathCost (network.owner p) ≤
      election.rootPathCost (network.owner q) + network.linkCost p := by
  by_cases hp : election.designated p
  · have hq : ¬election.designated q := fun hq ↦
      (h.designated_xor hpeer).elim (fun hxor ↦ hxor.2 hq) fun hxor ↦ hxor.2 hp
    have hlt := h.offer_lt_of_not_designated hq (network.peer_symm hpeer)
    have hle := Offer.cost_le_of_le hlt.le (h.root_eq_of_peer hpeer)
    exact hle.trans (Nat.le_add_right _ _)
  · have hb : ¬election.isRoot (network.owner p) := fun hroot ↦ hp (h.designated_of_isRoot p hroot)
    have hle := h.heard_rootPort_le_offerAt hp hpeer
    have hroot : (election.heard (election.rootPort (network.owner p))).root =
        (election.offerAt q (network.linkCost p)).root :=
      (h.root_eq_heard _ hb).symm.trans (h.root_eq_of_peer hpeer)
    calc
      election.rootPathCost (network.owner p) =
          (election.heard (election.rootPort (network.owner p))).cost :=
            h.rootPathCost_eq_heard _ hb
      _ ≤ (election.offerAt q (network.linkCost p)).cost := Offer.cost_le_of_le hle hroot
      _ ≤ election.rootPathCost (network.owner q) + network.linkCost p := Nat.mod_le _ _

theorem rootPathCost_le_of_pathCost {root : B} (hroot : election.isRoot root) {b : B} {c : ℕ}
    (hpath : (network.costsTo root).PathCost b c) : election.rootPathCost b ≤ c := by
  induction hpath with
  | attached hattached =>
    obtain ⟨rfl, rfl⟩ := hattached
    exact (h.rootPathCost_of_isRoot _ hroot).le
  | hears hpath hhears ih =>
    obtain ⟨p, q, hpeer, rfl, rfl, rfl⟩ := hhears
    exact (h.rootPathCost_le_of_peer hpeer).trans (Nat.add_le_add_right ih _)

theorem pathCost_rootPathCost (hconnected : network.graph.Connected) {root : B}
    (hroot : election.isRoot root) (b : B) :
    (network.costsTo root).PathCost b (election.rootPathCost b) := by
  induction hn : election.rootPathCost b using Nat.strong_induction_on generalizing b with
  | _ n ih =>
    by_cases hb : election.isRoot b
    · rw [← hn, h.rootPathCost_of_isRoot b hb, h.eq_of_isRoot hconnected hb hroot]
      exact .attached ⟨rfl, rfl⟩
    · obtain ⟨q, hpeer, howner, -⟩ := h.exists_peer_rootPort hb
      have hstep : network.linkCost (election.rootPort b) = election.stepCost b := by
        rw [stepCost, if_neg hb]
      rw [← hn, h.rootPathCost_eq hb]
      exact .hears (ih _ (hn ▸ h.rootPathCost_parent_lt hb) _ rfl)
        ⟨_, q, hpeer, h.owner_rootPort b hb, howner, hstep⟩

section tree

variable {isRootPort : P → Prop}
  (hport : ∀ p, isRootPort p ↔
    ¬election.isRoot (network.owner p) ∧ p = election.rootPort (network.owner p))

include hport

theorem treeLink_iff : network.TreeLink isRootPort election.designated p q ↔
    ¬election.isRoot (network.owner p) ∧ p = election.rootPort (network.owner p) ∧
      network.peer p = some q := by
  constructor
  · intro ⟨hpeer, hp, _⟩
    exact ⟨((hport p).mp hp).1, ((hport p).mp hp).2, hpeer⟩
  · intro ⟨hb, hp, hpeer⟩
    refine ⟨hpeer, (hport p).mpr ⟨hb, hp⟩, ?_⟩
    have hnot : ¬election.designated p := hp ▸ h.not_designated_rootPort _ hb
    exact (h.designated_xor hpeer).elim (fun hxor ↦ absurd hxor.1 hnot) fun hxor ↦ hxor.1

theorem owner_eq_parent_of_treeLink (hlink : network.TreeLink isRootPort election.designated p q) :
    ¬election.isRoot (network.owner p) ∧
      network.owner q = election.parent (network.owner p) := by
  obtain ⟨hb, hp, hpeer⟩ := (h.treeLink_iff hport).mp hlink
  obtain ⟨q', hpeer', howner, -⟩ := h.exists_peer_rootPort hb
  obtain rfl : q = q' := Option.some.inj ((hp ▸ hpeer).symm.trans hpeer')
  exact ⟨hb, howner⟩

/-- The links of the tree lead from the bridges to their parents. -/
theorem treeGraph_eq {root : B} (hroot : ∀ b, election.isRoot b ↔ b = root) :
    network.treeGraph isRootPort election.designated =
      ParentTree.graph root election.parent := by
  have hrel (a b : B) : (∃ p q, network.TreeLink isRootPort election.designated p q ∧
      network.owner p = a ∧ network.owner q = b) ↔ a ≠ root ∧ b = election.parent a := by
    constructor
    · rintro ⟨p, q, hlink, rfl, rfl⟩
      obtain ⟨hb, howner⟩ := h.owner_eq_parent_of_treeLink hport hlink
      exact ⟨mt (hroot _).mpr hb, howner⟩
    · rintro ⟨ha, rfl⟩
      have hb : ¬election.isRoot a := mt (hroot a).mp ha
      obtain ⟨q, hpeer, howner, -⟩ := h.exists_peer_rootPort hb
      have hown := h.owner_rootPort a hb
      exact ⟨election.rootPort a, q, (h.treeLink_iff hport).mpr
        ⟨hown.symm ▸ hb, by rw [hown], hpeer⟩, hown, howner⟩
  ext a b
  rw [BridgeNetwork.treeGraph, ParentTree.graph, fromRel_adj, fromRel_adj,
    hrel, hrel]

theorem treeLink_unique {p' q' : P} (hlink : network.TreeLink isRootPort election.designated p q)
    (hlink' : network.TreeLink isRootPort election.designated p' q')
    (heq : s(network.owner p, network.owner q) = s(network.owner p', network.owner q')) :
    p = p' ∧ q = q' := by
  obtain ⟨hb, howner⟩ := h.owner_eq_parent_of_treeLink hport hlink
  obtain ⟨hb', howner'⟩ := h.owner_eq_parent_of_treeLink hport hlink'
  obtain ⟨-, hp, hpeer⟩ := (h.treeLink_iff hport).mp hlink
  obtain ⟨-, hp', hpeer'⟩ := (h.treeLink_iff hport).mp hlink'
  rcases Sym2.eq_iff.mp heq with ⟨hpp, -⟩ | ⟨hpq, hqp⟩
  · have hsame : p = p' := by rw [hp, hp', hpp]
    exact ⟨hsame, Option.some.inj (hpeer.symm.trans (hsame ▸ hpeer'))⟩
  · have hlt := h.rootPathCost_parent_lt hb
    have hlt' := h.rootPathCost_parent_lt hb'
    rw [← howner, hqp] at hlt
    rw [← howner', ← hpq] at hlt'
    exact absurd hlt hlt'.not_gt

/-- A converged election gives the roles of a spanning tree. -/
theorem isSpanningTree (hconnected : network.graph.Connected) :
    network.IsSpanningTree election.id election.isRoot isRootPort election.designated where
  existsUnique_isRoot := h.existsUnique_isRoot hconnected
  isRoot_iff := h.isRoot_iff hconnected
  existsUnique_isRootPort b hb := by
    have hown := h.owner_rootPort b hb
    refine ⟨election.rootPort b, ⟨hown, (hport _).mpr ⟨hown.symm ▸ hb, by rw [hown]⟩⟩, ?_⟩
    rintro p ⟨rfl, hp⟩
    exact ((hport p).mp hp).2
  not_isRootPort p hroot hp := ((hport p).mp hp).1 hroot
  leastCost root hroot p hp := by
    obtain ⟨hb, hp⟩ := (hport p).mp hp
    obtain ⟨q, hpeer, howner, -⟩ := h.exists_peer_rootPort hb
    have hstep : network.linkCost p = election.stepCost (network.owner p) := by
      rw [stepCost, if_neg hb, ← hp]
    refine ⟨q, _, hp ▸ hpeer, h.pathCost_rootPathCost hconnected hroot _, ?_⟩
    intro d hd
    rw [howner, hstep, ← h.rootPathCost_eq hb]
    exact h.rootPathCost_le_of_pathCost hroot hd
  designated_xor p q hpeer := h.designated_xor hpeer
  isTree := by
    obtain ⟨root, hroot, hunique⟩ := h.existsUnique_isRoot hconnected
    have hiff (b : B) : election.isRoot b ↔ b = root :=
      ⟨hunique b, fun hb ↦ hb ▸ hroot⟩
    rw [h.treeGraph_eq hport hiff]
    exact ParentTree.graph_isTree fun b hb ↦ h.rootPathCost_parent_lt (mt (hiff b).mp hb)
  treeLink_unique p q p' q' := h.treeLink_unique hport

end tree

end Converged

end Election

end Inet4
