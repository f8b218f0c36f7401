import Inet4.Ted.Database
import Mathlib.Data.List.GetD

/-!
# Shortest paths in the traffic engineering database

The vector of the vertices names every router once, so that walks along the edges between indices
are walks along the selected links between addresses.  The rounds of `calculateShortestPaths` are
those of the general relaxation, with `LS_INFINITY` as the limit: a path that long is no path.
-/

namespace Inet4.Ted

open List TeLinkStateInfo
open BellmanFord (Edge Walk Labels)
open Ipv4 (Ipv4Address)

def nodes (vertices : List Vertex) : List Ipv4Address := vertices.map Vertex.node

/-- The address of the vertex at an index. -/
def nodeAt (vertices : List Vertex) (i : ℕ) : Ipv4Address := (nodes vertices).getD i 0#32

/-- The index of the vertex with an address. -/
def indexOf (vertices : List Vertex) (addr : Ipv4Address) : ℕ := (nodes vertices).idxOf addr

/-- The edge that a link is between the addresses of its routers. -/
def TeLinkStateInfo.toEdge (elem : TeLinkStateInfo) : Edge Ipv4Address ℚ :=
  { src := elem.advrouter, dest := elem.linkid, weight := elem.metric }

/-- A vertex that no path has reached yet. -/
def Vertex.IsNew (vertex : Vertex) : Prop := vertex.dist = LS_INFINITY ∧ vertex.parent = none

variable {vertices : List Vertex} {addr : Ipv4Address} {i : ℕ} {edges : List (Edge ℕ ℚ)}
variable {links : List TeLinkStateInfo}

theorem length_nodes (vertices : List Vertex) : (nodes vertices).length = vertices.length :=
  length_map _

theorem indexOf_lt (h : addr ∈ nodes vertices) : indexOf vertices addr < vertices.length := by
  rw [← length_nodes]
  exact idxOf_lt_length_of_mem h

theorem nodeAt_indexOf (h : addr ∈ nodes vertices) :
    nodeAt vertices (indexOf vertices addr) = addr := by
  have hlt := idxOf_lt_length_of_mem h
  rw [nodeAt, indexOf, getD_eq_getElem _ _ hlt]
  exact getElem_idxOf hlt

theorem nodeAt_mem (h : i < vertices.length) : nodeAt vertices i ∈ nodes vertices := by
  rw [← length_nodes] at h
  rw [nodeAt, getD_eq_getElem _ _ h]
  exact getElem_mem h

theorem indexOf_nodeAt (hnodup : (nodes vertices).Nodup) (h : i < vertices.length) :
    indexOf vertices (nodeAt vertices i) = i := by
  rw [← length_nodes] at h
  rw [indexOf, nodeAt, getD_eq_getElem _ _ h]
  exact hnodup.idxOf_getElem i h

theorem nodeAt_append (more : List Vertex) (h : i < vertices.length) :
    nodeAt (vertices ++ more) i = nodeAt vertices i := by
  rw [nodeAt, nodeAt, nodes, map_append]
  exact getD_append _ _ _ _ (by rw [length_map]; exact h)

/-- What `assignIndex` does with the vertices: it appends new ones. -/
structure Assigned (vertices : List Vertex) (addr : Ipv4Address) (i : ℕ) (next : List Vertex) :
    Prop where
  extended : ∃ more, next = vertices ++ more ∧ ∀ vertex ∈ more, vertex.IsNew ∧ vertex.node = addr
  nodup : (nodes next).Nodup
  lt : i < next.length
  nodeAt_eq : nodeAt next i = addr

theorem assigned_assignIndex (hnodup : (nodes vertices).Nodup) (addr : Ipv4Address) :
    Assigned vertices addr (assignIndex vertices addr).1 (assignIndex vertices addr).2 := by
  unfold assignIndex
  split
  · rename_i i hfound
    obtain ⟨hlt, hnode, -⟩ := findIdx?_eq_some_iff_getElem.mp hfound
    refine ⟨⟨[], (append_nil _).symm, fun _ hmem ↦ by cases hmem⟩, hnodup, hlt, ?_⟩
    have hlt' : i < (nodes vertices).length := by rwa [length_nodes]
    rw [nodeAt, getD_eq_getElem _ _ hlt']
    simpa [nodes] using hnode
  · rename_i hfound
    have hnew : addr ∉ nodes vertices := by
      intro hmem
      obtain ⟨vertex, hvertex, heq⟩ := mem_map.mp hmem
      have hno := findIdx?_eq_none_iff.mp hfound vertex hvertex
      exact of_decide_eq_false hno heq
    constructor
    · refine ⟨_, rfl, ?_⟩
      intro vertex hmem
      rw [mem_singleton.mp hmem]
      exact ⟨⟨rfl, rfl⟩, rfl⟩
    · rw [nodes, map_append]
      exact hnodup.append (nodup_singleton _) (by simpa using hnew)
    · simp
    · simp [nodeAt, nodes]

/-- The vertices and edges of some links. -/
structure GraphOf (links : List TeLinkStateInfo) (graph : List Vertex × List (Edge ℕ ℚ)) :
    Prop where
  nodup : (nodes graph.1).Nodup
  isNew : ∀ vertex ∈ graph.1, vertex.IsNew
  named : ∀ vertex ∈ graph.1,
    ∃ elem ∈ links, vertex.node = elem.advrouter ∨ vertex.node = elem.linkid
  bounded : ∀ edge ∈ graph.2, edge.src < graph.1.length ∧ edge.dest < graph.1.length
  edges_eq : graph.2.map (Edge.map (nodeAt graph.1)) = links.map toEdge

theorem Assigned.lt_of_lt {next : List Vertex} {j : ℕ} (h : Assigned vertices addr i next)
    (hj : j < vertices.length) : j < next.length := by
  obtain ⟨more, hnext, -⟩ := h.extended
  rw [hnext, length_append]
  omega

theorem Assigned.nodeAt_of_lt {next : List Vertex} {j : ℕ} (h : Assigned vertices addr i next)
    (hj : j < vertices.length) : nodeAt next j = nodeAt vertices j := by
  obtain ⟨more, hnext, -⟩ := h.extended
  rw [hnext]
  exact nodeAt_append more hj

theorem Assigned.mem {next : List Vertex} {vertex : Vertex} (h : Assigned vertices addr i next)
    (hmem : vertex ∈ next) : vertex ∈ vertices ∨ vertex.IsNew ∧ vertex.node = addr := by
  obtain ⟨more, hnext, hmore⟩ := h.extended
  rw [hnext] at hmem
  exact (mem_append.mp hmem).imp_right (hmore vertex)

theorem graphOf_nil : GraphOf [] ([], []) where
  nodup := nodup_nil
  isNew _ hmem := by cases hmem
  named _ hmem := by cases hmem
  bounded _ hmem := by cases hmem
  edges_eq := rfl

theorem GraphOf.addEdge {graph : List Vertex × List (Edge ℕ ℚ)} (h : GraphOf links graph)
    (elem : TeLinkStateInfo) : GraphOf (links ++ [elem]) (addEdge graph elem) := by
  have hsrc := assigned_assignIndex h.nodup elem.advrouter
  have hdest := assigned_assignIndex hsrc.nodup elem.linkid
  have hbounded : ∀ edge ∈ graph.2, edge.src < (Ted.addEdge graph elem).1.length ∧
      edge.dest < (Ted.addEdge graph elem).1.length := fun edge hmem ↦
    ⟨hdest.lt_of_lt (hsrc.lt_of_lt (h.bounded edge hmem).1),
      hdest.lt_of_lt (hsrc.lt_of_lt (h.bounded edge hmem).2)⟩
  constructor
  · exact hdest.nodup
  · intro vertex hmem
    rcases hdest.mem hmem with hbefore | hnew
    · rcases hsrc.mem hbefore with hfirst | hnew
      · exact h.isNew vertex hfirst
      · exact hnew.1
    · exact hnew.1
  · intro vertex hmem
    have helem : elem ∈ links ++ [elem] := mem_append_right _ (mem_singleton_self elem)
    rcases hdest.mem hmem with hbefore | hnew
    · rcases hsrc.mem hbefore with hfirst | hnew
      · obtain ⟨other, hother, heq⟩ := h.named vertex hfirst
        exact ⟨other, mem_append_left _ hother, heq⟩
      · exact ⟨elem, helem, .inl hnew.2⟩
    · exact ⟨elem, helem, .inr hnew.2⟩
  · intro edge hmem
    rcases mem_append.mp hmem with hold | hnew
    · exact hbounded edge hold
    · rw [mem_singleton.mp hnew]
      exact ⟨hdest.lt_of_lt hsrc.lt, hdest.lt⟩
  · have hold : graph.2.map (Edge.map (nodeAt (Ted.addEdge graph elem).1)) =
        graph.2.map (Edge.map (nodeAt graph.1)) := by
      apply map_congr_left
      intro edge hmem
      obtain ⟨hlt, hlt'⟩ := h.bounded edge hmem
      have hends : nodeAt (Ted.addEdge graph elem).1 edge.src = nodeAt graph.1 edge.src ∧
          nodeAt (Ted.addEdge graph elem).1 edge.dest = nodeAt graph.1 edge.dest :=
        ⟨(hdest.nodeAt_of_lt (hsrc.lt_of_lt hlt)).trans (hsrc.nodeAt_of_lt hlt),
          (hdest.nodeAt_of_lt (hsrc.lt_of_lt hlt')).trans (hsrc.nodeAt_of_lt hlt')⟩
      rw [Edge.map, hends.1, hends.2, Edge.map]
    have hnew : Edge.map (nodeAt (Ted.addEdge graph elem).1)
        { src := (assignIndex graph.1 elem.advrouter).1
          dest := (assignIndex (assignIndex graph.1 elem.advrouter).2 elem.linkid).1
          weight := elem.metric } = elem.toEdge := by
      have hends : nodeAt (Ted.addEdge graph elem).1 (assignIndex graph.1 elem.advrouter).1 =
          elem.advrouter := (hdest.nodeAt_of_lt hsrc.lt).trans hsrc.nodeAt_eq
      have hlast : nodeAt (Ted.addEdge graph elem).1
          (assignIndex (assignIndex graph.1 elem.advrouter).2 elem.linkid).1 = elem.linkid :=
        hdest.nodeAt_eq
      rw [Edge.map, hends, hlast, toEdge]
    have hedges : (Ted.addEdge graph elem).2 = graph.2 ++ [_] := rfl
    rw [hedges, map_append, map_append, hold, h.edges_eq, map_singleton, hnew,
      map_singleton]

theorem graphOf_foldl {graph : List Vertex × List (Edge ℕ ℚ)} (h : GraphOf links graph)
    (more : List TeLinkStateInfo) : GraphOf (links ++ more) (more.foldl Ted.addEdge graph) := by
  induction more generalizing links graph with
  | nil =>
    rw [append_nil]
    exact h
  | cons elem rest ih =>
    have hnext := ih (h.addEdge elem)
    rw [append_assoc] at hnext
    exact hnext

/-- The links that `calculateShortestPaths` selects. -/
def selected (topology : List TeLinkStateInfo) (reqBandwidth : ℚ) (priority : Fin 8) :
    List TeLinkStateInfo :=
  topology.filter fun elem ↦ elem.IsSelected reqBandwidth priority

theorem graphOf_selectEdges (topology : List TeLinkStateInfo) (reqBandwidth : ℚ)
    (priority : Fin 8) :
    GraphOf (selected topology reqBandwidth priority)
      (selectEdges topology reqBandwidth priority) :=
  graphOf_foldl graphOf_nil (selected topology reqBandwidth priority)

/-- The labels in a vector of vertices; there is no vertex behind its end. -/
def labels (vertices : List Vertex) : Labels ℕ ℚ where
  dist i := (vertices[i]?.map Vertex.dist).getD LS_INFINITY
  parent i := vertices[i]?.bind Vertex.parent

theorem LS_INFINITY_pos : 0 < LS_INFINITY := by decide +kernel

theorem labels_of_getElem? {vertex : Vertex} (h : vertices[i]? = some vertex) :
    (labels vertices).dist i = vertex.dist ∧ (labels vertices).parent i = vertex.parent := by
  simp [labels, h]

/-- The numbering of the routers that the edges go by, and the source. -/
structure Numbering (routerId : Ipv4Address) (links : List TeLinkStateInfo)
    (edges : List (Edge ℕ ℚ)) (s : ℕ) (vertices : List Vertex) : Prop where
  nodup : (nodes vertices).Nodup
  bounded : ∀ edge ∈ edges, edge.src < vertices.length ∧ edge.dest < vertices.length
  edges_eq : edges.map (Edge.map (nodeAt vertices)) = links.map toEdge
  source_lt : s < vertices.length
  source_eq : nodeAt vertices s = routerId
  named : ∀ node ∈ nodes vertices,
    node = routerId ∨ ∃ elem ∈ links, node = elem.advrouter ∨ node = elem.linkid

variable {routerId : Ipv4Address}

theorem Numbering.of_nodes_eq {s : ℕ} {next : List Vertex}
    (h : Numbering routerId links edges s vertices) (heq : nodes next = nodes vertices) :
    Numbering routerId links edges s next := by
  have hlength : next.length = vertices.length := by
    rw [← length_nodes, heq, length_nodes]
  have hnodeAt : nodeAt next = nodeAt vertices := by
    funext i
    rw [nodeAt, nodeAt, heq]
  constructor
  · rw [heq]
    exact h.nodup
  · rw [hlength]
    exact h.bounded
  · rw [hnodeAt]
    exact h.edges_eq
  · rw [hlength]
    exact h.source_lt
  · rw [hnodeAt]
    exact h.source_eq
  · rw [heq]
    exact h.named

theorem labels_modify {next : List Vertex} {s : ℕ} (hlt : s < next.length)
    (hnew : ∀ vertex ∈ next, vertex.IsNew) :
    labels (next.modify s fun vertex ↦ { vertex with dist := 0 }) =
      Labels.initial s LS_INFINITY := by
  have hget : ∀ i, (labels (next.modify s fun vertex ↦ { vertex with dist := 0 })).dist i =
        (Labels.initial s LS_INFINITY).dist i ∧
      (labels (next.modify s fun vertex ↦ { vertex with dist := 0 })).parent i = none := by
    intro i
    cases hi : next[i]? with
    | none =>
      have hne : i ≠ s := by
        rintro rfl
        exact absurd hlt (getElem?_eq_none_iff.mp hi).not_gt
      simp [labels, getElem?_modify, hi, Labels.initial_dist_of_ne hne]
    | some vertex =>
      obtain ⟨hdist, hparent⟩ := hnew vertex (mem_of_getElem? hi)
      by_cases his : s = i
      · rw [← his] at hi ⊢
        simp [labels, hi, Labels.initial_dist_self, hparent]
      · simp [labels, hi, his, Labels.initial_dist_of_ne (Ne.symm his), hdist, hparent]
  calc
    labels (next.modify s fun vertex ↦ { vertex with dist := 0 }) =
        { dist := (Labels.initial s LS_INFINITY).dist, parent := fun _ ↦ none } := by
      rw [Labels.mk.injEq]
      exact ⟨funext fun i ↦ (hget i).1, funext fun i ↦ (hget i).2⟩
    _ = Labels.initial s LS_INFINITY := rfl

/-- The source is added to the vertices and labelled. -/
theorem numbering_start {graph : List Vertex × List (Edge ℕ ℚ)} (h : GraphOf links graph)
    (routerId : Ipv4Address) :
    Numbering routerId links graph.2 (assignIndex graph.1 routerId).1
        ((assignIndex graph.1 routerId).2.modify (assignIndex graph.1 routerId).1
          fun vertex ↦ { vertex with dist := 0 }) ∧
      labels ((assignIndex graph.1 routerId).2.modify (assignIndex graph.1 routerId).1
          fun vertex ↦ { vertex with dist := 0 }) =
        Labels.initial (assignIndex graph.1 routerId).1 LS_INFINITY := by
  have hassigned := assigned_assignIndex h.nodup routerId
  generalize assignIndex graph.1 routerId = start at hassigned
  obtain ⟨s, next⟩ := start
  have hnext : Numbering routerId links graph.2 s next := by
    constructor
    · exact hassigned.nodup
    · intro edge hmem
      obtain ⟨hsrc, hdest⟩ := h.bounded edge hmem
      exact ⟨hassigned.lt_of_lt hsrc, hassigned.lt_of_lt hdest⟩
    · rw [← h.edges_eq]
      apply map_congr_left
      intro edge hmem
      obtain ⟨hsrc, hdest⟩ := h.bounded edge hmem
      rw [Edge.map, Edge.map, hassigned.nodeAt_of_lt hsrc, hassigned.nodeAt_of_lt hdest]
    · exact hassigned.lt
    · exact hassigned.nodeAt_eq
    · intro node hmem
      obtain ⟨vertex, hvertex, heq⟩ := mem_map.mp hmem
      rw [← heq]
      rcases hassigned.mem hvertex with hold | hnew
      · exact .inr (h.named vertex hold)
      · exact .inl hnew.2
  have hisNew : ∀ vertex ∈ next, vertex.IsNew := by
    intro vertex hmem
    rcases hassigned.mem hmem with hold | hnew
    · exact h.isNew vertex hold
    · exact hnew.1
  refine ⟨hnext.of_nodes_eq ?_, ?_⟩
  · apply ext_getElem?
    intro i
    rw [nodes, nodes, getElem?_map, getElem?_map, getElem?_modify]
    cases next[i]? with
    | none => rfl
    | some vertex => by_cases hi : s = i <;> simp [hi]
  · exact labels_modify hassigned.lt hisNew

/-- An edge between vertices that are there. -/
def Fits (vertices : List Vertex) (edge : Edge ℕ ℚ) : Prop :=
  edge.src < vertices.length ∧ edge.dest < vertices.length

theorem relaxEdge_loop {state : List Vertex × Bool} {edge : Edge ℕ ℚ}
    (hloop : edge.src = edge.dest) : relaxEdge state edge = .error .runtimeError := by
  unfold relaxEdge
  split
  · rw [if_pos hloop]
  · rfl

/-- What one edge of a round does. -/
structure RelaxedBy (step : Labels ℕ ℚ → Labels ℕ ℚ) (state next : List Vertex × Bool) : Prop where
  nodes_eq : nodes next.1 = nodes state.1
  labels_eq : labels next.1 = step (labels state.1)
  unchanged : next.2 = false → state.2 = false ∧ next.1 = state.1

/-- A vertex that is written, with the same address. -/
theorem labels_set {vertex written : Vertex} (hi : vertices[i]? = some vertex) :
    labels (vertices.set i written) =
      { dist := fun j ↦ if j = i then written.dist else (labels vertices).dist j
        parent := fun j ↦ if j = i then written.parent else (labels vertices).parent j } := by
  have hlt : i < vertices.length := (List.getElem?_eq_some_iff.mp hi).1
  have hget : ∀ j, (labels (vertices.set i written)).dist j =
        (if j = i then written.dist else (labels vertices).dist j) ∧
      (labels (vertices.set i written)).parent j =
        if j = i then written.parent else (labels vertices).parent j := by
    intro j
    by_cases hj : j = i
    · rw [if_pos hj, if_pos hj, hj]
      exact labels_of_getElem? (List.getElem?_set_self hlt)
    · have hsame : (vertices.set i written)[j]? = vertices[j]? := List.getElem?_set_ne (Ne.symm hj)
      simp [labels, hsame, hj]
  rw [labels, Labels.mk.injEq]
  exact ⟨funext fun j ↦ (hget j).1, funext fun j ↦ (hget j).2⟩

theorem nodes_set {vertex written : Vertex} (hi : vertices[i]? = some vertex)
    (hnode : written.node = vertex.node) : nodes (vertices.set i written) = nodes vertices := by
  apply List.ext_getElem?
  intro j
  by_cases hj : i = j
  · have hlt : i < vertices.length := (List.getElem?_eq_some_iff.mp hi).1
    rw [← hj, nodes, nodes, List.getElem?_map, List.getElem?_map, List.getElem?_set_self hlt, hi,
      Option.map_some, Option.map_some, hnode]
  · rw [nodes, nodes, List.getElem?_map, List.getElem?_map, List.getElem?_set_ne hj]

theorem exists_relaxEdge {state : List Vertex × Bool} {edge : Edge ℕ ℚ} (hfits : Fits state.1 edge)
    (hloop : edge.src ≠ edge.dest) :
    ∃ next, relaxEdge state edge = .ok next ∧ RelaxedBy (·.relax edge) state next := by
  obtain ⟨src, hsrc⟩ : ∃ src, state.1[edge.src]? = some src := ⟨_, getElem?_eq_getElem hfits.1⟩
  obtain ⟨dest, hdest⟩ : ∃ dest, state.1[edge.dest]? = some dest :=
    ⟨_, getElem?_eq_getElem hfits.2⟩
  have hsrcDist := (labels_of_getElem? hsrc).1
  have hdestDist := (labels_of_getElem? hdest).1
  unfold relaxEdge
  simp only [hsrc, hdest, if_neg hloop]
  by_cases hlt : (labels state.1).dist edge.src + edge.weight < (labels state.1).dist edge.dest
  · have hnot : ¬src.dist + edge.weight ≥ dest.dist := by
      rw [← hsrcDist, ← hdestDist]
      exact not_le.mpr hlt
    rw [if_neg hnot]
    refine ⟨_, rfl, nodes_set hdest rfl, ?_, fun hmod ↦ by cases hmod⟩
    refine (labels_set hdest).trans ?_
    rw [Labels.relax, if_pos hlt, hsrcDist]
  · have hge : src.dist + edge.weight ≥ dest.dist := by
      rw [← hsrcDist, ← hdestDist]
      exact not_lt.mp hlt
    rw [if_pos hge]
    exact ⟨state, rfl, rfl, (Labels.relax_of_not hlt).symm, fun hmod ↦ ⟨hmod, rfl⟩⟩

/-- The edges of a round, in which no edge is a loop. -/
theorem exists_foldlM_relaxEdge (state : List Vertex × Bool)
    (hfits : ∀ edge ∈ edges, Fits state.1 edge) (hloop : ∀ edge ∈ edges, edge.src ≠ edge.dest) :
    ∃ next, edges.foldlM relaxEdge state = .ok next ∧ RelaxedBy (·.round edges) state next := by
  induction edges generalizing state with
  | nil => exact ⟨state, rfl, rfl, rfl, fun hmod ↦ ⟨hmod, rfl⟩⟩
  | cons edge rest ih =>
    obtain ⟨hfirst, hrest⟩ := forall_mem_cons.mp hfits
    obtain ⟨hfirst', hrest'⟩ := forall_mem_cons.mp hloop
    obtain ⟨middle, hmiddle, hstep⟩ := exists_relaxEdge hfirst hfirst'
    have hlength : middle.1.length = state.1.length := by
      rw [← length_nodes, hstep.nodes_eq, length_nodes]
    have hfits' : ∀ edge ∈ rest, Fits middle.1 edge := by
      intro edge hmem
      rw [Fits, hlength]
      exact hrest edge hmem
    obtain ⟨next, hnext, hround⟩ := ih middle hfits' hrest'
    refine ⟨next, ?_, hround.nodes_eq.trans hstep.nodes_eq, ?_, ?_⟩
    · rw [foldlM_cons, bind_of_ok hmiddle]
      exact hnext
    · rw [hround.labels_eq, hstep.labels_eq]
      rfl
    · intro hmod
      obtain ⟨hmiddleMod, hsame⟩ := hround.unchanged hmod
      obtain ⟨hstateMod, hsame'⟩ := hstep.unchanged hmiddleMod
      exact ⟨hstateMod, hsame.trans hsame'⟩

/-- The rounds are those of the general relaxation; a round without a change leaves nothing to
do. -/
theorem exists_relaxRounds (hfits : ∀ edge ∈ edges, Fits vertices edge)
    (hloop : ∀ edge ∈ edges, edge.src ≠ edge.dest) (k : ℕ) :
    ∃ next, relaxRounds edges k vertices = .ok next ∧ nodes next = nodes vertices ∧
      labels next = (labels vertices).rounds edges k := by
  induction k generalizing vertices with
  | zero => exact ⟨vertices, rfl, rfl, rfl⟩
  | succ k ih =>
    obtain ⟨state, hstate, hround⟩ := exists_foldlM_relaxEdge (vertices, false) hfits hloop
    rw [relaxRounds, bind_of_ok hstate]
    cases hmod : state.2 with
    | false =>
      obtain ⟨-, hsame⟩ := hround.unchanged hmod
      have hfixed : (labels vertices).round edges = labels vertices := by
        rw [← hround.labels_eq, hsame]
      refine ⟨state.1, rfl, hround.nodes_eq, ?_⟩
      rw [Labels.rounds_of_fixed hfixed, hsame]
    | true =>
      have hlength : state.1.length = vertices.length := by
        rw [← length_nodes, hround.nodes_eq, length_nodes]
      have hfits' : ∀ edge ∈ edges, Fits state.1 edge := by
        intro edge hmem
        rw [Fits, hlength]
        exact hfits edge hmem
      obtain ⟨next, hnext, hnodes, hlabels⟩ := ih hfits'
      refine ⟨next, hnext, hnodes.trans hround.nodes_eq, ?_⟩
      rw [hlabels, hround.labels_eq]
      rfl

/-- A loop ends the first round with an error. -/
theorem foldlM_relaxEdge_loop (state : List Vertex × Bool)
    (hfits : ∀ edge ∈ edges, Fits state.1 edge) (hloop : ∃ edge ∈ edges, edge.src = edge.dest) :
    edges.foldlM relaxEdge state = .error .runtimeError := by
  induction edges generalizing state with
  | nil =>
    obtain ⟨edge, hmem, -⟩ := hloop
    cases hmem
  | cons edge rest ih =>
    obtain ⟨hfirst, hrest⟩ := forall_mem_cons.mp hfits
    rw [foldlM_cons]
    by_cases heq : edge.src = edge.dest
    · rw [relaxEdge_loop heq]
      rfl
    · obtain ⟨middle, hmiddle, hstep⟩ := exists_relaxEdge hfirst heq
      have hlength : middle.1.length = state.1.length := by
        rw [← length_nodes, hstep.nodes_eq, length_nodes]
      rw [bind_of_ok hmiddle]
      apply ih
      · intro edge' hmem
        rw [Fits, hlength]
        exact hrest edge' hmem
      · obtain ⟨edge', hmem, heq'⟩ := hloop
        cases hmem with
        | head => exact absurd heq' heq
        | tail _ hmem => exact ⟨edge', hmem, heq'⟩

/-- No selected link leads from a router to itself, or all of them lead from this router to
itself: only then the assertion about loops does not fail. -/
def AssertsNoLoop (routerId : Ipv4Address) (links : List TeLinkStateInfo) : Prop :=
  (∀ elem ∈ links, elem.advrouter ≠ elem.linkid) ∨
    ∀ elem ∈ links, elem.advrouter = routerId ∧ elem.linkid = routerId

/-- Vertices with their least distances from the source `s`. -/
structure Solved (routerId : Ipv4Address) (links : List TeLinkStateInfo) (edges : List (Edge ℕ ℚ))
    (s : ℕ) (vertices : List Vertex) : Prop extends
    Numbering routerId links edges s vertices where
  shortest : (labels vertices).Shortest edges s LS_INFINITY

theorem Numbering.weight_pos {s : ℕ} (h : Numbering routerId links edges s vertices)
    : ∀ edge ∈ edges, 0 < edge.weight := by
  intro edge hmem
  have himage : Edge.map (nodeAt vertices) edge ∈ links.map toEdge := by
    rw [← h.edges_eq]
    exact mem_map_of_mem hmem
  obtain ⟨elem, -, heq⟩ := mem_map.mp himage
  have hweight : elem.metric = edge.weight := congrArg Edge.weight heq
  rw [← hweight]
  exact elem.metric_pos

/-- The vertices that the rounds end with. -/
theorem Numbering.solved {s : ℕ} {next : List Vertex}
    (h : Numbering routerId links edges s vertices)
    (hstart : labels vertices = Labels.initial s LS_INFINITY) (hnodes : nodes next = nodes vertices)
    (hlabels : labels next = (labels vertices).rounds edges (vertices.length - 1)) :
    Solved routerId links edges s next where
  toNumbering := h.of_nodes_eq hnodes
  shortest := by
    rw [hlabels, hstart]
    have hcard : vertices.length = (Finset.range vertices.length).card := (Finset.card_range _).symm
    rw [hcard]
    apply Labels.shortest_rounds h.weight_pos LS_INFINITY_pos (Finset.mem_range.mpr h.source_lt)
    exact fun edge hmem ↦ Finset.mem_range.mpr (h.bounded edge hmem).2

namespace Numbering

variable {routerId : Ipv4Address} {s : ℕ}

section

variable (h : Numbering routerId links edges s vertices)
include h

theorem exists_elem {edge : Edge ℕ ℚ} (hmem : edge ∈ edges)
    : ∃ elem ∈ links, elem.toEdge = Edge.map (nodeAt vertices) edge := by
  apply mem_map.mp
  rw [← h.edges_eq]
  exact mem_map_of_mem hmem

theorem exists_edge {elem : TeLinkStateInfo} (hmem : elem ∈ links)
    : ∃ edge ∈ edges, Edge.map (nodeAt vertices) edge = elem.toEdge := by
  apply mem_map.mp
  rw [h.edges_eq]
  exact mem_map_of_mem hmem

theorem loop_iff : (∃ edge ∈ edges, edge.src = edge.dest)
    ↔ ∃ elem ∈ links, elem.advrouter = elem.linkid := by
  constructor
  · rintro ⟨edge, hmem, hloop⟩
    obtain ⟨elem, helem, heq⟩ := h.exists_elem hmem
    have hsrc : elem.advrouter = nodeAt vertices edge.src := congrArg Edge.src heq
    have hdest : elem.linkid = nodeAt vertices edge.dest := congrArg Edge.dest heq
    exact ⟨elem, helem, by rw [hsrc, hdest, hloop]⟩
  · rintro ⟨elem, hmem, hloop⟩
    obtain ⟨edge, hedge, heq⟩ := h.exists_edge hmem
    have hsrc : nodeAt vertices edge.src = elem.advrouter := congrArg Edge.src heq
    have hdest : nodeAt vertices edge.dest = elem.linkid := congrArg Edge.dest heq
    obtain ⟨hlt, hlt'⟩ := h.bounded edge hedge
    refine ⟨edge, hedge, ?_⟩
    calc
      edge.src = indexOf vertices (nodeAt vertices edge.src) := (indexOf_nodeAt h.nodup hlt).symm
      _ = indexOf vertices (nodeAt vertices edge.dest) := by rw [hsrc, hdest, hloop]
      _ = edge.dest := indexOf_nodeAt h.nodup hlt'

/-- The source is the only vertex exactly when all links are between it and itself. -/
theorem length_eq_one_iff :
    vertices.length = 1 ↔ ∀ elem ∈ links, elem.advrouter = routerId ∧ elem.linkid = routerId := by
  have hsource : routerId ∈ nodes vertices := by
    rw [← h.source_eq]
    exact nodeAt_mem h.source_lt
  constructor
  · intro hone elem hmem
    obtain ⟨edge, hedge, heq⟩ := h.exists_edge hmem
    have hsrc : nodeAt vertices edge.src = elem.advrouter := congrArg Edge.src heq
    have hdest : nodeAt vertices edge.dest = elem.linkid := congrArg Edge.dest heq
    obtain ⟨hlt, hlt'⟩ := h.bounded edge hedge
    have hs := h.source_lt
    have hends : edge.src = s ∧ edge.dest = s := by omega
    rw [← hsrc, ← hdest, hends.1, hends.2]
    exact ⟨h.source_eq, h.source_eq⟩
  · intro hown
    have hall : ∀ node ∈ nodes vertices, node = routerId := by
      intro node hmem
      rcases h.named node hmem with heq | ⟨elem, helem, hadv | hlink⟩
      · exact heq
      · exact hadv.trans (hown elem helem).1
      · exact hlink.trans (hown elem helem).2
    have hreplicate := eq_replicate_of_mem hall
    have hle : (nodes vertices).length ≤ 1 := by
      rw [← nodup_replicate (a := routerId), ← hreplicate]
      exact h.nodup
    have hpos : 0 < (nodes vertices).length := length_pos_of_mem hsource
    rw [length_nodes] at hle hpos
    omega

end

end Numbering

variable (ted : Ted)

/-- What `calculateShortestPaths` does once the vertices are numbered. -/
theorem exists_start (topology : List TeLinkStateInfo) (reqBandwidth : ℚ) (priority : Fin 8) :
    ∃ edges s start,
      ted.calculateShortestPaths topology reqBandwidth priority =
        relaxRounds edges (start.length - 1) start ∧
      Numbering ted.routerId (selected topology reqBandwidth priority) edges s start ∧
      labels start = Labels.initial s LS_INFINITY := by
  obtain ⟨hnumbering, hlabels⟩ :=
    numbering_start (graphOf_selectEdges topology reqBandwidth priority) ted.routerId
  exact ⟨_, _, _, rfl, hnumbering, hlabels⟩

/-- Where no assertion fails, the distances are the least ones. -/
theorem exists_calculateShortestPaths {topology : List TeLinkStateInfo} {reqBandwidth : ℚ}
    {priority : Fin 8}
    (hassert : AssertsNoLoop ted.routerId (selected topology reqBandwidth priority)) :
    ∃ edges s vertices, ted.calculateShortestPaths topology reqBandwidth priority = .ok vertices ∧
      Solved ted.routerId (selected topology reqBandwidth priority) edges s vertices := by
  obtain ⟨edges, s, start, hcalculate, hnumbering, hlabels⟩ :=
    exists_start ted topology reqBandwidth priority
  rw [hcalculate]
  rcases hassert with hnoloop | hown
  · have hloop : ∀ edge ∈ edges, edge.src ≠ edge.dest := by
      intro edge hmem heq
      obtain ⟨elem, helem, hself⟩ := hnumbering.loop_iff.mp ⟨edge, hmem, heq⟩
      exact hnoloop elem helem hself
    obtain ⟨vertices, hrounds, hnodes, hround⟩ :=
      exists_relaxRounds hnumbering.bounded hloop (start.length - 1)
    exact ⟨edges, s, vertices, hrounds, hnumbering.solved hlabels hnodes hround⟩
  · have hone := hnumbering.length_eq_one_iff.mpr hown
    have hsolved : Solved ted.routerId _ edges s start :=
      hnumbering.solved hlabels rfl (by rw [hone]; rfl)
    rw [hone]
    exact ⟨edges, s, start, rfl, hsolved⟩

theorem calculateShortestPaths_of_loop {topology : List TeLinkStateInfo} {reqBandwidth : ℚ}
    {priority : Fin 8}
    (hassert : ¬AssertsNoLoop ted.routerId (selected topology reqBandwidth priority)) :
    ted.calculateShortestPaths topology reqBandwidth priority = .error .runtimeError := by
  obtain ⟨edges, s, start, hcalculate, hnumbering, -⟩ :=
    exists_start ted topology reqBandwidth priority
  obtain ⟨hloop, hforeign⟩ := not_or.mp hassert
  have hlong : start.length ≠ 1 := fun hone ↦ hforeign (hnumbering.length_eq_one_iff.mp hone)
  have hpos := hnumbering.source_lt
  obtain ⟨k, hk⟩ : ∃ k, start.length - 1 = k + 1 := ⟨start.length - 2, by omega⟩
  have hself : ∃ edge ∈ edges, edge.src = edge.dest := by
    rw [hnumbering.loop_iff]
    simpa using hloop
  rw [hcalculate, hk, relaxRounds, foldlM_relaxEdge_loop (start, false) hnumbering.bounded hself]
  rfl

/-- The walks of this router along links. -/
abbrev LinkWalk (links : List TeLinkStateInfo) (source : Ipv4Address) : List Ipv4Address → ℚ →
    Prop :=
  Walk (links.map toEdge) source

/-- There is a walk to the address. -/
def Reaches (links : List TeLinkStateInfo) (source addr : Ipv4Address) : Prop :=
  ∃ path w, LinkWalk links source (addr :: path) w

namespace Solved

variable {routerId : Ipv4Address} {s : ℕ}

section

variable (h : Solved routerId links edges s vertices)
include h

theorem linkWalk {path : List ℕ} {w : ℚ} (hwalk : Walk edges i path w) :
    LinkWalk links (nodeAt vertices i) (path.map (nodeAt vertices)) w := by
  have hmap := hwalk.map (nodeAt vertices)
  rw [h.edges_eq] at hmap
  exact hmap

theorem indexOf_source : indexOf vertices routerId = s := by
  rw [← h.source_eq]
  exact indexOf_nodeAt h.nodup h.source_lt

theorem edges_of_links :
    (links.map TeLinkStateInfo.toEdge).map (Edge.map (indexOf vertices)) = edges := by
  have hback : ∀ edge ∈ edges,
      (Edge.map (indexOf vertices) ∘ Edge.map (nodeAt vertices)) edge = id edge := by
    intro edge hmem
    obtain ⟨hsrc, hdest⟩ := h.bounded edge hmem
    rw [Function.comp_apply, Edge.map, Edge.map, indexOf_nodeAt h.nodup hsrc,
      indexOf_nodeAt h.nodup hdest, id]
  rw [← h.edges_eq, map_map, map_congr_left hback, map_id]

theorem indexWalk {path : List Ipv4Address} {w : ℚ} (hwalk : LinkWalk links routerId path w)
    : Walk edges s (path.map (indexOf vertices)) w := by
  have hmap := hwalk.map (indexOf vertices)
  rw [h.edges_of_links, h.indexOf_source] at hmap
  exact hmap

theorem mem_nodes {path : List Ipv4Address} {w : ℚ}
    (hwalk : LinkWalk links routerId (addr :: path) w) : addr ∈ nodes vertices := by
  have hclosed : ∀ edge ∈ edges, edge.dest ∈ Finset.range vertices.length :=
    fun edge hmem ↦ Finset.mem_range.mpr (h.bounded edge hmem).2
  have hmem := (h.indexWalk hwalk).mem_of_closed (Finset.mem_range.mpr h.source_lt) hclosed
    (indexOf vertices addr) mem_cons_self
  have hlt := Finset.mem_range.mp hmem
  rw [← length_nodes] at hlt
  exact idxOf_lt_length_iff.mp hlt

/-- No walk is shorter than the distance of its last vertex. -/
theorem dist_le {path : List Ipv4Address} {w : ℚ}
    (hwalk : LinkWalk links routerId (addr :: path) w) :
    (labels vertices).dist (indexOf vertices addr) ≤ w :=
  h.shortest.dist_le _ _ w (h.indexWalk hwalk)

/-- A distance below the limit is that of a walk. -/
theorem exists_linkWalk (hlt : (labels vertices).dist i < LS_INFINITY) :
    ∃ path, LinkWalk links routerId (nodeAt vertices i :: path) ((labels vertices).dist i) := by
  obtain ⟨path, hwalk⟩ := h.shortest.attained i hlt
  have hlink := h.linkWalk hwalk
  rw [h.source_eq] at hlink
  exact ⟨_, hlink⟩

end

end Solved

variable (dest : List Ipv4Address)

/-- The entries that are members of the set and closer than the limit. -/
def IsCandidate (entry : Vertex × ℕ) : Prop :=
  entry.1.node ∈ dest ∧ entry.1.dist < LS_INFINITY

/-- The best candidate among some entries, if there is one. -/
structure IsNearest (dest : List Ipv4Address) (entries : List (Vertex × ℕ)) (best : ℚ × Option ℕ) :
    Prop where
  le_limit : best.1 ≤ LS_INFINITY
  le_dist : ∀ entry ∈ entries, entry.1.node ∈ dest → best.1 ≤ entry.1.dist
  none_iff : best.2 = none → best.1 = LS_INFINITY
  attained : ∀ index, best.2 = some index →
    ∃ vertex, (vertex, index) ∈ entries ∧ IsCandidate dest (vertex, index) ∧ vertex.dist = best.1

theorem IsNearest.selectNearest {dest : List Ipv4Address} {entries : List (Vertex × ℕ)}
    {best : ℚ × Option ℕ} (h : IsNearest dest entries best) (entry : Vertex × ℕ) :
    IsNearest dest (entries ++ [entry]) (selectNearest dest best entry) := by
  have hattained : ∀ index, best.2 = some index → ∃ vertex, (vertex, index) ∈ entries ++ [entry] ∧
      IsCandidate dest (vertex, index) ∧ vertex.dist = best.1 := by
    intro index hindex
    obtain ⟨vertex, hmem, hrest⟩ := h.attained index hindex
    exact ⟨vertex, mem_append_left _ hmem, hrest⟩
  unfold Ted.selectNearest
  split
  · rename_i hge
    refine ⟨h.le_limit, ?_, h.none_iff, hattained⟩
    intro other hother hmember
    rcases mem_append.mp hother with hold | hnew
    · exact h.le_dist other hold hmember
    · rw [mem_singleton.mp hnew]
      exact hge
  · rename_i hlt
    have hcloser := not_le.mp hlt
    split
    · rename_i hnot
      refine ⟨h.le_limit, ?_, h.none_iff, hattained⟩
      intro other hother hmember
      rcases mem_append.mp hother with hold | hnew
      · exact h.le_dist other hold hmember
      · rw [mem_singleton.mp hnew] at hmember
        exact absurd hmember hnot
    · rename_i hmember
      have hcandidate : IsCandidate dest entry := ⟨not_not.mp hmember, hcloser.trans_le h.le_limit⟩
      refine ⟨hcandidate.2.le, ?_, (fun hnone ↦ by cases hnone), ?_⟩
      · intro other hother hmember'
        rcases mem_append.mp hother with hold | hnew
        · exact hcloser.le.trans (h.le_dist other hold hmember')
        · rw [mem_singleton.mp hnew]
      · intro index hindex
        cases hindex
        exact ⟨entry.1, mem_append_right _ (mem_singleton_self entry), hcandidate, rfl⟩

theorem isNearest_foldl {dest : List Ipv4Address} {entries : List (Vertex × ℕ)}
    {best : ℚ × Option ℕ} (h : IsNearest dest entries best) (more : List (Vertex × ℕ)) :
    IsNearest dest (entries ++ more) (more.foldl (Ted.selectNearest dest) best) := by
  induction more generalizing entries best with
  | nil =>
    rw [append_nil]
    exact h
  | cons entry rest ih =>
    have hnext := ih (h.selectNearest entry)
    rw [append_assoc] at hnext
    exact hnext

theorem isNearest_zipIdx (vertices : List Vertex) : IsNearest dest vertices.zipIdx
      (vertices.zipIdx.foldl (Ted.selectNearest dest) (LS_INFINITY, none)) := by
  have hstart : IsNearest dest [] (LS_INFINITY, none) :=
    ⟨le_rfl, (fun _ hmem ↦ by cases hmem), fun _ ↦ rfl, fun _ hindex ↦ by cases hindex⟩
  exact isNearest_foldl hstart vertices.zipIdx

theorem nodeAt_of_getElem? {vertex : Vertex} (h : vertices[i]? = some vertex) :
    nodeAt vertices i = vertex.node := by
  rw [nodeAt, nodes, getD_eq_getElem?_getD, getElem?_map, h]
  rfl

namespace Solved

variable {routerId : Ipv4Address} {s : ℕ}

/-- The parent of a vertex is a vertex, is reached and has a smaller distance. -/
theorem parent_lt (h : Solved routerId links edges s vertices) {parent : ℕ}
    (hparent : (labels vertices).parent i = some parent) :
    parent < vertices.length ∧ (labels vertices).dist parent < (labels vertices).dist i ∧
      (labels vertices).dist i < LS_INFINITY ∧
      (labels vertices).rank (Finset.range vertices.length) parent <
        (labels vertices).rank (Finset.range vertices.length) i := by
  obtain ⟨edge, hmem, hsrc, -, hle, hlt⟩ := h.shortest.parent_edge i parent hparent
  have hbound : parent < vertices.length := by
    rw [← hsrc]
    exact (h.bounded edge hmem).1
  have hcloser := (lt_add_of_pos_right _ (h.weight_pos edge hmem)).trans_le hle
  exact ⟨hbound, hcloser, hlt,
    h.shortest.rank_lt h.weight_pos (Finset.mem_range.mpr hbound) hparent⟩

/-- The path of a vertex that is reached leads back to the source along the parents. -/
theorem exists_pathTo (h : Solved routerId links edges s vertices) {fuel : ℕ}
    (hi : i < vertices.length) (hreached : (labels vertices).dist i < LS_INFINITY)
    (hfuel : (labels vertices).rank (Finset.range vertices.length) i < fuel)
    (result : List Ipv4Address) :
    ∃ path, pathTo vertices fuel i result =
        .ok (((i :: path).map (nodeAt vertices)).reverse ++ result) ∧
      Labels.TreePath (labels vertices) s (i :: path) := by
  induction fuel generalizing i result with
  | zero => exact absurd hfuel (Nat.not_lt_zero _)
  | succ fuel ih =>
    have hvertex := getElem?_eq_getElem hi
    have hnode := nodeAt_of_getElem? hvertex
    have hlabel := (labels_of_getElem? hvertex).2
    rw [pathTo, hvertex]
    cases hparent : (vertices[i]).parent with
    | none =>
      have hsource : i = s := by
        by_contra hne
        obtain ⟨u, hu⟩ := h.shortest.has_parent i hne hreached
        rw [hlabel, hparent] at hu
        cases hu
      refine ⟨[], ?_, ?_⟩
      · simp only [hparent, map_cons, map_nil, reverse_singleton, hnode]
        rfl
      · rw [hsource]
        exact .refl
    | some parent =>
      rw [hparent] at hlabel
      obtain ⟨hbound, hcloser, -, hrank⟩ := h.parent_lt hlabel
      obtain ⟨path, hpath, htree⟩ :=
        ih hbound (hcloser.trans hreached) (by omega) (nodeAt vertices i :: result)
      refine ⟨parent :: path, ?_, .step hlabel htree⟩
      simp only [hparent, ← hnode]
      rw [hpath]
      simp

end Solved

/-- `calculateShortestPath` returns a path to a member of the set that no path to a member is
shorter than, and the empty path only where there is none. -/
def FindsShortest (topology : List TeLinkStateInfo) (reqBandwidth : ℚ) (priority : Fin 8) : Prop :=
  (ted.calculateShortestPath dest topology reqBandwidth priority = .ok [] ∧
    ∀ addr ∈ dest, ¬Reaches (selected topology reqBandwidth priority) ted.routerId addr) ∨
  ∃ addr ∈ dest, ∃ path w,
    ted.calculateShortestPath dest topology reqBandwidth priority = .ok (addr :: path).reverse ∧
    LinkWalk (selected topology reqBandwidth priority) ted.routerId (addr :: path) w ∧
    ∀ addr' ∈ dest, ∀ path' w',
      LinkWalk (selected topology reqBandwidth priority) ted.routerId (addr' :: path') w' → w ≤ w'

/-- If a member of the set can be reached at all, one is closer than the limit. -/
def WithinLimit (routerId : Ipv4Address) (links : List TeLinkStateInfo)
    (dest : List Ipv4Address) : Prop :=
  (∃ addr ∈ dest, Reaches links routerId addr) →
    ∃ addr ∈ dest, ∃ path w, LinkWalk links routerId (addr :: path) w ∧ w < LS_INFINITY

/-- The entry of an address that can be reached. -/
theorem Solved.exists_entry {s : ℕ} (h : Solved routerId links edges s vertices)
    {path : List Ipv4Address} {w : ℚ}
    (hwalk : LinkWalk links routerId (addr :: path) w) :
    ∃ vertex, (vertex, indexOf vertices addr) ∈ vertices.zipIdx ∧ vertex.node = addr ∧
      vertex.dist ≤ w := by
  have hmem := h.mem_nodes hwalk
  have hlt := indexOf_lt hmem
  have hvertex := getElem?_eq_getElem hlt
  refine ⟨_, mem_zipIdx_iff_getElem?.mpr hvertex, ?_, ?_⟩
  · rw [← nodeAt_of_getElem? hvertex, nodeAt_indexOf hmem]
  · rw [← (labels_of_getElem? hvertex).1]
    exact h.dist_le hwalk

theorem findsShortest_of {dest : List Ipv4Address} {topology : List TeLinkStateInfo}
    {reqBandwidth : ℚ} {priority : Fin 8}
    (hassert : AssertsNoLoop ted.routerId (selected topology reqBandwidth priority))
    (hlimit : WithinLimit ted.routerId (selected topology reqBandwidth priority) dest) :
    ted.FindsShortest dest topology reqBandwidth priority := by
  obtain ⟨edges, s, vertices, hpaths, hsolved⟩ := ted.exists_calculateShortestPaths hassert
  have hnearest := isNearest_zipIdx dest vertices
  unfold FindsShortest calculateShortestPath
  rw [bind_of_ok hpaths]
  generalize vertices.zipIdx.foldl (Ted.selectNearest dest) (LS_INFINITY, none) = best at hnearest ⊢
  cases hbest : best.2 with
  | none =>
    refine .inl ⟨rfl, ?_⟩
    intro addr hmem hreaches
    obtain ⟨addr', hmem', path, w, hwalk, hlt⟩ := hlimit ⟨addr, hmem, hreaches⟩
    obtain ⟨vertex, hentry, hnode, hle⟩ := hsolved.exists_entry hwalk
    have hfar := hnearest.le_dist _ hentry (hnode ▸ hmem')
    rw [hnearest.none_iff hbest] at hfar
    exact absurd (hle.trans_lt hlt) hfar.not_gt
  | some minIndex =>
    obtain ⟨vertex, hentry, ⟨hmember, hlt⟩, hdist⟩ := hnearest.attained minIndex hbest
    have hvertex := List.mem_zipIdx_iff_getElem?.mp hentry
    have hbound := (List.getElem?_eq_some_iff.mp hvertex).1
    have hlabel := (labels_of_getElem? hvertex).1
    have hreached : (labels vertices).dist minIndex < LS_INFINITY := by
      rw [hlabel]
      exact hlt
    have hfuel : (labels vertices).rank
      (Finset.range vertices.length) minIndex < vertices.length := by
      have hcard := Labels.rank_lt_card (l := labels vertices) (Finset.mem_range.mpr hbound)
      rwa [Finset.card_range] at hcard
    obtain ⟨path, hpath, htree⟩ := hsolved.exists_pathTo hbound hreached hfuel []
    obtain ⟨w, hwalk, hweight⟩ := hsolved.shortest.walk_of_treePath hsolved.weight_pos htree
    rw [hsolved.shortest.source_dist, zero_add] at hweight
    have hlink := hsolved.linkWalk hwalk
    rw [hsolved.source_eq, List.map_cons, nodeAt_of_getElem? hvertex] at hlink
    refine .inr ⟨vertex.node, hmember, path.map (nodeAt vertices), w, ?_, hlink, ?_⟩
    · rw [List.append_nil, List.map_cons, nodeAt_of_getElem? hvertex] at hpath
      exact hpath
    · intro addr' hmem' path' w' hwalk'
      obtain ⟨other, hother, hnode, hle⟩ := hsolved.exists_entry hwalk'
      calc
        w = best.1 := by rw [← hweight, hlabel, hdist]
        _ ≤ other.dist := hnearest.le_dist _ hother (hnode ▸ hmem')
        _ ≤ w' := hle

theorem assertsNoLoop_of {dest path : List Ipv4Address} {topology : List TeLinkStateInfo}
    {reqBandwidth : ℚ} {priority : Fin 8}
    (hpath : ted.calculateShortestPath dest topology reqBandwidth priority = .ok path) :
    AssertsNoLoop ted.routerId (selected topology reqBandwidth priority) := by
  by_contra hassert
  obtain ⟨vertices, hvertices, -⟩ := bind_eq_ok hpath
  rw [ted.calculateShortestPaths_of_loop hassert] at hvertices
  cases hvertices

/-- A path is returned only to a member that is closer than the limit. -/
theorem exists_near {dest path : List Ipv4Address} {topology : List TeLinkStateInfo}
    {reqBandwidth : ℚ} {priority : Fin 8}
    (hpath : ted.calculateShortestPath dest topology reqBandwidth priority = .ok path)
    (hne : path ≠ []) :
    ∃ addr ∈ dest, ∃ rest w,
      LinkWalk (selected topology reqBandwidth priority) ted.routerId (addr :: rest) w ∧
        w < LS_INFINITY := by
  obtain ⟨edges, s, vertices, hpaths, hsolved⟩ :=
    ted.exists_calculateShortestPaths (ted.assertsNoLoop_of hpath)
  have hnearest := isNearest_zipIdx dest vertices
  unfold calculateShortestPath at hpath
  rw [bind_of_ok hpaths] at hpath
  generalize vertices.zipIdx.foldl (Ted.selectNearest dest) (LS_INFINITY, none) = best
    at hnearest hpath
  cases hbest : best.2 with
  | none =>
    rw [hbest] at hpath
    cases hpath
    exact absurd rfl hne
  | some minIndex =>
    obtain ⟨vertex, hentry, ⟨hmember, hlt⟩, -⟩ := hnearest.attained minIndex hbest
    have hvertex := mem_zipIdx_iff_getElem?.mp hentry
    have hreached : (labels vertices).dist minIndex < LS_INFINITY := by
      rw [(labels_of_getElem? hvertex).1]
      exact hlt
    obtain ⟨rest, hwalk⟩ := hsolved.exists_linkWalk hreached
    rw [nodeAt_of_getElem? hvertex] at hwalk
    exact ⟨vertex.node, hmember, rest, _, hwalk, hreached⟩

/-- The path is a shortest one exactly when no assertion fails and the limit is not reached. -/
theorem findsShortest_iff (topology : List TeLinkStateInfo) (reqBandwidth : ℚ) (priority : Fin 8) :
    ted.FindsShortest dest topology reqBandwidth priority ↔
      AssertsNoLoop ted.routerId (selected topology reqBandwidth priority) ∧
        WithinLimit ted.routerId (selected topology reqBandwidth priority) dest := by
  constructor
  · rintro (⟨hempty, hnone⟩ | ⟨addr, -, path, w, hpath, -, -⟩)
    · refine ⟨ted.assertsNoLoop_of hempty, ?_⟩
      rintro ⟨addr, hmem, hreaches⟩
      exact absurd hreaches (hnone addr hmem)
    · refine ⟨ted.assertsNoLoop_of hpath, fun _ ↦ ted.exists_near hpath ?_⟩
      simp
  · rintro ⟨hassert, hlimit⟩
    exact ted.findsShortest_of hassert hlimit

end Inet4.Ted
