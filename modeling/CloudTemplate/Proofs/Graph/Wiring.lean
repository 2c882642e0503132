import CloudTemplate.Proofs.Graph.Incidence
import CloudTemplate.Proofs.Sorting

/-!
# Graphs that are wired edge by edge

A graph may be kept by a library for directed graphs, which numbers nodes and
lets any two of them be joined any number of times (`GraphLibrary`).  A wiring is such
a graph with a table of the numbers of ids.  It refuses an edge when an end has
no number, or when the ends are joined already (`Wiring.addEdge`).  Nothing keeps
an edge from leading back to its own node: that is left to those who insert
edges.

`Wiring.WellWired` is what holds of a wiring if they do.  Each insertion keeps it
(`WellWired.addEdge`), and so does a list of insertions (`WellWired.run`), after
which the edge between two ids is the first one that was inserted between them.

Main statement: the queries of a wiring have the answers of a graph, if the first
insertion between any two nodes is the edge of the graph (`represents_wire`).
-/

namespace CloudTemplate

section FirstKind

variable {α : Type} {edges more : List (α × α × EdgeKind)} {x y : α} {kind : EdgeKind}

/-- No two edges have the same source and the same target. -/
def SingleEdges (edges : List (α × α × EdgeKind)) : Prop :=
  edges.Pairwise fun e f => (e.1, e.2.1) ≠ (f.1, f.2.1)

theorem SingleEdges.unique {e f : α × α × EdgeKind} (h : SingleEdges edges)
    (he : e ∈ edges) (hf : f ∈ edges) (hends : (e.1, e.2.1) = (f.1, f.2.1)) : e = f := by
  have hsymm : Std.Symm fun e f : α × α × EdgeKind => (e.1, e.2.1) ≠ (f.1, f.2.1) :=
    ⟨fun _ _ hne heq => hne heq.symm⟩
  by_contra hne
  exact h.forall he hf hne hends

theorem SingleEdges.nodup (h : SingleEdges edges) : edges.Nodup :=
  h.imp fun hne heq => hne (by rw [heq])

variable [DecidableEq α]

/-- Of the edges with one end given no two have the same other end. -/
theorem SingleEdges.nodup_ends {given other : α × α × EdgeKind → α} (h : SingleEdges edges)
    (hends : ∀ e f, given e = given f → other e = other f → (e.1, e.2.1) = (f.1, f.2.1)) (x : α) :
    ((edges.filter fun edge => given edge = x).map other).Nodup := by
  refine (h.nodup.filter _).map_on fun e he f hf heq => ?_
  obtain ⟨he, hgiven⟩ := List.mem_filter.1 he
  obtain ⟨hf, hgiven'⟩ := List.mem_filter.1 hf
  rw [decide_eq_true_eq] at hgiven hgiven'
  exact h.unique he hf (hends e f (hgiven.trans hgiven'.symm) heq)

/-- The kind of the first edge with the given ends. -/
def firstKind (edges : List (α × α × EdgeKind)) (x y : α) : Option EdgeKind :=
  (edges.find? fun edge => edge.1 = x ∧ edge.2.1 = y).map fun edge => edge.2.2

theorem firstKind_append :
    firstKind (edges ++ more) x y = (firstKind edges x y).or (firstKind more x y) := by
  rw [firstKind, List.find?_append, Option.map_or]
  rfl

theorem firstKind_singleton (edge : α × α × EdgeKind) :
    firstKind [edge] x y = if edge.1 = x ∧ edge.2.1 = y then some edge.2.2 else none := by
  rw [firstKind, List.find?_singleton]
  by_cases h : edge.1 = x ∧ edge.2.1 = y <;> simp [h]

theorem firstKind_eq_none_iff :
    firstKind edges x y = none ↔ ∀ edge ∈ edges, ¬ (edge.1 = x ∧ edge.2.1 = y) := by
  simp [firstKind]

theorem mem_of_firstKind (h : firstKind edges x y = some kind) : (x, y, kind) ∈ edges := by
  obtain ⟨⟨_, _, _⟩, hfind, rfl⟩ := Option.map_eq_some_iff.1 h
  have hends := List.find?_some hfind
  simp only [decide_eq_true_eq] at hends
  obtain ⟨rfl, rfl⟩ := hends
  exact List.mem_of_find?_eq_some hfind

/-- Where no two edges have the same ends, every edge is the first one. -/
theorem SingleEdges.firstKind_eq_some_iff (h : SingleEdges edges) :
    firstKind edges x y = some kind ↔ (x, y, kind) ∈ edges := by
  refine ⟨mem_of_firstKind, fun hmem => ?_⟩
  obtain ⟨found, hfound⟩ := Option.ne_none_iff_exists'.1 fun hnone =>
    firstKind_eq_none_iff.1 hnone _ hmem ⟨rfl, rfl⟩
  rw [hfound]
  have heq := h.unique (mem_of_firstKind hfound) hmem rfl
  exact congrArg (fun edge => some edge.2.2) heq

end FirstKind

/-- What a library for directed graphs offers.  Nodes have ids and are known by
their numbers, edges have kinds; several edges may have the same ends. -/
structure GraphLibrary (γ : Type) where
  empty : γ
  /-- Add a node, and tell its number. -/
  addNode : γ → String → Nat × γ
  addEdge : γ → Nat → Nat → EdgeKind → γ
  /-- The ids of the nodes, by their numbers. -/
  nodes : γ → List String
  /-- The edges in the order of their addition. -/
  edges : γ → List (Nat × Nat × EdgeKind)
  containsEdge : γ → Nat → Nat → Bool
  /-- The kind of an edge with the given ends. -/
  findEdge : γ → Nat → Nat → Option EdgeKind
  /-- The ends of the edges that start from a node, in any order. -/
  targets : γ → Nat → List Nat
  /-- The starts of the edges that end in a node, in any order. -/
  sources : γ → Nat → List Nat
  nodeCount : γ → Nat
  edgeCount : γ → Nat

/-- What is assumed of the operations of a library. -/
structure GraphLibrary.Lawful {γ : Type} (lib : GraphLibrary γ) : Prop where
  nodes_empty : lib.nodes lib.empty = []
  edges_empty : lib.edges lib.empty = []
  addNode_number : ∀ graph id, (lib.addNode graph id).1 = (lib.nodes graph).length
  nodes_addNode : ∀ graph id, lib.nodes (lib.addNode graph id).2 = lib.nodes graph ++ [id]
  edges_addNode : ∀ graph id, lib.edges (lib.addNode graph id).2 = lib.edges graph
  /-- Edges may be added between nodes of the graph. -/
  nodes_addEdge : ∀ graph i j kind,
    i < (lib.nodes graph).length → j < (lib.nodes graph).length →
      lib.nodes (lib.addEdge graph i j kind) = lib.nodes graph
  edges_addEdge : ∀ graph i j kind,
    i < (lib.nodes graph).length → j < (lib.nodes graph).length →
      lib.edges (lib.addEdge graph i j kind) = lib.edges graph ++ [(i, j, kind)]
  containsEdge : ∀ graph i j,
    lib.containsEdge graph i j = true ↔ ∃ kind, (i, j, kind) ∈ lib.edges graph
  findEdge_mem : ∀ graph i j kind,
    lib.findEdge graph i j = some kind → (i, j, kind) ∈ lib.edges graph
  findEdge_none : ∀ graph i j kind,
    lib.findEdge graph i j = none → (i, j, kind) ∉ lib.edges graph
  targets : ∀ graph i,
    (lib.targets graph i).Perm
      (((lib.edges graph).filter fun edge => edge.1 = i).map fun edge => edge.2.1)
  sources : ∀ graph j,
    (lib.sources graph j).Perm
      (((lib.edges graph).filter fun edge => edge.2.1 = j).map fun edge => edge.1)
  nodeCount : ∀ graph, lib.nodeCount graph = (lib.nodes graph).length
  edgeCount : ∀ graph, lib.edgeCount graph = (lib.edges graph).length

namespace GraphLibrary

/-- The library that keeps the nodes and the edges in two lists, and goes
through the edges from the last one to the first one. -/
def lists : GraphLibrary (List String × List (Nat × Nat × EdgeKind)) where
  empty := ([], [])
  addNode := fun graph id => (graph.1.length, graph.1 ++ [id], graph.2)
  addEdge := fun graph i j kind => (graph.1, graph.2 ++ [(i, j, kind)])
  nodes := Prod.fst
  edges := Prod.snd
  containsEdge := fun graph i j => (firstKind graph.2.reverse i j).isSome
  findEdge := fun graph => firstKind graph.2.reverse
  targets := fun graph i =>
    (graph.2.reverse.filter fun edge => edge.1 = i).map fun edge => edge.2.1
  sources := fun graph j =>
    (graph.2.reverse.filter fun edge => edge.2.1 = j).map fun edge => edge.1
  nodeCount := fun graph => graph.1.length
  edgeCount := fun graph => graph.2.length

theorem lawful_lists : lists.Lawful where
  nodes_empty := rfl
  edges_empty := rfl
  addNode_number := fun _ _ => rfl
  nodes_addNode := fun _ _ => rfl
  edges_addNode := fun _ _ => rfl
  nodes_addEdge := fun _ _ _ _ _ _ => rfl
  edges_addEdge := fun _ _ _ _ _ _ => rfl
  containsEdge := by
    intro graph i j
    constructor
    · intro h
      obtain ⟨kind, hkind⟩ := Option.isSome_iff_exists.1 h
      exact ⟨kind, List.mem_reverse.1 (mem_of_firstKind hkind)⟩
    · rintro ⟨kind, hmem⟩
      refine Option.isSome_iff_ne_none.2 fun hnone => ?_
      exact firstKind_eq_none_iff.1 hnone _ (List.mem_reverse.2 hmem) ⟨rfl, rfl⟩
  findEdge_mem := fun _ _ _ _ h => List.mem_reverse.1 (mem_of_firstKind h)
  findEdge_none := fun _ _ _ _ h hmem =>
    firstKind_eq_none_iff.1 h _ (List.mem_reverse.2 hmem) ⟨rfl, rfl⟩
  targets := fun graph _ => ((List.reverse_perm graph.2).filter _).map _
  sources := fun graph _ => ((List.reverse_perm graph.2).filter _).map _
  nodeCount := fun _ => rfl
  edgeCount := fun _ => rfl

end GraphLibrary

/-- A graph of a library, with the number of each id. -/
structure Wiring (γ : Type) where
  graph : γ
  numbers : NameTable Nat

namespace Wiring

variable {γ : Type}

section Definitions

variable (lib : GraphLibrary γ)

/-- Add a node. -/
def addNode (w : Wiring γ) (id : String) : Wiring γ where
  graph := (lib.addNode w.graph id).2
  numbers := w.numbers.insert id (lib.addNode w.graph id).1

/-- The wiring of nodes without an edge. -/
def ofNodes (ids : List String) : Wiring γ :=
  ids.foldl (addNode lib) ⟨lib.empty, .empty⟩

/-- Insert an edge between two ids, unless there is one with the same ends. -/
def addEdge (w : Wiring γ) (edge : String × String × EdgeKind) : Wiring γ :=
  match w.numbers.get? edge.1, w.numbers.get? edge.2.1 with
  | some i, some j =>
    if lib.containsEdge w.graph i j then w
    else { w with graph := lib.addEdge w.graph i j edge.2.2 }
  | _, _ => w

/-- The wiring of nodes with some insertions, one after the other. -/
def wire (ids : List String) (insertions : List (String × String × EdgeKind)) : Wiring γ :=
  insertions.foldl (addEdge lib) (ofNodes lib ids)

/-- The kind of the edge from one id to another. -/
def edgeKind? (w : Wiring γ) (source target : String) : Option EdgeKind :=
  (w.numbers.get? source).bind fun i =>
    (w.numbers.get? target).bind fun j => lib.findEdge w.graph i j

/-- The ids of the nodes that are next to a node, ascending. -/
def neighbors (next : γ → Nat → List Nat) (w : Wiring γ) (id : String) : List String :=
  match w.numbers.get? id with
  | none => []
  | some i => ((next w.graph i).filterMap fun j => (lib.nodes w.graph)[j]?).mergeSort

/-- What a node has edges to. -/
def dependencies : Wiring γ → String → List String :=
  neighbors lib lib.targets

/-- What has edges to a node. -/
def dependents : Wiring γ → String → List String :=
  neighbors lib lib.sources

/-- An edge with the ids of its ends. -/
def named (w : Wiring γ) (edge : Nat × Nat × EdgeKind) : String × String × EdgeKind :=
  (((lib.nodes w.graph)[edge.1]?).getD "", ((lib.nodes w.graph)[edge.2.1]?).getD "", edge.2.2)

/-- Ids and nodes correspond to each other, the ends of edges are nodes, no edge
leads back to its own node, and at most one edge joins an ordered pair. -/
structure WellWired (w : Wiring γ) : Prop where
  numbered : ∀ id i, w.numbers.get? id = some i ↔ (lib.nodes w.graph)[i]? = some id
  ends : ∀ edge ∈ lib.edges w.graph,
    edge.1 < (lib.nodes w.graph).length ∧ edge.2.1 < (lib.nodes w.graph).length
  loopless : ∀ edge ∈ lib.edges w.graph, edge.1 ≠ edge.2.1
  single : SingleEdges (lib.edges w.graph)

/-- The queries of the wiring have the answers of the graph. -/
structure Represents (w : Wiring γ) (g : DependencyGraph) : Prop where
  ids : w.numbers.names = g.ids
  nodeCount : lib.nodeCount w.graph = g.nodeCount
  edges : ((lib.edges w.graph).map (w.named lib)).Perm g.edges
  edgeCount : lib.edgeCount w.graph = g.edgeCount
  edgeKind? : ∀ u v, w.edgeKind? lib u v = g.edgeKind? u v
  dependencies : ∀ id, w.dependencies lib id = g.dependencies id
  dependents : ∀ id, w.dependents lib id = g.dependents id

end Definitions

variable {lib : GraphLibrary γ} {w : Wiring γ} {id u v : String} {i j : Nat} {kind : EdgeKind}
variable {edge : String × String × EdgeKind} {ids : List String}
variable {insertions : List (String × String × EdgeKind)}

section Nodes

variable (laws : lib.Lawful)

theorem getElem?_concat_eq_some_iff {list : List String} :
    (list ++ [u])[i]? = some v ↔ list[i]? = some v ∨ i = list.length ∧ u = v := by
  rcases Nat.lt_trichotomy i list.length with hlt | rfl | hgt
  · simp [List.getElem?_append_left hlt, hlt.ne]
  · simp
  · have hnone : ∀ more : List String, more.length ≤ i → more[i]? = none := fun _ hle =>
      List.getElem?_eq_none hle
    rw [hnone, hnone]
    · simp [hgt.ne']
    · omega
    · rw [List.length_append, List.length_singleton]
      omega

include laws in
theorem wellWired_empty : WellWired lib ⟨lib.empty, .empty⟩ where
  numbered := by simp [laws.nodes_empty]
  ends := by simp [laws.edges_empty]
  loopless := by simp [laws.edges_empty]
  single := by
    rw [laws.edges_empty]
    exact List.Pairwise.nil

include laws in
theorem WellWired.addNode (h : w.WellWired lib) (hnew : id ∉ lib.nodes w.graph) :
    (w.addNode lib id).WellWired lib where
  numbered := by
    intro key i
    rw [Wiring.addNode, NameTable.get?_insert, laws.nodes_addNode, laws.addNode_number,
      getElem?_concat_eq_some_iff]
    by_cases hkey : id = key
    · subst hkey
      have hnone : (lib.nodes w.graph)[i]? ≠ some id := fun hget =>
        hnew (List.mem_of_getElem? hget)
      simp [hnone, eq_comm]
    · simp [hkey, h.numbered]
  ends := by
    rw [Wiring.addNode, laws.nodes_addNode, laws.edges_addNode, List.length_append,
      List.length_singleton]
    intro edge hedge
    have hends := h.ends edge hedge
    omega
  loopless := by
    rw [Wiring.addNode, laws.edges_addNode]
    exact h.loopless
  single := by
    rw [Wiring.addNode, laws.edges_addNode]
    exact h.single

include laws in
theorem wellWired_ofNodes (hnodup : ids.Nodup) :
    (ofNodes lib ids).WellWired lib ∧ lib.nodes (ofNodes lib ids).graph = ids ∧
      lib.edges (ofNodes lib ids).graph = [] := by
  have hrun : ∀ w : Wiring γ, w.WellWired lib → (∀ id ∈ ids, id ∉ lib.nodes w.graph) →
      (ids.foldl (Wiring.addNode lib) w).WellWired lib ∧
        lib.nodes (ids.foldl (Wiring.addNode lib) w).graph = lib.nodes w.graph ++ ids ∧
        lib.edges (ids.foldl (Wiring.addNode lib) w).graph = lib.edges w.graph := by
    induction ids with
    | nil => exact fun w h _ => ⟨h, (List.append_nil _).symm, rfl⟩
    | cons head rest ih =>
        intro w h hfresh
        obtain ⟨hnot, hrest⟩ := List.nodup_cons.1 hnodup
        have hnodes : lib.nodes (w.addNode lib head).graph = lib.nodes w.graph ++ [head] :=
          laws.nodes_addNode ..
        have hfresh' : ∀ id ∈ rest, id ∉ lib.nodes (w.addNode lib head).graph := by
          intro id hid hmem
          rw [hnodes, List.mem_append, List.mem_singleton] at hmem
          rcases hmem with hold | rfl
          · exact hfresh id (List.mem_cons_of_mem _ hid) hold
          · exact hnot hid
        obtain ⟨hwired, hids, hedges⟩ :=
          ih hrest _ (h.addNode laws (hfresh head (List.mem_cons_self ..))) hfresh'
        refine ⟨hwired, ?_, hedges.trans (laws.edges_addNode ..)⟩
        rw [List.foldl_cons, hids, hnodes, List.append_assoc, List.singleton_append]
  obtain ⟨hwired, hids, hedges⟩ := hrun _ (wellWired_empty laws) fun _ _ => by
    rw [laws.nodes_empty]
    exact List.not_mem_nil
  exact ⟨hwired, hids.trans (by rw [laws.nodes_empty, List.nil_append]),
    hedges.trans laws.edges_empty⟩

theorem WellWired.exists_number (h : w.WellWired lib) (hid : id ∈ lib.nodes w.graph) :
    ∃ i, w.numbers.get? id = some i := by
  obtain ⟨i, hi⟩ := List.mem_iff_getElem?.1 hid
  exact ⟨i, (h.numbered id i).2 hi⟩

theorem WellWired.number_lt (h : w.WellWired lib) (hid : w.numbers.get? id = some i) :
    i < (lib.nodes w.graph).length :=
  (List.getElem?_eq_some_iff.1 ((h.numbered id i).1 hid)).1

/-- Different ids have different numbers. -/
theorem WellWired.number_injective (h : w.WellWired lib)
    (hu : w.numbers.get? u = some i) (hv : w.numbers.get? v = some j) : i = j ↔ u = v := by
  constructor
  · rintro rfl
    exact Option.some.inj (((h.numbered u i).1 hu).symm.trans ((h.numbered v i).1 hv))
  · rintro rfl
    exact Option.some.inj (hu.symm.trans hv)

theorem WellWired.mem_names_iff (h : w.WellWired lib) :
    id ∈ w.numbers.names ↔ id ∈ lib.nodes w.graph := by
  rw [NameTable.mem_names_iff_get?, List.mem_iff_getElem?]
  exact exists_congr (h.numbered id)

end Nodes

section Insertions

variable (laws : lib.Lawful)

include laws

/-- Where no two edges have the same ends, it does not matter which one is
found. -/
theorem WellWired.edgeKind?_eq (h : w.WellWired lib) (u v : String) :
    w.edgeKind? lib u v =
      (w.numbers.get? u).bind fun i =>
        (w.numbers.get? v).bind fun j => firstKind (lib.edges w.graph) i j := by
  have hfind : ∀ i j, lib.findEdge w.graph i j = firstKind (lib.edges w.graph) i j := by
    intro i j
    cases hfound : lib.findEdge w.graph i j with
    | some kind => exact (h.single.firstKind_eq_some_iff.2 (laws.findEdge_mem _ _ _ _ hfound)).symm
    | none =>
        refine (firstKind_eq_none_iff.2 fun e he hends => ?_).symm
        obtain ⟨rfl, rfl⟩ := hends
        exact laws.findEdge_none _ _ _ e.2.2 hfound he
  simp only [edgeKind?, hfind]

/-- Between known ids an edge is refused only if there is one. -/
theorem addEdge_cases (hi : w.numbers.get? edge.1 = some i)
    (hj : w.numbers.get? edge.2.1 = some j) :
    (∃ kind, firstKind (lib.edges w.graph) i j = some kind) ∧ w.addEdge lib edge = w ∨
      firstKind (lib.edges w.graph) i j = none ∧
        w.addEdge lib edge = { w with graph := lib.addEdge w.graph i j edge.2.2 } := by
  have hcontains := laws.containsEdge w.graph i j
  rw [Wiring.addEdge, hi, hj]
  cases hfirst : firstKind (lib.edges w.graph) i j with
  | some kind =>
      exact Or.inl ⟨⟨kind, rfl⟩, if_pos (hcontains.2 ⟨kind, mem_of_firstKind hfirst⟩)⟩
  | none =>
      refine Or.inr ⟨rfl, if_neg fun hyes => ?_⟩
      obtain ⟨kind, hmem⟩ := hcontains.1 hyes
      exact firstKind_eq_none_iff.1 hfirst _ hmem ⟨rfl, rfl⟩

/-- An edge between two nodes that none joins keeps a wiring in order. -/
theorem WellWired.append (h : w.WellWired lib) (hi : i < (lib.nodes w.graph).length)
    (hj : j < (lib.nodes w.graph).length) (hne : i ≠ j)
    (hfirst : firstKind (lib.edges w.graph) i j = none) (kind : EdgeKind) :
    WellWired lib { w with graph := lib.addEdge w.graph i j kind } where
  numbered := by
    rw [laws.nodes_addEdge _ _ _ _ hi hj]
    exact h.numbered
  ends := by
    rw [laws.nodes_addEdge _ _ _ _ hi hj, laws.edges_addEdge _ _ _ _ hi hj]
    intro e he
    rcases List.mem_append.1 he with hold | hnew
    · exact h.ends e hold
    · cases List.mem_singleton.1 hnew
      exact ⟨hi, hj⟩
  loopless := by
    rw [laws.edges_addEdge _ _ _ _ hi hj]
    intro e he
    rcases List.mem_append.1 he with hold | hnew
    · exact h.loopless e hold
    · cases List.mem_singleton.1 hnew
      exact hne
  single := by
    rw [laws.edges_addEdge _ _ _ _ hi hj]
    refine List.pairwise_append.2 ⟨h.single, List.pairwise_singleton .., fun e he f hf hends => ?_⟩
    cases List.mem_singleton.1 hf
    rw [Prod.mk.injEq] at hends
    exact firstKind_eq_none_iff.1 hfirst e he hends

/-- What an edge between two numbers changes, it changes for their ids. -/
theorem WellWired.edgeKind?_append (h : w.WellWired lib)
    (h' : WellWired lib { w with graph := lib.addEdge w.graph i j edge.2.2 })
    (hi : w.numbers.get? edge.1 = some i) (hj : w.numbers.get? edge.2.1 = some j)
    (u v : String) :
    edgeKind? lib { w with graph := lib.addEdge w.graph i j edge.2.2 } u v =
      (w.edgeKind? lib u v).or (firstKind [edge] u v) := by
  rw [h'.edgeKind?_eq laws, h.edgeKind?_eq laws, firstKind_singleton,
    laws.edges_addEdge _ _ _ _ (h.number_lt hi) (h.number_lt hj)]
  cases hu : w.numbers.get? u with
  | none =>
      have hends : ¬ (edge.1 = u ∧ edge.2.1 = v) := by
        rintro ⟨rfl, -⟩
        simp [hu] at hi
      rw [if_neg hends]
      rfl
  | some a =>
      cases hv : w.numbers.get? v with
      | none =>
          have hends : ¬ (edge.1 = u ∧ edge.2.1 = v) := by
            rintro ⟨-, rfl⟩
            simp [hv] at hj
          rw [if_neg hends]
          rfl
      | some b =>
          simp only [Option.bind_some, firstKind_append, firstKind_singleton,
            h.number_injective hi hu, h.number_injective hj hv]

/-- An insertion between two different ids keeps a wiring in order, and it is
found later, if there was none between them. -/
theorem WellWired.addEdge (h : w.WellWired lib)
    (hsource : edge.1 ∈ lib.nodes w.graph) (htarget : edge.2.1 ∈ lib.nodes w.graph)
    (hne : edge.1 ≠ edge.2.1) :
    (w.addEdge lib edge).WellWired lib ∧
      lib.nodes (w.addEdge lib edge).graph = lib.nodes w.graph ∧
      ∀ u v, (w.addEdge lib edge).edgeKind? lib u v =
        (w.edgeKind? lib u v).or (firstKind [edge] u v) := by
  obtain ⟨i, hi⟩ := h.exists_number hsource
  obtain ⟨j, hj⟩ := h.exists_number htarget
  rcases addEdge_cases laws hi hj with ⟨⟨kind, hfirst⟩, heq⟩ | ⟨hfirst, heq⟩
  · refine ⟨by rwa [heq], by rw [heq], fun u v => ?_⟩
    rw [heq, firstKind_singleton]
    split
    · next hends =>
        obtain ⟨rfl, rfl⟩ := hends
        rw [h.edgeKind?_eq laws, hi, hj, Option.bind_some, Option.bind_some, hfirst,
          Option.some_or]
    · rw [Option.or_none]
  · have hdiffer : i ≠ j := mt (h.number_injective hi hj).1 hne
    have hwired := h.append laws (h.number_lt hi) (h.number_lt hj) hdiffer hfirst edge.2.2
    rw [heq]
    exact ⟨hwired, laws.nodes_addEdge _ _ _ _ (h.number_lt hi) (h.number_lt hj),
      h.edgeKind?_append laws hwired hi hj⟩

/-- Of several insertions between two ids the first one is found. -/
theorem WellWired.run (h : w.WellWired lib)
    (hsound : ∀ edge ∈ insertions,
      edge.1 ∈ lib.nodes w.graph ∧ edge.2.1 ∈ lib.nodes w.graph ∧ edge.1 ≠ edge.2.1) :
    (insertions.foldl (Wiring.addEdge lib) w).WellWired lib ∧
      lib.nodes (insertions.foldl (Wiring.addEdge lib) w).graph = lib.nodes w.graph ∧
      ∀ u v, (insertions.foldl (Wiring.addEdge lib) w).edgeKind? lib u v =
        (w.edgeKind? lib u v).or (firstKind insertions u v) := by
  induction insertions generalizing w with
  | nil => exact ⟨h, rfl, fun u v => (Option.or_none).symm⟩
  | cons head rest ih =>
      obtain ⟨hsource, htarget, hne⟩ := hsound head (List.mem_cons_self ..)
      obtain ⟨hwired, hnodes, hkind⟩ := h.addEdge laws hsource htarget hne
      obtain ⟨hwired', hnodes', hkind'⟩ := ih hwired fun edge hedge => by
        rw [hnodes]
        exact hsound edge (List.mem_cons_of_mem _ hedge)
      refine ⟨hwired', hnodes'.trans hnodes, fun u v => ?_⟩
      rw [List.foldl_cons, hkind', hkind, Option.or_assoc, ← firstKind_append,
        List.singleton_append]

theorem wellWired_wire (hnodup : ids.Nodup)
    (hsound : ∀ edge ∈ insertions, edge.1 ∈ ids ∧ edge.2.1 ∈ ids ∧ edge.1 ≠ edge.2.1) :
    (wire lib ids insertions).WellWired lib ∧
      lib.nodes (wire lib ids insertions).graph = ids ∧
      ∀ u v, (wire lib ids insertions).edgeKind? lib u v = firstKind insertions u v := by
  obtain ⟨hwired, hnodes, hedges⟩ := wellWired_ofNodes laws hnodup
  have hnone : ∀ u v, (ofNodes lib ids).edgeKind? lib u v = none := by
    intro u v
    rw [hwired.edgeKind?_eq laws, hedges]
    cases (ofNodes lib ids).numbers.get? u with
    | none => rfl
    | some i => cases (ofNodes lib ids).numbers.get? v <;> rfl
  obtain ⟨hwired', hnodes', hkind⟩ := hwired.run laws (by rwa [hnodes])
  refine ⟨hwired', hnodes'.trans hnodes, fun u v => ?_⟩
  rw [wire, hkind, hnone, Option.none_or]

end Insertions

section Queries

variable (laws : lib.Lawful)

include laws in
theorem WellWired.edgeKind?_eq_some_iff (h : w.WellWired lib) :
    w.edgeKind? lib u v = some kind ↔
      ∃ i j, w.numbers.get? u = some i ∧ w.numbers.get? v = some j ∧
        (i, j, kind) ∈ lib.edges w.graph := by
  simp only [h.edgeKind?_eq laws, Option.bind_eq_some_iff, h.single.firstKind_eq_some_iff,
    exists_and_left]

theorem WellWired.named_eq_iff (h : w.WellWired lib) {e : Nat × Nat × EdgeKind}
    (he : e ∈ lib.edges w.graph) :
    w.named lib e = (u, v, kind) ↔
      w.numbers.get? u = some e.1 ∧ w.numbers.get? v = some e.2.1 ∧ e.2.2 = kind := by
  obtain ⟨hi, hj⟩ := h.ends e he
  rw [named, Prod.mk.injEq, Prod.mk.injEq, h.numbered, h.numbered, List.getElem?_eq_getElem hi,
    List.getElem?_eq_getElem hj, Option.getD_some, Option.getD_some, Option.some.injEq,
    Option.some.injEq]

include laws in
theorem WellWired.mem_map_named_iff (h : w.WellWired lib) :
    (u, v, kind) ∈ (lib.edges w.graph).map (w.named lib) ↔
      w.edgeKind? lib u v = some kind := by
  rw [h.edgeKind?_eq_some_iff laws, List.mem_map]
  constructor
  · rintro ⟨e, he, hnamed⟩
    obtain ⟨hi, hj, rfl⟩ := (h.named_eq_iff he).1 hnamed
    exact ⟨e.1, e.2.1, hi, hj, he⟩
  · rintro ⟨i, j, hi, hj, hmem⟩
    exact ⟨_, hmem, (h.named_eq_iff hmem).2 ⟨hi, hj, rfl⟩⟩

theorem WellWired.single_map_named (h : w.WellWired lib) :
    SingleEdges ((lib.edges w.graph).map (w.named lib)) := by
  refine List.pairwise_map.2 (h.single.imp_of_mem fun {e f} he hf hne heq => hne ?_)
  have hnumbers : ∀ e ∈ lib.edges w.graph,
      w.numbers.get? (w.named lib e).1 = some e.1 ∧
        w.numbers.get? (w.named lib e).2.1 = some e.2.1 := fun e he =>
    (h.named_eq_iff he).1 rfl |>.imp_right And.left
  obtain ⟨hi, hj⟩ := hnumbers e he
  obtain ⟨hi', hj'⟩ := hnumbers f hf
  obtain ⟨hsource, htarget⟩ := Prod.mk.inj heq
  rw [hsource, hi', Option.some.injEq] at hi
  rw [htarget, hj', Option.some.injEq] at hj
  rw [hi, hj]

variable {next : γ → Nat → List Nat}

theorem WellWired.mem_neighbors_iff (h : w.WellWired lib) :
    v ∈ w.neighbors lib next u ↔
      ∃ i j, w.numbers.get? u = some i ∧ w.numbers.get? v = some j ∧ j ∈ next w.graph i := by
  rw [neighbors]
  cases w.numbers.get? u with
  | none => simp
  | some i =>
      simp only [List.mem_mergeSort, List.mem_filterMap, ← h.numbered, Option.some.injEq]
      constructor
      · rintro ⟨j, hj, hv⟩
        exact ⟨i, j, rfl, hv, hj⟩
      · rintro ⟨_, j, rfl, hv, hj⟩
        exact ⟨j, hj, hv⟩

/-- Where no node is met twice, no id is. -/
theorem WellWired.pairwise_neighbors (h : w.WellWired lib)
    (hnext : ∀ i, (next w.graph i).Nodup) (id : String) :
    (w.neighbors lib next id).Pairwise (· < ·) := by
  rw [neighbors]
  cases w.numbers.get? id with
  | none => exact List.Pairwise.nil
  | some i =>
      have hnodup : ((next w.graph i).filterMap fun j => (lib.nodes w.graph)[j]?).Nodup := by
        refine (hnext i).filterMap fun a b name ha hb => ?_
        exact Option.some.inj (((h.numbered name a).2 ha).symm.trans ((h.numbered name b).2 hb))
      exact pairwise_lt_mergeSort hnodup

include laws in
theorem WellWired.nodup_targets (h : w.WellWired lib) (i : Nat) :
    (lib.targets w.graph i).Nodup := by
  rw [(laws.targets w.graph i).nodup_iff]
  exact h.single.nodup_ends (fun _ _ hsource htarget => Prod.ext hsource htarget) i

include laws in
theorem WellWired.nodup_sources (h : w.WellWired lib) (j : Nat) :
    (lib.sources w.graph j).Nodup := by
  rw [(laws.sources w.graph j).nodup_iff]
  exact h.single.nodup_ends (fun _ _ htarget hsource => Prod.ext hsource htarget) j

include laws in
theorem mem_targets_iff :
    j ∈ lib.targets w.graph i ↔ ∃ kind, (i, j, kind) ∈ lib.edges w.graph := by
  rw [(laws.targets w.graph i).mem_iff]
  simp

include laws in
theorem mem_sources_iff :
    i ∈ lib.sources w.graph j ↔ ∃ kind, (i, j, kind) ∈ lib.edges w.graph := by
  rw [(laws.sources w.graph j).mem_iff]
  simp

include laws in
theorem WellWired.mem_dependencies_iff (h : w.WellWired lib) :
    v ∈ w.dependencies lib u ↔ ∃ kind, w.edgeKind? lib u v = some kind := by
  rw [dependencies, h.mem_neighbors_iff]
  simp only [h.edgeKind?_eq_some_iff laws, mem_targets_iff laws]
  constructor
  · rintro ⟨i, j, hi, hj, kind, hmem⟩
    exact ⟨kind, i, j, hi, hj, hmem⟩
  · rintro ⟨kind, i, j, hi, hj, hmem⟩
    exact ⟨i, j, hi, hj, kind, hmem⟩

include laws in
theorem WellWired.mem_dependents_iff (h : w.WellWired lib) :
    u ∈ w.dependents lib v ↔ ∃ kind, w.edgeKind? lib u v = some kind := by
  rw [dependents, h.mem_neighbors_iff]
  simp only [h.edgeKind?_eq_some_iff laws, mem_sources_iff laws]
  constructor
  · rintro ⟨j, i, hj, hi, kind, hmem⟩
    exact ⟨kind, i, j, hi, hj, hmem⟩
  · rintro ⟨kind, i, j, hi, hj, hmem⟩
    exact ⟨j, i, hj, hi, kind, hmem⟩

include laws in
/-- A wiring that finds the edges of a graph has just these. -/
theorem represents_wire {g : DependencyGraph} (hids : g.ids = ids)
    (hsound : ∀ edge ∈ insertions, edge.1 ∈ ids ∧ edge.2.1 ∈ ids ∧ edge.1 ≠ edge.2.1)
    (hkind : ∀ u v, firstKind insertions u v = g.edgeKind? u v) :
    (wire lib ids insertions).WellWired lib ∧ (wire lib ids insertions).Represents lib g := by
  have hnodup : ids.Nodup := hids ▸ g.nodup_ids
  obtain ⟨hwired, hnodes, hfound⟩ := wellWired_wire laws hnodup hsound
  have hsame : ∀ u v, (wire lib ids insertions).edgeKind? lib u v = g.edgeKind? u v :=
    fun u v => (hfound u v).trans (hkind u v)
  have hedges : ((lib.edges (wire lib ids insertions).graph).map
      ((wire lib ids insertions).named lib)).Perm g.edges := by
    refine (List.perm_ext_iff_of_nodup hwired.single_map_named.nodup g.nodup_edges).2 ?_
    rintro ⟨u, v, kind⟩
    rw [hwired.mem_map_named_iff laws, DependencyGraph.mem_edges_iff, hsame]
  refine ⟨hwired, ⟨?_, ?_, hedges, ?_, hsame, fun id => ?_, fun id => ?_⟩⟩
  · refine (NameTable.pairwise_names _).eq_of_mem_iff (NameTable.pairwise_names g.rows) fun id => ?_
    rw [hwired.mem_names_iff, hnodes, ← hids, DependencyGraph.ids]
  · rw [laws.nodeCount, hnodes, ← hids]
    exact NameTable.length_names g.rows
  · rw [laws.edgeCount, ← g.length_edges, ← hedges.length_eq, List.length_map]
  · refine (hwired.pairwise_neighbors (hwired.nodup_targets laws) id).eq_of_mem_iff
      (g.pairwise_dependencies id) fun v => ?_
    show v ∈ (wire lib ids insertions).dependencies lib id ↔ _
    rw [hwired.mem_dependencies_iff laws, DependencyGraph.mem_dependencies_iff_edgeKind?]
    simp only [hsame]
  · refine (hwired.pairwise_neighbors (hwired.nodup_sources laws) id).eq_of_mem_iff
      (g.pairwise_dependents id) fun u => ?_
    show u ∈ (wire lib ids insertions).dependents lib id ↔ _
    rw [hwired.mem_dependents_iff laws, DependencyGraph.mem_dependents_iff, DependencyGraph.Edge,
      DependencyGraph.mem_dependencies_iff_edgeKind?]
    simp only [hsame]

end Queries

end Wiring
end CloudTemplate
