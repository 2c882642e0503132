import Mathlib.Data.Set.Card
import CloudTemplate.Proofs.Graph.EmissionTurns

/-!
# The turns of the release loop

Every turn of the loop takes the least of the ready names and counts down the names
that depend on it, one after the other (`Release.Loop`).  The counts start from the
dependencies of the names, but are taken down along their dependents; as the two are
the same relation read from both ends, a name that is counted down still waits for the
name of the turn.  So its count is positive, and it is not ready yet
(`Tracks.counted`).

A name becomes ready when its count gets to zero.  What is ready or has been taken
before a turn, and what becomes ready in it, is ready or has been taken after it
(`Tracks.pushed_perm`), so no name becomes ready twice.

Main statement: this holds of both loops, over the nodes of a graph without cycles and
over the components of any graph, and in the end nothing is ready and all counts are
zero (`DependencyGraph.releases_counted_exactly`).
-/

namespace CloudTemplate

namespace Adjacency

variable {a : Adjacency} {done : List String} {id u v : String}

/-- A name waits for the names of its row that have not been released. -/
theorem waiting_eq_ncard (a : Adjacency) (done : List String) (id : String) :
    a.waiting done id = {dep | dep ∈ a.row id ∧ dep ∉ done}.ncard := by
  have hset : {dep | dep ∈ a.row id ∧ dep ∉ done} =
      (((a.row id).filter fun dep => !done.contains dep).toFinset : Set String) := by
    ext dep
    simp
  rw [hset, Set.ncard_coe_finset, List.toFinset_card_of_nodup ((a.nodup_row id).filter _),
    waiting, List.countP_eq_length_filter]

/-- A ready name does not wait for a name that has not been released. -/
theorem Ready.not_mem_row (hready : a.Ready done u) (hid : id ∉ done) : id ∉ a.row u :=
  fun hrow => hid (hready.released id hrow)

end Adjacency

namespace Release

open Adjacency

/-- A turn of the loop: the state in which it begins, and the name that it takes. -/
structure Turn where
  state : Release
  id : String

/-- The state in a turn once its name is taken and the given names are counted down. -/
def Turn.counted (turn : Turn) (ids : List String) : Release :=
  ids.foldl countDown { turn.state with ready := turn.state.ready.erase turn.id }

/-- Counting the name down gets its count to zero. -/
def CountsOut (r : Release) (id : String) : Prop :=
  ∃ count, r.remaining.get? id = some count ∧ count - 1 = 0

instance (r : Release) (id : String) : Decidable (r.CountsOut id) :=
  decidable_of_iff ((r.remaining.get? id).any fun count => count - 1 = 0) <| by
    simp [CountsOut, Option.any_eq_true]

/-- The names that are pushed on the ready ones while the given names are counted down. -/
def pushes : Release → List String → List String
  | _, [] => []
  | r, id :: ids =>
    if r.CountsOut id then id :: (r.countDown id).pushes ids else (r.countDown id).pushes ids

/-- The names that become ready in a turn. -/
def Turn.pushed (a : Adjacency) (turn : Turn) : List String :=
  (turn.counted []).pushes (a.dependents turn.id)

/-- The loop from one state to another one in which nothing is ready, with its turns. -/
inductive Loop (a : Adjacency) : Release → List Turn → Release → Prop
  | done {r : Release} (idle : r.step a = none) : Loop a r [] r
  | turn {r next final : Release} {id : String} {turns : List Turn}
      (taken : r.step a = some (id, next)) (rest : Loop a next turns final) :
      Loop a r (⟨r, id⟩ :: turns) final

variable {a : Adjacency} {r next final : Release} {turn : Turn} {turns : List Turn}
variable {done ids front back : List String} {id u : String}

section Pushes

theorem pushes_eq_filter (hnodup : ids.Nodup) (r : Release) :
    r.pushes ids = ids.filter fun id => r.CountsOut id := by
  induction ids generalizing r with
  | nil => rfl
  | cons head rest ih =>
      obtain ⟨hnot, hrest⟩ := List.nodup_cons.1 hnodup
      have hlater : (rest.filter fun id => (r.countDown head).CountsOut id) =
          rest.filter fun id => r.CountsOut id := by
        refine List.filter_congr fun id hid => decide_eq_decide.2 ?_
        have hne : ¬ head = id := fun heq => hnot (heq ▸ hid)
        rw [CountsOut, CountsOut, get?_countDown, if_neg hne]
      rw [pushes, ih hrest, hlater, List.filter_cons]
      by_cases hout : r.CountsOut head
      · simp [hout]
      · simp [hout]

end Pushes

section Turns

theorem step_eq_none_iff : r.step a = none ↔ r.ready.names = [] := by
  unfold step
  split
  · next hnone => simp [hnone]
  · next hsome => simp [hsome]

/-- A turn takes a ready name and releases it. -/
theorem Tracks.of_step
    (h : r.Tracks a done) (hstep : r.step a = some (id, next)) :
    a.Ready done id ∧ next = r.release a id := by
  unfold step at hstep
  split at hstep
  · cases hstep
  · next hnames =>
      simp only [Option.some.injEq, Prod.mk.injEq] at hstep
      obtain ⟨rfl, rfl⟩ := hstep
      exact ⟨(h.ready _).1 (by simp [hnames]), rfl⟩

variable (h : turn.state.Tracks a done) (hready : a.Ready done turn.id)
include h hready

/-- Before it is counted down, a name waits for one name more than after the turn. -/
theorem Tracks.get?_of_mem_dependents (hu : u ∈ a.dependents turn.id) :
    turn.state.remaining.get? u = some (a.waiting (turn.id :: done) u + 1) := by
  have hrow := mem_dependents_iff.1 hu
  rw [h.remaining, if_pos (mem_names_of_mem_row hrow), waiting_cons_of_mem hready.fresh hrow]

theorem Tracks.not_ready_of_mem_dependents (hu : u ∈ a.dependents turn.id) :
    u ∉ turn.state.ready.names :=
  fun hmem => ((h.ready u).1 hmem).not_mem_row hready.fresh (mem_dependents_iff.1 hu)

/-- When a name is counted down, its count is positive and it is not ready. -/
theorem Tracks.counted (hsplit : a.dependents turn.id = front ++ u :: back) :
    (∃ count, (turn.counted front).remaining.get? u = some (count + 1)) ∧
      u ∉ (turn.counted front).ready.names := by
  have hnodup := a.nodup_dependents turn.id
  have hu : u ∈ a.dependents turn.id := by simp [hsplit]
  rw [hsplit, List.nodup_append] at hnodup
  obtain ⟨hfront, -, hdisjoint⟩ := hnodup
  have hnot : u ∉ front := fun hmem => hdisjoint u hmem u (List.mem_cons_self ..) rfl
  obtain ⟨hremaining, hqueued⟩ := foldl_countDown hfront
    { turn.state with ready := turn.state.ready.erase turn.id }
  constructor
  -- The names counted down before it are others, so its count is that of the turn's start.
  · refine ⟨a.waiting (turn.id :: done) u, ?_⟩
    rw [Turn.counted, hremaining, if_neg hnot]
    exact h.get?_of_mem_dependents hready hu
  · rw [Turn.counted, hqueued]
    rintro (hmem | ⟨hmem, -⟩)
    · exact h.not_ready_of_mem_dependents hready hu (NameTable.mem_names_erase.1 hmem).1
    · exact hnot hmem

/-- What becomes ready in a turn has not been ready before. -/
theorem Tracks.pushed_perm :
    (turn.id :: (turn.state.release a turn.id).ready.names).Perm
      (turn.pushed a ++ turn.state.ready.names) := by
  have hdependents := a.nodup_dependents turn.id
  have hpushed : turn.pushed a =
      (a.dependents turn.id).filter fun id => (turn.counted []).CountsOut id :=
    pushes_eq_filter hdependents _
  have hnext := h.release hready
  have hleft : (turn.id :: (turn.state.release a turn.id).ready.names).Nodup := by
    refine List.nodup_cons.2 ⟨fun hmem => ?_, NameTable.nodup_names _⟩
    exact ((hnext.ready _).1 hmem).fresh (List.mem_cons_self ..)
  have hright : (turn.pushed a ++ turn.state.ready.names).Nodup := by
    rw [hpushed]
    refine (hdependents.filter _).append (NameTable.nodup_names _) fun u hu => ?_
    exact h.not_ready_of_mem_dependents hready (List.mem_filter.1 hu).1
  -- Neither side has a name twice, so it is enough that they have the same names.
  obtain ⟨-, hqueued⟩ := foldl_countDown hdependents
    { turn.state with ready := turn.state.ready.erase turn.id }
  refine (List.perm_ext_iff_of_nodup hleft hright).2 fun u => ?_
  have hu : u ∈ (turn.state.release a turn.id).ready.names ↔
      u ∈ (turn.state.ready.erase turn.id).names ∨
        u ∈ a.dependents turn.id ∧ (turn.counted []).CountsOut u := hqueued u
  rw [List.mem_cons, hu, NameTable.mem_names_erase, List.mem_append, hpushed, List.mem_filter,
    decide_eq_true_eq]
  by_cases heq : u = turn.id
  · subst heq
    simp [(h.ready _).2 hready]
  · simp [heq, or_comm]

end Turns

section Loop

theorem Loop.tracks
    (hloop : Loop a r turns final) (h : r.Tracks a done) :
    final.Tracks a ((turns.map Turn.id).reverse ++ done) ∧ final.ready.names = [] := by
  induction hloop generalizing done with
  | done hidle => exact ⟨h, step_eq_none_iff.1 hidle⟩
  | turn htaken _ ih =>
      obtain ⟨hready, rfl⟩ := h.of_step htaken
      simpa using ih (h.release hready)

/-- What is known when a turn begins. -/
theorem Loop.tracks_of_split
    {before after : List Turn} (hloop : Loop a r turns final) (h : r.Tracks a done)
    (hsplit : turns = before ++ turn :: after) :
    turn.state.Tracks a ((before.map Turn.id).reverse ++ done) ∧
      a.Ready ((before.map Turn.id).reverse ++ done) turn.id := by
  induction hloop generalizing done before with
  | done _ => simp at hsplit
  | turn htaken _ ih =>
      obtain ⟨hready, rfl⟩ := h.of_step htaken
      cases before with
      | nil =>
          simp only [List.nil_append, List.cons.injEq] at hsplit
          obtain ⟨rfl, -⟩ := hsplit
          exact ⟨h, hready⟩
      | cons first before =>
          simp only [List.cons_append, List.cons.injEq] at hsplit
          obtain ⟨rfl, hsplit⟩ := hsplit
          simpa using ih (h.release hready) hsplit

/-- Every name that is ready at first or becomes ready is taken or is ready in the end. -/
theorem Loop.pushed_perm (hloop : Loop a r turns final) (h : r.Tracks a done) :
    (r.ready.names ++ turns.flatMap (Turn.pushed a)).Perm
      (turns.map Turn.id ++ final.ready.names) := by
  induction hloop generalizing done with
  | done _ => simp
  | @turn r next final id turns htaken _ ih =>
      obtain ⟨hready, rfl⟩ := h.of_step htaken
      have hturn := @Tracks.pushed_perm a ⟨r, id⟩ done h hready
      rw [List.flatMap_cons, List.map_cons, List.cons_append, ← List.append_assoc]
      refine ((List.perm_append_comm.trans hturn.symm).append_right _).trans ?_
      exact .cons _ (ih (h.release hready))

/-- The loop ends, and the bound on the number of names is not what ends it. -/
theorem Tracks.exists_loop
    (h : r.Tracks a done) (hnodup : done.Nodup)
    (hsub : ∀ u ∈ done, u ∈ NameTable.names a) {steps : Nat}
    (hsteps : NameTable.size a ≤ done.length + steps) :
    ∃ turns final, Loop a r turns final ∧ r.run a steps = turns.map Turn.id := by
  induction steps generalizing r done with
  | zero =>
      have hnone := h.run hnodup hsub hsteps
      have hempty : r.ready.names = [] :=
        List.eq_nil_iff_forall_not_mem.2 fun id hid => hnone id ((h.ready id).1 hid)
      exact ⟨_, _, .done (step_eq_none_iff.2 hempty), rfl⟩
  | succ steps ih =>
      cases hstep : r.step a with
      | none => exact ⟨_, _, .done hstep, by simp [Release.run, hstep]⟩
      | some taken =>
          obtain ⟨id, next⟩ := taken
          obtain ⟨hready, rfl⟩ := h.of_step hstep
          obtain ⟨turns, final, hloop, hrun⟩ := ih (h.release hready)
            (List.nodup_cons.2 ⟨hready.fresh, hnodup⟩)
            (List.forall_mem_cons.2 ⟨hready.mem, hsub⟩) (by rw [List.length_cons]; omega)
          exact ⟨_, _, .turn hstep hloop, by simp [Release.run, hstep, hrun]⟩

end Loop

section Exact

/-- The turns of a loop over the given nodes that counts what each of them needs. -/
structure Exact (a : Adjacency) (nodes : List String) (Needs : String → String → Prop)
    (turns : List Turn) (final : Release) : Prop where
  /-- Every count is the number of needed nodes that have not been taken. -/
  counts : ∀ before turn after, turns = before ++ turn :: after → ∀ u ∈ nodes,
    turn.state.remaining.get? u = some {v | Needs u v ∧ v ∉ before.map Turn.id}.ncard
  /-- A turn counts down the nodes that need the one it takes, each once. -/
  dependents : ∀ turn ∈ turns, (a.dependents turn.id).Nodup ∧
    ∀ u, u ∈ a.dependents turn.id ↔ u ∈ nodes ∧ Needs u turn.id
  /-- When a node is counted down, its count is positive and it is not ready. -/
  positive : ∀ turn ∈ turns, ∀ front u back, a.dependents turn.id = front ++ u :: back →
    (∃ count, (turn.counted front).remaining.get? u = some (count + 1)) ∧
      u ∉ (turn.counted front).ready.names
  /-- Every node is pushed on the ready ones once, at first or in a turn. -/
  pushed : ((start a).ready.names ++ turns.flatMap (Turn.pushed a)).Perm nodes
  /-- Every node is taken once. -/
  taken : (turns.map Turn.id).Perm nodes
  /-- In the end nothing is ready. -/
  idle : final.ready.names = []
  /-- In the end all counts are zero. -/
  zero : ∀ u ∈ nodes, final.remaining.get? u = some 0

/-- Without cycles the loop takes every name, and counts exactly. -/
theorem exists_loop_exact (hacyclic : a.Acyclic) (hgrounded : a.Grounded) :
    ∃ turns final, Loop a (start a) turns final ∧ a.releaseOrder = turns.map Turn.id ∧
      Exact a (NameTable.names a) (fun u v => v ∈ a.row u) turns final := by
  have hstart := tracks_start a
  obtain ⟨turns, final, hloop, horder⟩ : ∃ turns final,
      Loop a (start a) turns final ∧ a.releaseOrder = turns.map Turn.id :=
    hstart.exists_loop List.nodup_nil (by simp) (by simp)
  have htaken : (turns.map Turn.id).Perm (NameTable.names a) :=
    horder ▸ (releaseOrder_leastFirst a).perm_of_acyclic hacyclic hgrounded
  obtain ⟨hfinal, hidle⟩ := hloop.tracks hstart
  have hturn : ∀ turn ∈ turns, ∃ done, turn.state.Tracks a done ∧ a.Ready done turn.id := by
    intro turn hmem
    obtain ⟨before, after, hsplit⟩ := List.append_of_mem hmem
    exact ⟨_, hloop.tracks_of_split hstart hsplit⟩
  refine ⟨turns, final, hloop, horder, ?_, ?_, ?_, ?_, htaken, hidle, ?_⟩
  · intro before turn after hsplit u hu
    rw [(hloop.tracks_of_split hstart hsplit).1.remaining, if_pos hu, waiting_eq_ncard]
    simp
  · intro turn _
    refine ⟨a.nodup_dependents _, fun u => ?_⟩
    rw [mem_dependents_iff]
    exact ⟨fun hrow => ⟨mem_names_of_mem_row hrow, hrow⟩, And.right⟩
  · intro turn hmem front u back hsplit
    obtain ⟨done, htracks, hready⟩ := hturn turn hmem
    exact htracks.counted hready hsplit
  · have hperm := hloop.pushed_perm hstart
    rw [hidle, List.append_nil] at hperm
    exact hperm.trans htaken
  · intro u hu
    rw [hfinal.remaining, if_pos hu, Option.some.injEq, waiting_eq_zero_iff]
    intro dep hdep
    simpa using htaken.mem_iff.2 (hgrounded u dep hdep)

/-- The nodes may be listed in another order, and what they need said in other words. -/
theorem Exact.congr
    {nodes nodes' : List String} {Needs Needs' : String → String → Prop}
    (h : Exact a nodes Needs turns final) (hnodes : nodes.Perm nodes')
    (hneeds : ∀ u v, Needs u v ↔ Needs' u v) : Exact a nodes' Needs' turns final := by
  have hsame : Needs = Needs' := funext fun u => funext fun v => propext (hneeds u v)
  subst hsame
  exact
    { counts := fun before turn after hsplit u hu =>
        h.counts before turn after hsplit u (hnodes.mem_iff.2 hu)
      dependents := fun turn hmem => ⟨(h.dependents turn hmem).1, fun u => by
        rw [(h.dependents turn hmem).2, hnodes.mem_iff]⟩
      positive := h.positive
      pushed := h.pushed.trans hnodes
      taken := h.taken.trans hnodes
      idle := h.idle
      zero := fun u hu => h.zero u (hnodes.mem_iff.2 hu) }

end Exact

end Release

namespace DependencyGraph

open Release

/-- An edge leads from a member of the component with the one first member to a member of
another component, the one with the other first member. -/
def OuterEdge (g : DependencyGraph) (u v : String) : Prop :=
  ∃ c ∈ g.components, ∃ d ∈ g.components, c.leader = u ∧ d.leader = v ∧ d ≠ c ∧
    ∃ x ∈ c.names, ∃ y ∈ d.names, g.Edge x y

theorem mem_row_condensation_iff_outerEdge {g : DependencyGraph} {u v : String} :
    v ∈ Adjacency.row (g.condensation g.components) u ↔ g.OuterEdge u v := by
  constructor
  · intro hrow
    obtain ⟨c, hc, rfl⟩ := mem_names_condensation_iff.1 (Adjacency.mem_names_of_mem_row hrow)
    obtain ⟨d, hd, hv, hedge⟩ := (mem_row_condensation_iff hc).1 hrow
    exact ⟨c, hc, d, hd, rfl, hv, hedge⟩
  · rintro ⟨c, hc, d, hd, rfl, hv, hedge⟩
    exact (mem_row_condensation_iff hc).2 ⟨d, hd, hv, hedge⟩

/-- **The release loops count exactly what is not released yet.**  Over the nodes of a
graph without cycles, and over the components of any graph, each by its first member:
every count is the number of dependencies that have not been taken, no count is taken
down from zero, every node or component becomes ready once, and in the end nothing is
ready and all counts are zero. -/
theorem releases_counted_exactly (g : DependencyGraph) :
    (match g.creationOrder with
      | .ok order => ∃ turns final, Loop g.toMap (Release.start g.toMap) turns final ∧
          order = turns.map Turn.id ∧ Exact g.toMap g.ids g.Edge turns final
      | .error _ => ¬ g.Acyclic) ∧
    ∃ (released : List Component) (turns : List Turn) (final : Release),
      released.Perm g.components ∧ g.emissionOrder = released.map g.groupOf ∧
        Loop (g.condensation g.components) (Release.start (g.condensation g.components))
          turns final ∧
        released.map Component.leader = turns.map Turn.id ∧
        Exact (g.condensation g.components) (g.components.map Component.leader) g.OuterEdge
          turns final := by
  constructor
  · by_cases hacyclic : g.Acyclic
    · obtain ⟨turns, final, hloop, horder, hexact⟩ :=
        exists_loop_exact ((acyclic_toMap g).2 hacyclic) g.grounded_toMap
      rw [creationOrder_of_acyclic hacyclic]
      refine ⟨turns, final, hloop, horder, hexact.congr (.of_eq g.names_toMap) fun u v => ?_⟩
      rw [row_toMap]
      rfl
    · rw [creationOrder_of_not_acyclic hacyclic]
      exact hacyclic
  · obtain ⟨released, hperm, hleaders, hemission⟩ := g.exists_released_components
    obtain ⟨turns, final, hloop, horder, hexact⟩ :=
      exists_loop_exact g.acyclic_condensation g.grounded_condensation
    have hnodes : (NameTable.names (g.condensation g.components)).Perm
        (g.components.map Component.leader) := by
      refine hexact.taken.symm.trans ?_
      rw [← horder]
      exact g.perm_releaseOrder_condensation
    exact ⟨released, turns, final, hperm, hemission, hloop, hleaders.trans horder,
      hexact.congr hnodes fun u v => mem_row_condensation_iff_outerEdge⟩

end DependencyGraph
end CloudTemplate
