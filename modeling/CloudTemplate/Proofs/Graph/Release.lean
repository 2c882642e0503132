import Mathlib.Data.Set.Finite.List
import Mathlib.Order.WellFoundedSet
import CloudTemplate.Graph.Order
import CloudTemplate.Proofs.Graph.Reachability

/-!
# Releasing the least ready name

A name is ready when all names of its row have been released.  The release
loop keeps, for every name, the number of names that it still waits for, and
the set of ready names (`Release.Tracks`); so the order that it produces takes
the least ready name at every place (`Adjacency.LeastFirst`) and stops when no
name is ready.

Main statements: such an order is the least of all orders of release
(`LeastFirst.le_of_inOrder`), and without cycles it comes to all names
(`LeastFirst.mem_of_acyclic`).
-/

namespace CloudTemplate
namespace Adjacency

/-- The names that a name waits for. -/
def row (a : Adjacency) (id : String) : List String :=
  ((a.get? id).map NameTable.names).getD []

/-- The name can be released next. -/
structure Ready (a : Adjacency) (done : List String) (id : String) : Prop where
  mem : id ∈ NameTable.names a
  fresh : id ∉ done
  released : ∀ dep ∈ a.row id, dep ∈ done

/-- Every name is ready when its turn comes. -/
def InOrder (a : Adjacency) : List String → List String → Prop
  | _, [] => True
  | done, id :: rest => a.Ready done id ∧ a.InOrder (id :: done) rest

/-- Every name is the least ready one when its turn comes, and in the end
there is none. -/
def LeastFirst (a : Adjacency) : List String → List String → Prop
  | done, [] => ∀ id, ¬ a.Ready done id
  | done, id :: rest =>
      a.Ready done id ∧ (∀ other, a.Ready done other → id ≤ other) ∧
        a.LeastFirst (id :: done) rest

/-- The number of names that a name still waits for. -/
def waiting (a : Adjacency) (done : List String) (id : String) : Nat :=
  (a.row id).countP fun dep => !done.contains dep

variable {a : Adjacency} {done order other : List String} {id u v : String}

section Rows

theorem nodup_row (a : Adjacency) (id : String) : (a.row id).Nodup := by
  unfold row
  cases a.get? id with
  | none => exact List.nodup_nil
  | some names => exact NameTable.nodup_names names

theorem mem_dependents_iff : u ∈ a.dependents v ↔ v ∈ a.row u := by
  unfold dependents row
  rw [Entries.mem_names_iff]
  constructor
  · rintro ⟨names, hmem⟩
    obtain ⟨hrow, hcontains⟩ := List.mem_filter.1 hmem
    rw [NameTable.get?_eq_some_iff.2 hrow]
    exact NameTable.contains_iff.1 hcontains
  · intro h
    cases hget : a.get? u with
    | none => simp [hget] at h
    | some names =>
        simp only [hget, Option.map_some, Option.getD_some] at h
        exact ⟨names, List.mem_filter.2
          ⟨NameTable.get?_eq_some_iff.1 hget, NameTable.contains_iff.2 h⟩⟩

theorem nodup_dependents (a : Adjacency) (id : String) : (a.dependents id).Nodup :=
  (NameTable.ascending a).filter _ |>.nodup_names

theorem mem_names_of_mem_row (h : v ∈ a.row u) : u ∈ NameTable.names a := by
  cases hget : a.get? u with
  | none => simp [row, hget] at h
  | some names => exact NameTable.mem_names_iff_get?.2 ⟨names, hget⟩

end Rows

section Waiting

theorem waiting_eq_zero_iff :
    a.waiting done id = 0 ↔ ∀ dep ∈ a.row id, dep ∈ done := by
  simp [waiting, List.countP_eq_zero]

theorem waiting_cons_of_not_mem (h : u ∉ a.row id) :
    a.waiting (u :: done) id = a.waiting done id := by
  refine List.countP_congr fun dep hdep => ?_
  have hne : dep ≠ u := fun e => h (e ▸ hdep)
  simp [hne]

/-- A release takes one off the count of each name that waits for it. -/
theorem waiting_cons_of_mem (hfresh : u ∉ done) (h : u ∈ a.row id) :
    a.waiting (u :: done) id + 1 = a.waiting done id := by
  have hcount : ∀ list : List String, list.Nodup → u ∈ list →
      list.countP (fun dep => !(u :: done).contains dep) + 1 =
        list.countP fun dep => !done.contains dep := by
    intro list hnodup hu
    induction list with
    | nil => simp at hu
    | cons head rest ih =>
        obtain ⟨hnot, hrest⟩ := List.nodup_cons.1 hnodup
        rw [List.countP_cons, List.countP_cons]
        by_cases hhead : head = u
        · subst hhead
          have hsame : rest.countP (fun dep => !(head :: done).contains dep) =
              rest.countP fun dep => !done.contains dep := by
            refine List.countP_congr fun dep hdep => ?_
            have hne : dep ≠ head := fun e => hnot (e ▸ hdep)
            simp [hne]
          rw [hsame]
          simp [hfresh]
        · have hih := ih hrest ((List.mem_cons.1 hu).resolve_left fun e => hhead e.symm)
          have hbool : (!(u :: done).contains head) = !done.contains head := by
            simp [hhead]
          rw [hbool]
          omega
  exact hcount (a.row id) (a.nodup_row id) h

end Waiting

section Orders

theorem LeastFirst.inOrder (h : a.LeastFirst done order) : a.InOrder done order := by
  induction order generalizing done with
  | nil => trivial
  | cons id rest ih => exact ⟨h.1, ih h.2.2⟩

/-- In the end no name is ready. -/
theorem LeastFirst.not_ready (h : a.LeastFirst done order) :
    ¬ a.Ready (order.reverse ++ done) id := by
  induction order generalizing done with
  | nil => exact h id
  | cons head rest ih =>
      have hrest := ih h.2.2
      simpa using hrest

theorem inOrder_iff :
    a.InOrder done order ↔
      ∀ before id after, order = before ++ id :: after →
        a.Ready (before.reverse ++ done) id := by
  induction order generalizing done with
  | nil => simp [InOrder]
  | cons head rest ih =>
      rw [InOrder, ih]
      constructor
      · rintro ⟨hhead, hrest⟩ before id after hsplit
        cases before with
        | nil =>
            simp only [List.nil_append, List.cons.injEq] at hsplit
            exact hsplit.1 ▸ hhead
        | cons first before =>
            simp only [List.cons_append, List.cons.injEq] at hsplit
            obtain ⟨rfl, hsplit⟩ := hsplit
            simpa using hrest before id after hsplit
      · intro h
        refine ⟨h [] head rest rfl, fun before id after hsplit => ?_⟩
        simpa using h (head :: before) id after (by simp [hsplit])

theorem InOrder.nodup (h : a.InOrder done order) :
    order.Nodup ∧ ∀ id ∈ order, id ∉ done ∧ id ∈ NameTable.names a := by
  induction order generalizing done with
  | nil => simp
  | cons head rest ih =>
      obtain ⟨hnodup, hrest⟩ := ih h.2
      have hhead : head ∉ rest := fun hmem =>
        (hrest head hmem).1 (List.mem_cons_self ..)
      refine ⟨List.nodup_cons.2 ⟨hhead, hnodup⟩, fun id hid => ?_⟩
      rcases List.mem_cons.1 hid with heq | hid
      · exact heq ▸ ⟨h.1.fresh, h.1.mem⟩
      · exact ⟨fun hmem => (hrest id hid).1 (List.mem_cons_of_mem _ hmem),
          (hrest id hid).2⟩

/-- At the first place where another order differs, it has a greater name. -/
theorem LeastFirst.le_of_inOrder
    (h : a.LeastFirst done order) (hother : a.InOrder done other)
    (hlength : order.length = other.length) :
    order = other ∨ List.Lex (· < ·) order other := by
  induction order generalizing done other with
  | nil =>
      left
      exact (List.length_eq_zero_iff.1 hlength.symm).symm
  | cons id rest ih =>
      cases other with
      | nil => simp at hlength
      | cons id' rest' =>
          rcases (h.2.1 id' hother.1).lt_or_eq with hlt | heq
          · exact Or.inr (List.Lex.rel hlt)
          · subst heq
            rcases ih h.2.2 hother.2 (by simpa using hlength) with heq | hlex
            · exact Or.inl (by rw [heq])
            · exact Or.inr (List.Lex.cons hlex)

/-- No ready name is less than the one whose turn it is. -/
theorem LeastFirst.le_of_ready
    {before after : List String} (h : a.LeastFirst done order)
    (hsplit : order = before ++ id :: after)
    (hready : a.Ready (before.reverse ++ done) u) : id ≤ u := by
  induction before generalizing done order with
  | nil =>
      subst hsplit
      exact h.2.1 u hready
  | cons head before ih =>
      subst hsplit
      exact ih h.2.2 rfl (by simpa using hready)

/-- Where the same names are ready at every turn, the same ones are released. -/
theorem LeastFirst.unique
    {b : Adjacency} (h : a.LeastFirst done order) (hother : b.LeastFirst done other)
    (hready : ∀ done id, a.Ready done id ↔ b.Ready done id) : order = other := by
  induction order generalizing done other with
  | nil =>
      cases other with
      | nil => rfl
      | cons id' rest' => exact absurd ((hready _ _).2 hother.1) (h id')
  | cons id rest ih =>
      cases other with
      | nil => exact absurd ((hready _ _).1 h.1) (hother id)
      | cons id' rest' =>
          have heq : id = id' := le_antisymm (h.2.1 id' ((hready _ _).2 hother.1))
            (hother.2.1 id ((hready _ _).1 h.1))
          subst heq
          rw [ih h.2.2 hother.2.2]

end Orders

section Acyclic

/-- No name waits for itself, directly or through others. -/
def Acyclic (a : Adjacency) : Prop :=
  ∀ id, ¬ Relation.TransGen (fun u v => v ∈ a.row u) id id

/-- Names wait for names only. -/
def Grounded (a : Adjacency) : Prop :=
  ∀ id, ∀ dep ∈ a.row id, dep ∈ NameTable.names a

/-- Without cycles, some name is ready as long as one is left. -/
theorem exists_ready
    (done : List String) (hacyclic : a.Acyclic) (hgrounded : a.Grounded)
    (hmem : id ∈ NameTable.names a) (hfresh : id ∉ done) :
    ∃ first, a.Ready done first := by
  have hstrict : IsStrictOrder String fun u v =>
      Relation.TransGen (fun x y => y ∈ a.row x) v u :=
    { irrefl := hacyclic
      trans := fun _ _ _ huv hvw => hvw.trans huv }
  have hwf : { u | u ∈ NameTable.names a }.WellFoundedOn fun u v =>
      Relation.TransGen (fun x y => y ∈ a.row x) v u :=
    (List.finite_toSet _).wellFoundedOn
  -- Along the dependencies that are left: a name without any is ready.
  refine hwf.induction (P := fun u => u ∉ done → _) hmem ?_ hfresh
  intro u hu ih hleft
  by_cases hreleased : ∀ dep ∈ a.row u, dep ∈ done
  · exact ⟨u, hu, hleft, hreleased⟩
  · push Not at hreleased
    obtain ⟨dep, hdep, hnot⟩ := hreleased
    exact ih dep (hgrounded u dep hdep) (Relation.TransGen.single hdep) hnot

theorem LeastFirst.mem_of_acyclic
    (h : a.LeastFirst [] order) (hacyclic : a.Acyclic) (hgrounded : a.Grounded)
    (hmem : id ∈ NameTable.names a) : id ∈ order := by
  by_contra hnot
  obtain ⟨first, hready⟩ := exists_ready (order.reverse ++ []) hacyclic hgrounded
    hmem (by simpa using hnot)
  exact h.not_ready hready

theorem LeastFirst.perm_of_acyclic
    (h : a.LeastFirst [] order) (hacyclic : a.Acyclic) (hgrounded : a.Grounded) :
    order.Perm (NameTable.names a) := by
  obtain ⟨hnodup, hsub⟩ := h.inOrder.nodup
  refine (List.perm_ext_iff_of_nodup hnodup (NameTable.nodup_names a)).2 fun id => ?_
  exact ⟨fun hid => (hsub id hid).2, h.mem_of_acyclic hacyclic hgrounded⟩

end Acyclic

end Adjacency

namespace Release

open Adjacency

variable {a : Adjacency} {r : Release} {done : List String} {id u : String}

/-- What the loop knows when some names have been released. -/
structure Tracks (a : Adjacency) (r : Release) (done : List String) : Prop where
  remaining : ∀ id, r.remaining.get? id =
    if id ∈ NameTable.names a then some (a.waiting done id) else none
  ready : ∀ id, id ∈ r.ready.names ↔ a.Ready done id
  earlier : ∀ id ∈ done, ∀ dep ∈ a.row id, dep ∈ done

theorem tracks_start (a : Adjacency) : (start a).Tracks a [] where
  remaining := by
    intro id
    show (NameTable.map NameTable.size a).get? id = _
    rw [NameTable.get?_map]
    cases hget : a.get? id with
    | none => rw [if_neg (NameTable.get?_eq_none_iff.1 hget), Option.map_none]
    | some names =>
        rw [if_pos (NameTable.mem_names_iff_get?.2 ⟨names, hget⟩)]
        simp [waiting, row, hget]
  ready := by
    intro id
    show id ∈ (NameTable.map (fun _ => ()) _).names ↔ _
    rw [NameTable.names_map, NameTable.mem_names_filter]
    simp only [NameTable.get?_map, Option.map_eq_some_iff, decide_eq_true_eq]
    constructor
    · rintro ⟨_, ⟨names, hget, rfl⟩, hsize⟩
      have hnone : a.row id = [] := by
        rw [← NameTable.length_names] at hsize
        simp [row, hget, List.length_eq_zero_iff.1 hsize]
      exact ⟨NameTable.mem_names_iff_get?.2 ⟨names, hget⟩, by simp, by simp [hnone]⟩
    · rintro ⟨hmem, -, hreleased⟩
      obtain ⟨names, hget⟩ := NameTable.mem_names_iff_get?.1 hmem
      refine ⟨names.size, ⟨names, hget, rfl⟩, ?_⟩
      have hnone : names.names = [] :=
        List.eq_nil_iff_forall_not_mem.2 fun dep hdep => by
          simpa using hreleased dep (by simpa [row, hget] using hdep)
      rw [← NameTable.length_names, hnone]
      rfl
  earlier := by simp

section CountDown

theorem get?_countDown (r : Release) (id u : String) :
    (r.countDown id).remaining.get? u =
      if id = u then (r.remaining.get? u).map (· - 1) else r.remaining.get? u := by
  unfold countDown
  cases hget : r.remaining.get? id with
  | none =>
      by_cases h : id = u
      · subst h
        simp [hget]
      · simp [h]
  | some count =>
      simp only [NameTable.get?_insert]
      by_cases h : id = u
      · subst h
        simp [hget]
      · simp [h]

theorem mem_ready_countDown (r : Release) (id u : String) :
    u ∈ (r.countDown id).ready.names ↔
      u ∈ r.ready.names ∨
        u = id ∧ ∃ count, r.remaining.get? id = some count ∧ count - 1 = 0 := by
  unfold countDown
  cases hget : r.remaining.get? id with
  | none => simp
  | some count =>
      by_cases hzero : count - 1 = 0
      · simp only [hzero, if_true, NameSet.mem_names_add, Option.some.injEq,
          exists_eq_left', and_true]
        exact or_comm
      · simp [hzero]

/-- Counting down a list of different names. -/
theorem foldl_countDown
    {ids : List String} (hnodup : ids.Nodup) (r : Release) :
    (∀ u, (ids.foldl countDown r).remaining.get? u =
      if u ∈ ids then (r.remaining.get? u).map (· - 1) else r.remaining.get? u) ∧
    ∀ u, u ∈ (ids.foldl countDown r).ready.names ↔
      u ∈ r.ready.names ∨
        u ∈ ids ∧ ∃ count, r.remaining.get? u = some count ∧ count - 1 = 0 := by
  induction ids generalizing r with
  | nil => simp
  | cons head rest ih =>
      obtain ⟨hnot, hrest⟩ := List.nodup_cons.1 hnodup
      obtain ⟨hremaining, hready⟩ := ih hrest (r.countDown head)
      rw [List.foldl_cons]
      refine ⟨fun u => ?_, fun u => ?_⟩
      · rw [hremaining, get?_countDown]
        by_cases hu : u = head
        · subst hu
          simp [hnot]
        · have hu' : ¬ head = u := fun e => hu e.symm
          simp [hu, hu']
      · rw [hready, mem_ready_countDown, get?_countDown]
        by_cases hu : u = head
        · subst hu
          simp [hnot]
        · have hu' : ¬ head = u := fun e => hu e.symm
          simp [hu, hu']

end CountDown

/-- Releasing a ready name keeps the counts and the ready set up to date. -/
theorem Tracks.release
    (h : r.Tracks a done) (hid : a.Ready done id) :
    (r.release a id).Tracks a (id :: done) := by
  obtain ⟨hremaining, hready⟩ :=
    foldl_countDown (a.nodup_dependents id) { r with ready := r.ready.erase id }
  have hself : ∀ u ∈ done, id ∉ a.row u := fun u hu hmem =>
    hid.fresh (h.earlier u hu id hmem)
  refine ⟨fun u => ?_, fun u => ?_, fun u hu => ?_⟩
  -- The dependents of the released name, and no others, wait for one name less.
  · show ((a.dependents id).foldl countDown _).remaining.get? u = _
    rw [hremaining, h.remaining]
    simp only [mem_dependents_iff]
    by_cases hrow : id ∈ a.row u
    · have hcount := waiting_cons_of_mem hid.fresh hrow
      simp only [hrow, if_true, mem_names_of_mem_row hrow, Option.map_some,
        Option.some.injEq]
      omega
    · simp only [hrow, if_false]
      rw [waiting_cons_of_not_mem hrow]
  · show u ∈ ((a.dependents id).foldl countDown _).ready.names ↔ _
    rw [hready, NameTable.mem_names_erase, h.ready, mem_dependents_iff]
    show _ ∨ _ ∧ (∃ count, r.remaining.get? u = some count ∧ _) ↔ _
    rw [h.remaining]
    constructor
    · rintro (⟨hu, hne⟩ | ⟨hrow, count, hcount, hzero⟩)
      · refine ⟨hu.mem, fun hmem => ?_, fun dep hdep =>
          List.mem_cons_of_mem _ (hu.released dep hdep)⟩
        exact (List.mem_cons.1 hmem).elim hne hu.fresh
      · rw [if_pos (mem_names_of_mem_row hrow), Option.some.injEq] at hcount
        have hcons := waiting_cons_of_mem hid.fresh hrow
        refine ⟨mem_names_of_mem_row hrow, fun hmem => ?_,
          waiting_eq_zero_iff.1 (by omega)⟩
        rcases List.mem_cons.1 hmem with heq | hmem
        · rw [heq] at hrow
          exact hid.fresh (hid.released id hrow)
        · exact hself u hmem hrow
    · rintro ⟨hmem, hfresh, hreleased⟩
      have hzero := waiting_eq_zero_iff.2 hreleased
      have hfresh' : u ∉ done := fun hu => hfresh (List.mem_cons_of_mem _ hu)
      by_cases hrow : id ∈ a.row u
      · have hcons := waiting_cons_of_mem hid.fresh hrow
        exact Or.inr ⟨hrow, a.waiting done u, if_pos hmem, by omega⟩
      · rw [waiting_cons_of_not_mem hrow] at hzero
        exact Or.inl ⟨⟨hmem, hfresh', waiting_eq_zero_iff.1 hzero⟩,
          fun heq => hfresh (heq ▸ List.mem_cons_self ..)⟩
  · intro dep hdep
    rcases List.mem_cons.1 hu with heq | hu
    · exact List.mem_cons_of_mem _ (hid.released dep (heq ▸ hdep))
    · exact List.mem_cons_of_mem _ (h.earlier u hu dep hdep)

/-- With enough steps for the names that are left, the loop runs until no name
is ready. -/
theorem Tracks.run
    (h : r.Tracks a done) (hnodup : done.Nodup)
    (hsub : ∀ u ∈ done, u ∈ NameTable.names a) {steps : Nat}
    (hsteps : NameTable.size a ≤ done.length + steps) :
    a.LeastFirst done (r.run a steps) := by
  induction steps generalizing r done with
  | zero =>
      -- All names have been released, so another one cannot be ready.
      intro id hid
      have hall : (id :: done) ⊆ NameTable.names a := by
        intro u hu
        rcases List.mem_cons.1 hu with heq | hu
        · exact heq ▸ hid.mem
        · exact hsub u hu
      have hle := (List.subperm_of_subset
        (List.nodup_cons.2 ⟨hid.fresh, hnodup⟩) hall).length_le
      rw [NameTable.length_names, List.length_cons] at hle
      omega
  | succ steps ih =>
      cases hnames : r.ready.names with
      | nil =>
          have hrun : r.run a (steps + 1) = [] := by simp [Release.run, step, hnames]
          rw [hrun]
          intro id hid
          have hmem := (h.ready id).2 hid
          simp [hnames] at hmem
      | cons id rest =>
          have hrun : r.run a (steps + 1) = id :: (r.release a id).run a steps := by
            simp [Release.run, step, hnames]
          have hid : a.Ready done id := (h.ready id).1 (by simp [hnames])
          rw [hrun]
          -- The ready names ascend, so the first one is the least.
          refine ⟨hid, fun other hother => ?_, ?_⟩
          · have hmem := (h.ready other).2 hother
            have hpairwise := r.ready.pairwise_names
            rw [hnames] at hmem hpairwise
            rcases List.mem_cons.1 hmem with heq | hmem
            · exact heq.ge
            · exact ((List.pairwise_cons.1 hpairwise).1 other hmem).le
          · refine ih (h.release hid) (List.nodup_cons.2 ⟨hid.fresh, hnodup⟩) ?_ ?_
            · intro u hu
              rcases List.mem_cons.1 hu with heq | hu
              · exact heq ▸ hid.mem
              · exact hsub u hu
            · rw [List.length_cons]
              omega

end Release

/-- The release order takes the least ready name at every place. -/
theorem Adjacency.releaseOrder_leastFirst (a : Adjacency) :
    a.LeastFirst [] a.releaseOrder :=
  (Release.tracks_start a).run List.nodup_nil (by simp) (by simp)

end CloudTemplate
