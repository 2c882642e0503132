import Mathlib.Order.Bounds.Basic
import CloudTemplate.Text.Distance

/-!
# The distance of two texts is the least number of edits

The distance is computed row by row.  An alignment of two texts pairs their
characters from the front; its cost counts the characters that are paired with a
different one or with none (`Aligned`).  Each entry of a row is the least cost of
an alignment for a start of one text and a start of the other
(`leastCost_cons_cons`), and so is the last one, for both texts.

An edit changes an alignment at one place only, so the least cost of an
alignment is the least number of edits that lead from one text to the other
(`Text.isLeast_distance`).
-/

namespace CloudTemplate
namespace Text

/-- One character is inserted, deleted or replaced. -/
inductive Edit : List Char → List Char → Prop
  | insert (front back : List Char) (c : Char) : Edit (front ++ back) (front ++ c :: back)
  | delete (front back : List Char) (c : Char) : Edit (front ++ c :: back) (front ++ back)
  | replace (front back : List Char) (c d : Char) :
      Edit (front ++ c :: back) (front ++ d :: back)

/-- A number of edits, one after the other, lead from one text to another. -/
inductive Edits : Nat → List Char → List Char → Prop
  | none (text : List Char) : Edits 0 text text
  | step {n : Nat} {as bs cs : List Char} (h : Edits n as bs) (hedit : Edit bs cs) :
      Edits (n + 1) as cs

/-- The texts have an alignment of this cost. -/
inductive Aligned : List Char → List Char → Nat → Prop
  | nil : Aligned [] [] 0
  | keep {as bs : List Char} {n : Nat} (c : Char) (h : Aligned as bs n) :
      Aligned (c :: as) (c :: bs) n
  | replace {as bs : List Char} {n : Nat} (c d : Char) (h : Aligned as bs n) :
      Aligned (c :: as) (d :: bs) (n + 1)
  | delete {as bs : List Char} {n : Nat} (c : Char) (h : Aligned as bs n) :
      Aligned (c :: as) bs (n + 1)
  | insert {as bs : List Char} {n : Nat} (d : Char) (h : Aligned as bs n) :
      Aligned as (d :: bs) (n + 1)

/-- The least cost of an alignment of two texts. -/
def LeastCost (as bs : List Char) (n : Nat) : Prop :=
  IsLeast {n | Aligned as bs n} n

/-- The entries of a row of the table.  The row belongs to a start of the first
text; one start of the second text is done, and each entry is for one more of its
characters.  Both starts are read from their ends. -/
inductive Row (start : List Char) : List Char → List Char → List Nat → Prop
  | nil (done : List Char) : Row start done [] []
  | cons {done rest : List Char} {d : Char} {entry : Nat} {row : List Nat}
      (hentry : LeastCost start (d :: done) entry) (hrow : Row start (d :: done) rest row) :
      Row start done (d :: rest) (entry :: row)

variable {as bs cs start done rest : List Char} {c d : Char} {m n : Nat} {row : List Nat}

section Alignments

theorem aligned_self (text : List Char) : Aligned text text 0 := by
  induction text with
  | nil => exact .nil
  | cons c rest ih => exact .keep c ih

theorem aligned_nil_left (text : List Char) : Aligned [] text text.length := by
  induction text with
  | nil => exact .nil
  | cons d rest ih => exact .insert d ih

theorem aligned_nil_right (text : List Char) : Aligned text [] text.length := by
  induction text with
  | nil => exact .nil
  | cons c rest ih => exact .delete c ih

/-- Each character too many costs one. -/
theorem Aligned.length_le
    (h : Aligned as bs n) : as.length ≤ bs.length + n ∧ bs.length ≤ as.length + n := by
  induction h with
  | nil => simp
  | _ => grind

theorem Aligned.append
    {as' bs' : List Char} (h : Aligned as bs m) (h' : Aligned as' bs' n) :
    Aligned (as ++ as') (bs ++ bs') (n + m) := by
  induction h with
  | nil => exact h'
  | keep c _ ih => exact .keep c ih
  | replace c d _ ih => exact .replace c d ih
  | delete c _ ih => exact .delete c ih
  | insert d _ ih => exact .insert d ih

theorem Aligned.reverse (h : Aligned as bs n) : Aligned as.reverse bs.reverse n := by
  induction h with
  | nil => exact .nil
  | keep c _ ih => simpa using ih.append (aligned_self [c])
  | replace c d _ ih => simpa [Nat.add_comm] using ih.append (.replace c d .nil)
  | delete c _ ih => simpa [Nat.add_comm] using ih.append (.delete c .nil)
  | insert d _ ih => simpa [Nat.add_comm] using ih.append (.insert d .nil)

/-- A start of the first text belongs to the first character of the second
one. -/
theorem Aligned.exists_split_head
    (h : Aligned as (d :: bs) n) :
    ∃ as₁ as₂ m k, as = as₁ ++ as₂ ∧ n = k + m ∧ Aligned as₁ [d] m ∧ Aligned as₂ bs k := by
  generalize htext : d :: bs = text at h
  induction h with
  | nil => cases htext
  | keep c h ih =>
      cases htext
      exact ⟨[d], _, 0, _, rfl, rfl, .keep d .nil, h⟩
  | replace c d h ih =>
      cases htext
      exact ⟨[c], _, 1, _, rfl, rfl, .replace c d .nil, h⟩
  | delete c h ih =>
      obtain ⟨as₁, as₂, m, k, rfl, rfl, hhead, hrest⟩ := ih htext
      exact ⟨c :: as₁, as₂, m + 1, k, rfl, rfl, .delete c hhead, hrest⟩
  | insert d h ih =>
      cases htext
      exact ⟨[], _, 1, _, rfl, rfl, .insert d .nil, h⟩

/-- Where the second text is cut, the first one is cut with it. -/
theorem Aligned.exists_split
    {front back : List Char} (h : Aligned as (front ++ back) n) :
    ∃ as₁ as₂ m k, as = as₁ ++ as₂ ∧ n = k + m ∧ Aligned as₁ front m ∧ Aligned as₂ back k := by
  induction front generalizing as n with
  | nil => exact ⟨[], as, 0, n, rfl, rfl, .nil, h⟩
  | cons d front ih =>
      obtain ⟨as₁, rest, m, l, rfl, rfl, hhead, hrest⟩ := Aligned.exists_split_head h
      obtain ⟨as₂, as₃, m', k, rfl, rfl, hfront, hback⟩ := ih hrest
      exact ⟨as₁ ++ as₂, as₃, m' + m, k, by rw [List.append_assoc], by rw [Nat.add_assoc],
        hhead.append hfront, hback⟩

/-- Without its first character, or with another one in its place, a text is
aligned at a cost of at most one more. -/
theorem Aligned.change_head
    (h : Aligned as (c :: bs) n) (d : Char) :
    (∃ m ≤ n + 1, Aligned as bs m) ∧ ∃ m ≤ n + 1, Aligned as (d :: bs) m := by
  generalize htext : c :: bs = text at h
  induction h with
  | nil => cases htext
  | keep a h ih =>
      cases htext
      exact ⟨⟨_, le_rfl, .delete c h⟩, _, le_rfl, .replace c d h⟩
  | replace a b h ih =>
      cases htext
      exact ⟨⟨_, Nat.le_succ _, .delete a h⟩, _, Nat.le_succ _, .replace a d h⟩
  | delete a h ih =>
      obtain ⟨⟨m, hm, hbs⟩, k, hk, hdbs⟩ := ih htext
      exact ⟨⟨m + 1, Nat.succ_le_succ hm, .delete a hbs⟩, k + 1, Nat.succ_le_succ hk,
        .delete a hdbs⟩
  | insert b h ih =>
      cases htext
      exact ⟨⟨_, by omega, h⟩, _, Nat.le_succ _, .insert d h⟩

/-- An edit costs at most one. -/
theorem Aligned.edit
    (h : Aligned as bs n) (hedit : Edit bs cs) : ∃ m ≤ n + 1, Aligned as cs m := by
  cases hedit with
  | insert front back c =>
      obtain ⟨as₁, as₂, m, k, rfl, rfl, hfront, hback⟩ := h.exists_split
      exact ⟨_, by omega, hfront.append (.insert c hback)⟩
  | delete front back c =>
      obtain ⟨as₁, as₂, m, k, rfl, rfl, hfront, hback⟩ := h.exists_split
      obtain ⟨⟨k', hk', hback'⟩, -⟩ := hback.change_head c
      exact ⟨_, by omega, hfront.append hback'⟩
  | replace front back c d =>
      obtain ⟨as₁, as₂, m, k, rfl, rfl, hfront, hback⟩ := h.exists_split
      obtain ⟨-, k', hk', hback'⟩ := hback.change_head d
      exact ⟨_, by omega, hfront.append hback'⟩

end Alignments

section Edits

theorem Edit.cons (h : Edit as bs) (c : Char) : Edit (c :: as) (c :: bs) := by
  cases h with
  | insert front back d => exact .insert (c :: front) back d
  | delete front back d => exact .delete (c :: front) back d
  | replace front back d e => exact .replace (c :: front) back d e

theorem Edits.cons (h : Edits n as bs) (c : Char) : Edits n (c :: as) (c :: bs) := by
  induction h with
  | none text => exact .none (c :: text)
  | step _ hedit ih => exact .step ih (hedit.cons c)

/-- What an alignment does not pair with itself, edits change. -/
theorem Aligned.edits (h : Aligned as bs n) : Edits n as bs := by
  induction h with
  | nil => exact .none []
  | keep c _ ih => exact ih.cons c
  | replace c d _ ih => exact .step (ih.cons c) (.replace [] _ c d)
  | delete c _ ih => exact .step (ih.cons c) (.delete [] _ c)
  | insert d _ ih => exact .step ih (.insert [] _ d)

theorem Edits.exists_aligned (h : Edits n as bs) : ∃ m ≤ n, Aligned as bs m := by
  induction h with
  | none text => exact ⟨0, le_rfl, aligned_self text⟩
  | step _ hedit ih =>
      obtain ⟨m, hm, haligned⟩ := ih
      obtain ⟨k, hk, haligned'⟩ := haligned.edit hedit
      exact ⟨k, by omega, haligned'⟩

/-- The least cost of an alignment is the least number of edits. -/
theorem LeastCost.isLeast_edits
    (h : LeastCost as bs n) : IsLeast {count | Edits count as bs} n := by
  refine ⟨h.1.edits, fun count hcount => ?_⟩
  obtain ⟨m, hm, haligned⟩ := Edits.exists_aligned hcount
  exact (h.2 haligned).trans hm

end Edits

section Rows

theorem leastCost_nil_left (text : List Char) : LeastCost [] text text.length :=
  ⟨aligned_nil_left text, fun n hn => by simpa using (Aligned.length_le hn).2⟩

theorem leastCost_nil_right (text : List Char) : LeastCost text [] text.length :=
  ⟨aligned_nil_right text, fun n hn => by simpa using (Aligned.length_le hn).1⟩

theorem LeastCost.reverse (h : LeastCost as bs n) : LeastCost as.reverse bs.reverse n :=
  ⟨h.1.reverse, fun m hm => h.2 (by simpa using Aligned.reverse hm)⟩

/-- An entry of the table from the entries above it, before it, and diagonally
above it. -/
theorem leastCost_cons_cons
    {above left corner : Nat} (habove : LeastCost as (d :: bs) above)
    (hleft : LeastCost (c :: as) bs left) (hcorner : LeastCost as bs corner) :
    LeastCost (c :: as) (d :: bs)
      (min (min (left + 1) (above + 1)) (corner + if c = d then 0 else 1)) := by
  constructor
  · refine min_rec' _ (min_rec' _ (.insert d hleft.1) (.delete c habove.1)) ?_
    by_cases h : c = d
    · subst h
      rw [if_pos rfl]
      exact .keep c hcorner.1
    · rw [if_neg h]
      exact .replace c d hcorner.1
  · intro n hn
    cases hn with
    | keep _ h =>
        rw [if_pos rfl]
        exact (min_le_right _ _).trans (hcorner.2 h)
    | replace _ _ h =>
        have hle := hcorner.2 h
        split_ifs <;> omega
    | delete _ h =>
        have hle := habove.2 h
        omega
    | insert _ h =>
        have hle := hleft.2 h
        omega

/-- Each row is made from the row above it. -/
theorem Row.next
    {corner left : Nat} (h : Row start done rest row) (c : Char)
    (hcorner : LeastCost start done corner) (hleft : LeastCost (c :: start) done left) :
    Row (c :: start) done rest (distanceRow c corner left rest row) := by
  induction h generalizing corner left with
  | nil done => exact .nil done
  | cons hentry _ ih =>
      have hnext := leastCost_cons_cons hentry hleft hcorner
      exact .cons hnext (ih hentry hnext)

/-- The last entry of a row is for the whole second text. -/
theorem Row.last
    (h : Row start done rest row) (hn : LeastCost start done n) :
    LeastCost start (rest.reverse ++ done) (row.getLastD n) := by
  induction h generalizing n with
  | nil done => exact hn
  | cons hentry _ ih =>
      rw [List.getLastD_cons, List.reverse_cons, List.append_assoc]
      exact ih hentry

theorem row_first (done rest : List Char) :
    Row [] done rest ((List.range rest.length).map (· + (done.length + 1))) := by
  induction rest generalizing done with
  | nil => exact .nil done
  | cons d rest ih =>
      rw [List.length_cons, List.range_succ_eq_map, List.map_cons, List.map_map]
      have hentry := leastCost_nil_left (d :: done)
      refine .cons (by simpa using hentry) ?_
      simpa [Function.comp_def, Nat.add_assoc, Nat.add_comm, Nat.add_left_comm] using ih (d :: done)

/-- Row by row, the table comes to both texts as a whole. -/
theorem leastCost_distanceBelow
    (h : Row start [] bs row) :
    LeastCost (as.reverse ++ start) bs.reverse (distanceBelow bs start.length row as) := by
  induction as generalizing start row with
  | nil => simpa [distanceBelow] using h.last (leastCost_nil_right start)
  | cons c rest ih =>
      rw [distanceBelow, List.reverse_cons, List.append_assoc]
      exact ih (h.next c (leastCost_nil_right start) (leastCost_nil_right (c :: start)))

end Rows

/-- The distance of two texts is the least number of edits of single characters
that lead from one to the other. -/
theorem isLeast_distance (a b : String) :
    IsLeast {n | Edits n a.toList b.toList} (distance a b) := by
  have hfirst : Row [] [] b.toList ((List.range b.toList.length).map (· + 1)) :=
    row_first [] b.toList
  have hcost : LeastCost (a.toList.reverse ++ []) b.toList.reverse (distance a b) :=
    leastCost_distanceBelow hfirst
  rw [List.append_nil] at hcost
  have hleast := hcost.reverse
  rw [List.reverse_reverse, List.reverse_reverse] at hleast
  exact hleast.isLeast_edits

end Text
end CloudTemplate
