import Mathlib.Data.List.Sort
import Mathlib.Data.Prod.Lex
import Mathlib.Data.String.Basic
import Mathlib.Order.Compare

/-!
# Sorting by keys

A comparison by several fields, one after the other, is the order of a key
(`isLE_then_iff`), and a list sorted by it has its keys in their order
(`pairwise_key_mergeSort`).  Names that are all different ascend when they are
sorted (`pairwise_lt_mergeSort`), and where keys ascend the first element that
passes a test has the least key (`key_le_of_find?_eq_some`).
-/

namespace CloudTemplate

universe u v
variable {α : Type u} {κ : Type v} [LinearOrder κ]

theorem isLE_compare_iff {a b : κ} : (compare a b).isLE = true ↔ a ≤ b := by
  rw [← compare_le_iff_le]
  cases compare a b <;> simp

/-- Where the first fields are the same, the next ones decide. -/
theorem isLE_then_iff
    {a b : κ} {next : Ordering} :
    ((compare a b).then next).isLE = true ↔ a < b ∨ a = b ∧ next.isLE = true := by
  rcases lt_trichotomy a b with hlt | heq | hgt
  · simp [compare_lt_iff_lt.2 hlt, hlt]
  · simp [heq]
  · simp [compare_gt_iff_gt.2 hgt, hgt.ne', hgt.not_gt]

theorem key_le_of_find?_eq_some
    (key : α → κ) {list : List α} {test : α → Bool} {found : α}
    (hlist : list.Pairwise fun a b => key a < key b) (h : list.find? test = some found) :
    ∀ other ∈ list, test other = true → key found ≤ key other := by
  obtain ⟨-, front, back, rfl, hfront⟩ := List.find?_eq_some_iff_append.1 h
  intro other hother htest
  rcases List.mem_append.1 hother with hother | hother
  · exact absurd htest (by simpa using hfront other hother)
  · rcases List.mem_cons.1 hother with rfl | hother
    · exact le_rfl
    · exact le_of_lt ((List.pairwise_cons.1 (List.pairwise_append.1 hlist).2.1).1 other hother)

theorem pairwise_key_mergeSort
    {before : α → α → Bool} (key : α → κ)
    (h : ∀ a b, before a b = true ↔ key a ≤ key b) (list : List α) :
    (list.mergeSort before).Pairwise fun a b => key a ≤ key b := by
  have htrans : ∀ a b c, before a b = true → before b c = true → before a c = true :=
    fun a b c hab hbc => (h a c).2 (((h a b).1 hab).trans ((h b c).1 hbc))
  have htotal : ∀ a b, (before a b || before b a) = true := fun a b => by
    rw [Bool.or_eq_true, h, h]
    exact le_total _ _
  exact (List.pairwise_mergeSort htrans htotal list).imp fun hle => (h _ _).1 hle

theorem pairwise_lt_mergeSort {names : List String} (h : names.Nodup) :
    names.mergeSort.Pairwise (· < ·) := by
  have hsorted := List.pairwise_mergeSort' (· ≤ ·) names
  have hnodup := (List.mergeSort_perm names fun a b => decide (a ≤ b)).nodup_iff.2 h
  exact (hsorted.and hnodup).imp fun ⟨hle, hne⟩ => lt_of_le_of_ne hle hne

end CloudTemplate
