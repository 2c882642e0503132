import Mathlib.Tactic.Common

/-!
# Checks that succeed, and checks that fail

When a chain of checks succeeds, each of them did; what each step of a loop
keeps, the whole loop keeps (`foldlM_invariant`).

A run focuses on another one when it makes this run after others that do not
depend on what it is about, and goes on with its result only (`Focus`).  What it
makes of the result depends on the result alone (`Focus.congr`), and it fails
when that run fails, unless it has failed before (`Focus.refuses`).
-/

namespace CloudTemplate
namespace Outcome

universe u v w
variable {ε : Type u} {ε' : Type u} {α : Type v} {β : Type v} {σ : Type v} {ι : Type w}

theorem map_eq_ok_iff
    {f : α → β} {x : Except ε α} {b : β} :
    x.map f = .ok b ↔ ∃ a, x = .ok a ∧ f a = b := by
  cases x <;> simp [Except.map]

theorem mapError_eq_ok_iff
    {f : ε → ε'} {x : Except ε α} {a : α} :
    x.mapError f = .ok a ↔ x = .ok a := by
  cases x <;> simp [Except.mapError]

theorem bind_eq_ok_iff
    {f : α → Except ε β} {x : Except ε α} {b : β} :
    x >>= f = .ok b ↔ ∃ a, x = .ok a ∧ f a = .ok b := by
  cases x <;> simp [bind, Except.bind]

@[simp] theorem ok_bind
    (f : α → Except ε β) (a : α) : (Except.ok a >>= f) = f a := rfl

@[simp] theorem map_ok
    (f : α → β) (a : α) : (Except.ok a : Except ε α).map f = .ok (f a) := rfl

/-- What every step of a loop keeps, the loop keeps. -/
theorem foldlM_invariant
    {step : σ → ι → Except ε σ} {list : List ι} {s t : σ} (motive : σ → Prop)
    (hstep : ∀ s t : σ, ∀ i ∈ list, motive s → step s i = .ok t → motive t)
    (hstart : motive s) (hrun : list.foldlM step s = .ok t) : motive t := by
  induction list generalizing s with
  | nil =>
      cases hrun
      exact hstart
  | cons head rest ih =>
      rw [List.foldlM_cons, bind_eq_ok_iff] at hrun
      obtain ⟨middle, hhead, hrest⟩ := hrun
      refine ih (fun s t i hi => hstep s t i (List.mem_cons_of_mem _ hi)) ?_ hrest
      exact hstep s middle head (List.mem_cons_self ..) hstart hhead

/-- When a loop succeeds, it has passed each item in some state. -/
theorem exists_of_foldlM
    {step : σ → ι → Except ε σ} {list : List ι} {s t : σ} {i : ι} (hi : i ∈ list)
    (hrun : list.foldlM step s = .ok t) : ∃ before after, step before i = .ok after := by
  induction list generalizing s with
  | nil => cases hi
  | cons head rest ih =>
      rw [List.foldlM_cons, bind_eq_ok_iff] at hrun
      obtain ⟨middle, hhead, hrest⟩ := hrun
      rcases List.mem_cons.1 hi with rfl | hi
      · exact ⟨s, middle, hhead⟩
      · exact ih hi hrest

section Focusing

variable {α β γ : Type v} {i j : ι}

/-- The second run makes the first one at some point: what it does before does
not depend on the index, what it does afterwards only on the result. -/
inductive Focus (leaf : ι → Except ε α) : {β : Type v} → (ι → Except ε β) → Prop
  | here : Focus leaf leaf
  | after {β γ : Type v} {run : ι → Except ε β} (h : Focus leaf run) (next : β → Except ε γ) :
      Focus leaf fun i => run i >>= next
  | before {β γ : Type v} (first : Except ε β) {run : β → ι → Except ε γ}
      (h : ∀ b, Focus leaf (run b)) : Focus leaf fun i => first >>= fun b => run b i

/-- The run fails with the given error, or with one that all the other runs share. -/
def Refuses (bad : ε) (run : Except ε α) (others : ι → Except ε α) : Prop :=
  ∃ e, run = .error e ∧ (e = bad ∨ ∀ i, others i = .error e)

namespace Refuses

variable {bad e : ε} {run : Except ε α} {others : ι → Except ε α}

theorem of_forall (h : run = .error e) (hothers : ∀ i, others i = .error e) :
    Refuses bad run others :=
  ⟨e, h, Or.inr hothers⟩

/-- What follows an error makes nothing of it. -/
theorem next {final : Except ε β} {finals : ι → Except ε β} (h : Refuses bad run others)
    (hrun : ∀ e, run = .error e → final = .error e)
    (hothers : ∀ i e, others i = .error e → finals i = .error e) :
    Refuses bad final finals := by
  obtain ⟨e, he, hor⟩ := h
  exact ⟨e, hrun e he, hor.imp_right fun hall i => hothers i e (hall i)⟩

theorem bind (h : Refuses bad run others) (f : α → Except ε β) :
    Refuses bad (run >>= f) fun i => others i >>= f :=
  h.next (fun e he => by rw [he]; rfl) fun i e he => by simp only [he]; rfl

theorem map_iff {f : α → β} :
    Refuses bad (run.map f) (fun i => (others i).map f) ↔ Refuses bad run others := by
  have herror : ∀ (x : Except ε α) (e : ε), x.map f = .error e ↔ x = .error e := by
    intro x e
    cases x <;> simp [Except.map]
  simp only [Refuses, herror]

end Refuses

namespace Focus

variable {leaf : ι → Except ε α} {run : ι → Except ε β}

/-- What has failed before makes no difference. -/
theorem error (leaf : ι → Except ε α) (e : ε) :
    Focus leaf fun _ => (.error e : Except ε β) := by
  have hnever : ∀ b : PEmpty, Focus leaf (b.elim : ι → Except ε β) := fun b => b.elim
  exact before (.error e) hnever

theorem map (h : Focus leaf run) (f : β → γ) : Focus leaf fun i => (run i).map f := by
  have heq : (fun i => (run i).map f) = fun i => run i >>= fun b => .ok (f b) := by
    funext i
    cases run i <;> rfl
  exact heq ▸ h.after _

theorem congr (h : Focus leaf run) (hleaf : leaf i = leaf j) : run i = run j := by
  induction h with
  | here => exact hleaf
  | after h next ih => simp only [ih]
  | before first h ih => simp only [ih]

theorem refuses {κ : Type w} {bad : ε} (h : Focus leaf run) {others : κ → ι}
    (hleaf : Refuses bad (leaf i) fun k => leaf (others k)) :
    Refuses bad (run i) fun k => run (others k) := by
  induction h with
  | here => exact hleaf
  | after h next ih => exact ih.bind next
  | before first h ih =>
      cases first with
      | error e => exact .of_forall rfl fun _ => rfl
      | ok b => exact ih b

end Focus
end Focusing

end Outcome
end CloudTemplate
