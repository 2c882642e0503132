import CloudTemplate.Proofs.Reference.Renaming

/-!
# Templates in segments

A template may be put together from literal texts, which open no placeholder
(`IsLiteral`), and placeholders with any text between their braces
(`SegmentedTemplate`).

Main statement: the placeholders of the template are read back, in order, from
those texts that name something, and the literal texts do not matter
(`SegmentedTemplate.ofTemplate_text_faithful`).
-/

namespace CloudTemplate

/-- The text opens no placeholder. -/
def IsLiteral (text : String) : Prop :=
  ¬ ['$', '{'] <:+: text.toList

/-- A placeholder with a text between its braces, and the literal text behind it. -/
structure Segment where
  inner : String
  literal : String
  inner_ne_empty : inner ≠ ""
  brace_not_mem_inner : '}' ∉ inner.toList
  isLiteral : IsLiteral literal

/-- A literal text and the segments behind it. -/
structure SegmentedTemplate where
  front : String
  segments : List Segment
  isLiteral_front : IsLiteral front

namespace Segment

/-- The placeholder as it is written, with the literal text. -/
def text (segment : Segment) : String :=
  "$\x7b" ++ segment.inner ++ "\x7d" ++ segment.literal

end Segment

namespace SegmentedTemplate

/-- The template as it is written. -/
def text (t : SegmentedTemplate) : String :=
  t.front ++ String.join (t.segments.map Segment.text)

/-- The texts between the braces, in order. -/
def inners (t : SegmentedTemplate) : List String :=
  t.segments.map Segment.inner

end SegmentedTemplate

namespace Placeholder

/-- The text between the braces names something: there is more to it than blanks,
and it is not marked as literal. -/
def Names (inner : String) : Prop :=
  Text.trim inner ≠ "" ∧ (Text.trim inner).toList.head? ≠ some '!'

instance : DecidablePred Names := fun _ => inferInstanceAs (Decidable (_ ∧ _))

/-- The placeholder is the text between the braces without the blanks around it,
split at its first dot. -/
structure IsNamedBy (p : Placeholder) (inner : String) : Prop where
  text_eq : p.name ++ p.attrText = Text.trim inner
  dot_not_mem : '.' ∉ p.name.toList

variable {p : Placeholder} {inner : String} {literal rest : List Char}

section Inner

theorem IsNamedBy.splitAtDot_eq (h : p.IsNamedBy inner) :
    splitAtDot (Text.trimChars inner.toList) = (p.name.toList, p.attr.map String.toList) := by
  rw [← Text.toList_trim, ← h.text_eq, String.toList_append, splitAtDot_inner h.dot_not_mem]

/-- What is read from a text is named by it. -/
theorem isNamedBy_splitAtDot (inner : String) :
    IsNamedBy ⟨String.ofList (splitAtDot (Text.trimChars inner.toList)).1,
      (splitAtDot (Text.trimChars inner.toList)).2.map String.ofList⟩ inner := by
  constructor
  · rw [← String.toList_inj, Text.toList_trim]
    conv_rhs => rw [← append_splitAtDot (Text.trimChars inner.toList)]
    cases (splitAtDot (Text.trimChars inner.toList)).2 <;> simp [attrText]
  · simpa using dot_not_mem_splitAtDot _

theorem IsNamedBy.eq {q : Placeholder} (hp : p.IsNamedBy inner) (hq : q.IsNamedBy inner) :
    p = q := by
  obtain ⟨hname, hattr⟩ := Prod.mk.injEq .. ▸ hp.splitAtDot_eq.symm.trans hq.splitAtDot_eq
  have hinjective := Option.map_injective fun _ _ => String.toList_inj.1
  exact Placeholder.mk.injEq .. ▸ ⟨String.toList_inj.1 hname, hinjective hattr⟩

theorem ofInner?_eq_some_iff :
    ofInner? inner.toList = some p ↔ Names inner ∧ p.IsNamedBy inner := by
  have hnames : Names inner ↔ Text.trimChars inner.toList ≠ [] ∧
      (Text.trimChars inner.toList).head? ≠ some '!' := by
    rw [Names, Text.toList_trim, Ne, ← String.toList_inj, Text.toList_trim]
    rfl
  rw [hnames]
  unfold ofInner?
  split
  · next hnil => simp [hnil]
  · next rest hmark => simp [hmark]
  · next hnil hmark =>
    have hnaming : Text.trimChars inner.toList ≠ [] ∧
        (Text.trimChars inner.toList).head? ≠ some '!' :=
      ⟨hnil, fun hhead => hmark _ (List.eq_cons_of_mem_head? hhead)⟩
    rw [Option.some_inj, and_iff_right hnaming]
    constructor
    · rintro rfl
      exact isNamedBy_splitAtDot inner
    · exact (isNamedBy_splitAtDot inner).eq

theorem forall₂_isNamedBy (inners : List String) :
    List.Forall₂ (fun inner p => p.IsNamedBy inner) (inners.filter fun inner => Names inner)
      ((inners.map String.toList).filterMap ofInner?) := by
  induction inners with
  | nil => exact .nil
  | cons inner inners ih =>
      cases hread : ofInner? inner.toList with
      | none =>
          have hnone : ¬ Names inner := fun hnames => by
            rw [ofInner?_eq_some_iff.2 ⟨hnames, isNamedBy_splitAtDot inner⟩] at hread
            cases hread
          rw [List.map_cons, List.filterMap_cons_none hread,
            List.filter_cons_of_neg (by simpa using hnone)]
          exact ih
      | some p =>
          obtain ⟨hnames, hp⟩ := ofInner?_eq_some_iff.1 hread
          rw [List.map_cons, List.filterMap_cons_some hread,
            List.filter_cons_of_pos (by simpa using hnames)]
          exact .cons hp ih

end Inner

section Reading

/-- Literal text is passed over, whatever it ends with. -/
theorem inners_append (h : ¬ ['$', '{'] <:+: literal) (hrest : rest.head? ≠ some '{') :
    inners none (literal ++ rest) = inners none rest := by
  induction literal with
  | nil => rfl
  | cons c literal ih =>
      have hopen : ∀ more, c = '$' → literal ++ rest = '{' :: more → False := by
        rintro more rfl hmore
        cases literal with
        | nil => exact hrest (by simp_all)
        | cons d literal =>
            obtain ⟨rfl, -⟩ := List.cons.inj hmore
            exact h ⟨[], literal, rfl⟩
      rw [List.cons_append, inners_cons hopen]
      exact ih fun hfound => h (List.infix_cons hfound)

theorem head?_segments (segments : List Segment) :
    (String.join (segments.map Segment.text)).toList.head? ≠ some '{' := by
  cases segments <;> simp [Segment.text]

/-- After each segment the reader is where it was in front of it. -/
theorem inners_segments (segments : List Segment) :
    inners none (String.join (segments.map Segment.text)).toList =
      (segments.map Segment.inner).map String.toList := by
  induction segments with
  | nil => rfl
  | cons segment segments ih =>
      have hinner : segment.inner.toList ≠ [] := fun hnil =>
        segment.inner_ne_empty (String.toList_eq_nil_iff.1 hnil)
      have htext : (String.join ((segment :: segments).map Segment.text)).toList =
          '$' :: '{' :: (segment.inner.toList ++ '}' :: (segment.literal.toList ++
            (String.join (segments.map Segment.text)).toList)) := by
        simp [Segment.text]
      rw [htext, inners_placeholder segment.brace_not_mem_inner hinner,
        inners_append segment.isLiteral (head?_segments segments), ih, List.map_cons, List.map_cons]

end Reading

end Placeholder

namespace SegmentedTemplate

theorem ofTemplate_text (t : SegmentedTemplate) :
    Placeholder.ofTemplate t.text =
      (t.inners.map String.toList).filterMap Placeholder.ofInner? := by
  rw [Placeholder.ofTemplate, text, String.toList_append,
    Placeholder.inners_append t.isLiteral_front (Placeholder.head?_segments t.segments),
    Placeholder.inners_segments, inners]

/-- **The placeholders of a template are those of its segments that name something**,
in order, and no literal text makes a difference. -/
theorem ofTemplate_text_faithful (t : SegmentedTemplate) :
    List.Forall₂ (fun inner p => p.IsNamedBy inner)
        (t.inners.filter fun inner => Placeholder.Names inner) (Placeholder.ofTemplate t.text) ∧
      ∀ t' : SegmentedTemplate, t'.inners = t.inners →
        Placeholder.ofTemplate t'.text = Placeholder.ofTemplate t.text := by
  constructor
  · rw [ofTemplate_text]
    exact Placeholder.forall₂_isNamedBy t.inners
  · intro t' hinners
    rw [ofTemplate_text, ofTemplate_text, hinners]

/-- Marks around the placeholders, blanks in them, several dots, and an escape. -/
example :
    Placeholder.ofTemplate "$$\x7bA\x7d\x7d$$\x7b B.x.y \x7d\x7b$\x7b!C\x7d$" =
      [⟨"A", none⟩, ⟨"B", some "x.y"⟩] := by
  decide +kernel

end SegmentedTemplate
end CloudTemplate
