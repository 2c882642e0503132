import Mathlib.Data.List.DropRight
import CloudTemplate.Reference.Site

/-!
# Templates with a single placeholder

A placeholder is written between `${` and `}`, and an attribute behind a dot
(`Placeholder.text`).  It is plain when its name and its attribute have none of
the marks that end them, or that would be trimmed or escaped.

Main statements: a plain placeholder is read back from its text, as the only one
(`Placeholder.ofTemplate_text`), so the call of `Fn::Sub` with this text refers to
what the placeholder names, unless that is a pseudo parameter
(`Placeholder.sites_sub_text`).
-/

namespace CloudTemplate

namespace Text

variable {cs start rest : List Char} {text : String}

/-- A text that starts with no blank has nothing to trim there. -/
theorem dropWhile_isBlank_append
    (h : start.dropWhile isBlank = start) (hne : start ≠ []) :
    (start ++ rest).dropWhile isBlank = start ++ rest := by
  cases start with
  | nil => exact absurd rfl hne
  | cons c start =>
      have hc : ¬ isBlank c = true := List.dropWhile_eq_self_iff.1 h (Nat.succ_pos _)
      exact List.dropWhile_cons_of_neg hc

theorem trimChars_eq_self_iff :
    trimChars cs = cs ↔
      cs.dropWhile isBlank = cs ∧ cs.reverse.dropWhile isBlank = cs.reverse := by
  unfold trimChars
  constructor
  · intro h
    -- Whatever is trimmed, the text gets shorter.
    have hlength := congrArg List.length h
    rw [List.length_reverse] at hlength
    have hend := (List.dropWhile_suffix isBlank (l := (cs.dropWhile isBlank).reverse)).length_le
    rw [List.length_reverse] at hend
    have hstart := List.dropWhile_suffix isBlank (l := cs)
    have hsame : cs.dropWhile isBlank = cs :=
      hstart.eq_of_length (Nat.le_antisymm hstart.length_le (hlength ▸ hend))
    rw [hsame] at h
    exact ⟨hsame, List.reverse_injective (h.trans cs.reverse_reverse.symm)⟩
  · rintro ⟨hstart, hend⟩
    rw [hstart, hend, List.reverse_reverse]

theorem toList_trim (text : String) : (trim text).toList = trimChars text.toList :=
  String.toList_ofList

theorem trim_eq_self_iff : trim text = text ↔ trimChars text.toList = text.toList := by
  rw [← String.toList_inj, toList_trim]

theorem trimEnd_eq_self_iff :
    trimEnd text = text ↔ text.toList.reverse.dropWhile isBlank = text.toList.reverse := by
  rw [trimEnd, ← String.toList_inj, String.toList_ofList, List.reverse_eq_iff]

end Text

namespace Placeholder

variable {p : Placeholder}

section Reading

variable {name attr inner rest : List Char}

theorem splitAtDot_of_not_mem (h : '.' ∉ name) : splitAtDot name = (name, none) := by
  induction name with
  | nil => rfl
  | cons c name ih =>
      rw [List.mem_cons, not_or] at h
      rw [splitAtDot, if_neg (Ne.symm h.1), ih h.2]

theorem splitAtDot_append (h : '.' ∉ name) :
    splitAtDot (name ++ '.' :: attr) = (name, some attr) := by
  induction name with
  | nil => rfl
  | cons c name ih =>
      rw [List.mem_cons, not_or] at h
      rw [List.cons_append, splitAtDot, if_neg (Ne.symm h.1), ih h.2]

/-- The name ends at the first dot. -/
theorem dot_not_mem_splitAtDot (cs : List Char) : '.' ∉ (splitAtDot cs).1 := by
  induction cs with
  | nil => exact List.not_mem_nil
  | cons c cs ih =>
      rw [splitAtDot]
      split_ifs with hdot
      · exact List.not_mem_nil
      · rw [List.mem_cons, not_or]
        exact ⟨Ne.symm hdot, ih⟩

/-- Nothing gets lost at the first dot. -/
theorem append_splitAtDot (cs : List Char) :
    (splitAtDot cs).1 ++ ((splitAtDot cs).2.map ('.' :: ·)).getD [] = cs := by
  induction cs with
  | nil => rfl
  | cons c cs ih =>
      rw [splitAtDot]
      split_ifs with hdot
      · rw [hdot]
        rfl
      · exact congrArg (c :: ·) ih

/-- The characters up to the closing brace are read into the placeholder. -/
theorem inners_some_append (seen : List Char) (h : '}' ∉ inner) :
    inners (some seen) (inner ++ '}' :: rest) =
      inners (some (inner.reverse ++ seen)) ('}' :: rest) := by
  induction inner generalizing seen with
  | nil => rfl
  | cons c inner ih =>
      rw [List.mem_cons, not_or] at h
      rw [List.cons_append, inners, if_neg (Ne.symm h.1), ih _ h.2, List.reverse_cons,
        List.append_assoc]
      rfl

theorem inners_placeholder (h : '}' ∉ inner) (hne : inner ≠ []) :
    inners none ('$' :: '{' :: (inner ++ '}' :: rest)) = inner :: inners none rest := by
  rw [inners, inners_some_append [] h, inners, if_pos rfl, List.append_nil, List.reverse_reverse]
  exact if_neg (by simpa using hne)

theorem ofInner?_of_trimmed
    (htrim : Text.trimChars inner = inner) (hne : inner ≠ []) (hmark : inner.head? ≠ some '!') :
    ofInner? inner =
      some ⟨String.ofList (splitAtDot inner).1, (splitAtDot inner).2.map String.ofList⟩ := by
  unfold ofInner?
  rw [htrim]
  split
  · exact absurd rfl hne
  · exact absurd rfl hmark
  · rfl

end Reading

section Writing

/-- The attribute, as it is written behind the name. -/
def attrText (p : Placeholder) : String :=
  match p.attr with
  | none => ""
  | some attr => "." ++ attr

/-- The dot in front of the attribute is the first one. -/
theorem splitAtDot_inner (h : '.' ∉ p.name.toList) :
    splitAtDot (p.name.toList ++ p.attrText.toList) =
      (p.name.toList, p.attr.map String.toList) := by
  unfold attrText
  split
  · next hattr =>
    rw [hattr]
    simpa using splitAtDot_of_not_mem h
  · next attr hattr =>
    rw [hattr, String.toList_append]
    exact splitAtDot_append h

/-- The template that is this placeholder and nothing else. -/
def text (p : Placeholder) : String :=
  "$\x7b" ++ p.name ++ p.attrText ++ "\x7d"

/-- Nothing in the name or the attribute ends it, is trimmed, or marks the
placeholder as a literal. -/
structure Plain (p : Placeholder) : Prop where
  name_ne_empty : p.name ≠ ""
  dot_not_mem : '.' ∉ p.name.toList
  brace_not_mem : '}' ∉ p.name.toList
  not_marked : p.name.toList.head? ≠ some '!'
  trim_name : Text.trim p.name = p.name
  brace_not_mem_attr : ∀ attr ∈ p.attr, '}' ∉ attr.toList
  trimEnd_attr : ∀ attr ∈ p.attr, Text.trimEnd attr = attr

namespace Plain

variable (h : p.Plain)
include h

theorem toList_name_ne_nil : p.name.toList ≠ [] := fun hnil =>
  h.name_ne_empty (String.toList_eq_nil_iff.1 hnil)

theorem brace_not_mem_inner : '}' ∉ p.name.toList ++ p.attrText.toList := by
  rw [List.mem_append, not_or]
  refine ⟨h.brace_not_mem, ?_⟩
  unfold attrText
  split
  · exact List.not_mem_nil
  · next attr hattr =>
    rw [String.toList_append, List.mem_append, not_or]
    exact ⟨by decide, h.brace_not_mem_attr attr hattr⟩

theorem trimChars_inner :
    Text.trimChars (p.name.toList ++ p.attrText.toList) =
      p.name.toList ++ p.attrText.toList := by
  have hname := Text.trimChars_eq_self_iff.1 (Text.trim_eq_self_iff.1 h.trim_name)
  refine Text.trimChars_eq_self_iff.2
    ⟨Text.dropWhile_isBlank_append hname.1 h.toList_name_ne_nil, ?_⟩
  unfold attrText
  split
  · simpa using hname.2
  · next attr hattr =>
    rw [List.reverse_append, String.toList_append, List.reverse_append, List.append_assoc]
    have hend := Text.trimEnd_eq_self_iff.1 (h.trimEnd_attr attr hattr)
    by_cases hempty : attr.toList.reverse = []
    · rw [hempty]
      rfl
    · exact Text.dropWhile_isBlank_append hend hempty

theorem ofInner?_inner : ofInner? (p.name.toList ++ p.attrText.toList) = some p := by
  have hne : p.name.toList ++ p.attrText.toList ≠ [] :=
    List.append_ne_nil_of_left_ne_nil h.toList_name_ne_nil _
  have hmark : (p.name.toList ++ p.attrText.toList).head? ≠ some '!' := by
    rw [List.head?_append_of_ne_nil _ h.toList_name_ne_nil]
    exact h.not_marked
  rw [ofInner?_of_trimmed h.trimChars_inner hne hmark, splitAtDot_inner h.dot_not_mem,
    String.ofList_toList, Option.map_map]
  cases hattr : p.attr <;> simp [← hattr]

end Plain

/-- **A plain placeholder is read back from its text**, as the only one. -/
theorem ofTemplate_text (h : p.Plain) : ofTemplate p.text = [p] := by
  have htext : p.text.toList =
      '$' :: '{' :: (p.name.toList ++ p.attrText.toList ++ '}' :: []) := by
    simp [text]
  have hne : p.name.toList ++ p.attrText.toList ≠ [] :=
    List.append_ne_nil_of_left_ne_nil h.toList_name_ne_nil _
  rw [ofTemplate, htext, inners_placeholder h.brace_not_mem_inner hne,
    List.filterMap_cons_some h.ofInner?_inner]
  rfl

end Writing

section Sites

/-- What a placeholder names, as a reference of its own: a `Ref`, or an
`Fn::GetAtt` of the attribute. -/
def reference (p : Placeholder) : Value :=
  match p.attr with
  | none => .ref p.name
  | some attr => .attr p.name attr

theorem sites_reference (p : Placeholder) (path : String) :
    p.reference.sites path =
      [⟨path, p.name, p.attr.elim .ref .attr⟩] := by
  unfold reference
  cases p.attr <;> rfl

theorem sites_sub_text (h : p.Plain) (path : String) :
    (Value.sub p.text).sites path =
      if p.name ∈ pseudoParameters then [] else [⟨path, p.name, .placeholder p.attr⟩] := by
  have hsites : (Value.sub p.text).sites path =
      Value.placeholderSites path (.sub p.text) := by
    simp [Value.sub, Value.sites, Value.nodes, Value.ownSites]
  rw [hsites]
  show (ofTemplate p.text).filterMap _ = _
  rw [ofTemplate_text h]
  by_cases hpseudo : p.name ∈ pseudoParameters
  · simp [isPseudoParameter, hpseudo]
  · simp [isPseudoParameter, hpseudo, Value.subVariables?, Value.sub, Entries.hasName]

end Sites

end Placeholder
end CloudTemplate
