import CloudTemplate.Proofs.Reference.Placeholder

/-!
# Renaming in templates

A name may be replaced by another one in all placeholders of a template that
have it; their blanks and attributes stay, and so does all other text
(`Placeholder.renameTemplate`).

Main statements: the placeholders of the new template are the renamed ones
(`Placeholder.ofTemplate_renameTemplate`), and a template without the old name
is as it was (`Placeholder.renameTemplate_eq_self`).
-/

namespace CloudTemplate

namespace Text

variable {cs front back : List Char}

/-- Blanks around a text are trimmed. -/
theorem trimChars_append
    (hfront : ∀ c ∈ front, isBlank c = true) (hback : ∀ c ∈ back, isBlank c = true) :
    trimChars (front ++ cs ++ back) = trimChars cs := by
  unfold trimChars
  rw [List.append_assoc, List.dropWhile_append_of_pos hfront, List.dropWhile_append]
  split
  · next hempty =>
    have hblank : back.dropWhile isBlank = [] := List.dropWhile_eq_nil_iff.2 hback
    rw [hblank, List.isEmpty_iff.1 hempty]
  · rw [List.reverse_append, List.dropWhile_append_of_pos fun c hc => hback c (by simpa using hc)]

theorem isInfix_trimChars (cs : List Char) : trimChars cs <:+: cs := by
  have hend := List.dropWhile_suffix isBlank (l := (cs.dropWhile isBlank).reverse)
  rw [← List.reverse_prefix, List.reverse_reverse] at hend
  exact hend.isInfix.trans (List.dropWhile_suffix isBlank).isInfix

theorem dropWhile_reverse_trimChars (cs : List Char) :
    (trimChars cs).reverse.dropWhile isBlank = (trimChars cs).reverse := by
  rw [trimChars, List.reverse_reverse, List.dropWhile_idempotent]

end Text

namespace Placeholder

variable {x y : String} {p : Placeholder} {inner cs : List Char}

/-- Give the placeholder the new name if it has the old one. -/
def rename (x y : String) (p : Placeholder) : Placeholder :=
  if p.name = x then ⟨y, p.attr⟩ else p

/-- Put the new name between braces in place of the old one. -/
def renameInner (x y : String) (inner : List Char) : List Char :=
  match ofInner? inner with
  | none => inner
  | some p =>
      if p.name = x then
        inner.takeWhile Text.isBlank ++ (y.toList ++ p.attrText.toList) ++
          (inner.reverse.takeWhile Text.isBlank).reverse
      else inner

/-- Put the new name in place of the old one in all placeholders.

The first argument holds the characters read so far inside an open placeholder,
last one first. -/
def renameChars (x y : String) : Option (List Char) → List Char → List Char
  | none, [] => []
  | some seen, [] => seen.reverse
  | none, '$' :: '{' :: rest => '$' :: '{' :: renameChars x y (some []) rest
  | none, c :: rest => c :: renameChars x y none rest
  | some seen, c :: rest =>
      if c = '}' then renameInner x y seen.reverse ++ '}' :: renameChars x y none rest
      else renameChars x y (some (c :: seen)) rest

/-- Put the new name in place of the old one in all placeholders of a template. -/
def renameTemplate (x y template : String) : String :=
  String.ofList (renameChars x y none template.toList)

section Inner

theorem splitAtDot_eq_some {name attr : List Char} (h : splitAtDot cs = (name, some attr)) :
    cs = name ++ '.' :: attr := by
  rw [← append_splitAtDot cs, h]
  rfl

theorem eq_of_ofInner? (h : ofInner? inner = some p) :
    p = ⟨String.ofList (splitAtDot (Text.trimChars inner)).1,
      (splitAtDot (Text.trimChars inner)).2.map String.ofList⟩ := by
  unfold ofInner? at h
  split at h
  · cases h
  · cases h
  · exact (Option.some.inj h).symm

/-- What is read between braces can have another name. -/
theorem plain_of_ofInner?
    (hy : Plain ⟨y, none⟩) (hbrace : '}' ∉ inner) (h : ofInner? inner = some p) :
    Plain ⟨y, p.attr⟩ := by
  have hattr : ∀ attr ∈ p.attr, ∃ name,
      Text.trimChars inner = name ++ '.' :: attr.toList := by
    intro attr hattr
    rw [eq_of_ofInner? h] at hattr
    obtain ⟨chars, hchars, rfl⟩ := Option.map_eq_some_iff.1 hattr
    refine ⟨(splitAtDot (Text.trimChars inner)).1, ?_⟩
    rw [String.toList_ofList]
    exact splitAtDot_eq_some (Prod.ext rfl hchars)
  refine { hy with brace_not_mem_attr := fun attr hmem hmem' => ?_,
                   trimEnd_attr := fun attr hmem => ?_ }
  · obtain ⟨name, hname⟩ := hattr attr hmem
    refine hbrace ((Text.isInfix_trimChars inner).subset ?_)
    rw [hname]
    exact List.mem_append_right _ (List.mem_cons_of_mem _ hmem')
  · obtain ⟨name, hname⟩ := hattr attr hmem
    have hend := Text.dropWhile_reverse_trimChars inner
    rw [hname, List.reverse_append, List.reverse_cons] at hend
    rw [Text.trimEnd_eq_self_iff]
    cases hchars : attr.toList.reverse with
    | nil => rfl
    | cons c rest =>
        -- The last character of the attribute is that of the trimmed text.
        rw [hchars] at hend
        have hc : ¬ Text.isBlank c = true :=
          List.dropWhile_eq_self_iff.1 hend (by simp)
        exact List.dropWhile_cons_of_neg hc

theorem rename_of_ne (h : p.name ≠ x) : rename x y p = p := if_neg h

theorem name_rename_of_eq (h : p.name = x) : (rename x y p).name = y := by
  rw [rename, if_pos h]

/-- The placeholder in the new text is the renamed one. -/
theorem ofInner?_renameInner (hy : Plain ⟨y, none⟩) (hbrace : '}' ∉ inner) :
    ofInner? (renameInner x y inner) = (ofInner? inner).map (rename x y) := by
  unfold renameInner
  cases h : ofInner? inner with
  | none => exact h
  | some p =>
      simp only [Option.map_some]
      by_cases hname : p.name = x
      · have hplain : Plain ⟨y, p.attr⟩ := plain_of_ofInner? hy hbrace h
        have hfront : ∀ c ∈ inner.takeWhile Text.isBlank, Text.isBlank c = true :=
          fun c hc => List.mem_takeWhile_imp hc
        have hback : ∀ c ∈ (inner.reverse.takeWhile Text.isBlank).reverse,
            Text.isBlank c = true :=
          fun c hc => List.mem_takeWhile_imp (List.mem_reverse.1 hc)
        rw [if_pos hname, rename, if_pos hname, ← hplain.ofInner?_inner]
        have htrim : ∀ cs, Text.trimChars (inner.takeWhile Text.isBlank ++ cs ++
            (inner.reverse.takeWhile Text.isBlank).reverse) = Text.trimChars cs :=
          fun cs => Text.trimChars_append hfront hback
        unfold ofInner?
        rw [htrim]
        rfl
      · rw [if_neg hname, h, rename_of_ne hname]

theorem renameInner_eq_self (h : ∀ p ∈ ofInner? inner, p.name ≠ x) :
    renameInner x y inner = inner := by
  unfold renameInner
  split
  · rfl
  · next p hp => exact if_neg (h p hp)

theorem renameInner_ne_nil (hy : Plain ⟨y, none⟩) (h : inner ≠ []) :
    renameInner x y inner ≠ [] := by
  unfold renameInner
  split
  · exact h
  · split_ifs
    · refine List.append_ne_nil_of_left_ne_nil (List.append_ne_nil_of_right_ne_nil _ ?_) _
      exact List.append_ne_nil_of_left_ne_nil hy.toList_name_ne_nil _
    · exact h

theorem brace_not_mem_renameInner (hy : Plain ⟨y, none⟩) (h : '}' ∉ inner) :
    '}' ∉ renameInner x y inner := by
  unfold renameInner
  cases hp : ofInner? inner with
  | none => exact h
  | some p =>
      simp only
      split_ifs
      · have hplain := (plain_of_ofInner? hy h hp).brace_not_mem_inner
        rw [List.mem_append, List.mem_append, not_or, not_or]
        refine ⟨⟨fun hmem => h (List.takeWhile_subset _ hmem), hplain⟩, fun hmem => h ?_⟩
        exact List.mem_reverse.1 (List.takeWhile_subset _ (List.mem_reverse.1 hmem))
      · exact h

end Inner

section Template

/-- An open placeholder that is not closed names nothing. -/
theorem inners_some_of_not_mem (seen : List Char) (h : '}' ∉ cs) : inners (some seen) cs = [] := by
  induction cs generalizing seen with
  | nil => rfl
  | cons c cs ih =>
      rw [List.mem_cons, not_or] at h
      rw [inners, if_neg (Ne.symm h.1), ih _ h.2]

/-- What does not open a placeholder is passed over. -/
theorem inners_cons {c : Char} (h : ∀ rest, c = '$' → cs = '{' :: rest → False) :
    inners none (c :: cs) = inners none cs := by
  rw [inners]
  exact h

theorem renameChars_cons {c : Char} (h : ∀ rest, c = '$' → cs = '{' :: rest → False) :
    renameChars x y none (c :: cs) = c :: renameChars x y none cs := by
  rw [renameChars]
  exact h

theorem head?_renameChars (cs : List Char) : (renameChars x y none cs).head? = cs.head? := by
  unfold renameChars
  split <;> simp_all

/-- The texts between the braces of the new template are the renamed ones.  A
placeholder that is open has been read, but nothing of it is written yet. -/
theorem inners_renameChars (hy : Plain ⟨y, none⟩) (state : Option (List Char)) (cs : List Char)
    (hstate : ∀ seen ∈ state, '}' ∉ seen) :
    inners (state.map fun _ => []) (renameChars x y state cs) =
      (inners state cs).map (renameInner x y) := by
  induction state, cs using inners.induct with
  | case1 state =>
      cases state with
      | none => rfl
      | some seen =>
          refine inners_some_of_not_mem [] fun hmem => ?_
          exact hstate seen rfl (List.mem_reverse.1 hmem)
  | case2 rest ih => exact ih (by simp)
  | case3 c rest hopen ih =>
      rw [inners_cons hopen, renameChars_cons hopen]
      refine (inners_cons fun rest' hc hrest => ?_).trans (ih (by simp))
      have hhead := head?_renameChars (x := x) (y := y) rest
      rw [hrest] at hhead
      exact hopen rest.tail hc (List.eq_cons_of_mem_head? hhead.symm)
  | case4 seen rest hempty ih =>
      rw [List.isEmpty_iff.1 hempty]
      exact ih (by simp)
  | case5 seen rest hne ih =>
      have hseen : '}' ∉ seen.reverse := fun hmem => hstate seen rfl (List.mem_reverse.1 hmem)
      have hne' : seen.reverse ≠ [] := by simpa using hne
      rw [renameChars, if_pos rfl, inners, if_pos rfl, if_neg hne, List.map_cons, ← ih (by simp)]
      exact inners_placeholder (brace_not_mem_renameInner hy hseen) (renameInner_ne_nil hy hne')
  | case6 seen c rest hc ih =>
      rw [renameChars, if_neg hc, inners, if_neg hc]
      refine ih fun seen' hseen' => ?_
      cases hseen'
      rw [List.mem_cons, not_or]
      exact ⟨Ne.symm hc, hstate seen rfl⟩

/-- What has no placeholder with the old name stays as it is. -/
theorem renameChars_eq_self (state : Option (List Char)) (cs : List Char)
    (h : ∀ inner ∈ inners state cs, renameInner x y inner = inner) :
    renameChars x y state cs = (state.getD []).reverse ++ cs := by
  induction state, cs using inners.induct with
  | case1 state => cases state <;> simp [renameChars]
  | case2 rest ih =>
      rw [renameChars, ih h]
      rfl
  | case3 c rest hopen ih =>
      rw [inners_cons hopen] at h
      rw [renameChars_cons hopen, ih h]
      rfl
  | case4 seen rest hempty ih =>
      rw [inners, if_pos rfl, if_pos hempty] at h
      rw [renameChars, if_pos rfl, ih h, List.isEmpty_iff.1 hempty]
      rfl
  | case5 seen rest hne ih =>
      rw [inners, if_pos rfl, if_neg hne] at h
      obtain ⟨hseen, hrest⟩ := List.forall_mem_cons.1 h
      rw [renameChars, if_pos rfl, ih hrest, hseen]
      rfl
  | case6 seen c rest hc ih =>
      rw [inners, if_neg hc] at h
      rw [renameChars, if_neg hc, ih h]
      simp

theorem brace_not_mem_of_mem_inners (state : Option (List Char)) (cs : List Char)
    (hstate : ∀ seen ∈ state, '}' ∉ seen) : ∀ inner ∈ inners state cs, '}' ∉ inner := by
  induction state, cs using inners.induct with
  | case1 state => simp [inners]
  | case2 rest ih => exact ih (by simp)
  | case3 c rest hopen ih =>
      rw [inners_cons hopen]
      exact ih (by simp)
  | case4 seen rest hempty ih =>
      rw [inners, if_pos rfl, if_pos hempty]
      exact ih (by simp)
  | case5 seen rest hne ih =>
      rw [inners, if_pos rfl, if_neg hne]
      refine List.forall_mem_cons.2 ⟨fun hmem => ?_, ih (by simp)⟩
      exact hstate seen rfl (List.mem_reverse.1 hmem)
  | case6 seen c rest hc ih =>
      rw [inners, if_neg hc]
      refine ih fun seen' hseen' => ?_
      cases hseen'
      rw [List.mem_cons, not_or]
      exact ⟨Ne.symm hc, hstate seen rfl⟩

variable {template : String}

/-- **The placeholders of the new template are the renamed ones.** -/
theorem ofTemplate_renameTemplate (hy : Plain ⟨y, none⟩) (template : String) :
    ofTemplate (renameTemplate x y template) = (ofTemplate template).map (rename x y) := by
  have hinners : inners none (renameTemplate x y template).toList =
      (inners none template.toList).map (renameInner x y) := by
    rw [renameTemplate, String.toList_ofList]
    exact inners_renameChars hy none template.toList (by simp)
  have hbrace := brace_not_mem_of_mem_inners none template.toList (by simp)
  rw [ofTemplate, hinners, List.filterMap_map, ofTemplate, List.map_filterMap]
  exact List.filterMap_congr fun inner hinner => ofInner?_renameInner hy (hbrace inner hinner)

theorem renameTemplate_eq_self (h : ∀ p ∈ ofTemplate template, p.name ≠ x) :
    renameTemplate x y template = template := by
  have hsame : renameChars x y none template.toList = template.toList :=
    renameChars_eq_self none template.toList fun inner hinner =>
      renameInner_eq_self fun p hp => h p (List.mem_filterMap.2 ⟨inner, hinner, hp⟩)
  rw [renameTemplate, hsame, String.ofList_toList]

end Template

end Placeholder
end CloudTemplate
