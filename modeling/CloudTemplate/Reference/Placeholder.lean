import CloudTemplate.Text.Blank

/-!
# Placeholders in templates of `Fn::Sub`

A placeholder is `${` followed by at least one character other than `}` and then `}`. Its blanks
are trimmed; what is empty then, or starts with `!`, names nothing. The first dot separates a name
from an attribute.
-/

namespace CloudTemplate

/-- The name in a placeholder, with the attribute behind its first dot. -/
structure Placeholder where
  name : String
  attr : Option String
deriving DecidableEq, Repr

namespace Placeholder

/-- The texts between `${` and `}`, in order.

The first argument holds the characters read so far inside an open placeholder, last one first. -/
def inners : Option (List Char) → List Char → List (List Char)
  | _, [] => []
  | none, '$' :: '{' :: rest => inners (some []) rest
  | none, _ :: rest => inners none rest
  | some seen, c :: rest =>
    if c = '}' then
      if seen.isEmpty then inners none rest else seen.reverse :: inners none rest
    else inners (some (c :: seen)) rest

/-- The characters before and behind the first dot. -/
def splitAtDot : List Char → List Char × Option (List Char)
  | [] => ([], none)
  | c :: rest =>
    if c = '.' then ([], some rest)
    else ((c :: (splitAtDot rest).1), (splitAtDot rest).2)

/-- The placeholder with a text between its braces, if it names anything. -/
def ofInner? (inner : List Char) : Option Placeholder :=
  match Text.trimChars inner with
  | [] => none
  | '!' :: _ => none
  | trimmed =>
    let (name, attr) := splitAtDot trimmed
    some ⟨String.ofList name, attr.map String.ofList⟩

/-- The placeholders of a template, in order. -/
def ofTemplate (template : String) : List Placeholder :=
  (inners none template.toList).filterMap ofInner?

end Placeholder

/-- Names that every template may refer to without declaring them. -/
def pseudoParameters : List String :=
  ["AWS::AccountId", "AWS::NotificationARNs", "AWS::NoValue", "AWS::Partition", "AWS::Region",
    "AWS::StackId", "AWS::StackName", "AWS::URLSuffix"]

/-- Whether a name is a pseudo parameter. -/
def isPseudoParameter (name : String) : Bool :=
  pseudoParameters.contains name

theorem isPseudoParameter_iff {name : String} :
    isPseudoParameter name = true ↔ name ∈ pseudoParameters :=
  List.contains_iff_mem

end CloudTemplate
