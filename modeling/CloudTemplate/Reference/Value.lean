import CloudTemplate.Reference.Intrinsic
import CloudTemplate.Tree

/-!
# Template values

A value is a tree of literals, references and calls of intrinsic functions. Calls are made by
`Value.call`, which checks their arguments; a map lists its entries in ascending order.

Main statements: `Value.beq` decides equality (`Value.beq_iff`).
-/

namespace CloudTemplate

/-- A value of a template. -/
inductive Value where
  | null
  | bool (value : Bool)
  | number (value : Number)
  | string (value : String)
  | list (items : List Value)
  | map (entries : List (String × Value))
  /-- A resource or parameter as a whole. -/
  | ref (target : String)
  /-- A computed attribute of a resource. -/
  | attr (target name : String)
  /-- A named condition. -/
  | condition (name : String)
  /-- A call of an intrinsic function. -/
  | apply (function : Intrinsic) (arguments : List Value)
deriving Inhabited

/-- What is wrong with the arguments of a call. -/
inductive CallFault where
  | wrongCount (least greatest found : Nat)
  | delimiterNotString
  | templateNotString
  | variablesNotMap
  | conditionMissing
  | nameMissing
deriving DecidableEq, Repr

/-- The words for a fault in the arguments. -/
def CallFault.reason : CallFault → String
  | .wrongCount least greatest found =>
    let expected :=
      if least = greatest then toString least else toString least ++ " to " ++ toString greatest
    "expected " ++ expected ++ " argument(s), found " ++ toString found
  | .delimiterNotString => "delimiter must be a string"
  | .templateNotString => "template must be a string"
  | .variablesNotMap => "variables must be a map"
  | .conditionMissing => "first argument must name a condition"
  | .nameMissing => "argument must be a map with a Name entry"

namespace Value

mutual

/-- Whether two values are equal. -/
def beq : Value → Value → Bool
  | .null, .null => true
  | .bool a, .bool b => a == b
  | .number a, .number b => a == b
  | .string a, .string b => a == b
  | .list a, .list b => beqItems a b
  | .map a, .map b => beqEntries a b
  | .ref a, .ref b => a == b
  | .attr a m, .attr b n => a == b && m == n
  | .condition a, .condition b => a == b
  | .apply f a, .apply g b => f == g && beqItems a b
  | _, _ => false

/-- Whether two lists of values are equal. -/
def beqItems : List Value → List Value → Bool
  | [], [] => true
  | a :: as, b :: bs => beq a b && beqItems as bs
  | _, _ => false

/-- Whether two entry lists are equal. -/
def beqEntries : List (String × Value) → List (String × Value) → Bool
  | [], [] => true
  | (m, a) :: as, (n, b) :: bs => m == n && beq a b && beqEntries as bs
  | _, _ => false

end

mutual

theorem eq_of_beq : ∀ a b : Value, beq a b = true → a = b := by
  intro a b h
  cases a <;> cases b <;>
    simp only [beq, Bool.false_eq_true, beq_iff_eq, Bool.and_eq_true] at h
  case null.null => rfl
  case bool.bool => rw [h]
  case number.number => rw [h]
  case string.string => rw [h]
  case list.list as bs => rw [eq_of_beqItems as bs h]
  case map.map as bs => rw [eq_of_beqEntries as bs h]
  case ref.ref => rw [h]
  case attr.attr => rw [h.1, h.2]
  case condition.condition => rw [h]
  case apply.apply f as g bs => rw [h.1, eq_of_beqItems as bs h.2]

theorem eq_of_beqItems : ∀ as bs : List Value, beqItems as bs = true → as = bs := by
  intro as bs h
  cases as <;> cases bs <;> simp only [beqItems, Bool.false_eq_true, Bool.and_eq_true] at h
  case nil.nil => rfl
  case cons.cons a as b bs => rw [eq_of_beq a b h.1, eq_of_beqItems as bs h.2]

theorem eq_of_beqEntries :
    ∀ as bs : List (String × Value), beqEntries as bs = true → as = bs := by
  intro as bs h
  match as, bs, h with
  | [], [], _ => rfl
  | (m, a) :: as, (n, b) :: bs, h =>
    simp only [beqEntries, Bool.and_eq_true, beq_iff_eq] at h
    rw [h.1.1, eq_of_beq a b h.1.2, eq_of_beqEntries as bs h.2]

end

mutual

theorem beq_self : ∀ a : Value, beq a a = true
  | .null => rfl
  | .bool _ => by simp [beq]
  | .number _ => by simp [beq]
  | .string _ => by simp [beq]
  | .list items => by simp [beq, beqItems_self items]
  | .map entries => by simp [beq, beqEntries_self entries]
  | .ref _ => by simp [beq]
  | .attr _ _ => by simp [beq]
  | .condition _ => by simp [beq]
  | .apply _ arguments => by simp [beq, beqItems_self arguments]

theorem beqItems_self : ∀ as : List Value, beqItems as as = true
  | [] => rfl
  | a :: as => by simp [beqItems, beq_self a, beqItems_self as]

theorem beqEntries_self : ∀ as : List (String × Value), beqEntries as as = true
  | [] => rfl
  | (_, a) :: as => by simp [beqEntries, beq_self a, beqEntries_self as]

end

theorem beq_iff {a b : Value} : beq a b = true ↔ a = b :=
  ⟨eq_of_beq a b, fun h => h ▸ beq_self a⟩

instance : DecidableEq Value := fun _ _ => decidable_of_iff _ beq_iff

/-- The text of a string literal. -/
def string? : Value → Option String
  | .string text => some text
  | _ => none

/-- What is wrong with an argument list, if anything: first the count, then the kind of each
argument that has to be a literal, a map or a condition. -/
def callFault? (f : Intrinsic) (arguments : List Value) : Option CallFault :=
  let (least, greatest) := f.arity
  if arguments.length < least ∨ greatest < arguments.length then
    some (.wrongCount least greatest arguments.length)
  else
    match f, arguments with
    | .join, .string _ :: _ => none
    | .join, _ => some .delimiterNotString
    | .split, .string _ :: _ => none
    | .split, _ => some .delimiterNotString
    | .sub, [.string _] => none
    | .sub, .string _ :: .map _ :: _ => none
    | .sub, .string _ :: _ => some .variablesNotMap
    | .sub, _ => some .templateNotString
    | .ifElse, .condition _ :: _ => none
    | .ifElse, _ => some .conditionMissing
    | .transform, .map entries :: _ =>
      if Entries.hasName "Name" entries then none else some .nameMissing
    | .transform, _ => some .nameMissing
    | _, _ => none

/-- Call a function, unless its arguments are faulty. -/
def call (f : Intrinsic) (arguments : List Value) : Except CallFault Value :=
  match callFault? f arguments with
  | some fault => .error fault
  | none => .ok (.apply f arguments)

/-- The template text of a call of `Fn::Sub`. -/
def subTemplate? : Value → Option String
  | .apply .sub (.string template :: _) => some template
  | _ => none

/-- The variables of a call of `Fn::Sub` with two arguments. -/
def subVariables? : Value → Option (List (String × Value))
  | .apply .sub (_ :: .map bindings :: _) => some bindings
  | _ => none

/-- The condition that a call of `Fn::If` tests. -/
def ifCondition? : Value → Option String
  | .apply .ifElse (.condition name :: _) => some name
  | _ => none

mutual

/-- A document tree as literals; maps are sorted, and of equal names the last counts. -/
def ofTree : Tree → Value
  | .null => .null
  | .bool value => .bool value
  | .number value => .number value
  | .string value => .string value
  | .list items => .list (ofTrees items)
  | .map entries => .map (Entries.sort (ofTreeEntries entries))

/-- The items of a list as literals. -/
def ofTrees : List Tree → List Value
  | [] => []
  | item :: rest => ofTree item :: ofTrees rest

/-- The entries of a map as literals. -/
def ofTreeEntries : List (String × Tree) → List (String × Value)
  | [] => []
  | (name, item) :: rest => (name, ofTree item) :: ofTreeEntries rest

end

/-- `Fn::Sub` with a template alone, which is never faulty. -/
def sub (template : String) : Value :=
  .apply .sub [.string template]

/-- `Fn::Sub` with a template and variables. -/
def subWith (template : String) (bindings : List (String × Value)) : Except CallFault Value :=
  call .sub [.string template, .map (Entries.sort bindings)]

/-- `Fn::Join` of some values. -/
def join (delimiter : String) (items : List Value) : Except CallFault Value :=
  call .join [.string delimiter, .list items]

/-- `Fn::If` on a named condition. -/
def ifElse (name : String) (positive negative : Value) : Except CallFault Value :=
  call .ifElse [.condition name, positive, negative]

/-- `Fn::Select` of an item of a list. -/
def select (index : Int) (items : Value) : Except CallFault Value :=
  call .select [.number (.integer index), items]

end Value

end CloudTemplate
