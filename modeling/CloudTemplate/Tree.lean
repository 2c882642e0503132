import CloudTemplate.NameTable
import CloudTemplate.Number
import CloudTemplate.Text.Quoted

/-!
# Document trees

The data that JSON and YAML documents have in common. A map keeps its entries in a list: trees
read from a template have them in ascending order of their names, trees to be written have them
in the order in which they are written.

Main statement: `Tree.beq` decides equality (`Tree.beq_iff`).
-/

namespace CloudTemplate

/-- A document tree. -/
inductive Tree where
  | null
  | bool (value : Bool)
  | number (value : Number)
  | string (value : String)
  | list (items : List Tree)
  | map (entries : List (String × Tree))
deriving Inhabited

namespace Tree

mutual

/-- Whether two trees are equal. -/
def beq : Tree → Tree → Bool
  | .null, .null => true
  | .bool a, .bool b => a == b
  | .number a, .number b => a == b
  | .string a, .string b => a == b
  | .list a, .list b => beqItems a b
  | .map a, .map b => beqEntries a b
  | _, _ => false

/-- Whether two lists of trees are equal. -/
def beqItems : List Tree → List Tree → Bool
  | [], [] => true
  | a :: as, b :: bs => beq a b && beqItems as bs
  | _, _ => false

/-- Whether two entry lists are equal. -/
def beqEntries : List (String × Tree) → List (String × Tree) → Bool
  | [], [] => true
  | (m, a) :: as, (n, b) :: bs => m == n && beq a b && beqEntries as bs
  | _, _ => false

end

mutual

theorem eq_of_beq : ∀ a b : Tree, beq a b = true → a = b := by
  intro a b h
  cases a <;> cases b <;> simp only [beq, Bool.false_eq_true, beq_iff_eq] at h
  case null.null => rfl
  case bool.bool => rw [h]
  case number.number => rw [h]
  case string.string => rw [h]
  case list.list as bs => rw [eq_of_beqItems as bs h]
  case map.map as bs => rw [eq_of_beqEntries as bs h]

theorem eq_of_beqItems : ∀ as bs : List Tree, beqItems as bs = true → as = bs := by
  intro as bs h
  cases as <;> cases bs <;> simp only [beqItems, Bool.false_eq_true, Bool.and_eq_true] at h
  · rfl
  · next a as b bs => rw [eq_of_beq a b h.1, eq_of_beqItems as bs h.2]

theorem eq_of_beqEntries :
    ∀ as bs : List (String × Tree), beqEntries as bs = true → as = bs := by
  intro as bs h
  match as, bs, h with
  | [], [], _ => rfl
  | (m, a) :: as, (n, b) :: bs, h =>
    simp only [beqEntries, Bool.and_eq_true, beq_iff_eq] at h
    rw [h.1.1, eq_of_beq a b h.1.2, eq_of_beqEntries as bs h.2]

end

mutual

theorem beq_self : ∀ a : Tree, beq a a = true
  | .null => rfl
  | .bool _ => by simp [beq]
  | .number _ => by simp [beq]
  | .string _ => by simp [beq]
  | .list items => by simp [beq, beqItems_self items]
  | .map entries => by simp [beq, beqEntries_self entries]

theorem beqItems_self : ∀ as : List Tree, beqItems as as = true
  | [] => rfl
  | a :: as => by simp [beqItems, beq_self a, beqItems_self as]

theorem beqEntries_self : ∀ as : List (String × Tree), beqEntries as as = true
  | [] => rfl
  | (_, a) :: as => by simp [beqEntries, beq_self a, beqEntries_self as]

end

theorem beq_iff {a b : Tree} : beq a b = true ↔ a = b :=
  ⟨eq_of_beq a b, fun h => h ▸ beq_self a⟩

instance : DecidableEq Tree := fun _ _ => decidable_of_iff _ beq_iff

/-- What kind of tree it is, as named in messages. -/
def kind : Tree → String
  | .null => "null"
  | .bool _ => "boolean"
  | .number _ => "number"
  | .string _ => "string"
  | .list _ => "list"
  | .map _ => "mapping"

/-- What a tree of the wrong kind is called where a certain kind was asked for. -/
def foreignKind : Tree → String
  | .null => "null"
  | .bool value => "boolean \x60" ++ (if value then "true" else "false") ++ "\x60"
  | .number (.integer n) => "integer \x60" ++ toString n ++ "\x60"
  | .number value => "floating point \x60" ++ value.jsonText ++ "\x60"
  | .string text => "string " ++ Text.quoted text
  | .list _ => "sequence"
  | .map _ => "map"

end Tree

end CloudTemplate
