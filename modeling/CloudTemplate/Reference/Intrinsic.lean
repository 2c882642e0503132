/-!
# Intrinsic functions

The functions that a template value may call. Each has a short name, a key under which its call is
written, and bounds on the number of its arguments.
-/

namespace CloudTemplate

/-- An intrinsic function. `Ref`, `Fn::GetAtt` and `Condition` are no functions but references. -/
inductive Intrinsic where
  | join
  | select
  | sub
  | ifElse
  | equals
  | and
  | or
  | not
  | base64
  | getAZs
  | importValue
  | findInMap
  | split
  | transform
  | cidr
deriving DecidableEq, Repr

namespace Intrinsic

/-- All functions. -/
def all : List Intrinsic :=
  [.join, .select, .sub, .ifElse, .equals, .and, .or, .not, .base64, .getAZs, .importValue,
    .findInMap, .split, .transform, .cidr]

/-- The short name, as in the YAML tag `!Join`. -/
def shortName : Intrinsic → String
  | .join => "Join"
  | .select => "Select"
  | .sub => "Sub"
  | .ifElse => "If"
  | .equals => "Equals"
  | .and => "And"
  | .or => "Or"
  | .not => "Not"
  | .base64 => "Base64"
  | .getAZs => "GetAZs"
  | .importValue => "ImportValue"
  | .findInMap => "FindInMap"
  | .split => "Split"
  | .transform => "Transform"
  | .cidr => "Cidr"

/-- The name in settings, which starts with a small letter. -/
def settingName : Intrinsic → String
  | .join => "join"
  | .select => "select"
  | .sub => "sub"
  | .ifElse => "if"
  | .equals => "equals"
  | .and => "and"
  | .or => "or"
  | .not => "not"
  | .base64 => "base64"
  | .getAZs => "getAZs"
  | .importValue => "importValue"
  | .findInMap => "findInMap"
  | .split => "split"
  | .transform => "transform"
  | .cidr => "cidr"

/-- The start of every function key. -/
def keyStart : String := "Fn::"

/-- The key under which a call is written, as in `Fn::Join`. -/
def key (f : Intrinsic) : String :=
  keyStart ++ f.shortName

/-- The function with a short name. -/
def ofShortName? (name : String) : Option Intrinsic :=
  all.find? fun f => f.shortName = name

/-- The function with a key. -/
def ofKey? (key : String) : Option Intrinsic :=
  all.find? fun f => f.key = key

/-- The function with a setting name. -/
def ofSettingName? (name : String) : Option Intrinsic :=
  all.find? fun f => f.settingName = name

/-- The least and the greatest number of arguments. -/
def arity : Intrinsic → Nat × Nat
  | .not | .base64 | .getAZs | .importValue | .transform => (1, 1)
  | .sub => (1, 2)
  | .join | .select | .equals | .split => (2, 2)
  | .and | .or => (2, 10)
  | .ifElse | .findInMap | .cidr => (3, 3)

/-- Whether the argument is written without a list around it. `Fn::Not` keeps the list. -/
def isBare : Intrinsic → Bool
  | .base64 | .getAZs | .importValue | .transform => true
  | _ => false

end Intrinsic

end CloudTemplate
