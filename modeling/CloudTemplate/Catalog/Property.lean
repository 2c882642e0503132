import CloudTemplate.NameTable
import CloudTemplate.Text.Distance

/-!
# Property names of resource types

A catalog lists the property names that resource types accept. A property that its type does not
accept is reported together with the closest accepted name, if one is close enough.
-/

namespace CloudTemplate

/-- A property that is not accepted by the type of its resource. -/
structure UnknownProperty where
  logicalId : String
  typeName : String
  property : String
  suggestion : Option String
deriving DecidableEq, Repr

namespace UnknownProperty

/-- An unknown property in words. -/
def describe (p : UnknownProperty) : String :=
  p.logicalId ++ " (" ++ p.typeName ++ ") has unknown property '" ++ p.property ++ "'" ++
    match p.suggestion with
    | some name => " (did you mean '" ++ name ++ "'?)"
    | none => ""

end UnknownProperty

/-- The accepted name at the least distance, the first in ascending order among equals, unless it
is further away than half the size of the property, rounded up. The size counts bytes. -/
def closestName? (property : String) (accepted : NameSet) : Option String :=
  let limit := (property.utf8ByteSize + 1) / 2
  let best := accepted.names.foldl
    (fun best name =>
      let distance := Text.distance property name
      if limit < distance then best
      else
        match best with
        | some (least, _) => if distance < least then some (distance, name) else best
        | none => some (distance, name))
    none
  best.map Prod.snd

end CloudTemplate
