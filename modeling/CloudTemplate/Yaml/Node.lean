import CloudTemplate.Text.Quoted
import CloudTemplate.Yaml.Event
import CloudTemplate.Yaml.Scalar

/-!
# YAML documents

A document as a tree: aliases are expanded and scalars have their meaning. Collections nest at
most 128 deep, no mapping has a key twice, and aliases are followed at most a hundred times for
each event of the document.
-/

namespace CloudTemplate
namespace Yaml

/-- A node of a document. -/
inductive Node where
  | null
  | bool (value : Bool)
  | integer (value : Int)
  | float (value : Float)
  | string (text : String)
  | sequence (items : List Node)
  | mapping (entries : List (Node × Node))
  /-- A node with a local tag, given without its exclamation mark. -/
  | tagged (tag : String) (node : Node)
deriving Inhabited

namespace Node

mutual

/-- Whether two keys are the same; mappings may list their entries in any order. -/
def same : Node → Node → Bool
  | .null, .null => true
  | .bool a, .bool b => a == b
  | .integer a, .integer b => a == b
  | .float a, .float b => a == b || (a.isNaN && b.isNaN)
  | .string a, .string b => a == b
  | .sequence a, .sequence b => sameItems a b
  | .mapping a, .mapping b => a.length == b.length && allIn a b
  | .tagged s a, .tagged t b => s == t && same a b
  | _, _ => false

/-- Whether two lists are the same. -/
def sameItems : List Node → List Node → Bool
  | [], [] => true
  | a :: as, b :: bs => same a b && sameItems as bs
  | _, _ => false

/-- Whether the second list has all entries of the first. -/
def allIn : List (Node × Node) → List (Node × Node) → Bool
  | [], _ => true
  | (key, value) :: rest, entries =>
    entries.any (fun entry => same key entry.1 && same value entry.2) && allIn rest entries

end

/-- The text of a number. -/
def numberText (value : Float) : String :=
  if value.isNaN then ".nan"
  else if value.isInf then (if value < 0 then "-.inf" else ".inf")
  else (Number.binary value).yamlText

mutual

/-- A node as named in messages. -/
def describe : Node → String
  | .null => "Null"
  | .bool value => "Bool(" ++ (if value then "true" else "false") ++ ")"
  | .integer value => "Number(" ++ toString value ++ ")"
  | .float value => "Number(" ++ numberText value ++ ")"
  | .string text => "String(" ++ Text.quoted text ++ ")"
  | .sequence items => "Sequence [" ++ ", ".intercalate (describeItems items) ++ "]"
  | .mapping entries =>
    "Mapping \x7b" ++ ", ".intercalate (describeEntries entries) ++ "\x7d"
  | .tagged tag node => "TaggedValue \x7b tag: !" ++ tag ++ ", value: " ++ describe node ++ " \x7d"

/-- The items of a sequence as named in messages. -/
def describeItems : List Node → List String
  | [] => []
  | item :: rest => describe item :: describeItems rest

/-- The entries of a mapping as named in messages; the kind of simple keys is left out. -/
def describeEntries : List (Node × Node) → List String
  | [] => []
  | (.bool key, value) :: rest =>
    ((if key then "true" else "false") ++ ": " ++ describe value) :: describeEntries rest
  | (.integer key, value) :: rest =>
    (toString key ++ ": " ++ describe value) :: describeEntries rest
  | (.float key, value) :: rest =>
    (numberText key ++ ": " ++ describe value) :: describeEntries rest
  | (.string key, value) :: rest =>
    (Text.quoted key ++ ": " ++ describe value) :: describeEntries rest
  | (key, value) :: rest => (describe key ++ ": " ++ describe value) :: describeEntries rest

end

/-- The node with the meaning of a scalar. -/
def ofScalar? : Scalar → Option Node
  | .null => some .null
  | .bool value => some (.bool value)
  | .integer value => some (.integer value)
  | .float value => some (.float value)
  | .string text => some (.string text)
  | .tooLarge => none

/-- A scalar with its properties. Below a local tag it has the meaning that it has without one. -/
def scalar? (properties : Properties) (text : String) (plain : Bool) : Option Node :=
  let untagged := if plain then Scalar.ofPlain text else .string text
  match properties.tag with
  | none => ofScalar? untagged
  | some (.named tag) => (ofScalar? untagged).map (.tagged tag)
  | some .unnamed => ofScalar? untagged
  | some (.standard kind) => (Scalar.ofKind? kind text).bind ofScalar?
  | some .foreign => some (.string text)

/-- A collection with its properties. -/
def withTag (properties : Properties) (node : Node) : Node :=
  match properties.tag with
  | some (.named tag) => .tagged tag node
  | _ => node

end Node

/-- An event of a single document, in which aliases are numbered. -/
inductive Step where
  | alias (number : Nat)
  | scalar (properties : Properties) (text : String) (plain : Bool)
  | sequenceStart (properties : Properties)
  | sequenceEnd
  | mappingStart (properties : Properties)
  | mappingEnd
deriving Inhabited

/-- A single document: its events and where each numbered anchor stands. -/
structure Document where
  steps : Array Step
  /-- The number of each anchor name. -/
  names : List (String × Nat)
  /-- The place of each number, the latest first. -/
  places : List (Nat × Nat)

namespace Document

/-- A document without events. -/
def empty : Document := ⟨#[], [], []⟩

/-- Give the number of an anchor to the next event. A number is the count of names so far, so a
name that is used again may share its number with the next new name. -/
def anchored (d : Document) (anchor : Option String) : Document :=
  match anchor with
  | none => d
  | some name =>
    let number := d.names.length
    { d with
      names := (name, number) :: d.names.filter fun entry => entry.1 ≠ name
      places := (number, d.steps.size) :: d.places }

/-- Add an event; an alias has to name an anchor. -/
def add? (d : Document) : Event → Option Document
  | .alias name =>
    (d.names.lookup name).map fun number => { d with steps := d.steps.push (.alias number) }
  | .scalar p text plain =>
    let d := d.anchored p.anchor
    some { d with steps := d.steps.push (.scalar p text plain) }
  | .sequenceStart p =>
    let d := d.anchored p.anchor
    some { d with steps := d.steps.push (.sequenceStart p) }
  | .mappingStart p =>
    let d := d.anchored p.anchor
    some { d with steps := d.steps.push (.mappingStart p) }
  | .sequenceEnd => some { d with steps := d.steps.push .sequenceEnd }
  | .mappingEnd => some { d with steps := d.steps.push .mappingEnd }
  | .documentStart | .documentEnd => some d

/-- The document of the events of a text, which must not hold a second one. -/
def ofEvents? (events : Array Event) : Option Document :=
  if 1 < events.toList.countP (· = .documentStart) then none
  else events.toList.foldlM add? empty

/-- Places in a document and the number of aliases followed so far. -/
abbrev Reading (α : Type) := Nat → Nat → Option (α × Nat × Nat)

/-- Read the items of a sequence, up to its end. -/
def items? (d : Document) (node? : Reading Node) : Nat → Reading (List Node)
  | 0, _, _ => none
  | fuel + 1, place, jumps =>
    match d.steps[place]? with
    | some .sequenceEnd => some ([], place + 1, jumps)
    | _ =>
      match node? place jumps with
      | none => none
      | some (item, place, jumps) =>
        match items? d node? fuel place jumps with
        | none => none
        | some (rest, place, jumps) => some (item :: rest, place, jumps)

/-- Read the entries of a mapping behind those already seen, up to its end. -/
def entries? (d : Document) (node? : Reading Node) (seen : List (Node × Node)) :
    Nat → Reading (List (Node × Node))
  | 0, _, _ => none
  | fuel + 1, place, jumps =>
    match d.steps[place]? with
    | some .mappingEnd => some (seen.reverse, place + 1, jumps)
    | _ =>
      match node? place jumps with
      | none => none
      | some (key, place, jumps) =>
        if seen.any fun entry => entry.1.same key then none
        else
          match node? place jumps with
          | none => none
          | some (value, place, jumps) =>
            entries? d node? ((key, value) :: seen) fuel place jumps

/-- Where the content of a node stands: an alias is followed to its anchor. -/
def content? (d : Document) (place jumps : Nat) : Option (Nat × Nat) :=
  match d.steps[place]? with
  | some (.alias number) =>
    if d.steps.size * 100 ≤ jumps then none
    else (d.places.lookup number).map fun target => (target, jumps + 1)
  | _ => some (place, jumps)

/-- Read the node at a place, with at most `depth` levels of collections. -/
def node? (d : Document) (depth : Nat) : Reading Node := fun place jumps =>
  match d.content? place jumps with
  | none => none
  | some (target, jumps) =>
    let behind (found : Nat) : Nat := if target = place then found else place + 1
    match depth, d.steps[target]? with
    | _, some (.scalar p text plain) =>
      (Node.scalar? p text plain).map fun node => (node, behind (target + 1), jumps)
    | depth + 1, some (.sequenceStart p) =>
      (d.items? (node? d depth) (d.steps.size + 1) (target + 1) jumps).map
        fun (items, found, jumps) => (Node.withTag p (.sequence items), behind found, jumps)
    | depth + 1, some (.mappingStart p) =>
      (d.entries? (node? d depth) [] (d.steps.size + 1) (target + 1) jumps).map
        fun (entries, found, jumps) => (Node.withTag p (.mapping entries), behind found, jumps)
    | _, _ => none

/-- The greatest depth of collections. -/
def depthLimit : Nat := 128

/-- The node that a document holds; an empty text holds null. -/
def root? (d : Document) : Option Node :=
  if d.steps.isEmpty then some .null
  else (d.node? depthLimit 0 0).map Prod.fst

end Document

/-- Read the document in a text. -/
def Node.ofText? (text : String) : Option Node := do
  let tokens ← Token.ofText? text
  let events ← Event.ofTokens? tokens
  let document ← Document.ofEvents? events
  document.root?

/-- Read the document in a sequence of bytes. -/
def Node.ofBytes? (bytes : List UInt8) : Option Node := do
  let text ← String.fromUTF8? ⟨bytes.toArray⟩
  Node.ofText? text

end Yaml
end CloudTemplate
