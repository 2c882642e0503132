import CloudTemplate.Yaml.Token.Lexer

/-!
# Events of YAML texts

The structure of a text as a flat list: scalars, aliases, and the starts and ends of documents and
collections. A reader of tokens is a stack machine; each step takes tokens and gives one event.
-/

namespace CloudTemplate
namespace Yaml

/-- What a node carries beside its content. -/
structure Properties where
  anchor : Option String
  tag : Option Tag
deriving DecidableEq, Repr, Inhabited

/-- An event of a YAML text. -/
inductive Event where
  | documentStart
  | documentEnd
  | alias (name : String)
  | scalar (properties : Properties) (text : String) (plain : Bool)
  | sequenceStart (properties : Properties)
  | sequenceEnd
  | mappingStart (properties : Properties)
  | mappingEnd
deriving DecidableEq, Repr, Inhabited

/-- What is expected next. -/
inductive Expectation where
  | documentStart (implicit : Bool)
  | documentContent
  | documentEnd
  | blockNode
  | blockSequenceEntry (first : Bool)
  | indentlessEntry
  | blockMappingKey (first : Bool)
  | blockMappingValue
  | flowSequenceEntry (first : Bool)
  | flowPairKey
  | flowPairValue
  | flowPairEnd
  | flowMappingKey (first : Bool)
  | flowMappingValue (empty : Bool)
  | nothing
deriving DecidableEq, Repr

/-- The state of reading events. -/
structure Grammar where
  tokens : List Token
  expected : Expectation
  /-- What is expected after the nodes that are still open. -/
  later : List Expectation
  /-- The tag prefixes of the document. -/
  prefixes : List (String × List UInt8)

namespace Grammar

/-- The next token. -/
def peek (g : Grammar) : Token :=
  g.tokens.headD .streamEnd

/-- Move past the next token. -/
def advance (g : Grammar) : Grammar :=
  { g with tokens := g.tokens.tail }

/-- Expect something next. -/
def expect (g : Grammar) (expected : Expectation) : Grammar :=
  { g with expected := expected }

/-- Expect something after the next node. -/
def push (g : Grammar) (expected : Expectation) : Grammar :=
  { g with later := expected :: g.later }

/-- Go on with what was expected after this node. -/
def pop (g : Grammar) : Grammar :=
  match g.later with
  | expected :: later => { g with expected := expected, later := later }
  | [] => g.expect .nothing

/-- The event of a node without content. -/
def emptyScalar : Event :=
  .scalar ⟨none, none⟩ "" true

/-- The prefixes that hold in every document. -/
def standardPrefixes : List (String × List UInt8) :=
  [("!", Tag.bare), ("!!", Tag.standardStart.toUTF8.toList)]

/-- Read the directives before a document: one version at most, which is 1.1 or 1.2, and one
prefix for each handle. -/
def directives? (hasVersion : Bool) (g : Grammar) : Nat → Option Grammar
  | 0 => none
  | fuel + 1 =>
    match g.peek with
    | .version major minor =>
      if hasVersion || major ≠ 1 || (minor ≠ 1 && minor ≠ 2) then none
      else g.advance.directives? true fuel
    | .tagPrefix handle start =>
      if g.prefixes.any fun p => p.1 = handle then none
      else { g.advance with prefixes := g.prefixes ++ [(handle, start)] }.directives? hasVersion fuel
    | _ => some { g with prefixes := g.prefixes ++ standardPrefixes }

/-- The tag of a handle and a suffix. -/
def resolveTag? (g : Grammar) (handle : String) (suffix : List UInt8) : Option Tag :=
  if handle.isEmpty then some (.ofBytes suffix)
  else (g.prefixes.find? fun p => p.1 = handle).map fun p => .ofBytes (p.2 ++ suffix)

/-- Read an anchor and a tag, in either order. -/
def properties? (g : Grammar) : Option (Properties × Grammar) :=
  match g.peek with
  | .anchor name =>
    let g := g.advance
    match g.peek with
    | .tag handle suffix =>
      (g.resolveTag? handle suffix).map fun tag => (⟨some name, some tag⟩, g.advance)
    | _ => some (⟨some name, none⟩, g)
  | .tag handle suffix =>
    (g.resolveTag? handle suffix).map fun tag =>
      let g := g.advance
      match g.peek with
      | .anchor name => (⟨some name, some tag⟩, g.advance)
      | _ => (⟨none, some tag⟩, g)
  | _ => some (⟨none, none⟩, g)

/-- Read the start of a node. A node with properties may lack a content. -/
def node? (block indentless : Bool) (g : Grammar) : Option (Event × Grammar) :=
  match g.peek with
  | .alias name => some (.alias name, g.advance.pop)
  | _ => do
    let (properties, g) ← g.properties?
    match g.peek with
    | .blockEntry =>
      if indentless then return (.sequenceStart properties, g.expect .indentlessEntry)
      else missing properties g
    | .scalar text plain => return (.scalar properties text plain, g.advance.pop)
    | .flowSequence => return (.sequenceStart properties, g.expect (.flowSequenceEntry true))
    | .flowMapping => return (.mappingStart properties, g.expect (.flowMappingKey true))
    | .blockSequence =>
      if block then return (.sequenceStart properties, g.expect (.blockSequenceEntry true))
      else missing properties g
    | .blockMapping =>
      if block then return (.mappingStart properties, g.expect (.blockMappingKey true))
      else missing properties g
    | _ => missing properties g
where
  /-- A node without content. -/
  missing (properties : Properties) (g : Grammar) : Option (Event × Grammar) :=
    if properties.anchor.isSome || properties.tag.isSome then
      some (.scalar properties "" true, g.pop)
    else none

/-- A node without content, before something else. -/
def skipNode (expected : Expectation) (g : Grammar) : Option (Event × Grammar) :=
  some (emptyScalar, g.expect expected)

/-- Whether a token ends the content of a block mapping entry. -/
def endsBlockEntry : Token → Bool
  | .key | .value | .blockEnd => true
  | _ => false

/-- Whether a token starts or ends a document. -/
def endsDocument : Token → Bool
  | .version _ _ | .tagPrefix _ _ | .documentStart | .documentEnd | .streamEnd => true
  | _ => false

/-- Read the start of a document; nothing is left at the end of the text. -/
def document? (implicit : Bool) (g : Grammar) : Option (Option Event × Grammar) :=
  let g := if implicit then g else
    { g with tokens := g.tokens.dropWhile fun token => token = .documentEnd }
  if implicit && !endsDocument g.peek || (implicit && g.peek = .documentEnd) then do
    let g ← g.directives? false (g.tokens.length + 1)
    return (some .documentStart, (g.push .documentEnd).expect .blockNode)
  else if g.peek = .streamEnd then some (none, g.expect .nothing)
  else do
    let g ← g.directives? false (g.tokens.length + 1)
    if g.peek = .documentStart then
      return (some .documentStart, (g.advance.push .documentEnd).expect .documentContent)
    else none

/-- Read the next entry of a flow sequence. -/
def flowSequenceEntry? (first : Bool) (g : Grammar) : Option (Event × Grammar) :=
  let g := if first then g.advance else g
  if g.peek = .flowSequenceEnd then some (.sequenceEnd, g.advance.pop)
  else if !first && g.peek ≠ .flowEntry then none
  else
    let g := if first then g else g.advance
    match g.peek with
    | .key => some (.mappingStart ⟨none, none⟩, g.advance.expect .flowPairKey)
    | .flowSequenceEnd => some (.sequenceEnd, g.advance.pop)
    | _ => (g.push (.flowSequenceEntry false)).node? false false

/-- Read the next key of a flow mapping. -/
def flowMappingKey? (first : Bool) (g : Grammar) : Option (Event × Grammar) :=
  let g := if first then g.advance else g
  if g.peek = .flowMappingEnd then some (.mappingEnd, g.advance.pop)
  else if !first && g.peek ≠ .flowEntry then none
  else
    let g := if first then g else g.advance
    match g.peek with
    | .key =>
      let g := g.advance
      match g.peek with
      | .value | .flowEntry | .flowMappingEnd => g.skipNode (.flowMappingValue false)
      | _ => (g.push (.flowMappingValue false)).node? false false
    | .flowMappingEnd => some (.mappingEnd, g.advance.pop)
    | _ => (g.push (.flowMappingValue true)).node? false false

/-- Read the next event, other than the start of a document. -/
def event? (g : Grammar) : Option (Event × Grammar) :=
  match g.expected with
  | .documentStart _ | .nothing => none
  | .documentContent =>
    if endsDocument g.peek then some (emptyScalar, g.pop) else g.node? true false
  | .documentEnd =>
    let g := if g.peek = .documentEnd then g.advance else g
    some (.documentEnd, { g with prefixes := [] }.expect (.documentStart false))
  | .blockNode => g.node? true false
  | .blockSequenceEntry first =>
    let g := if first then g.advance else g
    match g.peek with
    | .blockEntry =>
      let g := g.advance
      match g.peek with
      | .blockEntry | .blockEnd => g.skipNode (.blockSequenceEntry false)
      | _ => (g.push (.blockSequenceEntry false)).node? true false
    | .blockEnd => some (.sequenceEnd, g.advance.pop)
    | _ => none
  | .indentlessEntry =>
    match g.peek with
    | .blockEntry =>
      let g := g.advance
      match g.peek with
      | .blockEntry | .key | .value | .blockEnd => g.skipNode .indentlessEntry
      | _ => (g.push .indentlessEntry).node? true false
    | _ => some (.sequenceEnd, g.pop)
  | .blockMappingKey first =>
    let g := if first then g.advance else g
    match g.peek with
    | .key =>
      let g := g.advance
      if endsBlockEntry g.peek then g.skipNode .blockMappingValue
      else (g.push .blockMappingValue).node? true true
    | .blockEnd => some (.mappingEnd, g.advance.pop)
    | _ => none
  | .blockMappingValue =>
    match g.peek with
    | .value =>
      let g := g.advance
      if endsBlockEntry g.peek then g.skipNode (.blockMappingKey false)
      else (g.push (.blockMappingKey false)).node? true true
    | _ => g.skipNode (.blockMappingKey false)
  | .flowSequenceEntry first => g.flowSequenceEntry? first
  | .flowPairKey =>
    match g.peek with
    | .value | .flowEntry | .flowSequenceEnd => g.advance.skipNode .flowPairValue
    | _ => (g.push .flowPairValue).node? false false
  | .flowPairValue =>
    match g.peek with
    | .value =>
      let g := g.advance
      match g.peek with
      | .flowEntry | .flowSequenceEnd => g.skipNode .flowPairEnd
      | _ => (g.push .flowPairEnd).node? false false
    | _ => g.skipNode .flowPairEnd
  | .flowPairEnd => some (.mappingEnd, g.expect (.flowSequenceEntry false))
  | .flowMappingKey first => g.flowMappingKey? first
  | .flowMappingValue empty =>
    if empty then g.skipNode (.flowMappingKey false)
    else
      match g.peek with
      | .value =>
        let g := g.advance
        match g.peek with
        | .flowEntry | .flowMappingEnd => g.skipNode (.flowMappingKey false)
        | _ => (g.push (.flowMappingKey false)).node? false false
      | _ => g.skipNode (.flowMappingKey false)

/-- Read events to the end of the text. -/
def run? (seen : Array Event) (g : Grammar) : Nat → Option (Array Event)
  | 0 => none
  | fuel + 1 =>
    match g.expected with
    | .documentStart implicit =>
      match g.document? implicit with
      | none => none
      | some (none, _) => some seen
      | some (some event, g) => g.run? (seen.push event) fuel
    | _ =>
      match g.event? with
      | none => none
      | some (event, g) => g.run? (seen.push event) fuel

end Grammar

/-- The events of a list of tokens, or nothing if the tokens have no structure. -/
def Event.ofTokens? (tokens : Array Token) : Option (Array Event) :=
  Grammar.run? #[] ⟨tokens.toList, .documentStart true, [], []⟩ (4 * tokens.size + 8)

end Yaml
end CloudTemplate
