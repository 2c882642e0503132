import CloudTemplate.Json.Reader
import CloudTemplate.Template.Format
import CloudTemplate.Template.Reading
import CloudTemplate.Yaml.Node

/-!
# Template documents

Documents in either format become document trees with sorted maps. In YAML the short tags of
references and intrinsic functions stand for maps with a single key.
-/

namespace CloudTemplate

namespace Source

/-- The key of a short tag. -/
def tagKey? (tag : String) : Option String :=
  if tag = "Ref" then some "Ref"
  else if tag = "Condition" then some "Condition"
  else if tag = "GetAtt" then some "Fn::GetAtt"
  else (Intrinsic.ofShortName? tag).map Intrinsic.key

/-- A tag without exclamation marks in front. -/
def tagName (tag : String) : String :=
  String.ofList (tag.toList.dropWhile (· = '!'))

/-- The text of a mapping key. -/
def keyText (path : String) : Yaml.Node → Except Error String
  | .string text => .ok text
  | .bool value => .ok (if value then "true" else "false")
  | .integer value => .ok (toString value)
  | .float value => .ok (Yaml.Node.numberText value)
  | other => .error (.atPath path (.unsupportedKey other.describe))

mutual

/-- The document tree of a YAML node. -/
def tree (path : String) : Yaml.Node → Except Error Tree
  | .null => .ok .null
  | .bool value => .ok (.bool value)
  | .integer value => .ok (.number (.integer value))
  | .float value =>
    if value.isFinite then .ok (.number (.binary value))
    else .error (.atPath path (.notFinite (Yaml.Node.numberText value)))
  | .string text => .ok (.string text)
  | .sequence nodes => (items path 0 nodes).map .list
  | .mapping nodes => (entries path [] nodes).map .map
  | .tagged tag node =>
    match tree path node with
    | .error e => .error e
    | .ok inner =>
      match tagKey? (tagName tag) with
      | some key => .ok (.map [(key, inner)])
      | none =>
        .error (.unsupportedIntrinsic ("!" ++ tagName tag) (Location.describePath path))

/-- The document trees of the items of a sequence, the first of which has the given index. -/
def items (path : String) (index : Nat) : List Yaml.Node → Except Error (List Tree)
  | [] => .ok []
  | node :: rest =>
    match tree (itemPath path index) node with
    | .error e => .error e
    | .ok item => (items path (index + 1) rest).map (item :: ·)

/-- The sorted entries of a mapping, added to those already found. Keys that have the same text
are faulty. -/
def entries (path : String) (found : Entries Tree) :
    List (Yaml.Node × Yaml.Node) → Except Error (Entries Tree)
  | [] => .ok found
  | (key, node) :: rest =>
    match keyText path key with
    | .error e => .error e
    | .ok name =>
      match tree (childPath path name) node with
      | .error e => .error e
      | .ok item =>
        if Entries.hasName name found then .error (.atPath path (.duplicateKey name))
        else entries path (Entries.insert name item found) rest

end

end Source

namespace Tree

/-- Read a document tree. -/
def ofBytes (format : DocumentFormat) (bytes : List UInt8) : Except Error Tree :=
  match format with
  | .json =>
    (Json.read .refused bytes).mapError fun e =>
      .parse (.atLine e.position.line e.position.column) (.jsonSyntax e) none
  | .yaml =>
    match Yaml.Node.ofBytes? bytes with
    | some node => Source.tree "" node
    | none => .error (.parse (.atPath "") .yamlSyntax none)

end Tree

namespace Template

/-- Read a template document. -/
def ofBytes (format : DocumentFormat) (bytes : List UInt8) : Except Error Template :=
  (Tree.ofBytes format bytes).bind ofTree

end Template

end CloudTemplate
