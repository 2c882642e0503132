import CloudTemplate.Graph.Order
import CloudTemplate.Json.Writer
import CloudTemplate.Template.Format
import CloudTemplate.Template.Writing
import CloudTemplate.Text.Digest
import CloudTemplate.Yaml.Writer

/-!
# Documents

A document is a template that is ready to be written, in JSON or in YAML. Its fingerprint tells
whether two documents are the same.
-/

namespace CloudTemplate

/-- A template that is ready to be written. -/
structure Document where
  tree : Tree
deriving DecidableEq

namespace Document

/-- The ids of the resources, in the order in which they are written. -/
def resourceIds (d : Document) : List String :=
  match d.tree with
  | .map sections =>
    match Entries.lookup "Resources" sections with
    | some (.map resources) => Entries.names resources
    | _ => []
  | _ => []

/-- The document as JSON on several lines. -/
def jsonText (d : Document) : String :=
  Json.pretty d.tree

/-- The document as YAML. -/
def yamlText (d : Document) : String :=
  Yaml.write d.tree

/-- The document in a format. -/
def text (d : Document) : DocumentFormat → String
  | .json => d.jsonText
  | .yaml => d.yamlText

/-- The digest of the document as JSON without blanks. -/
def fingerprint (d : Document) : String :=
  "sha256:" ++ Text.Digest.sha256 (Json.compact d.tree).toUTF8.toList

end Document

/-- The document of a resource set in a given order, which has to list each id once. -/
def ResourceSet.toDocument (resources : ResourceSet) (order : List String) :
    Except Error Document :=
  (ResourceSet.toDocumentTree resources order).map Document.mk

/-- The document of a template, with its resources in an order in which they can be created. -/
def Template.toDocument (t : Template) : Except Error Document := do
  let order ← (← (Blueprint.ofTemplate t).graph).creationOrder
  return ⟨t.toTree order⟩

end CloudTemplate
