import CloudTemplate.Error

/-!
# Explanations of errors

What is shown of a failure: the error itself, details, and a suggestion. A failure keeps what was
being done when it occurred; the outermost of that goes into the details.
-/

namespace CloudTemplate

/-- What made an undertaking fail. -/
inductive Cause where
  | error (error : Error)
  /-- A file that could not be read or written for the undertaking itself. -/
  | file (fault : FileFault)
  /-- A reason without a kind. -/
  | message (text : String)
deriving DecidableEq

/-- The words for a cause. -/
def Cause.words : Cause → String
  | .error e => e.message
  | .file fault => fault.message
  | .message text => text

/-- A cause, and what was being done, innermost first. -/
structure Failure where
  cause : Cause
  contexts : List String
deriving DecidableEq

/-- An error with details and a suggestion. -/
structure Explanation where
  error : Error
  details : Option String
  suggestion : Option String
deriving DecidableEq

namespace Explanation

/-- The sections that a template may have, in words. -/
def knownSections : String :=
  "Known sections: AWSTemplateFormatVersion, Description, Metadata, Parameters, Rules, " ++
    "Mappings, Conditions, Transform, Resources, Outputs"

/-- What is said about an error by itself. -/
def ofError (e : Error) : Explanation :=
  match e with
  | .parse .. =>
    ⟨e, some knownSections, some "Check the template syntax and section names"⟩
  | .unsupportedIntrinsic tag _ =>
    ⟨e, some ("'" ++ tag ++ "' is not one of the supported intrinsic functions"),
      some "Rewrite the value with a supported intrinsic function"⟩
  | .unresolvedReferences _ =>
    ⟨e, none, some "Declare the missing resources or parameters, or fix the typo"⟩
  | .circularDependency cycles =>
    ⟨e,
      some (toString (cycles.foldl (fun count cycle => count + cycle.length) 0) ++
        " resource(s) depend on each other and cannot be created in order"),
      some ("Break the cycle by removing one reference, or use \x60stackgraph import\x60 " ++
        "for cycle-tolerant ordering")⟩
  | .selfReference .. => ⟨e, none, some "Remove the reference to the resource itself"⟩
  | .duplicateLogicalId .. =>
    ⟨e, none, some "Rename one of the resources so every logical id is unique"⟩
  | .config _ | .toml =>
    ⟨e, none, some "Check the configuration file at ~/.stackgraph/config.toml or --config"⟩
  | _ => ⟨e, none, none⟩

/-- Put a line in front of the details, unless it only repeats the error. The words for a TOML error
leave out the place of the fault, so that no line repeats it. -/
def withOuter (x : Explanation) (outer : String) : Explanation :=
  if x.error.message = outer && x.error ≠ .toml then x
  else
    { x with
      details :=
        some <|
          match x.details with
          | some details => outer ++ "\n" ++ details
          | none => outer }

/-- An explanation as one text. -/
def text (x : Explanation) : String :=
  let part (label : String) (value : Option String) : String :=
    match value with
    | some value => "\n" ++ label ++ ": " ++ value
    | none => ""
  x.error.message ++ part "Details" x.details ++ part "Suggestion" x.suggestion

/-- An explanation as it is shown at the end of a failed command. -/
def lines (x : Explanation) : String :=
  let part (label : String) (value : Option String) : String :=
    match value with
    | some value => label ++ ": " ++ value ++ "\n"
    | none => ""
  part "error" (some x.error.message) ++ part "details" x.details ++
    part "suggestion" x.suggestion

end Explanation

namespace Failure

/-- A failure with no more to say than its error. -/
def ofError (e : Error) : Failure := ⟨.error e, []⟩

/-- Add what was being done. -/
def within (f : Failure) (context : String) : Failure :=
  { f with contexts := f.contexts ++ [context] }

/-- All that is known, outermost first. -/
def chain (f : Failure) : List String :=
  (f.cause.words :: f.contexts).reverse

/-- The outermost message. -/
def outer (f : Failure) : String :=
  f.chain.headD ""

/-- Explain a failure. A failure without a kind is shown by its outermost message, with the rest
as details. -/
def explain (f : Failure) : Explanation :=
  match f.cause with
  | .error e =>
    match f.contexts.getLast? with
    | none => Explanation.ofError e
    | some context => (Explanation.ofError e).withOuter context
  | .file fault =>
    Explanation.withOuter
      ⟨.fileAccess fault, none, some "Check that the file exists and is readable"⟩ f.outer
  | .message _ =>
    match f.chain.tail with
    | [] => ⟨.other f.outer, none, none⟩
    | rest => ⟨.other f.outer, some (": ".intercalate rest), none⟩

end Failure

end CloudTemplate
