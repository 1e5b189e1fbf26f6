import QueryStubs.Text.Span

/-!
# Diagnostics: what a report says

A diagnostic names a kind of fault, the range it is shown at, an optional detail that the wording of its kind takes up, and
places that explain it. Kinds are ordered by priority: a kind outranks those that come after it in `DiagnosticKind.all`, and only
a report that outranks another can hide it. Kinds that say a bracket was never closed are *structural*; those that say something
required is missing are *root causes*.
-/

namespace QueryStubs

/-- How grave a report is. -/
inductive Severity where
  | error | warning
  deriving DecidableEq, Repr

/-- The word for a severity. -/
def Severity.label : Severity → String
  | .error => "error"
  | .warning => "warning"

/-- The kinds of report, from the highest priority to the lowest. -/
inductive DiagnosticKind where
  | unclosedBody | unclosedParamList | unclosedParens
  | expectedName | expectedVariable | expectedStringLiteral | expectedSequenceType | expectedFunctionBody | expectedKeyword
  | expectedVarValue | expectedToken
  | unknownDeclaration | unknownKindTest | misplacedDeclaration | unmatchedDelimiter | libraryModuleBody
  | functionOutsideModuleNamespace
  deriving DecidableEq, Repr

namespace DiagnosticKind

/-- All kinds, from the highest priority to the lowest. -/
def all : List DiagnosticKind :=
  [unclosedBody, unclosedParamList, unclosedParens, expectedName, expectedVariable, expectedStringLiteral,
    expectedSequenceType, expectedFunctionBody, expectedKeyword, expectedVarValue, expectedToken, unknownDeclaration,
    unknownKindTest, misplacedDeclaration, unmatchedDelimiter, libraryModuleBody, functionOutsideModuleNamespace]

/-- The place of a kind in the order of priority; 0 is the highest. -/
def rank : DiagnosticKind → Nat
  | unclosedBody => 0
  | unclosedParamList => 1
  | unclosedParens => 2
  | expectedName => 3
  | expectedVariable => 4
  | expectedStringLiteral => 5
  | expectedSequenceType => 6
  | expectedFunctionBody => 7
  | expectedKeyword => 8
  | expectedVarValue => 9
  | expectedToken => 10
  | unknownDeclaration => 11
  | unknownKindTest => 12
  | misplacedDeclaration => 13
  | unmatchedDelimiter => 14
  | libraryModuleBody => 15
  | functionOutsideModuleNamespace => 16

/-- The name a kind is listed under. -/
def label : DiagnosticKind → String
  | unclosedBody => "UnclosedBody"
  | unclosedParamList => "UnclosedParamList"
  | unclosedParens => "UnclosedParens"
  | expectedName => "ExpectedName"
  | expectedVariable => "ExpectedVariable"
  | expectedStringLiteral => "ExpectedStringLiteral"
  | expectedSequenceType => "ExpectedSequenceType"
  | expectedFunctionBody => "ExpectedFunctionBody"
  | expectedKeyword => "ExpectedKeyword"
  | expectedVarValue => "ExpectedVarValue"
  | expectedToken => "ExpectedToken"
  | unknownDeclaration => "UnknownDeclaration"
  | unknownKindTest => "UnknownKindTest"
  | misplacedDeclaration => "MisplacedDeclaration"
  | unmatchedDelimiter => "UnmatchedDelimiter"
  | libraryModuleBody => "LibraryModuleBody"
  | functionOutsideModuleNamespace => "FunctionOutsideModuleNamespace"

/-- The kind listed under a name. -/
def ofLabel? (name : String) : Option DiagnosticKind := all.find? (·.label = name)

/-- Only a function outside the module's namespace is a warning. -/
def severity : DiagnosticKind → Severity
  | functionOutsideModuleNamespace => .warning
  | _ => .error

/-- A kind outranks those of lower priority. -/
def Outranks (a b : DiagnosticKind) : Prop := a.rank < b.rank

instance (a b : DiagnosticKind) : Decidable (a.Outranks b) := inferInstanceAs (Decidable (a.rank < b.rank))

/-- The kinds that say a bracket was never closed. -/
def isStructural : DiagnosticKind → Bool
  | unclosedBody | unclosedParamList | unclosedParens => true
  | _ => false

/-- The kinds that say something required is missing. -/
def isRootCause : DiagnosticKind → Bool
  | expectedName | expectedVariable | expectedStringLiteral | expectedSequenceType | expectedFunctionBody | expectedKeyword
  | expectedVarValue | expectedToken => true
  | _ => false

/-- What a kind says when no detail is given. -/
def fallback : DiagnosticKind → String
  | unclosedBody => "missing closing `\x7d`"
  | unclosedParamList => "missing closing `)` for parameter list"
  | unclosedParens => "missing closing `)`"
  | expectedName => "expected a name"
  | expectedVariable => "expected a variable"
  | expectedStringLiteral => "expected a string literal"
  | expectedSequenceType => "expected a sequence type"
  | expectedFunctionBody => "expected function body or `external`"
  | expectedKeyword => "expected keyword"
  | expectedVarValue => "expected `:=` or `external`"
  | expectedToken => "expected token"
  | unknownDeclaration => "unknown declaration"
  | unknownKindTest => "unknown kind test"
  | misplacedDeclaration =>
    "namespace, import and setter declarations must precede function, variable and option declarations"
  | unmatchedDelimiter => "unmatched closing delimiter"
  | libraryModuleBody => "library module cannot have a query body"
  | functionOutsideModuleNamespace => "function is not in the module's target namespace"

/-- The words that a kind puts before and after a detail. -/
def frame (k : DiagnosticKind) : String × String :=
  match k with
  | unclosedBody | unclosedParamList | unclosedParens => (k.fallback ++ "; ", "")
  | expectedName | expectedVariable | expectedStringLiteral | expectedSequenceType | expectedKeyword | expectedToken =>
    ("expected ", "")
  | unknownDeclaration => ("unknown declaration `", "`")
  | unknownKindTest => ("`", "()` is not a kind test")
  | functionOutsideModuleNamespace => ("function prefix `", "` differs from the module prefix")
  | _ => (k.fallback ++ ": ", "")

/-- What a kind says of a detail, with a pair of braces where the detail goes. -/
def template (k : DiagnosticKind) : String := k.frame.1 ++ "\x7b\x7d" ++ k.frame.2

/-- What a kind says, of a detail if there is one. -/
def message (k : DiagnosticKind) : Option String → String
  | none => k.fallback
  | some detail => k.frame.1 ++ detail ++ k.frame.2

/-- The list holds every kind. -/
theorem mem_all (k : DiagnosticKind) : k ∈ all := by cases k <;> decide

/-- A kind is the one its name is listed for. -/
theorem ofLabel?_label (k : DiagnosticKind) : ofLabel? k.label = some k := by cases k <;> decide

/-- Kinds of the same priority are the same. -/
theorem rank_injective {a b : DiagnosticKind} (h : a.rank = b.rank) : a = b := by cases a <;> cases b <;> first | rfl | cases h

/-- No kind is both structural and a root cause. -/
theorem isRootCause_of_isStructural {k : DiagnosticKind} (h : k.isStructural = true) : k.isRootCause = false := by
  cases k <;> first | rfl | cases h

end DiagnosticKind

/-- A place that explains a report, and what there is to say of it. -/
structure Related where
  message : String
  span : Span
  deriving DecidableEq, Repr

/-- The written form of a related place, as it follows the report it explains. -/
def Related.text (r : Related) : String := " (related: " ++ r.message ++ " at " ++ r.span.text ++ ")"

/-- A report: a kind of fault, where it is shown, a detail, and the places that explain it. -/
structure Diagnostic where
  kind : DiagnosticKind
  span : Span
  detail : Option String := none
  related : List Related := []
  deriving DecidableEq, Repr

namespace Diagnostic

/-- What the report says. -/
def message (d : Diagnostic) : String := d.kind.message d.detail

/-- How grave the report is. -/
def severity (d : Diagnostic) : Severity := d.kind.severity

/-- Whether the report is an error. -/
def isError (d : Diagnostic) : Bool := d.severity = .error

/-- Whether the report is a warning. -/
def isWarning (d : Diagnostic) : Bool := d.severity = .warning

/-- The written form of a report, related places included. -/
def text (d : Diagnostic) : String :=
  d.severity.label ++ " at " ++ d.span.text ++ ": " ++ d.message ++ String.join (d.related.map Related.text)

end Diagnostic

end QueryStubs
