import QueryStubs.Module
import QueryStubs.Token.Scan

/-!
# How a module is written

`Module.source` writes a module in the syntax it is read in: one space between words, string literals in double quotation marks with
those inside them doubled, `external` or an empty pair of braces for the body of a function.

Not every value of type `Module` can be written so that it is read back, since names are plain strings. `Module.Writable` says which
can: names are names, a kind test has a list of qualified names in its parentheses, `empty-sequence()` bears no mark, and a version
declaration has something to declare. What a name is spelled like does not matter: it may be the word of a declaration or of a kind test.
-/

namespace QueryStubs

/-! ## What can be written -/

/-- Whether a text is a name without a prefix. -/
def isNCName (s : String) : Bool :=
  match s.toList with
  | [] => false
  | c :: cs => isNameStart c && cs.all isNameChar

/-- A name without a prefix. -/
def IsNCName (s : String) : Prop := isNCName s = true

instance (s : String) : Decidable (IsNCName s) := inferInstanceAs (Decidable (_ = true))

/-- A name has a first character, and none that a name does not have. -/
theorem IsNCName.toList {s : String} (h : IsNCName s) :
    ∃ c cs, s.toList = c :: cs ∧ isNameStart c = true ∧ ∀ x ∈ cs, isNameChar x = true := by
  unfold IsNCName isNCName at h
  cases hs : s.toList with
  | nil =>
    rw [hs] at h
    cases h
  | cons c cs =>
    rw [hs, Bool.and_eq_true, List.all_eq_true] at h
    exact ⟨c, cs, rfl, h⟩

/-- A name whose parts are names. -/
def QName.Writable (n : QName) : Prop := IsNCName n.localPart ∧ ∀ p ∈ n.qualifier, IsNCName p

instance (n : QName) : Decidable n.Writable := inferInstanceAs (Decidable (_ ∧ _))

/-- A kind test as it is written, given the names in its parentheses. -/
def KindTest.source (k : KindTest) (names : List QName) : String :=
  k.keyword ++ "(" ++ String.intercalate "," (names.map QName.text) ++ ")"

/-- An item type that can be written. -/
def ItemType.Writable : ItemType → Prop
  | .atomic name => name.Writable
  | .kindTest test text => ∃ names : List QName, (∀ n ∈ names, n.Writable) ∧ text = test.source names
  | .anyItem => True
  | .emptySequence => True

/-- A sequence type that can be written: the empty sequence bears no mark. -/
def SequenceType.Writable (t : SequenceType) : Prop :=
  t.item.Writable ∧ (t.item = .emptySequence → t.occurrence = .exactlyOne)

/-- A parameter that can be written. -/
def Param.Writable (p : Param) : Prop := p.name.Writable ∧ ∀ t ∈ p.type, t.Writable

/-- A function that can be written. Where it stands in a source does not matter. -/
structure FunctionDecl.Writable (f : FunctionDecl) : Prop where
  name : f.name.Writable
  params : ∀ p ∈ f.params, p.Writable
  returnType : ∀ t ∈ f.returnType, t.Writable

/-- A version declaration that can be written: it declares something. -/
def Version.Writable (v : Version) : Prop := v.version.isSome ∨ v.encoding.isSome

/-- A kind of module that can be written. -/
def ModuleKind.Writable : ModuleKind → Prop
  | .library qualifier _ => IsNCName qualifier
  | .main => True

/-- A module that can be written. -/
structure Module.Writable (m : Module) : Prop where
  version : ∀ v ∈ m.version, v.Writable
  kind : m.kind.Writable
  functions : ∀ f ∈ m.functions, f.Writable

/-! ## How it is written -/

namespace Text

/-- Characters with every quotation mark doubled. -/
def double : List Char → List Char
  | [] => []
  | c :: cs => if c = '\x22' then c :: c :: double cs else c :: double cs

end Text

/-- A text as a string literal. -/
def literalSource (s : String) : String := "\x22" ++ String.ofList (Text.double s.toList) ++ "\x22"

/-- A type declaration, if there is one, with the space in front of it. -/
def typeSource : Option SequenceType → String
  | none => ""
  | some t => " as " ++ t.text

/-- A parameter as it is written. -/
def Param.source (p : Param) : String := "$" ++ p.name.text ++ typeSource p.type

/-- The body of a function as it is written. -/
def FunctionBody.source : FunctionBody → String
  | .enclosed => "\x7b \x7d"
  | .external => "external"

/-- A function as it is written. -/
def FunctionDecl.source (f : FunctionDecl) : String :=
  "declare function " ++ f.name.text ++ "(" ++ String.intercalate ", " (f.params.map Param.source) ++ ")" ++ typeSource f.returnType ++
    " " ++ f.body.source ++ ";"

/-- A word and a literal, if there is a text for it, with spaces in front of both. -/
def clauseSource (word : String) : Option String → String
  | none => ""
  | some s => " " ++ word ++ " " ++ literalSource s

/-- A version declaration as it is written. -/
def Version.source (v : Version) : String :=
  "xquery" ++ clauseSource "version" v.version ++ clauseSource "encoding" v.encoding ++ ";"

/-- The module declaration of a library module as it is written. -/
def ModuleKind.source? : ModuleKind → Option String
  | .library qualifier uri => some ("module namespace " ++ qualifier ++ " = " ++ literalSource uri ++ ";")
  | .main => none

/-- A module as it is written: its declarations in order, with one space between any two. -/
def Module.source (m : Module) : String :=
  String.intercalate " " ((m.version.map Version.source).toList ++ m.kind.source?.toList ++ m.functions.map FunctionDecl.source)

/-- A function without its range. -/
def FunctionDecl.withoutSpan (f : FunctionDecl) : FunctionDecl := { f with span := ⟨0, 0⟩ }

/-- A module without the ranges of its functions. -/
def Module.withoutSpans (m : Module) : Module := { m with functions := m.functions.map FunctionDecl.withoutSpan }

/-- A library module with a function in it, written out. -/
example : Module.source
    { version := some ⟨some "1.0", none⟩
      kind := .library "p" "urn:\x22p\x22"
      functions := [⟨⟨some "p", "as"⟩, [⟨⟨none, "x"⟩, some ⟨.anyItem, .zeroOrMore⟩⟩, ⟨⟨none, "y"⟩, none⟩], none, .external, ⟨0, 0⟩⟩] } =
    "xquery version \x221.0\x22; module namespace p = \x22urn:\x22\x22p\x22\x22\x22; declare function p:as($x as item()*, $y) external;" := by
  decide

end QueryStubs
