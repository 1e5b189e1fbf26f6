import QueryStubs.Stub.Config
import QueryStubs.Stub.Group

/-!
# Writing stubs

`Module.emit` writes a container for each group of functions and in it a stub for each function. Nothing is written unless every
function can be: functions are checked first, in source order, and the first fault of the first function that has one is the
answer. A function is at fault if two of its parameters have the same local name, if a parameter or the result has no type, or if
a type is no atomic type of the table or admits one or more items.
-/

namespace QueryStubs

/-- Why stubs cannot be written. -/
inductive StubFault where
  | unsupportedType (function type : String)
  /-- The type of a parameter is missing, or, if none is named, the type of the result. -/
  | missingType (function : String) (param : Option String)
  | unsupportedOccurrence (function : String) (occurrence : Occurrence)
  | duplicateParameter (function param : String)
  /-- Two groups would be written under one name. -/
  | duplicateContainer (name : String)
  deriving DecidableEq, Repr

/-- The written form of a fault. -/
def StubFault.message : StubFault → String
  | unsupportedType function type => "unsupported type `" ++ type ++ "` in function `" ++ function ++ "`"
  | missingType function (some param) => "parameter `$" ++ param ++ "` of function `" ++ function ++ "` has no type"
  | missingType function none => "function `" ++ function ++ "` has no return type"
  | unsupportedOccurrence function occurrence =>
    "unsupported occurrence `" ++ occurrence.indicator ++ "` in function `" ++ function ++ "`"
  | duplicateParameter function param => "duplicate parameter `$" ++ param ++ "` in function `" ++ function ++ "`"
  | duplicateContainer name => "container `" ++ name ++ "` would be emitted for more than one prefix"

/-- The signature of a function in terms of the types that stubs use. -/
structure Stub where
  name : String
  /-- The name and the type of each parameter, in order. -/
  params : List (String × String)
  returnType : String
  deriving DecidableEq, Repr

namespace Stub

/-! ## From functions to stubs -/

/-- The type that stands for an item type. -/
def mapItem (c : Config) (function : String) (item : ItemType) : Except StubFault String :=
  match item with
  | .atomic name =>
    match c.types.get? name.text with
    | some type => .ok type
    | none => .error (.unsupportedType function name.text)
  | _ => .error (.unsupportedType function item.text)

/-- A type for as many items as an occurrence admits. -/
def wrapOccurrence (c : Config) (function base : String) : Occurrence → Except StubFault String
  | .exactlyOne => .ok base
  | .optional => .ok (c.brackets.wrap "Option" base)
  | .zeroOrMore => .ok (c.brackets.wrap "Option" (c.brackets.wrap "Array" base))
  | .oneOrMore => .error (.unsupportedOccurrence function .oneOrMore)

/-- The type that stands for a sequence type. The item type is looked at before the occurrence. -/
def mapType (c : Config) (function : String) (t : SequenceType) : Except StubFault String := do
  let base ← mapItem c function t.item
  wrapOccurrence c function base t.occurrence

/-- The first parameter of which an earlier one has the local name, given the names seen before. -/
def repeatedParam? (seen : List String) : List Param → Option String
  | [] => none
  | p :: ps => if p.name.localPart ∈ seen then some p.name.localPart else repeatedParam? (p.name.localPart :: seen) ps

/-- The name and the type of a parameter. -/
def mapParam (c : Config) (function : String) (p : Param) : Except StubFault (String × String) :=
  match p.type with
  | none => .error (.missingType function (some p.name.localPart))
  | some t => do return (p.name.localPart, ← mapType c function t)

/-- The type of a result. -/
def mapResult (c : Config) (function : String) : Option SequenceType → Except StubFault String
  | none => .error (.missingType function none)
  | some t => mapType c function t

/-- The stub of a function, or its first fault. -/
def ofFunction (c : Config) (f : FunctionDecl) : Except StubFault Stub :=
  match repeatedParam? [] f.params with
  | some param => .error (.duplicateParameter f.name.text param)
  | none => do
    let params ← f.params.mapM (mapParam c f.name.text)
    let returnType ← mapResult c f.name.text f.returnType
    return { name := Text.camelCase '-' f.name.localPart, params, returnType }

/-! ## The text of stubs -/

/-- A parameter as it is written. -/
def paramText (p : Palette) (param : String × String) : String := param.1 ++ p.dimmed ":" ++ " " ++ p.inGreen param.2

/-- A stub as it is written, without its indentation. -/
def text (c : Config) (s : Stub) : String :=
  let p := c.palette
  p.dimmed "def" ++ " " ++ p.inBlue s.name ++ p.dimmed "(" ++
    String.intercalate (p.dimmed ", ") (s.params.map (paramText p)) ++
    p.dimmed ")" ++ ": " ++ p.inGreen s.returnType ++ " " ++ p.dimmed "=" ++ " " ++ c.placeholder

/-- A stub as a line of its container. -/
def line (c : Config) (s : Stub) : String := c.indent ++ s.text c ++ "\n"

/-- A container with its stubs. -/
def container (c : Config) (name : String) (stubs : List Stub) : String :=
  let p := c.palette
  p.dimmed "object" ++ " " ++ p.inBlue name ++ " " ++ p.dimmed "\x7b" ++ "\n" ++ String.join (stubs.map (line c)) ++
    p.dimmed "\x7d" ++ "\n"

end Stub

/-- The name of the container of a group. -/
def NamespaceGroup.containerName (c : Config) (g : NamespaceGroup) : String :=
  if g.objectName.isEmpty then c.defaultObject else g.objectName

/-- The containers of some groups, given the names that containers before them have. -/
def containersOf (c : Config) (names : List String) : List NamespaceGroup → Except StubFault (List String)
  | [] => .ok []
  | g :: gs =>
    if g.containerName c ∈ names then .error (.duplicateContainer (g.containerName c))
    else do
      let stubs ← g.functions.mapM (Stub.ofFunction c)
      let rest ← containersOf c (g.containerName c :: names) gs
      return Stub.container c (g.containerName c) stubs :: rest

/-- The stubs of a module, with an empty line between containers, or the first fault. -/
def Module.emit (c : Config) (m : Module) : Except StubFault String := do
  let _ ← m.functions.mapM (Stub.ofFunction c)
  let containers ← containersOf c [] (NamespaceGroup.ofFunctions m.functions)
  return String.intercalate "\n" containers

end QueryStubs
