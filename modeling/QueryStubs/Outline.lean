import QueryStubs.Tree.View
import QueryStubs.Tree.Listing

/-!
# Outlines of modules

An outline has a line for the module and one for each of its declarations, with the parameters, the result and the kind of body
of every function. Types are written without blanks and comments. Faults leave gaps in an outline but never prevent it.
-/

namespace QueryStubs.Node

open QueryStubs

/-- The range of a node as a line shows it. -/
def spanText (spans : Bool) (n : Node) : String :=
  ListingOptions.spanText { trivia := false, spans } n.start (Token.sizeOf n.leaves)

/-- The outline of a version declaration. -/
def versionOutline (spans : Bool) (decl : Node) : String :=
  "  Version" ++ decl.spanText spans ++
    (decl.version?.elim "" fun v => " " ++ Text.quoted v.literalValue) ++
    (decl.encoding?.elim "" fun e => " encoding " ++ Text.quoted e.literalValue)

/-- The outline of a module declaration. -/
def namespaceOutline (spans : Bool) (decl : Node) : String :=
  "  Namespace" ++ decl.spanText spans ++ " " ++ decl.boundPrefix?.getD "" ++ " = " ++
    Text.quoted (decl.uri?.elim "" literalValue)

/-- The outline of a parameter. -/
def paramOutline (spans : Bool) (param : Node) : String :=
  "    Param" ++ param.spanText spans ++ " $" ++ param.qname?.elim "" text ++
    ((param.typeDecl?.bind sequenceType?).elim "" fun t => " as " ++ t.compactText)

/-- The outline of the type of a result. -/
def resultOutline (spans : Bool) (type : Node) : String :=
  "    Returns" ++ type.spanText spans ++ " " ++ type.compactText

/-- The outline of the body of a function. -/
def bodyOutline (spans : Bool) (body : Node) : String :=
  (if body.kind = .externalBody then "    External" else "    Body") ++ body.spanText spans

/-- The outline of a function, one line for each of its parts. -/
def functionOutline (spans : Bool) (decl : Node) : List String :=
  ("  Function" ++ decl.spanText spans ++ decl.qname?.elim "" (" " ++ ·.text)) ::
    (decl.params.map (paramOutline spans) ++
      ((decl.typeDecl?.bind sequenceType?).map (resultOutline spans)).toList ++
      (decl.functionBody?.map (bodyOutline spans)).toList)

/-- The outline of a declaration. -/
def declOutline (spans : Bool) (decl : Node) : List String :=
  if decl.kind = .functionDecl then decl.functionOutline spans
  else ["  " ++ decl.kind.label ++ decl.spanText spans]

/-- The lines of the outline of a module. -/
def outline (spans : Bool) (root : Node) : List String :=
  ("Module" ++ root.spanText spans ++ (if root.isLibrary then " library" else " main")) ::
    ((root.versionDecl?.map (versionOutline spans)).toList ++
      (root.moduleDecl?.map (namespaceOutline spans)).toList ++
      root.prolog?.elim [] (fun p => p.decls.flatMap (declOutline spans)) ++
      (root.queryBody?.map fun b => "  QueryBody" ++ b.spanText spans).toList)

end QueryStubs.Node
