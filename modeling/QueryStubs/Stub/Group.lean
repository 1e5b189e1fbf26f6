import QueryStubs.Module
import QueryStubs.Text.Camel

/-!
# Functions by prefix

The functions of a module are grouped by the prefixes of their names; a function without a prefix and one with an empty prefix
are in one group. Groups come in the order in which their prefixes are first seen, and functions keep their order in a group.
-/

namespace QueryStubs

/-- The functions with one prefix, in source order. -/
structure NamespaceGroup where
  /-- The prefix, empty for functions without one. -/
  qualifier : String
  functions : List FunctionDecl
  deriving DecidableEq, Repr

namespace NamespaceGroup

/-- The name a group is written under: its prefix with a capital. It is empty if the prefix is. -/
def objectName (g : NamespaceGroup) : String := Text.titleCase g.qualifier

/-- The groups after one more function. -/
def add (f : FunctionDecl) : List NamespaceGroup → List NamespaceGroup
  | [] => [⟨f.name.qualifierText, [f]⟩]
  | g :: gs =>
    if g.qualifier = f.name.qualifierText then { g with functions := g.functions ++ [f] } :: gs else g :: add f gs

/-- The groups of some functions. -/
def ofFunctions (fs : List FunctionDecl) : List NamespaceGroup := fs.foldl (fun gs f => add f gs) []

end NamespaceGroup

end QueryStubs
