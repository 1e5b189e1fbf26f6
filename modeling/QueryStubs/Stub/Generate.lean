import QueryStubs.Module.OfTree
import QueryStubs.Stub.Emit

/-!
# From a source to stubs

A source is read as a module and its stubs are written. The error is the first one of the source if it has any, and else the first
fault of its functions.
-/

namespace QueryStubs

/-- Why there are no stubs of a source. -/
inductive GenerateError where
  | source (error : SyntaxError)
  | stub (fault : StubFault)
  deriving DecidableEq, Repr

/-- The written form of an error. -/
def GenerateError.message : GenerateError → String
  | source error => error.message
  | stub fault => fault.message

/-- The stubs of a source. -/
def generate (c : Config) (source : String) : Except GenerateError String :=
  match Module.parse source with
  | .error e => .error (.source e)
  | .ok m =>
    match m.emit c with
    | .error f => .error (.stub f)
    | .ok text => .ok text

end QueryStubs
