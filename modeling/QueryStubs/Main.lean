import QueryStubs.Command.Run

/-!
# The program

Reads the files that a command line names and standard input, runs the command line on them, and does what the run came to. Nothing
is decided here.
-/

namespace QueryStubs.Program

open QueryStubs.Command

/-- The fault that an error of the system stands for. That a folder stands where a file is needed has the code 21, which may
come negated. -/
def faultOf : IO.Error → FileFault
  | .noFileOrDirectory .. => .notFound
  | .permissionDenied .. => .notPermitted
  | .inappropriateType _ code _ => if code = 21 ∨ code = -21 then .isFolder else .notFolder
  | error => .other (toString error)

/-- A text, unless some bytes are none. -/
def textOf (bytes : ByteArray) : Except FileFault String :=
  match String.fromUTF8? bytes with
  | some text => .ok text
  | none => .error .notText

/-- The text of the file at a path. -/
def readFile (path : String) : IO (Except FileFault String) := do
  try return textOf (← IO.FS.readBinFile path)
  catch error => return .error (faultOf error)

/-- The bytes that are left in a stream, behind those that were read before. -/
partial def readAll (stream : IO.FS.Stream) (bytes : ByteArray) : IO ByteArray := do
  let more ← stream.read 65536
  if more.isEmpty then return bytes else readAll stream (bytes ++ more)

/-- The text of standard input. -/
def readInput : IO (Except FileFault String) := do
  try return textOf (← readAll (← IO.getStdin) ByteArray.empty)
  catch error => return .error (faultOf error)

/-- What a command line can read, of which only what its request names is looked at. -/
def surroundings (args : List String) : IO Surroundings := do
  let onTerminal := (← (← IO.getStdout).isTty) && (← (← IO.getStderr).isTty)
  match Request.parse args with
  | .error _ => return { read := fun _ => .error .notFound, onTerminal }
  | .ok r =>
    let texts ← r.paths.mapM fun path => return (path, ← readFile path)
    let standardInput ← if r.readsInput then readInput else pure (.ok "")
    return { read := fun path => (texts.lookup path).getD (.error .notFound), standardInput, onTerminal }

/-- Does what a run came to and gives its exit status. -/
def carryOut (p : Plan) : IO UInt32 := do
  IO.eprint p.stderr
  IO.print p.stdout
  match p.ending with
  | .exit status => return status.toUInt32
  | .save path text =>
    try
      IO.FS.writeFile path text
      return 0
    catch error =>
      IO.eprint (errorLine (unwritable path (faultOf error)))
      return 1

end QueryStubs.Program

/-- The program. -/
def main (args : List String) : IO UInt32 := do
  QueryStubs.Program.carryOut (QueryStubs.Command.run (← QueryStubs.Program.surroundings args) args)
