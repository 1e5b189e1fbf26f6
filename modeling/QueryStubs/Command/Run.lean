import QueryStubs.Command.Folder
import QueryStubs.Command.Request
import QueryStubs.Diagnostic.Snippet
import QueryStubs.Diagnostic.Suppression
import QueryStubs.Module.Export
import QueryStubs.Module.OfTree
import QueryStubs.Outline
import QueryStubs.Stub.Emit

/-!
# Runs: what a command line brings about

A run reads what its request needs and settles what is printed and how it ends: with an exit status, or with a file to be written.
Everything else, the state of the files after it and the message of a file that could not be written, follows from that and from
the surroundings.

Reports of a source are printed to standard error as they are shown, without a line end behind the last one, and progress is
printed there line by line if it is asked for. The first thing that fails ends a run with the status 1, and a command line that
cannot be read with the status 2. To write stubs, the table of types is read before the source is looked at; to check a source,
after that.
-/

namespace QueryStubs.Command

/-- What a run can read: files by their paths, standard input, and whether its output goes to a terminal. -/
structure Surroundings where
  read : String → Except FileFault String
  standardInput : Except FileFault String := .ok ""
  onTerminal : Bool := false

/-- How a run ends: with an exit status, or by writing a file. -/
inductive Ending where
  | exit (status : Nat)
  | save (path text : String)
  deriving DecidableEq, Repr

/-- What a run prints and how it ends. -/
structure Plan where
  stdout : String := ""
  stderr : String := ""
  ending : Ending
  deriving DecidableEq, Repr

/-- A module text and the name it has in reports. -/
structure Source where
  name : String
  text : String
  deriving DecidableEq, Repr

/-- The line that says why a run fails. -/
def errorLine (message : String) : String := "error: " ++ message ++ "\n"

/-- A run that fails after something was printed to standard error. -/
def Plan.failed (stderr message : String) : Plan := { stderr := stderr ++ errorLine message, ending := .exit 1 }

/-- The message of a file that could not be read. -/
def unreadable (path : String) (f : FileFault) : String := "failed to read '" ++ path ++ "': " ++ f.message

/-- The message of a file that could not be written. -/
def unwritable (path : String) (f : FileFault) : String := "failed to write '" ++ path ++ "': " ++ f.message

/-! ## Progress -/

/-- The steps of a run that are told about if it is asked for. -/
inductive Progress where
  | loadedTypeMap | lexedModule | parsedModule | loweredModule | generatingStubs
  deriving DecidableEq, Repr

/-- What is said of a step. -/
def Progress.line : Progress → String
  | loadedTypeMap => "DEBUG loaded type map\n"
  | lexedModule => "TRACE lexed module\n"
  | parsedModule => "DEBUG parsed module\n"
  | loweredModule => "DEBUG lowered module\n"
  | generatingStubs => "INFO generating stubs\n"

/-- The verbosity from which on a step is told about. -/
def Progress.verbosity : Progress → Nat
  | lexedModule => 2
  | _ => 1

/-- What is printed of some steps. -/
def progress (verbosity : Nat) (steps : List Progress) : String :=
  String.join ((steps.filter fun s => s.verbosity ≤ verbosity).map Progress.line)

/-! ## Reading what a request needs -/

/-- The module text of a run, or why there is none. -/
def InputChoice.load (s : Surroundings) : InputChoice → Except String Source
  | .query text => .ok ⟨"<query>", text⟩
  | .standardInput =>
    match s.standardInput with
    | .ok text => .ok ⟨"<stdin>", text⟩
    | .error f => .error ("failed to read stdin: " ++ f.message)
  | .file path =>
    match s.read path with
    | .ok text => .ok ⟨path, text⟩
    | .error .isFolder => .error ("'" ++ path ++ "' is a directory")
    | .error f => .error (unreadable path f)
  | .unspecified => .error "input is required: use positional argument, `-` for stdin, or -q/--query"

namespace StubOptions

/-- The table that a type map is merged over. -/
def baseTable (o : StubOptions) : TypeTable := if o.extended then .extended else .standard

/-- The table of types, or why there is none. -/
def table (s : Surroundings) (o : StubOptions) : Except String TypeTable :=
  match o.typeMap with
  | none => .ok o.baseTable
  | some path =>
    match s.read path with
    | .error f => .error (unreadable path f)
    | .ok text =>
      match TypeTable.parse text with
      | .error f => .error f.message
      | .ok t => .ok (o.baseTable.merge t)

/-- How stubs are written with a table of types. -/
def config (o : StubOptions) (colored : Bool) (types : TypeTable) : Config :=
  let d : Config := {}
  { types
    brackets := o.brackets
    placeholder := o.placeholder.getD d.placeholder
    indent := d.indent
    defaultObject := o.defaultObject.getD d.defaultObject
    palette := .ofFlag colored }

/-- The steps that are behind once the table is there. -/
def steps (o : StubOptions) : List Progress := if o.typeMap.isSome then [.loadedTypeMap] else []

end StubOptions

/-! ## Commands -/

/-- What is printed of a source that was parsed: the steps, and its reports as they are shown. -/
def reported (verbosity : Nat) (colored : Bool) (source : Source) (p : Parsed) : String :=
  progress verbosity [.lexedModule, .parsedModule] ++
    Diagnostic.render colored (some source.name) source.text (Diagnostic.shown p.reports)

/-- Whether a source is refused: for errors, and for warnings too if one is strict. -/
def refused (strict : Bool) (p : Parsed) : Bool := p.hasErrors || (strict && p.hasWarnings)

/-- Writes the stubs of a module. A file never gets colours. -/
def gen (s : Surroundings) (c : Common) (o : StubOptions) (strict : Bool) (output : Option String) : Plan :=
  let colored := output.isNone && c.color.isColored s.onTerminal
  match c.input.load s with
  | .error message => .failed "" message
  | .ok source =>
    match o.table s with
    | .error message => .failed "" message
    | .ok types =>
      let p := Parsed.ofSource source.text
      let stderr := progress c.verbosity o.steps ++ reported c.verbosity colored source p
      if refused strict p then { stderr, ending := .exit 1 }
      else
        let stderr := stderr ++ progress c.verbosity [.loweredModule, .generatingStubs]
        match p.module.emit (o.config colored types) with
        | .error f => .failed stderr f.message
        | .ok text =>
          match output with
          | none => { stdout := text, stderr, ending := .exit 0 }
          | some path => { stderr, ending := .save path text }

/-- Checks whether the stubs of a module can be written, or only its syntax. -/
def check (s : Surroundings) (c : Common) (o : StubOptions) (strict syntaxOnly : Bool) : Plan :=
  match c.input.load s with
  | .error message => .failed "" message
  | .ok source =>
    let p := Parsed.ofSource source.text
    let stderr := reported c.verbosity (c.color.isColored s.onTerminal) source p
    if refused strict p then { stderr, ending := .exit 1 }
    else if syntaxOnly then { stderr, ending := .exit 0 }
    else
      match o.table s with
      | .error message => .failed stderr message
      | .ok types =>
        let stderr := stderr ++ progress c.verbosity (o.steps ++ [.loweredModule])
        match p.module.emit (o.config false types) with
        | .error f => .failed stderr f.message
        | .ok _ => { stderr, ending := .exit 0 }

/-- Shows what a module is made of. Errors prevent the structured form only. -/
def ast (s : Surroundings) (c : Common) (view : AstView) : Plan :=
  match c.input.load s with
  | .error message => .failed "" message
  | .ok source =>
    let p := Parsed.ofSource source.text
    let stderr := reported c.verbosity (c.color.isColored s.onTerminal) source p
    match view with
    | .outline spans => { stdout := unlines (p.root.outline spans), stderr, ending := .exit 0 }
    | .listing options => { stdout := unlines (p.tree.lines options), stderr, ending := .exit 0 }
    | .json =>
      if p.hasErrors then { stderr, ending := .exit 1 }
      else
        { stdout := p.module.toJson.text ++ "\n", stderr := stderr ++ progress c.verbosity [.loweredModule], ending := .exit 0 }

/-- The text of the help. -/
def usage : String :=
  unlines [
    "Typed function stubs from XQuery library modules",
    "",
    "Usage: xqstub <COMMAND> [OPTIONS] [FILE]",
    "",
    "Commands:",
    "  gen    Generate stubs from an XQuery module",
    "  check  Validate an XQuery module",
    "  ast    Show the declarations of an XQuery module",
    "",
    "Input: a FILE, `-` for stdin, or -q/--query TEXT"]

/-- What a request brings about. -/
def Request.run (s : Surroundings) : Request → Plan
  | help => { stdout := usage, ending := .exit 0 }
  | gen c o strict output => Command.gen s c o strict output
  | check c o strict syntaxOnly => Command.check s c o strict syntaxOnly
  | ast c view => Command.ast s c view

/-- What a command line brings about. -/
def run (s : Surroundings) (args : List String) : Plan :=
  match Request.parse args with
  | .ok r => r.run s
  | .error f => { stderr := errorLine f.message, ending := .exit 2 }

/-! ## Runs in a folder -/

/-- What there is after a run. -/
structure Outcome where
  status : Nat
  stdout : String
  stderr : String
  folder : Folder
  deriving DecidableEq, Repr

/-- What there is after a run in a folder ends. -/
def Plan.finish (folder : Folder) (p : Plan) : Outcome :=
  match p.ending with
  | .exit status => ⟨status, p.stdout, p.stderr, folder⟩
  | .save path text =>
    match folder.write path text with
    | .ok folder => ⟨0, p.stdout, p.stderr, folder⟩
    | .error f => ⟨1, p.stdout, p.stderr ++ errorLine (unwritable path f), folder⟩

/-- What there is after a command line is run in a folder, away from a terminal. -/
def runIn (folder : Folder) (standardInput : String) (args : List String) : Outcome :=
  (run { read := folder.read, standardInput := .ok standardInput } args).finish folder

end QueryStubs.Command
