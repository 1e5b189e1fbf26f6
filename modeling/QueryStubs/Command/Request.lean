import QueryStubs.Command.Arguments
import QueryStubs.Stub.Config
import QueryStubs.Tree.Listing

/-!
# Requests: what a command line asks for

There are three commands: to write the stubs of a module, to check whether they could be written, and to show what a module is
made of. Every command takes its module from a file, from standard input or from the command line itself. An option that is not
counted is given at most once, and of operands there is at most one, the file.

What is given is taken from left to right. The first thing that is refused ends that, and so does a flag that asks for help: a fault
behind it goes unnoticed. Only when all has been taken is it asked what cannot be given together.
-/

namespace QueryStubs.Command

/-- The commands. -/
inductive CommandName where
  | gen | check | ast
  deriving DecidableEq, Repr

/-- The options of all commands. -/
inductive OptionKey where
  | query | verbose | help
  | strict | color | output | syntaxOnly
  | typeMap | extended | brackets | placeholder | defaultObject
  | raw | trivia | spans | json
  deriving DecidableEq, Repr

/-- How an option is written. -/
def OptionKey.spec : OptionKey → OptionSpec OptionKey
  | query => { key := query, long := "query", letter := some 'q', takes := some .text }
  | verbose => { key := verbose, long := "verbose", letter := some 'v', counted := true }
  | help => { key := help, long := "help", letter := some 'h' }
  | strict => { key := strict, long := "strict" }
  | color => { key := color, long := "color", takes := some (.oneOf ["auto", "always", "never"]) }
  | output => { key := output, long := "output", letter := some 'o', takes := some .path }
  | syntaxOnly => { key := syntaxOnly, long := "syntax-only" }
  | typeMap => { key := typeMap, long := "type-map", takes := some .path }
  | extended => { key := extended, long := "extended" }
  | brackets => { key := brackets, long := "brackets", takes := some (.oneOf ["angle", "square"]) }
  | placeholder => { key := placeholder, long := "placeholder", takes := some .text }
  | defaultObject => { key := defaultObject, long := "default-object", takes := some .text }
  | raw => { key := raw, long := "raw" }
  | trivia => { key := trivia, long := "trivia" }
  | spans => { key := spans, long := "spans" }
  | json => { key := json, long := "json" }

/-- How an option is named in messages. -/
def OptionKey.shown (k : OptionKey) : String := k.spec.shown

/-- The options that shape stubs. -/
def stubKeys : List OptionKey := [.typeMap, .extended, .brackets, .placeholder, .defaultObject]

namespace CommandName

/-- The word for a command. -/
def label : CommandName → String
  | gen => "gen"
  | check => "check"
  | ast => "ast"

/-- The command with a name. -/
def ofLabel? (name : String) : Option CommandName := [gen, check, ast].find? (·.label = name)

/-- The options that a command takes. -/
def keys : CommandName → List OptionKey
  | gen => [.query, .verbose, .help, .output, .strict, .color] ++ stubKeys
  | check => [.query, .verbose, .help, .syntaxOnly, .strict, .color] ++ stubKeys
  | ast => [.query, .verbose, .help, .raw, .trivia, .spans, .json, .color]

end CommandName

/-- Where a module is taken from. -/
inductive InputChoice where
  | query (text : String)
  | standardInput
  | file (path : String)
  | unspecified
  deriving DecidableEq, Repr

/-- When there are colours: always, never, or if the output goes to a terminal. -/
inductive ColorChoice where
  | auto | always | never
  deriving DecidableEq, Repr

/-- Whether there are colours, given whether the output goes to a terminal. -/
def ColorChoice.isColored (onTerminal : Bool) : ColorChoice → Bool
  | auto => onTerminal
  | always => true
  | never => false

/-- What every command is told. -/
structure Common where
  input : InputChoice
  verbosity : Nat
  color : ColorChoice
  deriving DecidableEq, Repr

/-- The choices about stubs that a command line makes. -/
structure StubOptions where
  /-- The file whose entries are merged over the table. -/
  typeMap : Option String
  extended : Bool
  brackets : Brackets
  placeholder : Option String
  defaultObject : Option String
  deriving DecidableEq, Repr

/-- What a module is shown as. -/
inductive AstView where
  | outline (spans : Bool)
  | listing (options : ListingOptions)
  | json
  deriving DecidableEq, Repr

/-- What a command line asks for. -/
inductive Request where
  | help
  | gen (common : Common) (options : StubOptions) (strict : Bool) (output : Option String)
  | check (common : Common) (options : StubOptions) (strict syntaxOnly : Bool)
  | ast (common : Common) (view : AstView)
  deriving DecidableEq, Repr

/-- The files that a module may be taken from. -/
def InputChoice.paths : InputChoice → List String
  | file path => [path]
  | _ => []

/-- The files that a request may read. -/
def Request.paths : Request → List String
  | help => []
  | gen c o _ _ | check c o _ _ => c.input.paths ++ o.typeMap.toList
  | ast c _ => c.input.paths

/-- Whether a request reads standard input. -/
def Request.readsInput : Request → Bool
  | help => false
  | gen c _ _ _ | check c _ _ _ | ast c _ => c.input = .standardInput

/-! ## What was given -/

/-- The key of an option that was given. -/
def Given.key? : Given κ → Option κ
  | operand _ => none
  | flag key => some key
  | value key _ => some key

/-- The operands among what was given. -/
def operands (given : List (Given κ)) : List String :=
  given.filterMap fun
    | .operand text => some text
    | _ => none

/-- How often an option was given. -/
def occurrences (given : List (Given OptionKey)) (key : OptionKey) : Nat := (given.filter (·.key? = some key)).length

/-- Whether an option was given. -/
def isGiven (given : List (Given OptionKey)) (key : OptionKey) : Bool := given.any (·.key? = some key)

/-- The value that was given for an option. -/
def valueOf? (given : List (Given OptionKey)) (key : OptionKey) : Option String :=
  given.findSome? fun
    | .value k text => if k = key then some text else none
    | _ => none

/-! ## What a line comes to -/

/-- Refuses one thing behind those before it: an option that is given again, unless it is counted, a value that the option does not
take, and all operands but the first, which is a path. -/
def accept (before : List (Given OptionKey)) : Given OptionKey → Except UsageFault Unit
  | .operand text =>
    if operands before ≠ [] then .error (.extraOperand text)
    else if ValueKind.path.admits text then .ok ()
    else .error (.invalidValue "FILE" text)
  | .flag key => if isGiven before key ∧ ¬key.spec.counted then .error (.repeatedOption key.shown) else .ok ()
  | .value key text =>
    if isGiven before key then .error (.repeatedOption key.shown)
    else if key.spec.takes.any (·.admits text) then .ok ()
    else .error (.invalidValue key.shown text)

/-- What a line comes to behind what is before it: all that is given, or nothing where help is asked for. Whatever is behind that, or
behind the first thing that is refused, is not looked at. -/
def Line.collect (before : List (Given OptionKey)) : Line OptionKey → Except UsageFault (Option (List (Given OptionKey)))
  | done => .ok (some before)
  | fault f => .error f
  | more g rest => do
    if g = .flag .help then return none
    accept before g
    rest.collect (before ++ [g])

/-- Refuses what cannot be given together: the text of the module and an operand, and a listing and the structured form. Trivia are
asked for together with one of these two. -/
def refuseConflicts (given : List (Given OptionKey)) : Except UsageFault Unit :=
  if isGiven given .query ∧ operands given ≠ [] then .error (.conflict OptionKey.query.shown "FILE")
  else if isGiven given .raw ∧ isGiven given .json then .error (.conflict OptionKey.raw.shown OptionKey.json.shown)
  else if isGiven given .trivia ∧ ¬isGiven given .raw ∧ ¬isGiven given .json then
    .error (.requires OptionKey.trivia.shown OptionKey.raw.shown)
  else .ok ()

/-! ## Requests of what was given -/

/-- Where the module is taken from. -/
def readInput (given : List (Given OptionKey)) : InputChoice :=
  match valueOf? given .query, operands given with
  | some text, _ => .query text
  | none, path :: _ => if path = "-" then .standardInput else .file path
  | none, [] => .unspecified

/-- When there are colours. -/
def readColor (given : List (Given OptionKey)) : ColorChoice :=
  match valueOf? given .color with
  | some "always" => .always
  | some "never" => .never
  | _ => .auto

/-- How type arguments are bracketed. -/
def readBrackets (given : List (Given OptionKey)) : Brackets :=
  match valueOf? given .brackets with
  | some "square" => .square
  | _ => .angle

/-- What every command is told. -/
def readCommon (given : List (Given OptionKey)) : Common where
  input := readInput given
  verbosity := occurrences given .verbose
  color := readColor given

/-- The choices about stubs. -/
def readStubOptions (given : List (Given OptionKey)) : StubOptions where
  typeMap := valueOf? given .typeMap
  extended := isGiven given .extended
  brackets := readBrackets given
  placeholder := valueOf? given .placeholder
  defaultObject := valueOf? given .defaultObject

/-- What a module is shown as. -/
def readView (given : List (Given OptionKey)) : AstView :=
  if isGiven given .raw then .listing { trivia := isGiven given .trivia, spans := isGiven given .spans }
  else if isGiven given .json then .json
  else .outline (isGiven given .spans)

namespace CommandName

/-- What a command is asked for by what was given for it. -/
def request (given : List (Given OptionKey)) : CommandName → Request
  | gen => .gen (readCommon given) (readStubOptions given) (isGiven given .strict) (valueOf? given .output)
  | check => .check (readCommon given) (readStubOptions given) (isGiven given .strict) (isGiven given .syntaxOnly)
  | ast => .ast (readCommon given) (readView given)

/-- How the options of a command are written. -/
def specs (command : CommandName) : List (OptionSpec OptionKey) := command.keys.map OptionKey.spec

/-- Reads the request of the arguments behind a command. -/
def read (command : CommandName) (args : List String) : Except UsageFault Request := do
  let some given ← (readLine command.specs args).collect [] | return .help
  refuseConflicts given
  return command.request given

end CommandName

/-- Reads what help is asked for: that of a command, or of help itself. -/
def readHelp : List String → Except UsageFault Request
  | [] => .ok .help
  | name :: names =>
    if (CommandName.ofLabel? name).isNone ∧ name ≠ "help" then .error (.unknownCommand name)
    else
      match names with
      | [] => .ok .help
      | other :: _ => .error (.unknownCommand other)

/-- Reads a command line without a command. It may still ask for help. -/
def readPlain (args : List String) : Except UsageFault Request :=
  match readLine [OptionKey.help.spec] args with
  | .done => .error .missingCommand
  | .fault f => .error f
  | .more (.operand name) _ => .error (.unknownCommand name)
  | .more _ _ => .ok .help

/-- Reads the request of a command line. Its first argument is the command, or asks for help. -/
def Request.parse : List String → Except UsageFault Request
  | [] => .error .missingCommand
  | name :: args =>
    match CommandName.ofLabel? name with
    | some command => command.read args
    | none => if name = "help" then readHelp args else readPlain (name :: args)

end QueryStubs.Command
