/-!
# Command lines: options and operands

An argument that starts with two dashes names an option by its long name, one that starts with a single dash is a row of letters,
and any other argument, a single dash alone included, is an operand. Two dashes alone make operands of all arguments behind them.

The value of an option follows an equals sign behind its long name, or directly behind its letter with an equals sign or without
one, or it is the next argument, if that does not read as an option. An option that takes no value is a flag and is given none.

A command line is read from left to right: what it gives is known thing by thing, whatever is behind it (`readLine`).
-/

namespace QueryStubs.Command

/-- What a value has to be. -/
inductive ValueKind where
  | text
  /-- A path, which an empty text is not. -/
  | path
  | oneOf (words : List String)
  deriving DecidableEq, Repr

/-- Whether a text is such a value. -/
def ValueKind.admits : ValueKind → String → Bool
  | text, _ => true
  | path, value => !value.isEmpty
  | oneOf words, value => words.contains value

/-- An option: what it is, its long name, perhaps a letter, and the value that it takes, if it takes one. -/
structure OptionSpec (κ : Type) where
  key : κ
  long : String
  letter : Option Char := none
  takes : Option ValueKind := none
  /-- Whether it is counted how often it is given. Other options are given once. -/
  counted : Bool := false
  deriving DecidableEq, Repr

/-- How an option is named in messages. -/
def OptionSpec.shown (o : OptionSpec κ) : String := "--" ++ o.long

/-- One thing that a command line gives. -/
inductive Given (κ : Type) where
  | operand (text : String)
  | flag (key : κ)
  | value (key : κ) (text : String)
  deriving DecidableEq, Repr

/-- Why a command line is refused. -/
inductive UsageFault where
  | missingCommand
  | unknownCommand (name : String)
  | unknownOption (option : String)
  | missingValue (option : String)
  | unexpectedValue (option : String)
  | invalidValue (option value : String)
  | repeatedOption (option : String)
  | extraOperand (text : String)
  /-- Two things that cannot be given together. -/
  | conflict (one other : String)
  /-- An option that is of no use without another. -/
  | requires (option other : String)
  deriving DecidableEq, Repr

/-- The written form of a fault. -/
def UsageFault.message : UsageFault → String
  | missingCommand => "a command is required"
  | unknownCommand name => "unknown command '" ++ name ++ "'"
  | unknownOption option => "unexpected argument '" ++ option ++ "'"
  | missingValue option => "a value is required for '" ++ option ++ "'"
  | unexpectedValue option => "no value can be given for '" ++ option ++ "'"
  | invalidValue option value => "invalid value '" ++ value ++ "' for '" ++ option ++ "'"
  | repeatedOption option => "the argument '" ++ option ++ "' cannot be used multiple times"
  | extraOperand text => "unexpected argument '" ++ text ++ "'"
  | conflict one other => "the argument '" ++ one ++ "' cannot be used with '" ++ other ++ "'"
  | requires option other => "the argument '" ++ option ++ "' requires '" ++ other ++ "'"

/-- What a command line gives, from left to right, up to its end or to the first argument that cannot be read. -/
inductive Line (κ : Type) where
  | done
  | fault (f : UsageFault)
  | more (g : Given κ) (rest : Line κ)
  deriving DecidableEq, Repr

/-- A line that gives some things and no more. -/
def Line.ofList (given : List (Given κ)) : Line κ := given.foldr .more .done

/-- All that a line gives, or its fault. -/
def Line.all : Line κ → Except UsageFault (List (Given κ))
  | done => .ok []
  | fault f => .error f
  | more g rest => do return g :: (← rest.all)

/-- Whether an argument reads as an option: it starts with a dash and is not only that. -/
def readsAsOption (arg : String) : Bool :=
  match arg.toList with
  | '-' :: _ :: _ => true
  | _ => false

/-- The text behind the first equals sign, if there is one. -/
def attached? (body : List Char) : Option String :=
  match body.dropWhile (· ≠ '=') with
  | [] => none
  | _ :: value => some (String.ofList value)

section

variable (specs : List (OptionSpec κ)) (behind : Option (OptionSpec κ) → Line κ)

/-- Reads what follows two dashes, and then what is behind it, where an option may be waiting for its value. -/
def readLong (body : List Char) : Line κ :=
  let long := String.ofList (body.takeWhile (· ≠ '='))
  match specs.find? (·.long = long) with
  | none => .fault (.unknownOption ("--" ++ long))
  | some o =>
    match o.takes.isSome, attached? body with
    | true, some value => .more (.value o.key value) (behind none)
    | true, none => behind (some o)
    | false, some _ => .fault (.unexpectedValue o.shown)
    | false, none => .more (.flag o.key) (behind none)

/-- Reads a row of letters, and then what is behind it. The first letter that takes a value takes the rest of the row. -/
def readLetters : List Char → Line κ
  | [] => behind none
  | c :: cs =>
    match specs.find? (·.letter = some c) with
    | none => .fault (.unknownOption (String.ofList ['-', c]))
    | some o =>
      if o.takes.isSome then
        match cs with
        | [] => behind (some o)
        | '=' :: value => .more (.value o.key (String.ofList value)) (behind none)
        | value => .more (.value o.key (String.ofList value)) (behind none)
      else .more (.flag o.key) (readLetters cs)

/-- Reads an argument that is neither the value of the option before it nor two dashes alone, and then what is behind it. -/
def readArgument (arg : String) : Line κ :=
  match arg.toList with
  | '-' :: '-' :: body => readLong specs behind body
  | '-' :: c :: cs => readLetters specs behind (c :: cs)
  | _ => .more (.operand arg) (behind none)

end

/-- Reads arguments, where an option before them may be waiting for its value. -/
def readFrom (specs : List (OptionSpec κ)) : Option (OptionSpec κ) → List String → Line κ
  | none, [] => .done
  | some o, [] => .fault (.missingValue o.shown)
  | some o, value :: args =>
    if readsAsOption value then .fault (.missingValue o.shown)
    else .more (.value o.key value) (readFrom specs none args)
  | none, arg :: args =>
    if arg = "--" then .ofList (args.map .operand)
    else readArgument specs (fun waiting => readFrom specs waiting args) arg

/-- Reads the arguments of a command line. -/
def readLine (specs : List (OptionSpec κ)) (args : List String) : Line κ := readFrom specs none args

/-- All that the arguments of a command line give, or the first fault. -/
def readArguments (specs : List (OptionSpec κ)) (args : List String) : Except UsageFault (List (Given κ)) :=
  (readLine specs args).all

/-- Behind two dashes there are only operands. -/
theorem readLine_dashes (specs : List (OptionSpec κ)) (args : List String) :
    readLine specs ("--" :: args) = .ofList (args.map .operand) := by
  simp [readLine, readFrom]

end QueryStubs.Command
