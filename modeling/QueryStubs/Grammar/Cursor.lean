import QueryStubs.Lexeme
import QueryStubs.Diagnostic
import QueryStubs.Grammar.Builder

/-!
# Reading a module: where a reader stands and what it can do

A `Cursor` is a place in the middle of reading a module: the parts of the construct being read, the lexemes ahead, the reports
made so far. A `Rule α` reads one construct: it moves the cursor and gives an `α`, in most cases whether the construct was
complete. Rules never fail: what is missing is reported and left out, and what cannot be used is skipped into an `error` node, so
every source has a tree.

* A rule looks ahead by kinds and words of lexemes, hence trivia never decide anything but whether two lexemes touch.
* Trivia in front of a construct stand before its node: `node` places them first. In three places they belong to the node, and
  `nodeWithLead` leaves them to it: the whole module, a sequence type, and a prolog right after a module declaration.
* The tree is put together by a `Builder`, which goes by what was looked past and not by what a rule says about trivia. That the builder
  comes to the same parts is proved of every rule (`Cursor.Agrees`).
* A report is made only if the report before it was at another place.
* Looking ahead costs patience, which only taking a lexeme restores. Running out of it, taking a lexeme where none is left and
  the like would be a defect of the grammar itself; `Cursor.defects` records them.
-/

namespace QueryStubs.Grammar

open QueryStubs

/-- How often a reader may look ahead before it takes a lexeme. -/
def fullPatience : Nat := 256

/-- How far the reading of a module has come. -/
structure Reading where
  /-- The parts of the open construct, in order. -/
  parts : List Tree := []
  /-- The lexemes not taken yet. -/
  ahead : List Lexeme
  /-- The trivia after the last lexeme, until they are placed. -/
  tail : List Token
  /-- The length of the source in bytes. -/
  limit : Nat
  /-- Where the lexeme taken last ended. -/
  reached : Nat := 0
  /-- The reports made so far, in order. -/
  reports : List Diagnostic := []
  /-- The place of the report made last. -/
  lastReport : Option Nat := none
  /-- The prefix that the module declaration binds, once it is read. -/
  modulePrefix : Option String := none
  deriving Repr

/-- A reading together with the tree that is being put together and with what watches over the grammar itself. No rule decides anything by
the latter two. -/
structure Cursor extends Reading where
  /-- How often the reader may still look ahead. -/
  patience : Nat := fullPatience
  /-- What was found wrong with the grammar itself. -/
  defects : List Defect := []
  /-- The tree that is being put together. -/
  builder : Builder := {}
  deriving Repr

/-- Reads a construct: moves the cursor and says what came of it. -/
abbrev Rule := StateM Cursor

/-- The cursor before anything of a source is read. `Cursor.wrapped?` is the one whose offsets are held in 32 bits. -/
def Cursor.start (source : String) : Cursor :=
  let (ahead, tail) := Lexeme.ofTokens (Token.ofSource source)
  { ahead, tail, limit := source.utf8ByteSize }

/-- Records a defect unless a condition holds. -/
def Cursor.demand (condition : Bool) (defect : Defect) (c : Cursor) : Cursor :=
  if condition then c else { c with defects := c.defects ++ [defect] }

/-- The trivia that come next in the source. -/
def Cursor.nextTrivia (c : Cursor) : List Token :=
  match c.ahead with
  | [] => c.tail
  | l :: _ => l.lead

/-- Looks past the trivia that come next in the source. -/
def Cursor.look (c : Cursor) : Cursor := { c with builder := c.builder.look c.nextTrivia }

/-- Makes the trivia that come next in the source parts of the open construct. -/
def Cursor.placeTrivia (c : Cursor) : Cursor :=
  { c with
    parts := c.parts ++ c.nextTrivia.map .leaf
    ahead := match c.ahead with
      | [] => []
      | l :: ls => { l with lead := [] } :: ls
    tail := match c.ahead with
      | [] => []
      | _ :: _ => c.tail }

/-- The range of the lexeme that comes next, or the empty range at the end of the source. -/
def Cursor.nextSpan (c : Cursor) : Span :=
  match c.ahead with
  | [] => .empty c.limit
  | l :: _ => l.span

/-- Adds a report that counts as made at a place, unless the report before it was made there too. -/
def Cursor.addReport (place : Nat) (report : Diagnostic) (c : Cursor) : Cursor :=
  if c.lastReport = some place then c
  else { c with lastReport := some place, reports := c.reports ++ [report] }

/-! ## Looking ahead -/

/-- Looks past the trivia that come next. -/
def lookPast : Rule Unit := modify Cursor.look

/-- Notes that trivia are in the way unless a condition holds. -/
def demandSeen (condition : Cursor → Bool) : Rule Unit := modify fun c => { c with builder := c.builder.demandSeen (condition c) }

/-- Uses up some patience. -/
def spend : Rule Unit :=
  modify fun c => { c.demand (0 < c.patience) .stuck with patience := c.patience - 1 }

/-- The lexeme `n` places ahead. -/
def peek (n : Nat) : Rule (Option Lexeme) := do
  lookPast
  spend
  return (← get).ahead[n]?

/-- Whether tokens are counted from the next lexeme on. They are once the trivia in front of it were looked past, or where there are none. -/
def Cursor.countsFromNext (c : Cursor) : Bool := c.builder.looked || c.nextTrivia.isEmpty

/-- Whether tokens are counted from right behind the lexeme taken last. -/
def Cursor.countsFromLast (c : Cursor) : Bool := !c.builder.looked || c.nextTrivia.isEmpty

/-- The lexeme `n` places ahead for one who counts tokens and does not look past trivia: the next one right behind the lexeme taken last, or one
behind the next. -/
def peekRaw (n : Nat) : Rule (Option Lexeme) := do
  demandSeen (if n = 0 then Cursor.countsFromLast else Cursor.countsFromNext)
  spend
  return (← get).ahead[n]?

/-- The kind of the next lexeme. -/
def nextKind : Rule (Option TokenKind) := do return (← peek 0).map (·.kind)

/-- Notes a defect unless a condition holds. -/
def demand (condition : Bool) (defect : Defect) : Rule Unit := modify (Cursor.demand condition defect)

/-- Whether the next lexeme is of a kind. -/
def sees (kind : TokenKind) : Rule Bool := do return (← nextKind) = some kind

/-- Whether the lexeme `n` places ahead is of a kind. -/
def seesAt (n : Nat) (kind : TokenKind) : Rule Bool := do return (← peek n).map (·.kind) = some kind

/-- Whether the lexeme `n` places ahead is of a kind and touches the one before it. -/
def seesTouching (n : Nat) (kind : TokenKind) : Rule Bool := do
  return (← peekRaw n).any fun l => l.touches && l.kind = kind

/-- Whether the lexeme `n` places ahead is a word. -/
def seesWordAt (n : Nat) (word : String) : Rule Bool := do return (← peek n).any (·.isWord word)

/-- Whether the next lexeme is a word. -/
def seesWord (word : String) : Rule Bool := seesWordAt 0 word

/-- The spelling of the lexeme `n` places ahead if it is a name. -/
def wordAt? (n : Nat) : Rule (Option String) := do
  return ((← peek n).filter (·.kind = .name)).map (·.token.text)

/-- The range of the next lexeme. -/
def nextSpan : Rule Span := do
  lookPast
  return (← get).nextSpan

/-- The spelling of the next lexeme, empty at the end of the source. -/
def nextText : Rule String := do
  lookPast
  match (← get).ahead with
  | [] => return ""
  | l :: _ => return l.token.text

/-- Whether it shows that nothing is left if nothing is: the trivia behind the last lexeme were looked past, or there are none. -/
def Cursor.showsEnd (c : Cursor) : Bool := c.builder.looked || !c.ahead.isEmpty || c.tail.isEmpty

/-- Whether no lexeme is left. -/
def atEnd : Rule Bool := do
  demandSeen Cursor.showsEnd
  return (← get).ahead.isEmpty

/-! ## Taking lexemes and building nodes -/

/-- Moves a cursor past its next lexeme, which becomes a part of the open construct in the form `record` gives it. -/
def Cursor.advance (record : Token → Token) (c : Cursor) : Cursor :=
  match c.ahead with
  | [] => c.look.demand false .pastEnd
  | l :: ls =>
    { c with
      parts := c.parts ++ l.lead.map .leaf ++ [.leaf (record l.token)]
      ahead := ls
      reached := l.span.stop
      patience := fullPatience
      builder := c.builder.write l.lead (record l.token) }

/-- Takes the next lexeme. -/
def take : Rule Unit := modify (Cursor.advance id)

/-- Takes the next lexeme as a keyword. -/
def takeKeyword : Rule Unit := modify (Cursor.advance Token.asKeyword)

/-- Takes several lexemes as keywords. -/
def takeKeywords : Nat → Rule Unit
  | 0 => pure ()
  | n + 1 => do
    takeKeyword
    takeKeywords n

/-- Takes the next lexeme if it is of a kind, and says whether it was. -/
def accept (kind : TokenKind) : Rule Bool := do
  if ← sees kind then
    take
    return true
  else
    return false

/-- Opens a construct. -/
def Cursor.startNode (kind : NodeKind) (c : Cursor) : Cursor := { c with parts := [], builder := c.builder.start kind }

/-- Makes the open construct a node behind the parts of the construct around it. -/
def Cursor.finishNode (kind : NodeKind) (before : List Tree) (c : Cursor) : Cursor :=
  { c with parts := before ++ [.node kind c.parts], builder := c.builder.finish }

/-- Makes what a rule reads a node of the open construct. The trivia in front of what is read belong to the node. -/
def nodeWithLead (kind : NodeKind) (rule : Rule α) : Rule α := fun c =>
  let (a, d) := rule (c.startNode kind)
  (a, d.finishNode kind c.parts)

/-- Makes the trivia that come next parts of the open construct. -/
def placeTrivia : Rule Unit := modify Cursor.placeTrivia

/-- Makes what a rule reads a node of the open construct. The trivia in front of what is read stand before the node. -/
def node (kind : NodeKind) (rule : Rule α) : Rule α := do
  placeTrivia
  nodeWithLead kind rule

/-- Makes the trivia that come next parts of the open construct, at its end and not in front of a node. -/
def eatTrivia : Rule Unit := do
  lookPast
  modify fun c => { c with builder := c.builder.drain }
  placeTrivia

/-- Does a step over and over until it says that it is done. A step that says it is not has to take a lexeme. -/
def repeatRule (step : σ → Rule (Bool × σ)) (a : σ) : Rule σ := fun c =>
  match step a c with
  | ((false, b), d) => (b, d)
  | ((true, b), d) =>
    if d.ahead.length < c.ahead.length then repeatRule step b d else (b, d.demand false .stuck)
termination_by c => c.ahead.length

/-! ## Reports -/

/-- Reports at the next lexeme. -/
def reportNext (kind : DiagnosticKind) (detail : Option String) : Rule Unit := do
  lookPast
  modify fun c => c.addReport c.nextSpan.start ⟨kind, c.nextSpan, detail, []⟩

/-- Reports at the next lexeme what was expected or found there. -/
def report (kind : DiagnosticKind) (detail : String) : Rule Unit := reportNext kind (some detail)

/-- Reports at a range. -/
def reportAt (kind : DiagnosticKind) (span : Span) (detail : Option String) (related : List Related) : Rule Unit :=
  modify (Cursor.addReport span.start ⟨kind, span, detail, related⟩)

/-- Reports a bracket that is not closed. The report reaches from the bracket to the end of the next lexeme, and it counts as
made at that lexeme. -/
def reportUnclosed (kind : DiagnosticKind) (note : String) (opening : Span) : Rule Unit := do
  lookPast
  modify fun c =>
    let span : Span := ⟨opening.start, c.nextSpan.stop⟩
    (c.demand (span.start ≤ span.stop) .reversedSpan).addReport c.nextSpan.start ⟨kind, span, none, [⟨note, opening⟩]⟩

/-- Takes the next lexeme if it is of a kind, and otherwise reports what is missing. -/
def expect (kind : TokenKind) (what : String) : Rule Bool := do
  if ← accept kind then
    return true
  else
    report .expectedToken what
    return false

/-- A word as a report names it. -/
def quoted (word : String) : String := "`" ++ word ++ "`"

/-- Takes the first of some words that the next lexeme is, and says whether there was one. -/
def acceptWordOf : List String → Rule Bool
  | [] => pure false
  | word :: words => do
    if ← seesWord word then
      takeKeyword
      return true
    else
      acceptWordOf words

/-- Takes one of some words as a keyword, or reports all of them as missing. -/
def expectWordOf (words : List String) : Rule Bool := do
  if ← acceptWordOf words then
    return true
  else
    report .expectedKeyword (String.intercalate " or " (words.map quoted))
    return false

/-- Takes a word as a keyword, or reports it as missing. -/
def expectWord (word : String) : Rule Bool := expectWordOf [word]

/-- Skips one lexeme unless `stop` holds at it or none is left. -/
def skipStep (stop : Rule Bool) (_ : Unit) : Rule (Bool × Unit) := do
  if ← atEnd then
    return (false, ())
  else if ← stop then
    return (false, ())
  else
    take
    lookPast
    return (true, ())

/-- Skips lexemes into an `error` node until `stop` holds at one or none is left. Without any lexeme to skip there is no node. -/
def skipUntil (stop : Rule Bool) : Rule Unit := do
  if ← atEnd then
    pure ()
  else if ← stop then
    pure ()
  else
    node .error do
      repeatRule (skipStep stop) ()

end QueryStubs.Grammar
