import QueryStubs.Diagnostic
import QueryStubs.Text.Position
import QueryStubs.Text.Style

/-!
# Reports with the line they are about

A rendered report has a title, the name of the source with the place of the report if the source has a name, the source line in a
frame, and under it marks from the start of the report's range to its end, with the message beside them. A report that is
explained by related places is about a bracket that was never closed: the bracket is the first character of its range, and all of
its messages hang below the bracket.

A range that goes on in later lines is marked to the end of its first line, and an empty one has a single mark. A report at the end
of a source that ends with a line feed is shown behind the last line.
-/

namespace QueryStubs

/-- What a piece of a rendered report is, which decides its style. -/
inductive Ink where
  | title
  | severity (severity : Severity)
  | frame
  deriving DecidableEq, Repr

/-- What switches the colour of a piece on; a title has none. -/
def Ink.color : Ink → String
  | title => ""
  | severity .error => Text.style "91"
  | severity .warning => Text.style "33"
  | frame => Text.style "94"

/-- A piece as it is written: bold and in its colour, if there are colours at all. -/
def Ink.paint (colored : Bool) (ink : Ink) (s : String) : String :=
  if colored then Text.style "1" ++ ink.color ++ s ++ Text.style "0" else s

/-- The characters of a text from the start of a line on; lines are counted from 1. -/
def fromLine : Nat → List Char → List Char
  | 0, cs => cs
  | 1, cs => cs
  | n + 2, cs => fromLine (n + 1) ((cs.dropWhile (· ≠ '\n')).drop 1)

/-- A line of a text, without its line feed and a carriage return before that. -/
def lineOf (source : String) (line : Nat) : List Char :=
  let cs := fromLine line source.toList
  let chars := cs.takeWhile (· ≠ '\n')
  if chars.length < cs.length ∧ chars.getLast? = some '\r' then chars.dropLast else chars

/-- The range that is marked for a range of a source of a length: an empty one is widened by a byte, as far as the source goes. -/
def Span.adjusted (limit : Nat) (s : Span) : Span :=
  if s.start = s.stop then ⟨s.start, min (s.start + 1) limit⟩ else s

/-- Where a report is shown: a line, its characters, the column that is written after the name of the source, and the number of
characters before the marks. -/
structure Snippet where
  line : Nat
  chars : List Char
  column : Nat
  indent : Nat
  deriving DecidableEq, Repr

/-- Some blanks. -/
def blanks (n : Nat) : String := String.ofList (List.replicate n ' ')

namespace Snippet

/-- Where a byte offset of a source is shown. The empty line behind a final line feed is never shown: what is there is shown one
place behind the line feed. -/
def ofOffset (source : String) (offset : Nat) : Snippet :=
  let p := Position.ofOffset source offset
  if 1 < p.line ∧ p.column = 1 ∧ p.offset = source.utf8ByteSize then
    let chars := lineOf source (p.line - 1)
    { line := p.line - 1, chars, column := chars.length + 2, indent := chars.length }
  else
    { line := p.line, chars := lineOf source p.line, column := p.column, indent := p.column - 1 }

/-- The number of marks for a range of a source that starts at the snippet: one for each of its characters on the line, and at
least one. -/
def markCount (s : Snippet) (source : String) (span : Span) : Nat :=
  let chars := source.toList
  max 1 (min (s.chars.length - s.indent)
    ((Position.charsBefore span.stop chars).length - (Position.charsBefore span.start chars).length))

/-- The width of the numbers of lines. -/
def width (s : Snippet) : Nat := (Nat.repr s.line).length

end Snippet

namespace Diagnostic

/-- The marks of a report without related places, and its message beside them. -/
def markedLine (paint : Ink → String → String) (d : Diagnostic) (count : Nat) : String :=
  let ink := Ink.severity d.severity
  paint ink (String.ofList (List.replicate count '^')) ++ " " ++ paint ink d.message

/-- The marks of a report with related places: a dash for the bracket, unless it is all there is, and a caret for the rest. -/
def bracketMarks (paint : Ink → String → String) (d : Diagnostic) (count : Nat) : String :=
  let ink := Ink.severity d.severity
  if count ≤ 1 then paint ink "^" else paint .frame "-" ++ paint ink (String.ofList (List.replicate (count - 1) '^'))

/-- What stands below the source line. -/
def annotations (paint : Ink → String → String) (d : Diagnostic) (count : Nat) : List String :=
  if d.related.isEmpty then [d.markedLine paint count]
  else
    d.bracketMarks paint count :: paint .frame "|" :: paint (.severity d.severity) d.message ::
      d.related.map fun r => paint .frame r.message

/-- The lines of a report, as it is shown for a source that may have a name. -/
def renderedLines (colored : Bool) (name : Option String) (source : String) (d : Diagnostic) : List String :=
  let paint := Ink.paint colored
  let s := Snippet.ofOffset source d.span.start
  let margin := blanks s.width
  let bar := paint .frame "|"
  let place (name : String) : String :=
    margin ++ paint .frame "--> " ++ name ++ ":" ++ Nat.repr s.line ++ ":" ++ Nat.repr s.column
  (paint (.severity d.severity) d.severity.label ++ paint .title (": " ++ d.message)) ::
    ((name.map place).toList ++
      [margin ++ " " ++ bar,
        paint .frame (Nat.repr s.line) ++ " " ++ bar ++ (if s.chars.isEmpty then "" else " " ++ String.ofList s.chars)] ++
      (d.annotations paint (s.markCount source (d.span.adjusted source.utf8ByteSize))).map fun a =>
        margin ++ " " ++ bar ++ " " ++ blanks s.indent ++ a)

/-- Some reports as they are shown for a source that may have a name, with a line end between lines and none behind the last. -/
def render (colored : Bool) (name : Option String) (source : String) (ds : List Diagnostic) : String :=
  String.intercalate "\n" (ds.flatMap (renderedLines colored name source))

end Diagnostic

end QueryStubs
