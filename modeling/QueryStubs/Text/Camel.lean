import QueryStubs.Text.Case

/-!
# Identifiers in camel case

A name of several segments becomes one word: the first segment is lowered, and each later one is capitalized. Segments with nothing
in them, which come of separators at the ends or side by side, stay as a separator.
-/

namespace QueryStubs.Text

/-- The segments of a text between separators. There is always one, perhaps empty. -/
def segments (separator : Char) : List Char → List (List Char)
  | [] => [[]]
  | c :: cs =>
    if c = separator then [] :: segments separator cs
    else
      match segments separator cs with
      | [] => [[c]]
      | s :: ss => (c :: s) :: ss

/-- Joins segments; `started` says whether one with something in it came before. -/
def joinSegments (separator : Char) : Bool → List (List Char) → List Char
  | _, [] => []
  | started, [] :: ss => separator :: joinSegments separator started ss
  | started, s :: ss => (if started then capitalize s else lower s) ++ joinSegments separator true ss

/-- A name with separators in camel case. -/
def camelCase (separator : Char) (name : String) : String :=
  String.ofList (joinSegments separator false (segments separator name.toList))

/-- A name with its first character in capital form and the rest as it is. -/
def titleCase (name : String) : String := String.ofList (capitalize name.toList)

end QueryStubs.Text
