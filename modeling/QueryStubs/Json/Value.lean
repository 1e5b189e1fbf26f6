/-!
# Structured values and their text

A value is what an export is made of. Its text has one entry a line, indented by two blanks a level; a list or an object without
entries is written with nothing between its brackets. In strings the two marks that would end them, the control characters and
nothing else are escaped.
-/

namespace QueryStubs

/-- A structured value. -/
inductive JsonValue where
  | null
  | number (n : Nat)
  | string (s : String)
  | list (items : List JsonValue)
  | object (fields : List (String × JsonValue))
  deriving Repr

namespace JsonValue

/-- A text, or `null` for none. -/
def ofText? : Option String → JsonValue
  | none => null
  | some s => string s

/-- A control character in the general escape, which has four hexadecimal digits. -/
def controlEscape (n : Nat) : List Char := ['\\', 'u', '0', '0', (n / 16).digitChar, (n % 16).digitChar]

/-- A character as it is written inside a string. -/
def escapeChar (c : Char) : List Char :=
  if c = '\x22' then ['\\', '\x22']
  else if c = '\\' then ['\\', '\\']
  else if c = '\x08' then ['\\', 'b']
  else if c = '\x0c' then ['\\', 'f']
  else if c = '\n' then ['\\', 'n']
  else if c = '\r' then ['\\', 'r']
  else if c = '\t' then ['\\', 't']
  else if c.toNat < 32 then controlEscape c.toNat
  else [c]

/-- The text of a string. -/
def stringText (s : String) : String := String.ofList ('\x22' :: (s.toList.flatMap escapeChar ++ ['\x22']))

/-- The start of a line at a level. -/
def lineStart (level : Nat) : String := "\n" ++ String.ofList (List.replicate (2 * level) ' ')

/-- Some entries between brackets, one a line, inside a value at a level. -/
def bracketed (left right : String) (level : Nat) (entries : List String) : String :=
  if entries.isEmpty then left ++ right
  else
    left ++ String.intercalate "," (entries.map (lineStart (level + 1) ++ ·)) ++ lineStart level ++ right

mutual

/-- The text of a value at a level. -/
def textAt (level : Nat) : JsonValue → String
  | null => "null"
  | number n => Nat.repr n
  | string s => stringText s
  | list items => bracketed "[" "]" level (itemTexts (level + 1) items)
  | object fields => bracketed "\x7b" "\x7d" level (fieldTexts (level + 1) fields)

/-- The texts of the items of a list. -/
def itemTexts (level : Nat) : List JsonValue → List String
  | [] => []
  | v :: vs => textAt level v :: itemTexts level vs

/-- The texts of the fields of an object. -/
def fieldTexts (level : Nat) : List (String × JsonValue) → List String
  | [] => []
  | (name, v) :: fs => (stringText name ++ ": " ++ textAt level v) :: fieldTexts level fs

end

/-- The text of a value. -/
def text (v : JsonValue) : String := textAt 0 v

end JsonValue

end QueryStubs
