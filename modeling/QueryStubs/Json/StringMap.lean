/-!
# Reading an object of strings

`StringMap.read?` reads a text that is one JSON object whose values are all strings, with blanks between tokens and nothing after
it, and gives its entries as they are written, repeated names among them. It is strict: no comma before the closing brace, no
control character inside a string, no half of a surrogate pair alone.
-/

namespace QueryStubs.StringMap

/-- The characters that may stand between tokens. -/
def isGap (c : Char) : Bool := c = ' ' || c = '\t' || c = '\n' || c = '\r'

/-- What is left of a text after the blanks in front. -/
def skipGaps (cs : List Char) : List Char := cs.dropWhile isGap

/-- The value of a hexadecimal digit. -/
def hexValue? (c : Char) : Option Nat :=
  if c.isDigit then some (c.toNat - 48)
  else if 'a' ≤ c && c ≤ 'f' then some (c.toNat - 87)
  else if 'A' ≤ c && c ≤ 'F' then some (c.toNat - 55)
  else none

/-- The value of four hexadecimal digits. -/
def unit? (a b c d : Char) : Option Nat := do
  return (((← hexValue? a) * 16 + (← hexValue? b)) * 16 + (← hexValue? c)) * 16 + (← hexValue? d)

/-- Whether a unit is the first half of a surrogate pair. -/
def isHigh (n : Nat) : Bool := 0xD800 ≤ n && n < 0xDC00

/-- Whether a unit is the second half of a surrogate pair. -/
def isLow (n : Nat) : Bool := 0xDC00 ≤ n && n < 0xE000

/-- The character that a surrogate pair stands for. -/
def pairChar (high low : Nat) : Char := Char.ofNat (0x10000 + (high - 0xD800) * 0x400 + (low - 0xDC00))

/-- The character that a short escape stands for. -/
def shortEscape? (c : Char) : Option Char :=
  if c = '\x22' || c = '\\' || c = '/' then some c
  else if c = 'b' then some '\x08'
  else if c = 'f' then some '\x0c'
  else if c = 'n' then some '\n'
  else if c = 'r' then some '\r'
  else if c = 't' then some '\t'
  else none

/-- The rest of a string whose opening mark was read: its characters so far, reversed, are `done`. Gives the string and what
follows it. -/
def readString? (done : List Char) : List Char → Option (String × List Char)
  | [] => none
  | '\x22' :: cs => some (String.ofList done.reverse, cs)
  | '\\' :: 'u' :: a :: b :: c :: d :: cs => do
    let n ← unit? a b c d
    if isLow n then none
    else if isHigh n then
      match cs with
      | '\\' :: 'u' :: e :: f :: g :: h :: ds => do
        let m ← unit? e f g h
        if isLow m then readString? (pairChar n m :: done) ds else none
      | _ => none
    else readString? (Char.ofNat n :: done) cs
  | '\\' :: c :: cs => do
    let e ← shortEscape? c
    readString? (e :: done) cs
  | c :: cs => if c.toNat < 32 then none else readString? (c :: done) cs
termination_by cs => cs.length

/-- A string that comes next after blanks, and what follows it. -/
def readText? (cs : List Char) : Option (String × List Char) :=
  match skipGaps cs with
  | '\x22' :: rest => readString? [] rest
  | _ => none

/-- One entry, and what follows it after blanks. -/
def readEntry? (cs : List Char) : Option ((String × String) × List Char) := do
  let (name, rest) ← readText? cs
  match skipGaps rest with
  | ':' :: rest => do
    let (value, rest) ← readText? rest
    return ((name, value), skipGaps rest)
  | _ => none

/-- The entries up to the closing brace, at least one and at most `bound`, and what follows the brace. -/
def readEntries? : Nat → List Char → Option (List (String × String) × List Char)
  | 0, _ => none
  | bound + 1, cs => do
    let (entry, rest) ← readEntry? cs
    match rest with
    | ',' :: rest => do
      let (entries, rest) ← readEntries? bound rest
      return (entry :: entries, rest)
    | '\x7d' :: rest => some ([entry], rest)
    | _ => none

/-- The entries of an object whose opening brace was read, and what follows it. -/
def readBody? (cs : List Char) : Option (List (String × String) × List Char) :=
  match skipGaps cs with
  | '\x7d' :: rest => some ([], rest)
  | rest => readEntries? rest.length rest

/-- The entries of a text that is an object of strings, in the order in which they are written. -/
def read? (text : String) : Option (List (String × String)) :=
  match skipGaps text.toList with
  | '\x7b' :: rest => do
    let (entries, rest) ← readBody? rest
    if (skipGaps rest).isEmpty then some entries else none
  | _ => none

end QueryStubs.StringMap
