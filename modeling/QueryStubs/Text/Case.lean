import QueryStubs.Text.CaseTable

/-!
# Case of letters

Raising and lowering follow the Unicode standard: a letter may become more than one character, and a capital sigma becomes the
final small sigma where it ends a word, that is where a letter that has case stands before it and none after it, characters that
carry no case of their own being passed over. Letters that the tables do not name keep their form.
-/

namespace QueryStubs.Text

/-- The code point that a run maps a code point to, if the run holds it. -/
def shiftBy? (n : Nat) (run : Nat × Nat × Nat × Int) : Option Nat :=
  let (low, high, step, shift) := run
  if low ≤ n && n ≤ high && (n - low) % step = 0 then some (n + shift).toNat else none

/-- The form that runs and expansions give a character. -/
def recase (runs : List (Nat × Nat × Nat × Int)) (expansions : List (Nat × List Nat)) (c : Char) : List Char :=
  match expansions.lookup c.toNat with
  | some ns => ns.map Char.ofNat
  | none => [((runs.findSome? (shiftBy? c.toNat)).map Char.ofNat).getD c]

/-- The capital form of a character. -/
def upperChar (c : Char) : List Char := if c.toNat < 128 then [c.toUpper] else recase upperRuns upperExpansions c

/-- The small form of a character, wherever it stands. -/
def lowerChar (c : Char) : List Char := if c.toNat < 128 then [c.toLower] else recase lowerRuns lowerExpansions c

/-- Whether one of some ranges holds a character. -/
def inRanges (ranges : List (Nat × Nat)) (c : Char) : Bool := ranges.any fun (low, high) => low ≤ c.toNat && c.toNat ≤ high

/-- Whether the first character that counts is a letter that has case. -/
def startsCased (cs : List Char) : Bool :=
  match cs.dropWhile (inRanges caseIgnorableRanges) with
  | [] => false
  | c :: _ => inRanges casedRanges c

/-- The small form of a character between `before`, which is reversed, and `after`. -/
def lowerBetween (before : List Char) (c : Char) (after : List Char) : List Char :=
  if c = 'Σ' then [if startsCased before && !startsCased after then 'ς' else 'σ'] else lowerChar c

/-- The small form of a text that follows `before`, which is reversed. -/
def lowerAfter (before : List Char) : List Char → List Char
  | [] => []
  | c :: cs => lowerBetween before c cs ++ lowerAfter (c :: before) cs

/-- The small form of a text. -/
def lower (cs : List Char) : List Char := lowerAfter [] cs

/-- A text with its first character in capital form. -/
def capitalize : List Char → List Char
  | [] => []
  | c :: cs => upperChar c ++ cs

end QueryStubs.Text
