/-!
# Tokens

A token is a kind and the very text it was cut from, so a list of tokens still holds the whole source: put end to end, the
texts are the source again. Where a token stands is not part of it and is computed from what comes before.

Keywords are not reserved: a keyword is a name whose text the grammar asks for, and only a name that the grammar has taken as a
keyword bears the kind `keyword`. Blanks, line ends and comments are tokens too and are called trivia.
-/

namespace QueryStubs

/-- The two quotation marks that a string literal can be written in. -/
inductive Quote where
  | double | single
  deriving DecidableEq, Repr

/-- The character of a quotation mark. -/
def Quote.char : Quote → Char
  | .double => '\x22'
  | .single => '\x27'

/-- What a token is. -/
inductive TokenKind where
  | parenOpen | parenClose | braceOpen | braceClose | bracketOpen | bracketClose
  | comma | semicolon | colonEquals | colon | equals | dollar | question | star | plus
  | doubleQuote | singleQuote | literalText
  | keyword | name | number
  | blank | newline | comment
  | garbage
  deriving DecidableEq, Repr

namespace TokenKind

/-- The name a kind is listed under. -/
def label : TokenKind → String
  | parenOpen => "ParenOpen"
  | parenClose => "ParenClose"
  | braceOpen => "BraceOpen"
  | braceClose => "BraceClose"
  | bracketOpen => "BracketOpen"
  | bracketClose => "BracketClose"
  | comma => "Comma"
  | semicolon => "Semicolon"
  | colonEquals => "ColonEquals"
  | colon => "Colon"
  | equals => "Equals"
  | dollar => "Dollar"
  | question => "Question"
  | star => "Star"
  | plus => "Plus"
  | doubleQuote => "DoubleQuote"
  | singleQuote => "SingleQuote"
  | literalText => "StrVal"
  | keyword => "Keyword"
  | name => "Name"
  | number => "Number"
  | blank => "Whitespace"
  | newline => "Newline"
  | comment => "Comment"
  | garbage => "Garbage"

/-- Blanks, line ends and comments carry no meaning of their own. -/
def isTrivia : TokenKind → Bool
  | blank | newline | comment => true
  | _ => false

/-- The kinds that open a bracket. -/
def isOpening : TokenKind → Bool
  | parenOpen | braceOpen | bracketOpen => true
  | _ => false

/-- The kinds that close a bracket. -/
def isClosing : TokenKind → Bool
  | parenClose | braceClose | bracketClose => true
  | _ => false

/-- The three marks that can follow an item type. -/
def isOccurrence : TokenKind → Bool
  | question | star | plus => true
  | _ => false

/-- The two kinds that begin and end a string literal. -/
def isQuote : TokenKind → Bool
  | doubleQuote | singleQuote => true
  | _ => false

end TokenKind

/-- The kind of the token a quotation mark makes. -/
def Quote.kind : Quote → TokenKind
  | .double => .doubleQuote
  | .single => .singleQuote

/-- A kind and the text it was cut from. -/
structure Token where
  kind : TokenKind
  text : String
  deriving DecidableEq, Repr

namespace Token

/-- Whether the token is a blank, a line end or a comment. -/
def isTrivia (t : Token) : Bool := t.kind.isTrivia

/-- The length of the token in bytes. -/
def size (t : Token) : Nat := t.text.utf8ByteSize

/-- The token as the grammar records it once it was taken as a keyword. -/
def asKeyword (t : Token) : Token := { t with kind := .keyword }

/-- Whether the token is a name spelled `word`. -/
def isWord (word : String) (t : Token) : Bool := t.kind = .name && t.text = word

/-- The text of a list of tokens, put end to end. -/
def textOf (ts : List Token) : String := String.join (ts.map text)

/-- The length in bytes of a list of tokens. -/
def sizeOf : List Token → Nat
  | [] => 0
  | t :: ts => t.size + sizeOf ts

/-- Taking a token as a keyword leaves its text alone. -/
@[simp] theorem text_asKeyword (t : Token) : t.asKeyword.text = t.text := rfl

/-- Taking a token as a keyword leaves its length alone. -/
@[simp] theorem size_asKeyword (t : Token) : t.asKeyword.size = t.size := rfl

@[simp] theorem sizeOf_nil : sizeOf [] = 0 := rfl

@[simp] theorem sizeOf_cons (t : Token) (ts : List Token) : sizeOf (t :: ts) = t.size + sizeOf ts := rfl

@[simp] theorem sizeOf_append (ts us : List Token) : sizeOf (ts ++ us) = sizeOf ts + sizeOf us := by
  induction ts with
  | nil => simp
  | cons t ts ih => rw [List.cons_append, sizeOf_cons, sizeOf_cons, ih, Nat.add_assoc]

@[simp] theorem textOf_nil : textOf [] = "" := rfl

@[simp] theorem textOf_cons (t : Token) (ts : List Token) : textOf (t :: ts) = t.text ++ textOf ts := by
  rw [textOf, List.map_cons, String.join_cons]
  rfl

@[simp] theorem textOf_append (ts us : List Token) : textOf (ts ++ us) = textOf ts ++ textOf us := by
  induction ts with
  | nil => simp
  | cons t ts ih => rw [List.cons_append, textOf_cons, textOf_cons, ih, String.append_assoc]

end Token

end QueryStubs
