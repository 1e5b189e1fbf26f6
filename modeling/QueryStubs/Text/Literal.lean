/-!
# The text of a string literal

Between the marks of a string literal a doubled mark stands for one. `collapse` reads such a text from left to right; a mark that
stands alone stays as it is.
-/

namespace QueryStubs.Text

/-- The text that a literal's body stands for, when `q` is its mark. -/
def collapse (q : Char) : List Char → List Char
  | [] => []
  | [c] => [c]
  | c :: d :: cs => if c = q ∧ d = q then q :: collapse q cs else c :: collapse q (d :: cs)

end QueryStubs.Text
