/-!
# Styles of terminal text

A style is switched on by a sequence of the escape character, an opening bracket, the digits of a code and the letter m. The code 0
switches every style off.
-/

namespace QueryStubs.Text

/-- The sequence of a code. -/
def style (code : String) : String := "\x1b[" ++ code ++ "m"

end QueryStubs.Text
