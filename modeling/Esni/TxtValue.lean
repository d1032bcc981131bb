import Esni.Blank

/-!
# Values of TXT records

A DNS tool prints the value of a TXT record as quoted strings with blanks between them. What it
stands for is the strings one after the other. Quotes are not looked at in pairs: the text is cut
at each of them, and each part loses the blanks at its ends.

## Main definitions

- `txtValue?` — the value that a text stands for, if there is any
-/

namespace Esni

/-- The parts between the quotes, without the blanks at their ends, one after the other. -/
def unquoted (text : List Char) : List Char :=
  (text.splitOn '"').flatMap trim

/-- The value that a text stands for, if it is not empty. -/
def txtValue? (text : String) : Option String :=
  let value := unquoted text.toList
  if value = [] then none else some (String.ofList value)

end Esni
