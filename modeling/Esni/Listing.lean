/-!
# Listings

Every list that is shown to a reader has the form `[a, b, c]`.

## Main definitions

- `listing` — the texts of the elements between brackets, with a comma and a blank between them
-/

namespace Esni

/-- The given texts between brackets, with a comma and a blank between two of them. -/
def listing (items : List String) : String :=
  "[" ++ ", ".intercalate items ++ "]"

end Esni
