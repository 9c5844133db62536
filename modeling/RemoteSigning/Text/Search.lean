/-!
# Searching text
-/

namespace RemoteSigning.Text

/-- Whether characters occur in a row in others. -/
def occurs (part : List Char) : List Char → Bool
  | [] => part.isEmpty
  | c :: cs => part.isPrefixOf (c :: cs) || occurs part cs

end RemoteSigning.Text
