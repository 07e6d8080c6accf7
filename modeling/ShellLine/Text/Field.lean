/-!
# Separated fields

A text cut at every occurrence of one character: there is always one field more than there are
separators, and fields may be empty.
-/

namespace ShellLine.Text

def split (sep : Char) : List Char → List (List Char)
  | [] => [[]]
  | c :: rest =>
    if c = sep then [] :: split sep rest
    else match split sep rest with
      | [] => [[c]]
      | field :: fields => (c :: field) :: fields

/-- The fields that are not empty, in their order. -/
def fields (sep : Char) (text : String) : List String :=
  ((split sep text.toList).filter (· ≠ [])).map String.ofList

end ShellLine.Text
