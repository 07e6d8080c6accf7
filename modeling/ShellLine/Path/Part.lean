/-!
# The last part of a path

The last part of a path is what follows its last separator, and a part's extension begins at its
last dot, unless only dots come before that. Cutting loses nothing: the two pieces are the path.
-/

namespace ShellLine.Path

variable (isSep : Char → Bool)

def lastPart (path : List Char) : List Char :=
  (path.reverse.takeWhile fun c => !isSep c).reverse

/-- All before the last part, the separator included. -/
def leading (path : List Char) : List Char :=
  (path.reverse.dropWhile fun c => !isSep c).reverse

theorem leading_append_lastPart (path : List Char) :
    leading isSep path ++ lastPart isSep path = path := by
  rw [leading, lastPart, ← List.reverse_append, List.takeWhile_append_dropWhile,
    List.reverse_reverse]

/-- The stem and the extension; the extension starts with its dot and may be empty. -/
def splitExtension (path : List Char) : List Char × List Char :=
  let part := lastPart isSep path
  let dots := part.takeWhile (· == '.')
  let body := part.dropWhile (· == '.')
  if body.contains '.' then
    let ext := '.' :: lastPart (· == '.') body
    (leading isSep path ++ dots ++ body.take (body.length - ext.length), ext)
  else (path, [])

end ShellLine.Path
