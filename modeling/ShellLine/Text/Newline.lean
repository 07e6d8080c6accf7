/-!
# Line breaks

A carriage return, alone or with the newline after it, is folded into one newline.
-/

namespace ShellLine.Text

def foldBreaks : List Char → List Char
  | [] => []
  | '\r' :: '\n' :: rest => '\n' :: foldBreaks rest
  | c :: rest => (if c = '\r' then '\n' else c) :: foldBreaks rest

def foldNewlines (text : String) : String :=
  String.ofList (foldBreaks text.toList)

end ShellLine.Text
