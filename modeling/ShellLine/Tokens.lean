import ShellLine.Scan
import ShellLine.Text.Blank

/-!
# The tokens of a line

A line is scanned from its first character that is not a blank; blanks at its end stay, since the
last one may be escaped. A line that ends inside quotes has no tokens, and the report names the kind
and the place of the quote that is open. A line without tokens never needs a shell.
-/

namespace ShellLine

structure OpenQuote where
  kind : Quote
  position : Nat
deriving DecidableEq, Repr

def OpenQuote.message (e : OpenQuote) : String :=
  "Unmatched " ++ e.kind.name ++ " quote at position " ++ toString e.position

structure Tokens where
  words : List String
  needsShell : Bool
deriving DecidableEq, Repr

namespace Tokens

def ofChars (p : Profile) (line : List Char) : Except OpenQuote Tokens :=
  let text := line.dropWhile Text.isBlank
  let s := Scan.run p {} text
  match s.quote with
  | some kind => .error ⟨kind, s.quoteStart.getD 0 + (line.length - text.length)⟩
  | none => .ok ⟨s.finish.map String.ofList, s.needsShell && !s.finish.isEmpty⟩

def ofLine (p : Profile) (line : String) : Except OpenQuote Tokens :=
  ofChars p line.toList

end Tokens

end ShellLine
