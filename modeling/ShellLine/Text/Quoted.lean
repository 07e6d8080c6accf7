import ShellLine.Text.Printable

/-!
# Quoted text

A text is shown between single quotes, or between double quotes when it holds single quotes and no
double one. The quote in use and the backslash stand behind a backslash, line breaks and tabs have
letters of their own, and every other character that does not show is written by its code point in
lower-case hexadecimal of the shortest of three widths.
-/

namespace ShellLine.Text

namespace Quoted

def hexDigit (n : Nat) : Char :=
  ("0123456789abcdef".toList)[n]?.getD '0'

/-- The lowest `width` hexadecimal digits of `n`, the highest first. -/
def hex : Nat → Nat → List Char
  | 0, _ => []
  | width + 1, n => hex width (n / 16) ++ [hexDigit (n % 16)]

def codePoint (c : Char) : List Char :=
  let n := c.toNat
  if n < 0x100 then '\\' :: 'x' :: hex 2 n
  else if n < 0x10000 then '\\' :: 'u' :: hex 4 n
  else '\\' :: 'U' :: hex 8 n

def char (quote c : Char) : List Char :=
  if c = quote ∨ c = '\\' then ['\\', c]
  else match c with
    | '\n' => ['\\', 'n']
    | '\r' => ['\\', 'r']
    | '\t' => ['\\', 't']
    | c => if isPrintable c then [c] else codePoint c

def delimiter (cs : List Char) : Char :=
  if cs.contains '\'' && !cs.contains '"' then '"' else '\''

end Quoted

def quoted (text : String) : String :=
  let cs := text.toList
  let quote := Quoted.delimiter cs
  String.ofList (quote :: cs.flatMap (Quoted.char quote) ++ [quote])

def quotedList (texts : List String) : String :=
  "[" ++ ", ".intercalate (texts.map quoted) ++ "]"

end ShellLine.Text
