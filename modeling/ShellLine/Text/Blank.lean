/-!
# Blanks

A blank is a character that only leaves room: the controls that move the print position, the
separators of a text's levels, and every space of Unicode. A line is read from its first character
that is not a blank, and a text of blanks alone asks for nothing.
-/

namespace ShellLine.Text

def isBlank (c : Char) : Bool :=
  let n := c.toNat
  (0x0009 ≤ n && n ≤ 0x000D) || (0x001C ≤ n && n ≤ 0x0020) || n == 0x0085 || n == 0x00A0 ||
    n == 0x1680 || (0x2000 ≤ n && n ≤ 0x200A) || n == 0x2028 || n == 0x2029 || n == 0x202F ||
    n == 0x205F || n == 0x3000

theorem isBlank_space : isBlank ' ' = true := rfl

theorem isBlank_tab : isBlank '\t' = true := rfl

theorem isBlank_newline : isBlank '\n' = true := rfl

def isAllBlank (text : String) : Bool :=
  text.toList.all isBlank

end ShellLine.Text
