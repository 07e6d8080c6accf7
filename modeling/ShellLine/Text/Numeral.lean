import ShellLine.Text.Blank
import ShellLine.Text.Digit

/-!
# Whole numbers as they are typed

A numeral is a run of decimal digits in which single underscores may stand between two digits, with
an optional sign directly before it and room on either side. The digits may be of any script and
may be mixed, and there are at most `maxDigits` of them, leading zeros included. The separators of
a text's levels are blanks but do not count as room here.
-/

namespace ShellLine.Text

namespace Numeral

def maxDigits : Nat := 4300

def isRoom (c : Char) : Bool :=
  isBlank c && !(0x001C ≤ c.toNat && c.toNat ≤ 0x001F)

def trim (cs : List Char) : List Char :=
  ((cs.dropWhile isRoom).reverse.dropWhile isRoom).reverse

/-- The values of the digits; an underscore is passed over only between two digits. -/
def digits? : List Char → Option (List Nat)
  | [] => none
  | [c] => (digit? c).map ([·])
  | c :: '_' :: rest => do
    let d ← digit? c
    return d :: (← digits? rest)
  | c :: rest => do
    let d ← digit? c
    return d :: (← digits? rest)

def ofDigits (ds : List Nat) : Nat :=
  ds.foldl (fun n d => 10 * n + d) 0

def unsigned? (cs : List Char) : Option Nat := do
  let ds ← digits? cs
  if ds.length ≤ maxDigits then some (ofDigits ds) else none

def signed? : List Char → Option Int
  | '+' :: rest => (unsigned? rest).map Int.ofNat
  | '-' :: rest => (unsigned? rest).map fun n => -Int.ofNat n
  | rest => (unsigned? rest).map Int.ofNat

end Numeral

/-- The value of a text that is a numeral. -/
def int? (text : String) : Option Int :=
  Numeral.signed? (Numeral.trim text.toList)

end ShellLine.Text
