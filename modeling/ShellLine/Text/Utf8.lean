/-!
# Bytes as UTF-8

Bytes are read into pieces: a character, or a stretch that begins none. Such a stretch is as long as
the bytes could still have become a character, so a byte that cannot go on is read again as the
start of the next piece. Overlong forms, surrogates and values past the last code point are cut off
by the range of the second byte. `strict?` reads bytes that have no bad stretch, `lossy` reads all
bytes and marks each bad stretch by one replacement character.
-/

namespace ShellLine.Text.Utf8

/-- A character that has begun: how many bytes follow after the next one, the bits so far, and the
range of the next byte. -/
structure Begun where
  later : Nat
  bits : Nat
  low : Nat
  high : Nat

def begin? (b : Nat) : Option Begun :=
  if b < 0xC2 then none
  else if b < 0xE0 then some ⟨0, b - 0xC0, 0x80, 0xBF⟩
  else if b = 0xE0 then some ⟨1, 0, 0xA0, 0xBF⟩
  else if b = 0xED then some ⟨1, 0xD, 0x80, 0x9F⟩
  else if b < 0xF0 then some ⟨1, b - 0xE0, 0x80, 0xBF⟩
  else if b = 0xF0 then some ⟨2, 0, 0x90, 0xBF⟩
  else if b < 0xF4 then some ⟨2, b - 0xF0, 0x80, 0xBF⟩
  else if b = 0xF4 then some ⟨2, 4, 0x80, 0x8F⟩
  else none

/-- What one byte completes, and the character it leaves begun. -/
def start (b : Nat) : List (Option Char) × Option Begun :=
  if b < 0x80 then ([some (Char.ofNat b)], none)
  else match begin? b with
    | some begun => ([], some begun)
    | none => ([none], none)

def next : Option Begun → Nat → List (Option Char) × Option Begun
  | none, b => start b
  | some begun, b =>
    if begun.low ≤ b ∧ b ≤ begun.high then
      let bits := 64 * begun.bits + (b - 0x80)
      match begun.later with
      | 0 => ([some (Char.ofNat bits)], none)
      | later + 1 => ([], some ⟨later, bits, 0x80, 0xBF⟩)
    else
      let (pieces, left) := start b
      (none :: pieces, left)

def piecesFrom : Option Begun → List UInt8 → List (Option Char)
  | none, [] => []
  | some _, [] => [none]
  | begun, b :: rest =>
    let (pieces, left) := next begun b.toNat
    pieces ++ piecesFrom left rest

/-- `none` stands for a bad stretch. -/
def pieces (bytes : List UInt8) : List (Option Char) :=
  piecesFrom none bytes

def strict? (bytes : List UInt8) : Option String :=
  ((pieces bytes).mapM id).map String.ofList

def lossy (bytes : List UInt8) : String :=
  String.ofList ((pieces bytes).map (·.getD '\uFFFD'))

def encode (text : String) : List UInt8 :=
  text.toUTF8.toList

end ShellLine.Text.Utf8
