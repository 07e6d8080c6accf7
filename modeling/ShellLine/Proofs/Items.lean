import ShellLine.Proofs.ProfileRoles
import ShellLine.Tokens

/-!
# The items of a line

A line is a row of items: room between words, line breaks, comments, runs of one operator, quoted
regions, and words. `read` takes one whole item off the front of a text. Nothing is remembered from
one item to the next. Inside a word only the character before a parenthesis matters, and a word ends
with the first region in it.
-/

namespace ShellLine

/-- A quote that nothing closes, with the text from it on. -/
structure Unclosed where
  quote : Quote
  text : List Char
deriving DecidableEq, Repr

structure Word where
  text : List Char := []
  flagged : Bool := false
  rest : List Char
deriving DecidableEq, Repr

/-- What an item adds to the tokens, whether it leaves the line to a shell, and what follows it. -/
structure Item where
  token : Option (List Char) := none
  flagged : Bool := false
  rest : List Char
deriving DecidableEq, Repr

namespace Unclosed

variable {α β : Type} {rest : α → List Char} {rest' : β → List Char}

/-- What an attempt to read leaves of the text. -/
def left (rest : α → List Char) : Except Unclosed α → List Char
  | .ok a => rest a
  | .error e => e.text

theorem left_map {f : α → β} (h : ∀ a, rest' (f a) = rest a) (r : Except Unclosed α) :
    left rest' (r.map f) = left rest r := by
  cases r with
  | error => rfl
  | ok a => exact h a

end Unclosed

namespace Word

def prepend (text : List Char) (flagged : Bool) (w : Word) : Word :=
  { w with text := text ++ w.text, flagged := flagged || w.flagged }

def item (w : Word) : Item :=
  { token := some w.text, flagged := w.flagged, rest := w.rest }

end Word

namespace Item

variable (p : Profile)

/-- What is left of a character behind an escape: a line goes on behind an escaped newline. -/
def escaped (c : Char) : List Char :=
  if c = '\n' then [] else [c]

/-- What the quotes enclose, read from behind the opening one, and what follows the closing one. -/
def region (q : Quote) : List Char → Option (List Char × List Char)
  | [] => none
  | c :: rest =>
    if p.escapesIn q c then
      match rest with
      | [] => none
      | d :: rest => (region q rest).map fun r => (escaped d ++ r.1, r.2)
    else if c = q.char then some ([], rest)
    else (region q rest).map fun r => (c :: r.1, r.2)

/-- The rest of a word behind the character `previous` of it. -/
def word (previous : Char) : List Char → Except Unclosed Word
  | [] => .ok { rest := [] }
  | c :: rest =>
    match p.role c with
    | .escape =>
      match rest with
      | [] => .ok { rest := [] }
      | d :: rest => (word d rest).map (.prepend (escaped d) false)
    | .comment => (word c rest).map (.prepend [c] false)
    | .quote q =>
      match region p q rest with
      | none => .error ⟨q, c :: rest⟩
      | some (inner, rest) => .ok { text := c :: inner ++ [c], rest }
    | .operator =>
      if isParen c && isCallMark previous then
        (word c rest).map (.prepend [c] (p.shellOnly.contains c))
      else .ok { rest := c :: rest }
    | .newline | .blank => .ok { rest }
    | .plain => (word c rest).map (.prepend [c] (p.shellOnly.contains c))

/-- The item at the front of the text `c :: rest`. -/
def read (c : Char) (rest : List Char) : Except Unclosed Item :=
  match p.role c with
  | .escape =>
    match rest with
    | [] => .ok { rest := [] }
    | d :: rest =>
      if d = '\n' then .ok { rest }
      else (word p d rest).map fun w => (w.prepend [d] false).item
  | .comment => .ok { rest := rest.dropWhile (· ≠ '\n') }
  | .quote q =>
    match region p q rest with
    | none => .error ⟨q, c :: rest⟩
    | some (inner, rest) => .ok { token := some inner, rest }
  | .operator =>
    .ok {
      token := some (c :: rest.takeWhile (· = c)), flagged := true
      rest := rest.dropWhile (· = c) }
  | .newline => .ok { flagged := true, rest }
  | .blank => .ok { rest }
  | .plain => (word p c rest).map fun w => (w.prepend [c] (p.shellOnly.contains c)).item

variable {p}

section Roles

variable {c : Char} {q : Quote}

theorem region_pair (hc : p.escapesIn q c = true) (d : Char) (rest : List Char) :
    region p q (c :: d :: rest) =
      (region p q rest).map fun r => (escaped d ++ r.1, r.2) := by
  rw [region.eq_def]
  simp only [hc, if_true]

theorem region_close (hc : p.escapesIn q q.char = false) (rest : List Char) :
    region p q (q.char :: rest) = some ([], rest) := by
  rw [region.eq_def]
  simp only [hc, Bool.false_eq_true, if_false, if_true]

theorem region_plain (hc : p.escapesIn q c = false) (hq : c ≠ q.char) (rest : List Char) :
    region p q (c :: rest) = (region p q rest).map fun r => (c :: r.1, r.2) := by
  rw [region.eq_def]
  simp only [hc, Bool.false_eq_true, if_false, hq]

theorem word_pair (previous d : Char) (rest : List Char) :
    word p previous (p.escape :: d :: rest) =
      (word p d rest).map (.prepend (escaped d) false) := by
  simp [word, Profile.role]

theorem word_comment (hc : p.role c = .comment) (previous : Char) (rest : List Char) :
    word p previous (c :: rest) = (word p c rest).map (.prepend [c] false) := by
  rw [word.eq_def]
  simp only [hc]

theorem word_operator (hc : p.role c = .operator) (previous : Char) (rest : List Char) :
    word p previous (c :: rest) =
      if isParen c && isCallMark previous then
        (word p c rest).map (.prepend [c] (p.shellOnly.contains c))
      else .ok { rest := c :: rest } := by
  rw [word.eq_def]
  simp only [hc]

theorem word_separator (hc : p.role c = .newline ∨ p.role c = .blank) (previous : Char)
    (rest : List Char) : word p previous (c :: rest) = .ok { rest } := by
  rw [word.eq_def]
  rcases hc with hc | hc <;> simp only [hc]

theorem word_plain (hc : p.role c = .plain) (previous : Char) (rest : List Char) :
    word p previous (c :: rest) =
      (word p c rest).map (.prepend [c] (p.shellOnly.contains c)) := by
  rw [word.eq_def]
  simp only [hc]

theorem read_pair {d : Char} (hd : d ≠ '\n') (rest : List Char) :
    read p p.escape (d :: rest) = (word p d rest).map fun w => (w.prepend [d] false).item := by
  simp [read, Profile.role, hd]

theorem read_comment (hc : p.role c = .comment) (rest : List Char) :
    read p c rest = .ok { rest := rest.dropWhile (· ≠ '\n') } := by
  rw [read.eq_def]
  simp only [hc]

theorem read_quote (hc : p.role c = .quote q) {rest inner rest' : List Char}
    (hr : region p q rest = some (inner, rest')) :
    read p c rest = .ok { token := some inner, rest := rest' } := by
  rw [read.eq_def]
  simp only [hc, hr]

theorem read_operator (hc : p.role c = .operator) (rest : List Char) :
    read p c rest = .ok {
      token := some (c :: rest.takeWhile (· = c)), flagged := true
      rest := rest.dropWhile (· = c) } := by
  rw [read.eq_def]
  simp only [hc]

theorem read_newline (hc : p.role c = .newline) (rest : List Char) :
    read p c rest = .ok { flagged := true, rest } := by
  rw [read.eq_def]
  simp only [hc]

theorem read_blank (hc : p.role c = .blank) (rest : List Char) : read p c rest = .ok { rest } := by
  rw [read.eq_def]
  simp only [hc]

theorem read_plain (hc : p.role c = .plain) (rest : List Char) :
    read p c rest =
      (word p c rest).map fun w => (w.prepend [c] (p.shellOnly.contains c)).item := by
  rw [read.eq_def]
  simp only [hc]

end Roles

end Item

end ShellLine
