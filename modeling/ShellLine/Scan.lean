import ShellLine.Profile

/-!
# Scanning a line character by character

A scan holds the finished tokens, the token in the buffer, and what the next character depends on:
an open comment, a run of one operator, a pending escape, an open quote. These take precedence in
that order. A quote opened where no token has begun makes a token of its own and is dropped; one
opened inside a word stays in it. One step feeds one character, may look at the one after it, and
tells whether the character went into the token text, whether a token was completed, and whether the
line now needs a shell.
-/

namespace ShellLine

inductive Quote where
  | single
  | double
deriving DecidableEq, Repr

namespace Quote

def char : Quote → Char
  | single => '\''
  | double => '"'

def ofChar? (c : Char) : Option Quote :=
  if c = '\'' then some single else if c = '"' then some double else none

def name : Quote → String
  | single => "single"
  | double => "double"

theorem ofChar?_eq_some {c : Char} {q : Quote} : ofChar? c = some q ↔ c = q.char := by
  cases q <;> simp only [ofChar?, char] <;> split <;> simp_all

end Quote

def operators : List Char :=
  ['&', '>', '<', '|', '[', ']', '(', ')']

def isOperator (c : Char) : Bool :=
  operators.contains c

def isParen (c : Char) : Bool :=
  c == '(' || c == ')'

/-- A parenthesis directly after one of these belongs to the word. -/
def isCallMark (c : Char) : Bool :=
  c == '@' || c == '$'

def isSeparator (c : Char) : Bool :=
  c == ' ' || c == '\t' || c == '\n'

structure Scan where
  buffer : List Char := []
  tokens : List (List Char) := []
  /-- The buffer holds a token, although text between quotes alone does not begin one. -/
  hasToken : Bool := false
  escaped : Bool := false
  quote : Option Quote := none
  /-- The open quote stands inside a word. -/
  embedded : Bool := false
  quoteStart : Option Nat := none
  inComment : Bool := false
  /-- The operator whose run goes on with the next character. -/
  operator : Option Char := none
  needsShell : Bool := false
  previous : Option Char := none
  position : Nat := 0
deriving DecidableEq, Repr

/-- A scan after one character, and what the character did. -/
structure Step where
  scan : Scan
  consumed : Bool := false
  flushed : Bool := false
  flagged : Bool := false
deriving DecidableEq, Repr

namespace Step

def keep (c : Char) (t : Step) : Step :=
  { t with scan.buffer := t.scan.buffer ++ [c], consumed := true }

def append (c : Char) (t : Step) : Step :=
  { t.keep c with scan.hasToken := true }

def flush (t : Step) : Step :=
  { t with
    scan.tokens := t.scan.tokens ++ [t.scan.buffer]
    scan.buffer := []
    scan.hasToken := false
    flushed := true }

def flag (t : Step) : Step :=
  { t with flagged := true }

end Step

namespace Scan

def pending (s : Scan) : Step :=
  if s.hasToken then Step.flush { scan := s } else { scan := s }

def readRun (s : Scan) (operator c : Char) (peek : Option Char) : Step :=
  let t := Step.append c { scan := s }
  if peek = some operator then t else Step.flush { t with scan.operator := none }

def readEscaped (s : Scan) (c : Char) : Step :=
  let s := { s with escaped := false }
  if c = '\n' then { scan := s } else Step.append c { scan := s }

def readEscape (s : Scan) (c : Char) : Step :=
  if s.quote = some .single then Step.append c { scan := s }
  else { scan := { s with escaped := true } }

def readComment (s : Scan) (c : Char) : Step :=
  if s.hasToken then Step.append c { scan := s } else { scan := { s with inComment := true } }

/-- The closing quote of an embedded region is kept, but is not counted as consumed. -/
def closeQuote (s : Scan) (c : Char) : Step :=
  let buffer := if s.embedded then s.buffer ++ [c] else s.buffer
  Step.flush { scan := { s with buffer, embedded := false, quote := none, quoteStart := none } }

def openQuote (s : Scan) (q : Quote) (c : Char) : Step :=
  let t : Step :=
    if s.hasToken then Step.append c { scan := { s with embedded := true } } else { scan := s }
  { t with scan.quote := some q, scan.quoteStart := some s.position }

def readQuote (s : Scan) (q : Quote) (c : Char) : Step :=
  match s.quote with
  | none => s.openQuote q c
  | some opened => if opened = q then s.closeQuote c else Step.keep c { scan := s }

def readOperator (s : Scan) (c : Char) (peek : Option Char) : Step :=
  let t := s.pending.flag.append c
  if peek = some c then { t with scan.operator := some c } else t.flush

def readSeparator (s : Scan) (c : Char) : Step :=
  if s.hasToken then s.pending else { scan := s, flagged := c = '\n' }

def readPlain (s : Scan) (p : Profile) (c : Char) (peek : Option Char) : Step :=
  if isOperator c && !(isParen c && s.previous.any isCallMark) then s.readOperator c peek
  else if isSeparator c then s.readSeparator c
  else Step.append c { scan := s, flagged := p.shellOnly.contains c }

/-- Reads a character that no comment swallows. -/
def read (s : Scan) (p : Profile) (c : Char) (peek : Option Char) : Step :=
  match s.operator with
  | some operator => s.readRun operator c peek
  | none =>
    if s.escaped then s.readEscaped c
    else if c = p.escape then s.readEscape c
    else if s.quote.isSome && (Quote.ofChar? c).isNone then Step.keep c { scan := s }
    else if p.comment = some c then s.readComment c
    else match Quote.ofChar? c with
      | some q => s.readQuote q c
      | none => s.readPlain p c peek

/-- Feeds one character; `peek` is the one after it. A comment ends before its newline. -/
def step (s : Scan) (p : Profile) (c : Char) (peek : Option Char) : Step :=
  let t := if s.inComment && c != '\n' then { scan := s }
    else { s with inComment := false }.read p c peek
  { t with
    scan.needsShell := t.scan.needsShell || t.flagged
    scan.previous := some c
    scan.position := t.scan.position + 1 }

def run (p : Profile) : Scan → List Char → Scan
  | s, [] => s
  | s, c :: rest => run p (s.step p c rest.head?).scan rest

/-- The tokens when nothing follows. -/
def finish (s : Scan) : List (List Char) :=
  if s.hasToken then s.tokens ++ [s.buffer] else s.tokens

end Scan

end ShellLine
