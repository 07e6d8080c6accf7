import ShellLine.Display
import ShellLine.Text.Quoted
import ShellLine.Tokens

/-!
# Commands

A command is a program with its arguments, the text it was read from, and whether that text has to
go to a shell. `emptyProgram` tells a first token that is empty from no token at all: without it a
command of an empty program and no arguments has no tokens.
-/

namespace ShellLine

structure Command where
  program : String := ""
  args : List String := []
  needsShell : Bool := false
  text : String := ""
  emptyProgram : Bool := false
deriving DecidableEq, Repr

namespace Command

def tokens (c : Command) : List String :=
  if c.program = "" ∧ c.args = [] ∧ c.emptyProgram = false then [] else c.program :: c.args

def ofTokens (text : String) (t : Tokens) : Command :=
  match t.words with
  | [] => { text }
  | program :: args =>
    { program, args, needsShell := t.needsShell, text, emptyProgram := program = "" }

def ofLine (p : Profile) (text : String) : Except OpenQuote Command :=
  (Tokens.ofLine p text).map (ofTokens text)

/-- A command from words that were split elsewhere; its text is how `p` would write them. -/
def ofWords (p : Profile) (program : String) (args : List String) : Command :=
  { program, args, text := Display.line p program args }

/-- The same command with the parts that are given put in place of its own. -/
def replacing (c : Command) (text program : Option String) (args : Option (List String)) :
    Command where
  program := program.getD c.program
  args := args.getD c.args
  needsShell := c.needsShell
  text := text.getD c.text
  emptyProgram := program.isNone && c.emptyProgram

/-- Commands are the same when their tokens, their text and their need of a shell are. -/
def same (c d : Command) : Bool :=
  c.tokens == d.tokens && c.needsShell == d.needsShell && c.text == d.text

def display (p : Profile) (c : Command) : String :=
  Display.line p c.program c.args

def quoted (c : Command) : String :=
  "ParsedCommand(program=" ++ Text.quoted c.program ++ ", args=" ++ Text.quotedList c.args ++
    ", requires_shell=" ++ (if c.needsShell then "True" else "False") ++ ")"

end Command

end ShellLine
