import ShellLine.CurrentShell
import ShellLine.Script
import ShellLine.Text.Newline

/-!
# Running a command

A command is started directly, or its text is handed to the shell in use: as the last argument where
the shell is POSIX-like, in a script elsewhere. A command without work, that is one of blanks alone
for the shell or one of an empty program, starts nothing and has status 1. A program that is not
found has status 127; every other fault at the start goes on to the caller.

`execute` waits for the process and reads its output strictly, with line breaks folded.
`executeAside` lets others go on meanwhile; it takes the output as it is and marks what is no text.
Both leave no script behind.
-/

namespace ShellLine

/-- The status of a finished command and what it wrote. -/
structure Result where
  status : Int
  out : String := ""
  err : String := ""
deriving DecidableEq, Repr

namespace Action

/-- Passes on what a command wrote. -/
def printResult (r : Result) : Action Unit := do
  printSome print r.out
  printSome printError r.err

end Action

namespace Run

structure Settings where
  folder : Option String := none
  environ : Option Environment := none
  /-- Whether to use the shell; otherwise the command decides. -/
  inShell : Option Bool := none

def Settings.usesShell (o : Settings) (c : Command) : Bool :=
  o.inShell.getD c.needsShell

def hasWork (c : Command) (inShell : Bool) : Bool :=
  if inShell then !Text.isAllBlank c.text else c.program != ""

/-- Gives `use` the arguments to start the command with, and keeps a script for as long. -/
def withArgv {α : Type} (c : Command) (inShell : Bool) (use : List String → Action α) :
    Action α := do
  if inShell then
    let shell ← CurrentShell.fetch
    let argv := shell.program :: shell.args
    if (← get).onWindows then Script.during c.text fun path => use (argv ++ [path])
    else use (argv ++ [c.text])
  else use (c.program :: c.args)

/-- What a process leaves when it ends. -/
structure Ended where
  status : Int
  out : List UInt8 := []
  err : List UInt8 := []

def takeFate : Action Fate := do
  let fate := (← get).host.nextFate
  Action.changeHost (·.dropFate)
  return fate

/-- Starts a process and sees it to its end; `none` if its program is not found. -/
def start (o : Settings) (argv : List String) : Action (Option Ended) := do
  let script := (argv.getLast?).bind (← get).host.scriptContent?
  Action.record (.started ⟨argv, o.folder, o.environ, script⟩)
  match ← takeFate with
  | .exits status out err => return some ⟨status, out, err⟩
  | .fails .notFound => return none
  | .fails fault => throw fault

def notFoundStatus : Int := 127

def notFound (argv : List String) : Result where
  status := notFoundStatus
  err := argv.headD "" ++ ": command not found\n"

def readOutput (bytes : List UInt8) : Action String :=
  match Text.Utf8.strict? bytes with
  | some text => return Text.foldNewlines text
  | none => throw .undecodable

def execute (o : Settings) (c : Command) : Action Result := do
  let inShell := o.usesShell c
  if hasWork c inShell then
    withArgv c inShell fun argv => do
      Action.note (.running argv inShell false)
      match ← start o argv with
      | none => return notFound argv
      | some ended =>
        let out ← readOutput ended.out
        let err ← readOutput ended.err
        return ⟨ended.status, out, err⟩
  else return { status := 1 }

def executeAside (o : Settings) (c : Command) : Action Result := do
  let inShell := o.usesShell c
  if hasWork c inShell then
    withArgv c inShell fun argv => do
      Action.note (.running argv inShell true)
      match ← start o argv with
      | none => return notFound argv
      | some ended =>
        return ⟨ended.status, Text.Utf8.lossy ended.out, Text.Utf8.lossy ended.err⟩
  else return { status := 1 }

def readLine (text : String) : Action Command := do
  match Command.ofLine (← get).profile text with
  | .ok c => return c
  | .error quote => throw (.openQuote quote)

/-- Splits a text and executes it. -/
def line (o : Settings) (text : String) : Action Result := do
  execute o (← readLine text)

def lineAside (o : Settings) (text : String) : Action Result := do
  executeAside o (← readLine text)

end Run

end ShellLine
