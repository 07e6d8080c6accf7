import ShellLine.CurrentShell
import ShellLine.Lookup
import ShellLine.Text.Numeral

/-!
# Builtin commands

The commands that a session carries out by itself: changing the folder, leaving, looking programs
up, showing and choosing the shell, and showing how a line was split.
-/

namespace ShellLine

inductive Builtin where
  | cd
  | exit
  | which
  | shell
  | split
deriving DecidableEq, Repr

namespace Builtin

def name : Builtin → String
  | cd => "cd"
  | exit => "exit"
  | which => "which"
  | shell => "shell"
  | split => "split"

def all : List Builtin :=
  [cd, exit, which, shell, split]

def ofName? (text : String) : Option Builtin :=
  all.find? (·.name = text)

theorem mem_all (b : Builtin) : b ∈ all := by
  cases b <;> decide

def runCd (args : List String) : Action Int := do
  let s ← get
  let target := args.headD ((s.environ.get? "HOME").getD "/")
  match s.host.enter target with
  | .ok host =>
    Action.changeHost fun _ => host
    return 0
  | .error .notFound =>
    Action.printError ("cd: no such file or directory: " ++ target ++ "\n")
    return 1
  | .error .notAFolder =>
    Action.printError ("cd: not a directory: " ++ target ++ "\n")
    return 1
  | .error fault => throw fault

def runExit (args : List String) : Action Int := do
  match args with
  | [] => throw (.exit 0)
  | arg :: _ =>
    match Text.int? arg with
    | some status => throw (.exit status)
    | none =>
      Action.printError "exit: numeric argument required\n"
      throw (.exit 2)

def runWhich : List String → Action Int
  | [] => return 0
  | name :: names => do
    let s ← get
    let path ← Search.which s.onWindows s.environ name
    if path = "" then
      Action.printError ("which: no " ++ name ++ " in PATH\n")
      let _ ← runWhich names
      return 1
    else
      Action.print (path ++ "\n")
      runWhich names

/-- No argument keeps the shell in use, `-r` alone goes back to the default, and any others spell
the shell to choose. -/
def chooseShell (args : List String) : Action Unit := do
  match args with
  | [] => return
  | ["-r"] => CurrentShell.reset
  | program :: rest =>
    CurrentShell.select (some (Display.line (← get).profile program rest)) false

def showShell : Action Unit := do
  let shell ← CurrentShell.fetch
  Action.print (shell.display (← get).profile ++ "\n")

def runShell (args : List String) : Action Int := do
  chooseShell args
  showShell
  return 0

def runSplit (args : List String) : Action Int := do
  args.forM fun arg => Action.print (arg ++ "\n")
  return 0

def run : Builtin → List String → Action Int
  | cd => runCd
  | exit => runExit
  | which => runWhich
  | shell => runShell
  | split => runSplit

end Builtin

end ShellLine
