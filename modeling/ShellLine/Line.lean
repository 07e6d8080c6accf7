import ShellLine.Builtin
import ShellLine.Run

/-!
# Carrying out one line

A line with an open quote is reported and has status 2; one without tokens keeps the last status. A
builtin is carried out by the session unless the line needs a shell. Everything else is executed,
and what it wrote is passed on.
-/

namespace ShellLine

namespace Line

def openQuoteStatus : Int := 2

def builtin? (c : Command) : Option Builtin :=
  if c.needsShell then none else Builtin.ofName? c.program

def execute (text : String) : Action Int := do
  match Command.ofLine (← get).profile text with
  | .error quote =>
    Action.printError ("syntax error: " ++ quote.message ++ "\n")
    return openQuoteStatus
  | .ok command =>
    if command.tokens = [] then return (← get).lastStatus
    else match builtin? command with
      | some builtin => builtin.run command.args
      | none =>
        let result ← Run.execute {} command
        Action.printResult result
        return result.status

/-- Carries out a line and remembers its status. -/
def enter (text : String) : Action Unit := do
  let status ← execute text
  modify fun s => { s with lastStatus := status }

end Line

end ShellLine
