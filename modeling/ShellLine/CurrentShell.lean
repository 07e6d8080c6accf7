import ShellLine.Session

/-!
# The shell in use

A session has no shell until one is needed or chosen. The default is read from the environment at
that moment and then kept, whatever the environment becomes. A chosen shell is split like any other
line; an open quote in it leaves the one in use alone.
-/

namespace ShellLine

namespace Session

/-- The shell the environment names, or the stock one. Its text is written with the default profile
of the host. -/
def defaultShell (s : Session) : Command :=
  if s.onWindows then
    .ofWords s.host.defaultProfile ((s.environ.nonempty? "COMSPEC").getD "cmd.exe") ["/c"]
  else
    .ofWords s.host.defaultProfile ((s.environ.nonempty? "SHELL").getD "sh") ["-c"]

end Session

namespace CurrentShell

def useDefault : Action Unit :=
  modify fun s => { s with shell := s.defaultShell }

/-- A session that has no shell takes the default. -/
def ensure : Action Unit := do
  if (← get).shell.program = "" then
    useDefault
    Action.note (.defaultShell (← get).shell.program)

def fetch : Action Command := do
  ensure
  return (← get).shell

def choose (text : String) : Action Unit := do
  match Command.ofLine (← get).profile text with
  | .error quote => throw (.openQuote quote)
  | .ok command =>
    modify fun s => { s with shell := { command with needsShell := false } }
    Action.note (.shellSet command.program command.args)

/-- Chooses a shell by its text; without one, takes the default if forced or if none is in use. -/
def select (text : Option String) (force : Bool) : Action Unit := do
  let chosen := text.getD ""
  if chosen ≠ "" then choose chosen
  else if force ∨ (← get).shell.program = "" then useDefault

def reset : Action Unit :=
  select none true

def clear : Action Unit :=
  modify fun s => { s with shell := {} }

end CurrentShell

end ShellLine
