import ShellLine.Loop
import ShellLine.Options

/-!
# The command line

The words after the switches, joined by spaces, are one line: it is split and shown, or it is run
once. Without words the interactive loop takes over.
-/

namespace ShellLine.CommandLine

def usage : String :=
  "usage: shellcmd [-h] [--windows | --posix] [--split] [--shell] [-v] ...\n"

def help : String :=
  usage ++ "\n" ++
  "Split a command line the way a shell would, and optionally run it\n\n" ++
  "positional arguments:\n" ++
  "  command        command line (starts an interactive shell when omitted)\n\n" ++
  "options:\n" ++
  "  -h, --help     show this help message and exit\n" ++
  "  --windows      use cmd.exe quoting rules\n" ++
  "  --posix        use POSIX shell quoting rules\n" ++
  "  --split        print the tokens instead of running the command\n" ++
  "  --shell        always run through the shell\n" ++
  "  -v, --verbose  log debug output\n"

def misuseStatus : Int := 2

inductive Ending where
  | returned (status : Int)
  /-- The program ended before it came to a command. -/
  | quit (status : Int)
  | failed (fault : Fault)
deriving DecidableEq, Repr

structure Course where
  ending : Ending
  verbose : Bool := false
  prompts : List String := []
  host : Host

/-- Shows the tokens of a line, one on each line, and whether it needs a shell. -/
def showSplit (text : String) : Action Int := do
  let command ← Run.readLine text
  command.tokens.forM fun token => Action.print (token ++ "\n")
  Action.print ("# requires shell: " ++ (if command.needsShell then "yes" else "no") ++ "\n")
  return 0

def runOnce (inShell : Option Bool) (text : String) : Action Int := do
  let result ← Run.line { inShell } text
  Action.printResult result
  return result.status

/-- Reports an open quote instead of stopping at it. -/
def reporting (body : Action Int) : Action Int := fun s =>
  match body s with
  | .error (.openQuote quote) t =>
    (do Action.printError ("shellcmd: " ++ quote.message ++ "\n")
        return Line.openQuoteStatus : Action Int) t
  | result => result

def carryOut (o : Options) : Action Int :=
  let text := " ".intercalate o.words
  reporting <|
    if o.split then showSplit text else runOnce (if o.inShell then some true else none) text

def session (o : Options) (host : Host) : Session :=
  Session.start (some (.stock (o.onWindows.getD host.onWindows))) none
    (host.record (.note .profileChosen))

def runOptions (o : Options) (host : Host) (reads : List Read) : Course :=
  let s := session o host
  if o.words = [] then
    let course := Loop.run s reads
    { ending := match course.result with
        | .ok status => .returned status
        | .error fault => .failed fault
      verbose := o.verbose
      prompts := course.visits.map (·.prompt)
      host := course.session.host }
  else
    match carryOut o s with
    | .ok status t => { ending := .returned status, verbose := o.verbose, host := t.host }
    | .error fault t => { ending := .failed fault, verbose := o.verbose, host := t.host }

def run (host : Host) (reads : List Read) (args : List String) : Course :=
  match Options.ofArgs args with
  | .ok o => runOptions o host reads
  | .error .help => { ending := .quit 0, host := host.record (.out help) }
  | .error (.misuse misuse) =>
    { ending := .quit misuseStatus
      host := host.record (.err (usage ++ "shellcmd: error: " ++ misuse.message ++ "\n")) }

end ShellLine.CommandLine
