import ShellLine.CommandLine

/-!
# The program

The command line on a host that is looked at once, when the program starts: its variables, its
current folder and the entries of the folders on the search path. The input is read ahead, and only
if a loop will ask for it. This host starts no processes, so whatever would need one is refused.
-/

namespace ShellLine.Program

def variableNames : List String :=
  ["PATH", "PATHEXT", "HOME", "SHELL", "COMSPEC"]

def environ : IO Environment := do
  let mut found : Environment := {}
  for name in variableNames do
    if let some value ← IO.getEnv name then
      found := found.insert name value
  return found

def entries (folder : String) : IO (List String) := do
  try
    let listed ← (System.mkFilePath [folder]).readDir
    return listed.toList.map fun entry => Path.Slash.join folder entry.fileName
  catch _ => return []

def host : IO Host := do
  let environ ← environ
  let cwd := (← IO.currentDir).toString
  let folders := Text.fields ':' ((environ.get? "PATH").getD "")
  let mut files : List String := []
  for folder in folders do
    files := files ++ (← entries folder)
  return {
    environ, cwd, folders, laterFate := .fails .system
    files := files.map (Path.Slash.absolute cwd) }

def reads : IO (List Read) := do
  let input ← IO.getStdin
  let mut lines : Array Read := #[]
  repeat
    let line ← input.getLine
    if line.isEmpty then break
    lines := lines.push (.line (if line.endsWith "\n" then (line.dropEnd 1).toString else line))
  return lines.toList

def needsInput (args : List String) : Bool :=
  match Options.ofArgs args with
  | .ok o => o.words = []
  | .error _ => false

def faultText : Fault → String
  | .openQuote quote => quote.message
  | .exit _ => "left"
  | .endOfInput => "end of input"
  | .interrupt => "interrupted"
  | .notFound => "no such file or directory"
  | .notAFolder => "not a directory"
  | .denied => "permission denied"
  | .system => "no process can be started here"
  | .undecodable => "the output is no text"

/-- Shows what an event writes, on the output it writes to. -/
def present (verbose : Bool) (e : Event) : IO Unit := do
  IO.print (Journal.stdout [e])
  IO.eprint (Journal.stderr [e] verbose)

/-- The system keeps the lowest eight bits of a status. -/
def exitCode (status : Int) : UInt32 :=
  (status % 256).toNat.toUInt32

end ShellLine.Program

open ShellLine in
def main (args : List String) : IO UInt32 := do
  let input ← if Program.needsInput args then Program.reads else pure []
  let course := CommandLine.run (← Program.host) input args
  course.host.journal.forM (Program.present course.verbose)
  match course.ending with
  | .returned status | .quit status => return Program.exitCode status
  | .failed fault =>
    IO.eprintln ("shellcmd: " ++ Program.faultText fault)
    return 1
