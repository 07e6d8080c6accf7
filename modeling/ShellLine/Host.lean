import ShellLine.Environment
import ShellLine.Fault
import ShellLine.Note
import ShellLine.Path.Slash

/-!
# The host

The host is all that a session acts on: variables, the current folder, files, the processes that
will be started and what becomes of them, and the scripts that exist for a while. Whatever happens
is entered in a journal, in the order of the events; the two outputs and the started processes are
views of it.

Files and folders are known by the normal form of their path, and a path is a file if its normal
form is one. What lies on the way is not asked: a path that passes through a file, such as one that
ends in a file and a dot, counts as the file it comes to.
-/

namespace ShellLine

/-- What becomes of a process when it is started. -/
inductive Fate where
  | exits (status : Int) (out err : List UInt8)
  | fails (fault : Fault)
deriving DecidableEq, Repr

/-- A process as it was started, with the content of the script its last argument names. -/
structure Launch where
  argv : List String
  folder : Option String
  environ : Option Environment
  script : Option (List UInt8)
deriving DecidableEq, Repr

inductive Event where
  | out (text : String)
  | err (text : String)
  | note (note : Note)
  | started (launch : Launch)
  | scriptMade (path : String)
  | folderRemoved (folder : String)
deriving DecidableEq, Repr

structure Script where
  path : String
  content : List UInt8
deriving DecidableEq, Repr

structure Host where
  environ : Environment := {}
  cwd : String := "/"
  folders : List String := []
  files : List String := []
  deniedFolders : List String := []
  onWindows : Bool := false
  /-- The profile where none is chosen. -/
  defaultProfile : Profile := .posix
  /-- What becomes of the next processes, in order. -/
  fates : List Fate := []
  /-- What becomes of all that are started after those. -/
  laterFate : Fate := .exits 0 [] []
  /-- Why no folder can be removed, if so. -/
  removal : Option Fault := none
  /-- The fresh folder for the next script. -/
  scratch : String := "/tmp/shell_cmd"
  scripts : List Script := []
  journal : List Event := []
deriving DecidableEq, Repr

namespace Journal

variable (events : List Event)

def stdout : String :=
  String.join (events.filterMap fun
    | .out text => some text
    | _ => none)

/-- Notes below a warning show up only in a verbose run. -/
def stderr (verbose : Bool) : String :=
  String.join (events.filterMap fun
    | .err text => some text
    | .note n => if verbose || n.isWarning then some (n.line ++ "\n") else none
    | _ => none)

def launches : List Launch :=
  events.filterMap fun
    | .started launch => some launch
    | _ => none

def warnings : List String :=
  events.filterMap fun
    | .note n => if n.isWarning then some n.line else none
    | _ => none

def removedFolders : List String :=
  events.filterMap fun
    | .folderRemoved folder => some folder
    | _ => none

end Journal

namespace Host

variable (h : Host)

def record (e : Event) : Host :=
  { h with journal := h.journal ++ [e] }

def isFile (path : String) : Bool :=
  h.files.contains (Path.Slash.absolute h.cwd path)

/-- The current folder after changing to `path`, or why that is not possible. -/
def enter (path : String) : Except Fault Host :=
  let place := Path.Slash.absolute h.cwd path
  if h.deniedFolders.contains place then .error .denied
  else if h.files.contains place then .error .notAFolder
  else if path ≠ "" ∧ (h.folders.contains place ∨ place = "/" ∨ place = h.cwd) then
    .ok { h with cwd := place }
  else .error .notFound

def scriptContent? (path : String) : Option (List UInt8) :=
  (h.scripts.find? (·.path = path)).map (·.content)

def addScript (s : Script) : Host :=
  { h with scripts := s :: h.scripts }

def removeFolder (folder : String) : Host :=
  { h with scripts := h.scripts.filter (Path.Slash.folder ·.path ≠ folder) }

def nextFate : Fate :=
  h.fates.headD h.laterFate

def dropFate : Host :=
  { h with fates := h.fates.tail }

end Host

end ShellLine
