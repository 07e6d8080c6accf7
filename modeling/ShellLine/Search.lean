import ShellLine.Environment
import ShellLine.Path.Drive
import ShellLine.Path.Slash

/-!
# Looking a program up

A name is looked up in the folders of the search path in order, and in each folder with every
extension in order. On Windows the extensions are the name's own one and then the ones the
environment lists, each once. A candidate is always put together with a slash.
-/

namespace ShellLine

structure Search where
  stem : String
  folders : List String
  extensions : List String
deriving DecidableEq, Repr

namespace Search

def defaultExtensions : String :=
  ".COM;.EXE;.BAT;.CMD"

/-- Adds the entries that are not there yet, one after the other. -/
def addNew (known entries : List String) : List String :=
  entries.foldl (fun known e => if known.contains e then known else known ++ [e]) known

def ofName (onWindows : Bool) (environ : Environment) (name : String) : Search :=
  let path := (environ.get? "PATH").getD ""
  if onWindows then
    let (stem, ext) := Path.Drive.splitExt name
    let listed := Text.fields ';' ((environ.get? "PATHEXT").getD defaultExtensions)
    { stem
      folders := Text.fields ';' path
      extensions := addNew (if ext = "" then [] else [ext]) listed }
  else
    let (stem, ext) := Path.Slash.splitExt name
    { stem, folders := Text.fields ':' path, extensions := [ext] }

def candidates (s : Search) : List String :=
  s.folders.flatMap fun folder => s.extensions.map fun ext => Path.Slash.join folder (s.stem ++ ext)

/-- The name carries a folder, so it is not looked up. -/
def isPlaced (onWindows : Bool) (name : String) : Bool :=
  (if onWindows then Path.Drive.base name else Path.Slash.base name) != name

end Search

end ShellLine
