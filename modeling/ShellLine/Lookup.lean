import ShellLine.Search
import ShellLine.Session

/-!
# Finding a program on the host

A name that carries a folder is only made absolute, whether or not it is a file. Any other name
gives the first candidate that is a file.
-/

namespace ShellLine.Search

variable (onWindows : Bool) (environ : Environment)

def found? (h : Host) (name : String) : Option String :=
  (ofName onWindows environ name).candidates.find? h.isFile

/-- The full path of a name, or the empty text when there is none. -/
def which (name : String) : Action String := do
  let host := (← get).host
  if name = "" then return ""
  else if isPlaced onWindows name then return Path.Slash.absolute host.cwd name
  else match found? onWindows environ host name with
    | some path =>
      Action.note (.resolved name path)
      return path
    | none =>
      Action.note (.notOnPath name)
      return ""

end ShellLine.Search
