import ShellLine.Session
import ShellLine.Text.Utf8

/-!
# Scripts that exist for a while

A command interpreter that takes one line only is given a script instead. It stands alone in a fresh
folder, and the folder is removed when the script has served, whatever happened meanwhile.
-/

namespace ShellLine.Script

def body (text : String) : String :=
  "@echo off\r\n" ++ text ++ "\r\nexit /B %errorlevel%\r\n"

def fileName : String :=
  "shell_cmd.bat"

def create (text : String) : Action String := do
  let path := Path.Slash.join (← get).host.scratch fileName
  Action.changeHost (·.addScript ⟨path, Text.Utf8.encode (body text)⟩)
  Action.record (.scriptMade path)
  Action.note (.scriptWritten path)
  return path

/-- Removes the folder of a script. A system fault is only noted. -/
def remove (path : String) : Action Unit := do
  let folder := Path.Slash.folder path
  Action.record (.folderRemoved folder)
  match (← get).host.removal with
  | none => Action.changeHost (·.removeFolder folder)
  | some fault => if fault.isSystem then Action.note (.folderStays folder) else throw fault

def removeIfAny (path : Option String) : Action Unit :=
  match path.getD "" with
  | "" => pure ()
  | path => remove path

/-- Gives a script to `use` and removes it afterwards. -/
def during {α : Type} (text : String) (use : String → Action α) : Action α := do
  let path ← create text
  Action.closing (remove path) (use path)

end ShellLine.Script
