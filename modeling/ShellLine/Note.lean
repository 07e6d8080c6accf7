import ShellLine.Text.Quoted

/-!
# Notes on the course of a run

A note records a decision that the output alone does not show. Each part of the program signs its
own notes. All of them serve to follow a run in detail, except the one on a folder that could not be
removed, which is a warning.
-/

namespace ShellLine

inductive Note where
  | profileChosen
  | defaultShell (program : String)
  | shellSet (program : String) (args : List String)
  | resolved (name path : String)
  | notOnPath (name : String)
  | scriptWritten (path : String)
  | running (argv : List String) (inShell concurrently : Bool)
  | folderStays (folder : String)
deriving DecidableEq, Repr

namespace Note

def source : Note → String
  | profileChosen => "main"
  | defaultShell _ | shellSet _ _ => "shell_state"
  | resolved _ _ | notOnPath _ => "path_resolver"
  | scriptWritten _ | running _ _ _ | folderStays _ => "runner"

def isWarning : Note → Bool
  | folderStays _ => true
  | _ => false

def text : Note → String
  | profileChosen => "Profile: ..."
  | defaultShell program => "Using default shell " ++ Text.quoted program
  | shellSet program args => "Shell set to " ++ Text.quoted program ++ " " ++ Text.quotedList args
  | resolved name path => "Resolved " ++ Text.quoted name ++ " to " ++ path
  | notOnPath name => Text.quoted name ++ " not found on PATH"
  | scriptWritten path => "Wrote temp script " ++ path
  | running argv inShell concurrently =>
    "Running " ++ Text.quotedList argv ++ (if concurrently then " asynchronously" else "") ++
      " (shell=" ++ (if inShell then "True" else "False") ++ ")"
  | folderStays folder => "Failed to remove temp script directory " ++ folder

def line (n : Note) : String :=
  (if n.isWarning then "WARNING " else "DEBUG ") ++ n.source ++ ": " ++ n.text

end Note

end ShellLine
