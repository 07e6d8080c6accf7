import ShellLine.Path.Part
import ShellLine.Text.Field

/-!
# Paths with slashes

Parts are separated by slashes. A path that starts with exactly two slashes keeps both; more are as
good as one. Normalizing drops empty parts and single dots and lets two dots cancel the part before
them, without asking what exists.
-/

namespace ShellLine.Path.Slash

def isSep (c : Char) : Bool :=
  c == '/'

def base (path : String) : String :=
  String.ofList (lastPart isSep path.toList)

def splitExt (path : String) : String × String :=
  let (stem, ext) := splitExtension isSep path.toList
  (String.ofList stem, String.ofList ext)

/-- The folder of a path; it keeps its last slashes only when it is nothing else. -/
def folder (path : String) : String :=
  let head := leading isSep path.toList
  if head.all isSep then String.ofList head
  else String.ofList ((head.reverse.dropWhile isSep).reverse)

def join (dir path : String) : String :=
  if path.startsWith "/" then path
  else if dir = "" ∨ dir.endsWith "/" then dir ++ path
  else dir ++ "/" ++ path

def rootSlashes : List Char → Nat
  | '/' :: '/' :: '/' :: _ => 1
  | '/' :: '/' :: _ => 2
  | '/' :: _ => 1
  | _ => 0

/-- One part more on the parts kept so far, the last of which comes first. -/
def push (rooted : Bool) (kept : List (List Char)) (part : List Char) : List (List Char) :=
  if part = [] ∨ part = ['.'] then kept
  else if part = ['.', '.'] then
    match kept with
    | [] => if rooted then [] else [part]
    | last :: earlier => if last = ['.', '.'] then part :: kept else earlier
  else part :: kept

def normalChars (path : List Char) : List Char :=
  let slashes := rootSlashes path
  let kept := (Text.split '/' path).foldl (push (slashes != 0)) []
  let result := List.replicate slashes '/' ++ ['/'].intercalate kept.reverse
  if result = [] then ['.'] else result

def normal (path : String) : String :=
  String.ofList (normalChars path.toList)

/-- The normal form of a path seen from a folder. -/
def absolute (cwd path : String) : String :=
  normal (join cwd path)

end ShellLine.Path.Slash
