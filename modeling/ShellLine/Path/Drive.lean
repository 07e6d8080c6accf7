import ShellLine.Path.Part

/-!
# Paths with drives

Parts are separated by slashes of either lean. A path may begin with a drive, which belongs to no
part: one character and a colon, or two separators with the names of a machine and of its share. The
long spelling of the latter begins with eight characters of its own. A share that is not
complete takes the whole path.
-/

namespace ShellLine.Path.Drive

def isSep (c : Char) : Bool :=
  c == '\\' || c == '/'

def longShareMark : List Char :=
  ['\\', '\\', '?', '\\', 'U', 'N', 'C', '\\']

/-- How many characters the names of a machine and of its share take, with what is before them. -/
def shareLength (path : List Char) : Nat :=
  let even := path.map fun c => if c = '/' then '\\' else c
  let mark := if (even.take 8).map Char.toUpper = longShareMark then 8 else 2
  let machine := (even.drop mark).takeWhile (· != '\\')
  if even.length ≤ mark + machine.length then even.length
  else
    let share := (even.drop (mark + machine.length + 1)).takeWhile (· != '\\')
    mark + machine.length + 1 + share.length

def driveLength : List Char → Nat
  | a :: b :: rest =>
    if isSep a && isSep b then shareLength (a :: b :: rest)
    else if b = ':' then 2 else 0
  | _ => 0

def base (path : String) : String :=
  let cs := path.toList
  String.ofList (lastPart isSep (cs.drop (driveLength cs)))

def splitExt (path : String) : String × String :=
  let (stem, ext) := splitExtension isSep path.toList
  (String.ofList stem, String.ofList ext)

end ShellLine.Path.Drive
