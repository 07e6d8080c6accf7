import ShellLine.Profile

/-!
# Words written back as a line

Words are joined by single spaces. Inside a word the escape character is put before every escape
character, then before every space, then before every tab; the passes follow one another, so with a
blank as escape character a later pass also meets what an earlier one wrote. An empty program leaves
no trace.
-/

namespace ShellLine.Display

/-- Puts `mark` before every occurrence of `target`. -/
def guarded (mark target : Char) (cs : List Char) : List Char :=
  cs.flatMap fun c => if c = target then [mark, c] else [c]

def escapeChars (mark : Char) (cs : List Char) : List Char :=
  guarded mark '\t' (guarded mark ' ' (guarded mark mark cs))

def escape (p : Profile) (text : String) : String :=
  String.ofList (escapeChars p.escape text.toList)

def words (program : String) (args : List String) : List String :=
  if program = "" then args else program :: args

def line (p : Profile) (program : String) (args : List String) : String :=
  " ".intercalate ((words program args).map (escape p))

end ShellLine.Display
