/-!
# Environment variables

Variables with their values, each name at most once.
-/

namespace ShellLine

structure Environment where
  bindings : List (String × String) := []
deriving DecidableEq, Repr

namespace Environment

def get? (e : Environment) (name : String) : Option String :=
  e.bindings.lookup name

/-- The value of a variable that is set and not empty. -/
def nonempty? (e : Environment) (name : String) : Option String :=
  (e.get? name).filter (· ≠ "")

def erase (e : Environment) (name : String) : Environment :=
  ⟨e.bindings.filter (·.1 ≠ name)⟩

def insert (e : Environment) (name value : String) : Environment :=
  ⟨(name, value) :: (e.erase name).bindings⟩

end Environment

end ShellLine
