import ShellLine.Tokens

/-!
# Faults

What may stop an action before it is done. The four causes that the system reports are told from
the user's own requests (leaving, interrupting, ending the input) and from bytes that are no text.
-/

namespace ShellLine

inductive Fault where
  | openQuote (quote : OpenQuote)
  | exit (status : Int)
  | endOfInput
  | interrupt
  | notFound
  | notAFolder
  | denied
  | system
  | undecodable
deriving DecidableEq, Repr

namespace Fault

/-- The system reports the cause, so clean-up may go on without it. -/
def isSystem : Fault → Bool
  | notFound | notAFolder | denied | system => true
  | _ => false

end Fault

end ShellLine
