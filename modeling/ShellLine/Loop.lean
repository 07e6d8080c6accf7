import ShellLine.Line
import ShellLine.Reader

/-!
# The interactive loop

The loop reads commands and carries them out until one leaves or the input ends, which counts as
leaving with status 0. An interruption only gives up the command at hand. Any other fault goes on to
the caller.
-/

namespace ShellLine.Loop

def prompt : String :=
  "$ "

/-- The session as it is when a prompt is shown. -/
structure Visit where
  prompt : String
  session : Session

structure Course where
  visits : List Visit
  result : Except Fault Int
  session : Session

/-- Carries out one command and says how the loop ends, if it does. -/
def turn (command : Except Fault String) (s : Session) : Option (Except Fault Int) × Session :=
  let printed (t : Session) : Session := { t with host := t.host.record (.out "\n") }
  match (Action.ofExcept command >>= Line.enter) s with
  | .ok _ t => (none, t)
  | .error (.exit status) t => (some (.ok status), t)
  | .error .endOfInput t => (some (.ok 0), printed t)
  | .error .interrupt t => (none, printed t)
  | .error fault t => (some (.error fault), t)

/-- The end of the input ends the loop. -/
theorem turn_endOfInput (s : Session) : (turn (.error .endOfInput) s).1 = some (.ok 0) := rfl

def run (s : Session) (reads : List Read) : Course :=
  let reading := Reader.next s.profile.escape prompt reads
  let visits := reading.prompts.map fun prompt => { prompt, session := s }
  match _h : turn reading.command s with
  | (some result, t) => { visits, result, session := t }
  | (none, t) =>
    let later := run t reading.rest
    { later with visits := visits ++ later.visits }
termination_by reads.length
decreasing_by
  have hrest := Reader.next_rest_length s.profile.escape prompt reads
  cases reads with
  | nil =>
    have hend := turn_endOfInput s
    rw [show turn (.error .endOfInput) s = (none, t) from _h] at hend
    cases hend
  | cons read rest =>
    simp only [List.length_cons] at hrest ⊢
    omega

end ShellLine.Loop
