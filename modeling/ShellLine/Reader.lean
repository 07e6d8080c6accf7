import ShellLine.Fault

/-!
# Reading a command

A command is one line, or several when all but the last end in an odd number of escape characters.
The lines are joined with their line breaks, since the scan drops an escape and the line break after
it. Only the first line is asked for with the given prompt. An interruption or the end of the input
gives up the lines read so far.
-/

namespace ShellLine

/-- What is typed at a prompt. -/
inductive Read where
  | line (text : String)
  | interrupt
deriving DecidableEq, Repr

structure Reading where
  prompts : List String
  command : Except Fault String
  rest : List Read

namespace Reader

def morePrompt : String :=
  "> "

def trailing (escape : Char) (line : List Char) : Nat :=
  (line.reverse.takeWhile (· == escape)).length

def continues (escape : Char) (line : String) : Bool :=
  trailing escape line.toList % 2 == 1

def next (escape : Char) (prompt : String) : List Read → Reading
  | [] => ⟨[prompt], .error .endOfInput, []⟩
  | .interrupt :: rest => ⟨[prompt], .error .interrupt, rest⟩
  | .line text :: rest =>
    if continues escape text then
      let later := next escape morePrompt rest
      { later with
        prompts := prompt :: later.prompts
        command := later.command.map (text ++ "\n" ++ ·) }
    else ⟨[prompt], .ok text, rest⟩

theorem next_rest_length (escape : Char) (prompt : String) (reads : List Read) :
    (next escape prompt reads).rest.length ≤ reads.length - 1 := by
  induction reads generalizing prompt with
  | nil => simp [next]
  | cons read rest ih =>
    cases read with
    | interrupt => simp [next]
    | line text =>
      have hmore := ih morePrompt
      simp only [next]
      split
      · simp only [List.length_cons]
        omega
      · simp

/-- A sequence of commands, each asked for anew. -/
def nextMany (escape : Char) (prompt : String) : Nat → List Read → List Reading
  | 0, _ => []
  | count + 1, reads =>
    let reading := next escape prompt reads
    reading :: nextMany escape prompt count reading.rest

end Reader

end ShellLine
