import ShellLine.Proofs.ContinuedCommands

/-!
# What is typed at the prompts

The reads are cut into what belongs to one prompt each: a command of one line or several, one that
was given up by an interruption, or the end of the input. `Typed.ofReads` cuts all of them in one
pass and never puts anything of a command that was given up into the next one. Reading a command
takes just the first piece off.
-/

namespace ShellLine

/-- What comes of one prompt for a new command. -/
inductive Typed where
  | command (text : String)
  | abandoned
  | ended
deriving DecidableEq, Repr

namespace Typed

/-- The reads in pieces, where `lines` are the lines of the command at hand. -/
def ofReads (escape : Char) : List String → List Read → List Typed
  | _, [] => [ended]
  | _, .interrupt :: rest => abandoned :: ofReads escape [] rest
  | lines, .line text :: rest =>
    if Reader.continues escape text then ofReads escape (lines ++ [text]) rest
    else command ("\n".intercalate (lines ++ [text])) :: ofReads escape [] rest

/-- A command that was read, or why there is none. -/
def read : Typed → Except Fault String
  | command text => .ok text
  | abandoned => .error .interrupt
  | ended => .error .endOfInput

/-- The same with lines that came before. -/
def behind (lines : List String) : Typed → Typed
  | command text => command ("\n".intercalate (lines ++ [text]))
  | typed => typed

@[simp] theorem behind_nil (typed : Typed) : typed.behind [] = typed := by
  cases typed with
  | command text => simp only [behind, List.nil_append, String.intercalate_singleton]
  | abandoned => rfl
  | ended => rfl

theorem behind_behind (lines : List String) (line : String) (typed : Typed) :
    (typed.behind [line]).behind lines = typed.behind (lines ++ [line]) := by
  cases typed with
  | command text =>
    have hpair : "\n".intercalate [line, text] = line ++ "\n" ++ text := by
      rw [String.intercalate_cons_of_ne_nil (List.cons_ne_nil _ _), String.intercalate_singleton]
    cases lines with
    | nil => simp [behind, String.intercalate_singleton]
    | cons first lines =>
      have hne := List.cons_ne_nil first lines
      simp only [behind, List.append_assoc, List.singleton_append]
      rw [String.intercalate_append_of_ne_nil hne (List.cons_ne_nil _ _),
        String.intercalate_append_of_ne_nil hne (List.cons_ne_nil _ _),
        String.intercalate_singleton]
  | abandoned => rfl
  | ended => rfl

theorem read_behind_singleton (line : String) (typed : Typed) :
    (typed.behind [line]).read = typed.read.map (line ++ "\n" ++ ·) := by
  cases typed with
  | command text =>
    simp only [behind, read, List.singleton_append]
    rw [String.intercalate_cons_of_ne_nil (List.cons_ne_nil _ _), String.intercalate_singleton]
    rfl
  | abandoned => rfl
  | ended => rfl

end Typed

open Typed

/-- Reading a command takes the first of the pieces, and leaves the others unless the input has
ended. Only the first line is asked for with the given prompt. -/
theorem Reader.next_typed (escape : Char) (prompt : String) (reads : List Read) :
    let reading := next escape prompt reads
    ∃ (typed : Typed) (more : Nat), reading.command = typed.read ∧
      reading.prompts = prompt :: List.replicate more morePrompt ∧
      ∀ lines, ofReads escape lines reads =
        typed.behind lines ::
          if typed = .ended then [] else ofReads escape [] reading.rest := by
  induction reads generalizing prompt with
  | nil => exact ⟨.ended, 0, rfl, rfl, fun _ => rfl⟩
  | cons read rest ih =>
    cases read with
    | interrupt => exact ⟨.abandoned, 0, rfl, rfl, fun _ => rfl⟩
    | line text =>
      by_cases hcont : continues escape text = true
      · obtain ⟨typed, more, hcommand, hprompts, htyped⟩ := ih morePrompt
        refine ⟨typed.behind [text], more + 1, ?_, ?_, fun lines => ?_⟩
        · rw [read_behind_singleton, ← hcommand, next, if_pos hcont]
        · simp only [next, hcont, if_true, hprompts, List.replicate_succ]
        · have hended : typed.behind [text] = .ended ↔ typed = .ended := by
            cases typed <;> simp [behind]
          simp only [ofReads, next, hcont, if_true, htyped, behind_behind, hended]
      · refine ⟨.command text, 0, ?_, ?_, fun lines => ?_⟩
        · simp [next, hcont, Typed.read]
        · simp [next, hcont]
        · simp [ofReads, next, hcont, behind]

end ShellLine
