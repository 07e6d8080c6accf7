import ShellLine.Proofs.LineFaults

/-!
# A shell by its words

A shell is a program, which is not the empty word, with its arguments. A session has one or has
none, and how it came by it does not count: taking the default, choosing and clearing are read here
as what becomes of that one optional shell. A text that goes to a shell is its last argument, or
stands in the script that is.
-/

namespace ShellLine

structure Shell where
  program : String
  args : List String
  program_ne : program ≠ ""

namespace Shell

def words (shell : Shell) : List String :=
  shell.program :: shell.args

def of? (program : String) (args : List String) : Option Shell :=
  if h : program = "" then none else some ⟨program, args, h⟩

/-- The shell that words spell, unless there is no first word or an empty one. -/
def ofWords? : List String → Option Shell
  | [] => none
  | program :: args => of? program args

def sh : Shell :=
  ⟨"sh", ["-c"], by decide⟩

def cmd : Shell :=
  ⟨"cmd.exe", ["/c"], by decide⟩

/-- The same arguments for the program that a variable names, if it is set and not empty. -/
def named (stock : Shell) (value : Option String) : Shell :=
  (value.bind (of? · stock.args)).getD stock

/-- The shell of those who choose none, where the variables have these values. -/
def default (posixLike : Bool) (values : String → Option String) : Shell :=
  if posixLike then sh.named (values "SHELL") else cmd.named (values "COMSPEC")

variable {program : String} {args : List String}

theorem of?_empty (args : List String) : of? "" args = none := rfl

theorem of?_of_ne (h : program ≠ "") (args : List String) :
    of? program args = some ⟨program, args, h⟩ :=
  dif_neg h

theorem of?_eq_none_iff : of? program args = none ↔ program = "" := by
  by_cases h : program = ""
  · simp [h, of?_empty]
  · simp [h, of?_of_ne]

theorem of?_eq_some_iff {shell : Shell} :
    of? program args = some shell ↔ program = shell.program ∧ args = shell.args := by
  constructor
  · intro h
    by_cases hp : program = ""
    · rw [hp, of?_empty] at h
      cases h
    · rw [of?_of_ne hp] at h
      cases h
      exact ⟨rfl, rfl⟩
  · rintro ⟨rfl, rfl⟩
    exact of?_of_ne shell.program_ne shell.args

theorem ofWords?_eq_some_iff {words : List String} {shell : Shell} :
    ofWords? words = some shell ↔ words = shell.words := by
  cases words with
  | nil =>
    constructor
    · nofun
    · nofun
  | cons program args =>
    rw [ofWords?, of?_eq_some_iff, Shell.words, List.cons.injEq]

end Shell

/-- The shell that a command spells. -/
def Command.shell? (c : Command) : Option Shell :=
  Shell.of? c.program c.args

theorem Command.shell?_ofTokens (text : String) (t : Tokens) :
    shell? (ofTokens text t) = Shell.ofWords? t.words := by
  unfold ofTokens
  cases t.words <;> rfl

theorem Command.shell?_ofWords_named (p : Profile) (stock : Shell) (e : Environment)
    (name : String) :
    shell? (ofWords p ((e.nonempty? name).getD stock.program) stock.args) =
      some (stock.named (e.get? name)) := by
  have hstock : Shell.of? stock.program stock.args = some stock :=
    Shell.of?_of_ne stock.program_ne stock.args
  unfold Environment.nonempty? Shell.named shell? ofWords
  cases e.get? name with
  | none => exact hstock
  | some value =>
    by_cases h : value = ""
    · simpa [Option.filter, h, Shell.of?_empty] using hstock
    · simp [Option.filter, h, Shell.of?_of_ne]

namespace Session

variable (s : Session)

/-- The shell in use, if there is one. -/
def shell? : Option Shell :=
  s.shell.shell?

/-- The shell of the session if it chooses none. -/
def defaulted : Shell :=
  Shell.default s.profile.posixLike s.environ.get?

theorem shell?_eq_none_iff : s.shell? = none ↔ s.shell.program = "" :=
  Shell.of?_eq_none_iff

theorem shell?_eq_some_iff {shell : Shell} :
    s.shell? = some shell ↔ s.shell.program = shell.program ∧ s.shell.args = shell.args :=
  Shell.of?_eq_some_iff

theorem shell?_defaultShell : s.defaultShell.shell? = some s.defaulted := by
  unfold defaultShell defaulted onWindows Shell.default
  cases s.profile.posixLike with
  | true => exact Command.shell?_ofWords_named _ .sh _ _
  | false => exact Command.shell?_ofWords_named _ .cmd _ _

theorem shell?_shelled : s.shelled.shell? = some (s.shell?.getD s.defaulted) := by
  unfold shelled
  by_cases h : s.shell.program = ""
  · rw [if_pos h, s.shell?_eq_none_iff.mpr h]
    exact s.shell?_defaultShell
  · rw [if_neg h, shell?, Command.shell?, Shell.of?_of_ne h]
    rfl

theorem shelled_of_ne (h : s.shell.program ≠ "") : s.shelled = s :=
  if_neg h

theorem program_shelled_ne : s.shelled.shell.program ≠ "" := by
  intro h
  have hnone := s.shelled.shell?_eq_none_iff.mpr h
  rw [shell?_shelled] at hnone
  cases hnone

/-- After the choice of a shell by a text with these tokens. -/
def chosen (text : String) (tokens : Tokens) : Session :=
  let command := Command.ofTokens text tokens
  { s with shell := { command with needsShell := false } }.recorded
    [.note (.shellSet command.program command.args)]

theorem shell?_chosen (text : String) (tokens : Tokens) :
    (s.chosen text tokens).shell? = Shell.ofWords? tokens.words :=
  Command.shell?_ofTokens text tokens

end Session

namespace CurrentShell

variable {s : Session} {text : String} {tokens : Tokens}

theorem choose_apply (h : Tokens.ofLine s.profile text = .ok tokens) :
    choose text s = .ok () (s.chosen text tokens) := by
  rw [choose, Action.get_bind, Command.ofLine_of_ok h]
  rfl

theorem select_none (force : Bool) (s : Session) :
    select none force s =
      .ok () (if force ∨ s.shell.program = "" then { s with shell := s.defaultShell } else s) := by
  unfold select
  simp only [Option.getD_none, ne_eq, not_true_eq_false, if_false]
  rw [Action.get_bind]
  by_cases h : force = true ∨ s.shell.program = ""
  · rw [if_pos h, if_pos h]
    rfl
  · rw [if_neg h, if_neg h]
    rfl

end CurrentShell

/-- The process is this shell, and it was given the text, in a script unless it is POSIX-like. -/
def Launch.Hands (launch : Launch) (posixLike : Bool) (shell : Shell) (text : String) : Prop :=
  if posixLike then launch.argv = shell.words ++ [text]
  else ∃ path, launch.argv = shell.words ++ [path] ∧
    launch.script = some (Text.Utf8.encode
      ("@echo off\r\n" ++ text ++ "\r\nexit /B %errorlevel%\r\n"))

theorem Session.words_of_shell? {s : Session} {shell : Shell} (h : s.shell? = some shell) :
    s.shell.program :: s.shell.args = shell.words := by
  obtain ⟨hprogram, hargs⟩ := s.shell?_eq_some_iff.mp h
  rw [hprogram, hargs, Shell.words]

/-- A text with work that goes to the shell is handed to the one in use, or else to the default. -/
theorem Run.execute_hands {o : Settings} {c : Command} (hs : o.usesShell c = true)
    (hw : Text.isAllBlank c.text = false) (s : Session) :
    ∃ t launch r, execute o c s = Action.ofExcept r t ∧ s.Ran t launch ∧
      launch.Hands s.profile.posixLike (s.shell?.getD s.defaulted) c.text := by
  have hwords := Session.words_of_shell? s.shell?_shelled
  cases hp : s.profile.posixLike with
  | true =>
    obtain ⟨t, hexecute, hran, -⟩ :=
      execute_argument (s := s) hs hw (by simp [Session.onWindows, hp])
    exact ⟨t, _, _, hexecute, hran, congrArg (· ++ [c.text]) hwords⟩
  | false =>
    obtain ⟨t, hexecute, hran, -⟩ :=
      execute_script (s := s) hs hw (by simp [Session.onWindows, hp])
    exact ⟨t, _, _, hexecute, hran, s.scriptPath, congrArg (· ++ [s.scriptPath]) hwords, rfl⟩

/-- Passing on a result starts nothing. -/
theorem Result.launches_printed (r : Result) : Journal.launches r.printed = [] := by
  unfold printed
  split <;> split <;> rfl

/-- So is a line that needs a shell. -/
theorem Line.execute_hands {s : Session} {text : String} {words : List String}
    (h : Tokens.ofLine s.profile text = .ok ⟨words, true⟩) :
    ∃ launch : Launch, ((execute text).final s).launches = s.launches ++ [launch] ∧
      launch.Hands s.profile.posixLike (s.shell?.getD s.defaulted) text := by
  obtain ⟨program, args, rfl⟩ :=
    List.exists_cons_of_ne_nil (Tokens.words_ne_nil_of_needsShell h rfl)
  have hwork := Tokens.not_isAllBlank_of_words h (List.cons_ne_nil program args)
  obtain ⟨t, launch, r, hr, hran, hhands⟩ := Run.execute_hands (o := {})
    (c := .ofTokens text ⟨program :: args, true⟩) rfl hwork s
  refine ⟨launch, ?_, hhands⟩
  rw [← hran.launches]
  have hanswers := answers_of_execute h rfl hr
  cases r with
  | ok r =>
    rw [Action.final_of_ok hanswers, Session.launches_recorded, r.launches_printed,
      List.append_nil]
  | error fault => rw [Action.final_of_error hanswers]

end ShellLine
