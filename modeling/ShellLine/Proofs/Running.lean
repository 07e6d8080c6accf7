import ShellLine.Proofs.OutputText
import ShellLine.Proofs.SessionSteps

/-!
# One process for one command

Executing a command that has work starts one process and no more, whatever becomes of it. `reply`
says what the fate of that process comes to: its status and output, the status for a program that is
not found, or a fault; `Means` says the same of bytes by the text they encode. A command that goes
to the shell fetches the shell first, and where the shell is not POSIX-like it has a script around
the process. Each action has one equation here, and later ones are read off those of their parts.
-/

namespace ShellLine

/-- The process in the end, `none` if its program is not found. -/
def Fate.ended : Fate → Except Fault (Option Run.Ended)
  | .exits status out err => .ok (some ⟨status, out, err⟩)
  | .fails .notFound => .ok none
  | .fails fault => .error fault

/-- The result of a process, if all that it wrote is text. -/
def Run.Ended.result (e : Run.Ended) : Except Fault Result :=
  match Text.Utf8.strict? e.out, Text.Utf8.strict? e.err with
  | some out, some err => .ok ⟨e.status, Text.foldNewlines out, Text.foldNewlines err⟩
  | _, _ => .error .undecodable

/-- What a fate comes to for one who waits for the process with these arguments. -/
def Fate.reply (argv : List String) (fate : Fate) : Except Fault Result :=
  match fate.ended with
  | .error fault => .error fault
  | .ok none => .ok ⟨127, "", argv.headD "" ++ ": command not found\n"⟩
  | .ok (some e) => e.result

/-- The result of a process with these arguments, written out for each fate. -/
inductive Fate.Means (argv : List String) : Fate → Except Fault Result → Prop
  | notFound : Means argv (.fails .notFound)
      (.ok ⟨127, "", argv.headD "" ++ ": command not found\n"⟩)
  | failed {fault : Fault} (h : fault ≠ .notFound) : Means argv (.fails fault) (.error fault)
  | text (status : Int) (out err : String) :
      Means argv (.exits status (Text.Utf8.encode out) (Text.Utf8.encode err))
        (.ok ⟨status, Text.replaceBreaks out, Text.replaceBreaks err⟩)
  | noText {status : Int} {out err : List UInt8}
      (h : (∀ text, out ≠ Text.Utf8.encode text) ∨ ∀ text, err ≠ Text.Utf8.encode text) :
      Means argv (.exits status out err) (.error .undecodable)

theorem Fate.means_reply (argv : List String) (fate : Fate) :
    fate.Means argv (fate.reply argv) := by
  cases fate with
  | fails fault =>
    cases fault with
    | notFound => exact .notFound
    | _ => exact .failed nofun
  | exits status out err =>
    simp only [reply, ended, Run.Ended.result]
    cases hout : Text.Utf8.strict? out with
    | none => exact .noText (.inl (Text.Utf8.strict?_eq_none_iff.mp hout))
    | some outText =>
      cases herr : Text.Utf8.strict? err with
      | none => exact .noText (.inr (Text.Utf8.strict?_eq_none_iff.mp herr))
      | some errText =>
        rw [Text.Utf8.strict?_eq_some_iff.mp hout, Text.Utf8.strict?_eq_some_iff.mp herr]
        simp only [Text.foldNewlines_eq_replaceBreaks]
        exact .text status outText errText

theorem Command.ofLine_of_ok {p : Profile} {text : String} {tokens : Tokens}
    (h : Tokens.ofLine p text = .ok tokens) : ofLine p text = .ok (ofTokens text tokens) := by
  rw [ofLine, h]
  rfl

namespace CurrentShell

theorem ensure_apply (s : Session) : ensure s = .ok () s.shelled := by
  rw [ensure, Action.get_bind, Session.shelled]
  by_cases h : s.shell.program = ""
  · rw [if_pos h, if_pos h]
    rfl
  · rw [if_neg h, if_neg h]
    rfl

theorem fetch_apply (s : Session) : fetch s = .ok s.shelled.shell s.shelled :=
  Action.bind_ok (ensure_apply s)

end CurrentShell

namespace Script

theorem create_apply (text : String) (s : Session) :
    create text s = .ok s.scriptPath (s.scripted text) := rfl

theorem remove_apply (path : String) (s : Session) :
    remove path s =
      Action.ofExcept (s.afterRemoval (.ok ())) (s.cleared (Path.Slash.folder path)) := by
  have hrecord := Action.record_apply (.folderRemoved (Path.Slash.folder path)) s
  have hremoval : (s.recorded [.folderRemoved (Path.Slash.folder path)]).host.removal =
      s.host.removal := rfl
  rw [remove, Action.bind_ok hrecord, Action.get_bind, hremoval, Session.afterRemoval,
    Session.cleared]
  cases h : s.host.removal with
  | none => rfl
  | some fault =>
    by_cases hf : fault.isSystem = true
    · simp only [Option.filter, hf, Bool.not_true, Bool.false_eq_true, if_false, if_true]
      rfl
    · simp only [Option.filter, hf, Bool.not_false, if_true]
      rfl

/-- Whether `use` stops at a fault or not, the removal comes last. -/
theorem during_apply {α : Type} (text : String) (use : String → Action α) {s t : Session}
    {r : Except Fault α} (h : use s.scriptPath (s.scripted text) = Action.ofExcept r t) :
    during text use s =
      Action.ofExcept (t.afterRemoval r) (t.cleared (Path.Slash.folder s.scriptPath)) := by
  have hremove := remove_apply s.scriptPath t
  rw [during, Action.bind_ok (create_apply text s), Action.closing, h]
  cases hr : t.host.removal.filter (!·.isSystem) with
  | none =>
    simp only [Session.afterRemoval, hr] at hremove ⊢
    cases r with
    | ok a => exact Action.bind_ok hremove
    | error fault => exact Action.bind_ok hremove
  | some removal =>
    simp only [Session.afterRemoval, hr] at hremove ⊢
    cases r with
    | ok a => exact Action.bind_error hremove
    | error fault => exact Action.bind_error hremove

end Script

namespace Run

/-- How a process is started; a script is read at that moment. -/
def launch (o : Settings) (argv : List String) (s : Session) : Launch :=
  ⟨argv, o.folder, o.environ, argv.getLast?.bind s.host.scriptContent?⟩

/-- Starts a process and waits for it. -/
def attend (o : Settings) (inShell : Bool) (argv : List String) : Action Result := do
  Action.note (.running argv inShell false)
  match ← start o argv with
  | none => return notFound argv
  | some ended =>
    let out ← readOutput ended.out
    let err ← readOutput ended.err
    return ⟨ended.status, out, err⟩

theorem start_apply (o : Settings) (argv : List String) (s : Session) :
    start o argv s = Action.ofExcept s.host.nextFate.ended (s.launched (launch o argv s)) := by
  have hstart : start o argv s = (match s.host.nextFate with
      | .exits status out err => return some ⟨status, out, err⟩
      | .fails .notFound => return none
      | .fails fault => throw fault : Action (Option Ended)) (s.launched (launch o argv s)) := rfl
  rw [hstart]
  cases s.host.nextFate with
  | exits => rfl
  | fails fault => cases fault <;> rfl

theorem readOutput_of_text {bytes : List UInt8} {text : String}
    (h : Text.Utf8.strict? bytes = some text) (s : Session) :
    readOutput bytes s = .ok (Text.foldNewlines text) s := by
  rw [readOutput, h]
  rfl

theorem readOutput_of_none {bytes : List UInt8} (h : Text.Utf8.strict? bytes = none)
    (s : Session) : readOutput bytes s = .error .undecodable s := by
  rw [readOutput, h]
  rfl

theorem attend_apply (o : Settings) (inShell : Bool) (argv : List String) (s : Session) :
    attend o inShell argv s =
      Action.ofExcept (s.host.nextFate.reply argv)
        ((s.recorded [.note (.running argv inShell false)]).launched (launch o argv s)) := by
  have hstart := start_apply o argv (s.recorded [.note (.running argv inShell false)])
  change _ = Action.ofExcept s.host.nextFate.ended
    ((s.recorded [.note (.running argv inShell false)]).launched (launch o argv s)) at hstart
  rw [attend, Action.bind_ok (Action.note_apply _ s), Fate.reply]
  cases hfate : s.host.nextFate.ended with
  | error fault =>
    rw [hfate] at hstart
    exact Action.bind_error hstart
  | ok ended =>
    rw [hfate] at hstart
    rw [Action.bind_ok hstart]
    cases ended with
    | none => rfl
    | some e =>
      dsimp only
      cases hout : Text.Utf8.strict? e.out with
      | none =>
        rw [Action.bind_error (readOutput_of_none hout _)]
        simp only [Ended.result, hout]
        rfl
      | some out =>
        rw [Action.bind_ok (readOutput_of_text hout _)]
        cases herr : Text.Utf8.strict? e.err with
        | none =>
          rw [Action.bind_error (readOutput_of_none herr _)]
          simp only [Ended.result, hout, herr]
          rfl
        | some err =>
          rw [Action.bind_ok (readOutput_of_text herr _)]
          simp only [Ended.result, hout, herr]
          rfl

theorem attend_ran (o : Settings) (inShell : Bool) (argv : List String) (s : Session) :
    ∃ t, attend o inShell argv s = Action.ofExcept (s.host.nextFate.reply argv) t ∧
      s.Ran t (launch o argv s) ∧ t.shell = s.shell :=
  ⟨_, attend_apply o inShell argv s, (s.still_recorded rfl rfl).ran (Session.ran_launched _ _), rfl⟩

theorem during_attend (o : Settings) (text : String) (words : List String) (s : Session) :
    ∃ t, Script.during text (fun path => attend o true (words ++ [path])) s =
        Action.ofExcept (s.afterRemoval (s.host.nextFate.reply (words ++ [s.scriptPath]))) t ∧
      s.Ran t ⟨words ++ [s.scriptPath], o.folder, o.environ,
        some (Text.Utf8.encode (Script.body text))⟩ ∧ t.shell = s.shell := by
  have hstill := s.still_scripted text
  have hscript : launch o (words ++ [s.scriptPath]) (s.scripted text) =
      ⟨words ++ [s.scriptPath], o.folder, o.environ,
        some (Text.Utf8.encode (Script.body text))⟩ := by
    rw [launch, List.getLast?_concat, Option.bind_some, Session.scriptContent?_scripted]
  obtain ⟨t, hattend, hran, hshell⟩ :=
    attend_ran o true (words ++ [s.scriptPath]) (s.scripted text)
  rw [hstill.nextFate] at hattend
  rw [hscript] at hran
  have hduring := Script.during_apply text (fun path => attend o true (words ++ [path])) hattend
  have hran := hstill.ran hran
  rw [Session.afterRemoval_congr hran.untouched] at hduring
  exact ⟨_, hduring, hran.still (Session.still_cleared t _),
    (Session.shell_cleared t _).trans hshell⟩

theorem execute_of_hasWork {o : Settings} {c : Command} {inShell : Bool}
    (hs : o.usesShell c = inShell) (hw : hasWork c inShell = true) :
    execute o c = withArgv c inShell (attend o inShell) := by
  subst hs
  rw [execute, if_pos hw]
  rfl

theorem execute_of_idle {o : Settings} {c : Command} (hw : hasWork c (o.usesShell c) = false)
    (s : Session) : execute o c s = .ok { status := 1 } s := by
  rw [execute, if_neg (by simp [hw])]
  rfl

theorem withArgv_shell {α : Type} (c : Command) (use : List String → Action α) (s : Session) :
    withArgv c true use s =
      (if s.onWindows then
        Script.during c.text fun path =>
          use (s.shelled.shell.program :: s.shelled.shell.args ++ [path])
      else use (s.shelled.shell.program :: s.shelled.shell.args ++ [c.text])) s.shelled := by
  rw [withArgv, if_pos rfl, Action.bind_ok (CurrentShell.fetch_apply s), Action.get_bind,
    s.still_shelled.onWindows]

theorem readLine_of_ok {text : String} {tokens : Tokens} {s : Session}
    (h : Tokens.ofLine s.profile text = .ok tokens) :
    readLine text s = .ok (Command.ofTokens text tokens) s := by
  rw [readLine, Action.get_bind, Command.ofLine_of_ok h]
  rfl

section Execute

variable {o : Settings} {c : Command}

theorem execute_direct (hs : o.usesShell c = false) (hw : c.program ≠ "") (s : Session) :
    ∃ t, execute o c s = Action.ofExcept (s.host.nextFate.reply (c.program :: c.args)) t ∧
      s.Ran t (launch o (c.program :: c.args) s) ∧ t.shell = s.shell := by
  rw [execute_of_hasWork hs (by simpa [hasWork] using hw)]
  exact attend_ran o false (c.program :: c.args) s

/-- A POSIX-like shell is given the text as its last argument. -/
theorem execute_argument (hs : o.usesShell c = true) (hw : Text.isAllBlank c.text = false)
    {s : Session} (hp : s.onWindows = false) :
    let argv := s.shelled.shell.program :: s.shelled.shell.args ++ [c.text]
    ∃ t, execute o c s = Action.ofExcept (s.host.nextFate.reply argv) t ∧
      s.Ran t (launch o argv s.shelled) ∧ t.shell = s.shelled.shell := by
  intro argv
  obtain ⟨t, hattend, hran, hshell⟩ := attend_ran o true argv s.shelled
  rw [execute_of_hasWork hs (by simp [hasWork, hw]), withArgv_shell, hp, if_neg (by simp),
    ← s.still_shelled.nextFate]
  exact ⟨t, hattend, s.still_shelled.ran hran, hshell⟩

/-- Any other shell is given a script, which is removed in the end. -/
theorem execute_script (hs : o.usesShell c = true) (hw : Text.isAllBlank c.text = false)
    {s : Session} (hp : s.onWindows = true) :
    let argv := s.shelled.shell.program :: s.shelled.shell.args ++ [s.scriptPath]
    ∃ t, execute o c s = Action.ofExcept (s.afterRemoval (s.host.nextFate.reply argv)) t ∧
      s.Ran t ⟨argv, o.folder, o.environ, some (Text.Utf8.encode (Script.body c.text))⟩ ∧
      t.shell = s.shelled.shell := by
  intro argv
  obtain ⟨t, hduring, hran, hshell⟩ := during_attend o c.text
    (s.shelled.shell.program :: s.shelled.shell.args) s.shelled
  have hstill := s.still_shelled
  rw [hstill.scriptPath, hstill.nextFate, Session.afterRemoval_congr hstill.untouched] at hduring
  rw [hstill.scriptPath] at hran
  rw [execute_of_hasWork hs (by simp [hasWork, hw]), withArgv_shell, hp, if_pos rfl]
  exact ⟨t, hduring, hstill.ran hran, hshell⟩

end Execute

end Run

end ShellLine
