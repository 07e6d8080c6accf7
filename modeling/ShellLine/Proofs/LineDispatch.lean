import Mathlib.Data.List.TakeWhile
import Mathlib.Logic.ExistsUnique
import ShellLine.Line
import ShellLine.Proofs.QuietBuiltins
import ShellLine.Proofs.Running

/-!
# Where a line goes

A line is refused, passed over, carried out by a builtin, started directly or handed to the shell,
and its tokens alone decide which. The two tests for work never get in the way of a line that needs
a shell: such a line has a token, so it is not of blanks alone. A direct line is dropped only if its
program is the empty word.
-/

namespace ShellLine

/-- A comment swallows all that comes before the end of its line. -/
theorem Scan.run_inComment {p : Profile} {s : Scan} (hs : s.inComment = true) {text : List Char}
    (h : '\n' ∉ text) : (run p s text).quote = s.quote ∧ (run p s text).finish = s.finish := by
  induction text generalizing s with
  | nil => exact ⟨rfl, rfl⟩
  | cons c text ih =>
    obtain ⟨hc, htext⟩ := not_or.mp (List.mem_cons.not.mp h)
    have hstep : (s.step p c text.head?).scan =
        { s with previous := some c, position := s.position + 1 } := by
      simp [step, hs, Ne.symm hc]
    rw [run, hstep]
    exact ih hs htext

/-- The line has nothing but room, or room and one comment. -/
def Profile.Skips (p : Profile) (line : String) : Prop :=
  match line.toList.dropWhile Text.isBlank with
  | [] => True
  | c :: rest => c ≠ p.escape ∧ p.comment = some c ∧ '\n' ∉ rest

namespace Tokens

variable {p : Profile} {line : String}

theorem ofLine_of_skips (h : p.Skips line) : ofLine p line = .ok ⟨[], false⟩ := by
  unfold Profile.Skips at h
  unfold ofLine ofChars
  cases htext : line.toList.dropWhile Text.isBlank with
  | nil => rfl
  | cons c rest =>
    rw [htext] at h
    obtain ⟨hescape, hcomment, hrest⟩ := h
    have hstep : (({} : Scan).step p c rest.head?).scan =
        { inComment := true, previous := some c, position := 1 } := by
      simp [Scan.step, Scan.read, Scan.readComment, hescape, hcomment]
    obtain ⟨hquote, hfinish⟩ := Scan.run_inComment (p := p)
      (s := { inComment := true, previous := some c, position := 1 }) rfl hrest
    simp only [Scan.run, hstep, hquote, hfinish]
    simp [Scan.finish]

theorem words_ne_nil_of_needsShell {tokens : Tokens} (h : ofLine p line = .ok tokens)
    (hs : tokens.needsShell = true) : tokens.words ≠ [] := by
  unfold ofLine ofChars at h
  dsimp only at h
  split at h
  · cases h
  · cases h
    intro hnil
    simp_all

theorem not_isAllBlank_of_words {tokens : Tokens} (h : ofLine p line = .ok tokens)
    (hw : tokens.words ≠ []) : Text.isAllBlank line = false := by
  rw [Bool.eq_false_iff]
  intro hblank
  have hdrop : line.toList.dropWhile Text.isBlank = [] :=
    List.dropWhile_eq_nil_iff.mpr (List.all_eq_true.mp hblank)
  unfold ofLine ofChars at h
  simp only [hdrop, Scan.run] at h
  cases h
  exact hw rfl

end Tokens

namespace Command

/-- An empty program is a token as well. -/
theorem tokens_ofTokens (text : String) (t : Tokens) : (ofTokens text t).tokens = t.words := by
  unfold ofTokens
  cases t.words with
  | nil => rfl
  | cons program args => simp +contextual [tokens]

end Command

/-- What is printed of a result: nothing for an empty output. -/
def Result.printed (r : Result) : List Event :=
  (if r.out = "" then [] else [.out r.out]) ++ if r.err = "" then [] else [.err r.err]

namespace Action

theorem printSome_record (event : String → Event) (text : String) (s : Session) :
    printSome (fun text => record (event text)) text s =
      .ok () (s.recorded (if text = "" then [] else [event text])) := by
  unfold printSome
  by_cases h : text = ""
  · rw [if_pos h, if_pos h, Session.recorded_nil]
    rfl
  · rw [if_neg h, if_neg h]
    rfl

theorem printResult_apply (r : Result) (s : Session) :
    printResult r s = .ok () (s.recorded r.printed) := by
  have hout : printSome print r.out s = .ok () _ := printSome_record .out r.out s
  have herr (t : Session) : printSome printError r.err t = .ok () _ := printSome_record .err r.err t
  rw [printResult, bind_ok hout, herr, Session.recorded_recorded]
  rfl

end Action

namespace Builtin

theorem ofName?_eq_some {text : String} {b : Builtin} : ofName? text = some b ↔ b.name = text := by
  constructor
  · intro h
    simpa using List.find?_some h
  · rintro rfl
    cases b <;> rfl

theorem ofName?_eq_none {text : String} :
    ofName? text = none ↔ ∀ b : Builtin, b.name ≠ text := by
  rw [Option.eq_none_iff_forall_ne_some]
  exact forall_congr' fun b => not_congr ofName?_eq_some

end Builtin

namespace Line

/-- What an execution that was left in `t` comes to for the line: the result is passed on and its
status is the line's, or the fault goes on. -/
def Answers (text : String) (s t : Session) : Except Fault Result → Prop
  | .ok r => execute text s = .ok r.status (t.recorded r.printed)
  | .error fault => execute text s = .error fault t

inductive Route where
  | refused
  | idle
  | builtin
  | direct
  | shell
deriving DecidableEq, Repr

/-- The tokens lead this way, and the line goes it. -/
def Route.Taken (text : String) (s : Session) : Route → Prop
  | refused => ∃ quote, Tokens.ofLine s.profile text = .error quote ∧
      execute text s =
        .ok 2 (s.recorded [.err ("syntax error: " ++ quote.message ++ "\n")])
  | idle => ∃ flagged, Tokens.ofLine s.profile text = .ok ⟨[], flagged⟩ ∧
      execute text s = .ok s.lastStatus s
  | builtin => ∃ (b : Builtin) (args : List String),
      Tokens.ofLine s.profile text = .ok ⟨b.name :: args, false⟩ ∧
      execute text s = b.run args s ∧ ((execute text).final s).launches = s.launches
  | direct => ∃ program args,
      Tokens.ofLine s.profile text = .ok ⟨program :: args, false⟩ ∧
      (∀ b : Builtin, b.name ≠ program) ∧
      (program = "" → execute text s = .ok 1 s) ∧
      (program ≠ "" → ∃ t script r, s.Ran t ⟨program :: args, none, none, script⟩ ∧
        t.shell = s.shell ∧ s.host.nextFate.Means (program :: args) r ∧ Answers text s t r)
  | shell => ∃ words shell fetched t r,
      Tokens.ofLine s.profile text = .ok ⟨words, true⟩ ∧
      CurrentShell.fetch s = .ok shell fetched ∧ t.shell = shell ∧
      (s.onWindows = false → ∃ script,
        let argv := shell.program :: shell.args ++ [text]
        s.Ran t ⟨argv, none, none, script⟩ ∧ s.host.nextFate.Means argv r ∧
          Answers text s t r) ∧
      (s.onWindows = true → ∃ path,
        let argv := shell.program :: shell.args ++ [path]
        let script := "@echo off\r\n" ++ text ++ "\r\nexit /B %errorlevel%\r\n"
        s.Ran t ⟨argv, none, none, some (Text.Utf8.encode script)⟩ ∧
          s.host.nextFate.Means argv r ∧ Answers text s t (s.afterRemoval r))

variable {text : String} {s t : Session}

theorem execute_of_error {quote : OpenQuote}
    (h : Tokens.ofLine s.profile text = .error quote) :
    execute text s =
      .ok 2 (s.recorded [.err ("syntax error: " ++ quote.message ++ "\n")]) := by
  have hc : Command.ofLine s.profile text = .error quote := by
    rw [Command.ofLine, h]
    rfl
  rw [execute, Action.get_bind, hc]
  rfl

theorem execute_of_nil {flagged : Bool} (h : Tokens.ofLine s.profile text = .ok ⟨[], flagged⟩) :
    execute text s = .ok s.lastStatus s := by
  rw [execute, Action.get_bind, Command.ofLine_of_ok h]
  simp only [Command.tokens_ofTokens, if_true]
  rfl

theorem execute_of_cons {program : String} {args : List String} {flagged : Bool}
    (h : Tokens.ofLine s.profile text = .ok ⟨program :: args, flagged⟩) :
    execute text s =
      (match builtin? (.ofTokens text ⟨program :: args, flagged⟩) with
      | some b => b.run args
      | none => do
        let result ← Run.execute {} (.ofTokens text ⟨program :: args, flagged⟩)
        Action.printResult result
        return result.status : Action Int) s := by
  rw [execute, Action.get_bind, Command.ofLine_of_ok h]
  simp only [Command.tokens_ofTokens, reduceCtorEq, if_false]
  rfl

theorem answers_of_execute {program : String} {args : List String} {flagged : Bool}
    (h : Tokens.ofLine s.profile text = .ok ⟨program :: args, flagged⟩)
    (hb : builtin? (.ofTokens text ⟨program :: args, flagged⟩) = none) {r : Except Fault Result}
    (hr : Run.execute {} (.ofTokens text ⟨program :: args, flagged⟩) s = Action.ofExcept r t) :
    Answers text s t r := by
  have hexecute : execute text s = (do
      let result ← Run.execute {} (.ofTokens text ⟨program :: args, flagged⟩)
      Action.printResult result
      return result.status : Action Int) s := by
    rw [execute_of_cons h, hb]
  cases r with
  | ok r =>
    rw [Answers, hexecute, Action.bind_ok hr, Action.bind_ok (Action.printResult_apply r t)]
    rfl
  | error fault =>
    rw [Answers, hexecute]
    exact Action.bind_error hr

theorem execute_of_builtin {b : Builtin} {args : List String}
    (h : Tokens.ofLine s.profile text = .ok ⟨b.name :: args, false⟩) :
    execute text s = b.run args s := by
  have hb : builtin? (.ofTokens text ⟨b.name :: args, false⟩) = some b :=
    Builtin.ofName?_eq_some.mpr rfl
  rw [execute_of_cons h, hb]

theorem taken_builtin {b : Builtin} {args : List String}
    (h : Tokens.ofLine s.profile text = .ok ⟨b.name :: args, false⟩) :
    Route.builtin.Taken text s := by
  have hexecute := execute_of_builtin h
  refine ⟨b, args, h, hexecute, ?_⟩
  rw [Action.final, hexecute]
  exact Builtin.quiet_run b args s

theorem taken_direct {program : String} {args : List String}
    (h : Tokens.ofLine s.profile text = .ok ⟨program :: args, false⟩)
    (hb : ∀ b : Builtin, b.name ≠ program) : Route.direct.Taken text s := by
  have hnone : builtin? (.ofTokens text ⟨program :: args, false⟩) = none :=
    Builtin.ofName?_eq_none.mpr hb
  refine ⟨program, args, h, hb, ?_, ?_⟩
  · rintro rfl
    have hidle : Run.execute {} (.ofTokens text ⟨"" :: args, false⟩) s =
        Action.ofExcept (.ok { status := 1 }) s := Run.execute_of_idle rfl s
    have hanswers := answers_of_execute h hnone hidle
    rwa [Answers, Result.printed, if_pos rfl, if_pos rfl, List.append_nil,
      Session.recorded_nil] at hanswers
  · intro hprogram
    obtain ⟨t, hr, hran, hshell⟩ := Run.execute_direct (o := {})
      (c := .ofTokens text ⟨program :: args, false⟩) rfl hprogram s
    exact ⟨t, _, _, hran, hshell, Fate.means_reply _ _, answers_of_execute h hnone hr⟩

theorem taken_shell {words : List String}
    (h : Tokens.ofLine s.profile text = .ok ⟨words, true⟩) : Route.shell.Taken text s := by
  obtain ⟨program, args, rfl⟩ :=
    List.exists_cons_of_ne_nil (Tokens.words_ne_nil_of_needsShell h rfl)
  have hwork := Tokens.not_isAllBlank_of_words h (List.cons_ne_nil program args)
  have hfetch := CurrentShell.fetch_apply s
  cases hp : s.onWindows with
  | false =>
    obtain ⟨t, hr, hran, hshell⟩ := Run.execute_argument (o := {})
      (c := .ofTokens text ⟨program :: args, true⟩) rfl hwork hp
    exact ⟨_, _, _, t, _, h, hfetch, hshell,
      fun _ => ⟨_, hran, Fate.means_reply _ _, answers_of_execute h rfl hr⟩,
      fun hw => absurd (hp.symm.trans hw) nofun⟩
  | true =>
    obtain ⟨t, hr, hran, hshell⟩ := Run.execute_script (o := {})
      (c := .ofTokens text ⟨program :: args, true⟩) rfl hwork hp
    exact ⟨_, _, _, t, _, h, hfetch, hshell, fun hw => absurd (hp.symm.trans hw) nofun,
      fun _ => ⟨_, hran, Fate.means_reply _ _, answers_of_execute h rfl hr⟩⟩

theorem exists_route (text : String) (s : Session) : ∃ route : Route, route.Taken text s := by
  cases h : Tokens.ofLine s.profile text with
  | error quote => exact ⟨.refused, quote, h, execute_of_error h⟩
  | ok tokens =>
    obtain ⟨words, flagged⟩ := tokens
    cases words with
    | nil => exact ⟨.idle, flagged, h, execute_of_nil h⟩
    | cons program args =>
      cases flagged with
      | true => exact ⟨.shell, taken_shell h⟩
      | false =>
        by_cases hb : ∃ b : Builtin, b.name = program
        · obtain ⟨b, rfl⟩ := hb
          exact ⟨.builtin, taken_builtin h⟩
        · exact ⟨.direct, taken_direct h (not_exists.mp hb)⟩

/-- What the tokens of a line say of its route. -/
def routeOf : Except OpenQuote Tokens → Route
  | .error _ => .refused
  | .ok ⟨[], _⟩ => .idle
  | .ok ⟨_, true⟩ => .shell
  | .ok ⟨program :: _, false⟩ => if (Builtin.ofName? program).isSome then .builtin else .direct

theorem Route.Taken.eq_routeOf {route : Route} (h : route.Taken text s) :
    route = routeOf (Tokens.ofLine s.profile text) := by
  cases route with
  | refused =>
    obtain ⟨quote, h, -⟩ := h
    rw [h, routeOf]
  | idle =>
    obtain ⟨flagged, h, -⟩ := h
    rw [h, routeOf]
  | builtin =>
    obtain ⟨b, args, h, -⟩ := h
    rw [h, routeOf, Builtin.ofName?_eq_some.mpr rfl]
    rfl
  | direct =>
    obtain ⟨program, args, h, hb, -⟩ := h
    rw [h, routeOf, Builtin.ofName?_eq_none.mpr hb]
    rfl
  | shell =>
    obtain ⟨words, shell, fetched, t, r, h, -⟩ := h
    obtain ⟨program, args, rfl⟩ :=
      List.exists_cons_of_ne_nil (Tokens.words_ne_nil_of_needsShell h rfl)
    rw [h, routeOf]
    exact nofun

/-- Every line goes exactly one way. -/
theorem existsUnique_route (text : String) (s : Session) :
    ∃! route : Route, route.Taken text s := by
  obtain ⟨route, h⟩ := exists_route text s
  exact ⟨route, h, fun other ho => ho.eq_routeOf.trans h.eq_routeOf.symm⟩

/-- A builtin in a chain of commands is not carried out by the session. -/
example : routeOf (Tokens.ofLine .posix "exit 3") = .builtin := rfl

example : routeOf (Tokens.ofLine .posix "exit 3 && ls") = .shell := rfl

end Line

end ShellLine
