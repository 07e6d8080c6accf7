import ShellLine.CommandLine
import ShellLine.Proofs.ShellWords

/-!
# Showing how words are split, and running them

Words on the command line are shown or run, and one switch decides which. Both begin with the same
line and the same split of it. So what is shown tells beforehand what a run does: which process it
starts, that the line goes to the shell of the platform, or that nothing is started. Showing the
words starts nothing itself.
-/

namespace ShellLine

theorem Action.Keeps.final_bind {α β γ : Type} {view : Session → γ} {f : α → Action β}
    (hf : ∀ x, Keeps view (f x)) (a : Action α) (s : Session) :
    view ((a >>= f).final s) = view (a.final s) := by
  obtain ⟨x, -, h⟩ | h := Action.final_bind a f s
  · rw [h, hf x]
  · rw [h]

namespace Options

/-- The same options, but the words are only to be shown. -/
def showing (o : Options) : Options :=
  { o with split := true }

theorem apply_showing (o : Options) (switch : Switch) :
    o.showing.apply switch = (o.apply switch).map showing := by
  cases switch with
  | windows => unfold apply choose showing; dsimp only; split <;> rfl
  | posix => unfold apply choose showing; dsimp only; split <;> rfl
  | _ => rfl

theorem foldlM_apply_showing (o : Options) (switches : List Switch) :
    switches.foldlM apply o.showing = (switches.foldlM apply o).map showing := by
  induction switches generalizing o with
  | nil => rfl
  | cons switch switches ih =>
    rw [List.foldlM_cons, List.foldlM_cons, apply_showing]
    cases o.apply switch with
    | error stop => rfl
    | ok o' => exact ih o'

theorem finish_showing (o : Options) (unknown : List String) :
    o.showing.finish unknown = (o.finish unknown).map showing := by
  unfold finish
  split <;> rfl

theorem take_showing (o : Options) (unknown : List String) (words : List (String × Switch.Word)) :
    take o.showing unknown words = (take o unknown words).map showing := by
  fun_induction take o unknown words with
  | case1 o unknown => exact finish_showing o unknown
  | case2 o unknown word rest ih => exact ih
  | case3 o unknown word rest =>
    exact finish_showing { o with words := word :: rest.map Prod.fst } unknown
  | case4 o unknown word written rest misuse h => rw [take, h]; rfl
  | case5 o unknown word written rest switches h ih =>
    rw [take, h]
    dsimp only
    rw [foldlM_apply_showing]
    cases switches.foldlM apply o with
    | error stop => rfl
    | ok o' => exact ih o'

/-- The switch that asks for showing may be put before any accepted command line. -/
theorem ofArgs_split {args : List String} {o : Options} (h : ofArgs args = .ok o) :
    ofArgs ("--split" :: args) = .ok o.showing := by
  have hclassify : Switch.classify "--split" = .ok (.switch ⟨.split, "--split", none⟩) := by
    decide +kernel
  unfold ofArgs at h ⊢
  rw [Switch.classifyAll, if_neg (by decide), hclassify]
  cases hwords : Switch.classifyAll args with
  | error misuse =>
    rw [hwords] at h
    cases h
  | ok words =>
    rw [hwords] at h
    have htake : take {} [] words = .ok o := h
    have hshowing := take_showing {} [] words
    rw [htake] at hshowing
    exact hshowing

end Options

namespace CommandLine

/-- What is printed where words are shown. -/
def shown (words : List String) (needsShell : Bool) : List Event :=
  words.map (fun word => .out (word ++ "\n")) ++
    [.out ("# requires shell: " ++ (if needsShell then "yes" else "no") ++ "\n")]

def reported (quote : OpenQuote) : List Event :=
  [.err ("shellcmd: " ++ quote.message ++ "\n")]

theorem shown_inj {words words' : List String} {needsShell needsShell' : Bool} :
    shown words needsShell = shown words' needsShell' ↔
      words = words' ∧ needsShell = needsShell' := by
  refine ⟨fun h => ?_, fun ⟨hw, hn⟩ => by rw [hw, hn]⟩
  obtain ⟨hwords, hlast⟩ := List.append_inj' h rfl
  have hline (a b : String) (hab : Event.out (a ++ "\n") = .out (b ++ "\n")) : a = b := by
    simpa using hab
  refine ⟨(List.map_inj_right hline).mp hwords, ?_⟩
  cases needsShell <;> cases needsShell' <;> first | rfl | simp at hlast

section Course

/-- From this host on, the course printed these texts. -/
def Course.Prints (course : Course) (host : Host) (texts : List Event) : Prop :=
  Journal.printed course.host.journal = Journal.printed host.journal ++ texts

/-- From this host on, the course started these processes. -/
def Course.Starts (course : Course) (host : Host) (launches : List Launch) : Prop :=
  Journal.launches course.host.journal = Journal.launches host.journal ++ launches

variable {host : Host} {args : List String} {o : Options}

theorem host_run (h : Options.ofArgs args = .ok o) (hw : o.words ≠ []) (reads : List Read) :
    (run host reads args).host = ((carryOut o).final (session o host)).host := by
  unfold run runOptions
  simp only [h, hw, if_false, Action.final]
  cases carryOut o (session o host) <;> rfl

theorem ending_run (h : Options.ofArgs args = .ok o) (hw : o.words ≠ []) (reads : List Read)
    {status : Int} {t : Session} (hc : carryOut o (session o host) = .ok status t) :
    (run host reads args).ending = .returned status := by
  unfold run runOptions
  simp only [h, hw, if_false, hc]

end Course

section Line

variable {s : Session} {text : String}

theorem forM_print (words : List String) (s : Session) :
    (words.forM fun word => Action.print (word ++ "\n")) s =
      .ok () (s.recorded (words.map fun word => .out (word ++ "\n"))) := by
  induction words generalizing s with
  | nil => exact congrArg (EStateM.Result.ok ()) s.recorded_nil.symm
  | cons word words ih =>
    refine (Action.bind_ok (Action.record_apply _ s)).trans ?_
    rw [ih, Session.recorded_recorded]
    rfl

theorem needsShell_ofTokens {p : Profile} {tokens : Tokens}
    (h : Tokens.ofLine p text = .ok tokens) :
    (Command.ofTokens text tokens).needsShell = tokens.needsShell := by
  have hne := Tokens.words_ne_nil_of_needsShell h
  obtain ⟨words, needsShell⟩ := tokens
  cases words with
  | nil => exact (Bool.eq_false_iff.mpr fun hs => hne hs rfl).symm
  | cons program args => rfl

theorem showSplit_of_ok {tokens : Tokens} (h : Tokens.ofLine s.profile text = .ok tokens) :
    showSplit text s = .ok 0 (s.recorded (shown tokens.words tokens.needsShell)) := by
  rw [showSplit, Action.bind_ok (Run.readLine_of_ok h), Command.tokens_ofTokens,
    Action.bind_ok (forM_print tokens.words s), needsShell_ofTokens h]
  refine (Action.bind_ok (Action.record_apply _ _)).trans ?_
  rw [Session.recorded_recorded]
  rfl

theorem readLine_of_error {quote : OpenQuote} (h : Tokens.ofLine s.profile text = .error quote) :
    Run.readLine text s = .error (.openQuote quote) s := by
  rw [Run.readLine, Action.get_bind, Command.ofLine, h]
  rfl

/-- Shown or run, a line with an open quote is reported. -/
theorem carryOut_of_error {o : Options} {quote : OpenQuote}
    (h : Tokens.ofLine s.profile (" ".intercalate o.words) = .error quote) :
    carryOut o s = .ok 2 (s.recorded (reported quote)) := by
  have hread := readLine_of_error h
  unfold carryOut reporting
  cases o.split with
  | true =>
    rw [if_pos rfl, showSplit, Action.bind_error hread]
    rfl
  | false =>
    rw [if_neg Bool.false_ne_true, runOnce, Run.line, Action.bind_error (Action.bind_error hread)]
    rfl

theorem launches_reporting (body : Action Int) (s : Session) :
    ((reporting body).final s).launches = (body.final s).launches := by
  unfold Action.final reporting
  cases body s with
  | ok status t => rfl
  | error fault t =>
    cases fault with
    | openQuote quote => exact Session.launches_unmoved.recorded t _ rfl
    | _ => rfl

theorem launches_runOnce (inShell : Option Bool) (text : String) (s : Session) :
    ((runOnce inShell text).final s).launches =
      ((Run.line { inShell } text).final s).launches := by
  apply Action.Keeps.final_bind
  intro result t
  have hreturn : (do Action.printResult result; return result.status : Action Int) t =
      .ok result.status (t.recorded result.printed) :=
    Action.bind_ok (Action.printResult_apply result t)
  rw [Action.final_of_ok hreturn, Session.launches_recorded, result.launches_printed,
    List.append_nil]

theorem line_of_ok {tokens : Tokens} (h : Tokens.ofLine s.profile text = .ok tokens)
    (o : Run.Settings) :
    Run.line o text s = Run.execute o (.ofTokens text tokens) s := by
  rw [Run.line, Action.bind_ok (Run.readLine_of_ok h)]

/-- Without a program there is nothing to run. -/
theorem runOnce_of_idle {tokens : Tokens} (h : Tokens.ofLine s.profile text = .ok tokens)
    (hs : tokens.needsShell = false) (hp : tokens.words.headD "" = "") :
    runOnce none text s = .ok 1 s := by
  have hidle : Run.hasWork (.ofTokens text tokens)
      (Run.Settings.usesShell {} (.ofTokens text tokens)) = false := by
    have hshell : Run.Settings.usesShell {} (.ofTokens text tokens) = false :=
      (needsShell_ofTokens h).trans hs
    rw [hshell]
    obtain ⟨words, needsShell⟩ := tokens
    cases words with
    | nil => rfl
    | cons program args => simpa [Run.hasWork, Command.ofTokens] using hp
  rw [runOnce, Action.bind_ok ((line_of_ok h _).trans (Run.execute_of_idle hidle s))]
  rfl

theorem launches_of_words {program : String} {args : List String}
    (h : Tokens.ofLine s.profile text = .ok ⟨program :: args, false⟩) (hp : program ≠ "") :
    ∃ launch : Launch, launch.argv = program :: args ∧
      ((runOnce none text).final s).launches = s.launches ++ [launch] := by
  obtain ⟨t, hexecute, hran, -⟩ := Run.execute_direct (o := {})
    (c := .ofTokens text ⟨program :: args, false⟩) rfl hp s
  refine ⟨Run.launch {} (program :: args) s, rfl, ?_⟩
  rw [launches_runOnce, Action.final, line_of_ok h, hexecute]
  exact (congrArg Session.launches (Action.ofExcept_final _ t)).trans hran.launches

theorem launches_of_needsShell {words : List String}
    (h : Tokens.ofLine s.profile text = .ok ⟨words, true⟩) :
    ∃ launch : Launch, launch.Hands s.profile.posixLike (s.shell?.getD s.defaulted) text ∧
      ((runOnce none text).final s).launches = s.launches ++ [launch] := by
  obtain ⟨program, args, rfl⟩ :=
    List.exists_cons_of_ne_nil (Tokens.words_ne_nil_of_needsShell h rfl)
  have hwork := Tokens.not_isAllBlank_of_words h (List.cons_ne_nil program args)
  obtain ⟨t, launch, r, hexecute, hran, hhands⟩ := Run.execute_hands (o := {})
    (c := .ofTokens text ⟨program :: args, true⟩) rfl hwork s
  refine ⟨launch, hhands, ?_⟩
  rw [launches_runOnce, Action.final, line_of_ok h, hexecute]
  exact (congrArg Session.launches (Action.ofExcept_final r t)).trans hran.launches

end Line

section Preview

variable (host : Host)

/-- Two courses from this host with the same text: one shows how it is split, the other runs it. -/
structure Preview (onWindows : Bool) (text : String) (showing running : Course) : Prop where
  quiet : showing.Starts host []
  shows : (∃ words needsShell, showing.Prints host (shown words needsShell) ∧
      showing.ending = .returned 0) ∨
    ∃ quote, showing.Prints host (reported quote) ∧ showing.ending = .returned 2
  direct : ∀ words, showing.Prints host (shown words false) →
    (words.headD "" ≠ "" → ∃ launch : Launch, launch.argv = words ∧ running.Starts host [launch]) ∧
      (words.headD "" = "" → running.Starts host [] ∧ running.ending = .returned 1)
  shell : ∀ words, showing.Prints host (shown words true) →
    ∃ launch : Launch, running.Starts host [launch] ∧
      launch.Hands (!onWindows) (Shell.default (!onWindows) host.environ.get?) text
  refused : ∀ message, showing.Prints host [.err message] →
    running.Prints host [.err message] ∧ running.ending = .returned 2 ∧ running.Starts host []

variable {host}

theorem Course.Prints.eq {course : Course} {texts texts' : List Event}
    (h : course.Prints host texts) (h' : course.Prints host texts') : texts = texts' :=
  List.append_cancel_left (h.symm.trans h')

/-- A text that is shown is no report. -/
theorem shown_ne (words : List String) (needsShell : Bool) (message : String) :
    shown words needsShell ≠ [.err message] := by
  cases words with
  | nil => simp [shown]
  | cons word words => simp [shown]

theorem printed_shown (words : List String) (needsShell : Bool) :
    Journal.printed (shown words needsShell) = shown words needsShell ∧
      Journal.launches (shown words needsShell) = [] := by
  constructor
  · simp [Journal.printed, shown]
  · simp [Journal.launches, shown]

variable {args : List String} {o : Options}

theorem starts_of_launches (h : Options.ofArgs args = .ok o) (hw : o.words ≠ [])
    (reads : List Read) {launches : List Launch}
    (hl : ((carryOut o).final (session o host)).launches =
      (session o host).launches ++ launches) :
    (run host reads args).Starts host launches := by
  have hsession : (session o host).launches = Journal.launches host.journal :=
    (Journal.launches_append _ _).trans (List.append_nil _)
  rw [Course.Starts, host_run h hw, ← hsession]
  exact hl

theorem prints_of_recorded (h : Options.ofArgs args = .ok o) (hw : o.words ≠ [])
    (reads : List Read) {events : List Event} {status : Int}
    (hc : carryOut o (session o host) = .ok status ((session o host).recorded events))
    (hp : Journal.printed events = events) (hl : Journal.launches events = []) :
    (run host reads args).Prints host events ∧ (run host reads args).Starts host [] ∧
      (run host reads args).ending = .returned status := by
  have hfinal := Action.final_of_ok hc
  have hsession : (session o host).printed = Journal.printed host.journal :=
    (Journal.printed_append _ _).trans (List.append_nil _)
  refine ⟨?_, starts_of_launches h hw reads ?_, ending_run h hw reads hc⟩
  · have hprinted := Session.printed_recorded (session o host) events
    rw [hp, hsession] at hprinted
    rw [Course.Prints, host_run h hw, hfinal]
    exact hprinted
  · rw [hfinal, Session.launches_recorded, hl]

theorem posixLike_session (o : Options) (host : Host) :
    (session o host).profile.posixLike = !o.onWindows.getD host.onWindows := by
  change (Profile.stock _).posixLike = _
  cases o.onWindows.getD host.onWindows <;> rfl

section Running

variable (h : Options.ofArgs args = .ok o) (hw : o.words ≠ []) (hsplit : o.split = false)
  (hshell : o.inShell = false) (reads : List Read)
include h hw hsplit hshell

/-- A run of the words starts what their line starts. -/
theorem starts_of_runOnce {launches : List Launch}
    (hl : ((runOnce none (" ".intercalate o.words)).final (session o host)).launches =
      (session o host).launches ++ launches) :
    (run host reads args).Starts host launches := by
  apply starts_of_launches h hw reads
  rw [carryOut, hsplit, hshell, ← hl]
  exact launches_reporting _ _

theorem starts_words {words : List String} (hne : words.headD "" ≠ "")
    (htokens : Tokens.ofLine (session o host).profile (" ".intercalate o.words) =
      .ok ⟨words, false⟩) :
    ∃ launch : Launch, launch.argv = words ∧ (run host reads args).Starts host [launch] := by
  cases words with
  | nil => exact absurd rfl hne
  | cons program rest =>
    obtain ⟨launch, hargv, hlaunch⟩ := launches_of_words htokens hne
    exact ⟨launch, hargv, starts_of_runOnce h hw hsplit hshell reads hlaunch⟩

theorem starts_nothing {tokens : Tokens} (hs : tokens.needsShell = false)
    (hidle : tokens.words.headD "" = "")
    (htokens : Tokens.ofLine (session o host).profile (" ".intercalate o.words) = .ok tokens) :
    (run host reads args).Starts host [] ∧ (run host reads args).ending = .returned 1 := by
  have hrun : carryOut o (session o host) = .ok 1 ((session o host).recorded []) := by
    rw [carryOut, hsplit, hshell, if_neg Bool.false_ne_true, if_neg Bool.false_ne_true, reporting,
      runOnce_of_idle htokens hs hidle, Session.recorded_nil]
  exact (prints_of_recorded h hw reads hrun rfl rfl).2

theorem starts_shell {words : List String}
    (htokens : Tokens.ofLine (session o host).profile (" ".intercalate o.words) =
      .ok ⟨words, true⟩) :
    let posixLike := !o.onWindows.getD host.onWindows
    ∃ launch : Launch, (run host reads args).Starts host [launch] ∧
      launch.Hands posixLike (Shell.default posixLike host.environ.get?)
        (" ".intercalate o.words) := by
  intro posixLike
  obtain ⟨launch, hhands, hlaunch⟩ := launches_of_needsShell htokens
  have hposix : (session o host).profile.posixLike = posixLike := posixLike_session o host
  have hdefault : (session o host).shell?.getD (session o host).defaulted =
      Shell.default posixLike host.environ.get? := by
    rw [← hposix]
    rfl
  rw [hposix, hdefault] at hhands
  exact ⟨launch, starts_of_runOnce h hw hsplit hshell reads hlaunch, hhands⟩

end Running

/-- What is shown with `--split` is what is run without it. -/
theorem preview_of_ofArgs (host : Host) {args : List String} {o : Options}
    (h : Options.ofArgs args = .ok o) (hsplit : o.split = false) (hshell : o.inShell = false)
    (hw : o.words ≠ []) :
    Options.ofArgs ("--split" :: args) = .ok { o with split := true } ∧
      ∀ (showing : List String) (o' : Options) (reads reads' : List Read),
        Options.ofArgs showing = .ok o' → o'.split = true → o'.onWindows = o.onWindows →
        o'.words = o.words →
        Preview host (o.onWindows.getD host.onWindows) (" ".intercalate o.words)
          (run host reads' showing) (run host reads args) := by
  refine ⟨Options.ofArgs_split h, fun showing o' reads reads' h' hsplit' hplatform hwords => ?_⟩
  have hw' : o'.words ≠ [] := hwords ▸ hw
  have hsession : session o' host = session o host := by rw [session, session, hplatform]
  cases htokens : Tokens.ofLine (session o host).profile (" ".intercalate o.words) with
  | error quote =>
    have hshow : carryOut o' (session o' host) =
        .ok 2 ((session o' host).recorded (reported quote)) :=
      carryOut_of_error (by rw [hsession, hwords]; exact htokens)
    obtain ⟨hprints', hstarts', hending'⟩ := prints_of_recorded h' hw' reads' hshow rfl rfl
    obtain ⟨hprints, hstarts, hending⟩ :=
      prints_of_recorded h hw reads (carryOut_of_error htokens) rfl rfl
    exact {
      quiet := hstarts'
      shows := .inr ⟨quote, hprints', hending'⟩
      direct := fun words hshown => absurd (hshown.eq hprints') (shown_ne _ _ _)
      shell := fun words hshown => absurd (hshown.eq hprints') (shown_ne _ _ _)
      refused := fun message hmessage => by
        rw [hmessage.eq hprints']
        exact ⟨hprints, hending, hstarts⟩ }
  | ok tokens =>
    have hshow : carryOut o' (session o' host) =
        .ok 0 ((session o' host).recorded (shown tokens.words tokens.needsShell)) := by
      rw [carryOut, hsplit', if_pos rfl, hwords, hsession, reporting, showSplit_of_ok htokens]
    obtain ⟨hprinted, hnone⟩ := printed_shown tokens.words tokens.needsShell
    obtain ⟨hprints', hstarts', hending'⟩ :=
      prints_of_recorded h' hw' reads' hshow hprinted hnone
    obtain ⟨words, needsShell⟩ := tokens
    refine {
      quiet := hstarts'
      shows := .inl ⟨_, _, hprints', hending'⟩
      direct := fun words' hshown => ?_
      shell := fun words' hshown => ?_
      refused := fun message hmessage => absurd (hprints'.eq hmessage) (shown_ne _ _ _) }
    · obtain ⟨rfl, rfl⟩ := shown_inj.mp (hprints'.eq hshown)
      exact ⟨fun hne => starts_words h hw hsplit hshell reads hne htokens,
        fun hidle => starts_nothing h hw hsplit hshell reads rfl hidle htokens⟩
    · obtain ⟨rfl, rfl⟩ := shown_inj.mp (hprints'.eq hshown)
      exact starts_shell h hw hsplit hshell reads htokens

theorem preview_of_ofArgs_pipe :
    let showing (platform : String) := run {} [] [platform, "--split", "echo", "a|b"]
    let running (platform : String) := run {} [] [platform, "echo", "a|b"]
    (Preview {} false (" ".intercalate ["echo", "a|b"]) (showing "--posix") (running "--posix") ∧
      Journal.stdout (showing "--posix").host.journal =
        "echo\na\n|\nb\n# requires shell: yes\n" ∧
      (Journal.launches (running "--posix").host.journal).map (·.argv) =
        [["sh", "-c", "echo a|b"]]) ∧
    Preview {} true (" ".intercalate ["echo", "a|b"]) (showing "--windows") (running "--windows") ∧
      Journal.stdout (showing "--windows").host.journal =
        "echo\na\n|\nb\n# requires shell: yes\n" ∧
      (Journal.launches (running "--windows").host.journal).map (fun l => (l.argv, l.script)) =
        [(["cmd.exe", "/c", "/tmp/shell_cmd/shell_cmd.bat"],
          some (Text.Utf8.encode "@echo off\r\necho a|b\r\nexit /B %errorlevel%\r\n"))] := by
  intro showing running
  have hposix : Options.ofArgs ["--posix", "echo", "a|b"] =
      .ok { onWindows := some false, words := ["echo", "a|b"] } := by decide +kernel
  have hposixSplit : Options.ofArgs ["--posix", "--split", "echo", "a|b"] =
      .ok { onWindows := some false, split := true, words := ["echo", "a|b"] } := by
    decide +kernel
  have hwindows : Options.ofArgs ["--windows", "echo", "a|b"] =
      .ok { onWindows := some true, words := ["echo", "a|b"] } := by decide +kernel
  have hwindowsSplit : Options.ofArgs ["--windows", "--split", "echo", "a|b"] =
      .ok { onWindows := some true, split := true, words := ["echo", "a|b"] } := by
    decide +kernel
  have hpreview := (preview_of_ofArgs {} hposix rfl rfl (by decide)).2 _ _ [] [] hposixSplit rfl
    rfl rfl
  have hpreview' := (preview_of_ofArgs {} hwindows rfl rfl (by decide)).2 _ _ [] [] hwindowsSplit
    rfl rfl rfl
  exact ⟨⟨hpreview, by decide +kernel, by decide +kernel⟩, hpreview', by decide +kernel,
    by decide +kernel⟩

end Preview

end CommandLine

end ShellLine
