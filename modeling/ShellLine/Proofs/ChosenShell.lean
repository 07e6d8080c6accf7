import ShellLine.Proofs.DisplayRoundTrip
import ShellLine.Proofs.ShellWords

/-!
# The shell that words choose

Words that choose a shell are written down as one line, and that line is split again. If it reads
back as these words, they are the shell in use from then on, and the next line that needs a shell is
handed to them. Nothing shields a quote or an operator in a word, though. So the line may also read
as other words, or as none at all, which leaves the default, or it may leave a quote open.
-/

namespace ShellLine.Builtin

open Display

/-- The choice is carried out, and the shell in use has just these words. -/
def Uses (words : List String) (s t : Session) : Prop :=
  runShell words s = .ok 0 t ∧ t.shell.program :: t.shell.args = words

/-- What becomes of a choice by these words, from the line that they are written as. -/
def Rereads (s : Session) (program : String) (args : List String) : Prop :=
  match Tokens.ofLine s.profile (line s.profile program args) with
  | .error quote => runShell (program :: args) s = .error (.openQuote quote) s
  | .ok tokens => ∃ t, runShell (program :: args) s = .ok 0 t ∧
      t.shell? = some ((Shell.ofWords? tokens.words).getD s.defaulted)

/-- No shell is left of the words. -/
def Vanishes (p : Profile) (program : String) (args : List String) : Prop :=
  ∃ tokens, Tokens.ofLine p (line p program args) = .ok tokens ∧
    Shell.ofWords? tokens.words = none

variable {s : Session} {program : String} {args : List String}

theorem showShell_apply (s : Session) : ∃ text,
    showShell s = .ok () (s.shelled.recorded [.out text]) :=
  ⟨_, (Action.bind_ok (CurrentShell.fetch_apply s)).trans rfl⟩

theorem line_ne_empty {p : Profile} (hp : p.Regular) (hne : program ≠ "") :
    line p program args ≠ "" := by
  have hchars : program.toList ≠ [] := by
    rwa [ne_eq, String.toList_eq_nil_iff]
  obtain ⟨c, cs, hcs⟩ := List.exists_cons_of_ne_nil hchars
  obtain ⟨tail, -, -, htext⟩ := text_cons p.escape program.toList (args.map String.toList)
  have hline : (line p program args).toList = program.toList.flatMap (unit p.escape) ++ tail := by
    rw [toList_line_of_ne hp hchars, List.map_cons, htext]
  intro h
  rw [h, hcs, List.flatMap_cons] at hline
  unfold unit at hline
  split at hline <;> cases hline

theorem rereads (hp : s.profile.Regular) (hne : program ≠ "") (hr : program :: args ≠ ["-r"]) :
    Rereads s program args := by
  unfold Rereads
  split
  · rename_i quote hquote
    exact runShell_eq_error_iff.mpr ⟨rfl, quote, rfl, hr, program, args, rfl, hquote⟩
  · rename_i tokens htokens
    have hchoose : chooseShell (program :: args) s =
        .ok () (s.chosen (line s.profile program args) tokens) := by
      rw [chooseShell_words hr, CurrentShell.select_text (line_ne_empty hp hne)]
      exact CurrentShell.choose_apply htokens
    obtain ⟨shown, hshow⟩ := showShell_apply (s.chosen (line s.profile program args) tokens)
    refine ⟨_, (Action.bind_ok hchoose).trans ((Action.bind_ok hshow).trans rfl), ?_⟩
    have hshelled := (s.chosen (line s.profile program args) tokens).shell?_shelled
    rw [Session.shell?_chosen] at hshelled
    exact hshelled

theorem exists_uses_of_ok {words : List String} {t : Session} (h : runShell words s = .ok 0 t) :
    (∃ t, Uses words s t) ↔ t.shell.program :: t.shell.args = words := by
  constructor
  · rintro ⟨u, hu, hwords⟩
    cases h.symm.trans hu
    exact hwords
  · exact fun hwords => ⟨t, h, hwords⟩

/-- The shell in use is of these words if the line reads as them, or reads as none and they are the
words of the default. -/
theorem exists_uses_iff (hp : s.profile.Regular) (hne : program ≠ "")
    (hr : program :: args ≠ ["-r"]) :
    (∃ t, Uses (program :: args) s t) ↔
      (∃ flagged, Tokens.ofLine s.profile (line s.profile program args) =
          .ok ⟨program :: args, flagged⟩) ∨
        (Vanishes s.profile program args ∧ s.defaulted.words = program :: args) := by
  have hreread := rereads hp hne hr
  unfold Rereads at hreread
  cases htokens : Tokens.ofLine s.profile (line s.profile program args) with
  | error quote =>
    rw [htokens] at hreread
    constructor
    · rintro ⟨t, hrun, -⟩
      cases hrun.symm.trans hreread
    · rintro (⟨flagged, h⟩ | ⟨⟨tokens, h, -⟩, -⟩)
      · cases h
      · cases htokens.symm.trans h
  | ok tokens =>
    rw [htokens] at hreread
    obtain ⟨t, hrun, hshell⟩ := hreread
    rw [exists_uses_of_ok hrun, Session.words_of_shell? hshell]
    obtain ⟨words, flagged⟩ := tokens
    cases hread : Shell.ofWords? words with
    | none =>
      have hvanish : Vanishes s.profile program args := ⟨_, htokens, hread⟩
      constructor
      · exact fun hwords => .inr ⟨hvanish, hwords⟩
      · rintro (⟨flagged', h⟩ | ⟨-, hwords⟩)
        · cases h
          rw [Shell.ofWords?, Shell.of?_of_ne hne] at hread
          cases hread
        · exact hwords
    | some shell =>
      have hwords := Shell.ofWords?_eq_some_iff.mp hread
      constructor
      · intro h
        have he : words = program :: args := hwords.trans h
        exact .inl ⟨flagged, by rw [he]⟩
      · rintro (⟨flagged', h⟩ | ⟨⟨tokens', h, hnone⟩, -⟩)
        · cases h
          exact hwords.symm
        · cases htokens.symm.trans h
          cases hread.symm.trans hnone

theorem Uses.profile {words : List String} {t : Session} (h : Uses words s t) :
    t.profile = s.profile := by
  have hkeeps := keeps_run Session.standing_unmoved .shell words s
  have hfinal : (run .shell words).final s = t := Action.final_of_ok h.1
  exact (Session.carries_of_standing (hfinal ▸ hkeeps)).profile

theorem Uses.hands {t : Session} (hne : program ≠ "") (h : Uses (program :: args) s t)
    {text : String} {words : List String}
    (htokens : Tokens.ofLine s.profile text = .ok ⟨words, true⟩) :
    ∃ launch : Launch, ((Line.execute text).final t).launches = t.launches ++ [launch] ∧
      launch.Hands s.profile.posixLike ⟨program, args, hne⟩ text := by
  have hshell : t.shell? = some ⟨program, args, hne⟩ := by
    obtain ⟨hprogram, hargs⟩ := List.cons.inj h.2
    exact t.shell?_eq_some_iff.mpr ⟨hprogram, hargs⟩
  obtain ⟨launch, hlaunch, hhands⟩ := Line.execute_hands (s := t) (h.profile.symm ▸ htokens)
  rw [hshell, h.profile] at hhands
  exact ⟨launch, hlaunch, hhands⟩

/-- The words are used if the line that they are written as reads as them, which without quotes is
if each of them is a run of one operator or has nothing in it that breaks a word off, and the first
starts in sight. Then the next line that needs a shell is handed to them. -/
theorem stock_uses_iff (onWindows : Bool) (hs : s.profile = .stock onWindows) (hne : program ≠ "")
    (hr : program :: args ≠ ["-r"]) :
    Rereads s program args ∧
      ((∃ t, Uses (program :: args) s t) ↔
        (∃ flagged, Tokens.ofLine s.profile (line s.profile program args) =
            .ok ⟨program :: args, flagged⟩) ∨
          (Vanishes s.profile program args ∧ s.defaulted.words = program :: args)) ∧
      ((∀ part ∈ program :: args, ∀ q : Quote, q.char ∉ part.toList) →
        ((∃ flagged, Tokens.ofLine s.profile (line s.profile program args) =
            .ok ⟨program :: args, flagged⟩) ↔
          (∀ part ∈ program :: args, ReadsBack s.profile part.toList) ∧
            StartsInSight program.toList)) ∧
      ∀ t, Uses (program :: args) s t → ∀ text words,
        Tokens.ofLine s.profile text = .ok ⟨words, true⟩ →
          ∃ launch : Launch, ((Line.execute text).final t).launches = t.launches ++ [launch] ∧
            launch.Hands s.profile.posixLike ⟨program, args, hne⟩ text := by
  have hp : s.profile.Regular := hs ▸ Profile.stock_regular onWindows
  refine ⟨rereads hp hne hr, exists_uses_iff hp hne hr, ?_, fun t h text words => h.hands hne⟩
  intro hq
  constructor
  · rintro ⟨flagged, h⟩
    exact readsBack_of_ofLine_line hp hq h
  · rintro ⟨hback, hsight⟩
    obtain ⟨flagged, h, -⟩ := ofLine_line_of_readsBack hp hq hback hsight
    exact ⟨flagged, h⟩

theorem stock_uses_iff_blank :
    let s : Session := { profile := .windows, host := {} }
    ∃ t, Uses ["my shell", "-x"] s t ∧
      ∃ launch : Launch, ((Line.execute "dir | more").final t).launches = t.launches ++ [launch] ∧
        ∃ path, launch.argv = ["my shell", "-x", path] := by
  intro s
  have hne : "my shell" ≠ "" := by decide
  have hr : ["my shell", "-x"] ≠ ["-r"] := by decide
  obtain ⟨-, huses, -, hhands⟩ := stock_uses_iff (s := s) true rfl hne hr
  have hread : Tokens.ofLine s.profile (line s.profile "my shell" ["-x"]) =
      .ok ⟨["my shell", "-x"], false⟩ := by decide +kernel
  have hline : Tokens.ofLine s.profile "dir | more" = .ok ⟨["dir", "|", "more"], true⟩ := by
    decide +kernel
  obtain ⟨t, ht⟩ := huses.mpr (.inl ⟨false, hread⟩)
  obtain ⟨launch, hlaunch, path, hargv, -⟩ := hhands t ht _ _ hline
  exact ⟨t, ht, launch, hlaunch, path, hargv⟩

/-- A word with an operator in it is taken apart. -/
theorem not_forall_exists_uses :
    ¬ ∀ (onWindows : Bool) (s : Session) (program : String) (args : List String),
      s.profile = .stock onWindows → program ≠ "" → program :: args ≠ ["-r"] →
        ∃ t, Uses (program :: args) s t := by
  intro h
  let s : Session := { profile := .posix, host := {} }
  obtain ⟨t, hrun, hwords⟩ := h false s "/opt/tools (x86)/sh" ["-c"] rfl (by decide) (by decide)
  let chosen := (runShell ["/opt/tools (x86)/sh", "-c"]).final s
  have hfinal : chosen = t := Action.final_of_ok hrun
  have hparts : chosen.shell.program = "/opt/tools " := by
    decide +kernel
  rw [hfinal, (List.cons.inj hwords).1] at hparts
  revert hparts
  decide

end ShellLine.Builtin
