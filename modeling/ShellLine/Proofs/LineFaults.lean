import ShellLine.Proofs.LineDispatch

/-!
# Where a line may stop

A line stops at a fault of the system, at the request to leave, or at a quote that a chosen shell
leaves open when its words are written down and split again. The system itself has no part in the
last two, nor does it end the input, so such faults tell which builtin was carried out. Wherever a
line stops, the profile and the status of the last command are what they were.
-/

namespace ShellLine

/-- Only a session raises these, when it splits a line, leaves or reads on. -/
def Fault.isOwn : Fault → Bool
  | .openQuote _ | .exit _ | .endOfInput => true
  | _ => false

namespace Host

/-- No start of a process and no removal of a folder stops at a fault that only a session
raises. -/
structure Plain (h : Host) : Prop where
  fates : ∀ fate ∈ h.laterFate :: h.fates, ∀ fault, fate = .fails fault → fault.isOwn = false
  removal : ∀ fault ∈ h.removal, fault.isOwn = false

theorem Plain.mono {h h' : Host} (hp : h.Plain) (hlater : h'.laterFate = h.laterFate)
    (hfates : h'.fates ⊆ h.fates) (hremoval : h'.removal = h.removal) : h'.Plain where
  fates fate hmem := hp.fates fate (by
    rw [hlater] at hmem
    exact List.cons_subset_cons _ hfates hmem)
  removal := hremoval ▸ hp.removal

theorem Plain.nextFate {h : Host} (hp : h.Plain) {fault : Fault} (hf : h.nextFate = .fails fault) :
    fault.isOwn = false := by
  refine hp.fates h.nextFate ?_ fault hf
  unfold Host.nextFate
  cases h.fates <;> simp

end Host

theorem Fate.Means.fault_cases {fate : Fate} {argv : List String} {fault : Fault}
    (h : fate.Means argv (.error fault)) : fate = .fails fault ∨ fault = .undecodable := by
  cases h with
  | failed => exact .inl rfl
  | noText => exact .inr rfl

theorem Session.isOwn_of_afterRemoval {s : Session} {α : Type} (hp : s.host.Plain)
    {r : Except Fault α} (hr : ∀ fault, r = .error fault → fault.isOwn = false) {fault : Fault}
    (h : s.afterRemoval r = .error fault) : fault.isOwn = false := by
  unfold afterRemoval at h
  split at h
  · exact hr fault h
  · rename_i removal hremoval
    cases h
    exact hp.removal fault (Option.eq_some_of_filter_eq_some hremoval)

namespace Action

variable {α β : Type}

/-- Stops at no fault. -/
def Total (a : Action α) : Prop :=
  ∀ s, ∃ x t, a s = .ok x t

namespace Total

theorem pure (x : α) : Total (pure x : Action α) := fun s => ⟨x, s, rfl⟩

theorem get : Total get := fun s => ⟨s, s, rfl⟩

theorem modify (f : Session → Session) : Total (modify f) := fun s => ⟨(), f s, rfl⟩

theorem record (e : Event) : Total (record e) := fun s => ⟨(), _, record_apply e s⟩

theorem bind {a : Action α} {f : α → Action β} (ha : Total a) (hf : ∀ x, Total (f x)) :
    Total (a >>= f) := by
  intro s
  obtain ⟨x, t, h⟩ := ha s
  rw [bind_ok h]
  exact hf x t

end Total

end Action

open ShellLine.Action

namespace CurrentShell

theorem total_reset : Total reset := by
  refine .bind .get fun s => ?_
  split
  · exact .modify _
  · exact .pure _

theorem choose_of_error {s : Session} {text : String} {quote : OpenQuote}
    (h : Tokens.ofLine s.profile text = .error quote) :
    choose text s = .error (.openQuote quote) s := by
  have hc : Command.ofLine s.profile text = .error quote := by
    rw [Command.ofLine, h]
    rfl
  rw [choose, get_bind, hc]
  rfl

theorem select_text {text : String} (h : text ≠ "") (s : Session) :
    select (some text) false s = choose text s := by
  unfold select
  simp only [Option.getD_some, h, ne_eq, not_false_eq_true, if_true]

theorem total_select_empty : Total (select (some "") false) := by
  refine .bind .get fun s => ?_
  split
  · exact .modify _
  · exact .pure _

theorem choose_of_ok {s : Session} {text : String} {tokens : Tokens}
    (h : Tokens.ofLine s.profile text = .ok tokens) : ∃ t, choose text s = .ok () t := by
  rw [choose, get_bind, Command.ofLine_of_ok h]
  exact ⟨_, rfl⟩

end CurrentShell

theorem Search.total_which (onWindows : Bool) (environ : Environment) (name : String) :
    Total (Search.which onWindows environ name) := by
  refine .bind .get fun s => ?_
  dsimp only
  split
  · exact .pure _
  · split
    · exact .pure _
    · split
      · exact .bind (.record _) fun _ => .pure _
      · exact .bind (.record _) fun _ => .pure _

namespace Builtin

theorem fault_of_runCd {args : List String} {s t : Session} {fault : Fault}
    (h : runCd args s = .error fault t) : fault = .denied := by
  have henter : ∀ path fault, s.host.enter path = .error fault →
      fault = .denied ∨ fault = .notAFolder ∨ fault = .notFound := by
    intro path fault he
    unfold Host.enter at he
    dsimp only at he
    split at he
    · cases he
      exact .inl rfl
    · split at he
      · cases he
        exact .inr (.inl rfl)
      · split at he
        · cases he
        · cases he
          exact .inr (.inr rfl)
  rw [runCd, get_bind] at h
  cases he : s.host.enter (args.headD ((s.environ.get? "HOME").getD "/")) with
  | ok host =>
    rw [he] at h
    cases h
  | error fault' =>
    rw [he] at h
    rcases henter _ _ he with rfl | rfl | rfl
    · cases h
      rfl
    · cases h
    · cases h

/-- The status that leaving comes with: the numeral given, 0 without one, 2 if it is none. -/
def exitStatus (args : List String) : Int :=
  match args with
  | [] => 0
  | arg :: _ => (Text.int? arg).getD 2

theorem runExit_apply (args : List String) (s : Session) :
    ∃ t, runExit args s = .error (.exit (exitStatus args)) t := by
  cases args with
  | nil => exact ⟨s, rfl⟩
  | cons arg args =>
    unfold runExit exitStatus
    dsimp only
    cases Text.int? arg with
    | some status => exact ⟨s, rfl⟩
    | none => exact ⟨_, rfl⟩

theorem total_runWhich (names : List String) : Total (runWhich names) := by
  induction names with
  | nil => exact .pure _
  | cons name names ih =>
    refine .bind .get fun s => .bind (Search.total_which _ _ name) fun path => ?_
    split
    · exact .bind (.record _) fun _ => .bind ih fun _ => .pure _
    · exact .bind (.record _) fun _ => ih

theorem total_runSplit (args : List String) : Total (runSplit args) := by
  have hprint : Total (args.forM fun arg => print (arg ++ "\n")) := by
    induction args with
    | nil => exact .pure _
    | cons arg args ih => exact .bind (.record _) fun _ => ih
  exact .bind hprint fun _ => .pure _

theorem total_showShell : Total showShell :=
  .bind (fun s => ⟨_, _, CurrentShell.fetch_apply s⟩) fun _ => .bind .get fun _ => .record _

/-- The words of the shell to choose leave this quote open when they are written down. -/
def Reopens (p : Profile) (args : List String) (quote : OpenQuote) : Prop :=
  args ≠ ["-r"] ∧ ∃ program rest, args = program :: rest ∧
    Tokens.ofLine p (Display.line p program rest) = .error quote

theorem ofLine_empty (p : Profile) : Tokens.ofLine p "" = .ok ⟨[], false⟩ := rfl

theorem chooseShell_words {program : String} {rest : List String}
    (h : program :: rest ≠ ["-r"]) (s : Session) :
    chooseShell (program :: rest) s =
      CurrentShell.select (some (Display.line s.profile program rest)) false s := by
  rw [chooseShell.eq_3 program rest (by simpa using h)]
  rfl

theorem chooseShell_of_reopens {args : List String} {quote : OpenQuote} {s : Session}
    (h : Reopens s.profile args quote) : chooseShell args s = .error (.openQuote quote) s := by
  obtain ⟨hr, program, rest, rfl, hquote⟩ := h
  have hne : Display.line s.profile program rest ≠ "" := by
    intro he
    rw [he, ofLine_empty] at hquote
    cases hquote
  rw [chooseShell_words hr, CurrentShell.select_text hne]
  exact CurrentShell.choose_of_error hquote

theorem reopens_of_chooseShell {args : List String} {s t : Session} {fault : Fault}
    (h : chooseShell args s = .error fault t) :
    t = s ∧ ∃ quote, fault = .openQuote quote ∧ Reopens s.profile args quote := by
  cases args with
  | nil => cases h
  | cons program rest =>
    by_cases hr : program :: rest = ["-r"]
    · obtain ⟨x, u, hu⟩ := CurrentShell.total_reset s
      rw [hr] at h
      cases h.symm.trans hu
    · rw [chooseShell_words hr] at h
      by_cases hne : Display.line s.profile program rest = ""
      · obtain ⟨x, u, hu⟩ := CurrentShell.total_select_empty s
        rw [hne] at h
        cases h.symm.trans hu
      · rw [CurrentShell.select_text hne] at h
        cases hq : Tokens.ofLine s.profile (Display.line s.profile program rest) with
        | error quote =>
          cases h.symm.trans (CurrentShell.choose_of_error hq)
          exact ⟨rfl, quote, rfl, hr, program, rest, rfl, hq⟩
        | ok tokens =>
          obtain ⟨u, hu⟩ := CurrentShell.choose_of_ok hq
          cases h.symm.trans hu

/-- Choosing a shell stops exactly at a quote that its words leave open, before anything has
changed. -/
theorem runShell_eq_error_iff {args : List String} {s t : Session} {fault : Fault} :
    runShell args s = .error fault t ↔
      t = s ∧ ∃ quote, fault = .openQuote quote ∧ Reopens s.profile args quote := by
  constructor
  · intro h
    apply reopens_of_chooseShell
    cases hc : chooseShell args s with
    | ok x u =>
      have hshow : Total (do showShell; return (0 : Int)) :=
        .bind total_showShell fun _ => .pure _
      obtain ⟨y, v, hv⟩ := hshow u
      cases h.symm.trans ((bind_ok hc).trans hv)
    | error fault' t' =>
      cases h.symm.trans (bind_error hc)
      rfl
  · rintro ⟨rfl, quote, rfl, hquote⟩
    exact bind_error (chooseShell_of_reopens hquote)

theorem fault_of_run {b : Builtin} {args : List String} {s t : Session} {fault : Fault}
    (h : b.run args s = .error fault t) :
    fault = .denied ∨ (b = .exit ∧ fault = .exit (exitStatus args)) ∨
      (b = .shell ∧ t = s ∧ ∃ quote, fault = .openQuote quote ∧ Reopens s.profile args quote) := by
  cases b with
  | cd => exact .inl (fault_of_runCd h)
  | exit =>
    obtain ⟨u, hu⟩ := runExit_apply args s
    cases h.symm.trans hu
    exact .inr (.inl ⟨rfl, rfl⟩)
  | which =>
    obtain ⟨x, u, hu⟩ := total_runWhich args s
    cases h.symm.trans hu
  | shell => exact .inr (.inr ⟨rfl, runShell_eq_error_iff.mp h⟩)
  | split =>
    obtain ⟨x, u, hu⟩ := total_runSplit args s
    cases h.symm.trans hu

end Builtin

/-- What the next command finds as it was. -/
structure Session.Carries (s t : Session) : Prop where
  profile : t.profile = s.profile
  lastStatus : t.lastStatus = s.lastStatus
  plain : s.host.Plain → t.host.Plain

namespace Session

variable {s t : Session}

theorem Ran.carries {launch : Launch} (h : s.Ran t launch) : s.Carries t where
  profile := congrArg (·.profile) h.untouched
  lastStatus := congrArg (·.lastStatus) h.untouched
  plain hp := hp.mono (congrArg (·.host.laterFate) h.untouched)
    (h.fates ▸ (List.tail_sublist _).subset) (congrArg (·.host.removal) h.untouched)

theorem Carries.recorded (h : s.Carries t) (events : List Event) :
    s.Carries (t.recorded events) :=
  ⟨h.profile, h.lastStatus, fun hp => ⟨(h.plain hp).fates, (h.plain hp).removal⟩⟩

theorem Carries.refl (s : Session) : s.Carries s :=
  ⟨rfl, rfl, id⟩

/-- All but the shell, the folder and the journal. -/
def standing (s : Session) : Session :=
  { s with shell := {}, host := { s.host with cwd := "", journal := [] } }

theorem standing_unmoved : Unmoved standing where
  recorded _ _ _ := rfl
  shell _ _ := rfl
  cwd _ _ := rfl

theorem carries_of_standing (h : t.standing = s.standing) : s.Carries t where
  profile := congrArg (·.profile) h
  lastStatus := congrArg (·.lastStatus) h
  plain hp := by
    have hfates : t.host.fates = s.host.fates := congrArg (·.host.fates) h
    exact hp.mono (congrArg (·.host.laterFate) h) (hfates ▸ List.Subset.refl _)
      (congrArg (·.host.removal) h)

end Session

namespace Line

variable {text : String} {s t : Session}

theorem Answers.carries {r : Except Fault Result} (h : Answers text s t r)
    (ht : s.Carries t) : s.Carries ((execute text).final s) := by
  cases r with
  | ok r => exact (final_of_ok h).symm ▸ ht.recorded r.printed
  | error fault => exact (final_of_error h).symm ▸ ht

theorem execute_carries (text : String) (s : Session) : s.Carries ((execute text).final s) := by
  obtain ⟨route, h⟩ := exists_route text s
  cases route with
  | refused =>
    obtain ⟨quote, -, he⟩ := h
    exact (final_of_ok he).symm ▸ (Session.Carries.refl s).recorded _
  | idle =>
    obtain ⟨flagged, -, he⟩ := h
    exact (final_of_ok he).symm ▸ Session.Carries.refl s
  | builtin =>
    obtain ⟨b, args, -, he, -⟩ := h
    rw [final, he]
    exact Session.carries_of_standing (Builtin.keeps_run Session.standing_unmoved b args s)
  | direct =>
    obtain ⟨program, args, -, -, hempty, hstart⟩ := h
    by_cases hp : program = ""
    · exact (final_of_ok (hempty hp)).symm ▸ Session.Carries.refl s
    · obtain ⟨t, script, r, hran, -, -, hanswers⟩ := hstart hp
      exact hanswers.carries hran.carries
  | shell =>
    obtain ⟨words, shell, fetched, t, r, -, -, -, hposix, hscript⟩ := h
    cases hw : s.onWindows with
    | false =>
      obtain ⟨script, hran, -, hanswers⟩ := hposix hw
      exact hanswers.carries hran.carries
    | true =>
      obtain ⟨path, hran, -, hanswers⟩ := hscript hw
      exact hanswers.carries hran.carries

/-- A fault that only a session raises comes from leaving or from choosing a shell. -/
theorem own_fault_of_execute {fault : Fault} (hp : s.host.Plain)
    (h : execute text s = .error fault t) (hown : fault.isOwn = true) :
    (∃ args, Tokens.ofLine s.profile text = .ok ⟨Builtin.exit.name :: args, false⟩ ∧
        fault = .exit (Builtin.exitStatus args)) ∨
      ∃ args quote, Tokens.ofLine s.profile text = .ok ⟨Builtin.shell.name :: args, false⟩ ∧
        t = s ∧ fault = .openQuote quote ∧ Builtin.Reopens s.profile args quote := by
  have hreply {r : Except Fault Result}
      (hr : ∀ fault, r = .error fault → fault.isOwn = false) {u : Session}
      (ha : Answers text s u r) : False := by
    cases r with
    | ok r => cases h.symm.trans ha
    | error fault' =>
      cases h.symm.trans ha
      rw [hr fault rfl] at hown
      cases hown
  have hstart {argv : List String} {r : Except Fault Result} (hr : s.host.nextFate.Means argv r)
      (fault : Fault) (hf : r = .error fault) : fault.isOwn = false := by
    subst hf
    rcases hr.fault_cases with hf | rfl
    · exact hp.nextFate hf
    · rfl
  obtain ⟨route, hroute⟩ := exists_route text s
  cases route with
  | refused =>
    obtain ⟨quote, -, he⟩ := hroute
    cases h.symm.trans he
  | idle =>
    obtain ⟨flagged, -, he⟩ := hroute
    cases h.symm.trans he
  | builtin =>
    obtain ⟨b, args, htokens, he, -⟩ := hroute
    rcases Builtin.fault_of_run (he.symm.trans h) with rfl | ⟨rfl, rfl⟩ | ⟨rfl, ht, quote, hf, hq⟩
    · cases hown
    · exact .inl ⟨args, htokens, rfl⟩
    · exact .inr ⟨args, quote, htokens, ht, hf, hq⟩
  | direct =>
    obtain ⟨program, args, -, -, hempty, hrun⟩ := hroute
    by_cases hprogram : program = ""
    · cases h.symm.trans (hempty hprogram)
    · obtain ⟨u, script, r, -, -, hmeans, hanswers⟩ := hrun hprogram
      exact (hreply (hstart hmeans) hanswers).elim
  | shell =>
    obtain ⟨words, shell, fetched, u, r, -, -, -, hposix, hscript⟩ := hroute
    cases hw : s.onWindows with
    | false =>
      obtain ⟨script, -, hmeans, hanswers⟩ := hposix hw
      exact (hreply (hstart hmeans) hanswers).elim
    | true =>
      obtain ⟨path, -, hmeans, hanswers⟩ := hscript hw
      exact (hreply (fun fault => Session.isOwn_of_afterRemoval hp (hstart hmeans)) hanswers).elim

theorem execute_exit {args : List String}
    (h : Tokens.ofLine s.profile text = .ok ⟨Builtin.exit.name :: args, false⟩) :
    ∃ t, execute text s = .error (.exit (Builtin.exitStatus args)) t := by
  rw [execute_of_builtin h]
  exact Builtin.runExit_apply args s

theorem execute_reopens {args : List String} {quote : OpenQuote}
    (h : Tokens.ofLine s.profile text = .ok ⟨Builtin.shell.name :: args, false⟩)
    (hq : Builtin.Reopens s.profile args quote) :
    execute text s = .error (.openQuote quote) s := by
  rw [execute_of_builtin h]
  exact Builtin.runShell_eq_error_iff.mpr ⟨rfl, quote, rfl, hq⟩

end Line

end ShellLine
