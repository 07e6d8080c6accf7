import ShellLine.Proofs.DisplayRoundTrip
import ShellLine.Proofs.LoopTurns
import ShellLine.Proofs.Numerals

/-!
# The number that a session is left with

Leaving carries its number through a fault, which the loop turns into its result, so the number
comes out as it was typed: of any size and either sign. A word that is no numeral is reported and
counts as 2. In both cases the loop ends at that line, and at most the report has been added to the
session. `Reaches` says how far a run has come, so this holds at whatever prompt the line is typed.
-/

namespace ShellLine

open Text.Numeral

/-- The character stands for itself, wherever it is. -/
def Profile.Inert (p : Profile) (c : Char) : Prop :=
  p.role c = .plain ∧ c ∉ p.shellOnly

instance (p : Profile) (c : Char) : Decidable (p.Inert c) :=
  inferInstanceAs (Decidable (_ ∧ _))

namespace Profile

variable {p : Profile} {c : Char}

theorem unread_of_role (h : p.role c = .plain) :
    c ≠ p.escape ∧ p.comment ≠ some c ∧ Quote.ofChar? c = none := by
  revert h
  fun_cases role p c with
  | case7 hescape hcom hquote => exact fun _ => ⟨hescape, hcom, hquote⟩
  | _ =>
    intro h
    cases h

theorem Inert.not_unit (h : p.Inert c) : ¬ (c = p.escape ∨ c = ' ' ∨ c = '\t') := by
  obtain ⟨-, hsep⟩ := role_fits h.1
  rintro (hescape | rfl | rfl)
  · exact (unread_of_role h.1).1 hescape
  · cases hsep
  · cases hsep

theorem inert_of_isDigit (onWindows : Bool) (h : c.isDigit = true) :
    (stock onWindows).Inert c := by
  have hall : ∀ k < 10, (stock onWindows).Inert (Char.ofNat ('0'.toNat + k)) := by
    cases onWindows <;> decide
  obtain ⟨hlow, hhigh⟩ := Char.isDigit_iff_toNat.mp h
  have hnine : '9'.toNat = '0'.toNat + 9 := rfl
  have hcode : '0'.toNat + (c.toNat - '0'.toNat) = c.toNat := by omega
  have hc := hall (c.toNat - '0'.toNat) (by omega)
  rwa [hcode, Char.ofNat_toNat] at hc

end Profile

namespace Display

variable {p : Profile} {part : List Char}

theorem flatMap_unit_of_inert (h : ∀ c ∈ part, p.Inert c) :
    part.flatMap (unit p.escape) = part := by
  induction part with
  | nil => rfl
  | cons c part ih =>
    have hrest := ih fun d hd => h d (List.mem_cons_of_mem c hd)
    rw [List.flatMap_cons, hrest, unit, if_neg (h c List.mem_cons_self).not_unit,
      List.singleton_append]

theorem unbroken_of_inert (previous : Option Char) (h : ∀ c ∈ part, p.Inert c) :
    Unbroken previous part := by
  induction part generalizing previous with
  | nil => exact unbroken_nil previous
  | cons c part ih =>
    obtain ⟨hop, hsep⟩ := Profile.role_fits (h c List.mem_cons_self).1
    refine unbroken_cons.mpr ⟨⟨?_, ?_⟩, ih _ fun d hd => h d (List.mem_cons_of_mem c hd)⟩
    · rintro rfl
      cases hsep
    · intro hc
      rw [hop] at hc
      cases hc

theorem readsBack_of_inert (hne : part ≠ []) (h : ∀ c ∈ part, p.Inert c) : ReadsBack p part := by
  refine ⟨hne, .inr ⟨unbroken_of_inert none h, ?_⟩⟩
  intro d hd hhead
  exact (Profile.unread_of_role (h d (List.mem_of_head? hhead)).1).2.1 (Option.mem_def.mp hd)

theorem not_asksForShell_of_inert (h : ∀ c ∈ part, p.Inert c) : ¬ AsksForShell p part := by
  rintro (hrun | ⟨c, hc, hshell⟩)
  · exact not_isRun_of_unbroken (unbroken_of_inert none h) hrun
  · exact (h c hc).2 hshell

/-- Words of such characters are the tokens of the line that has them. -/
theorem ofLine_of_inert (hp : p.Regular) {program : String} {args : List String}
    (hne : ∀ word ∈ program :: args, word ≠ "") (hsight : StartsInSight program.toList)
    (h : ∀ word ∈ program :: args, ∀ c ∈ word.toList, p.Inert c) :
    Tokens.ofLine p (" ".intercalate (program :: args)) = .ok ⟨program :: args, false⟩ := by
  have hescape : ∀ word ∈ program :: args, escape p word = word := by
    intro word hword
    rw [escape, escapeChars_eq_flatMap (hp.ne_escape Text.isBlank_space).symm
      (hp.ne_escape Text.isBlank_tab).symm, flatMap_unit_of_inert (h word hword),
      String.ofList_toList]
  have hline : line p program args = " ".intercalate (program :: args) := by
    rw [line, words, if_neg (hne program List.mem_cons_self), List.map_congr_left hescape,
      List.map_id']
  have hquote : ∀ word ∈ program :: args, ∀ q : Quote, q.char ∉ word.toList := by
    intro word hword q hq
    have hnone := (Profile.unread_of_role (h word hword _ hq).1).2.2
    rw [Quote.ofChar?_eq_some.mpr rfl] at hnone
    cases hnone
  have hback : ∀ word ∈ program :: args, ReadsBack p word.toList := by
    intro word hword
    exact readsBack_of_inert (by simpa using hne word hword) (h word hword)
  obtain ⟨flagged, htokens, hflag⟩ := ofLine_line_of_readsBack hp hquote hback hsight
  have hfalse : flagged = false := by
    rw [← Bool.not_eq_true, hflag]
    rintro ⟨word, hword, hask⟩
    exact not_asksForShell_of_inert (h word hword) hask
  rw [← hline, htokens, hfalse]

end Display

namespace Builtin

/-- The words `exit` and a number in a line. -/
theorem ofLine_exit (onWindows : Bool) (n : Int) :
    Tokens.ofLine (.stock onWindows) ("exit " ++ toString n) =
      .ok ⟨[exit.name, toString n], false⟩ := by
  have hnumber : ∀ c ∈ (toString n).toList, (Profile.stock onWindows).Inert c := by
    intro c hc
    rw [Text.toList_toString, List.mem_append] at hc
    rcases hc with hsign | hdigit
    · have hminus : c = '-' := by
        split at hsign
        · cases hsign
        · exact List.mem_singleton.mp hsign
      rw [hminus]
      cases onWindows <;> decide
    · exact Profile.inert_of_isDigit onWindows
        (Nat.isDigit_of_mem_toDigits (by decide) (by decide) hdigit)
  have hletters : exit.name.toList.all fun c => (Profile.stock onWindows).Inert c := by
    cases onWindows <;> decide
  have hname : ∀ c ∈ exit.name.toList, (Profile.stock onWindows).Inert c :=
    fun c hc => of_decide_eq_true (List.all_eq_true.mp hletters c hc)
  have hne : toString n ≠ "" := by
    intro he
    have hnil := congrArg String.toList he
    rw [Text.toList_toString] at hnil
    exact Nat.toDigits_ne_nil (List.append_eq_nil_iff.mp hnil).2
  have hsight : Display.StartsInSight exit.name.toList := by
    rintro c ⟨⟩ hc
    cases hc
  have htokens := Display.ofLine_of_inert (Profile.stock_regular onWindows)
    (List.forall_mem_cons.mpr ⟨by decide, List.forall_mem_singleton.mpr hne⟩) hsight
    (List.forall_mem_cons.mpr ⟨hname, List.forall_mem_singleton.mpr hnumber⟩)
  have hline : " ".intercalate [exit.name, toString n] = "exit " ++ toString n := by
    rw [String.intercalate_cons_of_ne_nil (List.cons_ne_nil _ _), String.intercalate_singleton]
    rfl
  rwa [hline] at htokens

theorem runExit_cons (arg : String) (args : List String) (s : Session) :
    runExit (arg :: args) s =
      match Text.int? arg with
      | some status => .error (.exit status) s
      | none => .error (.exit 2) (s.recorded [.err "exit: numeric argument required\n"]) := by
  unfold runExit
  dsimp only
  cases Text.int? arg <;> rfl

end Builtin

namespace Loop

/-- The visits of the prompts at which the next command is read. -/
def asked (s : Session) (reads : List Read) : List Visit :=
  (Reader.next s.profile.escape prompt reads).prompts.map fun prompt => { prompt, session := s }

/-- A run comes from one prompt to another by commands that do not leave; with the visits on the
way and what is left to read. -/
inductive Reaches : Session → List Read → List Visit → Session → List Read → Prop
  | here (s : Session) (reads : List Read) : Reaches s reads [] s reads
  | onward {s t u : Session} {reads rest : List Read} {visits : List Visit}
      (h : turn (Reader.next s.profile.escape prompt reads).command s = (none, t))
      (hlater : Reaches t (Reader.next s.profile.escape prompt reads).rest visits u rest) :
      Reaches s reads (asked s reads ++ visits) u rest

theorem run_of_stays {s t : Session} {reads : List Read}
    (h : turn (Reader.next s.profile.escape prompt reads).command s = (none, t)) :
    run s reads =
      let later := run t (Reader.next s.profile.escape prompt reads).rest
      { later with visits := asked s reads ++ later.visits } := by
  conv_lhs => rw [run]
  split
  · rename_i hturn
    cases h.symm.trans hturn
  · rename_i hturn
    cases h.symm.trans hturn
    rfl

theorem run_of_leaves {s t : Session} {reads : List Read} {result : Except Fault Int}
    (h : turn (Reader.next s.profile.escape prompt reads).command s = (some result, t)) :
    run s reads = { visits := asked s reads, result, session := t } := by
  rw [run]
  split
  · rename_i hturn
    cases h.symm.trans hturn
    rfl
  · rename_i hturn
    cases h.symm.trans hturn

theorem Reaches.run_eq {s t : Session} {reads rest : List Read} {visits : List Visit}
    (h : Reaches s reads visits t rest) :
    run s reads = { run t rest with visits := visits ++ (run t rest).visits } := by
  induction h with
  | here s reads => rfl
  | onward h hlater ih => rw [run_of_stays h, ih, List.append_assoc]

/-- How a run ends that is left with this word: with its number and nothing done, or with 2 and one
report. -/
structure Delivers (arg : String) (s : Session) (course : Course) : Prop where
  number : ∀ v, Spells isRoom arg v → course.result = .ok v ∧ course.session = s
  refused : (∀ v, ¬ Spells isRoom arg v) → course.result = .ok 2 ∧
    course.session = s.recorded [.err "exit: numeric argument required\n"]

theorem run_exit {s : Session} {reads : List Read} {text arg : String} {args : List String}
    (hcommand : (Reader.next s.profile.escape prompt reads).command = .ok text)
    (htokens : Tokens.ofLine s.profile text = .ok ⟨Builtin.exit.name :: arg :: args, false⟩) :
    (run s reads).visits = asked s reads ∧ Delivers arg s (run s reads) := by
  have hexecute : Line.execute text s = Builtin.runExit (arg :: args) s :=
    Line.execute_of_builtin htokens
  have hturn := turn_command text s
  rw [hexecute, Builtin.runExit_cons, ← hcommand] at hturn
  cases hint : Text.int? arg with
  | some status =>
    rw [hint] at hturn
    rw [run_of_leaves hturn]
    refine ⟨rfl, ⟨fun v hv => ?_, fun hnone => ?_⟩⟩
    · have hsome := Text.int?_eq_some_iff.mpr hv
      rw [hint] at hsome
      cases hsome
      exact ⟨rfl, rfl⟩
    · exact absurd (Text.int?_eq_some_iff.mp hint) (hnone status)
  | none =>
    rw [hint] at hturn
    rw [run_of_leaves hturn]
    refine ⟨rfl, ⟨fun v hv => ?_, fun _ => ⟨rfl, rfl⟩⟩⟩
    exact absurd hv (Text.int?_eq_none_iff.mp hint v)

theorem not_continues_exit (onWindows : Bool) (n : Int) :
    Reader.continues (Profile.stock onWindows).escape ("exit " ++ toString n) = false := by
  have hlast : ∀ c ∈ ("exit " ++ toString n).toList.getLast?,
      c ≠ (Profile.stock onWindows).escape := by
    intro c hc
    rw [String.toList_append, Text.toList_toString, ← List.append_assoc,
      List.getLast?_append_of_ne_nil _ Nat.toDigits_ne_nil] at hc
    have hdigit := Nat.isDigit_of_mem_toDigits (by decide) (by decide) (List.mem_of_getLast? hc)
    exact (Profile.unread_of_role (Profile.inert_of_isDigit onWindows hdigit).1).1
  have hnone := Reader.trailing_append hlast []
  rw [List.append_nil] at hnone
  rw [Reader.continues, hnone]
  rfl

theorem run_exit_number (onWindows : Bool) {s : Session} (hs : s.profile = .stock onWindows)
    {n : Int} (hn : n.natAbs < 10 ^ 4300) (reads : List Read) :
    run s (.line ("exit " ++ toString n) :: reads) = ⟨[⟨prompt, s⟩], .ok n, s⟩ := by
  have hnext : Reader.next s.profile.escape prompt (.line ("exit " ++ toString n) :: reads) =
      ⟨[prompt], .ok ("exit " ++ toString n), reads⟩ := by
    rw [Reader.next, hs, not_continues_exit]
    rfl
  obtain ⟨hvisits, hdelivers⟩ := run_exit (s := s) (by rw [hnext])
    (hs ▸ Builtin.ofLine_exit onWindows n)
  obtain ⟨hresult, hsession⟩ :=
    hdelivers.number n (Text.int?_eq_some_iff.mp (Text.int?_toString hn))
  have hasked : asked s (.line ("exit " ++ toString n) :: reads) = [⟨prompt, s⟩] := by
    rw [asked, hnext]
    rfl
  rw [hasked] at hvisits
  cases hrun : run s (.line ("exit " ++ toString n) :: reads)
  simp only [hrun] at hvisits hresult hsession
  rw [hvisits, hresult, hsession]

/-- At whatever prompt it is typed, a request to leave with a word ends the run and delivers the
number that the word spells; and every number that is not too long has a line that delivers it. -/
theorem exit_delivers (s : Session) (reads : List Read) :
    (∀ earlier t rest text arg args, Reaches s reads earlier t rest →
        (Reader.next t.profile.escape prompt rest).command = .ok text →
        Tokens.ofLine t.profile text = .ok ⟨Builtin.exit.name :: arg :: args, false⟩ →
        (run s reads).visits = earlier ++ asked t rest ∧ Delivers arg t (run s reads)) ∧
      ∀ onWindows n, s.profile = .stock onWindows → n.natAbs < 10 ^ 4300 →
        run s (.line ("exit " ++ toString n) :: reads) = ⟨[⟨prompt, s⟩], .ok n, s⟩ := by
  constructor
  · intro earlier t rest text arg args hreaches hcommand htokens
    obtain ⟨hvisits, hdelivers⟩ := run_exit hcommand htokens
    rw [hreaches.run_eq, hvisits]
    exact ⟨rfl, hdelivers.number, hdelivers.refused⟩
  · intro onWindows n hs hn
    exact run_exit_number onWindows hs hn reads

/-- A folder is changed to, and then the session is left with a number in digits of two scripts. -/
theorem exit_delivers_second_prompt :
    let s : Session := { profile := .windows, host := { folders := ["/work"] } }
    let t : Session := { s with lastStatus := 0, host.cwd := "/work" }
    let reads : List Read := [.line "cd /work", .line "exit \"-1_٢\" x", .line "exit 3"]
    Reaches s reads [⟨prompt, s⟩] t [.line "exit \"-1_٢\" x", .line "exit 3"] ∧
      Spells isRoom "-1_٢" (-12) ∧
      ((run s reads).visits = [⟨prompt, s⟩, ⟨prompt, t⟩] ∧ (run s reads).result = .ok (-12) ∧
        (run s reads).session = t) ∧
      run s (.line ("exit " ++ toString (-7 : Int)) :: reads) = ⟨[⟨prompt, s⟩], .ok (-7), s⟩ := by
  intro s t reads
  have hreaches : Reaches s reads [⟨prompt, s⟩] t [.line "exit \"-1_٢\" x", .line "exit 3"] :=
    .onward (by decide +kernel) (.here t _)
  have hspells : Spells isRoom "-1_٢" (-12) := Text.int?_eq_some_iff.mp (by decide +kernel)
  obtain ⟨hrun, hnumber⟩ := exit_delivers s reads
  obtain ⟨hvisits, hdelivers⟩ := hrun _ _ _ "exit \"-1_٢\" x" "-1_٢" ["x"] hreaches
    (by decide +kernel) (by decide +kernel)
  have hseven : (-7 : Int).natAbs < 10 ^ 4300 := by
    refine Nat.lt_of_lt_of_le (by decide : 7 < 10 ^ 1) ?_
    apply Nat.pow_le_pow_right <;> decide
  exact ⟨hreaches, hspells, ⟨hvisits, hdelivers.number _ hspells⟩, hnumber true (-7) rfl hseven⟩

/-- The separators of a text's levels are blanks, but a numeral has none around it. -/
theorem not_forall_delivers_isBlank :
    ¬ ∀ (s : Session) (reads : List Read) (text arg : String) (args : List String) (v : Int),
      s.profile = .posix → (Reader.next s.profile.escape prompt reads).command = .ok text →
      Tokens.ofLine s.profile text = .ok ⟨Builtin.exit.name :: arg :: args, false⟩ →
      Spells Text.isBlank arg v → (run s reads).result = .ok v := by
  intro h
  let s : Session := { profile := .posix, host := {} }
  have hspells : Spells Text.isBlank "\x1c7" 7 :=
    ⟨['\x1c'], ['7'], [], rfl, List.forall_mem_singleton.mpr rfl,
      .bare ⟨[7], .last rfl, by decide, rfl⟩, nofun⟩
  have hseven := h s [.line "exit \x1c7"] "exit \x1c7" "\x1c7" [] 7 rfl rfl (by decide +kernel)
    hspells
  have htwo : (run s [.line "exit \x1c7"]).result = .ok 2 := by decide +kernel
  rw [hseven] at htwo
  cases htwo

end Loop

end ShellLine
