import ShellLine.Proofs.LoopTurns

/-!
# Open quotes in a run of the loop

A line with an open quote is refused: the error is printed, the status is 2, and the loop goes on.
Words that a shell is chosen by are written down as one text and split again, and nobody refuses
that text. A quote character among them, which was shielded in the line, is bare in the text. The
quote that it leaves open stops the line before anything has changed, and the loop with it; nothing
else ends a run so.
-/

namespace ShellLine

/-- The line chooses a shell by words whose text leaves this quote open. -/
def Line.Reopens (p : Profile) (text : String) (quote : OpenQuote) : Prop :=
  ∃ args, Tokens.ofLine p text = .ok ⟨Builtin.shell.name :: args, false⟩ ∧
    Builtin.Reopens p args quote

theorem Line.execute_openQuote_iff {text : String} {quote : OpenQuote} {s t : Session}
    (hp : s.host.Plain) :
    execute text s = .error (.openQuote quote) t ↔ t = s ∧ Reopens s.profile text quote := by
  constructor
  · intro h
    obtain ⟨_, _, hf⟩ | ⟨args, quote', htokens, ht, hf, hq⟩ := own_fault_of_execute hp h rfl
    · cases hf
    · cases hf
      exact ⟨ht, args, htokens, hq⟩
  · rintro ⟨rfl, args, htokens, hq⟩
    exact execute_reopens htokens hq

namespace Loop

/-- The quote is reported and the loop goes on; all but the status is as it was. -/
def Turn.Refuses (turn : Turn) (quote : OpenQuote) : Prop :=
  turn.outcome = .completed 2 ∧
    turn.next = { turn.session.recorded [.err ("syntax error: " ++ quote.message ++ "\n")] with
      lastStatus := 2 }

/-- The quote leaves the loop, and all is as it was. -/
def Turn.Stops (turn : Turn) (quote : OpenQuote) : Prop :=
  turn.outcome = .leaves (.error (.openQuote quote)) ∧ turn.next = turn.session

/-- What becomes of open quotes in a run of the loop over these reads. -/
structure QuoteAccount (s : Session) (reads : List Read) (turns : List Turn) : Prop where
  taken : Turns s (Typed.ofReads s.profile.escape [] reads) turns (run s reads).result
    (run s reads).session
  refused : ∀ turn ∈ turns, ∀ text quote, turn.typed = .command text →
    Tokens.ofLine s.profile text = .error quote → turn.Refuses quote
  reopened : ∀ turn ∈ turns, ∀ text quote, turn.typed = .command text →
    Line.Reopens s.profile text quote → turn.Stops quote
  /-- A quote ends the run exactly where it was left open in that way. -/
  result : ∀ quote, (run s reads).result = .error (.openQuote quote) ↔
    ∃ turn ∈ turns, ∃ text, turn.typed = .command text ∧ Line.Reopens s.profile text quote

theorem Turn.Holds.reopens_of_leaves {turn : Turn} {quote : OpenQuote} (h : turn.Holds)
    (hp : turn.session.host.Plain) (hleaves : turn.outcome = .leaves (.error (.openQuote quote))) :
    ∃ text, turn.typed = .command text ∧ Line.Reopens turn.session.profile text quote := by
  cases h with
  | failed h =>
    cases hleaves
    exact ⟨_, rfl, ((Line.execute_openQuote_iff hp).mp h).2⟩
  | completed | stopped | left | abandoned | ended => cases hleaves

/-- A line and a run of the loop stop at an open quote only where a shell is chosen by words whose
text has one. -/
theorem openQuote_account (s : Session) (hp : s.host.Plain) :
    (∀ text quote t, Line.execute text s = .error (.openQuote quote) t ↔
      t = s ∧ Line.Reopens s.profile text quote) ∧
    ∀ reads, ∃ turns, QuoteAccount s reads turns := by
  refine ⟨fun text quote t => Line.execute_openQuote_iff hp, fun reads => ?_⟩
  obtain ⟨turns, htaken, -⟩ := exists_turns reads hp
  have hrefused : ∀ turn ∈ turns, ∀ text quote, turn.typed = .command text →
      Tokens.ofLine s.profile text = .error quote → turn.Refuses quote := by
    intro turn hmem text quote htyped hquote
    obtain ⟨hholds, hprofile, -⟩ := htaken.of_mem hp hmem
    exact hholds.of_ok htyped (Line.execute_of_error (hprofile ▸ hquote))
  have hreopened : ∀ turn ∈ turns, ∀ text quote, turn.typed = .command text →
      Line.Reopens s.profile text quote → turn.Stops quote := by
    intro turn hmem text quote htyped hq
    obtain ⟨hholds, hprofile, hplain⟩ := htaken.of_mem hp hmem
    have hexecute := (Line.execute_openQuote_iff hplain).mpr ⟨rfl, hprofile ▸ hq⟩
    exact hholds.of_error htyped hexecute nofun
  refine ⟨turns, htaken, hrefused, hreopened, fun quote => ⟨fun hresult => ?_, ?_⟩⟩
  · obtain ⟨earlier, last, rfl, hleaves, -⟩ := htaken.last_leaves
    have hmem : last ∈ earlier ++ [last] := List.mem_append_right _ List.mem_cons_self
    obtain ⟨hholds, hprofile, hplain⟩ := htaken.of_mem hp hmem
    rw [hresult] at hleaves
    exact ⟨last, hmem, hprofile ▸ hholds.reopens_of_leaves hplain hleaves⟩
  · rintro ⟨turn, hmem, text, htyped, hq⟩
    obtain ⟨hleaves, -⟩ := hreopened turn hmem text quote htyped hq
    exact (htaken.eq_of_leaves hmem hleaves).1.symm

/-- An apostrophe between double quotes; the line after it is not read. -/
theorem openQuote_account_apostrophe :
    let s : Session := { profile := .posix, host := {} }
    let reads : List Read := [.line "'", .line "shell \"it's\"", .line "exit 3"]
    s.host.Plain ∧ Line.Reopens .posix "shell \"it's\"" ⟨.single, 2⟩ ∧
      (run s reads).result = .error (.openQuote ⟨.single, 2⟩) ∧
      (run s reads).freshSessions.map (·.lastStatus) = [0, 2] ∧
      ∃ turns, QuoteAccount s reads turns := by
  intro s reads
  have hp : s.host.Plain := {
    fates := by
      intro fate hmem fault hf
      cases List.mem_singleton.mp hmem
      cases hf
    removal := nofun }
  have hreopens : Line.Reopens .posix "shell \"it's\"" ⟨.single, 2⟩ :=
    ⟨["it's"], by decide +kernel, by decide, "it's", [], rfl, by decide +kernel⟩
  exact ⟨hp, hreopens, by decide +kernel, by decide +kernel, (openQuote_account s hp).2 reads⟩

/-- So an open quote does leave the loop. -/
theorem not_forall_result_ne_openQuote :
    ¬ ∀ (s : Session) (reads : List Read) (quote : OpenQuote),
      (run s reads).result ≠ .error (.openQuote quote) := by
  intro h
  have hresult : (run { profile := .posix, host := {} }
      [.line "shell \"it's\"", .line "exit 3"]).result = .error (.openQuote ⟨.single, 2⟩) := by
    decide +kernel
  exact h _ _ _ hresult

end Loop

end ShellLine
