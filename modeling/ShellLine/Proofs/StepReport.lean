import ShellLine.Proofs.ScanSteps

/-!
# What a step reports

The text of a scan is all that it has kept so far, in tokens and in the buffer. A step adds its
character at the end or leaves the text alone, and it ends tokens without changing the text. It
reports both. The report is right for every scan, also for one that no line leads to, but for one
character: the quote that closes a region inside a word is kept, and the report does not say so.
-/

namespace ShellLine

/-- All that the scan has kept. -/
def Scan.text (s : Scan) : List Char :=
  s.tokens.flatten ++ s.buffer

/-- What the step did to the text and the tokens of `s` is what it reports. -/
structure Step.Tells (s : Scan) (c : Char) (t : Step) : Prop where
  text : t.scan.text = s.text ++ if t.consumed then [c] else []
  tokens : ∃ ended, t.scan.tokens = s.tokens ++ ended ∧ (t.flushed = true ↔ ended ≠ [])

namespace Step

variable {s : Scan} {c : Char} {t : Step}

/-- A step that leaves tokens and buffer alone reports neither. -/
theorem tells_of_frame {s' : Scan} {flagged : Bool}
    (h : s'.tokens = s.tokens ∧ s'.buffer = s.buffer) : Tells s c { scan := s', flagged } where
  text := by simp [Scan.text, h.1, h.2]
  tokens := ⟨[], by simp [h.1], by simp⟩

theorem Tells.keep (h : t.Tells s c) (hconsumed : t.consumed = false) :
    (t.keep c).Tells s c where
  text := by
    have htext := h.text
    simp only [hconsumed, Bool.false_eq_true, if_false, List.append_nil] at htext
    simp only [Step.keep, Scan.text, if_true, ← List.append_assoc]
    exact congrArg (· ++ [c]) htext
  tokens := h.tokens

theorem Tells.append (h : t.Tells s c) (hconsumed : t.consumed = false) :
    (t.append c).Tells s c where
  text := (h.keep hconsumed).text
  tokens := h.tokens

theorem text_flush (t : Step) : t.flush.scan.text = t.scan.text := by
  simp [Step.flush, Scan.text]

theorem Tells.flush (h : t.Tells s c) : t.flush.Tells s c where
  text := (text_flush t).trans h.text
  tokens := by
    obtain ⟨ended, htokens, -⟩ := h.tokens
    refine ⟨ended ++ [t.scan.buffer], ?_, by simp [Step.flush]⟩
    simp only [Step.flush, htokens, List.append_assoc]

theorem Tells.flag (h : t.Tells s c) : t.flag.Tells s c :=
  ⟨h.text, h.tokens⟩

end Step

namespace Scan

variable {s : Scan} {p : Profile} {c : Char} {peek : Option Char}

/-- The character closes a region that stands inside a word. -/
structure ClosesEmbedded (p : Profile) (s : Scan) (c : Char) : Prop where
  ready : s.Ready
  quote : s.quote.map Quote.char = some c
  embedded : s.embedded = true
  escape : c ≠ p.escape
  comment : p.comment ≠ some c

theorem tells_pending : s.pending.Tells s c := by
  unfold pending
  split
  · exact .flush (Step.tells_of_frame ⟨rfl, rfl⟩)
  · exact Step.tells_of_frame ⟨rfl, rfl⟩

theorem consumed_pending : s.pending.consumed = false := by
  unfold pending
  split <;> rfl

theorem tells_readRun (operator : Char) : (s.readRun operator c peek).Tells s c := by
  have happend : (Step.append c { scan := s }).Tells s c :=
    .append (Step.tells_of_frame ⟨rfl, rfl⟩) rfl
  unfold readRun
  split
  · exact happend
  · exact Step.Tells.flush ⟨happend.text, happend.tokens⟩

theorem tells_readEscaped : (s.readEscaped c).Tells s c := by
  unfold readEscaped
  dsimp only
  split
  · exact Step.tells_of_frame ⟨rfl, rfl⟩
  · exact .append (Step.tells_of_frame ⟨rfl, rfl⟩) rfl

theorem tells_readEscape : (s.readEscape c).Tells s c := by
  unfold readEscape
  split
  · exact .append (Step.tells_of_frame ⟨rfl, rfl⟩) rfl
  · exact Step.tells_of_frame ⟨rfl, rfl⟩

theorem tells_readComment : (s.readComment c).Tells s c := by
  unfold readComment
  split
  · exact .append (Step.tells_of_frame ⟨rfl, rfl⟩) rfl
  · exact Step.tells_of_frame ⟨rfl, rfl⟩

theorem tells_openQuote (q : Quote) : (s.openQuote q c).Tells s c := by
  have happend : (Step.append c { scan := { s with embedded := true } }).Tells s c :=
    .append (Step.tells_of_frame ⟨rfl, rfl⟩) rfl
  unfold openQuote
  dsimp only
  split
  · exact ⟨happend.text, happend.tokens⟩
  · exact Step.tells_of_frame ⟨rfl, rfl⟩

theorem tells_closeQuote (h : s.embedded = false) : (s.closeQuote c).Tells s c := by
  unfold closeQuote
  exact .flush (Step.tells_of_frame ⟨rfl, by simp [h]⟩)

/-- Another quote than the open one is text. -/
theorem tells_readQuote (q : Quote) (h : s.quote = some q → s.embedded = false) :
    (s.readQuote q c).Tells s c := by
  unfold readQuote
  split
  · exact tells_openQuote q
  · rename_i opened hopened
    split
    · rename_i hq
      exact tells_closeQuote (h (hq ▸ hopened))
    · exact .keep (Step.tells_of_frame ⟨rfl, rfl⟩) rfl

theorem tells_readPlain : (s.readPlain p c peek).Tells s c := by
  unfold readPlain
  split
  · have happend : (s.pending.flag.append c).Tells s c :=
      tells_pending.flag.append consumed_pending
    unfold readOperator
    dsimp only
    split
    · exact ⟨happend.text, happend.tokens⟩
    · exact happend.flush
  · split
    · unfold readSeparator
      split
      · exact tells_pending
      · exact Step.tells_of_frame ⟨rfl, rfl⟩
    · exact .append (Step.tells_of_frame ⟨rfl, rfl⟩) rfl

theorem tells_read (hs : s.inComment = false) (h : ¬ s.ClosesEmbedded p c) :
    (s.read p c peek).Tells s c := by
  fun_cases Scan.read s p c peek with
  | case1 o => exact tells_readRun o
  | case2 => exact tells_readEscaped
  | case3 => exact tells_readEscape
  | case4 => exact .keep (Step.tells_of_frame ⟨rfl, rfl⟩) rfl
  | case5 => exact tells_readComment
  | case6 ho he hesc _ hcom q hq =>
    refine tells_readQuote q fun hquote => Bool.eq_false_iff.mpr fun hembedded => h ?_
    exact ⟨⟨hs, ho, Bool.eq_false_iff.mpr he⟩, by simp [hquote, Quote.ofChar?_eq_some.mp hq],
      hembedded, hesc, hcom⟩
  | case7 => exact tells_readPlain

theorem step_of_not_swallowed (h : s.inComment = true → c = '\n') :
    s.step p c peek =
      let t := { s with inComment := false }.read p c peek
      { t with scan := t.passed c } := by
  have hcomment : (s.inComment && c != '\n') = false := by
    simpa [Bool.and_eq_false_imp] using h
  simp only [step, hcomment, Bool.false_eq_true, if_false, Step.passed]

theorem ClosesEmbedded.ne_newline (h : s.ClosesEmbedded p c) : c ≠ '\n' := by
  rintro rfl
  obtain ⟨q, -, hq⟩ := Option.map_eq_some_iff.mp h.quote
  cases q <;> cases hq

theorem step_of_ready (h : s.Ready) (peek : Option Char) :
    s.step p c peek =
      let t := s.read p c peek
      { t with scan := t.passed c } := by
  have hs : { s with inComment := false } = s := by rw [← h.inComment]
  rw [step_of_not_swallowed (by simp [h.inComment]), hs]

theorem tells_step (h : ¬ s.ClosesEmbedded p c) : (s.step p c peek).Tells s c := by
  by_cases hcomment : s.inComment = true → c = '\n'
  · have hclear : ¬ ({ s with inComment := false } : Scan).ClosesEmbedded p c := fun hc => by
      cases hs : s.inComment with
      | false => exact h (by rwa [← hs] at hc)
      | true => exact hc.ne_newline (hcomment hs)
    have hread : ({ s with inComment := false }.read p c peek).Tells
        { s with inComment := false } c := tells_read rfl hclear
    rw [step_of_not_swallowed hcomment]
    exact ⟨hread.text, hread.tokens⟩
  · have hcomment : (s.inComment && c != '\n') = true := by simpa using hcomment
    have hself : Step.Tells s c { scan := s } := Step.tells_of_frame ⟨rfl, rfl⟩
    unfold step
    rw [hcomment]
    exact ⟨hself.text, hself.tokens⟩

/-- The closing quote is kept and ends the word. -/
theorem step_of_closesEmbedded (h : s.ClosesEmbedded p c) (peek : Option Char) :
    let t := s.step p c peek
    t.scan.text = s.text ++ [c] ∧ t.consumed = false ∧ t.flushed = true ∧
      t.scan.tokens = s.tokens ++ [s.buffer ++ [c]] := by
  obtain ⟨q, hq, rfl⟩ := Option.map_eq_some_iff.mp h.quote
  have hread : s.read p q.char peek = s.closeQuote q.char := by
    unfold Scan.read
    simp [h.ready.operator, h.ready.escaped, h.escape, h.comment, readQuote, hq,
      Quote.ofChar?_eq_some.mpr rfl]
  rw [step_of_ready h.ready, hread]
  simp [closeQuote, h.embedded, Step.flush, Step.passed, text]

theorem text_step_of_consumed (hc : (s.step p c peek).consumed = true) :
    (s.step p c peek).scan.text = s.text ++ [c] := by
  have h : ¬ s.ClosesEmbedded p c := fun h => by
    rw [(step_of_closesEmbedded h peek).2.1] at hc
    cases hc
  have htells : (s.step p c peek).Tells s c := tells_step h
  rw [htells.text, if_pos hc]

theorem text_step_of_not_consumed (h : ¬ s.ClosesEmbedded p c)
    (hc : (s.step p c peek).consumed = false) : (s.step p c peek).scan.text = s.text := by
  have htells : (s.step p c peek).Tells s c := tells_step h
  rw [htells.text, hc]
  exact List.append_nil _

/-- What is written are tokens, buffer and the operator's run; all else is as it was. -/
def Writes (s t : Scan) : Prop :=
  ∃ buffer tokens hasToken operator, t = { s with buffer, tokens, hasToken, operator }

theorem Writes.needsShell {t : Scan} (h : s.Writes t) : t.needsShell = s.needsShell := by
  obtain ⟨_, _, _, _, rfl⟩ := h
  rfl

theorem Writes.position {t : Scan} (h : s.Writes t) : t.position = s.position := by
  obtain ⟨_, _, _, _, rfl⟩ := h
  rfl

theorem Writes.inComment {t : Scan} (h : s.Writes t) : t.inComment = s.inComment := by
  obtain ⟨_, _, _, _, rfl⟩ := h
  rfl

theorem writes_readRun (operator : Char) : s.Writes (s.readRun operator c peek).scan := by
  unfold readRun
  dsimp only
  split <;> exact ⟨_, _, _, _, rfl⟩

theorem writes_pending : s.Writes s.pending.scan := by
  unfold pending
  split <;> exact ⟨_, _, _, _, rfl⟩

theorem writes_readPlain : s.Writes (s.readPlain p c peek).scan := by
  obtain ⟨_, _, _, _, hpending⟩ := writes_pending (s := s)
  unfold readPlain readOperator readSeparator
  split
  · dsimp only
    split <;> simp only [Step.flush, Step.flag, Step.append, Step.keep, hpending] <;>
      exact ⟨_, _, _, _, rfl⟩
  · split
    · split
      · exact writes_pending
      · exact ⟨_, _, _, _, rfl⟩
    · exact ⟨_, _, _, _, rfl⟩

/-- Reading moves neither the place nor the flag. -/
theorem read_frame : (s.read p c peek).scan.needsShell = s.needsShell ∧
    (s.read p c peek).scan.position = s.position := by
  fun_cases Scan.read s p c peek with
  | case1 operator =>
    have hrun : s.Writes (s.readRun operator c peek).scan := writes_readRun operator
    exact ⟨hrun.needsShell, hrun.position⟩
  | case2 =>
    unfold readEscaped
    dsimp only
    split <;> exact ⟨rfl, rfl⟩
  | case3 =>
    unfold readEscape
    split <;> exact ⟨rfl, rfl⟩
  | case4 => exact ⟨rfl, rfl⟩
  | case5 =>
    unfold readComment
    split <;> exact ⟨rfl, rfl⟩
  | case6 =>
    unfold readQuote openQuote
    split
    · split <;> exact ⟨rfl, rfl⟩
    · split <;> exact ⟨rfl, rfl⟩
  | case7 => exact ⟨writes_readPlain.needsShell, writes_readPlain.position⟩

theorem step_frame :
    (s.step p c peek).scan.needsShell = (s.needsShell || (s.step p c peek).flagged) ∧
      (s.step p c peek).scan.previous = some c ∧
      (s.step p c peek).scan.position = s.position + 1 := by
  unfold step
  split
  · exact ⟨rfl, rfl, rfl⟩
  · have hread : (({ s with inComment := false } : Scan).read p c peek).scan.needsShell =
        s.needsShell ∧ (({ s with inComment := false } : Scan).read p c peek).scan.position =
        s.position := read_frame
    exact ⟨congrArg (· || _) hread.1, rfl, congrArg (· + 1) hread.2⟩

/-- What one step reports of any scan and any character. -/
theorem step_report (s : Scan) (p : Profile) (c : Char) (peek : Option Char) :
    let t := s.step p c peek
    (t.consumed = true ↔ t.scan.text = s.text ++ [c] ∧ ¬ s.ClosesEmbedded p c) ∧
      (t.consumed = false ↔ t.scan.text = s.text ∨ s.ClosesEmbedded p c) ∧
      (s.ClosesEmbedded p c → t.scan.text = s.text ++ [c]) ∧
      (t.flushed = true ↔ s.tokens.length < t.scan.tokens.length) ∧
      s.tokens <+: t.scan.tokens ∧
      t.scan.needsShell = (s.needsShell || t.flagged) ∧
      t.scan.previous = some c ∧ t.scan.position = s.position + 1 := by
  intro t
  by_cases h : s.ClosesEmbedded p c
  · obtain ⟨htext, hconsumed, hflushed, htokens⟩ := step_of_closesEmbedded h peek
    refine ⟨by simp [t, hconsumed, h], by simp [t, hconsumed, h], fun _ => htext, ?_, ?_,
      step_frame⟩
    · simp [t, hflushed, htokens]
    · exact htokens ▸ List.prefix_append _ _
  · have htells : t.Tells s c := tells_step h
    obtain ⟨htext, ended, htokens, hflushed⟩ := htells
    refine ⟨?_, ?_, fun hc => absurd hc h, ?_, ?_, step_frame⟩
    · cases hc : t.consumed <;> simp [t, htext, hc, h]
    · cases hc : t.consumed <;> simp [t, htext, hc, h]
    · rw [hflushed, htokens, List.length_append, ← List.length_pos_iff]
      omega
    · exact htokens ▸ List.prefix_append _ _

/-- In a"b" the last quote is kept and is not reported. -/
theorem not_forall_consumed_iff :
    ¬ ∀ (s : Scan) (p : Profile) (c : Char) (peek : Option Char),
      (s.step p c peek).consumed = true ↔ (s.step p c peek).scan.text = s.text ++ [c] := by
  intro h
  have hlast : ((run .posix {} ['a', '"', 'b']).step .posix '"' none).consumed = false ∧
      ((run .posix {} ['a', '"', 'b']).step .posix '"' none).scan.text =
        (run .posix {} ['a', '"', 'b']).text ++ ['"'] := by
    decide
  rw [(h _ _ _ _).mpr hlast.2] at hlast
  cases hlast.1

end Scan

end ShellLine
