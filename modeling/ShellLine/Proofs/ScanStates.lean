import ShellLine.Proofs.JoinedTexts

/-!
# The states of a scan

Many scans can be written down that no text leads to. What a scan remembers goes together: a token
that has begun has text in the buffer, a region inside a word is open and has that word before it,
an operator's run has the buffer to itself, and a comment begins where there is nothing. One
character keeps this if the scan is coherent and settled, so it holds at every place of a text, with
what is known there of the open quote. At the end of a text no run goes on, and outside quotes the
buffer is empty when the last token is finished.
-/

namespace ShellLine

namespace Scan

variable {p : Profile} {s : Scan} {text : List Char} {n : Nat} {c : Char} {peek : Option Char}

/-- What the buffer holds goes with what is open. -/
structure Held (s : Scan) : Prop where
  token : s.hasToken = true → s.buffer ≠ []
  embedded : s.embedded = true → s.quote ≠ none ∧ s.hasToken = true
  operator : ∀ o ∈ s.operator, s.quote = none ∧ ∃ k, s.buffer = List.replicate (k + 1) o
  inComment : s.inComment = true → s.quote = none ∧ s.hasToken = false

theorem held_start : ({} : Scan).Held :=
  ⟨nofun, nofun, nofun, nofun⟩

theorem Held.embedded_eq_false (h : s.Held) (hq : s.quote = none) : s.embedded = false :=
  Bool.eq_false_iff.mpr fun hembedded => (h.embedded hembedded).1 hq

theorem held_append {t : Step} (ho : t.scan.operator = none) (hcom : t.scan.inComment = false)
    (hembedded : t.scan.embedded = true → t.scan.quote ≠ none) : (t.append c).scan.Held where
  token _ := by simp [Step.append, Step.keep]
  embedded he := ⟨hembedded he, rfl⟩
  operator := by simp [Step.append, Step.keep, ho]
  inComment := by simp [Step.append, Step.keep, hcom]

theorem held_flush {t : Step} (ho : t.scan.operator = none) (hcom : t.scan.inComment = false)
    (hembedded : t.scan.embedded = false) : t.flush.scan.Held where
  token := nofun
  embedded := by simp [Step.flush, hembedded]
  operator := by simp [Step.flush, ho]
  inComment := by simp [Step.flush, hcom]

/-- Outside quotes nothing is left in the buffer when a pending token is finished. -/
theorem Settled.buffer_pending (h : s.Settled) (hq : s.quote = none) :
    s.pending.scan.buffer = [] := by
  unfold pending
  split
  · rfl
  · rename_i hword
    exact h hq (Bool.eq_false_iff.mpr hword)

/-- While a run goes on, what is fed is the operator again. -/
theorem held_readRun {o : Char} (hs : s.Coherent (some c)) (h : s.Held)
    (hcom : s.inComment = false) (ho : s.operator = some o) : (s.readRun o c peek).scan.Held := by
  obtain ⟨hq, k, hbuffer⟩ := h.operator o ho
  have hembedded := h.embedded_eq_false hq
  unfold readRun
  split
  · obtain rfl : c = o := Option.some.inj (hs.operator o ho).1
    refine ⟨fun _ => by simp [Step.append, Step.keep], ?_, fun o' ho' => ⟨hq, k + 1, ?_⟩, ?_⟩
    · simp [Step.append, Step.keep, hembedded]
    · obtain rfl : c = o' := Option.some.inj (ho.symm.trans ho')
      simp [Step.append, Step.keep, hbuffer, List.replicate_succ' (n := k + 1)]
    · simp [Step.append, Step.keep, hcom]
  · exact held_flush rfl hcom hembedded

theorem held_readComment (h : s.Held) (hcom : s.inComment = false) (ho : s.operator = none)
    (hq : s.quote = none) : (s.readComment c).scan.Held := by
  unfold readComment
  split
  · exact held_append ho hcom fun he => (h.embedded he).1
  · rename_i hword
    exact ⟨h.token, h.embedded, h.operator, fun _ => ⟨hq, Bool.eq_false_iff.mpr hword⟩⟩

theorem held_openQuote (h : s.Held) (hcom : s.inComment = false) (ho : s.operator = none)
    (q : Quote) : (s.openQuote q c).scan.Held := by
  unfold openQuote
  split
  · refine ⟨fun _ => ?_, fun _ => ⟨Option.some_ne_none q, rfl⟩, ?_, ?_⟩
    · simp [Step.append, Step.keep]
    · simp [Step.append, Step.keep, ho]
    · simp [Step.append, Step.keep, hcom]
  · refine ⟨h.token, fun he => ⟨Option.some_ne_none q, (h.embedded he).2⟩, ?_, ?_⟩
    · simp [ho]
    · simp [hcom]

theorem held_keep (h : s.Held) (hcom : s.inComment = false) (ho : s.operator = none) :
    (Step.keep c { scan := s }).scan.Held where
  token _ := by simp [Step.keep]
  embedded := h.embedded
  operator := by simp [Step.keep, ho]
  inComment := by simp [Step.keep, hcom]

theorem held_readQuote (h : s.Held) (hcom : s.inComment = false) (ho : s.operator = none)
    (q : Quote) : (s.readQuote q c).scan.Held := by
  unfold readQuote
  split
  · exact held_openQuote h hcom ho q
  · split
    · exact held_flush ho hcom rfl
    · exact held_keep h hcom ho

theorem held_pending (h : s.Held) (hcom : s.inComment = false) (ho : s.operator = none)
    (hq : s.quote = none) : s.pending.scan.Held := by
  have hembedded := h.embedded_eq_false hq
  unfold pending
  split
  · exact held_flush ho hcom hembedded
  · exact h

theorem exists_pending (s : Scan) :
    ∃ buffer tokens hasToken, s.pending.scan = { s with buffer, tokens, hasToken } := by
  unfold pending
  split <;> exact ⟨_, _, _, rfl⟩

/-- The word before an operator is done, so the operator stands alone in the buffer. -/
theorem held_readOperator (hset : s.Settled) (h : s.Held) (hcom : s.inComment = false)
    (ho : s.operator = none) (hq : s.quote = none) : (s.readOperator c peek).scan.Held := by
  have hembedded := h.embedded_eq_false hq
  have hempty : s.pending.scan.buffer = [] := hset.buffer_pending hq
  obtain ⟨buffer, tokens, hasToken, hpending⟩ := exists_pending s
  obtain rfl : buffer = [] := by rwa [hpending] at hempty
  have happend : (s.pending.flag.append c).scan =
      { s with buffer := [c], tokens, hasToken := true } := by
    simp [Step.append, Step.keep, Step.flag, hpending]
  unfold readOperator
  dsimp only
  split
  · change Held { (s.pending.flag.append c).scan with operator := some c }
    rw [happend]
    refine ⟨fun _ => List.cons_ne_nil c [], fun he => ?_, ?_, fun hc => ?_⟩
    · rw [hembedded] at he
      cases he
    · rintro _ ⟨⟩
      exact ⟨hq, 0, rfl⟩
    · rw [hcom] at hc
      cases hc
  · refine held_flush ?_ ?_ ?_
    · rw [happend, ho]
    · rw [happend, hcom]
    · rw [happend, hembedded]

theorem held_readPlain (hset : s.Settled) (h : s.Held) (hcom : s.inComment = false)
    (ho : s.operator = none) (hq : s.quote = none) : (s.readPlain p c peek).scan.Held := by
  unfold readPlain readSeparator
  split
  · exact held_readOperator hset h hcom ho hq
  · split
    · split
      · exact held_pending h hcom ho hq
      · exact h
    · exact held_append ho hcom fun he => (h.embedded he).1

/-- A comment mark is no quote, so between quotes it is kept and no comment begins. -/
theorem held_read (hp : p.SparesQuotes) (hs : s.Coherent (some c)) (hset : s.Settled) (h : s.Held)
    (hcom : s.inComment = false) : (s.read p c peek).scan.Held := by
  fun_cases Scan.read s p c peek with
  | case1 o ho => exact held_readRun hs h hcom ho
  | case2 ho =>
    unfold readEscaped
    dsimp only
    split
    · exact ⟨h.token, h.embedded, h.operator, h.inComment⟩
    · exact held_append ho hcom fun he => (h.embedded he).1
  | case3 ho =>
    unfold readEscape
    split
    · exact held_append ho hcom fun he => (h.embedded he).1
    · exact ⟨h.token, h.embedded, h.operator, h.inComment⟩
  | case4 ho => exact held_keep h hcom ho
  | case5 ho _ _ hquote hmark =>
    exact held_readComment h hcom ho (by simpa [hp.ofChar?_of_comment hmark] using hquote)
  | case6 ho _ _ _ _ q => exact held_readQuote h hcom ho q
  | case7 ho _ _ hquote _ hc => exact held_readPlain hset h hcom ho (by simpa [hc] using hquote)

theorem held_step (hp : p.SparesQuotes) (hs : s.Coherent (some c)) (hset : s.Settled)
    (h : s.Held) : (s.step p c peek).scan.Held := by
  unfold step
  split
  · exact ⟨h.token, h.embedded, h.operator, h.inComment⟩
  · have hread : (({ s with inComment := false } : Scan).read p c peek).scan.Held :=
      held_read hp ⟨nofun, hs.operator, hs.escaped⟩ hset
        ⟨h.token, h.embedded, h.operator, nofun⟩ rfl
    exact ⟨hread.token, hread.embedded, hread.operator, hread.inComment⟩

theorem held_before (hp : p.SparesQuotes) (hn : n ≤ text.length) : (before p text n).Held := by
  induction n, hn using place_induction with
  | zero => exact before_zero (p := p) ▸ held_start
  | succ n c hc hn _ ih =>
    have hcoherent : (before p text n).Coherent (some c) := hc ▸ coherent_before hn
    exact before_succ hc ▸ held_step hp hcoherent (settled_before hn) ih

theorem marked_before (hn : n ≤ text.length) : (before p text n).Marked := by
  induction n, hn using place_induction with
  | zero => exact before_zero (p := p) ▸ marked_start
  | succ n c hc _ _ ih => exact before_succ hc ▸ marked_step ih _

/-- What is finished stays as it is. -/
theorem tokens_prefix_step : s.tokens <+: (s.step p c peek).scan.tokens := by
  by_cases h : s.ClosesEmbedded p c
  · rw [(step_of_closesEmbedded h peek).2.2.2]
    exact List.prefix_append _ _
  · have htells : (s.step p c peek).Tells s c := tells_step h
    obtain ⟨ended, htokens, -⟩ := htells.tokens
    exact htokens ▸ List.prefix_append _ _

theorem needsShell_step (h : s.needsShell = true) : (s.step p c peek).scan.needsShell = true := by
  rw [step_frame.1, h, Bool.true_or]

theorem finish_eq_pending (s : Scan) : s.finish = s.pending.scan.tokens := by
  unfold finish pending
  split <;> rfl

/-- What holds of the scan that stands before place `n` of the text. -/
structure Consistent (s : Scan) (text : List Char) (n : Nat) : Prop where
  position : s.position = n
  quote : s.quote = none ∨ s.quote = some .single ∨ s.quote = some .double
  quoteStart : s.quoteStart = none ↔ s.quote = none
  opening : ∀ q ∈ s.quote, ∃ start ∈ s.quoteStart,
    start < s.position ∧ text[start]? = some q.char
  token : s.hasToken = true → s.buffer ≠ []
  buffer : s.buffer ≠ [] → s.quote = none → s.hasToken = true
  embedded : s.embedded = true → s.quote ≠ none ∧ s.hasToken = true
  inComment : s.inComment = true → s.quote = none ∧ s.escaped = false ∧ s.operator = none ∧
    s.hasToken = false ∧ s.buffer = []
  escaped : s.escaped = true → s.quote ≠ some .single ∧ s.operator = none
  operator : ∀ o ∈ s.operator, isOperator o = true ∧ (∃ k, s.buffer = List.replicate (k + 1) o) ∧
    s.quote = none ∧ text[n]? = some o

/-- The open quote stands at the place that is remembered for it. -/
theorem opening_before {q : Quote} (hn : n ≤ text.length) (hq : (before p text n).quote = some q) :
    ∃ start ∈ (before p text n).quoteStart, start < n ∧ text[start]? = some q.char := by
  have hstart : (before p text n).quoteStart.isSome = true := by
    rw [(marked_before hn).isSome, hq]
    rfl
  obtain ⟨start, hstart⟩ := Option.isSome_iff_exists.mp hstart
  have hregion : (before p text n).region? = some ⟨q, start, (before p text n).embedded⟩ := by
    simp [region?, hq, hstart]
  have horigin := origin_of_region hn hregion
  exact ⟨start, hstart, horigin.start_lt, horigin.quote⟩

theorem consistent_before (hp : p.SparesQuotes) (hn : n ≤ text.length) :
    (before p text n).Consistent text n := by
  have hcoherent : (before p text n).Coherent text[n]? := coherent_before hn
  have hsettled : (before p text n).Settled := settled_before hn
  have hheld : (before p text n).Held := held_before hp hn
  have hmarked : (before p text n).Marked := marked_before hn
  have hposition : (before p text n).position = n := position_before hn
  refine
    { position := hposition
      quote := ?_
      quoteStart := ?_
      opening := fun q hq => ?_
      token := hheld.token
      buffer := fun hbuffer hq => ?_
      embedded := hheld.embedded
      inComment := fun hcom => ?_
      escaped := fun hesc => ⟨hcoherent.escaped hesc, ?_⟩
      operator := fun o ho => ?_ }
  · rcases (before p text n).quote with _ | _ | _ <;> simp
  · rw [← Option.isNone_iff_eq_none, ← Option.isNone_iff_eq_none, ← Option.not_isSome,
      ← Option.not_isSome, hmarked.isSome]
  · rw [hposition]
    exact opening_before hn hq
  · by_contra hword
    exact hbuffer (hsettled hq (Bool.eq_false_iff.mpr hword))
  · obtain ⟨hq, hword⟩ := hheld.inComment hcom
    obtain ⟨ho, hesc⟩ := hcoherent.inComment hcom
    exact ⟨hq, hesc, ho, hword, hsettled hq hword⟩
  · rw [Option.eq_none_iff_forall_not_mem]
    intro o ho
    rw [(hcoherent.operator o ho).2.2] at hesc
    cases hesc
  · obtain ⟨hnext, hop, -⟩ := hcoherent.operator o ho
    obtain ⟨hq, hrun⟩ := hheld.operator o ho
    exact ⟨hop, hrun, hq, hnext⟩

/-- Every scan that a text leads to is consistent, from the new scan on; each character adds to the
finished tokens and leaves a raised flag up. At the end of a line no operator's run goes on, and if
no quote is open then finishing the last token leaves the buffer empty. -/
theorem stock_consistent (onWindows : Bool) :
    let p := Profile.stock onWindows
    (∀ text n, n ≤ text.length → (before p text n).Consistent text n) ∧
      (∀ text, before p text 0 = {}) ∧
      (∀ text n c, text[n]? = some c →
        let s := before p text n
        let t := before p text (n + 1)
        t = (s.step p c text[n + 1]?).scan ∧
          s.tokens <+: t.tokens ∧ (s.needsShell = true → t.needsShell = true)) ∧
      ∀ line,
        let s := ofLine p line
        s.operator = none ∧
          (s.quote = none →
            Tokens.ofLine p line = .ok ⟨s.pending.scan.tokens.map String.ofList,
              s.needsShell && !s.pending.scan.tokens.isEmpty⟩ ∧
            s.pending.scan.buffer = []) := by
  intro p
  have hp : p.Regular := Profile.stock_regular onWindows
  refine ⟨fun text n hn => consistent_before hp.sparesQuotes hn, fun text => before_zero,
    fun text n c hc => ⟨before_succ hc, ?_, ?_⟩, fun line => ⟨operator_run_eq_none, fun hq => ?_⟩⟩
  · rw [before_succ hc]
    exact tokens_prefix_step
  · rw [before_succ hc]
    exact needsShell_step
  · refine ⟨?_, settled_run.buffer_pending hq⟩
    rw [← finish_eq_pending]
    exact Tokens.ofLine_of_quote hq

/-- A run that goes on, a region inside a word, an escape and a comment. -/
example :
    (before .posix ['a', '&', '&'] 2).operator = some '&' ∧
      (before .posix ['a', '"', 'b'] 3).embedded = true ∧
      (before .posix ['"', '\\', '"'] 2).escaped = true ∧
      (before .posix [' ', '#', 'a'] 2).inComment = true := by
  decide

end Scan

end ShellLine
