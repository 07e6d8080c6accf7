import ShellLine.Proofs.ScanPlaces

/-!
# Characters that leave a line to a shell

A plain character is active if it is an operator, a character that the profile keeps for a shell, or
a newline where no word has begun. A parenthesis that a call mark takes into the word is none of
these. Only a plain character raises the flag, and it does so exactly if it is active; no later
character takes the flag down. So a line with tokens goes to a shell if and only if there is an
active character in it, and one that is quoted, escaped or in a comment never counts.
-/

namespace ShellLine

namespace Scan

variable {p : Profile} {s : Scan} {text : List Char} {n : Nat} {c : Char} {peek : Option Char}

/-- What the character `c` at place `n`, if it is plain, leaves to a shell. -/
inductive Active (p : Profile) (text : List Char) (n : Nat) (c : Char) : Prop where
  | operator (hc : isOperator c = true)
      (hcall : isParen c = true → (text.take n).getLast?.any isCallMark = false)
  | shellOnly (hc : c ∈ p.shellOnly)
  | lineBreak (hc : c = '\n') (hword : (before p text n).hasToken = false)

@[simp] theorem flagged_readRun (operator : Char) :
    (s.readRun operator c peek).flagged = false := by
  unfold readRun
  dsimp only
  split <;> rfl

@[simp] theorem flagged_readEscaped : (s.readEscaped c).flagged = false := by
  unfold readEscaped
  dsimp only
  split <;> rfl

@[simp] theorem flagged_readEscape : (s.readEscape c).flagged = false := by
  unfold readEscape
  split <;> rfl

@[simp] theorem flagged_readComment : (s.readComment c).flagged = false := by
  unfold readComment
  split <;> rfl

@[simp] theorem flagged_openQuote (q : Quote) : (s.openQuote q c).flagged = false := by
  unfold openQuote
  dsimp only
  split <;> rfl

@[simp] theorem flagged_readQuote (q : Quote) : (s.readQuote q c).flagged = false := by
  unfold readQuote
  split
  · exact flagged_openQuote q
  · split <;> rfl

/-- What is in an operator's run, escaped or between quotes raises no flag. -/
theorem open_of_flagged :
    (s.read p c peek).flagged = true → s.operator = none ∧ s.escaped = false ∧ s.quote = none := by
  fun_cases Scan.read s p c peek with
  | case1 | case2 | case3 | case5 | case6 =>
    intro h
    simp at h
  | case4 =>
    intro h
    cases h
  | case7 ho he _ hq _ hquote =>
    refine fun _ => ⟨ho, Bool.eq_false_iff.mpr he, ?_⟩
    simpa [hquote] using hq

theorem plain_of_flagged (h : (s.step p c peek).flagged = true) : s.Plain c := by
  by_cases hcomment : s.inComment = true → c = '\n'
  · rw [step_of_not_swallowed hcomment] at h
    obtain ⟨ho, he, hq⟩ := open_of_flagged h
    exact ⟨⟨hcomment, he, hq⟩, ho⟩
  · have hcomment : (s.inComment && c != '\n') = true := by simpa using hcomment
    unfold step at h
    rw [hcomment] at h
    cases h

theorem flagged_readRole (r : Role) :
    (s.readRole p c peek r).flagged = match r with
      | .escape | .comment | .quote _ => false
      | .operator => !(isParen c && s.previous.any isCallMark) || p.shellOnly.contains c
      | .newline | .blank => !s.hasToken && c = '\n'
      | .plain => p.shellOnly.contains c := by
  cases r with
  | escape => rfl
  | comment => exact flagged_readComment
  | quote q => exact flagged_openQuote q
  | operator =>
    simp only [readRole, readOperator]
    split
    · rename_i hcall
      simp [hcall, Step.append, Step.keep]
    · rename_i hcall
      simp only [hcall, Bool.not_false, Bool.true_or]
      split <;> rfl
  | newline | blank =>
    simp only [readRole, readSeparator, pending]
    cases s.hasToken <;> rfl
  | plain => rfl

/-- A character that is kept for a shell has no other part to play, but for being an operator. -/
theorem role_shellOnly (hp : p.Regular) (hq : ∀ c ∈ p.shellOnly, Quote.ofChar? c = none)
    (hc : c ∈ p.shellOnly) : p.role c = .operator ∨ p.role c = .plain := by
  obtain ⟨hesc, hcom, hblank⟩ := hp.shellOnly c hc
  cases hrole : p.role c with
  | operator => exact .inl rfl
  | plain => exact .inr rfl
  | escape => exact absurd (Profile.role_fits hrole) hesc
  | comment => exact absurd (Profile.role_fits hrole) hcom
  | quote q => exact absurd hrole (Profile.role_ne_quote (hq c hc) q)
  | newline =>
    obtain rfl : c = '\n' := Profile.role_fits hrole
    cases hblank
  | blank =>
    obtain rfl | rfl : c = ' ' ∨ c = '\t' := Profile.role_fits hrole
    · cases hblank
    · cases hblank

theorem stock_shellOnly_ne_quote (onWindows : Bool) :
    ∀ c ∈ (Profile.stock onWindows).shellOnly, Quote.ofChar? c = none := by
  cases onWindows with
  | false =>
    simp only [Profile.stock, Profile.posix, Bool.false_eq_true, if_false, List.forall_mem_cons]
    exact ⟨rfl, rfl, rfl, rfl, rfl, rfl, List.forall_mem_nil _⟩
  | true =>
    simp only [Profile.stock, Profile.windows, if_true, List.forall_mem_cons]
    exact ⟨rfl, rfl, rfl, List.forall_mem_nil _⟩

/-- A plain character raises the flag exactly if it is active. -/
theorem flagged_iff_active (hp : p.Regular) (hq : ∀ c ∈ p.shellOnly, Quote.ofChar? c = none)
    (hn : n ≤ text.length) (h : (before p text n).Plain c) :
    ((before p text n).step p c peek).flagged = true ↔ Active p text n c := by
  rw [step_plain h]
  dsimp only
  rw [flagged_readRole, previous_before hn]
  constructor
  · intro hflag
    cases hrole : p.role c with
    | escape | comment | quote =>
      rw [hrole] at hflag
      cases hflag
    | operator =>
      rw [hrole] at hflag
      rcases Bool.or_eq_true_iff.mp hflag with hcall | hshell
      · exact .operator (Profile.role_fits hrole) fun hparen => by simpa [hparen] using hcall
      · exact .shellOnly (by simpa using hshell)
    | newline =>
      rw [hrole] at hflag
      exact .lineBreak (Profile.role_fits hrole) (by simpa using (Bool.and_eq_true_iff.mp hflag).1)
    | blank =>
      rw [hrole] at hflag
      exact .lineBreak (by simpa using (Bool.and_eq_true_iff.mp hflag).2)
        (by simpa using (Bool.and_eq_true_iff.mp hflag).1)
    | plain =>
      rw [hrole] at hflag
      exact .shellOnly (by simpa using hflag)
  · rintro (⟨hc, hcall⟩ | hc | ⟨rfl, hword⟩)
    · rw [hp.role_operator hc]
      have hcall : (isParen c && (text.take n).getLast?.any isCallMark) = false := by
        rw [Bool.and_eq_false_imp]
        exact hcall
      simp [hcall]
    · rcases role_shellOnly hp hq hc with hrole | hrole
      · simp [hrole, hc]
      · simp [hrole, hc]
    · rw [hp.role_newline]
      simp [hword]

end Scan

namespace Tokens

/-- A line goes to a shell exactly if it has tokens and an active character that is plain. -/
theorem stock_needsShell_iff (onWindows : Bool) {line : String} {tokens : Tokens}
    (h : ofLine (.stock onWindows) line = .ok tokens) :
    let p := Profile.stock onWindows
    let text := line.toList.dropWhile Text.isBlank
    tokens.needsShell = true ↔ tokens.words ≠ [] ∧
      ∃ n c, text[n]? = some c ∧ (Scan.before p text n).Plain c ∧ Scan.Active p text n c := by
  intro p text
  obtain ⟨-, rfl⟩ := scan_of_ok h
  have hp : p.Regular := Profile.stock_regular onWindows
  have hq := Scan.stock_shellOnly_ne_quote onWindows
  have hactive : (Scan.run p {} text).needsShell = true ↔
      ∃ n c, text[n]? = some c ∧ (Scan.before p text n).Plain c ∧ Scan.Active p text n c := by
    rw [← Scan.before_length, Scan.needsShell_before le_rfl]
    constructor
    · rintro ⟨n, hn, c, hc, hflag⟩
      have hplain := Scan.plain_of_flagged hflag
      exact ⟨n, c, hc, hplain, (Scan.flagged_iff_active hp hq (Nat.le_of_lt hn) hplain).mp hflag⟩
    · rintro ⟨n, c, hc, hplain, hact⟩
      have hn : n < text.length := (List.getElem?_eq_some_iff.mp hc).1
      exact ⟨n, hn, c, hc, (Scan.flagged_iff_active hp hq (Nat.le_of_lt hn) hplain).mpr hact⟩
  rw [Bool.and_eq_true, hactive, and_comm]
  simp

/-- Operators and characters for a shell, each out of play, and a parenthesis behind a call mark. -/
theorem stock_needsShell_iff_inert :
    let line := "a@( '|&' \\; \"$\" #>!"
    let text := line.toList.dropWhile Text.isBlank
    ofLine (.stock false) line = .ok ⟨["a@(", "|&", ";", "$"], false⟩ ∧
      ¬ ∃ n c, text[n]? = some c ∧ (Scan.before (.stock false) text n).Plain c ∧
        Scan.Active (.stock false) text n c := by
  intro line text
  have hline : ofLine (.stock false) line = .ok ⟨["a@(", "|&", ";", "$"], false⟩ := by
    decide +kernel
  refine ⟨hline, fun hactive => ?_⟩
  have hshell := (stock_needsShell_iff false hline).mpr ⟨List.cons_ne_nil _ _, hactive⟩
  cases hshell

end Tokens

end ShellLine
