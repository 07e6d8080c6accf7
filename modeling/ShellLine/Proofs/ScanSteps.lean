import ShellLine.Proofs.Items

/-!
# One step of a scan

A scan is ready when no comment, operator or escape reaches over to the next character. What a ready
scan does with a character depends on its role alone outside quotes; between quotes only the escape
and the quote that is open matter. An escape takes the character behind it along, so that two steps
come to one.
-/

namespace ShellLine

/-- The scan that goes on to the next character. -/
def Step.passed (t : Step) (c : Char) : Scan :=
  { t.scan with
    needsShell := t.scan.needsShell || t.flagged
    previous := some c
    position := t.scan.position + 1 }

namespace Scan

variable {p : Profile} {s : Scan}

/-- What a scan comes to when nothing follows: the open quote, or the tokens and the flag. -/
def outcome (s : Scan) : Except OpenQuote (List (List Char) × Bool) :=
  match s.quote with
  | some kind => .error ⟨kind, s.quoteStart.getD 0⟩
  | none => .ok (s.finish, s.needsShell)

/-- The next character speaks for itself: no comment, operator or escape reaches over to it. -/
structure Ready (s : Scan) : Prop where
  inComment : s.inComment = false
  operator : s.operator = none
  escaped : s.escaped = false

theorem run_cons (h : s.inComment = false) (c : Char) (rest : List Char) :
    run p s (c :: rest) = run p ((s.read p c rest.head?).passed c) rest := by
  have hs : { s with inComment := false } = s := by rw [← h]
  simp only [run, step, h, hs, Bool.false_and, Bool.false_eq_true, if_false, Step.passed]

/-- What a scan does with a character that speaks for itself, outside quotes. -/
def readRole (p : Profile) (s : Scan) (c : Char) (peek : Option Char) : Role → Step
  | .escape => { scan := { s with escaped := true } }
  | .comment => s.readComment c
  | .quote q => s.openQuote q c
  | .operator =>
    if isParen c && s.previous.any isCallMark then
      Step.append c { scan := s, flagged := p.shellOnly.contains c }
    else s.readOperator c peek
  | .newline | .blank => s.readSeparator c
  | .plain => Step.append c { scan := s, flagged := p.shellOnly.contains c }

theorem read_of_role (hs : s.Ready) (hq : s.quote = none) (c : Char) (peek : Option Char) :
    s.read p c peek = s.readRole p c peek (p.role c) := by
  unfold readRole
  unfold Scan.read Profile.role
  simp only [hs.operator, hs.escaped, hq]
  by_cases hesc : c = p.escape
  · simp [hesc, readEscape, hq, hs.operator]
  by_cases hcom : p.comment = some c
  · simp [hesc, hcom]
  cases hquote : Quote.ofChar? c with
  | some q => simp [hesc, hcom, readQuote, hq]
  | none =>
    by_cases hop : isOperator c
    · have hsep := isSeparator_of_isOperator hop
      by_cases hcall : (isParen c && s.previous.any isCallMark) = true
      · simp [hesc, hcom, readPlain, hop, hsep, hcall]
      · simp [hesc, hcom, readPlain, hop, hcall]
    · by_cases hnl : c = '\n'
      · subst hnl
        simp [hesc, hcom, readPlain, hop, isSeparator]
      · by_cases hbl : c = ' ' ∨ c = '\t'
        · simp [hesc, hcom, readPlain, hop, hnl, hbl, isSeparator]
        · simp [hesc, hcom, readPlain, hop, hnl, hbl, isSeparator]

theorem run_role (hs : s.Ready) (hq : s.quote = none) {c : Char} {r : Role} (hc : p.role c = r)
    (rest : List Char) :
    run p s (c :: rest) = run p ((s.readRole p c rest.head? r).passed c) rest := by
  rw [run_cons hs.inComment, read_of_role hs hq, hc]

theorem read_of_quote (hp : p.SparesQuotes) (hs : s.Ready) {q : Quote} (hq : s.quote = some q)
    (c : Char) (peek : Option Char) :
    s.read p c peek =
      if p.escapesIn q c then { scan := { s with escaped := true } }
      else if c = q.char then s.closeQuote c
      else if c = p.escape then Step.append c { scan := s }
      else Step.keep c { scan := s } := by
  unfold Scan.read
  simp only [hs.operator, hs.escaped, hq]
  by_cases hesc : c = p.escape
  · have hc := hp.escape_ne q
    have ho := hs.operator
    cases q <;> simp_all [readEscape, Profile.escapesIn, Ne.symm hc]
  · cases hquote : Quote.ofChar? c with
    | none =>
      have hc : c ≠ q.char := fun h => by simp [Quote.ofChar?_eq_some.mpr h] at hquote
      simp [hesc, Profile.escapesIn, hc]
    | some r =>
      have hr := Quote.ofChar?_eq_some.mp hquote
      have hcom : p.comment ≠ some c := hr ▸ hp.comment_ne r
      cases q <;> cases r <;> simp_all [readQuote, Profile.escapesIn, Quote.char]

/-- An escape and the character behind it. -/
theorem run_pair (hs : s.Ready) (hq : s.quote ≠ some .single) (d : Char) (rest : List Char) :
    run p s (p.escape :: d :: rest) =
      run p { s with
        buffer := s.buffer ++ Item.escaped d
        hasToken := s.hasToken || d != '\n'
        previous := some d
        position := s.position + 2 } rest := by
  have hread : s.read p p.escape (d :: rest).head? = { scan := { s with escaped := true } } := by
    unfold Scan.read
    simp [hs.operator, hs.escaped, readEscape, hq]
  rw [run_cons hs.inComment, hread, run_cons (by exact hs.inComment)]
  congr 1
  unfold Scan.read
  by_cases hd : d = '\n' <;>
    simp [Step.passed, hs.operator, readEscaped, Item.escaped, Step.append, Step.keep, hd,
      hs.escaped, Nat.add_assoc]

end Scan

end ShellLine
