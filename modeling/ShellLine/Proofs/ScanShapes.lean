import ShellLine.Proofs.ScanSteps

/-!
# The shapes of a scan inside an item

Each place inside an item is a shape of scan: `idle` between items, `inWord`, `inRegion`, and
`inRun` behind a character of an operator's run. For each shape one induction over the text says how
the scan comes to the end of what it is in, and that it is idle there. Only the last character of an
idle scan is left over, and it does not matter: it would count for a parenthesis alone, and no item
ends with a call mark and leaves a parenthesis to the next.
-/

namespace ShellLine.Scan

variable {p : Profile}

/-- No word has begun, and nothing is open. -/
def idle (tokens : List (List Char)) (flagged : Bool) (n : Nat) : Scan :=
  { tokens, needsShell := flagged, position := n }

theorem ready_idle {tokens : List (List Char)} {flagged : Bool} {n : Nat} :
    (idle tokens flagged n).Ready :=
  ⟨rfl, rfl, rfl⟩

/-- An idle scan looks back only from a parenthesis. -/
theorem outcome_idle_previous {tokens : List (List Char)} {flagged : Bool} {n : Nat}
    {previous : Option Char} {text : List Char}
    (h : ∀ c ∈ text.head?, (isParen c && previous.any isCallMark) = false) :
    (run p { idle tokens flagged n with previous } text).outcome =
      (run p (idle tokens flagged n) text).outcome := by
  cases text with
  | nil => rfl
  | cons c rest =>
    have hc : (isParen c && previous.any isCallMark) = false := h c rfl
    have hread : ({ idle tokens flagged n with previous }.read p c rest.head?).passed c =
        ((idle tokens flagged n).read p c rest.head?).passed c := by
      rw [read_of_role ⟨rfl, rfl, rfl⟩ rfl, read_of_role ready_idle rfl]
      by_cases hpeek : rest.head? = some c <;> cases p.role c <;>
        simp [readRole, readComment, openQuote, readSeparator, readOperator, pending, Step.append,
          Step.keep, Step.flag, Step.flush, Step.passed, idle, hc, hpeek]
    rw [run_cons rfl, run_cons rfl, hread]

/-- Between quotes: the text so far in the buffer, and the place where the region began. -/
def inRegion (tokens : List (List Char)) (buffer : List Char) (flagged hasToken embedded : Bool)
    (q : Quote) (start : Nat) (previous : Char) (n : Nat) : Scan :=
  { tokens, buffer, needsShell := flagged, hasToken, embedded, quote := some q
    quoteStart := some start, previous := some previous, position := n }

theorem add_length_cons (n : Nat) (c : Char) (rest : List Char) :
    n + (c :: rest).length = n + 1 + rest.length := by
  simp only [List.length_cons]
  omega

section Region

variable {tokens : List (List Char)} {buffer : List Char} {flagged hasToken embedded : Bool}
variable {q : Quote} {start : Nat} {previous : Char} {n : Nat}

theorem ready_inRegion :
    (inRegion tokens buffer flagged hasToken embedded q start previous n).Ready :=
  ⟨rfl, rfl, rfl⟩

theorem passed_closeQuote :
    ((inRegion tokens buffer flagged hasToken embedded q start previous n).closeQuote
        q.char).passed q.char =
      { idle (tokens ++ [buffer ++ if embedded then [q.char] else []]) flagged (n + 1) with
        previous := some q.char } := by
  cases embedded <;> simp [closeQuote, Step.flush, Step.passed, inRegion, idle]

theorem passed_read_inside (hp : p.SparesQuotes) {c : Char} (peek : Option Char)
    (he : ¬ p.escapesIn q c) (hc : c ≠ q.char) :
    ((inRegion tokens buffer flagged hasToken embedded q start previous n).read p c peek).passed c =
      inRegion tokens (buffer ++ [c]) flagged (hasToken || c == p.escape) embedded q start c
        (n + 1) := by
  rw [read_of_quote hp ready_inRegion rfl, if_neg he, if_neg hc]
  by_cases hesc : c = p.escape <;> simp [Step.append, Step.keep, Step.passed, inRegion, hesc]

theorem outcome_inRegion (hp : p.SparesQuotes) (text : List Char) :
    (run p (inRegion tokens buffer flagged hasToken embedded q start previous n) text).outcome =
      match Item.region p q text with
      | none => .error ⟨q, start⟩
      | some (inner, rest) =>
        (run p (idle (tokens ++ [buffer ++ inner ++ if embedded then [q.char] else []]) flagged
          (n + text.length - rest.length)) rest).outcome := by
  fun_induction Item.region p q text generalizing buffer hasToken previous n with
  | case1 => rfl
  | case2 c he =>
    rw [run_cons rfl, read_of_quote hp ready_inRegion rfl, if_pos he]
    rfl
  | case3 c he d text ih =>
    obtain ⟨hq, rfl⟩ : q = .double ∧ c = p.escape := by simpa [Profile.escapesIn] using he
    rw [run_pair ready_inRegion (by simp [inRegion, hq])]
    have hrest : (run p (inRegion tokens (buffer ++ Item.escaped d) flagged
        (hasToken || d != '\n') embedded q start d (n + 2)) text).outcome = _ := ih
    refine hrest.trans ?_
    cases Item.region p q text with
    | none => rfl
    | some r => simp only [Option.map_some, List.append_assoc, add_length_cons]
  | case4 text he =>
    rw [run_cons rfl, read_of_quote hp ready_inRegion rfl, if_neg he, if_pos rfl,
      passed_closeQuote, outcome_idle_previous]
    · simp only [List.append_nil, add_length_cons, Nat.add_sub_cancel]
    · intro c _
      cases q <;> simp [Quote.char, isCallMark]
  | case5 c text he hc ih =>
    rw [run_cons rfl, passed_read_inside hp _ he hc, ih]
    cases Item.region p q text with
    | none => rfl
    | some r =>
      simp only [Option.map_some, List.append_assoc, List.singleton_append, add_length_cons]

end Region

section Word

/-- Inside a word, outside quotes. -/
def inWord (tokens : List (List Char)) (buffer : List Char) (flagged : Bool) (previous : Char)
    (n : Nat) : Scan :=
  { tokens, buffer, hasToken := true, needsShell := flagged, previous := some previous
    position := n }

variable {tokens : List (List Char)} {buffer : List Char} {flagged : Bool} {previous : Char}
variable {n : Nat}

theorem ready_inWord : (inWord tokens buffer flagged previous n).Ready :=
  ⟨rfl, rfl, rfl⟩

theorem passed_openQuote (q : Quote) (c : Char) :
    ((inWord tokens buffer flagged previous n).openQuote q c).passed c =
      inRegion tokens (buffer ++ [c]) flagged true true q n c (n + 1) := by
  simp [openQuote, inWord, inRegion, Step.append, Step.keep, Step.passed]

/-- An operator ends the word before it and is then read as if there had been none. -/
theorem passed_read_operator {c : Char} (hc : p.role c = .operator)
    (hcall : ¬ (isParen c && isCallMark previous)) (peek : Option Char) :
    ((inWord tokens buffer flagged previous n).read p c peek).passed c =
      ((idle (tokens ++ [buffer]) flagged n).read p c peek).passed c := by
  rw [read_of_role ready_inWord rfl, read_of_role ready_idle rfl]
  by_cases hpeek : peek = some c <;>
    simp [readRole, inWord, idle, hc, hcall, readOperator, pending, Step.append, Step.keep,
      Step.flag, Step.flush, Step.passed, hpeek]

/-- How a scan goes on from an attempt to read a word, where the whole text ends at `total`. -/
def afterWord (p : Profile) (tokens : List (List Char)) (buffer : List Char) (flagged : Bool)
    (total : Nat) : Except Unclosed Word → Except OpenQuote (List (List Char) × Bool)
  | .error e => .error ⟨e.quote, total - e.text.length⟩
  | .ok w =>
    (run p (idle (tokens ++ [buffer ++ w.text]) (flagged || w.flagged)
      (total - w.rest.length)) w.rest).outcome

theorem afterWord_prepend (text : List Char) (shellOnly : Bool) (total : Nat)
    (r : Except Unclosed Word) :
    afterWord p tokens buffer flagged total (r.map (.prepend text shellOnly)) =
      afterWord p tokens (buffer ++ text) (flagged || shellOnly) total r := by
  cases r with
  | error e => rfl
  | ok w => simp only [Except.map, afterWord, Word.prepend, List.append_assoc, Bool.or_assoc]

theorem outcome_readSeparator {c : Char} (hc : isCallMark c = false) (rest : List Char) :
    (run p (((inWord tokens buffer flagged previous n).readSeparator c).passed c) rest).outcome =
      afterWord p tokens buffer flagged (n + (c :: rest).length) (.ok { rest }) := by
  have hidle : ((inWord tokens buffer flagged previous n).readSeparator c).passed c =
      { idle (tokens ++ [buffer]) flagged (n + 1) with previous := some c } := by
    simp [readSeparator, pending, Step.flush, Step.passed, inWord, idle]
  rw [hidle, outcome_idle_previous (by simp [hc])]
  simp only [afterWord, List.append_nil, Bool.or_false, add_length_cons, Nat.add_sub_cancel]

theorem outcome_inWord (hp : p.SparesQuotes) (previous : Char) (text : List Char) :
    (run p (inWord tokens buffer flagged previous n) text).outcome =
      afterWord p tokens buffer flagged (n + text.length) (Item.word p previous text) := by
  fun_induction Item.word p previous text generalizing buffer flagged n with
  | case1 => simp [run, inWord, idle, outcome, finish, afterWord]
  | case2 _ c hc =>
    rw [run_role ready_inWord rfl hc]
    simp [readRole, run, inWord, idle, outcome, finish, afterWord, Step.passed]
  | case3 _ c hc d rest ih =>
    obtain rfl : c = p.escape := Profile.role_fits hc
    rw [run_pair ready_inWord (by simp [inWord]), afterWord_prepend, Bool.or_false,
      add_length_cons, add_length_cons]
    exact ih
  | case4 _ c rest hc ih =>
    rw [run_role ready_inWord rfl hc, afterWord_prepend, add_length_cons]
    exact ih
  | case5 _ c rest q hc hr =>
    rw [run_role ready_inWord rfl hc]
    simp only [readRole, passed_openQuote]
    rw [outcome_inRegion hp, hr]
    simp [afterWord]
  | case6 _ c rest q hc inner rest' hr =>
    obtain rfl : c = q.char := Profile.role_fits hc
    rw [run_role ready_inWord rfl hc]
    simp only [readRole, passed_openQuote]
    rw [outcome_inRegion hp, hr, ← add_length_cons n q.char]
    simp [afterWord]
  | case7 _ c rest hc hcall ih =>
    rw [run_role ready_inWord rfl hc, afterWord_prepend, add_length_cons]
    simp only [readRole, inWord, Option.any_some, hcall, if_true]
    exact ih
  | case8 _ c rest hc hcall =>
    rw [run_cons rfl, passed_read_operator hc hcall, ← run_cons rfl]
    simp [afterWord]
  | case9 _ c rest hc =>
    have hnl : c = '\n' := Profile.role_fits hc
    rw [run_role ready_inWord rfl hc]
    exact outcome_readSeparator (hnl ▸ rfl) rest
  | case10 _ c rest hc =>
    have hbl : c = ' ' ∨ c = '\t' := Profile.role_fits hc
    rw [run_role ready_inWord rfl hc]
    exact outcome_readSeparator (by rcases hbl with rfl | rfl <;> rfl) rest
  | case11 _ c rest hc ih =>
    rw [run_role ready_inWord rfl hc, afterWord_prepend, add_length_cons]
    exact ih

end Word

/-- A comment goes on to the next newline. -/
theorem outcome_inComment {tokens : List (List Char)} {flagged : Bool} {previous : Option Char}
    {n : Nat} (text : List Char) :
    (run p { idle tokens flagged n with inComment := true, previous } text).outcome =
      (run p (idle tokens flagged (n + text.length - (text.dropWhile (· ≠ '\n')).length))
        (text.dropWhile (· ≠ '\n'))).outcome := by
  induction text generalizing previous n with
  | nil => rfl
  | cons c rest ih =>
    by_cases hc : c = '\n'
    · have hrun : run p { idle tokens flagged n with inComment := true, previous } (c :: rest) =
          run p { idle tokens flagged n with previous } (c :: rest) := by
        simp [run, step, idle, hc]
      rw [hrun, outcome_idle_previous (by simp [hc, isParen])]
      simp [hc]
    · have hrun : run p { idle tokens flagged n with inComment := true, previous } (c :: rest) =
          run p { idle tokens flagged (n + 1) with inComment := true, previous := some c }
            rest := by
        simp [run, step, idle, hc]
      rw [hrun, ih, add_length_cons]
      simp [hc]

/-- What a scan is after one more `c` of an operator's run; the run goes on as long as `c` does. -/
def inRun (tokens : List (List Char)) (buffer : List Char) (flagged : Bool) (c : Char) (n : Nat)
    (text : List Char) : Scan :=
  if text.head? = some c then
    { tokens, buffer, hasToken := true, needsShell := flagged, operator := some c
      previous := some c, position := n }
  else { idle (tokens ++ [buffer]) flagged n with previous := some c }

theorem outcome_inRun {tokens : List (List Char)} {buffer : List Char} {flagged : Bool} {c : Char}
    {n : Nat} (hc : isCallMark c = false) (text : List Char) :
    (run p (inRun tokens buffer flagged c n text) text).outcome =
      (run p (idle (tokens ++ [buffer ++ text.takeWhile (· = c)]) flagged
        (n + text.length - (text.dropWhile (· = c)).length)) (text.dropWhile (· = c))).outcome := by
  induction text generalizing buffer n with
  | nil =>
    rw [inRun, if_neg (by simp), outcome_idle_previous (by simp)]
    simp
  | cons d rest ih =>
    by_cases hd : d = c
    · subst hd
      have hrun : run p (inRun tokens buffer flagged d n (d :: rest)) (d :: rest) =
          run p (inRun tokens (buffer ++ [d]) flagged d (n + 1) rest) rest := by
        rw [inRun, List.head?_cons, if_pos rfl, run_cons rfl]
        by_cases hpeek : rest.head? = some d <;>
          simp [Scan.read, readRun, inRun, Step.append, Step.keep, Step.flush, Step.passed, idle,
            hpeek]
      rw [hrun, ih, add_length_cons]
      simp
    · rw [inRun, if_neg (by simp [hd]), outcome_idle_previous (by simp [hc])]
      simp [hd]

end ShellLine.Scan
