import ShellLine.Proofs.OpenRegion

/-!
# What lies behind a scan

A scan goes on from its buffer and from what is open. It does not look at the tokens it has
finished, at the flag, or at its place: it only adds to them. So scans that differ in these alone
stay so over any text, and they come to the same but for the tokens and the flag they brought along
and for the places that have moved. The last character counts for a parenthesis only, and what
follows a character counts only if it is the same operator again.
-/

namespace ShellLine

/-- What one scan has behind it and another has not: finished tokens, a flag, and `length`
characters of the text that stand before `place`. -/
structure Past where
  tokens : List (List Char)
  needsShell : Bool
  place : Nat
  length : Nat

namespace Past

variable {a : Past} {n : Nat}

/-- Where place `n` has moved to. -/
def moved (a : Past) (n : Nat) : Nat :=
  if n < a.place then n else n + a.length

theorem moved_of_lt (h : n < a.place) : a.moved n = n :=
  if_pos h

theorem moved_of_le (h : a.place ≤ n) : a.moved n = n + a.length :=
  if_neg (Nat.not_lt.mpr h)

/-- What a scan comes to that has this past in addition. -/
def report (a : Past) :
    Except OpenQuote (List (List Char) × Bool) → Except OpenQuote (List (List Char) × Bool)
  | .error e => .error { e with position := a.moved e.position }
  | .ok (words, flagged) => .ok (a.tokens ++ words, a.needsShell || flagged)

end Past

def Scan.withPast (a : Past) (s : Scan) : Scan :=
  { s with
    tokens := a.tokens ++ s.tokens
    needsShell := a.needsShell || s.needsShell
    quoteStart := s.quoteStart.map a.moved
    position := s.position + a.length }

def Step.withPast (a : Past) (t : Step) : Step :=
  { t with scan := t.scan.withPast a }

theorem Step.flush_withPast (a : Past) (t : Step) :
    (t.withPast a).flush = t.flush.withPast a := by
  simp [Step.withPast, Step.flush, Scan.withPast]

namespace Scan

variable {p : Profile} {a : Past} {s : Scan} {c : Char} {peek : Option Char}

section Reading

@[simp] theorem hasToken_withPast : (s.withPast a).hasToken = s.hasToken := rfl

@[simp] theorem escaped_withPast : (s.withPast a).escaped = s.escaped := rfl

@[simp] theorem quote_withPast : (s.withPast a).quote = s.quote := rfl

@[simp] theorem inComment_withPast : (s.withPast a).inComment = s.inComment := rfl

@[simp] theorem operator_withPast : (s.withPast a).operator = s.operator := rfl

@[simp] theorem previous_withPast : (s.withPast a).previous = s.previous := rfl

theorem pending_withPast : (s.withPast a).pending = s.pending.withPast a := by
  cases h : s.hasToken with
  | true =>
    simp only [pending, hasToken_withPast, h, if_true]
    exact Step.flush_withPast a { scan := s }
  | false =>
    simp only [pending, hasToken_withPast, h, Bool.false_eq_true, if_false]
    rfl

theorem readRun_withPast (operator : Char) :
    (s.withPast a).readRun operator c peek = (s.readRun operator c peek).withPast a := by
  unfold readRun
  split
  · rfl
  · exact Step.flush_withPast a { Step.append c { scan := s } with scan.operator := none }

theorem readEscaped_withPast : (s.withPast a).readEscaped c = (s.readEscaped c).withPast a := by
  unfold readEscaped
  split <;> rfl

theorem readEscape_withPast : (s.withPast a).readEscape c = (s.readEscape c).withPast a := by
  by_cases h : s.quote = some .single
  · simp only [readEscape, quote_withPast, h, if_true]
    rfl
  · simp only [readEscape, quote_withPast, h, if_false]
    rfl

theorem readComment_withPast : (s.withPast a).readComment c = (s.readComment c).withPast a := by
  cases h : s.hasToken with
  | true =>
    simp only [readComment, hasToken_withPast, h, if_true]
    rfl
  | false =>
    simp only [readComment, hasToken_withPast, h, Bool.false_eq_true, if_false]
    rfl

/-- Only an opening quote takes the place of the scan down. -/
theorem openQuote_withPast (h : a.place ≤ s.position) (q : Quote) :
    (s.withPast a).openQuote q c = (s.openQuote q c).withPast a := by
  unfold openQuote
  cases hword : s.hasToken <;>
    simp [Step.withPast, Step.append, Step.keep, withPast, Past.moved_of_le h, hword]

theorem closeQuote_withPast : (s.withPast a).closeQuote c = (s.closeQuote c).withPast a :=
  Step.flush_withPast a { scan := { s with
    buffer := if s.embedded then s.buffer ++ [c] else s.buffer
    embedded := false
    quote := none
    quoteStart := none } }

theorem readQuote_withPast (h : a.place ≤ s.position) (q : Quote) :
    (s.withPast a).readQuote q c = (s.readQuote q c).withPast a := by
  simp only [readQuote, quote_withPast]
  split
  · exact openQuote_withPast h q
  · split
    · exact closeQuote_withPast
    · rfl

theorem readPlain_withPast :
    (s.withPast a).readPlain p c peek = (s.readPlain p c peek).withPast a := by
  simp only [readPlain, readOperator, readSeparator, previous_withPast, hasToken_withPast,
    pending_withPast]
  split
  · split
    · rfl
    · exact Step.flush_withPast a (s.pending.flag.append c)
  · split
    · split <;> rfl
    · rfl

theorem read_withPast (h : a.place ≤ s.position) :
    (s.withPast a).read p c peek = (s.read p c peek).withPast a := by
  simp only [Scan.read, operator_withPast, escaped_withPast, quote_withPast, readRun_withPast,
    readEscaped_withPast, readEscape_withPast, readComment_withPast, readQuote_withPast h,
    readPlain_withPast]
  split
  · rfl
  · split_ifs
    · rfl
    · rfl
    · rfl
    · rfl
    · split <;> rfl

end Reading

/-- A step does the same with a past as without, and keeps the past as it is. -/
theorem step_withPast (h : a.place ≤ s.position) (peek : Option Char) :
    (s.withPast a).step p c peek = (s.step p c peek).withPast a := by
  by_cases hcomment : s.inComment = true → c = '\n'
  · have hread : Scan.read (withPast a { s with inComment := false }) p c peek =
        (Scan.read { s with inComment := false } p c peek).withPast a := read_withPast h
    have hclear : { s.withPast a with inComment := false } =
        withPast a { s with inComment := false } := rfl
    rw [step_of_not_swallowed hcomment, step_of_not_swallowed (s := s.withPast a) hcomment, hclear,
      hread]
    simp [Step.withPast, Step.passed, withPast, Bool.or_assoc, Nat.add_right_comm]
  · have hcomment : (s.inComment && c != '\n') = true := by simpa using hcomment
    unfold step
    rw [inComment_withPast, hcomment]
    simp [Step.withPast, withPast, Nat.add_right_comm]

theorem run_withPast (h : a.place ≤ s.position) (text : List Char) :
    run p (s.withPast a) text = (run p s text).withPast a := by
  induction text generalizing s with
  | nil => rfl
  | cons c text ih =>
    have hposition : (s.step p c text.head?).scan.position = s.position + 1 := step_frame.2.2
    rw [run, step_withPast h]
    exact ih (by omega)

theorem finish_withPast : (s.withPast a).finish = a.tokens ++ s.finish := by
  unfold finish
  cases h : s.hasToken <;> simp [withPast, h]

/-- The place of a quote is known exactly while one is open, and it lies behind the scan. -/
structure Marked (s : Scan) : Prop where
  isSome : s.quoteStart.isSome = s.quote.isSome
  lt : ∀ n ∈ s.quoteStart, n < s.position

theorem marked_start : ({} : Scan).Marked :=
  ⟨rfl, nofun⟩

theorem Marked.quoteStart_eq_none (h : s.Marked) (hq : s.quote = none) : s.quoteStart = none := by
  have hnone := h.isSome
  rw [hq] at hnone
  exact Option.isSome_eq_false_iff.mp hnone |> Option.isNone_iff_eq_none.mp

/-- What a character does to the mark of the open quote. -/
inductive Marks (s t : Scan) : Prop where
  | stays (hq : t.quote = s.quote) (h : t.quoteStart = s.quoteStart)
  | clears (hq : t.quote = none) (h : t.quoteStart = none)
  | sets (q : Quote) (hq : t.quote = some q) (h : t.quoteStart = some s.position)

theorem Writes.marks {t : Scan} (h : s.Writes t) : Marks s t := by
  obtain ⟨_, _, _, _, rfl⟩ := h
  exact .stays rfl rfl

theorem marks_read : Marks s (s.read p c peek).scan := by
  fun_cases Scan.read s p c peek with
  | case1 operator => exact (writes_readRun operator).marks
  | case2 =>
    unfold readEscaped
    dsimp only
    split <;> exact .stays rfl rfl
  | case3 =>
    unfold readEscape
    split <;> exact .stays rfl rfl
  | case4 => exact .stays rfl rfl
  | case5 =>
    unfold readComment
    split <;> exact .stays rfl rfl
  | case6 _ _ _ _ _ q =>
    unfold readQuote
    split
    · exact .sets q rfl rfl
    · split
      · exact .clears rfl rfl
      · exact .stays rfl rfl
  | case7 => exact writes_readPlain.marks

theorem marked_step (h : s.Marked) (peek : Option Char) : (s.step p c peek).scan.Marked := by
  have hposition : (s.step p c peek).scan.position = s.position + 1 := step_frame.2.2
  have hmarks : Marks s (s.step p c peek).scan := by
    unfold step
    split
    · exact .stays rfl rfl
    · have hread : Marks { s with inComment := false }
          (({ s with inComment := false } : Scan).read p c peek).scan := marks_read
      cases hread with
      | stays hq h => exact .stays hq h
      | clears hq h => exact .clears hq h
      | sets q hq h => exact .sets q hq h
  cases hmarks with
  | stays hq hstart =>
    refine ⟨by rw [hq, hstart, h.isSome], fun n hn => ?_⟩
    have hlt := h.lt n (hstart ▸ hn)
    omega
  | clears hq hstart => exact ⟨by rw [hq, hstart]; rfl, by simp [hstart]⟩
  | sets q hq hstart =>
    refine ⟨by rw [hq, hstart]; rfl, fun n hn => ?_⟩
    obtain rfl : s.position = n := Option.some.inj (hstart.symm.trans hn)
    omega

theorem marked_run (h : s.Marked) (text : List Char) : (run p s text).Marked := by
  induction text generalizing s with
  | nil => exact h
  | cons c text ih => exact ih (marked_step h _)

theorem outcome_withPast (h : s.Marked) : (s.withPast a).outcome = a.report s.outcome := by
  unfold outcome
  rw [quote_withPast, finish_withPast]
  cases hq : s.quote with
  | none => rfl
  | some q =>
    have hstart : s.quoteStart.isSome = true := by rw [h.isSome, hq]; rfl
    obtain ⟨n, hn⟩ := Option.isSome_iff_exists.mp hstart
    simp [withPast, hn, Past.report]

/-- A scan with a past comes to the same as without, with that past in addition. -/
theorem outcome_run_withPast (hs : s.Marked) (h : a.place ≤ s.position) (text : List Char) :
    (run p (s.withPast a) text).outcome = a.report (run p s text).outcome := by
  rw [run_withPast h, outcome_withPast (marked_run hs text)]

/-- What was read last counts for a parenthesis alone, and only where it is read plainly. -/
theorem passed_read_previous {previous : Option Char}
    (h : (isParen c && previous.any isCallMark) = (isParen c && s.previous.any isCallMark)) :
    (({ s with previous } : Scan).read p c peek).passed c = (s.read p c peek).passed c := by
  unfold Scan.read
  dsimp only
  split
  · unfold readRun
    split <;> rfl
  · split_ifs
    · unfold readEscaped
      dsimp only
      split <;> rfl
    · unfold readEscape
      dsimp only
      split <;> rfl
    · rfl
    · unfold readComment
      dsimp only
      split <;> rfl
    · split
      · unfold readQuote openQuote
        dsimp only
        split
        · split <;> rfl
        · split <;> rfl
      · unfold readPlain readOperator readSeparator pending
        dsimp only
        rw [h]
        split_ifs <;> rfl

theorem step_previous {previous : Option Char}
    (h : (isParen c && previous.any isCallMark) = (isParen c && s.previous.any isCallMark))
    (peek : Option Char) :
    (({ s with previous } : Scan).step p c peek).scan = (s.step p c peek).scan := by
  unfold step
  dsimp only
  split
  · rfl
  · exact passed_read_previous (s := { s with inComment := false }) h

theorem outcome_previous {previous : Option Char} {text : List Char}
    (h : ∀ c ∈ text.head?, isParen c = true → previous.any isCallMark = s.previous.any isCallMark) :
    (run p { s with previous } text).outcome = (run p s text).outcome := by
  cases text with
  | nil => rfl
  | cons c text =>
    have hcall : (isParen c && previous.any isCallMark) =
        (isParen c && s.previous.any isCallMark) := by
      cases hparen : isParen c with
      | false => rfl
      | true => rw [h c rfl hparen]
    rw [run, run, step_previous hcall]

/-- What follows a character counts only if it is the same operator. -/
theorem scan_step_follower (hs : s.Coherent (some c))
    (h : peek = some c → isOperator c = false) :
    (s.step p c peek).scan = (s.step p c none).scan := by
  have hread : Scan.read { s with inComment := false } p c peek =
      Scan.read { s with inComment := false } p c none := by
    have hpeek : isOperator c = true → peek ≠ some c := by
      rintro hop rfl
      rw [h rfl] at hop
      cases hop
    unfold Scan.read
    dsimp only
    split
    · rename_i operator hrun
      obtain ⟨hnext, hop, -⟩ := hs.operator operator hrun
      obtain rfl : c = operator := Option.some.inj hnext
      simp [readRun, hpeek hop]
    · unfold readPlain readOperator
      by_cases hop : isOperator c = true
      · simp only [hpeek hop, reduceCtorEq, if_false]
      · simp only [hop, Bool.false_and, Bool.false_eq_true, if_false]
  unfold step
  rw [hread]

theorem before_append (text rest : List Char) :
    before p (text ++ rest) text.length = upTo p {} text rest := by
  rw [before, List.take_left, List.drop_left]

/-- The text ends with its last character, whatever follows: no operator's run goes on. -/
def Seam (text rest : List Char) : Prop :=
  ∀ c ∈ text.getLast?, rest.head? = some c → isOperator c = false

/-- Only the last character of a text sees what follows the text. -/
theorem upTo_eq_run {text rest : List Char} (h : Seam text rest) :
    upTo p {} text rest = run p {} text := by
  rw [run_eq_upTo]
  cases text using List.reverseRecOn with
  | nil => rfl
  | append_singleton text c =>
    have hcoherent : (upTo p {} text (c :: rest)).Coherent (some c) := by
      have hplace : (before p (text ++ c :: rest) text.length).Coherent
          (text ++ c :: rest)[text.length]? := coherent_before (by simp)
      rwa [before_append, List.getElem?_append_right le_rfl, Nat.sub_self] at hplace
    have hfront : upTo p {} text [c] = upTo p {} text (c :: rest) :=
      upTo_congr (show [c].head? = (c :: rest).head? from rfl) text
    rw [upTo_concat, upTo_concat, hfront]
    exact scan_step_follower hcoherent (h c (by simp))

theorem run_append_of_seam {text rest : List Char} (h : Seam text rest) :
    run p {} (text ++ rest) = run p (run p {} text) rest := by
  rw [run_append, upTo_eq_run h]

end Scan

end ShellLine
