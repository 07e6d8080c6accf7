import ShellLine.Proofs.KeptText
import ShellLine.Proofs.LineDispatch
import ShellLine.Proofs.QuotedWords
import ShellLine.Proofs.ScanPast

/-!
# Texts one behind the other

Where no quote, comment or escape is open, a character starts anew unless it goes on with an
operator's run, a call or a word. From there on a text reads as if it stood alone: what was read
before is past. Blanks start anew since they end a word, and so does an operator, which makes a
token with those like it. So two texts with blanks or operators between them have the tokens of
both, and a quote that the second one leaves open is reported at its place behind the first.
-/

namespace ShellLine

/-- A past that ends where the scan begins, and another one before it. -/
theorem Past.report_report (tokens words : List (List Char)) (flagged shellOnly : Bool) (n m : Nat)
    (r : Except OpenQuote (List (List Char) × Bool)) :
    report ⟨tokens, flagged, 0, n⟩ (report ⟨words, shellOnly, 0, m⟩ r) =
      report ⟨tokens ++ words, flagged || shellOnly, 0, n + m⟩ r := by
  cases r with
  | error e => simp [report, moved, Nat.add_assoc, Nat.add_comm m n]
  | ok r => simp [report, Bool.or_assoc]

/-- A test takes what it lets through, up to the first character that it does not. -/
theorem span_append {f : Char → Bool} {body rest : List Char} (hbody : ∀ c ∈ body, f c = true)
    (hrest : ∀ c ∈ rest.head?, f c = false) :
    (body ++ rest).takeWhile f = body ∧ (body ++ rest).dropWhile f = rest := by
  rw [List.takeWhile_append_of_pos hbody, List.dropWhile_append_of_pos hbody]
  cases rest with
  | nil => simp
  | cons c rest => simp [hrest c rfl]

theorem isBlank_of_isOperator {c : Char} (h : isOperator c = true) : Text.isBlank c = false := by
  have hall : ∀ c ∈ operators, Text.isBlank c = false := by
    simp only [operators, List.forall_mem_cons]
    exact ⟨rfl, rfl, rfl, rfl, rfl, rfl, rfl, rfl, List.forall_mem_nil _⟩
  exact hall c (List.contains_iff_mem.mp h)

namespace Scan

variable {p : Profile} {text front rest back : List Char} {c : Char}

/-- The scan of a line to its end. -/
def ofLine (p : Profile) (line : String) : Scan :=
  run p {} (line.toList.dropWhile Text.isBlank)

/-- Neither a quote nor a comment nor an escape is open. -/
structure AtRest (s : Scan) : Prop where
  quote : s.quote = none
  inComment : s.inComment = false
  escaped : s.escaped = false

/-- The character goes on with nothing that stands before it; it may end a word. -/
structure StartsAnew (p : Profile) (s : Scan) (c : Char) : Prop where
  run : s.previous = some c → isOperator c = false
  call : isParen c = true → s.previous.any isCallMark = false
  word : s.hasToken = true → p.role c = .operator ∨ p.role c = .blank

theorem operator_run_eq_none : (run p {} text).operator = none := by
  have hcoherent : (before p text text.length).Coherent text[text.length]? := coherent_before le_rfl
  rw [before_length] at hcoherent
  rw [Option.eq_none_iff_forall_not_mem]
  intro operator hrun
  have hnext := (hcoherent.operator operator hrun).1
  simp at hnext

theorem previous_run : (run p {} text).previous = text.getLast? := by
  rw [← before_length, previous_before le_rfl, List.take_length]

theorem position_run : (run p {} text).position = text.length := by
  rw [← before_length, position_before le_rfl]

theorem embedded_run (h : (run p {} text).quote = none) : (run p {} text).embedded = false := by
  rw [← before_length]
  exact embedded_before le_rfl (region?_eq_none_iff.mpr (before_length ▸ h))

/-- A scan at rest stands between two tokens or in a word. -/
theorem AtRest.idle_or_inWord (h : (run p {} text).AtRest) :
    (∃ tokens flagged,
        run p {} text = { idle tokens flagged text.length with previous := text.getLast? }) ∨
      ∃ tokens buffer flagged previous, text.getLast? = some previous ∧
        run p {} text = inWord tokens buffer flagged previous text.length := by
  have hoperator : (run p {} text).operator = none := operator_run_eq_none
  have hembedded := embedded_run h.quote
  have hstart := (marked_run marked_start text).quoteStart_eq_none h.quote
  have hprevious : (run p {} text).previous = text.getLast? := previous_run
  have hposition : (run p {} text).position = text.length := position_run
  have hsettled : (run p {} text).Settled := settled_run
  obtain ⟨hquote, hcomment, hescaped⟩ := h
  cases hword : (run p {} text).hasToken with
  | false =>
    have hbuffer := hsettled hquote hword
    left
    refine ⟨(run p {} text).tokens, (run p {} text).needsShell, ?_⟩
    cases hs : run p {} text with
    | mk => simp_all [idle]
  | true =>
    have hne : text ≠ [] := by
      rintro rfl
      cases hword
    have hlast := List.getLast?_eq_some_getLast hne
    rw [hlast] at hprevious
    right
    refine ⟨(run p {} text).tokens, (run p {} text).buffer, (run p {} text).needsShell, _, hlast,
      ?_⟩
    cases hs : run p {} text with
    | mk => simp_all [inWord]

/-- At a character that starts anew the tokens end as they would at the end of the text. In a word
it ends the word, and then does what it does between tokens. -/
theorem outcome_startsAnew (h : (run p {} front).AtRest) (hc : (run p {} front).StartsAnew p c)
    (rest : List Char) :
    (run p (run p {} front) (c :: rest)).outcome =
      (run p (idle (run p {} front).finish (run p {} front).needsShell front.length)
        (c :: rest)).outcome := by
  obtain ⟨tokens, flagged, hs⟩ | ⟨tokens, buffer, flagged, previous, -, hs⟩ := h.idle_or_inWord
  · rw [hs] at hc ⊢
    exact outcome_idle_previous (by simpa using hc.call)
  · rw [hs] at hc ⊢
    change _ = (run p (idle (tokens ++ [buffer]) flagged front.length) (c :: rest)).outcome
    rcases hc.word rfl with hop | hblank
    · have hcall : ¬ (isParen c && isCallMark previous) = true := by
        simpa [inWord] using hc.call
      rw [run_cons rfl, passed_read_operator hop hcall, ← run_cons rfl]
    · have hnl : c ≠ '\n' := by
        obtain rfl | rfl : c = ' ' ∨ c = '\t' := Profile.role_fits hblank <;> decide
      rw [run_role ready_inWord rfl hblank, run_role ready_idle rfl hblank]
      simp [readRole, readSeparator, inWord, idle, pending, Step.passed, Step.flush, hnl]

theorem outcome_idle_report (tokens : List (List Char)) (flagged : Bool) (n : Nat)
    (text : List Char) :
    (run p (idle tokens flagged n) text).outcome =
      Past.report ⟨tokens, flagged, 0, n⟩ (run p {} text).outcome := by
  have hidle : idle tokens flagged n = withPast ⟨tokens, flagged, 0, n⟩ {} := by
    simp [idle, withPast]
  rw [hidle, outcome_run_withPast marked_start (Nat.zero_le 0)]

/-- Behind a text at rest, what starts anew reads as if it stood alone. -/
theorem outcome_append (h : (run p {} front).AtRest) (hc : (run p {} front).StartsAnew p c)
    (rest : List Char) :
    (run p {} (front ++ c :: rest)).outcome =
      Past.report ⟨(run p {} front).finish, (run p {} front).needsShell, 0, front.length⟩
        (run p {} (c :: rest)).outcome := by
  have hseam : Seam front (c :: rest) := by
    rintro d hd ⟨⟩
    exact hc.run (previous_run.trans hd)
  rw [run_append_of_seam hseam, outcome_startsAnew h hc, outcome_idle_report]

/-- The first item of a text is behind the rest of it. -/
theorem outcome_item (hp : p.SparesQuotes) {item : Item} (hitem : Item.read p c rest = .ok item) :
    (run p {} (c :: rest)).outcome =
      Past.report ⟨item.token.toList, item.flagged, 0, (c :: rest).length - item.rest.length⟩
        (run p {} item.rest).outcome := by
  have hrun : (run p {} (c :: rest)).outcome =
      afterItem p [] false (0 + (c :: rest).length) (Item.read p c rest) := outcome_idle hp c rest
  rw [hrun, hitem, afterItem, outcome_idle_report, List.nil_append, Bool.false_or, Nat.zero_add]

theorem outcome_operators (hp : p.Regular) (hc : isOperator c = true) (n : Nat)
    (hback : back.head? ≠ some c) :
    (run p {} (c :: (List.replicate n c ++ back))).outcome =
      Past.report ⟨[List.replicate (n + 1) c], true, 0, n + 1⟩ (run p {} back).outcome := by
  obtain ⟨htake, hdrop⟩ : (List.replicate n c ++ back).takeWhile (· = c) = List.replicate n c ∧
      (List.replicate n c ++ back).dropWhile (· = c) = back := by
    refine span_append (by simp) fun d hd => ?_
    simpa using fun h : d = c => hback (h ▸ hd)
  have hitem := Item.read_operator (hp.role_operator hc) (List.replicate n c ++ back)
  rw [htake, hdrop, ← List.replicate_succ] at hitem
  have hlength : (c :: (List.replicate n c ++ back)).length - back.length = n + 1 := by
    simp only [List.length_cons, List.length_append, List.length_replicate]
    omega
  rw [outcome_item hp.sparesQuotes hitem, hlength]
  rfl

theorem outcome_room (hp : p.Regular) {room : List Char} (h : IsRoom room) (back : List Char) :
    (run p {} (room ++ back)).outcome =
      Past.report ⟨[], false, 0, room.length⟩ (run p {} back).outcome := by
  induction room with
  | nil => exact outcome_idle_report [] false 0 back
  | cons c room ih =>
    have hitem := Item.read_blank (hp.role_separator (h c List.mem_cons_self)) (room ++ back)
    have hlength : (c :: (room ++ back)).length - (room ++ back).length = 1 := by simp
    rw [List.cons_append, outcome_item hp.sparesQuotes hitem, hlength,
      ih fun d hd => h d (List.mem_cons_of_mem c hd), Past.report_report, List.length_cons,
      Nat.add_comm room.length]
    rfl

end Scan

namespace Tokens

open Scan

variable {p : Profile} {front rest : List Char}

/-- The tokens of a line that is read from behind its first `lead` characters. -/
def ofOutcome (lead : Nat) :
    Except OpenQuote (List (List Char) × Bool) → Except OpenQuote Tokens
  | .error e => .error { e with position := e.position + lead }
  | .ok (words, flagged) => .ok ⟨words.map String.ofList, flagged && !words.isEmpty⟩

/-- The strip stays in the front of a line, or it goes no further. -/
theorem ofChars_append
    (h : front.dropWhile Text.isBlank = [] → rest.dropWhile Text.isBlank = rest) :
    ofChars p (front ++ rest) =
      ofOutcome (front.length - (front.dropWhile Text.isBlank).length)
        (run p {} (front.dropWhile Text.isBlank ++ rest)).outcome := by
  have htext : (front ++ rest).dropWhile Text.isBlank = front.dropWhile Text.isBlank ++ rest := by
    rw [List.dropWhile_append]
    split
    · rename_i hempty
      have hnil := List.isEmpty_iff.mp hempty
      rw [h hnil, hnil, List.nil_append]
    · rfl
  have hlead : (front ++ rest).length - (front.dropWhile Text.isBlank ++ rest).length =
      front.length - (front.dropWhile Text.isBlank).length := by
    simp only [List.length_append]
    omega
  rw [ofChars_eq_outcome, htext, hlead]
  rfl

theorem dropWhile_of_head {f : Char → Bool} (h : ∀ c ∈ rest.head?, f c = false) :
    rest.dropWhile f = rest := by
  cases rest with
  | nil => rfl
  | cons c rest => simp [h c rfl]

/-- A line that begins with no blank is read as it is. -/
theorem ofLine_of_head {line : String} (h : ∀ c ∈ line.toList.head?, Text.isBlank c = false) :
    ofLine p line = ofOutcome 0 (run p {} line.toList).outcome := by
  have hline : ofChars p ([] ++ line.toList) = _ := ofChars_append fun _ => dropWhile_of_head h
  exact hline

theorem dropWhile_ne_nil {line : String} (h : Text.isAllBlank line = false) :
    line.toList.dropWhile Text.isBlank ≠ [] := by
  intro hnil
  have hall : Text.isAllBlank line = true :=
    List.all_eq_true.mpr (List.dropWhile_eq_nil_iff.mp hnil)
  rw [h] at hall
  cases hall

/-- Behind its blanks a text ends as before. -/
theorem getLast?_dropWhile {f : Char → Bool} (text : List Char) :
    text.dropWhile f = [] ∨ (text.dropWhile f).getLast? = text.getLast? := by
  by_cases h : text.dropWhile f = []
  · exact .inl h
  · right
    conv_rhs => rw [← List.takeWhile_append_dropWhile (p := f) (l := text)]
    rw [List.getLast?_append, List.getLast?_eq_some_getLast h]
    rfl

theorem ofLine_of_quote {line : String} (h : (Scan.ofLine p line).quote = none) :
    ofLine p line = .ok ⟨(Scan.ofLine p line).finish.map String.ofList,
      (Scan.ofLine p line).needsShell && !(Scan.ofLine p line).finish.isEmpty⟩ := by
  have hquote : (run p {} (line.toList.dropWhile Text.isBlank)).quote = none := h
  simp only [ofLine, ofChars, hquote]
  rfl

theorem ofLine_of_atRest {line : String} (h : (Scan.ofLine p line).AtRest) :
    ofLine p line = .ok ⟨(Scan.ofLine p line).finish.map String.ofList,
      (Scan.ofLine p line).needsShell && !(Scan.ofLine p line).finish.isEmpty⟩ :=
  ofLine_of_quote h.quote

/-- A line in two parts, where the second part starts anew. -/
theorem ofLine_append {front rest : String} {c : Char} {text : List Char}
    (h : (Scan.ofLine p front).AtRest) (hrest : rest.toList = c :: text)
    (hanew : (Scan.ofLine p front).StartsAnew p c)
    (hblank : front.toList.dropWhile Text.isBlank = [] → Text.isBlank c = false) :
    ofLine p (front ++ rest) =
      ofOutcome 0 (Past.report
        ⟨(Scan.ofLine p front).finish, (Scan.ofLine p front).needsShell, 0, front.length⟩
        (run p {} (c :: text)).outcome) := by
  have hle := (List.dropWhile_suffix Text.isBlank (l := front.toList)).length_le
  have hstrip : front.toList.dropWhile Text.isBlank = [] →
      (c :: text).dropWhile Text.isBlank = c :: text := by
    intro hnil
    refine dropWhile_of_head ?_
    rintro _ ⟨⟩
    exact hblank hnil
  rw [ofLine, String.toList_append, hrest, ofChars_append hstrip, outcome_append h hanew]
  cases (run p {} (c :: text)).outcome with
  | error e =>
    have hposition : e.position + (front.toList.dropWhile Text.isBlank).length +
        (front.toList.length - (front.toList.dropWhile Text.isBlank).length) =
        e.position + front.length := by
      rw [← String.length_toList]
      omega
    simp [Past.report, Past.moved, ofOutcome, hposition]
  | ok r => rfl

theorem startsAnew_operator (hp : p.Regular) {front : String} {c : Char}
    (hc : isOperator c = true) (hlast : front.toList.getLast? ≠ some c)
    (hcall : isParen c = true → front.toList.getLast?.any isCallMark = false) :
    (Scan.ofLine p front).StartsAnew p c := by
  have hprevious : (Scan.ofLine p front).previous =
      (front.toList.dropWhile Text.isBlank).getLast? := previous_run
  have hend := getLast?_dropWhile (f := Text.isBlank) front.toList
  refine ⟨fun h => ?_, fun hparen => ?_, fun _ => .inl (hp.role_operator hc)⟩
  · rw [hprevious] at h
    rcases hend with hnil | hend
    · rw [hnil] at h
      cases h
    · exact absurd (hend.symm.trans h) hlast
  · rw [hprevious]
    rcases hend with hnil | hend
    · rw [hnil]
      rfl
    · rw [hend]
      exact hcall hparen

theorem startsAnew_blank (hp : p.Regular) {front : String} {c : Char} (hc : c = ' ' ∨ c = '\t') :
    (Scan.ofLine p front).StartsAnew p c where
  run _ := by rcases hc with rfl | rfl <;> rfl
  call hparen := by rcases hc with rfl | rfl <;> cases hparen
  word _ := .inr (hp.role_separator hc)

variable {words : List (List Char)} {flagged : Bool} {n : Nat}
  {r : Except OpenQuote (List (List Char) × Bool)}

/-- Behind other tokens those of a text count as before; its flag does if it has any. -/
theorem ofOutcome_report_ok {after : Tokens} (h : ofOutcome 0 r = .ok after) (hwords : words ≠ [])
    (hafter : flagged = true ∨ after.words ≠ []) :
    ofOutcome 0 (Past.report ⟨words, flagged, 0, n⟩ r) =
      .ok ⟨words.map String.ofList ++ after.words, flagged || after.needsShell⟩ := by
  cases r with
  | error e => cases h
  | ok r =>
    obtain ⟨found, needs⟩ := r
    obtain rfl := Except.ok.inj h
    have hall : (words ++ found).isEmpty = false := by simp [hwords]
    have hflag : (flagged || needs) = (flagged || needs && !found.isEmpty) := by
      cases flagged with
      | true => rfl
      | false =>
        have hfound : found.isEmpty = false := by simpa using hafter
        rw [hfound, Bool.not_false, Bool.and_true]
    simp [Past.report, ofOutcome, hall, hflag]

theorem ofOutcome_report_error {e : OpenQuote} (h : ofOutcome 0 r = .error e) :
    ofOutcome 0 (Past.report ⟨words, flagged, 0, n⟩ r) =
      .error { e with position := n + e.position } := by
  cases r with
  | ok r => cases h
  | error e =>
    obtain rfl := Except.error.inj h
    simp [Past.report, Past.moved, ofOutcome, Nat.add_comm]

/-- A run of an operator is a token of its own wherever nothing is open and the run is whole. What
stands before it and what follows it keep their tokens, and a quote left open behind it is reported
at its place. -/
theorem stock_ofLine_operators (onWindows : Bool) {front back : String} {c : Char} {n : Nat}
    (hfront : (Scan.ofLine (.stock onWindows) front).AtRest) (hc : isOperator c = true)
    (hn : 1 ≤ n) (hlast : front.toList.getLast? ≠ some c)
    (hcall : isParen c = true → front.toList.getLast?.any isCallMark = false)
    (hback : ∀ d ∈ back.toList.head?, Text.isBlank d = false ∧ d ≠ c) :
    let p := Profile.stock onWindows
    let operators := String.ofList (List.replicate n c)
    ∃ before, ofLine p front = .ok before ∧
      (∀ after, ofLine p back = .ok after →
        ofLine p (front ++ operators ++ back) =
          .ok ⟨before.words ++ operators :: after.words, true⟩) ∧
      ∀ e, ofLine p back = .error e →
        ofLine p (front ++ operators ++ back) =
          .error { e with position := front.length + n + e.position } := by
  intro p operators
  obtain ⟨n, rfl⟩ : ∃ m, n = m + 1 := Nat.exists_eq_succ_of_ne_zero (by omega)
  have hp : p.Regular := Profile.stock_regular onWindows
  have htext : (operators ++ back).toList = c :: (List.replicate n c ++ back.toList) := by
    rw [String.toList_append, String.toList_ofList]
    rfl
  have hanew : (Scan.ofLine p front).StartsAnew p c := startsAnew_operator hp hc hlast hcall
  have hjoined : ofLine p (front ++ operators ++ back) =
      ofOutcome 0 (Past.report
        ⟨(Scan.ofLine p front).finish ++ [List.replicate (n + 1) c], true, 0,
          front.length + (n + 1)⟩ (run p {} back.toList).outcome) := by
    have hnext : back.toList.head? ≠ some c := fun h => (hback c h).2 rfl
    rw [String.append_assoc, ofLine_append hfront htext hanew fun _ => isBlank_of_isOperator hc,
      outcome_operators hp hc n hnext, Past.report_report, Bool.or_true]
  have hafter : ofLine p back = ofOutcome 0 (run p {} back.toList).outcome :=
    ofLine_of_head fun d hd => (hback d hd).1
  refine ⟨_, ofLine_of_atRest hfront, fun after h => ?_, fun e h => ?_⟩
  · rw [hjoined, ofOutcome_report_ok (hafter ▸ h) (by simp) (.inl rfl)]
    simp [operators]
  · rw [hjoined, ofOutcome_report_error (hafter ▸ h)]

/-- The first parenthesis belongs to a word; the run of two stands behind an escaped operator and
ends the word that it is in. -/
theorem stock_ofLine_operators_parens :
    let front := " @( \\&"
    (Scan.ofLine (.stock false) front).AtRest ∧
      ofLine (.stock false) front = .ok ⟨["@(", "&"], false⟩ ∧
      ofLine (.stock false) (front ++ "((" ++ "d)") =
        .ok ⟨["@(", "&", "((", "d", ")"], true⟩ ∧
      ofLine (.stock false) (front ++ "((" ++ "d \"e") = .error ⟨.double, 10⟩ := by
  intro front
  have hrest : (Scan.ofLine (.stock false) front).AtRest :=
    ⟨by decide +kernel, by decide +kernel, by decide +kernel⟩
  have hfront : ofLine (.stock false) front = .ok ⟨["@(", "&"], false⟩ := by decide +kernel
  have hlast : front.toList.getLast? = some '&' := by decide
  have hjoined (back : String)
      (hback : ∀ d ∈ back.toList.head?, Text.isBlank d = false ∧ d ≠ '(') :=
    stock_ofLine_operators false (n := 2) hrest (c := '(') rfl (by decide) (by simp [hlast])
      (by simp [hlast, isCallMark]) hback
  obtain ⟨before, hbefore, hok, -⟩ := hjoined "d)" (by rintro _ ⟨⟩; decide)
  obtain ⟨-, -, -, herror⟩ := hjoined "d \"e" (by rintro _ ⟨⟩; decide)
  obtain rfl := Except.ok.inj (hfront.symm.trans hbefore)
  have hlength : front.length = 6 := by decide +kernel
  have hplace := herror ⟨.double, 2⟩ (by decide +kernel)
  rw [hlength] at hplace
  exact ⟨hrest, hfront, hok ⟨["d", ")"], true⟩ (by decide +kernel), hplace⟩

/-- Two texts with room between them have the tokens of both, and a quote that the second one leaves
open is reported at its place. -/
theorem stock_ofLine_room (onWindows : Bool) {front room back : String} {before : Tokens}
    (hrest : (Scan.ofLine (.stock onWindows) front).AtRest) (hroom : IsRoom room.toList)
    (hne : room ≠ "") (hfront : ofLine (.stock onWindows) front = .ok before)
    (hwords : before.words ≠ []) (hback : ∀ d ∈ back.toList.head?, Text.isBlank d = false) :
    let p := Profile.stock onWindows
    (∀ after, ofLine p back = .ok after → after.words ≠ [] →
      ofLine p (front ++ room ++ back) =
        .ok ⟨before.words ++ after.words, before.needsShell || after.needsShell⟩) ∧
    ∀ e, ofLine p back = .error e →
      ofLine p (front ++ room ++ back) =
        .error { e with position := front.length + room.length + e.position } := by
  intro p
  have hp : p.Regular := Profile.stock_regular onWindows
  obtain ⟨c, text, hchars⟩ : ∃ c text, room.toList = c :: text :=
    List.exists_cons_of_ne_nil fun h => hne (String.toList_eq_nil_iff.mp h)
  have htext : (room ++ back).toList = c :: (text ++ back.toList) := by
    rw [String.toList_append, hchars]
    rfl
  have hanew : (Scan.ofLine p front).StartsAnew p c :=
    startsAnew_blank hp (hroom c (hchars ▸ List.mem_cons_self))
  have hstart := dropWhile_ne_nil (not_isAllBlank_of_words hfront hwords)
  have hjoined : ofLine p (front ++ room ++ back) =
      ofOutcome 0 (Past.report
        ⟨(Scan.ofLine p front).finish, (Scan.ofLine p front).needsShell, 0,
          front.length + room.length⟩ (run p {} back.toList).outcome) := by
    rw [String.append_assoc, ofLine_append hrest htext hanew fun h => absurd h hstart,
      ← List.cons_append, ← hchars, outcome_room hp hroom, Past.report_report, List.append_nil,
      Bool.or_false, String.length_toList]
  have hafter : ofLine p back = ofOutcome 0 (run p {} back.toList).outcome := ofLine_of_head hback
  have hbefore : ofLine p front = .ok _ := ofLine_of_atRest hrest
  obtain rfl := Except.ok.inj (hfront.symm.trans hbefore)
  have hfinish : (Scan.ofLine p front).finish ≠ [] := by simpa using hwords
  refine ⟨fun after h hfound => ?_, fun e h => ?_⟩
  · have hsome : (Scan.ofLine p front).finish.isEmpty = false := by simp [hfinish]
    rw [hjoined, ofOutcome_report_ok (hafter ▸ h) hfinish (.inr hfound), hsome, Bool.not_false,
      Bool.and_true]
  · rw [hjoined, ofOutcome_report_error (hafter ▸ h)]

/-- The first text ends with a quote that is kept; the flag comes from the second. -/
theorem stock_ofLine_room_quoted :
    let front := "a'b c'"
    (Scan.ofLine (.stock false) front).AtRest ∧
      ofLine (.stock false) front = .ok ⟨["a'b c'"], false⟩ ∧
      ofLine (.stock false) (front ++ " \t" ++ "#d\n|e") = .ok ⟨["a'b c'", "|", "e"], true⟩ ∧
      ofLine (.stock false) (front ++ " \t" ++ "d \"e") = .error ⟨.double, 10⟩ := by
  intro front
  have hrest : (Scan.ofLine (.stock false) front).AtRest :=
    ⟨by decide +kernel, by decide +kernel, by decide +kernel⟩
  have hfront : ofLine (.stock false) front = .ok ⟨["a'b c'"], false⟩ := by decide +kernel
  have hroom : IsRoom " \t".toList := by simp [IsRoom]
  have hjoined (back : String) (hback : ∀ d ∈ back.toList.head?, Text.isBlank d = false) :=
    stock_ofLine_room false hrest hroom (by decide) hfront (by simp) hback
  obtain ⟨hok, -⟩ := hjoined "#d\n|e" (by rintro _ ⟨⟩; decide)
  obtain ⟨-, herror⟩ := hjoined "d \"e" (by rintro _ ⟨⟩; decide)
  have hlength : front.length + " \t".length = 8 := by decide +kernel
  have hplace := herror ⟨.double, 2⟩ (by decide +kernel)
  rw [hlength] at hplace
  exact ⟨hrest, hfront, hok ⟨["|", "e"], true⟩ (by decide +kernel) (by simp), hplace⟩

end Tokens

end ShellLine
