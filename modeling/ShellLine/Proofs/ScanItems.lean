import ShellLine.Proofs.ItemReading
import ShellLine.Proofs.ScanShapes

/-!
# A scan reads one item after the other

The scan of a line goes character by character and remembers what is open; `Profile.items` reads the
same line item by item and remembers nothing. From idle, a scan comes to the end of the next item
just where `Item.read` does and is idle again, so by induction on the items both find the same
tokens and the same open quote. Positions are counted from the end of the text, where both sides
agree on what is left to read.
-/

namespace ShellLine

namespace Scan

variable {p : Profile}

/-- How an idle scan goes on from an attempt to read an item, where the whole text ends at
`total`. -/
def afterItem (p : Profile) (tokens : List (List Char)) (flagged : Bool) (total : Nat) :
    Except Unclosed Item → Except OpenQuote (List (List Char) × Bool)
  | .error e => .error ⟨e.quote, total - e.text.length⟩
  | .ok item =>
    (run p (idle (tokens ++ item.token.toList) (flagged || item.flagged)
      (total - item.rest.length)) item.rest).outcome

section Item

variable {tokens : List (List Char)} {flagged : Bool} {n : Nat}

theorem afterItem_word (text : List Char) (shellOnly : Bool) (total : Nat)
    (r : Except Unclosed Word) :
    afterItem p tokens flagged total (r.map fun w => (w.prepend text shellOnly).item) =
      afterWord p tokens text (flagged || shellOnly) total r := by
  cases r with
  | error e => rfl
  | ok w => simp [Except.map, afterItem, afterWord, Word.item, Word.prepend, Bool.or_assoc]

theorem passed_idle_readOperator {c : Char} (rest : List Char) :
    ((idle tokens flagged n).readOperator c rest.head?).passed c =
      inRun tokens [c] (flagged || true) c (n + 1) rest := by
  by_cases hpeek : rest.head? = some c <;>
    simp [idle, readOperator, pending, inRun, Step.append, Step.keep, Step.flag, Step.flush,
      Step.passed, hpeek]

theorem passed_idle_readComment (c : Char) :
    ((idle tokens flagged n).readComment c).passed c =
      { idle tokens flagged (n + 1) with inComment := true, previous := some c } := by
  simp [readComment, idle, Step.passed]

theorem passed_idle_openQuote (q : Quote) (c : Char) :
    ((idle tokens flagged n).openQuote q c).passed c =
      inRegion tokens [] flagged false false q n c (n + 1) := by
  simp [openQuote, idle, inRegion, Step.passed]

theorem outcome_idle_readSeparator {c : Char} (hc : isCallMark c = false) (rest : List Char) :
    (run p (((idle tokens flagged n).readSeparator c).passed c) rest).outcome =
      afterItem p tokens flagged (n + (c :: rest).length) (.ok { flagged := c = '\n', rest }) := by
  have hidle : ((idle tokens flagged n).readSeparator c).passed c =
      { idle tokens (flagged || c = '\n') (n + 1) with previous := some c } := by
    simp [readSeparator, idle, Step.passed]
  rw [hidle, outcome_idle_previous (by simp [hc])]
  simp only [afterItem, Option.toList_none, List.append_nil, add_length_cons, Nat.add_sub_cancel]

theorem outcome_idle (hp : p.SparesQuotes) (c : Char) (rest : List Char) :
    (run p (idle tokens flagged n) (c :: rest)).outcome =
      afterItem p tokens flagged (n + (c :: rest).length) (Item.read p c rest) := by
  fun_cases Item.read p c rest with
  | case1 hc =>
    rw [run_role ready_idle rfl hc]
    simp [readRole, run, idle, outcome, finish, afterItem, Step.passed]
  | case2 hc rest =>
    obtain rfl : c = p.escape := Profile.role_fits hc
    rw [run_pair ready_idle (by simp [idle])]
    change (run p { idle tokens flagged (n + 2) with previous := some '\n' } rest).outcome = _
    rw [outcome_idle_previous (by simp [isCallMark])]
    simp only [afterItem, Option.toList_none, List.append_nil, Bool.or_false, add_length_cons,
      Nat.add_sub_cancel]
  | case3 hc d rest hd =>
    obtain rfl : c = p.escape := Profile.role_fits hc
    have hword : (d != '\n') = true := by simpa using hd
    rw [run_pair ready_idle (by simp [idle]), afterItem_word, add_length_cons,
      add_length_cons, Bool.or_false, ← outcome_inWord hp d]
    simp [inWord, idle, Item.escaped, hd, hword]
  | case4 rest hc =>
    rw [run_role ready_idle rfl hc]
    simp only [readRole, passed_idle_readComment]
    rw [outcome_inComment]
    simp only [afterItem, Option.toList_none, List.append_nil, Bool.or_false, add_length_cons]
  | case5 rest q hc hr =>
    rw [run_role ready_idle rfl hc]
    simp only [readRole, passed_idle_openQuote]
    rw [outcome_inRegion hp, hr]
    simp only [afterItem, Nat.add_sub_cancel]
  | case6 rest q hc inner rest' hr =>
    obtain rfl : c = q.char := Profile.role_fits hc
    rw [run_role ready_idle rfl hc]
    simp only [readRole, passed_idle_openQuote]
    rw [outcome_inRegion hp, hr]
    simp only [afterItem, Option.toList_some, List.nil_append, Bool.false_eq_true, if_false,
      List.append_nil, Bool.or_false, add_length_cons]
  | case7 rest hc =>
    have hop : isOperator c = true := Profile.role_fits hc
    rw [run_role ready_idle rfl hc]
    simp only [readRole, idle, Option.any_none, Bool.and_false, Bool.false_eq_true, if_false]
    refine (congrArg (fun s => (run p s rest).outcome) (passed_idle_readOperator rest)).trans ?_
    rw [outcome_inRun (isCallMark_of_isOperator hop)]
    simp only [afterItem, Option.toList_some, List.singleton_append, add_length_cons]
  | case8 rest hc =>
    have hnl : c = '\n' := Profile.role_fits hc
    rw [run_role ready_idle rfl hc]
    refine (outcome_idle_readSeparator (hnl ▸ rfl) rest).trans ?_
    simp [hnl]
  | case9 rest hc =>
    have hbl : c = ' ' ∨ c = '\t' := Profile.role_fits hc
    rw [run_role ready_idle rfl hc]
    refine (outcome_idle_readSeparator (by rcases hbl with rfl | rfl <;> rfl) rest).trans ?_
    rcases hbl with rfl | rfl <;> simp
  | case10 rest hc =>
    rw [run_role ready_idle rfl hc, afterItem_word, add_length_cons,
      ← outcome_inWord hp]
    rfl

theorem outcome_idle_reading (hp : p.SparesQuotes) (tokens : List (List Char)) (flagged : Bool)
    (n : Nat) (text : List Char) :
    (run p (idle tokens flagged n) text).outcome =
      match p.reading text with
      | .error e => .error ⟨e.quote, n + text.length - e.text.length⟩
      | .ok (words, shellOnly) => .ok (tokens ++ words, flagged || shellOnly) := by
  induction text using reading_induction (p := p) generalizing tokens flagged n with
  | nil => simp [run, idle, outcome, finish]
  | unclosed c rest e he => rw [outcome_idle hp, he, reading_unclosed he, afterItem]
  | item c rest item hi ih =>
    have hlen := Item.read_rest_length hi
    rw [outcome_idle hp, hi, reading_cons hi, afterItem, ih]
    cases h : p.reading item.rest with
    | error e =>
      have he := reading_unclosed_length h
      have hn : n + (c :: rest).length - item.rest.length + item.rest.length - e.text.length =
          n + (c :: rest).length - e.text.length := by omega
      simp only [hn, Except.map]
    | ok r => simp only [Except.map, List.append_assoc, Bool.or_assoc]

end Item

end Scan

namespace Tokens

variable {p : Profile}

theorem ofChars_eq_outcome (p : Profile) (line : List Char) :
    ofChars p line =
      match (Scan.run p {} (line.dropWhile Text.isBlank)).outcome with
      | .error e =>
        .error ⟨e.kind, e.position + (line.length - (line.dropWhile Text.isBlank).length)⟩
      | .ok (words, flagged) => .ok ⟨words.map String.ofList, flagged && !words.isEmpty⟩ := by
  unfold ofChars Scan.outcome
  cases h : (Scan.run p {} (line.dropWhile Text.isBlank)).quote <;> simp [h]

theorem ofLine_eq_itemTokens (hp : p.SparesQuotes) (line : String) :
    ofLine p line = p.itemTokens line := by
  have hrun := Scan.outcome_idle_reading hp [] false 0
    (line.toList.dropWhile Text.isBlank)
  have hlen := (List.dropWhile_suffix Text.isBlank (l := line.toList)).length_le
  rw [ofLine, ofChars_eq_outcome, Profile.itemTokens]
  change (Scan.run p {} _).outcome = _ at hrun
  rw [hrun]
  cases h : p.reading (line.toList.dropWhile Text.isBlank) with
  | error e =>
    have he := reading_unclosed_length h
    have hn : 0 + (line.toList.dropWhile Text.isBlank).length - e.text.length +
        (line.toList.length - (line.toList.dropWhile Text.isBlank).length) =
        line.toList.length - e.text.length := by omega
    simp only [hn]
  | ok r => simp only [List.nil_append, Bool.false_or]

theorem ofLine_eq_ok_iff (hp : p.SparesQuotes) {line word : String} {words : List String}
    {flagged : Bool} :
    ofLine p line = .ok ⟨word :: words, flagged⟩ ↔
      p.reading (line.toList.dropWhile Text.isBlank) =
        .ok ((word :: words).map String.toList, flagged) := by
  rw [ofLine_eq_itemTokens hp, Profile.itemTokens]
  cases p.reading (line.toList.dropWhile Text.isBlank) with
  | error e => simp
  | ok r =>
    obtain ⟨found, shellOnly⟩ := r
    simp only [Except.ok.injEq, Tokens.mk.injEq, Prod.mk.injEq]
    constructor
    · rintro ⟨hwords, hflag⟩
      obtain ⟨w, found, rfl⟩ := List.exists_cons_of_ne_nil fun h : found = [] => by
        simp [h] at hwords
      rw [← hwords]
      simpa using hflag
    · rintro ⟨rfl, rfl⟩
      simp

/-- Under the stock profiles the scan of any line finds exactly its items. -/
theorem stock_ofLine_eq_itemTokens (onWindows : Bool) (line : String) :
    ofLine (.stock onWindows) line = (Profile.stock onWindows).itemTokens line :=
  ofLine_eq_itemTokens (Profile.stock_regular onWindows).sparesQuotes line

end Tokens

end ShellLine
